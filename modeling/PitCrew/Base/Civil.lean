import Mathlib.Data.List.GetD
import Mathlib.Data.String.Basic

/-! # Civil times

Days since 1970-01-01 as dates of the Gregorian calendar, and seconds since then as the texts of RFC 3339 in UTC.
Dates are counted from the first of March, so that the leap day is the last one of its year, in eras of 400 years. -/

namespace Base.Civil

structure Date where
  year : Int
  month : Int
  day : Int
  deriving DecidableEq, Repr

/-! ## Dates -/

/-- The year of its era that a day is in: centuries of 36524 days, then four years of 1461 days, then years. The
    last of each may have a day more. -/
def yearOfEra (day : Int) : Int :=
  let century := min (day / 36524) 3
  let ofCentury := day - 36524 * century
  100 * century + 4 * (ofCentury / 1461) + min (ofCentury % 1461 / 365) 3

/-- The days of an era before a year of it. -/
def daysBefore (year : Int) : Int := 365 * year + year / 4 - year / 100

/-- The date of a day of a year that begins in March. -/
def ofMarch (year dayOfYear : Int) : Date :=
  -- 153 days are five months from March or August on
  let month := (5 * dayOfYear + 2) / 153
  { year := if month < 10 then year else year + 1
    month := if month < 10 then month + 3 else month - 9
    day := dayOfYear - (153 * month + 2) / 5 + 1 }

def Date.marchYear (date : Date) : Int := if date.month ≤ 2 then date.year - 1 else date.year

def Date.dayOfMarchYear (date : Date) : Int :=
  (153 * (if date.month ≤ 2 then date.month + 9 else date.month - 3) + 2) / 5 + date.day - 1

def ofDays (days : Int) : Date :=
  let day := (days + 719468) % 146097
  ofMarch (400 * ((days + 719468) / 146097) + yearOfEra day) (day - daysBefore (yearOfEra day))

def Date.toDays (date : Date) : Int :=
  date.marchYear / 400 * 146097 + daysBefore (date.marchYear % 400) + date.dayOfMarchYear - 719468

theorem yearOfEra_bounds {day : Int} (h : 0 ≤ day) (hlt : day < 146097) :
    0 ≤ yearOfEra day ∧ yearOfEra day < 400 ∧ 0 ≤ day - daysBefore (yearOfEra day) ∧
      day - daysBefore (yearOfEra day) < 366 := by
  unfold yearOfEra daysBefore
  dsimp only
  generalize hcentury : min (day / 36524) 3 = century
  generalize hfours : (day - 36524 * century) / 1461 = fours
  generalize hyear : min ((day - 36524 * century) % 1461 / 365) 3 = year
  have hquarter : (100 * century + 4 * fours + year) / 4 = 25 * century + fours := by omega
  have hhundred : (100 * century + 4 * fours + year) / 100 = century := by omega
  rw [hquarter, hhundred]
  omega

structure Date.Proper (date : Date) : Prop where
  month : 1 ≤ date.month ∧ date.month ≤ 12
  day : 1 ≤ date.day ∧ date.day ≤ 31

section March
variable {year dayOfYear : Int} (hfirst : 0 ≤ dayOfYear) (hlast : dayOfYear < 366)
include hfirst hlast

theorem ofMarch_proper : (ofMarch year dayOfYear).Proper := by
  unfold ofMarch
  refine ⟨?_, ?_⟩
  · dsimp only
    split <;> omega
  · dsimp only
    omega

theorem marchYear_ofMarch : (ofMarch year dayOfYear).marchYear = year := by
  unfold ofMarch Date.marchYear
  dsimp only
  split <;> split <;> omega

theorem dayOfMarchYear_ofMarch : (ofMarch year dayOfYear).dayOfMarchYear = dayOfYear := by
  unfold ofMarch Date.dayOfMarchYear
  dsimp only
  split <;> split <;> omega

end March

theorem dayOfEra_bounds (days : Int) : 0 ≤ (days + 719468) % 146097 ∧ (days + 719468) % 146097 < 146097 :=
  ⟨Int.emod_nonneg _ (by decide), Int.emod_lt_of_pos _ (by decide)⟩

theorem ofDays_proper (days : Int) : (ofDays days).Proper := by
  obtain ⟨hnonneg, hlt⟩ := dayOfEra_bounds days
  obtain ⟨-, -, hfirst, hlast⟩ := yearOfEra_bounds hnonneg hlt
  exact ofMarch_proper hfirst hlast

theorem toDays_ofDays (days : Int) : (ofDays days).toDays = days := by
  obtain ⟨hnonneg, hlt⟩ := dayOfEra_bounds days
  obtain ⟨hyear, hyears, hfirst, hlast⟩ := yearOfEra_bounds hnonneg hlt
  rw [Date.toDays, ofDays, marchYear_ofMarch hfirst hlast, dayOfMarchYear_ofMarch hfirst hlast,
    Int.mul_add_ediv_left _ _ (by decide), Int.ediv_eq_zero_of_lt hyear hyears, Int.mul_add_emod_self_left,
    Int.emod_eq_of_lt hyear hyears]
  omega

theorem ofDays_year {days : Int} (hfirst : -719528 ≤ days) (hlast : days ≤ 2932896) :
    0 ≤ (ofDays days).year ∧ (ofDays days).year ≤ 9999 := by
  obtain ⟨hnonneg, hlt⟩ := dayOfEra_bounds days
  obtain ⟨hyear, hyears, hdays, hrest⟩ := yearOfEra_bounds hnonneg hlt
  -- only the first and the last days of the range are in years that end in another era
  have hera : (days + 719468) / 146097 = -1 ∨ (days + 719468) / 146097 = 24 ∨
      0 ≤ (days + 719468) / 146097 ∧ (days + 719468) / 146097 ≤ 23 := by omega
  simp only [ofDays, ofMarch]
  generalize yearOfEra ((days + 719468) % 146097) = year at *
  unfold daysBefore at *
  rcases hera with hera | hera | hera
  · rw [hera]
    split <;> omega
  · rw [hera]
    split <;> omega
  · split <;> omega

/-! ## Texts -/

def digit (n : Int) : Char := Nat.digitChar n.toNat

def digitValue (c : Char) : Int := c.toNat - 48

theorem digitValue_digit {n : Int} (h : 0 ≤ n) (hlt : n < 10) : digitValue (digit n) = n := by
  obtain ⟨k, rfl⟩ := Int.eq_ofNat_of_zero_le h
  have hk : k < 10 := by omega
  have hdigits : ∀ k < 10, digitValue (digit (k : Nat)) = k := by decide
  exact hdigits k hk

def pair (n : Int) : List Char := [digit (n / 10), digit (n % 10)]

def number (text : List Char) (place : Nat) : Int :=
  10 * digitValue (text.getD place '0') + digitValue (text.getD (place + 1) '0')

theorem number_pair {n : Int} (h : 0 ≤ n) (hlt : n < 100) :
    10 * digitValue (digit (n / 10)) + digitValue (digit (n % 10)) = n := by
  rw [digitValue_digit (by omega) (by omega), digitValue_digit (by omega) (by omega)]
  omega

/-- `YYYY-MM-DDThh:mm:ssZ`. -/
def characters (seconds : Int) : List Char :=
  let date := ofDays (seconds / 86400)
  let time := seconds % 86400
  pair (date.year / 100) ++ pair (date.year % 100) ++ '-' :: pair date.month ++ '-' :: pair date.day ++
    'T' :: pair (time / 3600) ++ ':' :: pair (time / 60 % 60) ++ ':' :: pair (time % 60) ++ ['Z']

def format (seconds : Int) : String := String.ofList (characters seconds)

def read (text : List Char) : Int :=
  let date : Date := { year := 100 * number text 0 + number text 2, month := number text 5, day := number text 8 }
  date.toDays * 86400 + number text 11 * 3600 + number text 14 * 60 + number text 17

/-- Only what `format` prints is read. -/
def parse (text : String) : Option Int :=
  if format (read text.toList) = text then some (read text.toList) else none

theorem read_characters {seconds : Int} (hfirst : -62167219200 ≤ seconds) (hlast : seconds < 253402300800) :
    read (characters seconds) = seconds := by
  obtain ⟨hyear, hyears⟩ := @ofDays_year (seconds / 86400) (by omega) (by omega)
  obtain ⟨⟨hmonth, hmonths⟩, hday, hdays⟩ := ofDays_proper (seconds / 86400)
  have hdate : ({ year := 100 * ((ofDays (seconds / 86400)).year / 100) + (ofDays (seconds / 86400)).year % 100
                  month := (ofDays (seconds / 86400)).month
                  day := (ofDays (seconds / 86400)).day } : Date) = ofDays (seconds / 86400) := by
    rw [Int.mul_ediv_add_emod]
  simp only [read, number, characters, pair, List.cons_append, List.nil_append, List.getD_cons_zero,
    List.getD_cons_succ]
  rw [number_pair (by omega) (by omega), number_pair (by omega) (by omega), number_pair (by omega) (by omega),
    number_pair (by omega) (by omega), number_pair (by omega) (by omega), number_pair (by omega) (by omega),
    number_pair (by omega) (by omega), hdate, toDays_ofDays]
  omega

theorem parse_format {seconds : Int} (hfirst : -62167219200 ≤ seconds) (hlast : seconds < 253402300800) :
    parse (format seconds) = some seconds := by
  have hread : read (format seconds).toList = seconds := by
    rw [format, String.toList_ofList, read_characters hfirst hlast]
  rw [parse, hread, if_pos rfl]

example : format 1782896400 = "2026-07-01T09:00:00Z" := by decide +kernel

end Base.Civil

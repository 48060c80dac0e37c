import Mathlib.Algebra.BigOperators.Intervals
import Mathlib.Algebra.Order.BigOperators.Group.List
import Mathlib.Data.Int.ModEq
import Mathlib.Tactic

/-! # Rotating integer shares

An amount is split among `n` parties as evenly as integers allow: everyone gets the quotient, and the
remainder goes, one each, to the parties from a cursor on. Quotient and remainder truncate, as machine
division does. The shares add up to the amount exactly when the cursor is at most `n`, or `n` is one:
a cursor further on makes the index negative, and a negative remainder is below any other. What the
shares then promise beyond the amount is `surplus`, and `Covers` says when it keeps nobody from a unit. -/

namespace Base

/-- The share of the party at `index`. -/
def share (cursor n index amount : Int) : Int :=
  if (index - cursor + n).tmod n < amount.tmod n then amount.tdiv n + 1 else amount.tdiv n

theorem share_cases (cursor n index amount : Int) :
    share cursor n index amount = amount.tdiv n ∨ share cursor n index amount = amount.tdiv n + 1 := by
  unfold share
  split
  · exact Or.inr rfl
  · exact Or.inl rfl

theorem share_nonneg {cursor n index amount : Int} (hn : 0 < n) (ha : 0 ≤ amount) :
    0 ≤ share cursor n index amount := by
  have hq : 0 ≤ amount.tdiv n := Int.tdiv_nonneg ha hn.le
  rcases share_cases cursor n index amount with h | h <;> omega

theorem share_mono {cursor n index a b : Int} (hn : 0 < n) (hab : a ≤ b) :
    share cursor n index a ≤ share cursor n index b := by
  have hq : a.tdiv n ≤ b.tdiv n := Int.tdiv_le_tdiv hn hab
  have hra := Int.mul_tdiv_add_tmod a n
  have hrb := Int.mul_tdiv_add_tmod b n
  unfold share
  rcases hq.lt_or_eq with hlt | heq
  · split <;> split <;> omega
  · rw [heq] at hra ⊢
    have : a.tmod n ≤ b.tmod n := by omega
    split <;> split <;> omega

section Partition
variable {cursor : Int} {n : Nat}

theorem sum_turned (f : Nat → Int) (cursor : Int) (n : Nat) :
    ∑ i ∈ Finset.range n, f (((i : Int) - cursor) % n).toNat = ∑ i ∈ Finset.range n, f i := by
  rcases Nat.eq_zero_or_pos n with rfl | hn
  · rfl
  have hpos : (0 : Int) < n := by exact_mod_cast hn
  have hnonneg (i : Nat) : 0 ≤ ((i : Int) - cursor) % n := Int.emod_nonneg _ hpos.ne'
  have hlt (i : Nat) : ((i : Int) - cursor) % n < n := Int.emod_lt_of_pos _ hpos
  have hinj : Set.InjOn (fun i : Nat => (((i : Int) - cursor) % n).toNat) (Finset.range n) := by
    intro i hi j hj hij
    rw [Finset.coe_range, Set.mem_Iio] at hi hj
    have h₁ := hnonneg i
    have h₂ := hnonneg j
    have hmod : ((i : Int) - cursor) % n = ((j : Int) - cursor) % n := by
      dsimp only at hij
      omega
    have heq : (i : Int) % n = j % n := Int.ModEq.add_right_cancel' (-cursor) hmod
    rw [Int.emod_eq_of_lt (by omega) (by omega), Int.emod_eq_of_lt (by omega) (by omega)] at heq
    exact_mod_cast heq
  have himage : (Finset.range n).image (fun i : Nat => (((i : Int) - cursor) % n).toNat) = Finset.range n := by
    refine Finset.eq_of_subset_of_card_le (fun x hx => ?_) ?_
    · obtain ⟨i, -, rfl⟩ := Finset.mem_image.mp hx
      have := hlt i
      have := hnonneg i
      exact Finset.mem_range.mpr (by omega)
    · rw [Finset.card_image_of_injOn hinj]
  calc ∑ i ∈ Finset.range n, f (((i : Int) - cursor) % n).toNat
      = ∑ j ∈ (Finset.range n).image (fun i : Nat => (((i : Int) - cursor) % n).toNat), f j :=
        (Finset.sum_image hinj).symm
    _ = ∑ j ∈ Finset.range n, f j := by rw [himage]

theorem sum_range_lt (n x : Nat) : ∑ i ∈ Finset.range n, (if i < x then (1 : Int) else 0) = min (n : Int) x := by
  have : (Finset.range n).filter (· < x) = Finset.range (min n x) := by
    ext i
    simp only [Finset.mem_filter, Finset.mem_range, lt_min_iff]
  rw [← Finset.sum_filter, this, Finset.sum_const, Finset.card_range, nsmul_eq_mul, mul_one, Nat.cast_min]

/-- Up to a cursor of `n` the remainder goes to the first parties of the turned round. -/
theorem share_of_le (hn : 0 < n) (hc : cursor ≤ n) (i : Nat) {amount : Int} (ha : 0 ≤ amount) :
    share cursor n i amount =
      amount.tdiv n + if (((i : Int) - cursor) % n).toNat < (amount.tmod n).toNat then 1 else 0 := by
  have hpos : (0 : Int) < n := by exact_mod_cast hn
  have hindex : ((i : Int) - cursor + n).tmod n = ((i : Int) - cursor) % n := by
    rw [Int.tmod_eq_emod_of_nonneg (by omega), Int.add_emod_right]
  have h₁ := Int.emod_nonneg ((i : Int) - cursor) hpos.ne'
  have h₂ := Int.tmod_nonneg n ha
  unfold share
  rw [hindex]
  split <;> split <;> omega

theorem sum_share_of_le (hn : 0 < n) (hc : cursor ≤ n) {amount : Int} (ha : 0 ≤ amount) :
    ∑ i ∈ Finset.range n, share cursor n i amount = amount := by
  have hpos : (0 : Int) < n := by exact_mod_cast hn
  have hlt := Int.tmod_lt_of_pos amount hpos
  have hr := Int.tmod_nonneg n ha
  calc ∑ i ∈ Finset.range n, share cursor n i amount
      = ∑ i ∈ Finset.range n,
          (amount.tdiv n + if (((i : Int) - cursor) % n).toNat < (amount.tmod n).toNat then 1 else 0) :=
        Finset.sum_congr rfl fun i _ => share_of_le hn hc i ha
    _ = n * amount.tdiv n + (amount.tmod n).toNat := by
        rw [Finset.sum_add_distrib, sum_turned (fun j => if j < (amount.tmod n).toNat then 1 else 0),
          sum_range_lt, Finset.sum_const, Finset.card_range, nsmul_eq_mul, min_eq_right (by omega)]
    _ = amount := by
        rw [Int.toNat_of_nonneg hr]
        exact Int.mul_tdiv_add_tmod amount n

theorem tmod_nonpos_of_nonpos {a b : Int} (h : a ≤ 0) : a.tmod b ≤ 0 := by
  have := Int.tmod_nonneg (a := -a) b (by omega)
  rw [Int.neg_tmod] at this
  omega

/-- What the shares of a round promise beyond the amount, where it is positive. -/
def surplus (cursor n amount : Int) : Int := min (cursor - n) (n - max (amount.tmod n) 1)

/-- A cursor beyond `n` turns the indices before it negative. -/
theorem index_lt_iff {i : Nat} {m r : Int} (hi : i < n) (hm : 0 < m) (hr : 0 ≤ r) (h : 0 < r ∨ m < n) :
    ((i : Int) - m).tmod n < r ↔ (i : Int) < m + r := by
  rcases lt_or_ge (i : Int) m with hlt | hge
  · have hneg : ((i : Int) - m).tmod n ≤ 0 := tmod_nonpos_of_nonpos (by omega)
    refine iff_of_true ?_ (by omega)
    rcases h with hr | hm
    · omega
    · have hmod : (m - (i : Int)).tmod n = m - i := Int.tmod_eq_of_lt (by omega) (by omega)
      have hflip : ((i : Int) - m).tmod n = -((m - (i : Int)).tmod n) := by
        rw [← Int.neg_tmod, neg_sub]
      omega
  · rw [Int.tmod_eq_of_lt (by omega) (by omega)]
    omega

theorem index_neg_iff {i : Nat} {m : Int} (hi : i < n) (hm : (n : Int) ≤ m) :
    ((i : Int) - m).tmod n < 0 ↔ i ≠ (m % n).toNat := by
  have hneg : ((i : Int) - m).tmod n ≤ 0 := tmod_nonpos_of_nonpos (by omega)
  have hpos : (0 : Int) < n := by omega
  have h₁ := Int.emod_nonneg m hpos.ne'
  have hmod : (i : Int) % n = i := Int.emod_eq_of_lt (by omega) (by omega)
  rw [lt_iff_le_and_ne, and_iff_right hneg, not_iff_not, ← Int.dvd_iff_tmod_eq_zero, Int.dvd_iff_emod_eq_zero,
    ← Int.emod_eq_emod_iff_emod_sub_eq_zero, hmod]
  omega

/-- The number of parties that share the remainder where the cursor is beyond `n`. -/
theorem sum_index_of_gt {m r : Int} (hm : 0 < m) (hr : 0 ≤ r) (hrn : r < n) :
    ∑ i ∈ Finset.range n, (if ((i : Int) - m).tmod n < r then (1 : Int) else 0) = r + min m (n - max r 1) := by
  by_cases h : 0 < r ∨ m < n
  · have hcongr : ∑ i ∈ Finset.range n, (if ((i : Int) - m).tmod n < r then (1 : Int) else 0) =
        ∑ i ∈ Finset.range n, (if i < (m + r).toNat then (1 : Int) else 0) := by
      refine Finset.sum_congr rfl fun i hi => if_congr ?_ rfl rfl
      rw [index_lt_iff (Finset.mem_range.mp hi) hm hr h]
      omega
    rw [hcongr, sum_range_lt]
    omega
  · have hzero : r = 0 := by omega
    have hge : (n : Int) ≤ m := by omega
    subst hzero
    have hpos : (0 : Int) < n := by omega
    have h₁ := Int.emod_nonneg m hpos.ne'
    have h₂ := Int.emod_lt_of_pos m hpos
    have hcongr : ∑ i ∈ Finset.range n, (if ((i : Int) - m).tmod n < 0 then (1 : Int) else 0) =
        ∑ i ∈ Finset.range n, (1 - if (m % n).toNat = i then (1 : Int) else 0) := by
      refine Finset.sum_congr rfl fun i hi => ?_
      have := index_neg_iff (Finset.mem_range.mp hi) hge
      split <;> split <;> omega
    rw [hcongr, Finset.sum_sub_distrib, Finset.sum_ite_eq, if_pos (Finset.mem_range.mpr (by omega)), Finset.sum_const,
      Finset.card_range, nsmul_eq_mul]
    omega

theorem sum_share (cursor : Int) (hn : 0 < n) {amount : Int} (ha : 0 ≤ amount) :
    ∑ i ∈ Finset.range n, share cursor n i amount = amount + max (surplus cursor n amount) 0 := by
  unfold surplus
  rcases le_or_gt cursor n with hc | hc
  · rw [sum_share_of_le hn hc ha, max_eq_right (by omega), add_zero]
  · have hpos : (0 : Int) < n := by exact_mod_cast hn
    have hr := Int.tmod_nonneg n ha
    have hlt := Int.tmod_lt_of_pos amount hpos
    have hsplit := Int.mul_tdiv_add_tmod amount n
    have hshare (i : Nat) : share cursor n i amount =
        amount.tdiv n + if ((i : Int) - (cursor - n)).tmod n < amount.tmod n then 1 else 0 := by
      unfold share
      rw [sub_sub_eq_add_sub, add_sub_right_comm]
      split <;> omega
    rw [Finset.sum_congr rfl fun i _ => hshare i, Finset.sum_add_distrib, sum_index_of_gt (by omega) hr hlt,
      Finset.sum_const, Finset.card_range, nsmul_eq_mul]
    omega

theorem share_single (cursor amount : Int) : share cursor 1 0 amount = amount := by
  unfold share
  rw [Int.tmod_one, Int.tmod_one, Int.tdiv_one, if_neg (lt_irrefl 0)]

/-- The shares of a round add up to every amount exactly when the cursor is at most `n`, or `n` is one. -/
theorem sum_share_iff (hn : 0 < n) :
    (∀ amount, 0 ≤ amount → ∑ i ∈ Finset.range n, share cursor n i amount = amount) ↔ cursor ≤ n ∨ n = 1 := by
  constructor
  · intro h
    have hone := h 1 (by omega)
    rw [sum_share cursor hn (by omega), surplus] at hone
    by_contra hne
    have hmod : (1 : Int).tmod n = 1 := Int.tmod_eq_of_lt (by omega) (by omega)
    omega
  · rintro (hc | rfl) amount ha
    · exact sum_share_of_le hn hc ha
    · rw [Finset.sum_range_one]
      exact share_single cursor amount

/-- The other shares leave the party at `i` a unit of the amount. -/
def Served (cursor : Int) (n : Nat) (amount : Int) (i : Nat) : Prop :=
  ∑ j ∈ Finset.range n, share cursor n j amount - share cursor n i amount < amount

/-- The shares promise no more than the amount, or so little more that every share still covers it. -/
def Covers (cursor : Int) (n : Nat) (amount : Int) : Prop :=
  surplus cursor n amount ≤ 0 ∨ surplus cursor n amount < amount.tdiv n ∨
    surplus cursor n amount = amount.tdiv n ∧ surplus cursor n amount + amount.tmod n = n

instance (cursor : Int) (n : Nat) (amount : Int) (i : Nat) : Decidable (Served cursor n amount i) :=
  inferInstanceAs (Decidable (_ < _))

instance (cursor : Int) (n : Nat) (amount : Int) : Decidable (Covers cursor n amount) :=
  inferInstanceAs (Decidable (_ ∨ _))

theorem served_iff (hn : 0 < n) {amount : Int} (ha : 0 ≤ amount) {i : Nat} :
    Served cursor n amount i ↔ max (surplus cursor n amount) 0 < share cursor n i amount := by
  unfold Served
  rw [sum_share cursor hn ha]
  omega

/-- If every party has the larger share the surplus is what the remainder lacks of `n`, and conversely. -/
theorem share_eq_succ_iff (hn : 0 < n) {amount : Int} (ha : 0 ≤ amount) (hs : 0 < surplus cursor n amount) :
    (∀ i < n, share cursor n i amount = amount.tdiv n + 1) ↔ surplus cursor n amount + amount.tmod n = n := by
  have hsum := sum_share cursor hn ha
  have hsplit := Int.mul_tdiv_add_tmod amount n
  have htop : ∑ _i ∈ Finset.range n, (amount.tdiv n + 1) = n * amount.tdiv n + n := by
    rw [Finset.sum_const, Finset.card_range, nsmul_eq_mul, mul_add, mul_one]
  have hle (i : Nat) (_ : i ∈ Finset.range n) : share cursor n i amount ≤ amount.tdiv n + 1 := by
    rcases share_cases cursor n i amount with h | h <;> omega
  have hall := Finset.sum_eq_sum_iff_of_le hle
  rw [htop, hsum] at hall
  simp only [Finset.mem_range] at hall
  rw [← hall]
  omega

theorem served_all_of_covers (hn : 0 < n) {amount : Int} (ha : 0 ≤ amount) (hs : 0 < surplus cursor n amount)
    (h : Covers cursor n amount) {i : Nat} (hi : i < n) : Served cursor n amount i := by
  rw [served_iff hn ha]
  rcases h with h | h | ⟨heq, hfull⟩
  · omega
  · rcases share_cases cursor n i amount with hi | hi <;> omega
  · rw [(share_eq_succ_iff hn ha hs).mpr hfull i hi]
    omega

/-- As many parties are served as there are parties, or units, exactly when the shares cover their surplus. -/
theorem covers_iff (hn : 0 < n) {amount : Int} (ha : 0 < amount) :
    min (n : Int) amount ≤ ((Finset.range n).filter fun i => Served cursor n amount i).card ↔
      Covers cursor n amount := by
  have hpos : (0 : Int) < n := by exact_mod_cast hn
  have hq := Int.tdiv_nonneg ha.le hpos.le
  have hsplit := Int.mul_tdiv_add_tmod amount n
  have hr := Int.tmod_nonneg n ha.le
  have hlt := Int.tmod_lt_of_pos amount hpos
  by_cases hs : surplus cursor n amount ≤ 0
  · refine iff_of_true ?_ (Or.inl hs)
    -- the shares add up to the amount, and each is one unit at most or every one is positive
    have hserved (i : Nat) : Served cursor n amount i ↔ 0 < share cursor n i amount := by
      rw [served_iff hn ha.le, max_eq_right hs]
    rcases hq.eq_or_lt with hzero | hone
    · have hsum := sum_share cursor hn ha.le
      rw [max_eq_right hs, add_zero] at hsum
      have hcount : ∑ i ∈ Finset.range n, share cursor n i amount ≤
          ∑ i ∈ Finset.range n, if Served cursor n amount i then (1 : Int) else 0 := by
        refine Finset.sum_le_sum fun i _ => ?_
        by_cases hi : Served cursor n amount i
        · rw [if_pos hi]
          rcases share_cases cursor n i amount with h | h <;> omega
        · rw [if_neg hi]
          exact not_lt.mp (mt (hserved i).mpr hi)
      rw [Finset.sum_boole] at hcount
      omega
    · have hall : ((Finset.range n).filter fun i => Served cursor n amount i) = Finset.range n := by
        refine Finset.filter_true_of_mem fun i _ => (hserved i).mpr ?_
        rcases share_cases cursor n i amount with h | h <;> omega
      rw [hall, Finset.card_range]
      omega
  · rw [not_le] at hs
    constructor
    · intro hcount
      by_contra hnot
      have hcases : amount.tdiv n < surplus cursor n amount ∨
          surplus cursor n amount = amount.tdiv n ∧ surplus cursor n amount + amount.tmod n ≠ n := by
        unfold Covers at hnot
        omega
      rcases hcases with hbig | ⟨heq, hfull⟩
      · have hnone : ((Finset.range n).filter fun i => Served cursor n amount i) = ∅ := by
          refine Finset.filter_false_of_mem fun i _ hi => ?_
          rw [served_iff hn ha.le] at hi
          rcases share_cases cursor n i amount with h | h <;> omega
        rw [hnone, Finset.card_empty] at hcount
        omega
      · have hsome := mt (share_eq_succ_iff hn ha.le hs).mp hfull
        push Not at hsome
        obtain ⟨i, hi, hshare⟩ := hsome
        have hshare' : share cursor n i amount = amount.tdiv n := (share_cases cursor n i amount).resolve_right hshare
        have hless : ((Finset.range n).filter fun i => Served cursor n amount i).card < n := by
          have hss : ((Finset.range n).filter fun i => Served cursor n amount i) ⊂ Finset.range n := by
            refine Finset.filter_ssubset.mpr ⟨i, Finset.mem_range.mpr hi, fun hserved => ?_⟩
            rw [served_iff hn ha.le] at hserved
            omega
          have := Finset.card_lt_card hss
          rwa [Finset.card_range] at this
        have hle : (n : Int) ≤ amount := by
          have : (n : Int) * 1 ≤ n * amount.tdiv n := Int.mul_le_mul_of_nonneg_left (by omega) hpos.le
          omega
        omega
    · intro h
      have hall : ((Finset.range n).filter fun i => Served cursor n amount i) = Finset.range n :=
        Finset.filter_true_of_mem fun i hi => served_all_of_covers hn ha.le hs h (Finset.mem_range.mp hi)
      rw [hall, Finset.card_range]
      omega

theorem covers_of_le {amount : Int} (h : cursor ≤ n) : Covers cursor n amount := by
  unfold Covers surplus
  omega

theorem share_pos_of_turn (hn : 0 < n) (hc : cursor ≤ n) {amount : Int} (ha : 0 < amount) {i : Nat}
    (hturn : (n : Int) ∣ i - cursor) : 0 < share cursor n i amount := by
  have hpos : (0 : Int) < n := by exact_mod_cast hn
  have hq := Int.tdiv_nonneg ha.le hpos.le
  have hr := Int.tmod_nonneg n ha.le
  have hsplit := Int.mul_tdiv_add_tmod amount n
  rw [share_of_le hn hc _ ha.le, Int.emod_eq_zero_of_dvd hturn, Int.toNat_zero]
  rcases hq.eq_or_lt with hzero | hone
  · rw [← hzero, mul_zero] at hsplit
    rw [← hzero, if_pos (by omega)]
    omega
  · split <;> omega

theorem exists_share_pos (hn : 0 < n) (hc : cursor ≤ n ∨ n = 1) :
    ∃ i < n, ∀ amount, 0 < amount → 0 < share cursor n i amount := by
  rcases hc with hc | rfl
  · have hpos : (0 : Int) < n := by exact_mod_cast hn
    have h₁ := Int.emod_nonneg cursor hpos.ne'
    have h₂ := Int.emod_lt_of_pos cursor hpos
    refine ⟨(cursor % n).toNat, by omega, fun amount ha => share_pos_of_turn hn hc ha ?_⟩
    rw [Int.toNat_of_nonneg h₁]
    exact Int.dvd_of_emod_eq_zero
      (Int.emod_eq_emod_iff_emod_sub_eq_zero.mp (Int.emod_emod_of_dvd _ dvd_rfl))
  · exact ⟨0, by omega, fun amount ha => by rw [Nat.cast_one, Nat.cast_zero, share_single]; exact ha⟩

theorem served_of_turn {amount : Int} (hcovers : Covers cursor n amount) (ha : 0 < amount) {i : Nat} (hi : i < n)
    (hturn : (n : Int) ∣ i - cursor) : Served cursor n amount i := by
  have hn : 0 < n := by omega
  by_cases hs : 0 < surplus cursor n amount
  · exact served_all_of_covers hn ha.le hs hcovers hi
  · rw [served_iff hn ha.le, max_eq_right (not_lt.mp hs)]
    by_cases hc : cursor ≤ n
    · exact share_pos_of_turn hn hc ha hturn
    · -- no surplus beyond the round: there is one party
      have hlt := Int.tmod_lt_of_pos amount (b := n) (by omega)
      have hone : n = 1 := by
        unfold surplus at hs
        omega
      subst hone
      have hzero : i = 0 := by omega
      rw [hzero, Nat.cast_one, Nat.cast_zero, share_single]
      exact ha

end Partition
end Base

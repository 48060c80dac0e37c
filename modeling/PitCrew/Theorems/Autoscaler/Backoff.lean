import PitCrew.Autoscaler.ControlPlaneGate
import PitCrew.Autoscaler.Reconcile

/-! # Retry delays

`boundedExponentialBackoff` in closed form. The loop gives up as soon as the delay is above half of the
maximum, and what it doubles before that stays below the maximum, so no product wraps. -/

namespace PitCrew.Autoscaler
open Base

def maxInt64 : Int := 9223372036854775807

/-- The products that the loop of `boundedExponentialBackoff` computes, before they wrap. -/
def backoffProducts (maximum : Int) : Nat → Int → List Int
  | 0, _ => []
  | rounds + 1, delay =>
    if delay ≥ maximum ∨ delay > maximum.tdiv 2 then []
    else delay * 2 :: backoffProducts maximum rounds (wrapInt64 (delay * 2))

section Rounds
variable {base maximum delay : Int}

theorem wrapInt64_of_mem {n : Int} (h : 0 ≤ n) (hn : n ≤ maxInt64) : wrapInt64 n = n := by
  unfold maxInt64 at hn
  unfold wrapInt64
  exact Int.bmod_eq_of_le (by omega) (by omega)

theorem doubled_of_not_half (hdelay : 0 < delay) (hmaximum : maximum ≤ maxInt64)
    (h : ¬(delay ≥ maximum ∨ delay > maximum.tdiv 2)) :
    wrapInt64 (delay * 2) = delay * 2 ∧ delay * 2 ≤ maximum := by
  have hhalf : maximum.tdiv 2 = maximum / 2 := Int.tdiv_eq_ediv_of_nonneg (by omega)
  have hle : delay * 2 ≤ maximum := by omega
  exact ⟨wrapInt64_of_mem (by omega) (by omega), hle⟩

theorem maximum_le_of_half (hmaximum : 0 < maximum) (h : delay ≥ maximum ∨ delay > maximum.tdiv 2) :
    maximum ≤ delay * 2 := by
  have hhalf : maximum.tdiv 2 = maximum / 2 := Int.tdiv_eq_ediv_of_nonneg (by omega)
  omega

theorem backoffRounds_eq (hmaximum : maximum ≤ maxInt64) (rounds : Nat) (hdelay : 0 < delay) (hle : delay ≤ maximum) :
    backoffRounds maximum rounds delay = min (delay * 2 ^ rounds) maximum := by
  induction rounds generalizing delay with
  | zero =>
    unfold backoffRounds
    rw [if_neg (by omega), pow_zero, mul_one, min_eq_left hle]
  | succ rounds ih =>
    unfold backoffRounds
    rw [pow_succ', ← mul_assoc]
    split
    · next h =>
      have hpow : (1 : Int) ≤ 2 ^ rounds := one_le_pow₀ (by decide)
      have hdoubled := maximum_le_of_half (by omega) h
      exact (min_eq_right (hdoubled.trans (le_mul_of_one_le_right (by omega) hpow))).symm
    · next h =>
      obtain ⟨hwrap, hdoubled⟩ := doubled_of_not_half hdelay hmaximum h
      rw [hwrap]
      exact ih (by omega) hdoubled

theorem backoffProducts_le (hmaximum : maximum ≤ maxInt64) (rounds : Nat) (hdelay : 0 < delay) :
    ∀ product ∈ backoffProducts maximum rounds delay, 0 < product ∧ product ≤ maximum := by
  induction rounds generalizing delay with
  | zero => exact fun _ h => absurd h List.not_mem_nil
  | succ rounds ih =>
    unfold backoffProducts
    split
    · exact fun _ h => absurd h List.not_mem_nil
    · next h =>
      obtain ⟨hwrap, hdoubled⟩ := doubled_of_not_half hdelay hmaximum h
      rw [hwrap]
      intro product hproduct
      rcases List.mem_cons.mp hproduct with rfl | hproduct
      · exact ⟨by omega, hdoubled⟩
      · exact ih (by omega) product hproduct

theorem boundedExponentialBackoff_eq {n : Int} (hbase : 0 < base) (hmaximum : 0 < maximum) (hbound : maximum ≤ maxInt64)
    (hn : 1 ≤ n) :
    boundedExponentialBackoff base maximum n = min (base * 2 ^ (n - 1).toNat) maximum := by
  unfold boundedExponentialBackoff
  rw [if_neg (by omega), if_neg (by omega)]
  split
  · next h =>
    have hpow : (1 : Int) ≤ 2 ^ (n - 1).toNat := one_le_pow₀ (by decide)
    exact (min_eq_right (h.le.trans (le_mul_of_one_le_right hbase.le hpow))).symm
  · next h => exact backoffRounds_eq hbound _ hbase (by omega)

theorem boundedExponentialBackoff_mono {m n : Int} (hbase : 0 < base) (hmaximum : 0 < maximum)
    (hbound : maximum ≤ maxInt64)
    (hm : 1 ≤ m) (hmn : m ≤ n) :
    boundedExponentialBackoff base maximum m ≤ boundedExponentialBackoff base maximum n := by
  rw [boundedExponentialBackoff_eq hbase hmaximum hbound hm,
    boundedExponentialBackoff_eq hbase hmaximum hbound (hm.trans hmn)]
  have hpow : (2 : Int) ^ (m - 1).toNat ≤ 2 ^ (n - 1).toNat := pow_le_pow_right₀ (by decide) (by omega)
  exact min_le_min_right _ (mul_le_mul_of_nonneg_left hpow hbase.le)

theorem boundedExponentialBackoff_mem {n : Int} (hbase : 0 < base) (hle : base ≤ maximum) (hbound : maximum ≤ maxInt64)
    (hn : 1 ≤ n) :
    base ≤ boundedExponentialBackoff base maximum n ∧ boundedExponentialBackoff base maximum n ≤ maximum := by
  rw [boundedExponentialBackoff_eq hbase (hbase.trans_le hle) hbound hn]
  have hpow : (1 : Int) ≤ 2 ^ (n - 1).toNat := one_le_pow₀ (by decide)
  exact ⟨le_min (le_mul_of_one_le_right hbase.le hpow) hle, min_le_right _ _⟩

end Rounds

/-! ## Jitter -/

section Jitter
variable (sha256 : String → UInt8 × UInt8)

theorem jitter_nonneg (identity : String) (window : Int) : 0 ≤ deterministicRetryJitter sha256 identity window := by
  unfold deterministicRetryJitter
  dsimp only
  split
  · exact le_rfl
  · exact mul_nonneg (Int.tmod_nonneg _ (Int.natCast_nonneg _)) (by decide)

theorem limitDelay_eq (profileID : String) {k : Int} (hk : 1 ≤ k) :
    registrationAccessNextDelay sha256 profileID k true =
      boundedExponentialBackoff registrationAccessRateLimitBase registrationAccessMaxBackoff k +
        registrationAccessJitter sha256 profileID := by
  unfold registrationAccessNextDelay
  rw [if_neg (by omega)]
  rfl

theorem limitDelay_mono (profileID : String) {j k : Int} (hj : 1 ≤ j) (hjk : j ≤ k) :
    registrationAccessNextDelay sha256 profileID j true ≤ registrationAccessNextDelay sha256 profileID k true := by
  rw [limitDelay_eq sha256 profileID hj, limitDelay_eq sha256 profileID (hj.trans hjk)]
  exact Int.add_le_add_right (boundedExponentialBackoff_mono (by decide) (by decide) (by decide) hj hjk) _

theorem workerExitRetryDelay_mem (cfg : ScalerConfig)
    (hjitter : cfg.deterministicRetryJitter = deterministicRetryJitter sha256) {n : Int}
    (hn : 1 ≤ n) :
    boundedExponentialBackoff workerLaunchRetryBase workerLaunchRetryMaximum n ≤ workerExitRetryDelay cfg n ∧
      workerExitRetryDelay cfg n ≤ workerLaunchRetryMaximum := by
  have hmem := boundedExponentialBackoff_mem (show 0 < workerLaunchRetryBase by decide)
    (show workerLaunchRetryBase ≤ workerLaunchRetryMaximum by decide) (by decide) hn
  have hbase : 0 < workerLaunchRetryBase := by decide
  unfold workerExitRetryDelay
  dsimp only
  rw [if_neg (by omega), hjitter]
  have hnonneg := jitter_nonneg sha256 (cfg.profileID ++ "\x00" ++ cfg.targetKey) workerExitRetryJitter
  exact ⟨le_min (le_add_of_nonneg_right hnonneg) hmem.2, min_le_right _ _⟩

/-- The backoff is the exact doubling up to the maximum, computed without overflow and never shorter for more
    failures. A worker exit waits at least that long and at most the maximum, and a rate limit never waits shorter
    for more failures. -/
theorem backoff_exact :
    (∀ base maximum n : Int, 0 < base → base ≤ maxInt64 → 0 < maximum → maximum ≤ maxInt64 → 1 ≤ n →
      boundedExponentialBackoff base maximum n = min (base * 2 ^ (n - 1).toNat) maximum ∧
      (∀ product ∈ backoffProducts maximum (n - 1).toNat base, 0 < product ∧ product ≤ maxInt64) ∧
      ∀ m, n ≤ m → boundedExponentialBackoff base maximum n ≤ boundedExponentialBackoff base maximum m) ∧
    (∀ cfg : ScalerConfig, cfg.deterministicRetryJitter = deterministicRetryJitter sha256 → ∀ n : Int, 1 ≤ n →
      boundedExponentialBackoff workerLaunchRetryBase workerLaunchRetryMaximum n ≤ workerExitRetryDelay cfg n ∧
      workerExitRetryDelay cfg n ≤ workerLaunchRetryMaximum) ∧
    ∀ (profileID : String) (m n : Int), 1 ≤ m → m ≤ n →
      registrationAccessNextDelay sha256 profileID m true ≤ registrationAccessNextDelay sha256 profileID n true := by
  refine ⟨fun base maximum n hbase _ hmaximum hbound hn => ⟨?_, ?_, ?_⟩, ?_, ?_⟩
  · exact boundedExponentialBackoff_eq hbase hmaximum hbound hn
  · intro product hproduct
    obtain ⟨hpos, hle⟩ := backoffProducts_le hbound _ hbase product hproduct
    exact ⟨hpos, hle.trans hbound⟩
  · exact fun m hnm => boundedExponentialBackoff_mono hbase hmaximum hbound hn hnm
  · exact fun cfg hjitter n hn => workerExitRetryDelay_mem sha256 cfg hjitter hn
  · exact fun profileID m n hm hmn => limitDelay_mono sha256 profileID hm hmn

/-- With a maximum of fifteen minutes the fifth failure is the first to reach it. -/
theorem backoff_exact_minutes :
    boundedExponentialBackoff minute (15 * minute) 5 = min (minute * 2 ^ 4) (15 * minute) ∧
      registrationAccessNextDelay (fun _ => (1, 2)) "linux" 1 true ≤ registrationAccessNextDelay
        (fun _ => (1, 2)) "linux" 2 true :=
  ⟨((backoff_exact fun _ => (1, 2)).1 minute (15 * minute) 5 (by decide) (by decide) (by decide) (by decide)
    (by decide)).1, (backoff_exact fun _ => (1, 2)).2.2 "linux" 1 2 (by decide) (by decide)⟩

end Jitter
end PitCrew.Autoscaler

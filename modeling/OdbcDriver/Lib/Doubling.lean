import Mathlib.Logic.Function.Iterate
import Mathlib.Tactic.Linarith
import OdbcDriver.Lib.CInt

/-!
# Capacities that double

An array that is full is given twice its capacity, again and again until there is room for the
entries that are asked for. On a fixed width the doubled capacity is cut to the bits that fit, so
the loop need not reach what is asked for.

`doubleUntil_some_iff` says what the loop returns in terms of the iterated doubling. A capacity that
can be doubled up to the target within the width is (`doubleUntil_of_fits`); a target that no iterate
reaches keeps the loop running (`doubleUntil_none`). `iterate_double` gives the iterates: they are the
products by a power of two, cut to the width, and from the width on they are zero
(`wrap_two_pow_mul`).
-/

namespace OdbcDriver.Doubling

open CInt

/-- One doubling of a signed capacity of `w` bits. -/
def double (w : Nat) (cap : Int) : Int := wrap w (2 * cap)

/-- `while (cap < n) cap *= 2`, within `fuel` rounds. -/
def doubleUntil (w : Nat) (n : Int) : Nat → Int → Option Int
  | 0, cap => if n ≤ cap then some cap else none
  | fuel + 1, cap => if n ≤ cap then some cap else doubleUntil w n fuel (double w cap)

/-- A doubling that the loop makes does not fit. -/
def Overflows (w : Nat) (n cap : Int) : Prop :=
  ∃ k, (∀ j ≤ k, (double w)^[j] cap < n) ∧ ¬ Fits w (2 * (double w)^[k] cap)

/-- The loop returns the first iterate that is large enough. -/
theorem doubleUntil_some_iff {w : Nat} {n c : Int} {fuel : Nat} : ∀ {cap : Int},
    doubleUntil w n fuel cap = some c ↔
      ∃ k ≤ fuel, (double w)^[k] cap = c ∧ n ≤ c ∧ ∀ j < k, (double w)^[j] cap < n := by
  induction fuel with
  | zero =>
    intro cap
    rw [doubleUntil]
    constructor
    · intro h
      split at h
      · exact ⟨0, le_refl _, Option.some.inj h, Option.some.inj h ▸ ‹_›, by omega⟩
      · exact absurd h (by simp)
    · rintro ⟨k, hk, hc, hn, -⟩
      obtain rfl : k = 0 := by omega
      obtain rfl : cap = c := hc
      exact if_pos hn
  | succ fuel ih =>
    intro cap
    rw [doubleUntil]
    by_cases hcap : n ≤ cap
    · rw [if_pos hcap]
      constructor
      · intro h
        exact ⟨0, by omega, Option.some.inj h, Option.some.inj h ▸ hcap, by omega⟩
      · rintro ⟨k, -, hc, -, hlow⟩
        -- a later iterate is not the answer: the start is large enough already
        obtain rfl : k = 0 := by
          by_contra hk
          have h0 : cap < n := hlow 0 (by omega)
          omega
        exact congrArg some hc
    · rw [if_neg hcap, ih]
      constructor
      · rintro ⟨k, hk, hc, hn, hlow⟩
        refine ⟨k + 1, by omega, hc, hn, fun j hj => ?_⟩
        cases j with
        | zero => exact not_le.mp hcap
        | succ j => exact hlow j (by omega)
      · rintro ⟨k, hk, hc, hn, hlow⟩
        cases k with
        | zero =>
          obtain rfl : cap = c := hc
          exact absurd hn hcap
        | succ k => exact ⟨k, by omega, hc, hn, fun j hj => hlow (j + 1) (by omega)⟩

/-- A target above all iterates keeps the loop running. -/
theorem doubleUntil_none {w : Nat} {n cap : Int} (h : ∀ k, (double w)^[k] cap < n) (fuel : Nat) :
    doubleUntil w n fuel cap = none := by
  by_contra hne
  obtain ⟨c, hc⟩ := Option.ne_none_iff_exists'.mp hne
  obtain ⟨k, -, rfl, hn, -⟩ := doubleUntil_some_iff.mp hc
  exact absurd hn (not_le.mpr (h k))

/-- Whatever the rounds it is given, the loop returns the same. -/
theorem doubleUntil_unique {w : Nat} {n cap c d : Int} {f g : Nat}
    (hc : doubleUntil w n f cap = some c) (hd : doubleUntil w n g cap = some d) : c = d := by
  obtain ⟨i, -, rfl, hi, hlow⟩ := doubleUntil_some_iff.mp hc
  obtain ⟨j, -, rfl, hj, hlow'⟩ := doubleUntil_some_iff.mp hd
  obtain hij | rfl | hij := lt_trichotomy i j
  · exact absurd hi (not_le.mpr (hlow' i hij))
  · rfl
  · exact absurd hj (not_le.mpr (hlow j hij))

/-! ### The iterates -/

/-- Cutting to the width before doubling does not show after it. -/
theorem wrap_two_mul_wrap {w : Nat} (x : Int) : wrap w (2 * wrap w x) = wrap w (2 * x) := by
  have hshift : 2 * (x + 2 ^ (w - 1) - 2 ^ w * ((x + 2 ^ (w - 1)) / 2 ^ w) - 2 ^ (w - 1)) +
      2 ^ (w - 1) = 2 * x + 2 ^ (w - 1) + 2 ^ w * (-2 * ((x + 2 ^ (w - 1)) / 2 ^ w)) := by ring
  rw [wrap, wrap, Int.emod_def (x + _), hshift, Int.add_mul_emod_self_left, wrap]

/-- After `k` doublings the capacity is its product by `2 ^ k`, cut to the width. -/
theorem iterate_double {w : Nat} {cap : Int} (hcap : wrap w cap = cap) (k : Nat) :
    (double w)^[k] cap = wrap w (2 ^ k * cap) := by
  induction k with
  | zero => simp [hcap]
  | succ k ih =>
    rw [Function.iterate_succ_apply', ih, double, wrap_two_mul_wrap]
    congr 1
    ring

/-- A product by the power of the width, or a larger one, leaves nothing. -/
theorem wrap_two_pow_mul {w k : Nat} (hw : 0 < w) (hk : w ≤ k) (x : Int) :
    wrap w (2 ^ k * x) = 0 := by
  obtain ⟨j, rfl⟩ : ∃ j, k = w + j := ⟨k - w, by omega⟩
  have hpow : (2 : Int) ^ (w - 1) < 2 ^ w := pow_lt_pow_right₀ (by norm_num) (by omega)
  have hpos : (0 : Int) ≤ 2 ^ (w - 1) := by positivity
  rw [wrap, pow_add, mul_assoc, add_comm, Int.add_mul_emod_self_left, Int.emod_eq_of_lt hpos hpow,
    sub_self]

/-- While the doubled capacity fits, nothing is cut. -/
theorem iterate_double_of_fits {w : Nat} {cap : Int} (hw : 0 < w) (hcap : 0 ≤ cap) {k : Nat}
    (hk : Fits w (2 ^ k * cap)) : (double w)^[k] cap = 2 ^ k * cap := by
  have h1 : (1 : Int) ≤ 2 ^ k := one_le_pow₀ (by norm_num)
  have hfits : Fits w cap := ⟨by
    have : (0 : Int) ≤ 2 ^ (w - 1) := by positivity
    omega, lt_of_le_of_lt (le_mul_of_one_le_left hcap h1) hk.2⟩
  rw [iterate_double (wrap_of_fits hw hfits), wrap_of_fits hw hk]

/-- A capacity that can be doubled up to the target within the width is, and nothing is cut on the
way. -/
theorem doubleUntil_of_fits {w : Nat} {n cap : Int} (hw : 0 < w) (hcap : 0 ≤ cap) {k : Nat}
    (hk : Fits w (2 ^ k * cap)) (hn : n ≤ 2 ^ k * cap) :
    ∃ i, n ≤ 2 ^ i * cap ∧ (∀ j < i, 2 ^ j * cap < n) ∧
      doubleUntil w n k cap = some (2 ^ i * cap) ∧ ¬ Overflows w n cap := by
  have hmono : ∀ j i : Nat, j ≤ i → (2 : Int) ^ j * cap ≤ 2 ^ i * cap := fun j i hji =>
    mul_le_mul_of_nonneg_right (pow_le_pow_right₀ (by norm_num) hji) hcap
  have hlow : -(2 : Int) ^ (w - 1) ≤ 0 := by
    have : (0 : Int) ≤ 2 ^ (w - 1) := by positivity
    omega
  have hfit : ∀ j ≤ k, Fits w (2 ^ j * cap) := fun j hj =>
    ⟨le_trans hlow (by positivity), lt_of_le_of_lt (hmono j k hj) hk.2⟩
  have hiter : ∀ j ≤ k, (double w)^[j] cap = 2 ^ j * cap := fun j hj =>
    iterate_double_of_fits hw hcap (hfit j hj)
  classical
  have hex : ∃ i : Nat, n ≤ 2 ^ i * cap := ⟨k, hn⟩
  have hik : Nat.find hex ≤ k := Nat.find_min' hex hn
  have hmin : ∀ j < Nat.find hex, 2 ^ j * cap < n := fun j hj => not_le.mp (Nat.find_min hex hj)
  refine ⟨Nat.find hex, Nat.find_spec hex, hmin, doubleUntil_some_iff.mpr
    ⟨Nat.find hex, hik, hiter _ hik, Nat.find_spec hex, fun j hj => ?_⟩, ?_⟩
  · exact hiter j (by omega) ▸ hmin j hj
  · rintro ⟨i, hbelow, hover⟩
    -- every doubling that is made starts below the target, so it ends by the target's power
    have hi : i < k := by
      by_contra hge
      have hkn := hbelow k (by omega)
      rw [hiter k (le_refl _)] at hkn
      omega
    refine hover ?_
    rw [hiter i (by omega), ← mul_assoc, ← pow_succ']
    exact hfit (i + 1) (by omega)

end OdbcDriver.Doubling

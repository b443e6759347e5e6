import Mathlib.Algebra.BigOperators.Intervals
import Mathlib.Algebra.Ring.Parity
import Mathlib.Data.Fintype.Card
import Mathlib.Data.Nat.Factorization.Basic
import Mathlib.Data.Nat.ModEq
import Mathlib.Tactic.Ring

/-!
# Walks with growing steps around a ring

A walk around a ring of `n` places whose steps grow by one each time passes the triangular offsets
from its start. It comes back to every place it has passed; it passes every place, whatever the
start and the first step, exactly when `n` is a power of two.
-/

namespace OdbcDriver.Lib

open Finset

/-! ### Triangular numbers -/

/-- The sum of the numbers below `k`. -/
def tri (k : ℕ) : ℕ := ∑ i ∈ range k, i

@[simp]
theorem tri_zero : tri 0 = 0 := rfl

@[simp]
theorem tri_one : tri 1 = 0 := rfl

theorem tri_succ (k : ℕ) : tri (k + 1) = tri k + k := sum_range_succ _ _

theorem tri_mul_two (k : ℕ) : tri k * 2 = k * (k - 1) := sum_range_id_mul_two k

theorem tri_add (j k : ℕ) : tri (j + k) = tri j + j * k + tri k := by
  induction k with
  | zero => simp
  | succ k ih =>
    rw [← Nat.add_assoc, tri_succ, ih, tri_succ]
    ring

/-- Triangular numbers repeat after twice the modulus. -/
theorem tri_add_two_mul (n k m : ℕ) : tri (k + 2 * n * m) ≡ tri k [MOD n] := by
  have htri : tri (2 * n * m) = n * (m * (2 * n * m - 1)) := by
    have h := tri_mul_two (2 * n * m)
    have h' : n * (m * (2 * n * m - 1)) * 2 = 2 * n * m * (2 * n * m - 1) := by ring
    omega
  have hsum : tri (k + 2 * n * m) = tri k + n * (k * (2 * m) + m * (2 * n * m - 1)) := by
    rw [tri_add, htri]
    ring
  rw [hsum]
  exact Nat.add_modulus_mul_modEq_iff.mpr rfl

/-- Triangular numbers repeat after an odd modulus. -/
theorem tri_add_odd {q : ℕ} (hq : Odd q) (k : ℕ) : tri (k + q) ≡ tri k [MOD q] := by
  obtain ⟨m, rfl⟩ := hq
  have htri : tri (2 * m + 1) = (2 * m + 1) * m := by
    have h := tri_mul_two (2 * m + 1)
    rw [Nat.add_sub_cancel] at h
    have h' : (2 * m + 1) * m * 2 = (2 * m + 1) * (2 * m) := by ring
    omega
  have hsum : tri (k + (2 * m + 1)) = tri k + (2 * m + 1) * (k + m) := by
    rw [tri_add, htri]
    ring
  rw [hsum]
  exact Nat.add_modulus_mul_modEq_iff.mpr rfl

/-- Twice the distance of two triangular numbers. -/
theorem tri_add_sub_mul_two (j d : ℕ) : (tri (j + 1 + d) - tri (j + 1)) * 2 = d * (2 * j + 1 + d) := by
  have h := tri_mul_two d
  have hsub : tri (j + 1 + d) - tri (j + 1) = (j + 1) * d + tri d := by
    rw [tri_add]
    omega
  rw [hsub, Nat.add_mul, h]
  cases d with
  | zero => simp
  | succ d =>
    rw [Nat.add_sub_cancel]
    ring

/-- The first `2 ^ m` triangular numbers differ modulo `2 ^ m`. -/
theorem not_tri_modEq_of_two_pow {m j d : ℕ} (hd : 0 < d) (hlt : j + d < 2 ^ m) :
    ¬ tri (j + 1 + d) ≡ tri (j + 1) [MOD 2 ^ m] := by
  intro h
  have hle : tri (j + 1) ≤ tri (j + 1 + d) := by
    rw [tri_add (j + 1)]
    omega
  have hdvd : 2 ^ (m + 1) ∣ d * (2 * j + 1 + d) := by
    rw [← tri_add_sub_mul_two, pow_succ]
    exact Nat.mul_dvd_mul_right ((Nat.modEq_iff_dvd' hle).mp h.symm) 2
  rcases Nat.even_or_odd d with heven | hodd
  · -- the other factor is odd
    have hcop : Nat.Coprime (2 ^ (m + 1)) (2 * j + 1 + d) := by
      refine Nat.Coprime.pow_left _ (Nat.coprime_two_left.mpr ?_)
      rw [Nat.odd_iff]
      rw [Nat.even_iff] at heven
      omega
    have := Nat.le_of_dvd hd (hcop.dvd_of_dvd_mul_right hdvd)
    rw [pow_succ] at this
    omega
  · have hcop : Nat.Coprime (2 ^ (m + 1)) d :=
      Nat.Coprime.pow_left _ (Nat.coprime_two_left.mpr hodd)
    have := Nat.le_of_dvd (by omega) (hcop.dvd_of_dvd_mul_left hdvd)
    rw [pow_succ] at this
    omega

/-- Modulo a power of two, the triangular numbers take every value. -/
theorem exists_tri_of_two_pow (m r : ℕ) : ∃ k, tri k ≡ r [MOD 2 ^ m] := by
  have hpos : 0 < 2 ^ m := Nat.two_pow_pos m
  let f : Fin (2 ^ m) → Fin (2 ^ m) := fun j => ⟨tri (j + 1) % 2 ^ m, Nat.mod_lt _ hpos⟩
  have hinj : Function.Injective f := by
    intro j j' h
    have hmod : tri (j + 1) ≡ tri (j' + 1) [MOD 2 ^ m] := Fin.mk.inj h
    rcases lt_trichotomy (j : ℕ) j' with hlt | heq | hlt
    · obtain ⟨d, hd⟩ := Nat.exists_eq_add_of_lt hlt
      rw [hd, show (j : ℕ) + d + 1 + 1 = j + 1 + (d + 1) by omega] at hmod
      exact absurd hmod.symm (not_tri_modEq_of_two_pow (by omega) (by omega))
    · exact Fin.ext heq
    · obtain ⟨d, hd⟩ := Nat.exists_eq_add_of_lt hlt
      rw [hd, show (j' : ℕ) + d + 1 + 1 = j' + 1 + (d + 1) by omega] at hmod
      exact absurd hmod (not_tri_modEq_of_two_pow (by omega) (by omega))
  obtain ⟨j, hj⟩ := Finite.surjective_of_injective hinj ⟨r % 2 ^ m, Nat.mod_lt _ hpos⟩
  exact ⟨j + 1, Fin.mk.inj hj⟩

/-- Modulo an odd number but 1, they miss one. -/
theorem exists_ne_tri_of_odd {q : ℕ} (hq : Odd q) (hq1 : q ≠ 1) :
    ∃ r, ∀ k, ¬ tri k ≡ r [MOD q] := by
  have hlt : 1 < q := by
    have := hq.pos
    omega
  let f : Fin q → Fin q := fun j => ⟨tri j % q, Nat.mod_lt _ hq.pos⟩
  -- 0 and 1 have the same one
  have hinj : ¬ Function.Injective f := by
    intro h
    have := h (show f ⟨0, by omega⟩ = f ⟨1, hlt⟩ from rfl)
    exact absurd (Fin.mk.inj this) (by omega)
  have hsurj : ¬ Function.Surjective f := mt Finite.injective_iff_surjective.mpr hinj
  obtain ⟨r, hr⟩ := not_forall.mp hsurj
  refine ⟨r, fun k => ?_⟩
  induction k using Nat.strong_induction_on with
  | _ k ih =>
    intro hk
    rcases lt_or_ge k q with hkq | hkq
    · refine hr ⟨⟨k, hkq⟩, Fin.ext ?_⟩
      exact Eq.trans hk (Nat.mod_eq_of_lt r.isLt)
    · obtain ⟨j, rfl⟩ := Nat.exists_eq_add_of_le' hkq
      exact ih j (by have := hq.pos; omega) ((tri_add_odd hq j).symm.trans hk)

/-! ### The walk -/

/-- Where a walk around `n` places stands after `k` steps, from the place `a` and with the first
step `s`. -/
def growingWalk (n a s : ℕ) : ℕ → ℕ
  | 0 => a
  | k + 1 => (growingWalk n a s k + (s + k)) % n

section Walk

variable {n a s : ℕ}

@[simp]
theorem growingWalk_zero (n a s : ℕ) : growingWalk n a s 0 = a := rfl

theorem growingWalk_succ (n a s k : ℕ) :
    growingWalk n a s (k + 1) = (growingWalk n a s k + (s + k)) % n := rfl

theorem growingWalk_lt (ha : a < n) (k : ℕ) : growingWalk n a s k < n := by
  cases k with
  | zero => exact ha
  | succ k => exact Nat.mod_lt _ (by omega)

/-- A walk goes on from where it stands. -/
theorem growingWalk_add (n a s j k : ℕ) :
    growingWalk n a s (j + k) = growingWalk n (growingWalk n a s j) (s + j) k := by
  induction k with
  | zero => rfl
  | succ k ih => rw [← Nat.add_assoc, growingWalk_succ, ih, growingWalk_succ, Nat.add_assoc s]

/-- The walk passes the triangular offsets. -/
theorem growingWalk_modEq (n a s k : ℕ) :
    growingWalk n a s k + tri s ≡ a + tri (s + k) [MOD n] := by
  induction k with
  | zero => rfl
  | succ k ih =>
    rw [growingWalk_succ, ← Nat.add_assoc s, tri_succ]
    calc (growingWalk n a s k + (s + k)) % n + tri s
        ≡ growingWalk n a s k + (s + k) + tri s [MOD n] := (Nat.mod_modEq _ _).add_right _
      _ = growingWalk n a s k + tri s + (s + k) := by ring
      _ ≡ a + tri (s + k) + (s + k) [MOD n] := ih.add_right _
      _ = a + (tri (s + k) + (s + k)) := by ring

/-- The walk passes a place exactly when its offset is triangular. -/
theorem growingWalk_eq_iff (ha : a < n) {i : ℕ} (hi : i < n) (k : ℕ) :
    growingWalk n a s k = i ↔ i + tri s ≡ a + tri (s + k) [MOD n] := by
  constructor
  · rintro rfl
    exact growingWalk_modEq n a s k
  · intro h
    have hmod : growingWalk n a s k ≡ i [MOD n] :=
      Nat.ModEq.add_right_cancel' (tri s) ((growingWalk_modEq n a s k).trans h.symm)
    exact hmod.eq_of_lt_of_lt (growingWalk_lt ha k) hi

/-- The walk comes back to where it has been. -/
theorem growingWalk_returns (ha : a < n) (k m : ℕ) :
    growingWalk n a s (k + 2 * n * m) = growingWalk n a s k := by
  rw [growingWalk_eq_iff ha (growingWalk_lt ha k), ← Nat.add_assoc]
  exact (growingWalk_modEq n a s k).trans ((tri_add_two_mul n (s + k) m).symm.add_left a)

/-- The places a walk passes. -/
def OnWalk (n a s i : ℕ) : Prop := ∃ k, growingWalk n a s k = i

/-- From wherever a walk stands, it passes the same places. -/
theorem onWalk_growingWalk (ha : a < n) (j i : ℕ) :
    OnWalk n (growingWalk n a s j) (s + j) i ↔ OnWalk n a s i := by
  constructor
  · rintro ⟨k, rfl⟩
    exact ⟨j + k, growingWalk_add n a s j k⟩
  · rintro ⟨k, rfl⟩
    have hle : j ≤ k + 2 * n * j := by
      have : j * 1 ≤ 2 * n * j := by
        rw [Nat.mul_comm]
        exact Nat.mul_le_mul_right j (by omega)
      omega
    refine ⟨k + 2 * n * j - j, ?_⟩
    rw [← growingWalk_add, Nat.add_sub_cancel' hle, growingWalk_returns ha]

/-- **Powers of two.** A walk passes every place when the number of places is a power of two. -/
theorem onWalk_of_two_pow {m : ℕ} (hn : n = 2 ^ m) (ha : a < n) {i : ℕ} (hi : i < n) :
    OnWalk n a s i := by
  -- the triangular number wanted is that of the offset
  obtain ⟨k, hk⟩ := exists_tri_of_two_pow m (i + tri s + (n - a))
  rw [← hn] at hk
  have hle : s ≤ k + 2 * n * s := by
    have : s * 1 ≤ 2 * n * s := by
      rw [Nat.mul_comm]
      exact Nat.mul_le_mul_right s (by omega)
    omega
  refine ⟨k + 2 * n * s - s, (growingWalk_eq_iff ha hi _).mpr ?_⟩
  rw [Nat.add_sub_cancel' hle]
  calc i + tri s ≡ i + tri s + n [MOD n] := (Nat.add_modEq_right).symm
    _ = a + (i + tri s + (n - a)) := by omega
    _ ≡ a + tri k [MOD n] := hk.symm.add_left a
    _ ≡ a + tri (k + 2 * n * s) [MOD n] := (tri_add_two_mul n k s).symm.add_left a

/-- **The other numbers.** A walk misses a place when the number of places is no power of two. -/
theorem exists_not_onWalk (hn : ¬ ∃ m, n = 2 ^ m) (ha : a < n) (s : ℕ) :
    ∃ i < n, ¬ OnWalk n a s i := by
  obtain ⟨m, q, hq, hmq⟩ := Nat.exists_eq_two_pow_mul_odd (show n ≠ 0 by omega)
  have hq1 : q ≠ 1 := by
    rintro rfl
    exact hn ⟨m, by rw [hmq, Nat.mul_one]⟩
  have hdvd : q ∣ n := ⟨2 ^ m, by rw [hmq, Nat.mul_comm]⟩
  obtain ⟨r, hr⟩ := exists_ne_tri_of_odd hq hq1
  -- the place whose offset is the value missed
  have hoff : tri s ≤ n * tri s := Nat.le_mul_of_pos_left _ (by omega)
  refine ⟨(a + r + (n * tri s - tri s)) % n, Nat.mod_lt _ (by omega), ?_⟩
  rintro ⟨k, hk⟩
  refine hr (s + k) (Nat.ModEq.add_left_cancel' a ?_)
  have hwalk := (growingWalk_modEq n a s k).of_dvd hdvd
  rw [hk] at hwalk
  calc a + tri (s + k)
      ≡ (a + r + (n * tri s - tri s)) % n + tri s [MOD q] := hwalk.symm
    _ ≡ a + r + (n * tri s - tri s) + tri s [MOD q] :=
        ((Nat.mod_modEq _ n).of_dvd hdvd).add_right _
    _ = a + r + n * tri s := by omega
    _ ≡ a + r [MOD q] :=
        (Nat.ModEq.of_dvd hdvd (Nat.add_modulus_mul_modEq_iff.mpr rfl))

end Walk

end OdbcDriver.Lib

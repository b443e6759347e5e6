import Mathlib.Tactic.Ring
import Mathlib.Data.Int.Order.Basic

/-!
# Fixed-width C integers

The driver computes in `SQLLEN` (64 bits), `int` (32 bits) and `SQLSMALLINT`/`Int2`
(16 bits). Values are modelled as `Int`; the truncation a narrower or overflowing store
performs is the two's complement one. On the representable range the truncation is the
identity.
-/

namespace OdbcDriver.CInt

/-- The value a signed integer of `w` bits holds after storing `x` in it. -/
def wrap (w : Nat) (x : Int) : Int := (x + 2 ^ (w - 1)) % 2 ^ w - 2 ^ (w - 1)

/-- The value an unsigned integer of `w` bits holds after storing `x` in it. -/
def uwrap (w : Nat) (x : Int) : Int := x % 2 ^ w

/-- `x` is representable as a signed integer of `w` bits. -/
def Fits (w : Nat) (x : Int) : Prop := -2 ^ (w - 1) ≤ x ∧ x < 2 ^ (w - 1)

instance (w : Nat) (x : Int) : Decidable (Fits w x) :=
  inferInstanceAs (Decidable (_ ∧ _))

/-- Storing a representable value keeps it. -/
theorem wrap_of_fits {w : Nat} {x : Int} (hw : 0 < w) (h : Fits w x) : wrap w x = x := by
  obtain ⟨k, rfl⟩ : ∃ k, w = k + 1 := ⟨w - 1, by omega⟩
  simp only [Fits, Nat.add_sub_cancel] at h
  have hpow : (2 : Int) ^ (k + 1) = 2 * 2 ^ k := by ring
  rw [wrap, Nat.add_sub_cancel, Int.emod_eq_of_lt (by omega) (by omega)]
  ring

/-- A stored value is representable. -/
theorem fits_wrap {w : Nat} (hw : 0 < w) (x : Int) : Fits w (wrap w x) := by
  obtain ⟨k, rfl⟩ : ∃ k, w = k + 1 := ⟨w - 1, by omega⟩
  have hpow : (2 : Int) ^ (k + 1) = 2 * 2 ^ k := by ring
  have hpos : (0 : Int) < 2 ^ (k + 1) := Int.pow_pos (by decide)
  have hnonneg := Int.emod_nonneg (x + 2 ^ k) hpos.ne'
  have hlt := Int.emod_lt_of_pos (x + 2 ^ k) hpos
  rw [Fits, wrap, Nat.add_sub_cancel]
  omega

/-! ### Masks -/

/-- The bits from `k` on. -/
theorem toNat_and_high {n : Nat} (w : BitVec n) (k : Nat) :
    (w &&& BitVec.allOnes n <<< k).toNat = w.toNat / 2 ^ k * 2 ^ k := by
  have hshift : w &&& BitVec.allOnes n <<< k = w >>> k <<< k := by
    ext i hi
    have hadd : ¬ i < k → k + (i - k) = i := by omega
    by_cases h : i < k
    · simp [h]
    · simp [h, hadd h, BitVec.getLsbD_eq_getElem hi]
  have hle : w.toNat / 2 ^ k * 2 ^ k ≤ w.toNat := Nat.div_mul_le_self _ _
  have hlt := w.isLt
  rw [hshift, BitVec.toNat_shiftLeft, BitVec.toNat_ushiftRight, Nat.shiftRight_eq_div_pow,
    Nat.shiftLeft_eq, Nat.mod_eq_of_lt (by omega)]

end OdbcDriver.CInt

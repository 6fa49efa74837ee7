import Mathlib.Algebra.Order.Ring.Nat
import Mathlib.Data.List.Basic

/-!
# Numbers as bytes

A number is written as a fixed count of bytes, the least significant byte first.
-/

/-- A string of bytes. -/
abbrev Bytes := List UInt8

namespace Bytes

/-- The first `w` bytes of a number. -/
def ofNat : ℕ → ℕ → Bytes
  | 0, _ => []
  | w + 1, n => UInt8.ofNat n :: ofNat w (n / 256)

/-- The number that the bytes write. -/
def toNat : Bytes → ℕ
  | [] => 0
  | b :: bytes => b.toNat + 256 * toNat bytes

/-- The bytes, cut off or filled up with zeros. -/
def resize (bytes : Bytes) (n : ℕ) : Bytes := bytes.take n ++ List.replicate (n - bytes.length) 0

@[simp] theorem length_ofNat (w n : ℕ) : (ofNat w n).length = w := by
  induction w generalizing n with
  | zero => rfl
  | succ w ih => exact congrArg (· + 1) (ih (n / 256))

theorem toNat_ofNat {w n : ℕ} (h : n < 256 ^ w) : toNat (ofNat w n) = n := by
  induction w generalizing n with
  | zero =>
    rw [Nat.pow_zero, Nat.lt_one_iff] at h
    exact h.symm
  | succ w ih =>
    have hdiv : n / 256 < 256 ^ w := by
      rw [Nat.pow_succ] at h
      exact Nat.div_lt_of_lt_mul (Nat.mul_comm _ _ ▸ h)
    rw [ofNat, toNat, ih hdiv, UInt8.toNat_ofNat']
    omega

end Bytes

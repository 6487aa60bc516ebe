import Mathlib.Tactic.Ring

namespace Rk8s

/-!
# Little-endian bytes

Fixed-width unsigned integers as bytes, the lowest byte first.  Encoding keeps
the value modulo the width, which is all a cast to the fixed-width type does.
-/

/-- The lowest `width` bytes of a number. -/
def leBytes : Nat -> Nat -> List UInt8
  | 0, _ => []
  | width + 1, n => UInt8.ofNat n :: leBytes width (n / 256)

/-- The number that a list of bytes stands for. -/
def ofLeBytes : List UInt8 -> Nat
  | [] => 0
  | byte :: bytes => byte.toNat + 256 * ofLeBytes bytes

@[simp] theorem length_leBytes (width n : Nat) : (leBytes width n).length = width := by
  induction width generalizing n with
  | zero => rfl
  | succ width ih => simp [leBytes, ih]

/-- Decoding gives the value modulo the width back. -/
theorem ofLeBytes_leBytes (width n : Nat) : ofLeBytes (leBytes width n) = n % 256 ^ width := by
  induction width generalizing n with
  | zero => simp [leBytes, ofLeBytes, Nat.mod_one]
  | succ width ih =>
    have byte : (UInt8.ofNat n).toNat = n % 256 := by simp
    rw [leBytes, ofLeBytes, ih, byte, Nat.pow_succ, mul_comm (256 ^ width), Nat.mod_mul]

end Rk8s

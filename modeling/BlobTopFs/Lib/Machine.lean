import Mathlib.Algebra.Group.Int.Defs
import Mathlib.Algebra.Group.Nat.Defs
import Mathlib.Data.Int.Basic
import Mathlib.Data.Nat.Basic

/-!
# Fixed-width integers

The conversions a C compiler puts between the integer types of one expression, as
functions on `Int`: a value becomes unsigned modulo `2 ^ w`, or signed by taking the
balanced remainder. Where a value fits its type the conversion is the identity, which is
what the lemmas here say; everything else about them is `omega`.
-/

namespace BlobTopFs.Machine

/-- Conversion to `uint64_t` (`size_t`). -/
def u64 (x : Int) : Nat := (x % 2 ^ 64).toNat

/-- Conversion to `int64_t` (`loff_t`, `ssize_t`). The comparison is one of naturals: on an
open term it is stuck at once, where one of integers would count to `2 ^ 63`. -/
def s64 (x : Int) : Int := if u64 x < 2 ^ 63 then u64 x else (u64 x : Int) - 2 ^ 64

/-- Conversion to `uint32_t` (`unsigned int`). -/
def u32 (x : Int) : Nat := (x % 2 ^ 32).toNat

/-- Conversion to `int32_t` (`int`). -/
def s32 (x : Int) : Int := if u32 x < 2 ^ 31 then u32 x else (u32 x : Int) - 2 ^ 32

@[simp] theorem u64_natCast {n : Nat} (h : n < 2 ^ 64) : u64 (n : Int) = n := by
  unfold u64; omega

/-- An index as an `int`, as a 64-bit id. -/
theorem ofNat_u64 (i : Nat) : UInt64.ofNat (u64 (i : Int)) = UInt64.ofNat i := by
  have h : u64 (i : Int) = i % 2 ^ 64 := by
    unfold u64
    omega
  rw [h]
  exact UInt64.ofNat_mod_size

theorem s64_of_fits {x : Int} (h0 : -2 ^ 63 ≤ x) (h1 : x < 2 ^ 63) : s64 x = x := by
  unfold s64 u64
  omega

theorem s64_fits (x : Int) : -2 ^ 63 ≤ s64 x ∧ s64 x < 2 ^ 63 := by
  unfold s64 u64
  omega

/-- Reducing an operand first does not change a reduced sum. -/
theorem s64_add_s64 (x y : Int) : s64 (x + s64 y) = s64 (x + y) := by
  unfold s64 u64
  omega

theorem s64_s64_add (x y : Int) : s64 (s64 x + y) = s64 (x + y) := by
  unfold s64 u64
  omega

theorem s64_u64 (x : Int) : s64 (u64 x) = s64 x := by
  unfold s64 u64
  omega

theorem u32_of_lt {n : Nat} (h : n < 2 ^ 32) : u32 (n : Int) = n := by
  unfold u32; omega

theorem s32_of_fits {x : Int} (h0 : -2 ^ 31 ≤ x) (h1 : x < 2 ^ 31) : s32 x = x := by
  unfold s32 u32
  omega

/-- The `UPPER_DIV` macro: `(a - 1) / b + 1` on unsigned operands. -/
def upperDiv (a b : Nat) : Nat := u64 (a - 1) / b + 1

theorem upperDiv_of_pos {a b : Nat} (h0 : 0 < a) (h1 : a < 2 ^ 64) :
    upperDiv a b = (a - 1) / b + 1 := by
  have h : u64 ((a : Int) - 1) = a - 1 := by
    unfold u64; omega
  rw [upperDiv, h]

/-- On a positive multiple the macro is exact division. -/
theorem upperDiv_mul {a b : Nat} (hb : 0 < b) (ha : 0 < a) (h : a * b < 2 ^ 64) :
    upperDiv (a * b) b = a := by
  rw [upperDiv_of_pos (Nat.mul_pos ha hb) h]
  obtain ⟨c, rfl⟩ := Nat.exists_eq_succ_of_ne_zero (Nat.pos_iff_ne_zero.mp ha)
  have hc : (c + 1) * b - 1 = b - 1 + c * b := by
    rw [Nat.add_mul]
    omega
  rw [Nat.succ_eq_add_one, hc, Nat.add_mul_div_right _ _ hb, Nat.div_eq_of_lt (by omega)]
  omega

/-- The macro never rounds down. -/
theorem le_upperDiv_mul {a b : Nat} (hb : 0 < b) (ha : 0 < a) (h : a < 2 ^ 64) :
    a ≤ upperDiv a b * b := by
  rw [upperDiv_of_pos ha h]
  have h1 := Nat.div_add_mod (a - 1) b
  have h2 := Nat.mod_lt (a - 1) hb
  rw [Nat.add_mul, Nat.mul_comm]
  omega

end BlobTopFs.Machine

import Mathlib.Tactic.Linarith
import Mathlib.Algebra.Order.Ring.Int

/-! C integer scheme: a value of a C integer type is an integer in the type's range, and every
    conversion to the type is one of the functions below. `u64` is what unsigned arithmetic and
    conversions to `size_t`, `sector_t` and `unsigned long` do (reduction modulo `2^64`); `s64` and
    `s32` are the two's complement narrowings to `loff_t`/`ssize_t` and to `int`. -/

namespace Ldd.Schemes

/-- Conversion to a 64-bit unsigned type. -/
def u64 (x : ℤ) : ℤ := x % 2 ^ 64

/-- Conversion to a 64-bit signed type. -/
def s64 (x : ℤ) : ℤ := (x + 2 ^ 63) % 2 ^ 64 - 2 ^ 63

/-- Conversion to a 32-bit signed type. -/
def s32 (x : ℤ) : ℤ := (x + 2 ^ 31) % 2 ^ 32 - 2 ^ 31

theorem u64_id {x : ℤ} (h0 : 0 ≤ x) (h : x < 2 ^ 64) : u64 x = x := Int.emod_eq_of_lt h0 h

theorem s64_id {x : ℤ} (h0 : -2 ^ 63 ≤ x) (h : x < 2 ^ 63) : s64 x = x := by
  unfold s64; omega

theorem s32_id {x : ℤ} (h0 : -2 ^ 31 ≤ x) (h : x < 2 ^ 31) : s32 x = x := by
  unfold s32; omega

/-- Addition of two `size_t` values. -/
def uadd (a b : ℕ) : ℕ := (a + b) % 2 ^ 64

/-- Subtraction of two `size_t` values. -/
def usub (a b : ℕ) : ℕ := (a + (2 ^ 64 - b)) % 2 ^ 64

theorem uadd_eq {a b : ℕ} (h : a + b < 2 ^ 64) : uadd a b = a + b := Nat.mod_eq_of_lt h

/-- A subtraction that does not underflow is exact. -/
theorem usub_eq {a b : ℕ} (hb : b ≤ a) (ha : a < 2 ^ 64) : usub a b = a - b := by
  unfold usub; omega

end Ldd.Schemes

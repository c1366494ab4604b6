import Mathlib.Data.Nat.Bitwise
import Mathlib.Tactic.Linarith

/-! Device numbers (`dev_t`, 32 bits): a major number above 20 bits of minor number.

        31      20 19       0
        [ major  |  minor   ]

    `alloc_chrdev_region(.., 0, n, ..)` answers the first number of a `Region n`: the `n` minors
    from there on belong to one major. -/

namespace Ldd.Kernel

def minorBits : ℕ := 20

/-- `MAJOR` -/
def major (dev : ℕ) : ℕ := dev >>> minorBits

/-- `MINOR` -/
def minor (dev : ℕ) : ℕ := dev &&& (2 ^ minorBits - 1)

/-- `MKDEV` -/
def mkdev (ma mi : ℕ) : ℕ := (ma <<< minorBits ||| mi) % 2 ^ 32

/-- The first of `n` device numbers with one major. -/
abbrev Region (n : ℕ) := { dev : ℕ // dev < 2 ^ 32 ∧ minor dev + n ≤ 2 ^ minorBits }

theorem major_eq (dev : ℕ) : major dev = dev / 2 ^ 20 := Nat.shiftRight_eq_div_pow dev 20

theorem minor_eq (dev : ℕ) : minor dev = dev % 2 ^ 20 := Nat.and_two_pow_sub_one_eq_mod dev 20

theorem mkdev_eq {ma mi : ℕ} (hmi : mi < 2 ^ 20) : mkdev ma mi = (ma * 2 ^ 20 + mi) % 2 ^ 32 := by
  rw [mkdev, minorBits, ← Nat.shiftLeft_add_eq_or_of_lt hmi, Nat.shiftLeft_eq]

variable {n i : ℕ}

/-- The number of the minor `i` of a region. -/
theorem Region.mkdev (r : Region n) (hi : i < n) :
    mkdev (major r.1) (minor r.1 + i) = r.1 + i := by
  have hmax := r.2.1
  have hfit := r.2.2
  simp only [minorBits, minor_eq] at hfit
  rw [minor_eq, major_eq, mkdev_eq (by omega)]
  omega

theorem Region.major (r : Region n) (hi : i < n) : major (r.1 + i) = major r.1 := by
  have hfit := r.2.2
  simp only [minorBits, minor_eq] at hfit
  rw [major_eq, major_eq]
  omega

theorem Region.minor (r : Region n) (hi : i < n) : minor (r.1 + i) = minor r.1 + i := by
  have hfit := r.2.2
  simp only [minorBits, minor_eq] at hfit
  rw [minor_eq, minor_eq]
  omega

end Ldd.Kernel

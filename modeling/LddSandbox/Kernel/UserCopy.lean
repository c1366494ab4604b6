import LddSandbox.Schemes.Mem

/-! What the drivers share of the kernel: the errno values they return, and the copies between a
    driver's buffer and user memory. A copy moves a prefix and returns the number of bytes it did
    not move; `copy_from_user` leaves the cells after that prefix in any state (the kernel clears
    them, an interrupted copy need not have). -/

namespace Ldd.Kernel
open Ldd.Schemes

def ENOMEM : ℤ := 12
def EAGAIN : ℤ := 11
def EFAULT : ℤ := 14
def EBUSY : ℤ := 16
def EEXIST : ℤ := 17
def ENODEV : ℤ := 19
def EINVAL : ℤ := 22
def ENOTTY : ℤ := 25
def ERESTARTSYS : ℤ := 512

/-- How a user copy ends: it stops `left` bytes short (`0`: it does not fault), and the cells it
    did not reach hold `junk`. -/
structure Fault where
  left : ℕ := 0
  junk : List UInt8 := []

/-- The number of bytes a copy of `n` bytes does not move. -/
def Fault.uncopied (f : Fault) (n : ℕ) : ℕ := min f.left n

theorem Fault.uncopied_le (f : Fault) (n : ℕ) : f.uncopied n ≤ n := Nat.min_le_right ..

/-- `copy_to_user(to, buffer + pos, n)`: the bytes that reach the user, and the number left. -/
def copyToUser (m : Mem UInt8) (pos n : ℕ) (f : Fault) : List UInt8 × ℕ :=
  (m.load pos (n - f.uncopied n), f.uncopied n)

/-- `copy_from_user(buffer + pos, from, n)`: the memory afterwards, and the number left. -/
def copyFromUser (m : Mem UInt8) (pos : ℕ) (src : List UInt8) (n : ℕ) (f : Fault) :
    Mem UInt8 × ℕ :=
  (m.store pos (src.take (n - f.uncopied n) ++ f.junk.take (f.uncopied n)), f.uncopied n)

/-- A copy from the user changes no cell before its destination. -/
theorem copyFromUser_before (m : Mem UInt8) {p k pos : ℕ} (src : List UInt8) (n : ℕ) (f : Fault)
    (h : p + k ≤ pos) : (copyFromUser m pos src n f).1.load p k = m.load p k :=
  Mem.load_store_before m _ h

/-- A copy of `n` bytes from the user changes no cell outside the `n` of its destination. -/
theorem copyFromUser_outside (m : Mem UInt8) {pos n i : ℕ} (src : List UInt8) (f : Fault)
    (h : i < pos ∨ pos + n ≤ i) : (copyFromUser m pos src n f).1 i = m i := by
  rcases h with h | h
  · exact Mem.store_before h
  · refine Mem.store_after ?_
    have hle := f.uncopied_le n
    rw [List.length_append, List.length_take, List.length_take]
    omega

/-- The copied prefix is in memory afterwards. -/
theorem copyFromUser_prefix (m : Mem UInt8) (pos : ℕ) {src : List UInt8} {n : ℕ} (f : Fault)
    (h : n ≤ src.length) :
    (copyFromUser m pos src n f).1.load pos (n - f.uncopied n) =
      src.take (n - f.uncopied n) := by
  have hlen : (src.take (n - f.uncopied n)).length = n - f.uncopied n := by
    rw [List.length_take]; omega
  set bs := src.take (n - f.uncopied n) ++ f.junk.take (f.uncopied n) with hbs
  have hall := Mem.load_store_self m pos bs
  have hle : n - f.uncopied n ≤ bs.length := by rw [hbs, List.length_append]; omega
  have htake := congrArg (List.take (n - f.uncopied n)) hall
  rw [Mem.take_load _ hle] at htake
  have hcut : List.take (n - f.uncopied n) bs = src.take (n - f.uncopied n) := by
    rw [hbs, List.take_append_of_le_length hlen.ge, List.take_of_length_le hlen.le]
  rw [hcut] at htake
  exact htake

end Ldd.Kernel

import LddSandbox.Kernel.UserCopy
import LddSandbox.Schemes.CInt
import LddSandbox.Schemes.Forgets
import LddSandbox.Schemes.Ledger

/-! How kernel calls answer: with `0` or a negative errno, with an object or a negative errno cast
    to a pointer (`ERR_PTR`), with an object or `NULL`. A pointer is the integer that it is when
    cast to `long`. -/

namespace Ldd.Kernel
open Ldd.Schemes Script

def maxErrno : ℤ := 4095

/-- `IS_ERR` -/
def IsErr (p : ℤ) : Prop := -maxErrno ≤ p ∧ p < 0

instance : DecidablePred IsErr := fun p => inferInstanceAs (Decidable (-maxErrno ≤ p ∧ p < 0))

/-- `PTR_ERR`, returned as an `int`. -/
def ptrErr (p : ℤ) : ℤ := s32 p

/-- An errno. -/
abbrev Errno := { e : ℤ // 0 < e ∧ e ≤ maxErrno }

/-- A pointer to an object: neither `NULL` nor an `ERR_PTR`. -/
abbrev Object := { p : ℤ // p ≠ 0 ∧ ¬ IsErr p }

/-- A major number. -/
abbrev Major := { m : ℤ // 0 < m }

def enomem : Errno := ⟨ENOMEM, by decide⟩

/-- An object that the kernel hands out. -/
def someObject : Object := ⟨4096, by decide⟩

@[simp] theorem Errno.isErr (e : Errno) : IsErr (-e.1) := by
  have := e.2
  unfold IsErr
  omega

@[simp] theorem Errno.ptrErr (e : Errno) : ptrErr (-e.1) = -e.1 := by
  have := e.2
  unfold maxErrno at this
  exact s32_id (by omega) (by omega)

theorem Errno.neg (e : Errno) : -e.1 < 0 := by
  have := e.2
  omega

variable {ρ σ α : Type}

/-- A call that acquires `r`, or fails with an errno. -/
def request (r : ρ) (value : α → ℤ) : Except Errno α → Script ρ σ ℤ
  | .ok a => do acquire r; return value a
  | .error e => return -e.1

/-- A call that answers `0` or a negative errno. -/
def register (r : ρ) : Except Errno Unit → Script ρ σ ℤ := request r fun _ => 0

/-- A call that answers an object or an `ERR_PTR`. -/
def create (r : ρ) : Except Errno Object → Script ρ σ ℤ := request r (·.1)

/-- A call that answers an object or `NULL`. -/
def alloc (r : ρ) : Option Object → Script ρ σ ℤ
  | some p => do acquire r; return p.1
  | none => return 0

/-- A call that answers an object or an `ERR_PTR`, and acquires what it answers. -/
def createAt (r : ℤ → ρ) : Except Errno Object → Script ρ σ ℤ
  | .ok p => do acquire (r p.1); return p.1
  | .error e => return -e.1

/-- A call that answers an object or `NULL`, and acquires what it answers. -/
def allocAt (r : ℤ → ρ) : Option Object → Script ρ σ ℤ
  | some p => do acquire (r p.1); return p.1
  | none => return 0

section Forget
variable [DecidableEq ρ]

theorem forgets_request (r : ρ) (value : α → ℤ) (o : Except Errno α) :
    Forgets (request r value o : Script ρ σ ℤ) := by
  cases o with
  | ok a => exact (forgets_acquire r).bind fun _ => forgets_pure (value a)
  | error e => exact forgets_pure (-e.1)

theorem forgets_createAt (r : ℤ → ρ) (o : Except Errno Object) :
    Forgets (createAt r o : Script ρ σ ℤ) := by
  cases o with
  | ok p => exact (forgets_acquire (r p.1)).bind fun _ => forgets_pure p.1
  | error e => exact forgets_pure (-e.1)

theorem forgets_allocAt (r : ℤ → ρ) (o : Option Object) :
    Forgets (allocAt r o : Script ρ σ ℤ) := by
  cases o with
  | some p => exact (forgets_acquire (r p.1)).bind fun _ => forgets_pure p.1
  | none => exact forgets_pure 0

end Forget

variable (w : World ρ σ) (r : ρ) (res : ℤ → ρ) (k : ℤ → Script ρ σ α)

@[simp] theorem request_error {β : Type} (value : β → ℤ) (e : Errno) :
    (request r value (.error e) >>= k) w = k (-e.1) w := rfl

@[simp] theorem request_ok {β : Type} (value : β → ℤ) (a : β) :
    (request r value (.ok a) >>= k) w = k (value a) (w.use (.acquire r)) := rfl

@[simp] theorem register_error (e : Errno) : (register r (.error e) >>= k) w = k (-e.1) w := rfl

@[simp] theorem register_ok (u : Unit) :
    (register r (.ok u) >>= k) w = k 0 (w.use (.acquire r)) := rfl

@[simp] theorem register_error_apply (e : Errno) :
    (register r (.error e) : Script ρ σ ℤ) w = (-e.1, w) := rfl

@[simp] theorem register_ok_apply (u : Unit) :
    (register r (.ok u) : Script ρ σ ℤ) w = (0, w.use (.acquire r)) := rfl

@[simp] theorem create_error (e : Errno) : (create r (.error e) >>= k) w = k (-e.1) w := rfl

@[simp] theorem create_ok (p : Object) :
    (create r (.ok p) >>= k) w = k p.1 (w.use (.acquire r)) := rfl

@[simp] theorem alloc_none : (alloc r none >>= k) w = k 0 w := rfl

@[simp] theorem alloc_some (p : Object) :
    (alloc r (some p) >>= k) w = k p.1 (w.use (.acquire r)) := rfl

@[simp] theorem createAt_error (e : Errno) : (createAt res (.error e) >>= k) w = k (-e.1) w := rfl

@[simp] theorem createAt_ok (p : Object) :
    (createAt res (.ok p) >>= k) w = k p.1 (w.use (.acquire (res p.1))) := rfl

@[simp] theorem allocAt_none : (allocAt res none >>= k) w = k 0 w := rfl

@[simp] theorem allocAt_some (p : Object) :
    (allocAt res (some p) >>= k) w = k p.1 (w.use (.acquire (res p.1))) := rfl

end Ldd.Kernel

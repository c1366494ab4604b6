import LddSandbox.Stream.Steps

/-! The lock of the blocking and the poll device. A process holds `dev->lock` at the points between
    taking it and giving it up, and no step without it touches the device: `mutex` is that, for
    every step of every call, and gives mutual exclusion in every run (`holder`). -/

namespace Ldd.Stream
open Ldd.Schemes

def ReadPc.holds : ReadPc → Bool
  | .lock | .wait _ | .relock | .wake _ => false
  | _ => true

def WritePc.holds : WritePc → Bool
  | .lock | .wake _ _ => false
  | _ => true

def CountPc.holds : CountPc → Bool
  | .lock => false
  | _ => true

def PollPc.holds : PollPc → Bool
  | .checkRead | .checkWrite _ | .unlock _ => true
  | _ => false

/-- The process is at a point where it has the lock. -/
def Pc.holds : Pc → Bool
  | .devOpen _ _ k | .devRelease _ _ k => k.holds
  | .devRead _ _ k => k.holds
  | .devWrite _ k => k.holds
  | .devPoll _ _ k => k.holds
  | .idle | .ret _ => false

variable {ι : Type} {drv : Driver} {p : ι} {g : Choice} {d d' : Dev ι} {k k' : Pc} {e : Act}

theorem Locks.holds (h : Locks drv k k') : k.holds = false ∧ k'.holds = true := by
  cases h with
  | devRead => exact ⟨rfl, by cases drv <;> rfl⟩
  | _ => exact ⟨rfl, rfl⟩

theorem Interrupts.holds {c : Call} (h : Interrupts k c) : k.holds = false := by
  cases h <;> rfl

theorem enter_holds (c : Call) : (enter c).holds = false := by cases c <;> rfl

theorem Heard.holds (h : Heard k k') : k'.holds = k.holds := by
  cases h <;> rfl

/-- Every step keeps the lock discipline. -/
theorem Step.move (h : Step drv p g d k d' k' e) :
    LockMove Dev.lock p k.holds k'.holds d d' := by
  cases h with
  | enter => rw [enter_holds]; exact .aside
  | lock hl hfree =>
    rw [hl.holds.1, hl.holds.2]
    exact .acquire hfree rfl
  | interrupt hi => rw [hi.holds]; exact .aside
  | @openReaders r w | @releaseReaders r w => exact .keep (by cases r <;> rfl)
  | @openWriters r w | @releaseWriters r w => exact .keep (by cases w <;> rfl)
  | unlockOpen | unlockRelease | unlockAgain | unlockWait | unlockFaultRead | unlockRead
  | unlockFaultWrite | unlockWrite | unlockPoll => exact .release rfl
  | again | goOn | loopData | loopWait | copyRead | faultRead | advanceRead | isEmpty | notEmpty
  | emptyRead | emptyWrite | isFull | hasRoom | fullRead | fullWrite | copyWrite | faultWrite
  | advanceWrite | checkRead | checkWrite => exact .keep rfl
  | _ => exact .aside

theorem mutex [DecidableEq ι] (drv : Driver) : Mutex (fops ι drv) Dev.lock Pc.holds where
  move h := (Step.of_next h).move
  hear e k := (heard drv e k).holds

/-- In every run the lock is held by exactly the process that is at a point with the lock. -/
theorem holder [DecidableEq ι] {ok : ι → Choice → Conf ι (Dev ι) Pc → Prop}
    {tr : List (ι × Act)} {c : Conf ι (Dev ι) Pc} (h : (fops ι drv).Run ok (loaded ι) tr c) (r : ι) :
    (c.pc r).holds = true ↔ c.shared.lock = some r :=
  (mutex drv).exclusive h rfl (fun _ => rfl) r

theorem outside_of_ne [DecidableEq ι] {ok : ι → Choice → Conf ι (Dev ι) Pc → Prop}
    {tr : List (ι × Act)} {c : Conf ι (Dev ι) Pc} (h : (fops ι drv).Run ok (loaded ι) tr c) {r : ι}
    (hl : c.shared.lock ≠ some r) : (c.pc r).holds = false := by
  rwa [Bool.eq_false_iff, ne_eq, holder h r]

/-- While the lock is free nobody is at a point with it. -/
theorem outside [DecidableEq ι] {ok : ι → Choice → Conf ι (Dev ι) Pc → Prop}
    {tr : List (ι × Act)} {c : Conf ι (Dev ι) Pc} (h : (fops ι drv).Run ok (loaded ι) tr c)
    (hl : c.shared.lock = none) (r : ι) : (c.pc r).holds = false := by
  refine outside_of_ne h ?_
  rw [hl]
  nofun

end Ldd.Stream

import LddSandbox.Stream.History

/-! The lock discipline of the blocking and the poll device, for every step of every run. Where a
    process has the lock follows from its control point (`Pc.holds`); `Pc.unlocks` are the points
    whose next step is `mutex_unlock`, and `Pc.away` those at which it must not have the lock:

        dev_read:   lock ▶ ∙ ▶ ∙ ▶ unlockAgain ▶ ret
                           ∙ ▶ unlockWait ▶ wait .. ▶ relock ▶ ∙ ..       (any number of turns)
                           ∙ ▶ unlockFault ▶ ret
                           ∙ ▶ .. ▶ unlock ▶ wake ▶ ret
                    └ away ┘   └ unlocks ┘ └──── away ────┘

    A signal ends a call only at a point without the lock, so no return path is left with it. -/

namespace Ldd.Stream
open Ldd.Schemes

def ReadPc.unlocks : ReadPc → Bool
  | .unlockAgain | .unlockWait | .unlockFault | .unlock _ => true
  | _ => false

def WritePc.unlocks : WritePc → Bool
  | .unlockFault _ | .unlock _ _ => true
  | _ => false

def CountPc.unlocks : CountPc → Bool
  | .unlock => true
  | _ => false

def PollPc.unlocks : PollPc → Bool
  | .unlock _ => true
  | _ => false

/-- The next step of the process is `mutex_unlock(&dev->lock)`. -/
def Pc.unlocks : Pc → Bool
  | .devOpen _ _ k | .devRelease _ _ k => k.unlocks
  | .devRead _ _ k => k.unlocks
  | .devWrite _ k => k.unlocks
  | .devPoll _ _ k => k.unlocks
  | .idle | .ret _ => false

/-- A process in `wait_event_interruptible`. -/
def Pc.inWait : Pc → Bool
  | .devRead _ _ (.wait _) => true
  | _ => false

/-- A process whose call has returned, or is about to and does nothing else; `dev_poll` has returned
    while its caller sleeps. -/
def Pc.returned : Pc → Bool
  | .idle | .ret _ | .devPoll _ _ (.sleep _) | .devPoll _ _ .asleep => true
  | _ => false

/-- The points that wait for the lock. -/
def Pc.locks : Pc → Bool
  | .devOpen _ _ .lock | .devRelease _ _ .lock | .devRead _ _ .lock | .devRead _ _ .relock
  | .devWrite _ .lock | .devPoll _ _ .lock => true
  | _ => false

/-- Who has the lock in a state. -/
structure Disciplined {ι : Type} (c : Conf ι (Dev ι) Pc) : Prop where
  holder : ∀ r, (c.pc r).holds = true ↔ c.shared.lock = some r
  one : ∀ r r', (c.pc r).holds = true → (c.pc r').holds = true → r = r'
  unlocks : ∀ r, (c.pc r).unlocks = true → c.shared.lock = some r
  inWait : ∀ r, (c.pc r).inWait = true → c.shared.lock ≠ some r
  returned : ∀ r, (c.pc r).returned = true → c.shared.lock ≠ some r
  relocks : ∀ r, (c.pc r).locks = true → c.shared.lock ≠ some r

/-- What a step of process `p` may do with the lock and the device. -/
structure Allowed {ι : Type} (p : ι) (c c' : Conf ι (Dev ι) Pc) : Prop where
  updates : c.shared.lock ≠ some p → c'.shared = { c.shared with lock := c'.shared.lock }
  takes : c'.shared.lock ≠ c.shared.lock → (c.pc p).unlocks = false →
    (c.pc p).locks = true ∧ c.shared.lock = none ∧ c'.shared.lock = some p
  unlocks : (c.pc p).unlocks = true →
    c.shared.lock = some p ∧ c'.shared = c.shared.mutexUnlock

variable {ι : Type} {drv : Driver} {p : ι} {g : Choice} {d d' : Dev ι} {k k' : Pc} {e : Act}

/-! ### The points -/

theorem Pc.holds_of_unlocks (h : k.unlocks = true) : k.holds = true := by
  cases k with
  | devOpen _ _ k | devRelease _ _ k => cases k <;> first | rfl | cases h
  | devRead _ _ k => cases k <;> first | rfl | cases h
  | devWrite _ k => cases k <;> first | rfl | cases h
  | devPoll _ _ k => cases k <;> first | rfl | cases h
  | _ => cases h

theorem Pc.not_holds_of_inWait (h : k.inWait = true) : k.holds = false := by
  cases k with
  | devRead _ _ k => cases k <;> first | rfl | cases h
  | _ => cases h

theorem Pc.not_holds_of_returned (h : k.returned = true) : k.holds = false := by
  cases k with
  | devPoll _ _ k => cases k <;> first | rfl | cases h
  | idle | ret _ => rfl
  | _ => cases h

theorem Pc.not_holds_of_locks (h : k.locks = true) : k.holds = false := by
  cases k with
  | devOpen _ _ k | devRelease _ _ k => cases k <;> first | rfl | cases h
  | devRead _ _ k => cases k <;> first | rfl | cases h
  | devWrite _ k => cases k <;> first | rfl | cases h
  | devPoll _ _ k => cases k <;> first | rfl | cases h
  | _ => cases h

theorem Locks.points (h : Locks drv k k') : k.locks = true ∧ k.unlocks = false := by
  cases h <;> exact ⟨rfl, rfl⟩

theorem Interrupts.not_unlocks {c : Call} (h : Interrupts k c) : k.unlocks = false := by
  cases h <;> rfl

/-! ### One step -/

/-- A process without the lock changes nothing but the lock. -/
theorem Step.frame (h : Step drv p g d k d' k' e) (hk : k.holds = false) :
    d' = { d with lock := d'.lock } := by
  cases h with
  | enter | ret | lock | interrupt => rfl
  | openReaders | openWriters | unlockOpen | releaseReaders | releaseWriters | unlockRelease
  | again | goOn | unlockAgain | loopData | loopWait | unlockWait | copyRead | faultRead
  | unlockFaultRead | advanceRead | isEmpty | notEmpty | emptyRead | emptyWrite | unlockRead
  | isFull | hasRoom | fullRead | fullWrite | copyWrite | faultWrite | unlockFaultWrite
  | advanceWrite | unlockWrite | checkRead | checkWrite | unlockPoll => cases hk
  | _ => rfl

/-- The lock is taken where a process waits for it, and given up by `mutex_unlock`. -/
theorem Step.lockStep (h : Step drv p g d k d' k' e) :
    (k.unlocks = true → d' = d.mutexUnlock) ∧
      (k.unlocks = false → d'.lock = d.lock ∨ k.locks = true ∧ d.lock = none ∧ d'.lock = some p) := by
  cases h with
  | lock hl hfree =>
    obtain ⟨hlocks, hunlocks⟩ := hl.points
    refine ⟨fun h => ?_, fun _ => .inr ⟨hlocks, hfree, rfl⟩⟩
    rw [hunlocks] at h
    cases h
  | interrupt hi =>
    refine ⟨fun h => ?_, fun _ => .inl rfl⟩
    rw [hi.not_unlocks] at h
    cases h
  | unlockOpen | unlockRelease | unlockAgain | unlockWait | unlockFaultRead | unlockRead
  | unlockFaultWrite | unlockWrite | unlockPoll => exact ⟨fun _ => rfl, nofun⟩
  | @openReaders r w | @releaseReaders r w => exact ⟨nofun, fun _ => .inl (by cases r <;> rfl)⟩
  | @openWriters r w | @releaseWriters r w => exact ⟨nofun, fun _ => .inl (by cases w <;> rfl)⟩
  | _ => exact ⟨nofun, fun _ => .inl rfl⟩

/-! ### Every run -/

variable [DecidableEq ι] {tr : List (ι × Act)} {c : Conf ι (Dev ι) Pc}

theorem disciplined_run (hrun : (fops ι drv).Run anyStep (loaded ι) tr c) : Disciplined c := by
  have hex := holder hrun
  have hout : ∀ r, (c.pc r).holds = false → c.shared.lock ≠ some r := by
    intro r hr hl
    rw [(hex r).mpr hl] at hr
    cases hr
  refine ⟨hex, fun r r' hr hr' => ?_, fun r hr => ?_, fun r hr => ?_, fun r hr => ?_,
    fun r hr => ?_⟩
  · have hl := (hex r).mp hr
    rw [(hex r').mp hr'] at hl
    exact (Option.some.inj hl).symm
  · exact (hex r).mp (Pc.holds_of_unlocks hr)
  · exact hout r (Pc.not_holds_of_inWait hr)
  · exact hout r (Pc.not_holds_of_returned hr)
  · exact hout r (Pc.not_holds_of_locks hr)

/-- LOCK DISCIPLINE: in every reachable state the lock has one holder, which is the process at a
    point of its critical section; only the holder is at a `mutex_unlock`, and no process that
    waits for data, waits for the lock or has returned from its call has the lock. Every step that
    updates the device is one of the holder, and the lock changes hands only by `mutex_lock` when
    it is free and by the holder's `mutex_unlock`. -/
theorem lock_discipline (drv : Driver) {tr : List (ι × Act)} {c : Conf ι (Dev ι) Pc}
    (hrun : (fops ι drv).Run anyStep (loaded ι) tr c) :
    Disciplined c ∧ ∀ p g e c', (fops ι drv).fire p g c = some (e, c') → Allowed p c c' := by
  have hdisc := disciplined_run hrun
  refine ⟨hdisc, fun p g e c' hf => ?_⟩
  have hstep := Step.of_next (Program.fire_spec hf).1
  refine ⟨fun hl => ?_, fun hne hunlocks => ?_, fun hunlocks => ?_⟩
  · refine hstep.frame (Bool.eq_false_iff.mpr fun hk => ?_)
    exact hl ((hdisc.holder p).mp hk)
  · exact (hstep.lockStep.2 hunlocks).resolve_left hne
  · exact ⟨hdisc.unlocks p hunlocks, hstep.lockStep.1 hunlocks⟩

theorem lock_discipline_readerWaits : Disciplined readerWaitsRun.2 ∧
    readerWaitsRun.2.shared.lock = none ∧ (readerWaitsRun.2.pc true).returned = true :=
  ⟨(lock_discipline .charDevBlocking (Program.Run.of_exec anyway_any readerWaits_runs)).1,
    by decide +kernel, by decide +kernel⟩

end Ldd.Stream

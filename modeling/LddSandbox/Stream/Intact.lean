import LddSandbox.Stream.Readiness

/-! Failed calls of the blocking and the poll device leave the stream as it was, except the write
    that found the buffer full.

    A read moves `read_pos` only after its copy, and so does a write `write_pos`; but the reset of a
    full buffer comes before the copy, and stays when the copy faults: the unread bytes are gone
    although the call returned `-EFAULT`.

        dev_read:   copy ─ ok ─▶ read_pos += n          dev_write:  (full ▶ reset) ▶ copy ─ ok ─▶ ..
                     └ fault ▶ nothing moved                                          └ fault ▶ reset -/

namespace Ldd.Stream
open Ldd.Schemes Ldd.Kernel

variable {ι : Type} {c c' : Conf ι (Dev ι) Pc} {st st' : Fifo bufLen}

/-- The unread bytes, and the number of bytes a write can append to them, are as they were. -/
structure Untouched (c c' : Conf ι (Dev ι) Pc) : Prop where
  unread : c'.shared.unread = c.shared.unread
  room : c'.shared.bufferSize - c'.shared.writePos = c.shared.bufferSize - c.shared.writePos

/-- A call that succeeds in `c'` gives what it gives when it succeeds in `c`. -/
def Repeats [DecidableEq ι] (drv : Driver) (c c' : Conf ι (Dev ι) Pc) : Prop :=
  ∀ p q o o' d d', CriticalSection (fops ι drv) anyStep Dev.lock p c (.settle o) d →
    CriticalSection (fops ι drv) anyStep Dev.lock q c' (.settle o') d' →
    o.call = o'.call → o.fate = .done → o'.fate = .done → o = o'

/-- The stream is intact in `c'`, and as long as it is untouched a call gives what it would have
    given in `c`. -/
structure Intact [DecidableEq ι] (drv : Driver) (c c' : Conf ι (Dev ι) Pc) : Prop where
  untouched : Untouched c c'
  repeats : ∀ tr c₂, (fops ι drv).Run anyStep c' tr c₂ → c₂.shared.lock = none →
    Untouched c' c₂ → Repeats drv c c₂

theorem Untouched.trans {c₂ : Conf ι (Dev ι) Pc} (h : Untouched c c') (h' : Untouched c' c₂) :
    Untouched c c₂ :=
  ⟨h'.unread.trans h.unread, h'.room.trans h.room⟩

/-- The stream is untouched exactly if it represents the same queue. -/
theorem untouched_iff (hs : Sim st c.shared) (hs' : Sim st' c'.shared) :
    Untouched c c' ↔ st'.pending = st.pending ∧ st'.used = st.used := by
  have hroom := st.room
  have hroom' := st'.room
  constructor
  · rintro ⟨hunread, hleft⟩
    rw [hs.unread, hs'.unread] at hunread
    rw [hs.size, hs'.size, hs.used, hs'.used] at hleft
    exact ⟨hunread, by omega⟩
  · rintro ⟨hpending, hused⟩
    refine ⟨by rw [hs.unread, hs'.unread, hpending], ?_⟩
    rw [hs.size, hs'.size, hs.used, hs'.used, hused]

/-- What a call gives is determined by the queue it finds. -/
theorem Leaves.repeats {calls calls' : List Call} {o o' : Outcome} {s s' : Fifo bufLen}
    (h : Leaves st calls (.settle o) s) (h' : Leaves st calls' (.settle o') s')
    (hcall : o.call = o'.call) (hdone : o.fate = .done) (hdone' : o'.fate = .done) : o = o' := by
  cases h with
  | read =>
    cases h' with
    | read =>
      obtain ⟨rfl, rfl⟩ := Call.devRead.inj hcall
      rfl
    | write => cases hcall
    | readFault | again | writeFault => cases hdone'
  | write =>
    cases h' with
    | write =>
      obtain rfl := Call.devWrite.inj hcall
      rfl
    | read => cases hcall
    | readFault | again | writeFault => cases hdone'
  | readFault | again | writeFault => cases hdone

variable [DecidableEq ι] {drv : Driver} {p : ι} {e : Act} {tr : List (ι × Act)}

theorem repeats_of_untouched {tr' : List (ι × Act)}
    (hrun : (fops ι drv).Run anyStep (loaded ι) tr c) (hl : c.shared.lock = none)
    (hrun' : (fops ι drv).Run anyStep (loaded ι) tr' c') (hl' : c'.shared.lock = none)
    (h : Untouched c c') : Repeats drv c c' := by
  intro p q o o' d d' hsec hsec' hcall hdone hdone'
  obtain ⟨st, -, hsim⟩ := replayed hrun
  obtain ⟨st', -, hsim'⟩ := replayed hrun'
  obtain ⟨hpending, hused⟩ := (untouched_iff (hsim hl) (hsim' hl')).mp h
  obtain rfl : st' = st := by
    cases st
    cases st'
    cases hpending
    cases hused
    rfl
  obtain ⟨s, hleaves, -⟩ := section_leaves hrun (hsim hl) hsec
  obtain ⟨s', hleaves', -⟩ := section_leaves hrun' (hsim' hl') hsec'
  exact hleaves.repeats hleaves' hcall hdone hdone'

theorem intact_iff_untouched (hrun : (fops ι drv).Run anyStep (loaded ι) tr c)
    (hsec : CriticalSection (fops ι drv) anyStep Dev.lock p c e c') :
    Intact drv c c' ↔ Untouched c c' := by
  refine ⟨Intact.untouched, fun h => ⟨h, fun tr₂ c₂ hrun₂ hl₂ h₂ => ?_⟩⟩
  obtain ⟨tr', hrun'⟩ := hsec.run
  exact repeats_of_untouched hrun hsec.free ((hrun.trans hrun').trans hrun₂) hl₂ (h.trans h₂)

/-- A write before its critical section is at the lock. -/
theorem lock_of_current {k : Pc} {data : List UInt8} (hk : k.holds = false) :
    current k = [.devWrite data] ↔ k = .devWrite data .lock := by
  constructor
  · intro h
    cases k with
    | devWrite data' k =>
      cases k with
      | lock =>
        obtain rfl := Call.devWrite.inj (List.singleton_inj.mp h)
        rfl
      | wake => cases h
      | _ => cases hk
    | devRead nb len k => cases k <;> cases h
    | _ => cases h
  · rintro rfl
    rfl

/-- FAILED CALLS: a critical section that does not end with a success leaves the stream intact
    exactly if it is not a write that finds the buffer full. (Such a section belongs to a call that
    fails, or to a read that goes on to wait, or is neither a read nor a write.) -/
theorem errors_intact_iff (hrun : (fops ι drv).Run anyStep (loaded ι) tr c)
    (hsec : CriticalSection (fops ι drv) anyStep Dev.lock p c e c')
    (hfail : ∀ o, e = .settle o → o.ret < 0) :
    Intact drv c c' ↔
      ¬ ((∃ data, c.pc p = .devWrite data .lock) ∧ c.shared.hasSpace = false) := by
  have hl := hsec.free
  obtain ⟨st, -, hsim⟩ := replayed hrun
  have hs := hsim hl
  have hspace : c.shared.hasSpace = false ↔ st.used = bufLen := by
    rw [← Bool.not_eq_true, hs.hasSpace, not_not]
  obtain ⟨st', hleaves, hs'⟩ := section_leaves hrun hs hsec
  have hwrites : (∃ data, c.pc p = .devWrite data .lock) ↔
      ∃ data, current (c.pc p) = [.devWrite data] :=
    exists_congr fun _ => (lock_of_current (outside hrun hl p)).symm
  rw [intact_iff_untouched hrun hsec, untouched_iff hs hs', hwrites, hspace]
  generalize current (c.pc p) = calls at hleaves
  cases hleaves with
  | read | write => exact absurd (hfail _ rfl) (not_lt.mpr (Int.natCast_nonneg _))
  | readFault | again | wait | aside =>
    refine iff_of_true ⟨rfl, rfl⟩ ?_
    rintro ⟨⟨data, h⟩, -⟩
    cases h
  | @writeFault data =>
    by_cases hfull : st.used = bufLen
    · refine iff_of_false ?_ (not_not.mpr ⟨⟨data, rfl⟩, hfull⟩)
      rintro ⟨-, hused⟩
      have hless := st.makeRoom_used_lt (by decide)
      omega
    · refine iff_of_true ?_ fun h => hfull h.2
      rw [Fifo.makeRoom_of_room hfull]
      exact ⟨rfl, rfl⟩

/-- The return value an event settles. -/
def Act.settled : Act → Option ℤ
  | .settle o => some o.ret
  | _ => none

theorem Act.ret_of_settled {ret : ℤ} {e : Act} (h : e.settled = some ret) {o : Outcome}
    (ho : e = .settle o) : o.ret = ret := by
  subst ho
  exact Option.some.inj h

/-- The critical section of the write of `writesFull`, when its copy faults. -/
def faultsFull (drv : Driver) : Option (Act × Conf Bool (Dev Bool) Pc) :=
  solo (fops Bool drv) anyway Dev.lock false (List.replicate 6 { fault := { left := 1 } })
    (writesFullRun drv).2

theorem faultsFull_runs (drv : Driver) : (faultsFull drv).isSome = true := by
  cases drv <;> decide +kernel

/-- The section of `faultsFull`. -/
def faultsFullSection (drv : Driver) : Act × Conf Bool (Dev Bool) Pc :=
  (faultsFull drv).get (faultsFull_runs drv)

theorem faultsFull_section (drv : Driver) : CriticalSection (fops Bool drv) anyStep Dev.lock false
    (writesFullRun drv).2 (faultsFullSection drv).1 (faultsFullSection drv).2 :=
  CriticalSection.of_solo anyway_any (Option.some_get (faultsFull_runs drv)).symm

theorem faultsFull_fails (drv : Driver) : (faultsFullSection drv).1.settled = some (-EFAULT) := by
  cases drv <;> decide +kernel

theorem errors_intact_iff_faultsFull : (writesFullRun .charDevPoll).2.shared.hasSpace = false ∧
    ¬ Intact .charDevPoll (writesFullRun .charDevPoll).2 (faultsFullSection .charDevPoll).2 := by
  have hrun : (fops Bool .charDevPoll).Run anyStep (loaded Bool) (writesFullRun .charDevPoll).1
      (writesFullRun .charDevPoll).2 := Program.Run.of_exec anyway_any (writesFull_runs .charDevPoll)
  have hfull : (writesFullRun .charDevPoll).2.shared.hasSpace = false := by decide +kernel
  have hp : (writesFullRun .charDevPoll).2.pc false = .devWrite [1] .lock := by decide +kernel
  have hfail : ∀ o, (faultsFullSection .charDevPoll).1 = .settle o → o.ret < 0 := by
    intro o ho
    rw [Act.ret_of_settled (faultsFull_fails .charDevPoll) ho]
    decide
  exact ⟨hfull, fun h => (errors_intact_iff hrun (faultsFull_section .charDevPoll) hfail).mp h
    ⟨⟨[1], hp⟩, hfull⟩⟩

/-- Failed calls leave the stream intact. -/
def ErrorsIntact (drv : Driver) : Prop :=
  ∀ (tr : List (Bool × Act)) (c : Conf Bool (Dev Bool) Pc) (p : Bool) (e : Act)
    (c' : Conf Bool (Dev Bool) Pc), (fops Bool drv).Run anyStep (loaded Bool) tr c →
    CriticalSection (fops Bool drv) anyStep Dev.lock p c e c' →
    (∀ o, e = .settle o → o.ret < 0) → Intact drv c c'

theorem reset_discards (hunread : (writesFullRun drv).2.shared.unread.isEmpty = false)
    (hgone : (faultsFullSection drv).2.shared.unread.isEmpty = true) : ¬ ErrorsIntact drv := by
  intro h
  have hrun : (fops Bool drv).Run anyStep (loaded Bool) (writesFullRun drv).1 (writesFullRun drv).2 :=
    Program.Run.of_exec anyway_any (writesFull_runs drv)
  have hintact := h _ _ _ _ _ hrun (faultsFull_section drv) fun o ho => by
    rw [Act.ret_of_settled (faultsFull_fails drv) ho]
    decide
  rw [hintact.untouched.unread, hunread] at hgone
  cases hgone

/-- Both devices: the buffer is full, and a write of one byte faults. -/
theorem not_errors_intact : ¬ ErrorsIntact .charDevBlocking ∧ ¬ ErrorsIntact .charDevPoll :=
  ⟨reset_discards (by decide +kernel) (by decide +kernel),
    reset_discards (by decide +kernel) (by decide +kernel)⟩

end Ldd.Stream

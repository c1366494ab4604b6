import LddSandbox.Schemes.Sections
import LddSandbox.Stream.Poll

/-! Critical sections of the blocking and the poll device, from the lock taken to the lock given up.
    `Leaves` lists how a section can end, by the call it belongs to and the abstract queue it found;
    `section_leaves` says that it ends in no other way, whatever the others do beside it, and
    `section_ends` that it ends.

        dev_read:    nothing pending   ─▶ -EAGAIN (`O_NONBLOCK`), or unlock and wait
                     something pending ─▶ its first bytes, or -EFAULT
        dev_write:   room made if full ─▶ bytes appended, or -EFAULT
        all others:  the stream is as it was -/

namespace Ldd.Stream
open Ldd.Schemes Ldd.Kernel

/-- How a critical section ends that found `st`, for the read or write it belongs to, if any. -/
inductive Leaves (st : Fifo bufLen) : List Call → Act → Fifo bufLen → Prop
  | read {nb len} : st.pending ≠ [] → Leaves st [.devRead nb len] (.settle ⟨.devRead nb len, .done,
      (min len st.pending.length : ℕ), st.pending.take len, []⟩) (st.pop len)
  | readFault {nb len} : st.pending ≠ [] → Leaves st [.devRead nb len]
      (.settle ⟨.devRead nb len, .fault, -EFAULT, [], []⟩) st
  | again {nb len} : st.pending = [] → Leaves st [.devRead nb len]
      (.settle ⟨.devRead nb len, .again, -EAGAIN, [], []⟩) st
  | wait {nb len} : st.pending = [] → Leaves st [.devRead nb len] .tau st
  | write {data} : Leaves st [.devWrite data] (.settle ⟨.devWrite data, .done,
      (st.makeRoom.take data : ℕ), [], st.lost⟩) (st.makeRoom.push data)
  | writeFault {data} : Leaves st [.devWrite data]
      (.settle ⟨.devWrite data, .fault, -EFAULT, [], st.lost⟩) st.makeRoom
  | aside : Leaves st [] .tau st

/-- The steps that give up the lock. -/
inductive Unlocks : Pc → Act → Pc → Prop
  | devOpen {r w} : Unlocks (.devOpen r w .unlock) .tau .idle
  | devRelease {r w} : Unlocks (.devRelease r w .unlock) .tau .idle
  | again {nb len} : Unlocks (.devRead nb len .unlockAgain)
      (.settle ⟨.devRead nb len, .again, -EAGAIN, [], []⟩)
      (.ret ⟨.devRead nb len, .again, -EAGAIN, [], []⟩)
  | wait {nb len} : Unlocks (.devRead nb len .unlockWait) .tau (.devRead nb len (.wait .enqueue))
  | readFault {nb len} : Unlocks (.devRead nb len .unlockFault)
      (.settle ⟨.devRead nb len, .fault, -EFAULT, [], []⟩)
      (.ret ⟨.devRead nb len, .fault, -EFAULT, [], []⟩)
  | read {nb len bytes} : Unlocks (.devRead nb len (.unlock bytes))
      (.settle ⟨.devRead nb len, .done, bytes.length, bytes, []⟩) (.devRead nb len (.wake bytes))
  | writeFault {data lost} : Unlocks (.devWrite data (.unlockFault lost))
      (.settle ⟨.devWrite data, .fault, -EFAULT, [], lost.getD []⟩)
      (.ret ⟨.devWrite data, .fault, -EFAULT, [], lost.getD []⟩)
  | write {data lost} {n : ℕ} : Unlocks (.devWrite data (.unlock lost n))
      (.settle ⟨.devWrite data, .done, n, [], lost.getD []⟩) (.devWrite data (.wake lost n))
  | poll {ev t mask} : Unlocks (.devPoll ev t (.unlock mask)) .tau (.devPoll ev t (.sleep mask))

/-- The points of a call whose copy has faulted. -/
def Pc.faulted : Pc → Bool
  | .devRead _ _ .unlockFault | .devWrite _ (.unlockFault _) => true
  | _ => false

/-- No copy of process `p` faults. -/
def Unfaulted {ι : Type} (p : ι) (q : ι) (g : Choice) (_ : Conf ι (Dev ι) Pc) : Prop :=
  q = p → g.fault.left = 0

variable {ι : Type} {drv : Driver} {p : ι} {g : Choice} {d d' : Dev ι} {k k' : Pc} {e : Act}
variable {st : Fifo bufLen}

/-! ### One step -/

/-- A step that takes or keeps the lock shows nothing. -/
theorem Step.silent (h : Step drv p g d k d' k' e) (hk' : k'.holds = true) : e = .tau := by
  cases h with
  | enter =>
    rw [enter_holds] at hk'
    cases hk'
  | ret | interrupt | unlockAgain | unlockFaultRead | unlockRead | unlockFaultWrite | unlockWrite
  | wakeRead | wakeWrite => cases hk'
  | _ => rfl

/-- So it belongs to the call that was begun before. -/
theorem Step.current (h : Step drv p g d k d' k' e) (hk' : k'.holds = true) :
    current k' = current k := by
  have hcall := h.books.call
  rw [h.silent hk'] at hcall
  simpa [begun, settles] using hcall.symm

/-- A process gives up the lock by no other step. -/
theorem Step.unlocks (h : Step drv p g d k d' k' e) (hk : k.holds = true) (hk' : k'.holds = false) :
    Unlocks k e k' ∧ d' = d.mutexUnlock := by
  cases h with
  | lock hl =>
    rw [hl.holds.2] at hk'
    cases hk'
  | interrupt hi =>
    rw [hi.holds] at hk
    cases hk
  | unlockOpen | unlockRelease | unlockAgain | unlockWait | unlockFaultRead | unlockRead
  | unlockFaultWrite | unlockWrite | unlockPoll => exact ⟨by constructor, rfl⟩
  | openReaders | openWriters | releaseReaders | releaseWriters | again | goOn | loopData | loopWait
  | copyRead | faultRead | advanceRead | isEmpty | notEmpty | emptyRead | emptyWrite | isFull
  | hasRoom | fullRead | fullWrite | copyWrite | faultWrite | advanceWrite | checkRead
  | checkWrite => cases hk'
  | _ => cases hk

/-- What it leaves then. -/
theorem Unlocks.leaves (h : Unlocks k e k') (hat : At st d k) :
    ∃ st', Leaves st (Stream.current k) e st' ∧ Sim st' d.mutexUnlock := by
  cases h with
  | devOpen | devRelease | poll =>
    have hs : Sim st d := hat
    exact ⟨st, .aside, hs.ofLock none⟩
  | again => exact ⟨st, .again hat.2, hat.1.ofLock none⟩
  | wait => exact ⟨st, .wait hat.2, hat.1.ofLock none⟩
  | readFault => exact ⟨st, .readFault hat.2, hat.1.ofLock none⟩
  | @read nb len bytes =>
    obtain ⟨hs, hne, rfl⟩ := hat
    refine ⟨st.pop len, ?_, hs.ofLock none⟩
    rw [List.length_take]
    exact .read hne
  | writeFault =>
    obtain ⟨hs, hl⟩ := hat
    refine ⟨st.makeRoom, ?_, hs.ofLock none⟩
    rw [hl]
    exact .writeFault
  | @write data lost n =>
    obtain ⟨hs, hl, rfl⟩ := hat
    refine ⟨st.makeRoom.push data, ?_, hs.ofLock none⟩
    rw [hl]
    exact .write

/-- A call comes to fail only by a fault of its copy. -/
theorem faulted_of_next (hn : (fops ι drv).next p g d k = some (d', k', e)) (hg : g.fault.left = 0)
    (hk' : k'.faulted = true) : k.faulted = true := by
  cases Step.of_next hn with
  | faultRead => exact absurd hg (left_of_faultRead hn)
  | faultWrite hleft =>
    refine absurd ?_ hleft
    simp only [copyFromUser, Fault.uncopied, hg, Nat.zero_min]
  | enter => cases hc : g.call <;> rw [hc] at hk' <;> cases hk'
  | lock hl =>
    cases hl with
    | devRead => cases drv <;> cases hk'
    | _ => cases hk'
  | _ => cases hk'

theorem Pc.holds_of_faulted (h : k.faulted = true) : k.holds = true := by
  cases k with
  | devRead _ _ k => cases k <;> first | rfl | cases h
  | devWrite _ k => cases k <;> first | rfl | cases h
  | _ => cases h

/-- A faulted call ends with `-EFAULT`, and no other does. -/
theorem Unlocks.faulted (h : Unlocks k e k') {o : Outcome} (ho : e = .settle o) :
    o.fate = .fault ↔ k.faulted = true := by
  subst ho
  cases h <;> simp [Pc.faulted]

/-! ### The steps left -/

def ReadPc.left : ReadPc → ℕ
  | .checkNonblock => 7
  | .loop => 6
  | .copy => 5
  | .advance _ => 4
  | .checkEmpty _ => 3
  | .resetRead _ => 2
  | .resetWrite _ => 1
  | _ => 0

def WritePc.left : WritePc → ℕ
  | .checkFull => 5
  | .resetRead => 4
  | .resetWrite _ => 3
  | .copy _ => 2
  | .advance _ _ => 1
  | _ => 0

def CountPc.left : CountPc → ℕ
  | .readers => 2
  | .writers => 1
  | _ => 0

def PollPc.left : PollPc → ℕ
  | .checkRead => 2
  | .checkWrite _ => 1
  | _ => 0

/-- The steps a process has before it, at most, until it gives up the lock. -/
def Pc.left : Pc → ℕ
  | .devOpen _ _ k | .devRelease _ _ k => k.left
  | .devRead _ _ k => k.left
  | .devWrite _ k => k.left
  | .devPoll _ _ k => k.left
  | .idle | .ret _ => 0

/-- Nothing stops a process that has the lock, and each step brings it nearer to its unlock. -/
theorem next_left (p : ι) (d : Dev ι) (hk : k.holds = true) :
    ∃ d' k' e, (fops ι drv).next p {} d k = some (d', k', e) ∧
      (k'.holds = true → k'.left < k.left) := by
  cases k with
  | devOpen _ _ k | devRelease _ _ k =>
    cases k with
    | lock => cases hk
    | _ => exact ⟨_, _, _, rfl, by simp [Pc.left, CountPc.left, Pc.holds]⟩
  | devRead _ _ k =>
    cases k with
    | lock | wait | relock | wake => cases hk
    | checkNonblock | loop | copy | checkEmpty =>
      refine ⟨_, _, _, rfl, ?_⟩
      simp only [devRead.here]
      split <;> simp [Pc.left, ReadPc.left]
    | _ => exact ⟨_, _, _, rfl, by simp [devRead.here, Pc.left, ReadPc.left, Pc.holds, ReadPc.holds]⟩
  | devWrite _ k =>
    cases k with
    | lock | wake => cases hk
    | checkFull | copy =>
      refine ⟨_, _, _, rfl, ?_⟩
      simp only [devWrite.here]
      split <;> simp [Pc.left, WritePc.left]
    | _ =>
      exact ⟨_, _, _, rfl, by simp [devWrite.here, Pc.left, WritePc.left, Pc.holds, WritePc.holds]⟩
  | devPoll _ _ k =>
    cases k with
    | waitRead | waitWrite | lock | sleep | asleep => cases hk
    | _ => exact ⟨_, _, _, rfl, by simp [devPoll.here, Pc.left, PollPc.left, Pc.holds, PollPc.holds]⟩
  | _ => cases hk

/-- A process that finds the lock free takes it. -/
theorem next_lock (p : ι) (hl : d.lock = none) (hk : Locks drv k k') :
    (fops ι drv).next p {} d k = some ({ d with lock := some p }, k', .tau) := by
  cases hk <;> simp [fops, devOpen, devRelease, countFile, devRead, devRead.here, devWrite,
    devWrite.here, devPoll, devPoll.here, mutexLockInterruptible, mutexLock, hl]

/-! ### Every section -/

variable [DecidableEq ι] {ok : ι → Choice → Conf ι (Dev ι) Pc → Prop}
variable {tr₀ tr : List (ι × Act)} {c c₁ c' : Conf ι (Dev ι) Pc}

/-- A run goes on into a section. -/
theorem within_run (hrun : (fops ι drv).Run anyStep (loaded ι) tr₀ c)
    (h : Inside (fops ι drv) ok Dev.lock p c tr c₁) :
    (fops ι drv).Run anyStep (loaded ι) (tr₀ ++ tr) c₁ :=
  hrun.trans (h.run.mono fun _ _ _ _ => trivial)

/-- What the process has of the device inside its section. -/
theorem within_at (hrun : (fops ι drv).Run anyStep (loaded ι) tr₀ c) (hs : Sim st c.shared)
    (h : Inside (fops ι drv) ok Dev.lock p c tr c₁) :
    At st c₁.shared (c₁.pc p) ∧ current (c₁.pc p) = current (c.pc p) := by
  refine h.carries (mutex drv) (B := fun k s => At st s k ∧ current k = current (c.pc p))
    (holder hrun) ?_ ?_ ?_
  · intro g s' k' e _ hn hk'
    have hstep := Step.of_next hn
    obtain ⟨st', ht, hat⟩ := hstep.at (At.outside (outside hrun h.free p) hs)
    rw [hstep.silent hk'] at ht
    obtain rfl : st' = st := ht
    exact ⟨hat, hstep.current hk'⟩
  · rintro g c s' k' e _ hn - hk' ⟨hat, hcall⟩
    have hstep := Step.of_next hn
    obtain ⟨st', ht, hat'⟩ := hstep.at hat
    rw [hstep.silent hk'] at ht
    obtain rfl : st' = st := ht
    exact ⟨hat', (hstep.current hk').trans hcall⟩
  · rintro e k s ⟨hat, hcall⟩
    have hk := heard (ι := ι) drv e k
    exact ⟨hk.at hat, hk.books.2.trans hcall⟩

/-- The last step of a section. -/
theorem section_unlocks (hrun : (fops ι drv).Run anyStep (loaded ι) tr₀ c)
    (h : Inside (fops ι drv) ok Dev.lock p c tr c₁) (hf : (fops ι drv).fire p g c₁ = some (e, c'))
    (hl : c'.shared.lock = none) :
    Unlocks (c₁.pc p) e (c'.pc p) ∧ c'.shared = c₁.shared.mutexUnlock := by
  have hrun₁ := within_run hrun h
  have hrun' := hrun₁.step trivial hf
  exact (Step.of_next (Program.fire_spec hf).1).unlocks ((holder hrun₁ p).mpr h.locked)
    (outside hrun' hl p)

/-- How a section ends. -/
theorem section_leaves (hrun : (fops ι drv).Run anyStep (loaded ι) tr₀ c) (hs : Sim st c.shared)
    (h : CriticalSection (fops ι drv) ok Dev.lock p c e c') :
    ∃ st', Leaves st (current (c.pc p)) e st' ∧ Sim st' c'.shared := by
  obtain ⟨tr, c₁, g, hin, -, hf, hl⟩ := h
  obtain ⟨hat, hcall⟩ := within_at hrun hs hin
  obtain ⟨hunlocks, hshared⟩ := section_unlocks hrun hin hf hl
  rw [← hcall, hshared]
  exact hunlocks.leaves hat

/-- A section in which no copy of the process faults. -/
theorem section_unfaulted (hrun : (fops ι drv).Run anyStep (loaded ι) tr₀ c)
    (h : CriticalSection (fops ι drv) (Unfaulted p) Dev.lock p c e c') {o : Outcome}
    (ho : e = .settle o) : o.fate ≠ .fault := by
  obtain ⟨tr, c₁, g, hin, -, hf, hl⟩ := h
  have hgood : (c₁.pc p).faulted = false := by
    refine hin.carries (mutex drv) (B := fun k _ => k.faulted = false) (holder hrun) ?_ ?_ ?_
    · intro g s' k' e hok hn hk'
      rw [Bool.eq_false_iff]
      intro hbad
      have hheld := Pc.holds_of_faulted (faulted_of_next hn (hok rfl) hbad)
      rw [outside hrun hin.free p] at hheld
      cases hheld
    · intro g c s' k' e hok hn _ _ hgood
      rw [Bool.eq_false_iff]
      intro hbad
      rw [faulted_of_next hn (hok rfl) hbad] at hgood
      cases hgood
    · intro e k s hgood
      have hk := heard (ι := ι) drv e k
      generalize (fops ι drv).hear e k = k' at hk
      cases hk <;> exact hgood
  rw [ne_eq, (section_unlocks hrun hin hf hl).1.faulted ho, hgood]
  decide

/-- A process that finds the lock free goes through its section. -/
theorem section_ends (hrun : (fops ι drv).Run anyStep (loaded ι) tr c)
    (hl : c.shared.lock = none) (hp : c.pc p = k) (hk : Locks drv k k')
    (hok : ∀ c, ok p {} c) : ∃ e c', CriticalSection (fops ι drv) ok Dev.lock p c e c' := by
  have hf : (fops ι drv).fire p {} c = some (.tau, ⟨{ c.shared with lock := some p },
      fun r => if r = p then k' else (fops ι drv).hear .tau (c.pc r)⟩) := by
    rw [Program.fire, hp, next_lock p hl hk]
    rfl
  exact (Inside.take hl (hok c) hf rfl).ends (mutex drv) (holder hrun) hok
    fun d k hk => next_left p d hk

end Ldd.Stream

import LddSandbox.Stream.Device

/-! The steps of the blocking and the poll device, one by one: `Step` lists every transition with
    its guard, and `Step.of_next` says that a process takes no other. Every invariant of the two
    drivers is a case analysis on `Step`; nothing above this module unfolds a driver function. -/

namespace Ldd.Stream
open Ldd.Schemes Ldd.Kernel

/-- The points that wait for the lock, and where they go with it. -/
inductive Locks (drv : Driver) : Pc → Pc → Prop
  | devOpen {r w} : Locks drv (.devOpen r w .lock) (.devOpen r w .readers)
  | devRelease {r w} : Locks drv (.devRelease r w .lock) (.devRelease r w .readers)
  | devRead {nb len} : Locks drv (.devRead nb len .lock)
      (.devRead nb len (if drv.checksNonblock then .checkNonblock else .loop))
  | relock {nb len} : Locks drv (.devRead nb len .relock) (.devRead nb len .loop)
  | devWrite {data} : Locks drv (.devWrite data .lock) (.devWrite data .checkFull)
  | devPoll {ev t} : Locks drv (.devPoll ev t .lock) (.devPoll ev t .checkRead)

/-- The points where a signal ends a call. -/
inductive Interrupts : Pc → Call → Prop
  | devRead {nb len} : Interrupts (.devRead nb len .lock) (.devRead nb len)
  | relock {nb len} : Interrupts (.devRead nb len .relock) (.devRead nb len)
  | sleep {nb len woken} : Interrupts (.devRead nb len (.wait (.sleep woken))) (.devRead nb len)
  | devWrite {data} : Interrupts (.devWrite data .lock) (.devWrite data)

/-- Process `p` at a point goes with the device to another point, and shows an event. -/
inductive Step {ι : Type} (drv : Driver) (p : ι) (g : Choice) (d : Dev ι) :
    Pc → Dev ι → Pc → Act → Prop
  | enter : drv.offers g.call = true → Step drv p g d .idle d (enter g.call) (.call g.call)
  | ret {o} : Step drv p g d (.ret o) d .idle (.ret o)
  | lock {k k'} : Locks drv k k' → d.lock = none →
      Step drv p g d k { d with lock := some p } k' .tau
  | interrupt {k c} : Interrupts k c → g.signal = true →
      Step drv p g d k d (.ret (interrupted c)) (.settle (interrupted c))
  -- `dev_open` and `dev_release`
  | openReaders {r w} : Step drv p g d (.devOpen r w .readers)
      (if r then { d with readers := d.readers + 1 } else d) (.devOpen r w .writers) .tau
  | openWriters {r w} : Step drv p g d (.devOpen r w .writers)
      (if w then { d with writers := d.writers + 1 } else d) (.devOpen r w .unlock) .tau
  | unlockOpen {r w} : Step drv p g d (.devOpen r w .unlock) d.mutexUnlock .idle .tau
  | releaseReaders {r w} : Step drv p g d (.devRelease r w .readers)
      (if r then { d with readers := d.readers + -1 } else d) (.devRelease r w .writers) .tau
  | releaseWriters {r w} : Step drv p g d (.devRelease r w .writers)
      (if w then { d with writers := d.writers + -1 } else d) (.devRelease r w .unlock) .tau
  | unlockRelease {r w} : Step drv p g d (.devRelease r w .unlock) d.mutexUnlock .idle .tau
  -- `dev_read`
  | again {len} : d.hasData = false →
      Step drv p g d (.devRead true len .checkNonblock) d (.devRead true len .unlockAgain) .tau
  | goOn {nb len} : Step drv p g d (.devRead nb len .checkNonblock) d (.devRead nb len .loop) .tau
  | unlockAgain {nb len} : Step drv p g d (.devRead nb len .unlockAgain) d.mutexUnlock
      (.ret ⟨.devRead nb len, .again, -EAGAIN, [], []⟩)
      (.settle ⟨.devRead nb len, .again, -EAGAIN, [], []⟩)
  | loopData {nb len} : d.hasData = true →
      Step drv p g d (.devRead nb len .loop) d (.devRead nb len .copy) .tau
  | loopWait {nb len} : d.hasData = false →
      Step drv p g d (.devRead nb len .loop) d (.devRead nb len .unlockWait) .tau
  | unlockWait {nb len} : Step drv p g d (.devRead nb len .unlockWait) d.mutexUnlock
      (.devRead nb len (.wait .enqueue)) .tau
  | enqueue {nb len} : Step drv p g d (.devRead nb len (.wait .enqueue)) d
      (.devRead nb len (.wait (.test false))) .tau
  | testData {nb len woken} : d.hasData = true →
      Step drv p g d (.devRead nb len (.wait (.test woken))) d (.devRead nb len .relock) .tau
  | testSleep {nb len woken} : d.hasData = false →
      Step drv p g d (.devRead nb len (.wait (.test woken))) d
        (.devRead nb len (.wait (.sleep woken))) .tau
  | woken {nb len} : Step drv p g d (.devRead nb len (.wait (.sleep true))) d
      (.devRead nb len (.wait .enqueue)) .tau
  | fallAsleep {nb len} : Step drv p g d (.devRead nb len (.wait (.sleep false))) d
      (.devRead nb len (.wait .asleep)) .tau
  | lookAgain {nb len} : g.signal = true → Step drv p g d (.devRead nb len (.wait .asleep)) d
      (.devRead nb len (.wait .enqueue)) .tau
  | copyRead {nb len} : (copyToUser d.buffer d.readPos (bytesToRead d len) g.fault).2 = 0 →
      Step drv p g d (.devRead nb len .copy) d (.devRead nb len
        (.advance (copyToUser d.buffer d.readPos (bytesToRead d len) g.fault).1)) .tau
  | faultRead {nb len} : Step drv p g d (.devRead nb len .copy) d (.devRead nb len .unlockFault) .tau
  | unlockFaultRead {nb len} : Step drv p g d (.devRead nb len .unlockFault) d.mutexUnlock
      (.ret ⟨.devRead nb len, .fault, -EFAULT, [], []⟩)
      (.settle ⟨.devRead nb len, .fault, -EFAULT, [], []⟩)
  | advanceRead {nb len bytes} : Step drv p g d (.devRead nb len (.advance bytes))
      { d with readPos := uadd d.readPos bytes.length } (.devRead nb len (.checkEmpty bytes)) .tau
  | isEmpty {nb len bytes} : d.readPos ≥ d.writePos →
      Step drv p g d (.devRead nb len (.checkEmpty bytes)) d
        (.devRead nb len (.resetRead bytes)) .tau
  | notEmpty {nb len bytes} : d.readPos < d.writePos →
      Step drv p g d (.devRead nb len (.checkEmpty bytes)) d (.devRead nb len (.unlock bytes)) .tau
  | emptyRead {nb len bytes} : Step drv p g d (.devRead nb len (.resetRead bytes))
      { d with readPos := 0 } (.devRead nb len (.resetWrite bytes)) .tau
  | emptyWrite {nb len bytes} : Step drv p g d (.devRead nb len (.resetWrite bytes))
      { d with writePos := 0 } (.devRead nb len (.unlock bytes)) .tau
  | unlockRead {nb len bytes} : Step drv p g d (.devRead nb len (.unlock bytes)) d.mutexUnlock
      (.devRead nb len (.wake bytes)) (.settle ⟨.devRead nb len, .done, bytes.length, bytes, []⟩)
  | wakeRead {nb len bytes} : Step drv p g d (.devRead nb len (.wake bytes)) d
      (.ret ⟨.devRead nb len, .done, bytes.length, bytes, []⟩) (.wakeUp .writeQueue)
  -- `dev_write`
  | isFull {data} : d.hasSpace = false →
      Step drv p g d (.devWrite data .checkFull) d (.devWrite data .resetRead) .tau
  | hasRoom {data} : d.hasSpace = true →
      Step drv p g d (.devWrite data .checkFull) d (.devWrite data (.copy none)) .tau
  | fullRead {data} : Step drv p g d (.devWrite data .resetRead) { d with readPos := 0 }
      (.devWrite data (.resetWrite d.unread)) .tau
  | fullWrite {data lost} : Step drv p g d (.devWrite data (.resetWrite lost))
      { d with writePos := 0 } (.devWrite data (.copy (some lost))) .tau
  | copyWrite {data lost} :
      (copyFromUser d.buffer d.writePos data (bytesToWrite d data) g.fault).2 = 0 →
      Step drv p g d (.devWrite data (.copy lost)) { d with buffer :=
        (copyFromUser d.buffer d.writePos data (bytesToWrite d data) g.fault).1 }
        (.devWrite data (.advance lost (bytesToWrite d data))) .tau
  | faultWrite {data lost} :
      (copyFromUser d.buffer d.writePos data (bytesToWrite d data) g.fault).2 ≠ 0 →
      Step drv p g d (.devWrite data (.copy lost)) { d with buffer :=
        (copyFromUser d.buffer d.writePos data (bytesToWrite d data) g.fault).1 }
        (.devWrite data (.unlockFault lost)) .tau
  | unlockFaultWrite {data lost} : Step drv p g d (.devWrite data (.unlockFault lost))
      d.mutexUnlock (.ret ⟨.devWrite data, .fault, -EFAULT, [], lost.getD []⟩)
      (.settle ⟨.devWrite data, .fault, -EFAULT, [], lost.getD []⟩)
  | advanceWrite {data lost n} : Step drv p g d (.devWrite data (.advance lost n))
      { d with writePos := uadd d.writePos n } (.devWrite data (.unlock lost n)) .tau
  | unlockWrite {data lost} {n : ℕ} : Step drv p g d (.devWrite data (.unlock lost n))
      d.mutexUnlock (.devWrite data (.wake lost n))
      (.settle ⟨.devWrite data, .done, n, [], lost.getD []⟩)
  | wakeWrite {data lost} {n : ℕ} : Step drv p g d (.devWrite data (.wake lost n)) d
      (.ret ⟨.devWrite data, .done, n, [], lost.getD []⟩) (.wakeUp .readQueue)
  -- `dev_poll`
  | waitRead {ev t} : Step drv p g d (.devPoll ev t .waitRead) d
      (.devPoll ev { t with onRead := true } .waitWrite) .tau
  | waitWrite {ev t} : Step drv p g d (.devPoll ev t .waitWrite) d
      (.devPoll ev { t with onWrite := true } .lock) .tau
  | checkRead {ev t} : Step drv p g d (.devPoll ev t .checkRead) d
      (.devPoll ev t (.checkWrite d.hasData)) .tau
  | checkWrite {ev t readable} : Step drv p g d (.devPoll ev t (.checkWrite readable)) d
      (.devPoll ev t (.unlock ⟨readable, d.hasSpace⟩)) .tau
  | unlockPoll {ev t mask} : Step drv p g d (.devPoll ev t (.unlock mask)) d.mutexUnlock
      (.devPoll ev t (.sleep mask)) .tau
  | endPoll {ev t mask} : Step drv p g d (.devPoll ev t (.sleep mask)) d .idle .tau
  | pollAgain {ev t mask} : Step drv p g d (.devPoll ev t (.sleep mask)) d
      (.devPoll ev { t with triggered := false } .waitRead) .tau
  | pollAsleep {ev t mask} : mask.meets ev = false → t.triggered = false →
      Step drv p g d (.devPoll ev t (.sleep mask)) d (.devPoll ev t .asleep) .tau
  | pollSignal {ev t} : g.signal = true →
      Step drv p g d (.devPoll ev t .asleep) d .idle .tau

/-- What an event may change of the others: a reader in its wait, a poller's table. -/
inductive Heard : Pc → Pc → Prop
  | same {k} : Heard k k
  | wait {nb len w w'} : Heard (.devRead nb len (.wait w)) (.devRead nb len (.wait w'))
  | poll {ev t t' k} : Heard (.devPoll ev t k) (.devPoll ev t' k)
  | pollAgain {ev t t'} : Heard (.devPoll ev t .asleep) (.devPoll ev t' .waitRead)

variable {ι : Type} {drv : Driver} {p : ι} {g : Choice} {d d' : Dev ι} {k k' : Pc} {e : Act}

theorem step_mutexLock {k₀ : Pc} (hl : Locks drv k₀ k) (h : mutexLock p d k = some (d', k', e)) :
    Step drv p g d k₀ d' k' e := by
  simp only [mutexLock, Option.ite_none_right_eq_some, Option.some.injEq, Prod.mk.injEq] at h
  obtain ⟨hfree, rfl, rfl, rfl⟩ := h
  exact .lock hl (Option.isNone_iff_eq_none.mp hfree)

theorem step_mutexLockInterruptible {c : Call} {k₀ : Pc} (hl : Locks drv k₀ k)
    (hi : Interrupts k₀ c) (h : mutexLockInterruptible p g d c k = some (d', k', e)) :
    Step drv p g d k₀ d' k' e := by
  unfold mutexLockInterruptible at h
  split at h
  · simp only [Option.some.injEq, Prod.mk.injEq] at h
    obtain ⟨rfl, rfl, rfl⟩ := h
    exact .interrupt hi ‹_›
  · exact step_mutexLock hl h

theorem step_devOpen {r w : Bool} {k : CountPc}
    (h : devOpen p d r w k = some (d', k', e)) : Step drv p g d (.devOpen r w k) d' k' e := by
  cases k with
  | lock => exact step_mutexLock .devOpen h
  | _ =>
    simp only [devOpen, countFile, Option.some.injEq, Prod.mk.injEq] at h
    obtain ⟨rfl, rfl, rfl⟩ := h
    constructor

theorem step_devRelease {r w : Bool} {k : CountPc}
    (h : devRelease p d r w k = some (d', k', e)) : Step drv p g d (.devRelease r w k) d' k' e := by
  cases k with
  | lock => exact step_mutexLock .devRelease h
  | _ =>
    simp only [devRelease, countFile, Option.some.injEq, Prod.mk.injEq] at h
    obtain ⟨rfl, rfl, rfl⟩ := h
    constructor

theorem step_waitEvent {nb : Bool} {len : ℕ} {w : WaitPc}
    (h : waitEvent g d (.devRead nb len) (.devRead nb len) w = some (d', k', e)) :
    Step drv p g d (.devRead nb len (.wait w)) d' k' e := by
  cases w with
  | enqueue =>
    simp only [waitEvent, Option.some.injEq, Prod.mk.injEq] at h
    obtain ⟨rfl, rfl, rfl⟩ := h
    exact .enqueue
  | test woken =>
    simp only [waitEvent, Option.some.injEq, Prod.mk.injEq] at h
    obtain ⟨rfl, rfl, rfl⟩ := h
    split
    · exact .testData ‹_›
    · exact .testSleep (Bool.eq_false_iff.mpr ‹_›)
  | sleep woken =>
    simp only [waitEvent] at h
    split at h <;> simp only [Option.some.injEq, Prod.mk.injEq] at h <;>
      obtain ⟨rfl, rfl, rfl⟩ := h
    · exact .interrupt .sleep ‹_›
    · cases woken
      · exact .fallAsleep
      · exact .woken
  | asleep =>
    simp only [waitEvent, Option.ite_none_right_eq_some, Option.some.injEq, Prod.mk.injEq] at h
    obtain ⟨hsig, rfl, rfl, rfl⟩ := h
    exact .lookAgain hsig

theorem step_devRead {nb : Bool} {len : ℕ} {k : ReadPc}
    (h : devRead drv p g d nb len k = some (d', k', e)) :
    Step drv p g d (.devRead nb len k) d' k' e := by
  cases k with
  | lock => exact step_mutexLockInterruptible .devRead .devRead h
  | relock => exact step_mutexLockInterruptible .relock .relock h
  | wait w => exact step_waitEvent h
  | checkNonblock =>
    simp only [devRead, Option.some.injEq, Prod.mk.injEq] at h
    obtain ⟨rfl, rfl, rfl⟩ := h
    cases nb
    · exact .goOn
    · cases hd : d.hasData
      · exact .again hd
      · exact .goOn
  | loop =>
    simp only [devRead, Option.some.injEq, Prod.mk.injEq] at h
    obtain ⟨rfl, rfl, rfl⟩ := h
    split
    · exact .loopData ‹_›
    · exact .loopWait (Bool.eq_false_iff.mpr ‹_›)
  | copy =>
    simp only [devRead, Option.some.injEq, Prod.mk.injEq] at h
    obtain ⟨rfl, rfl, rfl⟩ := h
    split
    · exact .faultRead
    · exact .copyRead (not_not.mp ‹_›)
  | checkEmpty bytes =>
    simp only [devRead, Option.some.injEq, Prod.mk.injEq] at h
    obtain ⟨rfl, rfl, rfl⟩ := h
    split
    · exact .isEmpty ‹_›
    · exact .notEmpty (not_le.mp ‹_›)
  | _ =>
    simp only [devRead, Option.some.injEq, Prod.mk.injEq] at h
    obtain ⟨rfl, rfl, rfl⟩ := h
    constructor

theorem step_devWrite {data : List UInt8} {k : WritePc}
    (h : devWrite p g d data k = some (d', k', e)) :
    Step drv p g d (.devWrite data k) d' k' e := by
  cases k with
  | lock => exact step_mutexLockInterruptible .devWrite .devWrite h
  | checkFull =>
    simp only [devWrite, Option.some.injEq, Prod.mk.injEq] at h
    obtain ⟨rfl, rfl, rfl⟩ := h
    cases hs : d.hasSpace
    · exact .isFull hs
    · exact .hasRoom hs
  | copy lost =>
    simp only [devWrite, Option.some.injEq, Prod.mk.injEq] at h
    obtain ⟨rfl, rfl, rfl⟩ := h
    split
    · exact .faultWrite ‹_›
    · exact .copyWrite (not_not.mp ‹_›)
  | _ =>
    simp only [devWrite, Option.some.injEq, Prod.mk.injEq] at h
    obtain ⟨rfl, rfl, rfl⟩ := h
    constructor

theorem step_devPoll {ev : Events} {t : PollTable} {k : PollPc}
    (h : devPoll p g d ev t k = some (d', k', e)) :
    Step drv p g d (.devPoll ev t k) d' k' e := by
  cases k with
  | lock => exact step_mutexLock .devPoll h
  | sleep mask =>
    simp only [devPoll] at h
    split at h
    · simp only [Option.some.injEq, Prod.mk.injEq] at h
      obtain ⟨rfl, rfl, rfl⟩ := h
      exact .endPoll
    · rename_i hstay
      rw [Bool.or_eq_true, not_or] at hstay
      split at h <;> simp only [Option.some.injEq, Prod.mk.injEq] at h <;>
        obtain ⟨rfl, rfl, rfl⟩ := h
      · exact .pollAgain
      · exact .pollAsleep (Bool.eq_false_iff.mpr hstay.1) (Bool.eq_false_iff.mpr ‹_›)
  | asleep =>
    simp only [devPoll, Option.ite_none_right_eq_some, Option.some.injEq, Prod.mk.injEq] at h
    obtain ⟨hsig, rfl, rfl, rfl⟩ := h
    exact .pollSignal hsig
  | _ =>
    simp only [devPoll, Option.some.injEq, Prod.mk.injEq] at h
    obtain ⟨rfl, rfl, rfl⟩ := h
    constructor

/-- The processes take no other steps. -/
theorem Step.of_next (h : (fops ι drv).next p g d k = some (d', k', e)) :
    Step drv p g d k d' k' e := by
  cases k with
  | idle =>
    simp only [fops, Option.ite_none_right_eq_some, Option.some.injEq, Prod.mk.injEq] at h
    obtain ⟨hoff, rfl, rfl, rfl⟩ := h
    exact .enter hoff
  | devOpen r w k => exact step_devOpen h
  | devRead nb len k => exact step_devRead h
  | devWrite data k => exact step_devWrite h
  | devPoll ev t k => exact step_devPoll h
  | devRelease r w k => exact step_devRelease h
  | ret o =>
    simp only [fops, Option.some.injEq, Prod.mk.injEq] at h
    obtain ⟨rfl, rfl, rfl⟩ := h
    exact .ret

/-- A read with `O_NONBLOCK` goes on past its test only with data. -/
theorem hasData_of_goOn {len : ℕ}
    (h : (fops ι drv).next p g d (.devRead true len .checkNonblock) =
      some (d', .devRead true len .loop, e)) : d.hasData = true := by
  cases hd : d.hasData
  · simp [fops, devRead, devRead.here, hd] at h
  · rfl

/-- Only a fault makes a read's copy fail. -/
theorem left_of_faultRead {nb : Bool} {len : ℕ}
    (h : (fops ι drv).next p g d (.devRead nb len .copy) =
      some (d', .devRead nb len .unlockFault, e)) : g.fault.left ≠ 0 := by
  intro h0
  simp [fops, devRead, devRead.here, copyToUser, Fault.uncopied, h0] at h

theorem heard_wakeUp (q : Queue) (k : Pc) : Heard k (wakeUp q k) := by
  cases k with
  | devRead nb len k =>
    cases k with
    | wait w => cases q <;> cases w <;> exact .wait
    | _ => exact .same
  | devPoll ev t k =>
    simp only [wakeUp]
    split
    · cases k with
      | asleep => exact .pollAgain
      | _ => exact .poll
    · exact .same
  | _ => exact .same

theorem heard (drv : Driver) (e : Act) (k : Pc) : Heard k ((fops ι drv).hear e k) := by
  cases e with
  | wakeUp q => exact heard_wakeUp q k
  | _ => exact .same

end Ldd.Stream

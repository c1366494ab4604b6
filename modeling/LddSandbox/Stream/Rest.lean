import LddSandbox.Schemes.Debts
import LddSandbox.Stream.Within

/-! The blocking and the poll device left to themselves: no signal arrives and no new call is made.

    A reader that looks for data and finds none comes back at each wake-up, and a poller calls
    `dev_poll` again; each of these rounds is paid for by a call that moved the positions or woke a
    queue. So the calls in progress take a bounded number of steps (`calls_end`), and where they
    stop nobody has the lock, and a process still in a call is a reader asleep next to an empty
    device, or a poller asleep (`at_rest`, `pollers_at_rest`). -/

namespace Ldd.Stream
open Ldd.Schemes Ldd.Kernel

/-- No signal arrives, and no new call is made. -/
def Undisturbed {ι : Type} (p : ι) (g : Choice) (c : Conf ι (Dev ι) Pc) : Prop :=
  g.signal = false ∧ c.pc p ≠ .idle

instance {ι : Type} (p : ι) (g : Choice) (c : Conf ι (Dev ι) Pc) : Decidable (Undisturbed p g c) :=
  inferInstanceAs (Decidable (_ ∧ _))

/-- Nobody can move until a signal arrives or a new call is made. -/
structure AtRest {ι : Type} (c : Conf ι (Dev ι) Pc) : Prop where
  free : c.shared.lock = none
  still : ∀ r, c.pc r = .idle ∨
    (∃ nb len, c.pc r = .devRead nb len (.wait .asleep) ∧ c.shared.hasData = false) ∨
    ∃ ev t, c.pc r = .devPoll ev t .asleep

/-! ### The steps that a call takes -/

/-- The steps of `dev_read` that the other processes may notice: each moves `read_pos` or
    `write_pos`, wakes a queue, or ends the call. -/
def ReadPc.loud : ReadPc → ℕ
  | .unlockAgain | .unlockFault => 0
  | .unlock _ | .wake _ => 1
  | .resetWrite _ => 2
  | .checkEmpty _ | .resetRead _ => 3
  | _ => 4

/-- The same of `dev_write`. -/
def WritePc.loud : WritePc → ℕ
  | .unlockFault _ => 0
  | .unlock _ _ | .wake _ _ => 1
  | .copy _ | .advance _ _ => 2
  | .resetWrite _ => 3
  | _ => 4

def Pc.loud : Pc → ℕ
  | .devRead _ _ k => k.loud
  | .devWrite _ k => k.loud
  | _ => 0

/-- The steps of a reader's wait, as long as `has_data` stays as it is and no wake-up comes. -/
def WaitPc.quiet (data : Bool) : WaitPc → ℕ
  | .enqueue => if data then 5 else 3
  | .test woken => if data then 4 else if woken then 5 else 2
  | .sleep woken => if woken then if data then 6 else 4 else 1
  | .asleep => 0

def ReadPc.quiet (data : Bool) : ReadPc → ℕ
  | .lock => if data then 4 else 7
  | .checkNonblock => if data then 3 else 6
  | .loop => if data then 2 else 5
  | .unlockWait => if data then 6 else 4
  | .wait w => w.quiet data
  | .relock => if data then 3 else 6
  | .copy | .checkEmpty _ | .unlock _ => 1
  | .unlockAgain | .unlockFault => 2
  | _ => 0

def WritePc.quiet : WritePc → ℕ
  | .lock | .unlockFault _ => 2
  | .checkFull | .copy _ | .unlock _ _ => 1
  | _ => 0

def CountPc.quiet : CountPc → ℕ
  | .lock => 4
  | .readers => 3
  | .writers => 2
  | .unlock => 1

def PollPc.quiet : PollPc → ℕ
  | .waitRead => 7
  | .waitWrite => 6
  | .lock => 5
  | .checkRead => 4
  | .checkWrite _ => 3
  | .unlock _ => 2
  | .sleep _ => 1
  | .asleep => 0

/-- The steps of a call that the other processes do not notice, until its next loud step. -/
def Pc.quiet (data : Bool) : Pc → ℕ
  | .idle => 0
  | .devOpen _ _ k | .devRelease _ _ k => k.quiet
  | .devRead _ _ k => k.quiet data
  | .devWrite _ k => k.quiet
  | .devPoll _ t k => k.quiet + if t.triggered then 7 else 0
  | .ret _ => 1

variable {ι : Type} {drv : Driver} {p : ι} {g : Choice} {d d' : Dev ι} {k k' : Pc} {e : Act}

theorem Pc.loud_le (k : Pc) : k.loud ≤ 4 := by
  cases k with
  | devRead _ _ k => cases k <;> simp [Pc.loud, ReadPc.loud]
  | devWrite _ k => cases k <;> simp [Pc.loud, WritePc.loud]
  | _ => exact Nat.zero_le _

theorem Pc.quiet_le (data : Bool) (k : Pc) : k.quiet data ≤ 14 := by
  cases k with
  | devOpen _ _ k | devRelease _ _ k => cases k <;> simp [Pc.quiet, CountPc.quiet]
  | devRead _ _ k =>
    cases k with
    | wait w => rcases w with _ | woken | woken | _ <;> cases data <;> simp [Pc.quiet, ReadPc.quiet,
        WaitPc.quiet] <;> split <;> decide
    | _ => cases data <;> simp [Pc.quiet, ReadPc.quiet]
  | devWrite _ k => cases k <;> simp [Pc.quiet, WritePc.quiet]
  | devPoll _ t k => cases k <;> simp only [Pc.quiet, PollPc.quiet] <;> split <;> decide
  | _ => simp [Pc.quiet]

/-- A wake-up makes no call louder. -/
theorem Pc.loud_hear (k : Pc) : ((fops ι drv).hear e k).loud = k.loud := by
  have hk := heard (ι := ι) drv e k
  generalize (fops ι drv).hear e k = k' at hk ⊢
  cases hk <;> rfl

/-! ### One step -/

/-- A loud step, or one that only the process itself notices. -/
inductive Pays (d : Dev ι) (k : Pc) (d' : Dev ι) (k' : Pc) (e : Act) : Prop
  | loud : k'.loud < k.loud → Pays d k d' k' e
  | quiet : k'.loud ≤ k.loud → k'.quiet d.hasData < k.quiet d.hasData → d'.hasData = d.hasData →
      (∀ q, e ≠ .wakeUp q) → Pays d k d' k' e

theorem Locks.pays (h : Locks drv k k') : Pays d k { d with lock := some p } k' .tau := by
  cases h with
  | devRead =>
    refine .quiet ?_ ?_ rfl fun _ h => by cases h
    · cases drv <;> exact le_rfl
    · cases drv <;> cases d.hasData <;> simp [Driver.checksNonblock, Pc.quiet, ReadPc.quiet]
  | relock =>
    refine .quiet le_rfl ?_ rfl fun _ h => by cases h
    cases d.hasData <;> simp [Pc.quiet, ReadPc.quiet]
  | devPoll =>
    refine .quiet le_rfl ?_ rfl fun _ h => by cases h
    simp [Pc.quiet, PollPc.quiet]
  | devWrite => exact .quiet le_rfl Nat.one_lt_two rfl fun _ h => by cases h
  | _ => exact .quiet le_rfl (Nat.lt_succ_self 3) rfl fun _ h => by cases h

/-- A poller that was not signalled polls again only if a queue was woken. -/
theorem triggered_of_pollAgain {ev : Events} {t : PollTable} {mask : Events}
    (h : (fops ι drv).next p g d (.devPoll ev t (.sleep mask)) =
      some (d', .devPoll ev { t with triggered := false } .waitRead, e)) : t.triggered = true := by
  cases ht : t.triggered
  · simp [fops, devPoll, devPoll.here, ht] at h
    split at h <;> simp at h
  · rfl

/-- Without signals and new calls every step is paid for. -/
theorem pays_of_next (hn : (fops ι drv).next p g d k = some (d', k', e)) (hg : g.signal = false)
    (hk : k ≠ .idle) : Pays d k d' k' e := by
  cases Step.of_next hn with
  | enter => exact absurd rfl hk
  | lock hl => exact hl.pays
  | interrupt _ hs | lookAgain hs | pollSignal hs =>
    rw [hg] at hs
    cases hs
  | @openReaders r w | @releaseReaders r w =>
    exact .quiet le_rfl (by simp [Pc.quiet, CountPc.quiet]) (by cases r <;> rfl)
      fun _ h => by cases h
  | @openWriters r w | @releaseWriters r w =>
    exact .quiet le_rfl (by simp [Pc.quiet, CountPc.quiet]) (by cases w <;> rfl)
      fun _ h => by cases h
  | again | faultRead | wakeRead | advanceRead | notEmpty | emptyRead | emptyWrite =>
    exact .loud (by simp [Pc.loud, ReadPc.loud])
  | hasRoom | fullRead | fullWrite | faultWrite | advanceWrite | wakeWrite =>
    exact .loud (by simp [Pc.loud, WritePc.loud])
  | loopData hd | loopWait hd | testData hd =>
    refine .quiet le_rfl ?_ rfl fun _ h => by cases h
    rw [hd]
    simp [Pc.quiet, ReadPc.quiet, WaitPc.quiet]
  | @testSleep nb len woken hd =>
    refine .quiet le_rfl ?_ rfl fun _ h => by cases h
    rw [hd]
    cases woken <;> simp [Pc.quiet, ReadPc.quiet, WaitPc.quiet]
  | goOn | unlockWait | enqueue | woken =>
    refine .quiet le_rfl ?_ rfl fun _ h => by cases h
    cases d.hasData <;> simp [Pc.quiet, ReadPc.quiet, WaitPc.quiet]
  | pollAgain =>
    refine .quiet le_rfl ?_ rfl fun _ h => by cases h
    simp [Pc.quiet, PollPc.quiet, triggered_of_pollAgain hn]
  | _ =>
    refine .quiet ?_ ?_ rfl fun _ h => by cases h
    · simp [Pc.loud, ReadPc.loud, WritePc.loud]
    · simp [Pc.quiet, ReadPc.quiet, WritePc.quiet, WaitPc.quiet, PollPc.quiet, CountPc.quiet]

/-- Where a process stands that cannot step although the lock is free. -/
theorem stuck_cases (hn : (fops ι drv).next p {} d k = none) (hl : d.lock = none) :
    k = .idle ∨ (∃ nb len, k = .devRead nb len (.wait .asleep)) ∨
      ∃ ev t, k = .devPoll ev t .asleep := by
  cases k with
  | idle => exact .inl rfl
  | ret o => cases hn
  | devOpen r w k | devRelease r w k =>
    cases k with
    | lock => simp [fops, devOpen, devRelease, countFile, mutexLock, hl] at hn
    | _ => cases hn
  | devRead nb len k =>
    cases k with
    | lock | relock =>
      simp [fops, devRead, mutexLockInterruptible, mutexLock, hl] at hn
    | wait w =>
      cases w with
      | asleep => exact .inr (.inl ⟨nb, len, rfl⟩)
      | _ => simp [fops, devRead, waitEvent] at hn
    | _ => cases hn
  | devWrite data k =>
    cases k with
    | lock => simp [fops, devWrite, mutexLockInterruptible, mutexLock, hl] at hn
    | _ => cases hn
  | devPoll ev t k =>
    cases k with
    | lock => simp [fops, devPoll, mutexLock, hl] at hn
    | sleep mask =>
      simp only [fops, devPoll] at hn
      split at hn
      · cases hn
      · split at hn <;> cases hn
    | asleep => exact .inr (.inr ⟨ev, t, rfl⟩)
    | _ => cases hn

/-! ### Every run -/

variable [DecidableEq ι] {ok : ι → Choice → Conf ι (Dev ι) Pc → Prop}
variable {tr tr' : List (ι × Act)} {c c' : Conf ι (Dev ι) Pc}

theorem debts (ι : Type) [DecidableEq ι] (drv : Driver) :
    Debts (fops ι drv) Undisturbed Pc.loud (fun d => Pc.quiet d.hasData) 14 where
  bound d k := Pc.quiet_le d.hasData k
  hear e k := Pc.loud_hear k |>.le
  step := by
    rintro p g c d' k' e ⟨hg, hk⟩ hn
    cases pays_of_next hn hg hk with
    | loud hless => exact .inl hless
    | quiet hle hless hsame hnot =>
      refine .inr ⟨hle, by rwa [hsame], fun k => ?_⟩
      cases e with
      | wakeUp q => exact absurd rfl (hnot q)
      | _ => rw [hsame]; exact le_rfl

/-- CALLS END: left to themselves, `n` processes take at most `4n (14n + 1) + 14n` steps, in
    whatever order they step: a wait that is woken in vain is not repeated for ever. -/
theorem calls_end [Fintype ι] (hrun : (fops ι drv).Run Undisturbed c tr c') :
    tr.length ≤ Fintype.card ι * 4 * (Fintype.card ι * 14 + 1) + Fintype.card ι * 14 :=
  (debts ι drv).spent_le Pc.loud_le hrun

/-- The writer of `readerSleeps` wakes its reader, who reads. -/
def readerWakes : List (Bool × Choice) := moves false 2 ++ moves true 10

theorem readerWakes_runs : ((fops Bool .charDevPoll).exec (testing Undisturbed) readerWakes
    readerSleepsRun.2).isSome = true := by
  decide +kernel

theorem calls_end_readerWakes :
    (((fops Bool .charDevPoll).exec (testing Undisturbed) readerWakes readerSleepsRun.2).get
      readerWakes_runs).1.length ≤ 2 * 4 * (2 * 14 + 1) + 2 * 14 :=
  calls_end (Program.Run.of_exec testing_ok readerWakes_runs)

/-- A process in a call that cannot step, not even undisturbed. -/
theorem stuck (hstop : ∀ p, c.pc p ≠ .idle → (fops ι drv).fire p {} c = none) {r : ι}
    (hr : c.pc r ≠ .idle) : (fops ι drv).next r {} c.shared (c.pc r) = none := by
  have hnone := hstop r hr
  rwa [Program.fire, Option.map_eq_none_iff] at hnone

/-- Where nobody can step nobody has the lock. -/
theorem free_of_stuck (hrun : (fops ι drv).Run ok (loaded ι) tr c)
    (hstop : ∀ p, c.pc p ≠ .idle → (fops ι drv).fire p {} c = none) : c.shared.lock = none := by
  cases hl : c.shared.lock with
  | none => rfl
  | some r =>
    -- the holder can step
    have hheld := (holder hrun r).mpr hl
    have hr : c.pc r ≠ .idle := by
      intro h
      rw [h] at hheld
      cases hheld
    have hnext : ∃ d' k' e, (fops ι drv).next r {} c.shared (c.pc r) = some (d', k', e) ∧
      (k'.holds = true → k'.left < (c.pc r).left) := next_left r c.shared hheld
    obtain ⟨d', k', e, hn, -⟩ := hnext
    rw [stuck hstop hr] at hn
    cases hn

theorem atRest_of_stuck (hrun : (fops ι drv).Run ok (loaded ι) tr c)
    (hstop : ∀ p, c.pc p ≠ .idle → (fops ι drv).fire p {} c = none) : AtRest c := by
  have hfree := free_of_stuck hrun hstop
  refine ⟨hfree, fun r => ?_⟩
  rcases eq_or_ne (c.pc r) .idle with hidle | hr
  · exact .inl hidle
  rcases stuck_cases (stuck hstop hr) hfree with hidle | ⟨nb, len, hread⟩ | hpoll
  · exact .inl hidle
  · refine .inr (.inl ⟨nb, len, hread, ?_⟩)
    rw [Bool.eq_false_iff]
    intro hd
    -- somebody owes this reader a wake-up, and could step
    have hwaits : ∃ r, Waits (c.pc r) := ⟨r, hread ▸ .asleep⟩
    rcases (waking ι drv ok).owed hrun (fun _ h => by cases h) hwaits with hno | ⟨w, how⟩
    · exact hno hd
    have hout := outside hrun hfree w
    have hw : c.pc w ≠ .idle := by
      intro h
      rw [h] at how
      rcases how with h | h <;> cases h
    have hstuck := stuck_cases (stuck hstop hw) hfree
    generalize c.pc w = k at how hout hstuck
    rcases how with how | how
    · cases how with
      | unlock => cases hout
      | wake => rcases hstuck with h | ⟨_, _, h⟩ | ⟨_, _, h⟩ <;> cases h
    · cases how <;> cases hout
  · exact .inr (.inr hpoll)

omit [DecidableEq ι] in
/-- Nobody steps undisturbed from rest. -/
theorem AtRest.next_none (h : AtRest c) (hok : Undisturbed p g c) :
    (fops ι drv).next p g c.shared (c.pc p) = none := by
  obtain ⟨hg, hp⟩ := hok
  rcases h.still p with hidle | ⟨nb, len, hread, -⟩ | ⟨ev, t, hpoll⟩
  · exact absurd hidle hp
  · rw [hread]
    simp [fops, devRead, waitEvent, hg]
  · rw [hpoll]
    simp [fops, devPoll, hg]

/-- AT REST: in every reachable state, nobody can step without a signal or a new call exactly if the
    lock is free, each process in a read is asleep with no data unread, and each other process in a
    call is a poller asleep. In particular no state is a deadlock: no process waits for the lock at
    rest. -/
theorem at_rest (hrun : (fops ι drv).Run anyStep (loaded ι) tr c) :
    AtRest c ↔ ∀ p g, Undisturbed p g c → (fops ι drv).fire p g c = none := by
  constructor
  · intro hrest p g hok
    rw [Program.fire, hrest.next_none hok]
    rfl
  · intro hstop
    exact atRest_of_stuck hrun fun p hp => hstop p {} ⟨rfl, hp⟩

theorem at_rest_readerSleeps :
    AtRest readerSleepsRun.2 ↔
      ∀ p g, Undisturbed p g readerSleepsRun.2 →
        (fops Bool .charDevPoll).fire p g readerSleepsRun.2 = none :=
  at_rest (Program.Run.of_exec anyway_any readerSleeps_runs)

/-- No poller sleeps at rest next to an event that it awaits. -/
theorem AtRest.not_ready (hrest : AtRest c)
    (hrun : (fops ι drv).Run NoResetFault (loaded ι) tr c) {r : ι} {ev : Events} {t : PollTable}
    (hr : c.pc r = .devPoll ev t .asleep) (want : Want) (hev : want.among ev = true) :
    want.among c.shared.ready = false := by
  have ht : t = ⟨true, true, false⟩ := by
    have hreg := registered_run hrun r
    rwa [hr] at hreg
  have hmiss : ∃ r, Misses want (c.pc r) := ⟨r, by rw [hr]; exact ⟨ht, hev, rfl⟩⟩
  rcases (poll_waking ι drv want).owed hrun (fun _ h => by cases h) hmiss with hno | ⟨w, how⟩
  · exact Bool.eq_false_iff.mpr hno
  · -- nobody at rest has a wake-up before it
    exfalso
    have hstill := hrest.still w
    generalize c.pc w = k at how hstill
    rcases hstill with rfl | ⟨nb, len, rfl, -⟩ | ⟨ev, t, rfl⟩ <;> rcases how with h | h <;> cases h

/-- THE DEVICE COMES TO REST: from every state that a run without a fault after a reset reaches, the
    calls in progress can be carried to rest without a signal and without a new call. There no
    reader sleeps next to unread data, and no poller sleeps that awaits an event which is there. -/
theorem comes_to_rest [Fintype ι] (hrun : (fops ι drv).Run NoResetFault (loaded ι) tr c) :
    ∃ tr' c', (fops ι drv).Run (fun p g c => Undisturbed p g c ∧ NoResetFault p g c) c tr' c' ∧
      AtRest c' ∧ ∀ r ev t, c'.pc r = .devPoll ev t .asleep → c'.shared.ready.meets ev = false := by
  have hpaid : Debts (fops ι drv) (fun p g c => Undisturbed p g c ∧ NoResetFault p g c) Pc.loud
      (fun d => Pc.quiet d.hasData) 14 := (debts ι drv).mono fun _ _ _ h => h.1
  obtain ⟨tr', c', hmore, hstop⟩ := hpaid.stops c
  have hall := hrun.trans (hmore.mono fun _ _ _ h => h.2)
  have hrest := atRest_of_stuck hall fun p hp => hstop p {} ⟨⟨rfl, hp⟩, fun _ _ _ => .inl rfl⟩
  refine ⟨tr', c', hmore, hrest, fun r ev t hr => ?_⟩
  have hin := hrest.not_ready hall hr .pollin
  have hout := hrest.not_ready hall hr .pollout
  cases hi : ev.pollin <;> cases ho : ev.pollout <;>
    simp_all [Events.meets, Want.among]

theorem comes_to_rest_pollerSleeps :
    ∃ tr' c', (fops Bool .charDevPoll).Run (fun p g c => Undisturbed p g c ∧ NoResetFault p g c)
      pollerSleepsRun.2 tr' c' ∧ AtRest c' ∧
      ∀ r ev t, c'.pc r = .devPoll ev t .asleep → c'.shared.ready.meets ev = false :=
  comes_to_rest (Program.Run.of_exec noFault_ok pollerSleeps_runs)

end Ldd.Stream

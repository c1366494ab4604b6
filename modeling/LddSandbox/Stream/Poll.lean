import LddSandbox.Stream.Wakeup

/-! Readiness events of the poll device.

    `dev_poll` registers the process on both wait queues, then takes the lock and computes its mask.
    A poller that missed what it awaits must be woken once it comes true. Reads and writes that
    succeed wake a queue after they moved the positions; between the reset of a full buffer and the
    end of the write's copy there is space that no wake-up announces yet, and if the copy faults
    none will: `dev_write` returns `-EFAULT` with the buffer reset (`readiness_lost`). In every run
    without that fault no readiness event is lost (`poll_woken`).

        dev_write:  full ▶ reset ▶ copy ─ ok ──▶ advance ▶ unlock ▶ wake
                                     └─ fault ─▶ unlock                  (space, and no wake) -/

namespace Ldd.Stream
open Ldd.Schemes Ldd.Kernel

/-- The two events a poller may await. -/
inductive Want | pollin | pollout

def Want.among : Want → Events → Bool
  | .pollin, m => m.pollin
  | .pollout, m => m.pollout

/-- What `dev_poll`'s mask would tell now. -/
def Dev.ready {ι : Type} (d : Dev ι) : Events := ⟨d.hasData, d.hasSpace⟩

/-- The mask, as far as it is computed, misses what is awaited. -/
def PollPc.misses (want : Want) : PollPc → Bool
  | .checkWrite readable => !want.among ⟨readable, true⟩
  | .unlock mask | .sleep mask => !want.among mask
  | .asleep => true
  | _ => false

/-- A poller that awaits `want`, missed it, and was not woken since it registered. -/
inductive Misses (want : Want) : Pc → Prop
  | intro {ev t k} : t = ⟨true, true, false⟩ → want.among ev = true → k.misses want = true →
      Misses want (.devPoll ev t k)

def ReadPc.due : ReadPc → Bool
  | .advance _ | .checkEmpty _ | .resetRead _ | .resetWrite _ | .unlock _ | .wake _ => true
  | _ => false

def WritePc.due : WritePc → Bool
  | .advance _ _ | .unlock _ _ | .wake _ _ => true
  | _ => false

/-- A read or write that has its `wake_up_interruptible` before it. -/
def Pc.due : Pc → Bool
  | .devRead _ _ k => k.due
  | .devWrite _ k => k.due
  | _ => false

/-- A write that has reset a full buffer and not finished its copy. -/
inductive Resets : Pc → Prop
  | resetWrite {data lost} : Resets (.devWrite data (.resetWrite lost))
  | copy {data lost} : Resets (.devWrite data (.copy (some lost)))

/-- The copy of a write that reset a full buffer does not fault. -/
def NoResetFault {ι : Type} (p : ι) (g : Choice) (c : Conf ι (Dev ι) Pc) : Prop :=
  ∀ data lost, c.pc p = .devWrite data (.copy (some lost)) → g.fault.left = 0 ∨ data = []

variable {ι : Type} {drv : Driver} {p : ι} {g : Choice} {d d' : Dev ι} {k k' : Pc} {e : Act}
variable {want : Want}

/-! ### One step -/

/-- A poller comes to miss an event only by a test that finds the device not ready for it. -/
theorem Step.misses (h : Step drv p g d k d' k' e) (hm : Misses want k') :
    Misses want k ∨ ¬ want.among d'.ready = true := by
  cases h with
  | enter => cases hc : g.call <;> rw [hc] at hm <;> obtain ⟨-, -, hk⟩ := hm; nomatch hk
  | lock hl =>
    cases hl with
    | devPoll => obtain ⟨-, -, hk⟩ := hm; nomatch hk
    | devRead => cases drv <;> nomatch hm
    | _ => nomatch hm
  | checkRead =>
    obtain ⟨ht, hw, hk⟩ := hm
    right
    cases want with
    | pollin => simpa [PollPc.misses, Want.among, Dev.ready] using hk
    | pollout => nomatch hk
  | checkWrite =>
    obtain ⟨ht, hw, hk⟩ := hm
    cases want with
    | pollin => exact .inl ⟨ht, hw, hk⟩
    | pollout => exact .inr (by simpa [PollPc.misses, Want.among, Dev.ready] using hk)
  | unlockPoll =>
    obtain ⟨ht, hw, hk⟩ := hm
    exact .inl ⟨ht, hw, hk⟩
  | pollAsleep hmask =>
    -- the whole mask meets nothing of what is awaited
    obtain ⟨ht, hw, -⟩ := hm
    refine .inl ⟨ht, hw, ?_⟩
    cases want <;> simp_all [Events.meets, Want.among, PollPc.misses]
  | waitRead | waitWrite | pollAgain =>
    obtain ⟨-, -, hk⟩ := hm
    nomatch hk
  | _ => nomatch hm

/-- The device becomes ready only by a call that has a wake-up before it, or by a reset. -/
theorem Step.readies (h : Step drv p g d k d' k' e) (hr : want.among d'.ready = true) :
    want.among d.ready = true ∨ k'.due = true ∨ Resets k' := by
  cases h with
  | @openReaders r w | @releaseReaders r w => exact .inl (by cases r <;> exact hr)
  | @openWriters r w | @releaseWriters r w => exact .inl (by cases w <;> exact hr)
  | advanceRead | emptyRead | emptyWrite | advanceWrite => exact .inr (.inl rfl)
  | fullRead => exact .inr (.inr .resetWrite)
  | fullWrite => exact .inr (.inr .copy)
  | _ => exact .inl hr

theorem not_misses_wakeUp (q : Queue) (k : Pc) : ¬ Misses want (wakeUp q k) := by
  intro h
  cases k with
  | devRead nb len k =>
    have hk := heard_wakeUp q (.devRead nb len k)
    generalize wakeUp q (.devRead nb len k) = k' at h hk
    cases hk <;> cases h
  | devPoll ev t k =>
    simp only [wakeUp] at h
    split at h
    · cases k with
      | asleep => obtain ⟨-, -, hk⟩ := h; cases hk
      | _ => obtain ⟨ht, -, -⟩ := h; cases congrArg PollTable.triggered ht
    · rename_i hq
      obtain ⟨rfl, -, -⟩ := h
      cases q <;> exact hq rfl
  | _ => cases h

/-- A call that has its wake-up before it keeps it there or gives it, to every registered poller. -/
theorem Step.due (h : Step drv p g d k d' k' e) (hd : k.due = true) :
    k'.due = true ∨ (¬ Misses want k' ∧ ∀ k, ¬ Misses want ((fops ι drv).hear e k)) := by
  cases h with
  | wakeRead => exact .inr ⟨by rintro ⟨⟩, not_misses_wakeUp .writeQueue⟩
  | wakeWrite => exact .inr ⟨by rintro ⟨⟩, not_misses_wakeUp .readQueue⟩
  | advanceRead | isEmpty | notEmpty | emptyRead | emptyWrite | unlockRead | advanceWrite
  | unlockWrite => exact .inl rfl
  | lock hl => cases hl <;> nomatch hd
  | interrupt hi => cases hi <;> nomatch hd
  | _ => nomatch hd

/-- A reset of a full buffer goes on to the wake-up, unless its copy faults. -/
theorem Step.resets (h : Step drv p g d k d' k' e) (hr : Resets k)
    (hg : ∀ data lost, k = .devWrite data (.copy (some lost)) → g.fault.left = 0 ∨ data = []) :
    k'.due = true ∨ Resets k' := by
  cases h with
  | fullWrite => exact .inr .copy
  | copyWrite => exact .inl rfl
  | @faultWrite data lost hleft =>
    cases hr with
    | @copy _ lost =>
      exfalso
      refine hleft ?_
      have hz : bytesToWrite d data ≤ data.length := by
        simp only [bytesToWrite]
        split <;> omega
      have hmin : g.fault.uncopied (bytesToWrite d data) = 0 := by
        rcases hg data lost rfl with h0 | rfl
        · rw [Fault.uncopied, h0, Nat.zero_min]
        · rw [Nat.le_zero.mp hz]
          exact Nat.min_zero _
      exact hmin
  | lock hl => cases hl <;> cases hr
  | interrupt hi => cases hi <;> cases hr
  | _ => cases hr

/-- A poller misses nothing more by an event of another. -/
theorem Misses.of_hear (h : Misses want ((fops ι drv).hear e k)) : Misses want k := by
  cases e with
  | wakeUp q => exact absurd h (not_misses_wakeUp q k)
  | _ => exact h

theorem Pc.due_hear (hd : k.due = true) : ((fops ι drv).hear e k).due = true := by
  have hk := heard (ι := ι) drv e k
  generalize (fops ι drv).hear e k = k' at hk ⊢
  cases hk <;> exact hd

theorem Resets.hear (h : Resets k) : Resets ((fops ι drv).hear e k) := by
  have hk := heard (ι := ι) drv e k
  generalize (fops ι drv).hear e k = k' at hk ⊢
  cases hk with
  | same => exact h
  | _ => nomatch h

/-! ### Every run -/

/-- The queues a poller is registered on by the time it sleeps. -/
def Pc.registered : Pc → Prop
  | .devPoll _ _ .waitRead => True
  | .devPoll _ t .waitWrite => t.onRead = true
  | .devPoll _ t .asleep => t = ⟨true, true, false⟩
  | .devPoll _ t _ => t.onRead = true ∧ t.onWrite = true
  | _ => True

theorem Step.registered (h : Step drv p g d k d' k' e) (hk : k.registered) : k'.registered := by
  cases h with
  | enter => cases g.call <;> trivial
  | lock hl => cases hl <;> trivial
  | waitRead => rfl
  | waitWrite => exact ⟨hk, rfl⟩
  | @pollAsleep ev t mask hmask ht =>
    obtain ⟨r, w, tr⟩ := t
    obtain ⟨hr, hw⟩ := hk
    simp_all [Pc.registered]
  | checkRead | checkWrite | unlockPoll => exact hk
  | _ => trivial

theorem registered_wakeUp {q : Queue} (hk : k.registered) : (wakeUp q k).registered := by
  cases k with
  | devPoll ev t k =>
    simp only [wakeUp]
    split
    · cases k with
      | asleep => trivial
      | _ => exact hk
    · exact hk
  | devRead nb len k =>
    cases k with
    | wait w => cases q <;> cases w <;> trivial
    | _ => trivial
  | _ => trivial

variable [DecidableEq ι] {ok : ι → Choice → Conf ι (Dev ι) Pc → Prop}
variable {tr : List (ι × Act)} {c : Conf ι (Dev ι) Pc}

theorem registered_run (hrun : (fops ι drv).Run ok (loaded ι) tr c) (r : ι) :
    (c.pc r).registered := by
  refine hrun.own (J := fun _ k => k.registered) (fun _ => trivial) ?_ ?_ r
  · intro p g s k s' k' e es hk hn
    exact (Step.of_next hn).registered hk
  · intro e es k hk
    cases e with
    | wakeUp q => exact registered_wakeUp hk
    | _ => exact hk

theorem poll_waking (ι : Type) [DecidableEq ι] (drv : Driver) (want : Want) :
    Waking (fops ι drv) NoResetFault (loaded ι) (fun d => want.among d.ready = true)
      (Misses want) (fun k => k.due = true) Resets where
  fresh _ _ hn hm := (Step.of_next hn).misses hm
  raise _ _ hn hr := (Step.of_next hn).readies hr
  debt _ _ hn hd := (Step.of_next hn).due hd
  turn _ hok hn hr := .inr ((Step.of_next hn).resets hr hok)
  hearWaits h := h.of_hear
  hearOwes h := Pc.due_hear h
  hearTurning h := h.hear

/-- POLLERS ARE WOKEN: in every run in which no write that reset a full buffer has its copy fault,
    in every state with the lock free, if a poller sleeps although the device is ready for an event
    it awaits, some read or write in flight has a `wake_up_interruptible` left to execute. -/
theorem poll_woken (hrun : (fops ι .charDevPoll).Run NoResetFault (loaded ι) tr c)
    (hl : c.shared.lock = none) {r : ι} {ev : Events} {t : PollTable}
    (hr : c.pc r = .devPoll ev t .asleep) (hready : c.shared.ready.meets ev = true) :
    ∃ w, (c.pc w).due = true := by
  have ht : t = ⟨true, true, false⟩ := by
    have := registered_run hrun r
    rwa [hr] at this
  -- one of the two events is awaited and there
  obtain ⟨want, hwant, hcond⟩ : ∃ want : Want, want.among ev = true ∧
      want.among c.shared.ready = true := by
    simp only [Events.meets, Bool.or_eq_true, Bool.and_eq_true] at hready
    rcases hready with ⟨h, h'⟩ | ⟨h, h'⟩
    · exact ⟨.pollin, h', h⟩
    · exact ⟨.pollout, h', h⟩
  have hmiss : ∃ r, Misses want (c.pc r) := ⟨r, by rw [hr]; exact ⟨ht, hwant, rfl⟩⟩
  rcases (poll_waking ι .charDevPoll want).owed hrun (fun _ => nofun) hmiss with hno | ⟨w, hw | hw⟩
  · exact absurd hcond hno
  · exact ⟨w, hw⟩
  · -- a reset is under way only while the lock is held
    have hout := outside hrun hl w
    generalize c.pc w = k at hw hout
    cases hw <;> cases hout

/-- Process `true` fills the buffer, process `false` polls for space and sleeps, and `true` has read
    everything and not yet woken anybody. -/
def pollerSleeps : List (Bool × Choice) :=
  calls true { call := .devWrite (List.replicate bufLen 0) } 7 ++
  calls false { call := .devPoll ⟨false, true⟩ } 7 ++ calls true { call := .devRead false bufLen } 9

/-- No copy faults. -/
def noFault {ι : Type} (_ : ι) (g : Choice) (_ : Conf ι (Dev ι) Pc) : Bool := g.fault.left = 0

theorem noFault_ok {ι : Type} (p : ι) (g : Choice) (c : Conf ι (Dev ι) Pc)
    (h : noFault p g c = true) : NoResetFault p g c :=
  fun _ _ _ => .inl (of_decide_eq_true h)

theorem pollerSleeps_runs :
    ((fops Bool .charDevPoll).exec noFault pollerSleeps (loaded Bool)).isSome = true := by
  decide +kernel

/-- The run of `pollerSleeps`. -/
def pollerSleepsRun : List (Bool × Act) × Conf Bool (Dev Bool) Pc :=
  ((fops Bool .charDevPoll).exec noFault pollerSleeps (loaded Bool)).get pollerSleeps_runs

theorem pollerSleeps_asleep :
    pollerSleepsRun.2.pc false = .devPoll ⟨false, true⟩ ⟨true, true, false⟩ .asleep := by
  decide +kernel

theorem pollerSleeps_ready : pollerSleepsRun.2.shared.ready.meets ⟨false, true⟩ = true := by
  decide +kernel

theorem poll_woken_pollerSleeps :
    pollerSleepsRun.2.shared.ready.meets ⟨false, true⟩ = true ∧
    ∃ w, (pollerSleepsRun.2.pc w).due = true :=
  ⟨pollerSleeps_ready,
    poll_woken (Program.Run.of_exec noFault_ok pollerSleeps_runs) (by decide +kernel)
      pollerSleeps_asleep pollerSleeps_ready⟩

/-- No readiness event is lost, whatever happens. -/
def NoLostReadiness (ι : Type) [DecidableEq ι] : Prop :=
  ∀ (tr : List (ι × Act)) (c : Conf ι (Dev ι) Pc),
    (fops ι .charDevPoll).Run anyStep (loaded ι) tr c → c.shared.lock = none →
    ∀ r ev t, c.pc r = .devPoll ev t .asleep → c.shared.ready.meets ev = true →
      ∃ w, (c.pc w).due = true

/-- As `pollerSleeps`, but instead of the read `true` writes one more byte, whose copy faults. -/
def resetFaults : List (Bool × Choice) :=
  calls true { call := .devWrite (List.replicate bufLen 0) } 7 ++
  calls false { call := .devPoll ⟨false, true⟩ } 7 ++ calls true { call := .devWrite [1] } 4 ++
  (true, { fault := { left := 1 } }) :: moves true 2

theorem resetFaults_runs :
    ((fops Bool .charDevPoll).exec anyway resetFaults (loaded Bool)).isSome = true := by
  decide +kernel

/-- The run of `resetFaults`. -/
def resetFaultsRun : List (Bool × Act) × Conf Bool (Dev Bool) Pc :=
  ((fops Bool .charDevPoll).exec anyway resetFaults (loaded Bool)).get resetFaults_runs

/-- The write returned `-EFAULT` and everyone is still: there is space, and the poller sleeps. -/
theorem readiness_lost : ¬ NoLostReadiness Bool := by
  intro h
  have hrun : (fops Bool .charDevPoll).Run anyStep (loaded Bool) resetFaultsRun.1 resetFaultsRun.2 :=
    Program.Run.of_exec anyway_any resetFaults_runs
  obtain ⟨w, hw⟩ := h _ _ hrun (by decide +kernel) false ⟨false, true⟩ ⟨true, true, false⟩
    (by decide +kernel) (by decide +kernel)
  have hstill : ∀ w, (resetFaultsRun.2.pc w).due = false := by decide +kernel
  exact absurd (hw.symm.trans (hstill w)) (by decide)

end Ldd.Stream

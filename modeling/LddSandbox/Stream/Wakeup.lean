import LddSandbox.Schemes.Waking
import LddSandbox.Stream.History

/-! No lost wake-up for blocked readers.

    `has_data` is tested without the lock, and `wake_up_interruptible(&dev->read_queue)` comes after
    the unlock. So data may appear at any moment between a reader's test and its sleep; what keeps
    the reader from being forgotten is that the writer that stored the data still owes the queue a
    wake-up. The two resets set `read_pos` to zero before `write_pos`: in between `has_data` may
    hold although nothing is unread, and the process that resets is turning. -/

namespace Ldd.Stream
open Ldd.Schemes Ldd.Kernel

/-- A reader whose last test found no data and that no wake-up has reached since. -/
inductive Waits : Pc → Prop
  | sleep {nb len} : Waits (.devRead nb len (.wait (.sleep false)))
  | asleep {nb len} : Waits (.devRead nb len (.wait .asleep))

/-- A writer that added bytes and has yet to wake the readers. -/
inductive Owes : Pc → Prop
  | unlock {data lost n} : 0 < n → Owes (.devWrite data (.unlock lost n))
  | wake {data lost n} : 0 < n → Owes (.devWrite data (.wake lost n))

/-- A process between the two stores of a reset. -/
inductive Turns : Pc → Prop
  | read {nb len bytes} : Turns (.devRead nb len (.resetWrite bytes))
  | write {data lost} : Turns (.devWrite data (.resetWrite lost))

variable {ι : Type} {drv : Driver} {p : ι} {g : Choice} {d d' : Dev ι} {k k' : Pc} {e : Act}

/-! ### One step -/

/-- A reader comes to wait only by a test that finds no data. -/
theorem Step.waits (h : Step drv p g d k d' k' e) (hw : Waits k') :
    Waits k ∨ ¬ d'.hasData = true := by
  cases h with
  | enter => cases hc : g.call <;> rw [hc] at hw <;> nomatch hw
  | lock hl =>
    cases hl with
    | devRead => cases drv <;> nomatch hw
    | _ => nomatch hw
  | testSleep hd => exact .inr (by rw [hd]; decide)
  | fallAsleep => exact .inl .sleep
  | _ => nomatch hw

/-- Data appears only by a write that owes the wake-up, or in the middle of a reset. -/
theorem Step.raises (h : Step drv p g d k d' k' e)
    (hat : k.holds = true → ∃ st, At st d k) (hd : d'.hasData = true) :
    d.hasData = true ∨ Owes k' ∨ Turns k' := by
  cases h with
  | @openReaders r w | @releaseReaders r w => exact .inl (by cases r <;> exact hd)
  | @openWriters r w | @releaseWriters r w => exact .inl (by cases w <;> exact hd)
  | advanceRead =>
    -- the bytes a read takes were there before
    obtain ⟨st, hs, hne, -⟩ := hat rfl
    exact .inl (hs.hasData.mpr hne)
  | emptyRead => exact .inr (.inr .read)
  | fullRead => exact .inr (.inr .write)
  | emptyWrite | fullWrite => exact absurd (of_decide_eq_true hd) (Nat.not_lt_zero _)
  | @advanceWrite data lost n =>
    rcases Nat.eq_zero_or_pos n with rfl | hn
    · left
      have hlt : d.readPos < uadd d.writePos 0 := of_decide_eq_true hd
      have hle : uadd d.writePos 0 ≤ d.writePos := Nat.mod_le _ _
      exact decide_eq_true (hlt.trans_le hle)
    · exact .inr (.inl (.unlock hn))
  | _ => exact .inl hd

/-- The second store of a reset leaves no data. -/
theorem Step.turns (h : Step drv p g d k d' k' e) (ht : Turns k) : ¬ d'.hasData = true := by
  cases ht with
  | read =>
    cases h with
    | emptyWrite => exact fun hd => absurd (of_decide_eq_true hd) (Nat.not_lt_zero _)
    | lock hl => nomatch hl
    | interrupt hi => nomatch hi
  | write =>
    cases h with
    | fullWrite => exact fun hd => absurd (of_decide_eq_true hd) (Nat.not_lt_zero _)
    | lock hl => nomatch hl
    | interrupt hi => nomatch hi

theorem not_waits_wakeUp (k : Pc) : ¬ Waits (wakeUp .readQueue k) := by
  intro h
  cases k with
  | devRead nb len k =>
    cases k with
    | wait w => cases w <;> cases h
    | _ => cases h
  | devPoll ev t k =>
    simp only [wakeUp] at h
    split at h
    · cases k <;> cases h
    · cases h
  | _ => cases h

/-- A writer that owes a wake-up gives it after its unlock. -/
theorem Step.owes (h : Step drv p g d k d' k' e) (ho : Owes k) :
    Owes k' ∨ (¬ Waits k' ∧ ∀ k, ¬ Waits ((fops ι drv).hear e k)) := by
  cases ho with
  | unlock hn =>
    cases h with
    | unlockWrite => exact .inl (.wake hn)
    | lock hl => nomatch hl
    | interrupt hi => nomatch hi
  | wake hn =>
    cases h with
    | wakeWrite => exact .inr ⟨by rintro ⟨⟩, not_waits_wakeUp⟩
    | lock hl => nomatch hl
    | interrupt hi => nomatch hi

/-- Nobody comes to wait by an event of another. -/
theorem Waits.of_hear (h : Waits ((fops ι drv).hear e k)) : Waits k := by
  cases e with
  | wakeUp q =>
    cases q with
    | readQueue => exact absurd h (not_waits_wakeUp k)
    | writeQueue =>
      have hk := heard_wakeUp .writeQueue k
      cases k with
      | devRead nb len k =>
        cases k with
        | wait w => cases w <;> exact h
        | _ => exact h
      | devPoll ev t k =>
        replace h : Waits (wakeUp .writeQueue (.devPoll ev t k)) := h
        generalize wakeUp .writeQueue (.devPoll ev t k) = k' at h hk
        cases hk <;> nomatch h
      | _ => exact h
  | _ => exact h

theorem Owes.hear (h : Owes k) : Owes ((fops ι drv).hear e k) := by
  have hk := heard (ι := ι) drv e k
  generalize (fops ι drv).hear e k = k' at hk ⊢
  cases h <;> cases hk
  · exact .unlock ‹_›
  · exact .wake ‹_›

theorem Turns.hear (h : Turns k) : Turns ((fops ι drv).hear e k) := by
  have hk := heard (ι := ι) drv e k
  generalize (fops ι drv).hear e k = k' at hk ⊢
  cases h <;> cases hk
  · exact .read
  · exact .write

/-! ### Every run -/

variable [DecidableEq ι] {ok : ι → Choice → Conf ι (Dev ι) Pc → Prop}
variable {tr : List (ι × Act)} {c : Conf ι (Dev ι) Pc}

theorem waking (ι : Type) [DecidableEq ι] (drv : Driver) (ok : ι → Choice → Conf ι (Dev ι) Pc → Prop) :
    Waking (fops ι drv) ok (loaded ι) (fun d => d.hasData = true) Waits Owes Turns where
  fresh _ _ hn hw := (Step.of_next hn).waits hw
  raise hrun _ hn hd := by
    refine (Step.of_next hn).raises (fun hk => ?_) hd
    obtain ⟨st, -, hat⟩ := replayed_at hrun hk
    exact ⟨st, hat⟩
  debt _ _ hn ho := (Step.of_next hn).owes ho
  turn _ _ hn ht := .inl ((Step.of_next hn).turns ht)
  hearWaits h := h.of_hear
  hearOwes h := h.hear
  hearTurning h := h.hear

/-- NO LOST WAKE-UP: in every reachable state with the lock free, if a reader is asleep and there is
    unread data, some write has added bytes, has left its critical section, and has its
    `wake_up_interruptible(&dev->read_queue)` still before it. So a quiescent device has no sleeping
    reader next to unread data. -/
theorem no_lost_wakeup (hrun : (fops ι drv).Run anyStep (loaded ι) tr c)
    (hl : c.shared.lock = none) {r : ι} {nb : Bool} {len : ℕ}
    (hr : c.pc r = .devRead nb len (.wait .asleep)) (hd : c.shared.readPos < c.shared.writePos) :
    ∃ w data lost n, c.pc w = .devWrite data (.wake lost n) ∧ 0 < n ∧
      ⟨.devWrite data, .done, (n : ℤ), [], lost.getD []⟩ ∈ settled tr := by
  have hwaits : ∃ r, Waits (c.pc r) := ⟨r, hr ▸ .asleep⟩
  rcases (waking ι drv anyStep).owed hrun (fun _ => nofun) hwaits with hno | ⟨w, how⟩
  · exact absurd (decide_eq_true hd) hno
  -- the lock is free: nobody is inside a critical section
  have hout := outside hrun hl w
  rcases how with how | how
  · generalize hk : c.pc w = k at how hout
    cases how with
    | unlock => nomatch hout
    | @wake data lost n hn =>
      refine ⟨w, data, lost, n, hk, hn, settled_of_owed hrun (r := w) ?_⟩
      rw [hk]
      exact List.mem_singleton_self _
  · generalize c.pc w = k at how hout
    cases how <;> nomatch hout

/-- Process `true` sleeps, process `false` has stored three bytes and not yet woken anybody. -/
def readerSleeps : List (Bool × Choice) :=
  calls true { call := .devRead false 2 } 7 ++ calls false { call := .devWrite [7, 8, 9] } 5

theorem readerSleeps_runs :
    ((fops Bool .charDevPoll).exec anyway readerSleeps (loaded Bool)).isSome = true := by
  decide +kernel

/-- The run of `readerSleeps`. -/
def readerSleepsRun : List (Bool × Act) × Conf Bool (Dev Bool) Pc :=
  ((fops Bool .charDevPoll).exec anyway readerSleeps (loaded Bool)).get readerSleeps_runs

theorem readerSleeps_asleep : readerSleepsRun.2.pc true = .devRead false 2 (.wait .asleep) := by
  decide +kernel

theorem no_lost_wakeup_readerSleeps :
    readerSleepsRun.2.pc true = .devRead false 2 (.wait .asleep) ∧
    ∃ w data lost n, readerSleepsRun.2.pc w = .devWrite data (.wake lost n) ∧ 0 < n := by
  obtain ⟨w, data, lost, n, hw, hn, -⟩ :=
    no_lost_wakeup (Program.Run.of_exec anyway_any readerSleeps_runs) (by decide +kernel)
      readerSleeps_asleep (by decide +kernel)
  exact ⟨readerSleeps_asleep, w, data, lost, n, hw, hn⟩

end Ldd.Stream

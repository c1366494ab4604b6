import LddSandbox.Schemes.Stutter
import LddSandbox.Stream.Steps

/-! The poll device does what the blocking device does: `07-char-dev-poll` is `06-char-dev-blocking`
    with an `O_NONBLOCK` test in `dev_read`, and with `dev_poll`. As long as nobody polls and no
    file has `O_NONBLOCK`, the two drivers have the same runs, up to that test (`drivers_alike`); the
    blocking device does not look at `O_NONBLOCK` at all.

        06:   lock ─────────────────▶ loop ▶ ..
        07:   lock ▶ checkNonblock ─▶ loop ▶ ..                                              -/

namespace Ldd.Stream
open Ldd.Schemes Ldd.Kernel

/-! ### Without `O_NONBLOCK` -/

/-- The call on a file without `O_NONBLOCK`. -/
def Call.plain : Call → Call
  | .devRead _ len => .devRead false len
  | c => c

def Outcome.plain (o : Outcome) : Outcome := { o with call := o.call.plain }

def Act.plain : Act → Act
  | .tau => .tau
  | .call c => .call c.plain
  | .settle o => .settle o.plain
  | .ret o => .ret o.plain
  | .wakeUp q => .wakeUp q

def Choice.plain (g : Choice) : Choice := { g with call := g.call.plain }

def Pc.plain : Pc → Pc
  | .devRead _ len k => .devRead false len k
  | .ret o => .ret o.plain
  | k => k

/-- The point of `06` that a point of `07` stands for. -/
def Pc.past : Pc → Pc
  | .devRead nb len .checkNonblock => .devRead nb len .loop
  | k => k

/-- The points of the `O_NONBLOCK` test. -/
def Pc.testsNonblock : Pc → Bool
  | .devRead _ _ .checkNonblock | .devRead _ _ .unlockAgain => true
  | _ => false

/-- A read of a file with `O_NONBLOCK`. -/
def Pc.nonblocks : Pc → Bool
  | .devRead nb _ _ => nb
  | _ => false

/-- Nobody polls, and no file has `O_NONBLOCK`. -/
def Plain {ι : Type} (p : ι) (g : Choice) (c : Conf ι (Dev ι) Pc) : Prop :=
  c.pc p = .idle → (∀ ev, g.call ≠ .devPoll ev) ∧ ∀ len, g.call ≠ .devRead true len

/-- What is shown of a step: all but the file's `O_NONBLOCK`. -/
def Act.seen (e : Act) : Option Act := if e = .tau then none else some e.plain

variable {ι : Type} {p : ι} {g : Choice} {d d' : Dev ι} {k k' : Pc} {e : Act}

theorem Act.seen_plain (e : Act) : e.plain.seen = e.seen := by
  cases e with
  | tau => rfl
  | call c => cases c <;> rfl
  | settle o | ret o =>
    obtain ⟨c, fate, ret, bytes, lost⟩ := o
    cases c <;> rfl
  | wakeUp q => rfl

/-- A wake-up leaves a poller a poller. -/
theorem wakeUp_devPoll (q : Queue) (ev : Events) (t : PollTable) (k : PollPc) :
    ∃ t' k', wakeUp q (.devPoll ev t k) = .devPoll ev t' k' := by
  simp only [wakeUp]
  split
  · cases k <;> exact ⟨_, _, rfl⟩
  · exact ⟨_, _, rfl⟩

theorem plain_wakeUp (q : Queue) (k : Pc) : (wakeUp q k).plain = wakeUp q k.plain := by
  cases k with
  | devRead nb len k =>
    cases k with
    | wait w => cases q <;> cases w <;> rfl
    | _ => rfl
  | devPoll ev t k =>
    obtain ⟨t', k', hwake⟩ := wakeUp_devPoll q ev t k
    simp only [Pc.plain, hwake]
  | _ => rfl

theorem past_wakeUp (q : Queue) (k : Pc) : (wakeUp q k).past = wakeUp q k.past := by
  cases k with
  | devRead nb len k =>
    cases k with
    | wait w => cases q <;> cases w <;> rfl
    | _ => rfl
  | devPoll ev t k =>
    obtain ⟨t', k', hwake⟩ := wakeUp_devPoll q ev t k
    simp only [Pc.past, hwake]
  | _ => rfl

theorem plain_hear (e : Act) (k : Pc) :
    ((fops ι .charDevBlocking).hear e k).plain = (fops ι .charDevPoll).hear e.plain k.plain := by
  cases e with
  | wakeUp q => exact plain_wakeUp q k
  | _ => rfl

theorem past_hear (e : Act) (k : Pc) :
    ((fops ι .charDevPoll).hear e k).past = (fops ι .charDevBlocking).hear e k.past := by
  cases e with
  | wakeUp q => exact past_wakeUp q k
  | _ => rfl

/-! ### One step -/

/-- What a step gives, without `O_NONBLOCK`. -/
def plainStep (x : Dev ι × Pc × Act) : Dev ι × Pc × Act := (x.1, x.2.1.plain, x.2.2.plain)

theorem plain_mutexLock : mutexLock p d k.plain = (mutexLock p d k).map plainStep := by
  simp only [mutexLock]
  split <;> rfl

theorem plain_mutexLockInterruptible {c : Call} : mutexLockInterruptible p g.plain d c.plain k.plain =
    (mutexLockInterruptible p g d c k).map plainStep := by
  obtain ⟨signal, fault, call⟩ := g
  cases signal
  · exact plain_mutexLock
  · rfl

/-- Behind its lock and the test, `dev_read` is the same in the two drivers. -/
theorem plain_devRead {nb : Bool} {len : ℕ} {k : ReadPc} (hk : k ≠ .lock)
    (ht : Pc.testsNonblock (.devRead nb len k) = false) :
    devRead .charDevPoll p g.plain d false len k =
      (devRead .charDevBlocking p g d nb len k).map plainStep := by
  cases k with
  | lock => exact absurd rfl hk
  | checkNonblock | unlockAgain => cases ht
  | relock => exact plain_mutexLockInterruptible (c := .devRead nb len) (k := .devRead nb len .loop)
  | wait w =>
    obtain ⟨signal, fault, call⟩ := g
    cases w <;> cases signal <;> rfl
  | _ => rfl

/-- A step that is none of a read shows nothing of `O_NONBLOCK`. -/
theorem Step.plain {drv : Driver} (h : Step drv p g d k d' k' e) (hidle : k ≠ .idle)
    (hread : ∀ nb len k', k ≠ .devRead nb len k') (hret : ∀ o, k ≠ .ret o) :
    k'.plain = k' ∧ e.plain = e := by
  cases h with
  | enter => exact absurd rfl hidle
  | @ret o => exact absurd rfl (hret o)
  | lock hl =>
    cases hl with
    | devRead | relock => exact absurd rfl (hread _ _ _)
    | _ => exact ⟨rfl, rfl⟩
  | interrupt hi =>
    cases hi with
    | devWrite => exact ⟨rfl, rfl⟩
    | _ => exact absurd rfl (hread _ _ _)
  | _ => first | exact ⟨rfl, rfl⟩ | exact absurd rfl (hread _ _ _)

/-- A step of the blocking device is one of the poll device, except where a read takes the lock. -/
theorem plain_next (hk : ∀ nb len, k ≠ .devRead nb len .lock) (ht : k.testsNonblock = false)
    (hn : (fops ι .charDevBlocking).next p g d k = some (d', k', e)) :
    (fops ι .charDevPoll).next p g.plain d k.plain = some (d', k'.plain, e.plain) := by
  cases k with
  | idle =>
    simp only [fops, Option.ite_none_right_eq_some, Option.some.injEq, Prod.mk.injEq] at hn
    obtain ⟨hoff, rfl, rfl, rfl⟩ := hn
    obtain ⟨signal, fault, call⟩ := g
    cases call with
    | devPoll ev => cases hoff
    | _ => rfl
  | devRead nb len k =>
    have hlock : k ≠ .lock := fun h => hk nb len (h ▸ rfl)
    replace hn : devRead .charDevBlocking p g d nb len k = some (d', k', e) := hn
    simp only [fops, Pc.plain, plain_devRead hlock ht, hn]
    rfl
  | ret o =>
    simp only [fops, Option.some.injEq, Prod.mk.injEq] at hn
    obtain ⟨rfl, rfl, rfl⟩ := hn
    rfl
  | _ =>
    obtain ⟨hk', he⟩ := (Step.of_next hn).plain (by simp) (by simp) (by simp)
    rw [hk', he]
    exact hn

/-- The blocking device never comes to the test. -/
theorem tests_next (hn : (fops ι .charDevBlocking).next p g d k = some (d', k', e))
    (ht : k.testsNonblock = false) : k'.testsNonblock = false := by
  cases Step.of_next hn with
  | enter => cases g.call <;> rfl
  | lock hl => cases hl <;> rfl
  | again => cases ht
  | _ => rfl

theorem Pc.past_eq (hk : ∀ nb len, k ≠ .devRead nb len .checkNonblock) : k.past = k := by
  cases k with
  | devRead nb len k =>
    cases k with
    | checkNonblock => exact absurd rfl (hk nb len)
    | _ => rfl
  | _ => rfl

/-- The test is entered by taking the lock only. -/
theorem Step.past {drv : Driver} (h : Step drv p g d k d' k' e)
    (hk : ∀ nb len, k ≠ .devRead nb len .lock) : k'.past = k' := by
  cases h with
  | enter => cases g.call <;> rfl
  | lock hl =>
    cases hl with
    | @devRead nb len => exact absurd rfl (hk nb len)
    | _ => rfl
  | _ => rfl

/-- A step of the poll device is one of the blocking device, except the test. -/
theorem past_next (hk : ∀ nb len, k ≠ .devRead nb len .checkNonblock)
    (hcall : k = .idle → ∀ ev, g.call ≠ .devPoll ev)
    (hn : (fops ι .charDevPoll).next p g d k = some (d', k', e)) :
    (fops ι .charDevBlocking).next p g d k = some (d', k'.past, e) := by
  by_cases hlock : ∃ nb len, k = .devRead nb len .lock
  · obtain ⟨nb, len, rfl⟩ := hlock
    obtain ⟨signal, fault, call⟩ := g
    cases signal with
    | false =>
      simp only [fops, devRead, mutexLockInterruptible, mutexLock, Bool.false_eq_true, if_false,
        Option.ite_none_right_eq_some, Option.some.injEq, Prod.mk.injEq] at hn ⊢
      obtain ⟨hfree, rfl, rfl, rfl⟩ := hn
      exact ⟨hfree, rfl, rfl, rfl⟩
    | true =>
      simp only [fops, devRead, mutexLockInterruptible, if_true, Option.some.injEq,
        Prod.mk.injEq] at hn ⊢
      obtain ⟨rfl, rfl, rfl⟩ := hn
      exact ⟨rfl, rfl, rfl⟩
  · simp only [not_exists] at hlock
    rw [(Step.of_next hn).past hlock, ← hn]
    cases k with
    | idle =>
      obtain ⟨signal, fault, call⟩ := g
      cases call with
      | devPoll ev => exact absurd rfl (hcall rfl ev)
      | _ => rfl
    | devRead nb len k =>
      cases k with
      | lock => exact absurd rfl (hlock nb len)
      | _ => rfl
    | _ => rfl

theorem nonblocks_next {drv : Driver} (h : Step drv p g d k d' k' e) (hk : k.nonblocks = false)
    (hcall : k = .idle → ∀ len, g.call ≠ .devRead true len) : k'.nonblocks = false := by
  cases h with
  | enter =>
    cases hc : g.call with
    | devRead nb len =>
      cases nb
      · rfl
      · exact absurd hc (hcall rfl len)
    | _ => rfl
  | lock hl => cases hl <;> exact hk
  | again => cases hk
  | _ => first | exact hk | rfl

/-! ### Every run -/

variable [DecidableEq ι]

/-- The calls of the blocking device are plain, but for the files' `O_NONBLOCK`. -/
theorem plain_ok {c c' : Conf ι (Dev ι) Pc} (hf : (fops ι .charDevBlocking).fire p g c = some (e, c')) :
    Plain p g.plain (c.via Pc.plain) := by
  intro hidle
  have hk : c.pc p = .idle := by
    rw [Conf.via_pc] at hidle
    cases hk : c.pc p <;> rw [hk] at hidle <;> first | rfl | cases hidle
  obtain ⟨hn, -⟩ := Program.fire_spec hf
  rw [hk] at hn
  obtain ⟨signal, fault, call⟩ := g
  cases call with
  | devPoll ev => cases hn
  | _ => exact ⟨fun ev h => (by cases h), fun len h => (by cases h)⟩

/-- Where a read takes the lock, the poll device takes its test as well. -/
theorem blocking_locks {c c' : Conf ι (Dev ι) Pc} {nb : Bool} {len : ℕ}
    (hf : (fops ι .charDevBlocking).fire p g c = some (e, c')) (hk : c.pc p = .devRead nb len .lock) :
    ∃ tr, (fops ι .charDevPoll).Run Plain (c.via Pc.plain) tr (c'.via Pc.plain) ∧
      shown Act.seen tr = shown Act.seen [(p, e)] := by
  obtain ⟨hn, hothers⟩ := Program.fire_spec hf
  have hok : ∀ {g}, Plain p g (c.via Pc.plain) := by
    intro g h
    rw [Conf.via_pc, hk] at h
    cases h
  rw [hk] at hn
  cases hs : g.signal with
  | true =>
    -- the signal ends the call in both
    simp only [fops, devRead, mutexLockInterruptible, hs, if_true, Option.some.injEq,
      Prod.mk.injEq] at hn
    obtain ⟨hd, hk', rfl⟩ := hn
    refine ⟨_, .step .start (hok (g := g.plain)) (Simulates.fire hf ?_ (plain_hear _)), ?_⟩
    · rw [hk, ← hk', ← hd]
      simp only [fops, Pc.plain, devRead, mutexLockInterruptible, Choice.plain, hs, if_true]
      rfl
    · simp [Act.seen_plain]
  | false =>
    simp only [fops, devRead, mutexLockInterruptible, mutexLock, hs, Bool.false_eq_true, if_false,
      Option.ite_none_right_eq_some, Option.some.injEq, Prod.mk.injEq] at hn
    obtain ⟨hfree, hd, hk', rfl⟩ := hn
    let c₁ : Conf ι (Dev ι) Pc := ⟨{ c.shared with lock := some p },
      fun r => if r = p then .devRead false len .checkNonblock else (c.pc r).plain⟩
    have htake : (fops ι .charDevPoll).fire p {} (c.via Pc.plain) = some (.tau, c₁) := by
      simp [Program.fire, hk, Pc.plain, fops, devRead, devRead.here, mutexLockInterruptible,
        mutexLock, Option.isNone_iff_eq_none.mp hfree, Driver.checksNonblock, c₁]
    have htest : (fops ι .charDevPoll).fire p {} c₁ = some (.tau, c'.via Pc.plain) := by
      simp only [Program.fire, fops, devRead, if_true, c₁, Option.map_some, Option.some.injEq,
        Prod.mk.injEq, true_and, Conf.via, Conf.mk.injEq]
      refine ⟨hd, funext fun r => ?_⟩
      by_cases hr : r = p
      · rw [hr, if_pos rfl, ← hk']
        rfl
      · rw [if_neg hr, hothers r hr, id, if_neg hr]
        rfl
    have hok₁ : Plain p {} c₁ := by
      intro h
      simp [c₁] at h
    exact ⟨_, .step (.step .start hok htake) hok₁ htest, rfl⟩

theorem blocking_simulates (ι : Type) [DecidableEq ι] :
    Simulates (fops ι .charDevBlocking) anyStep (fops ι .charDevPoll) Plain
      (fun k => k.testsNonblock = false) Pc.plain Act.seen Act.seen where
  next hall _ hn := tests_next hn (hall _)
  hear {e k} ht := by
    have hk := heard (ι := ι) .charDevBlocking e k
    generalize (fops ι .charDevBlocking).hear e k = k' at hk ⊢
    cases hk <;> exact ht
  step := by
    intro p g c e c' hall _ hf
    obtain ⟨hn, hothers⟩ := Program.fire_spec hf
    by_cases hlock : ∃ nb len, c.pc p = .devRead nb len .lock
    · obtain ⟨nb, len, hk⟩ := hlock
      exact blocking_locks hf hk
    · simp only [not_exists] at hlock
      have hmatch := plain_next hlock (hall p) hn
      refine ⟨[(p, e.plain)], .step .start ?_ (Simulates.fire hf hmatch (plain_hear e)), ?_⟩
      · exact plain_ok hf
      · simp [e.seen_plain]

theorem poll_simulates (ι : Type) [DecidableEq ι] :
    Simulates (fops ι .charDevPoll) Plain (fops ι .charDevBlocking) anyStep
      (fun k => k.nonblocks = false) Pc.past Act.seen Act.seen where
  next hall hok hn := nonblocks_next (Step.of_next hn) (hall _) fun h => (hok h).2
  hear {e k} hk := by
    have hh := heard (ι := ι) .charDevPoll e k
    generalize (fops ι .charDevPoll).hear e k = k' at hh ⊢
    cases hh <;> exact hk
  step := by
    intro p g c e c' hall hok hf
    obtain ⟨hn, -⟩ := Program.fire_spec hf
    by_cases htest : ∃ nb len, c.pc p = .devRead nb len .checkNonblock
    · -- without `O_NONBLOCK` the test goes on
      obtain ⟨nb, len, hk⟩ := htest
      have hnb := hall p
      rw [hk] at hn hnb
      obtain rfl : nb = false := hnb
      simp only [fops, devRead, devRead.here, Bool.false_and, Bool.false_eq_true, if_false,
        Option.some.injEq, Prod.mk.injEq] at hn
      obtain ⟨hs, hk', rfl⟩ := hn
      have hstay : c'.via Pc.past = c.via Pc.past := by
        refine Simulates.stay hf hs.symm ?_ fun k => rfl
        rw [hk, ← hk']
        rfl
      rw [hstay]
      exact ⟨[], .start, rfl⟩
    · simp only [not_exists] at htest
      have hmatch := past_next htest (fun h => (hok h).1) hn
      rw [← Pc.past_eq htest] at hmatch
      exact ⟨[(p, e)], .step .start trivial (Simulates.fire hf hmatch (past_hear e)), rfl⟩

/-- ALIKE: a history (the calls, outcomes and wake-ups of a run, each by its process, in order) with
    the device it leaves is one of the blocking device exactly if it is one of the poll device
    without polls and without `O_NONBLOCK`. -/
theorem drivers_alike (history : List (ι × Act)) (d : Dev ι) :
    (∃ tr c, (fops ι .charDevBlocking).Run anyStep (loaded ι) tr c ∧
      shown Act.seen tr = history ∧ c.shared = d) ↔
    ∃ tr c, (fops ι .charDevPoll).Run Plain (loaded ι) tr c ∧
      shown Act.seen tr = history ∧ c.shared = d := by
  constructor
  · rintro ⟨tr, c, hrun, rfl, rfl⟩
    obtain ⟨tr', hrun', hshow⟩ := (blocking_simulates ι).run hrun fun _ => rfl
    exact ⟨tr', _, hrun', hshow, rfl⟩
  · rintro ⟨tr, c, hrun, rfl, rfl⟩
    obtain ⟨tr', hrun', hshow⟩ := (poll_simulates ι).run hrun fun _ => rfl
    exact ⟨tr', _, hrun', hshow, rfl⟩

end Ldd.Stream

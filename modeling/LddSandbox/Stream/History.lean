import LddSandbox.Stream.Linear

/-! Histories of the blocking and the poll device: what processes see of their reads and writes.

    A process begins a call, the call is settled once, and it returns what was settled: `Books`
    keeps the account of one step, `books_run` of a whole run. With `follows_run` this makes every
    concurrent history a sequential one of the abstract queue (`linearizable`), from which the
    safety of the copies (`safe`) and the accounting of the bytes (`fifo`) follow. -/

namespace Ldd.Stream
open Ldd.Schemes Ldd.Kernel

/-- The outcomes returned by a list of events, in order. -/
def returns (es : List Act) : List Outcome :=
  es.filterMap fun e => match e with
    | .ret o => some o
    | _ => none

/-- The reads and writes begun by a list of events, in order. -/
def begun (es : List Act) : List Call :=
  es.filterMap fun e => match e with
    | .call (.devRead nb len) => some (.devRead nb len)
    | .call (.devWrite data) => some (.devWrite data)
    | _ => none

/-- The outcome settled but not yet returned. -/
def owed : Pc → List Outcome
  | .devRead nb len (.wake bytes) => [⟨.devRead nb len, .done, bytes.length, bytes, []⟩]
  | .devWrite data (.wake lost n) => [⟨.devWrite data, .done, n, [], lost.getD []⟩]
  | .ret o => [o]
  | _ => []

/-- The read or write begun but not yet settled. -/
def current : Pc → List Call
  | .devRead _ _ (.wake _) => []
  | .devRead nb len _ => [.devRead nb len]
  | .devWrite _ (.wake _ _) => []
  | .devWrite data _ => [.devWrite data]
  | _ => []

/-- The account of one step of a process. -/
structure Books (k : Pc) (e : Act) (k' : Pc) : Prop where
  settle : owed k ++ settles [e] = returns [e] ++ owed k'
  call : current k ++ begun [e] = (settles [e]).map Outcome.call ++ current k'

variable {ι : Type} {drv : Driver} {p : ι} {g : Choice} {d d' : Dev ι} {k' : Pc} {e : Act}

theorem Interrupts.books {k : Pc} {c : Call} (h : Interrupts k c) :
    Books k (.settle (interrupted c)) (.ret (interrupted c)) := by
  cases h <;> exact ⟨rfl, rfl⟩

theorem Locks.books {k : Pc} (h : Locks drv k k') : Books k .tau k' := by
  cases h with
  | devRead => cases drv <;> exact ⟨rfl, rfl⟩
  | _ => exact ⟨rfl, rfl⟩

/-- The account of one step: a call begins, is settled and returns, or nothing moves. -/
theorem Step.books {k : Pc} (h : Step drv p g d k d' k' e) : Books k e k' := by
  cases h with
  | enter => cases g.call <;> exact ⟨rfl, rfl⟩
  | lock hl => exact hl.books
  | interrupt hi => exact hi.books
  | _ => exact ⟨rfl, rfl⟩

/-- Hearing a wake-up moves no account. -/
theorem Heard.books {k : Pc} (h : Heard k k') : owed k' = owed k ∧ current k' = current k := by
  cases h <;> exact ⟨rfl, rfl⟩

variable [DecidableEq ι] {ok : ι → Choice → Conf ι (Dev ι) Pc → Prop}
variable {tr : List (ι × Act)} {c : Conf ι (Dev ι) Pc}

/-- In every run each process returns what its calls settled, in order, and settles exactly the
    calls it began; at most one call is in between. -/
theorem books_run (hrun : (fops ι drv).Run ok (loaded ι) tr c) (r : ι) :
    settles (own r tr) = returns (own r tr) ++ owed (c.pc r) ∧
      begun (own r tr) = (settles (own r tr)).map Outcome.call ++ current (c.pc r) := by
  let J (es : List Act) (k : Pc) : Prop := settles es = returns es ++ owed k ∧
    begun es = (settles es).map Outcome.call ++ current k
  refine hrun.own (J := J) (fun _ => ⟨rfl, rfl⟩) ?_ ?_ r
  · rintro p g s k s' k' e es ⟨hs, hb⟩ hn
    have hbk := (Step.of_next hn).books
    have happ : ∀ e, settles (es ++ [e]) = settles es ++ settles [e] ∧
        returns (es ++ [e]) = returns es ++ returns [e] ∧
        begun (es ++ [e]) = begun es ++ begun [e] :=
      fun e => ⟨List.filterMap_append .., List.filterMap_append .., List.filterMap_append ..⟩
    obtain ⟨h1, h2, h3⟩ := happ e
    refine ⟨?_, ?_⟩
    · rw [h1, h2, hs, List.append_assoc, hbk.settle, List.append_assoc]
    · rw [h3, h1, hb, List.append_assoc, hbk.call, List.map_append, List.append_assoc]
  · rintro e es k ⟨hs, hb⟩
    obtain ⟨ho, hc⟩ := (heard (ι := ι) drv e k).books
    exact ⟨by rw [ho]; exact hs, by rw [hc]; exact hb⟩

/-! ### What a history looks like -/

/-- The settled calls of a run replay to a state, which is the device's when the lock is free. -/
theorem replayed (hrun : (fops ι drv).Run ok (loaded ι) tr c) :
    ∃ st : Fifo bufLen, (Fifo.empty bufLen).replay (settled tr) = some st ∧
      (c.shared.lock = none → Sim st c.shared) := by
  obtain ⟨st, hrep, hs⟩ := follows_run hrun
  exact ⟨st, hrep, fun hl => by simpa [Mutex.owner, hl] using hs⟩

/-- What a process that has the lock has of the device. -/
theorem replayed_at (hrun : (fops ι drv).Run ok (loaded ι) tr c) {r : ι}
    (hr : (c.pc r).holds = true) :
    ∃ st : Fifo bufLen, (Fifo.empty bufLen).replay (settled tr) = some st ∧
      At st c.shared (c.pc r) :=
  (mutex drv).guarded_at hrun rfl (fun _ => rfl) (A := Follows) (follows_run hrun) hr

theorem settled_of_own {r : ι} {o : Outcome} (h : o ∈ settles (own r tr)) : o ∈ settled tr := by
  simp only [settles, List.mem_filterMap] at h
  obtain ⟨e, he, heq⟩ := h
  simp only [settled, settles, List.mem_filterMap, List.mem_map]
  exact ⟨e, ⟨(r, e), mem_own.mp he, rfl⟩, heq⟩

/-- What a call is about to return is settled. -/
theorem settled_of_owed (hrun : (fops ι drv).Run ok (loaded ι) tr c) {r : ι} {o : Outcome}
    (h : o ∈ owed (c.pc r)) : o ∈ settled tr := by
  refine settled_of_own (r := r) ?_
  rw [(books_run hrun r).1]
  exact List.mem_append_right _ h

/-- What a call returned was settled before. -/
theorem settled_of_ret (hrun : (fops ι drv).Run ok (loaded ι) tr c) {r : ι} {o : Outcome}
    (h : (r, .ret o) ∈ tr) : o ∈ settled tr := by
  refine settled_of_own (r := r) ?_
  rw [(books_run hrun r).1, returns]
  exact List.mem_append_left _ (List.mem_filterMap.mpr ⟨.ret o, mem_own.mpr h, rfl⟩)

/-- Process `true` waits for data, process `false` writes three bytes, and `true` reads two. -/
def readerWaits : List (Bool × Choice) :=
  calls true { call := .devRead false 2 } 6 ++ calls false { call := .devWrite [7, 8, 9] } 7 ++
  moves true 10

theorem readerWaits_runs :
    ((fops Bool .charDevBlocking).exec anyway readerWaits (loaded Bool)).isSome = true := by
  decide +kernel

/-- The run of `readerWaits`. -/
def readerWaitsRun : List (Bool × Act) × Conf Bool (Dev Bool) Pc :=
  ((fops Bool .charDevBlocking).exec anyway readerWaits (loaded Bool)).get readerWaits_runs

/-- What the positions and the copies of a state must keep to. -/
structure Safe (c : Conf ι (Dev ι) Pc) : Prop where
  free : c.shared.lock = none → c.shared.readPos ≤ c.shared.writePos ∧
    c.shared.writePos ≤ c.shared.bufferSize ∧ c.shared.bufferSize = bufLen ∧
    (c.shared.readPos = c.shared.writePos → c.shared.readPos = 0 ∧ c.shared.writePos = 0)
  readCopy : ∀ r nb len, c.pc r = .devRead nb len .copy → c.shared.lock = some r ∧
    c.shared.readPos < c.shared.writePos ∧
    usub c.shared.writePos c.shared.readPos = c.shared.writePos - c.shared.readPos ∧
    c.shared.readPos + bytesToRead c.shared len ≤ bufLen
  writeCopy : ∀ r data lost, c.pc r = .devWrite data (.copy lost) → c.shared.lock = some r ∧
    c.shared.writePos < c.shared.bufferSize ∧
    usub c.shared.bufferSize c.shared.writePos = c.shared.bufferSize - c.shared.writePos ∧
    c.shared.writePos + bytesToWrite c.shared data ≤ bufLen

/-- SAFE: in every reachable state the positions are in order and the copies in range, and a read
    of at least one byte has returned a count up to `len` or an error, never `0`. -/
theorem positions_safe (hrun : (fops ι drv).Run anyStep (loaded ι) tr c) :
    Safe c ∧ ∀ r (o : Outcome) nb (len : ℕ), (r, .ret o) ∈ tr → o.call = .devRead nb len → 0 < len →
      (0 < o.ret ∧ o.ret ≤ len) ∨ o.ret < 0 := by
  obtain ⟨st, hrep, hsim⟩ := replayed hrun
  have h1024 := bufLen_eq
  refine ⟨⟨?_, ?_, ?_⟩, ?_⟩
  · intro hl
    have hs := hsim hl
    have hspan := hs.span; have hroom := hs.room; have hsize := hs.size; have hused := hs.used
    refine ⟨by omega, by omega, hsize, fun heq => ?_⟩
    have hzero := st.fresh (List.length_eq_zero_iff.mp (by omega))
    omega
  · intro r nb len hr
    have hlock := (holder hrun r).mp (by rw [hr]; rfl)
    obtain ⟨st, -, hat⟩ := replayed_at hrun (r := r) (by rw [hr]; rfl)
    rw [hr] at hat
    obtain ⟨hs, hne⟩ := hat
    have hspan := hs.span; have hroom := hs.room
    have hpos := List.length_pos_of_ne_nil hne
    refine ⟨hlock, by omega, usub_eq (by omega) (by omega), ?_⟩
    rw [hs.readCount]; omega
  · intro r data lost hr
    have hlock := (holder hrun r).mp (by rw [hr]; rfl)
    obtain ⟨st, -, hat⟩ := replayed_at hrun (r := r) (by rw [hr]; rfl)
    rw [hr] at hat
    have hs : Sim st.makeRoom c.shared := hat.1
    have hlt := Fifo.makeRoom_used_lt (by omega) st
    have hused := hs.used; have hsize := hs.size
    refine ⟨hlock, by omega, usub_eq (by omega) (by omega), ?_⟩
    rw [hs.writeCount, Fifo.take]; omega
  · intro r o nb len hmem hcall hlen
    obtain ⟨s, s', hstep⟩ := Fifo.replay_mem hrep (settled_of_ret hrun hmem)
    exact Fifo.step_read_ret hstep hcall hlen

theorem positions_safe_readerWaits : Safe readerWaitsRun.2 ∧ readerWaitsRun.2.shared.readPos = 2 :=
  ⟨(positions_safe (Program.Run.of_exec anyway_any readerWaits_runs)).1, by decide +kernel⟩

/-! ### The accounting of the bytes -/

/-- FIFO, up to discards: the bytes delivered by reads and the bytes discarded by writes, in the
    order of the lock, followed by the unread bytes, are the accepted bytes: none is duplicated or
    reordered, and one is lost only where a write that finds the buffer full discards all that is
    unread. Without such a write the delivered and the unread bytes are the accepted ones. -/
theorem fifo_accounting (hrun : (fops ι drv).Run anyStep (loaded ι) tr c)
    (hl : c.shared.lock = none) :
    (settled tr).flatMap (fun o => o.lost ++ o.delivered) ++ c.shared.unread =
        (settled tr).flatMap Outcome.accepted ∧
      (∀ os₁ o os₂, settled tr = os₁ ++ o :: os₂ → o.lost ≠ [] →
        ∃ st : Fifo bufLen, (Fifo.empty bufLen).replay os₁ = some st ∧ st.used = bufLen ∧
          o.lost = st.pending ∧ ∃ data, o.call = .devWrite data) ∧
      ((∀ o ∈ settled tr, o.lost = []) →
        (settled tr).flatMap Outcome.delivered ++ c.shared.unread =
          (settled tr).flatMap Outcome.accepted) ∧
      ∀ r, settles (own r tr) = returns (own r tr) ++ owed (c.pc r) := by
  obtain ⟨st, hrep, hsim⟩ := replayed hrun
  have hdel : ∀ o ∈ settled tr, o.delivered = o.bytes := by
    intro o ho
    obtain ⟨s, s', hstep⟩ := Fifo.replay_mem hrep ho
    exact Fifo.step_delivered hstep
  have hbal : (settled tr).flatMap (fun o => o.lost ++ o.delivered) ++ c.shared.unread =
      (settled tr).flatMap Outcome.accepted := by
    have hb := Fifo.replay_balance hrep
    rw [(hsim hl).unread, List.flatMap_congr fun o ho => by rw [hdel o ho]]
    simpa [Fifo.empty] using hb.symm
  refine ⟨hbal, ?_, ?_, fun r => (books_run hrun r).1⟩
  · intro os₁ o os₂ heq hlost
    rw [heq] at hrep
    obtain ⟨s, s', hs, hstep⟩ := Fifo.replay_split hrep
    obtain ⟨hu, hp, hw⟩ := Fifo.step_lost hstep hlost
    exact ⟨s, hs, hu, hp, hw⟩
  · intro hnone
    rw [← hbal]
    congr 1
    refine List.flatMap_congr fun o ho => ?_
    rw [hnone o ho, List.nil_append]

theorem fifo_accounting_readerWaits :
    readerWaitsRun.2.shared.unread = [9] ∧
    (settled readerWaitsRun.1).flatMap (fun o => o.lost ++ o.delivered) ++
      readerWaitsRun.2.shared.unread = (settled readerWaitsRun.1).flatMap Outcome.accepted :=
  ⟨by decide +kernel,
    (fifo_accounting (Program.Run.of_exec anyway_any readerWaits_runs) (by decide +kernel)).1⟩

/-- The device keeps every accepted byte: what reads delivered, then what is unread, is what writes
    accepted. -/
def Lossless (drv : Driver) : Prop :=
  ∀ (tr : List (Unit × Act)) (c : Conf Unit (Dev Unit) Pc),
    (fops Unit drv).Run anyStep (loaded Unit) tr c → c.shared.lock = none →
    (settled tr).flatMap Outcome.delivered ++ c.shared.unread =
      (settled tr).flatMap Outcome.accepted

/-- A write that fills the buffer, and one more byte. -/
def overfill : List (Unit × Choice) :=
  calls () { call := .devWrite (List.replicate bufLen 0) } 7 ++ calls () { call := .devWrite [1] } 9

theorem overfill_loses {drv : Driver}
    (hrun : ((fops Unit drv).exec anyway overfill (loaded Unit)).isSome = true)
    (hlock : (((fops Unit drv).exec anyway overfill (loaded Unit)).get hrun).2.shared.lock = none)
    (hleft : (((fops Unit drv).exec anyway overfill (loaded Unit)).get hrun).2.shared.unread.length = 1)
    (hread : (settled (((fops Unit drv).exec anyway overfill (loaded Unit)).get hrun).1).flatMap
      Outcome.delivered = [])
    (hacc : ((settled (((fops Unit drv).exec anyway overfill (loaded Unit)).get hrun).1).flatMap
      Outcome.accepted).length = 1025) : ¬ Lossless drv := by
  intro h
  have heq := h _ _ (Program.Run.of_exec anyway_any hrun) hlock
  rw [hread, List.nil_append] at heq
  rw [← heq, hleft] at hacc
  exact absurd hacc (by decide)

theorem not_lossless : ¬ Lossless .charDevBlocking ∧ ¬ Lossless .charDevPoll :=
  ⟨overfill_loses (by decide +kernel) (by decide +kernel) (by decide +kernel) (by decide +kernel)
      (by decide +kernel),
    overfill_loses (by decide +kernel) (by decide +kernel) (by decide +kernel) (by decide +kernel)
      (by decide +kernel)⟩

end Ldd.Stream

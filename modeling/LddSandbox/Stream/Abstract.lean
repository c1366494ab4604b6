import LddSandbox.Kernel.UserCopy

/-! What the blocking and the poll device are for: a bounded byte queue. The abstract device keeps
    the bytes accepted and not yet read (`pending`) and the cells used up since it last restarted
    (`used`); a byte leaves the queue by being read, or by being discarded when a write finds every
    cell used up.

        write d:   used = N ? drop pending, used := 0      then append up to N - used bytes of d
        read len:  remove up to len bytes from the front   (used := 0 once nothing is pending)

    Calls are replayed here one at a time, from the outcomes the concurrent device committed. -/

namespace Ldd.Stream
open Ldd.Kernel

/-- The events a poller awaits or is told of: `pollin` for `POLLIN | POLLRDNORM`, `pollout` for
    `POLLOUT | POLLWRNORM`. -/
structure Events where
  pollin : Bool
  pollout : Bool
  deriving DecidableEq, Repr

/-- The two sets of events have one in common. -/
def Events.meets (a b : Events) : Bool := a.pollin && b.pollin || a.pollout && b.pollout

/-- A call into the driver, with what the process passes: the open mode's read and write bits, the
    `O_NONBLOCK` flag and the length of a read, the bytes of a write, the events awaited by a
    poll. -/
inductive Call
  | devOpen (fmodeRead fmodeWrite : Bool)
  | devRead (nonblock : Bool) (len : ℕ)
  | devWrite (data : List UInt8)
  | devPoll (awaited : Events)
  | devRelease (fmodeRead fmodeWrite : Bool)
  deriving DecidableEq, Repr

/-- How a read or write ends: normally, with its copy faulting, refused because there is nothing to
    read, or interrupted by a signal. -/
inductive Fate | done | fault | again | signal
  deriving DecidableEq, Repr

/-- The outcome of a read or write: what it returns, the bytes it delivers to the reader, and the
    unread bytes it discards. -/
structure Outcome where
  call : Call
  fate : Fate
  ret : ℤ
  bytes : List UInt8
  lost : List UInt8
  deriving DecidableEq, Repr

/-- The bytes a write reported as accepted. -/
def Outcome.accepted (o : Outcome) : List UInt8 :=
  match o.call with
  | .devWrite data => if 0 < o.ret then data.take o.ret.toNat else []
  | _ => []

/-- The bytes a read with a positive count delivered. -/
def Outcome.delivered (o : Outcome) : List UInt8 :=
  match o.call with
  | .devRead _ _ => if 0 < o.ret then o.bytes else []
  | _ => []

/-- The abstract device of capacity `N`. -/
structure Fifo (N : ℕ) where
  pending : List UInt8
  used : ℕ
  fits : pending.length ≤ used
  room : used ≤ N
  fresh : pending = [] → used = 0

namespace Fifo
variable {N : ℕ}

/-- The device as loaded. -/
def empty (N : ℕ) : Fifo N := ⟨[], 0, Nat.le_refl _, Nat.zero_le _, fun _ => rfl⟩

/-- A write that finds every cell used up starts over. -/
def makeRoom (st : Fifo N) : Fifo N := if st.used = N then empty N else st

/-- The bytes `makeRoom` discards. -/
def lost (st : Fifo N) : List UInt8 := if st.used = N then st.pending else []

/-- The number of bytes a write of `data` can append. -/
def take (st : Fifo N) (data : List UInt8) : ℕ := min data.length (N - st.used)

/-- Append what fits of `data`. -/
def push (st : Fifo N) (data : List UInt8) : Fifo N where
  pending := st.pending ++ data.take (st.take data)
  used := st.used + st.take data
  fits := by
    have := st.fits
    simp only [List.length_append, List.length_take, take]; omega
  room := by have := st.room; simp only [take]; omega
  fresh h := by
    obtain ⟨hp, ht⟩ := List.append_eq_nil_iff.mp h
    have hlen := congrArg List.length ht
    simp only [List.length_take, List.length_nil, take] at hlen ⊢
    rw [st.fresh hp] at hlen ⊢
    omega

/-- Remove the first `len` bytes, or all of them; an emptied device starts over. -/
def pop (st : Fifo N) (len : ℕ) : Fifo N where
  pending := st.pending.drop len
  used := if st.pending.length ≤ len then 0 else st.used
  fits := by
    have := st.fits
    simp only [List.length_drop]; split <;> omega
  room := by have := st.room; split <;> omega
  fresh h := by
    rw [List.drop_eq_nil_iff] at h
    simp [h]

/-- One call on the abstract device: its return value, the bytes delivered, the bytes discarded and
    the state after it; `none` when the call cannot end that way in this state. -/
def exec (st : Fifo N) : Call → Fate → Option (ℤ × List UInt8 × List UInt8 × Fifo N)
  | .devRead _ len, .done =>
    if st.pending = [] then none
    else some ((min len st.pending.length : ℕ), st.pending.take len, [], st.pop len)
  | .devRead _ _, .fault => if st.pending = [] then none else some (-EFAULT, [], [], st)
  | .devRead _ _, .again => if st.pending = [] then some (-EAGAIN, [], [], st) else none
  | .devRead _ _, .signal => some (-ERESTARTSYS, [], [], st)
  | .devWrite data, .done =>
    some ((st.makeRoom.take data : ℕ), [], st.lost, st.makeRoom.push data)
  | .devWrite _, .fault => some (-EFAULT, [], st.lost, st.makeRoom)
  | .devWrite _, .signal => some (-ERESTARTSYS, [], [], st)
  | _, _ => none

/-- The abstract device takes the call and has the same outcome. -/
def step (st : Fifo N) (o : Outcome) : Option (Fifo N) :=
  match st.exec o.call o.fate with
  | some (ret, bytes, lost, st') =>
    if ret = o.ret ∧ bytes = o.bytes ∧ lost = o.lost then some st' else none
  | none => none

/-- The abstract device takes the calls one at a time, each with the same outcome. -/
def replay (st : Fifo N) (os : List Outcome) : Option (Fifo N) := os.foldlM step st

@[simp] theorem replay_nil (st : Fifo N) : st.replay [] = some st := rfl

theorem replay_cons {st st' : Fifo N} {o : Outcome} {os : List Outcome} :
    st.replay (o :: os) = some st' ↔ ∃ s, st.step o = some s ∧ s.replay os = some st' := by
  rw [replay, List.foldlM_cons]
  exact Option.bind_eq_some_iff

theorem replay_append {st st' : Fifo N} {os os' : List Outcome} :
    st.replay (os ++ os') = some st' ↔ ∃ s, st.replay os = some s ∧ s.replay os' = some st' := by
  rw [replay, List.foldlM_append]
  exact Option.bind_eq_some_iff

theorem replay_concat {st st' st'' : Fifo N} {os : List Outcome} {o : Outcome}
    (h : st.replay os = some st') (ho : st'.step o = some st'') :
    st.replay (os ++ [o]) = some st'' :=
  replay_append.mpr ⟨st', h, replay_cons.mpr ⟨st'', ho, replay_nil st''⟩⟩

/-- The ways a read or write ends on the abstract device. -/
inductive Ends (st : Fifo N) : Outcome → Fifo N → Prop
  | read {nb len} : st.pending ≠ [] → Ends st ⟨.devRead nb len, .done,
      (min len st.pending.length : ℕ), st.pending.take len, []⟩ (st.pop len)
  | readFault {nb len} : st.pending ≠ [] → Ends st ⟨.devRead nb len, .fault, -EFAULT, [], []⟩ st
  | readAgain {nb len} : st.pending = [] → Ends st ⟨.devRead nb len, .again, -EAGAIN, [], []⟩ st
  | readSignal {nb len} : Ends st ⟨.devRead nb len, .signal, -ERESTARTSYS, [], []⟩ st
  | write {data} : Ends st ⟨.devWrite data, .done, (st.makeRoom.take data : ℕ), [], st.lost⟩
      (st.makeRoom.push data)
  | writeFault {data} : Ends st ⟨.devWrite data, .fault, -EFAULT, [], st.lost⟩ st.makeRoom
  | writeSignal {data} : Ends st ⟨.devWrite data, .signal, -ERESTARTSYS, [], []⟩ st

theorem step_ends {st st' : Fifo N} {o : Outcome} (h : st.step o = some st') : st.Ends o st' := by
  obtain ⟨call, fate, ret, bytes, lost⟩ := o
  unfold step at h
  cases hx : st.exec call fate with
  | none => simp [hx] at h
  | some x =>
    obtain ⟨ret', bytes', lost', st₁⟩ := x
    simp only [hx, Option.ite_none_right_eq_some, Option.some.injEq] at h
    obtain ⟨⟨rfl, rfl, rfl⟩, rfl⟩ := h
    cases call with
    | devRead nb len =>
      cases fate <;> simp only [exec, Option.ite_none_left_eq_some, Option.ite_none_right_eq_some,
        Option.some.injEq, Prod.mk.injEq] at hx
      · obtain ⟨hne, rfl, rfl, rfl, rfl⟩ := hx
        exact .read hne
      · obtain ⟨hne, rfl, rfl, rfl, rfl⟩ := hx
        exact .readFault hne
      · obtain ⟨hno, rfl, rfl, rfl, rfl⟩ := hx
        exact .readAgain hno
      · obtain ⟨rfl, rfl, rfl, rfl⟩ := hx
        exact .readSignal
    | devWrite data =>
      cases fate <;> simp only [exec, Option.some.injEq, Prod.mk.injEq, reduceCtorEq] at hx
      · obtain ⟨rfl, rfl, rfl, rfl⟩ := hx
        exact .write
      · obtain ⟨rfl, rfl, rfl, rfl⟩ := hx
        exact .writeFault
      · obtain ⟨rfl, rfl, rfl, rfl⟩ := hx
        exact .writeSignal
    | devOpen _ _ => simp [exec] at hx
    | devPoll _ => simp [exec] at hx
    | devRelease _ _ => simp [exec] at hx

theorem makeRoom_of_full {st : Fifo N} (h : st.used = N) : st.makeRoom = empty N := if_pos h

theorem makeRoom_of_room {st : Fifo N} (h : st.used ≠ N) : st.makeRoom = st := if_neg h

theorem lost_of_full {st : Fifo N} (h : st.used = N) : st.lost = st.pending := if_pos h

theorem lost_of_room {st : Fifo N} (h : st.used ≠ N) : st.lost = [] := if_neg h

@[simp] theorem makeRoom_used_lt (hN : 0 < N) (st : Fifo N) : st.makeRoom.used < N := by
  by_cases h : st.used = N
  · rw [makeRoom_of_full h]
    exact hN
  · have := st.room
    rw [makeRoom_of_room h]
    omega

/-- What was pending is either discarded or kept. -/
theorem lost_makeRoom (st : Fifo N) : st.lost ++ st.makeRoom.pending = st.pending := by
  by_cases h : st.used = N
  · rw [lost_of_full h, makeRoom_of_full h]
    exact List.append_nil _
  · rw [lost_of_room h, makeRoom_of_room h, List.nil_append]

/-- With a cell left a write of some bytes appends some. -/
theorem take_pos {st : Fifo N} (h : st.used < N) {data : List UInt8} (hdata : data ≠ []) :
    0 < st.take data := by
  have hpos := List.length_pos_of_ne_nil hdata
  unfold take
  omega

theorem push_ne_nil {st : Fifo N} (h : st.used < N) {data : List UInt8} (hdata : data ≠ []) :
    (st.push data).pending ≠ [] := by
  intro hnil
  rcases List.take_eq_nil_iff.mp (List.append_eq_nil_iff.mp hnil).2 with h0 | h0
  · exact (take_pos h hdata).ne' h0
  · exact hdata h0

/-- What a write accepts is what it appends. -/
theorem accepted_write (st : Fifo N) (data lost : List UInt8) :
    Outcome.accepted ⟨.devWrite data, .done, (st.take data : ℕ), [], lost⟩ =
      data.take (st.take data) := by
  by_cases h0 : st.take data = 0 <;> simp [Outcome.accepted, h0, Nat.pos_of_ne_zero]

/-- The books of one call: what was pending and what the call accepted is what it discarded,
    delivered and left pending, in this order. -/
theorem step_balance {st st' : Fifo N} {o : Outcome} (h : st.step o = some st') :
    st.pending ++ o.accepted = o.lost ++ o.bytes ++ st'.pending := by
  cases step_ends h with
  | read => simp [Outcome.accepted, pop]
  | write =>
    rw [accepted_write, ← lost_makeRoom st]
    simp [push]
  | writeFault => simp [Outcome.accepted, EFAULT, lost_makeRoom]
  | writeSignal => simp [Outcome.accepted, ERESTARTSYS]
  | _ => simp [Outcome.accepted]

/-- Only a read with a positive count delivers bytes. -/
theorem step_delivered {st st' : Fifo N} {o : Outcome} (h : st.step o = some st') :
    o.delivered = o.bytes := by
  cases step_ends h with
  | @read _ len hne =>
    have hlen := List.length_pos_of_ne_nil hne
    by_cases h0 : len = 0
    · simp [Outcome.delivered, h0]
    · have hpos : 0 < min len st.pending.length := by omega
      exact if_pos (Int.natCast_pos.mpr hpos)
  | readFault => simp [Outcome.delivered]
  | readAgain => simp [Outcome.delivered]
  | readSignal => simp [Outcome.delivered]
  | _ => rfl

/-- The books of a whole replay. -/
theorem replay_balance : ∀ {os : List Outcome} {st st' : Fifo N}, st.replay os = some st' →
    st.pending ++ os.flatMap Outcome.accepted =
      os.flatMap (fun o => o.lost ++ o.bytes) ++ st'.pending
  | [], st, st', h => by
    obtain rfl : st = st' := by simpa using h
    simp
  | o :: os, st, st', h => by
    obtain ⟨st₁, ho, hos⟩ := replay_cons.mp h
    have hstep := step_balance ho
    have hrest := replay_balance hos
    calc st.pending ++ (o :: os).flatMap Outcome.accepted
        = (st.pending ++ o.accepted) ++ os.flatMap Outcome.accepted := by simp
      _ = o.lost ++ o.bytes ++ (st₁.pending ++ os.flatMap Outcome.accepted) := by
        rw [hstep, List.append_assoc]
      _ = (o :: os).flatMap (fun o => o.lost ++ o.bytes) ++ st'.pending := by
        rw [hrest]; simp

/-- A replay passes through a state before each of its calls. -/
theorem replay_split {os₁ os₂ : List Outcome} {o : Outcome} {st st' : Fifo N}
    (h : st.replay (os₁ ++ o :: os₂) = some st') :
    ∃ s s' : Fifo N, st.replay os₁ = some s ∧ s.step o = some s' := by
  obtain ⟨s, hs, hrest⟩ := replay_append.mp h
  obtain ⟨s', ho, -⟩ := replay_cons.mp hrest
  exact ⟨s, s', hs, ho⟩

/-- Some state of the replay took each of its calls. -/
theorem replay_mem {os : List Outcome} {st st' : Fifo N} (h : st.replay os = some st') {o : Outcome}
    (ho : o ∈ os) : ∃ s s' : Fifo N, s.step o = some s' := by
  obtain ⟨os₁, os₂, rfl⟩ := List.append_of_mem ho
  obtain ⟨s, s', -, hstep⟩ := replay_split h
  exact ⟨s, s', hstep⟩

/-- A call that discards bytes is a write that found every cell used up, and it discards all that
    was pending. -/
theorem step_lost {st st' : Fifo N} {o : Outcome} (h : st.step o = some st') (hl : o.lost ≠ []) :
    st.used = N ∧ o.lost = st.pending ∧ ∃ data, o.call = .devWrite data := by
  have hfull : st.lost ≠ [] → st.used = N ∧ st.lost = st.pending := by
    intro hne
    by_cases hu : st.used = N
    · exact ⟨hu, lost_of_full hu⟩
    · exact absurd (lost_of_room hu) hne
  cases step_ends h with
  | @write data => exact ⟨(hfull hl).1, (hfull hl).2, data, rfl⟩
  | @writeFault data => exact ⟨(hfull hl).1, (hfull hl).2, data, rfl⟩
  | _ => exact absurd rfl hl

/-- A read of at least one byte never returns `0`: it returns a count up to `len` or an error. -/
theorem step_read_ret {st st' : Fifo N} {o : Outcome} {nb : Bool} {len : ℕ}
    (h : st.step o = some st') (hc : o.call = .devRead nb len) (hlen : 0 < len) :
    (0 < o.ret ∧ o.ret ≤ len) ∨ o.ret < 0 := by
  cases step_ends h with
  | read hne =>
    cases hc
    have hpos := List.length_pos_of_ne_nil hne
    have hmin : 0 < min len st.pending.length := Nat.lt_min.mpr ⟨hlen, hpos⟩
    have hle : min len st.pending.length ≤ len := Nat.min_le_left ..
    exact .inl ⟨Int.natCast_pos.mpr hmin, Int.ofNat_le.mpr hle⟩
  | readFault => exact .inr (show -EFAULT < 0 by decide)
  | readAgain => exact .inr (show -EAGAIN < 0 by decide)
  | readSignal => exact .inr (show -ERESTARTSYS < 0 by decide)
  | _ => cases hc

end Fifo

end Ldd.Stream

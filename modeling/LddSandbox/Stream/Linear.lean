import LddSandbox.Stream.Locking

/-! The concurrent device does what the abstract one does. `Sim` relates a device to the abstract
    queue, `At` says what the holder of the lock has of it at each point of its critical section,
    and `follows_run` carries the two through every run: whatever the interleaving, replaying the
    settled calls on the abstract device, in the order in which they left their last critical
    section, reaches the state that the device represents.

        abstract:   st ─────────────── exec call ───────────────▶ st'
                    │ Sim                                          │ Sim
        device:     d ─▶ (lock) At ─▶ At ─▶ .. ─▶ At ─▶ (unlock) ─▶ d' -/

namespace Ldd.Stream
open Ldd.Schemes Ldd.Kernel

/-- The outcomes settled by a list of events, in order. -/
def settles (es : List Act) : List Outcome :=
  es.filterMap fun e => match e with
    | .settle o => some o
    | _ => none

/-- The outcomes settled in a run, in the order in which their calls left the lock. -/
def settled {ι : Type} (tr : List (ι × Act)) : List Outcome := settles (tr.map Prod.snd)

theorem settled_append {ι : Type} (tr tr' : List (ι × Act)) :
    settled (tr ++ tr') = settled tr ++ settled tr' := by
  simp [settled, settles, List.filterMap_append]

variable {ι : Type} {drv : Driver} {p : ι} {g : Choice} {d d' : Dev ι} {k' : Pc} {e : Act}
variable {st : Fifo bufLen}

/-- `bs` are the unread bytes, and lie inside the buffer. -/
structure Holds (bs : List UInt8) (d : Dev ι) : Prop where
  size : d.bufferSize = bufLen
  span : d.readPos + bs.length = d.writePos
  bytes : d.buffer.load d.readPos bs.length = bs
  room : d.writePos ≤ bufLen

/-- The simulation relation: `pending = buffer[read_pos..write_pos)` and `used = write_pos`. -/
structure Sim (st : Fifo bufLen) (d : Dev ι) : Prop extends Holds st.pending d where
  used : d.writePos = st.used

theorem bufLen_eq : bufLen = 1024 := rfl

/-! ### What the device's tests and counts say of the abstract queue -/

theorem Holds.unread {bs : List UInt8} (h : Holds bs d) : d.unread = bs := by
  have hn : d.writePos - d.readPos = bs.length := by have := h.span; omega
  rw [Dev.unread, hn, h.bytes]

theorem Holds.hasData {bs : List UInt8} (h : Holds bs d) : d.hasData = true ↔ bs ≠ [] := by
  have := h.span
  rw [Dev.hasData, decide_eq_true_iff, ← List.length_pos_iff]; omega

theorem Sim.hasSpace (h : Sim st d) : d.hasSpace = true ↔ st.used ≠ bufLen := by
  have := h.used; have := h.size; have := st.room
  rw [Dev.hasSpace, decide_eq_true_iff]; omega

theorem Sim.readCount (h : Sim st d) (len : ℕ) :
    bytesToRead d len = min len st.pending.length := by
  have hs := h.span; have hr := h.room
  have hsub : usub d.writePos d.readPos = st.pending.length := by
    rw [usub_eq (by omega) (by rw [bufLen_eq] at hr; omega)]; omega
  simp only [bytesToRead, hsub]
  split <;> omega

theorem Sim.writeCount (h : Sim st d) (data : List UInt8) :
    bytesToWrite d data = st.take data := by
  have hz := h.size; have hr := h.room; have hu := h.used
  have hsub : usub d.bufferSize d.writePos = bufLen - st.used := by
    rw [usub_eq (by omega) (by rw [hz]; decide)]; omega
  simp only [bytesToWrite, hsub, Fifo.take]
  split <;> omega

/-! ### The stores of a critical section -/

theorem Sim.ofLock (h : Sim st d) (l : Option ι) : Sim st { d with lock := l } :=
  ⟨⟨h.size, h.span, h.bytes, h.room⟩, h.used⟩

/-- `read_pos += n` leaves the bytes behind the first `n`. -/
theorem Sim.advanceRead (h : Sim st d) {len : ℕ} :
    Holds (st.pending.drop len)
      { d with readPos := uadd d.readPos (st.pending.take len).length } := by
  have hs := h.span; have hr := h.room; have h1024 := bufLen_eq
  have hle : (st.pending.take len).length ≤ st.pending.length := by simp
  have hadd : uadd d.readPos (st.pending.take len).length
      = d.readPos + (st.pending.take len).length := uadd_eq (by omega)
  have hdrop : (st.pending.drop len).length
      = st.pending.length - (st.pending.take len).length := by
    simp only [List.length_drop, List.length_take]; omega
  have hsame : st.pending.drop (st.pending.take len).length = st.pending.drop len := by
    rw [List.length_take]
    rcases Nat.le_total len st.pending.length with hl | hl
    · rw [Nat.min_eq_left hl]
    · rw [Nat.min_eq_right hl, List.drop_length, List.drop_of_length_le hl]
  refine ⟨h.size, by simp only [hadd]; omega, ?_, h.room⟩
  have hcut := congrArg (List.drop (st.pending.take len).length) h.bytes
  rw [Mem.drop_load _ hle, hsame] at hcut
  show d.buffer.load (uadd d.readPos _) _ = _
  rw [hadd, hdrop, hcut]

/-- Both positions at zero: nothing is unread. -/
theorem holds_reset {d : Dev ι} (hz : d.bufferSize = bufLen) (hr : d.readPos = 0) :
    Holds [] { d with writePos := 0 } := ⟨hz, by simp [hr], rfl, Nat.zero_le _⟩

theorem sim_empty {d : Dev ι} (h : Holds [] d) (hw : d.writePos = 0) :
    Sim (Fifo.empty bufLen) d := ⟨h, hw⟩

/-- A read that empties the device restarts it. -/
theorem sim_pop_empty {len : ℕ} (h : Holds [] d) (hw : d.writePos = 0)
    (hlen : st.pending.length ≤ len) : Sim (st.pop len) d := by
  have hdrop : (st.pop len).pending = [] := List.drop_of_length_le hlen
  exact ⟨by rw [hdrop]; exact h, by simp [Fifo.pop, hlen, hw]⟩

/-- A copy from the user changes nothing that is pending. -/
theorem Sim.copied (h : Sim st d) (data : List UInt8) (n : ℕ) (f : Fault) :
    Sim st { d with buffer := (copyFromUser d.buffer d.writePos data n f).1 } :=
  ⟨⟨h.size, h.span, (copyFromUser_before _ data n f h.span.le).trans h.bytes, h.room⟩, h.used⟩

/-- `write_pos += n` appends the copied bytes. -/
theorem Sim.advanceWrite (h : Sim st d) {data : List UInt8}
    (hcopy : d.buffer.load d.writePos (st.take data) = data.take (st.take data)) :
    Sim (st.push data) { d with writePos := uadd d.writePos (st.take data) } := by
  have hs := h.span; have hu := h.used; have h1024 := bufLen_eq
  have hroom := (st.push data).room
  simp only [Fifo.push] at hroom
  have hadd : uadd d.writePos (st.take data) = d.writePos + st.take data := uadd_eq (by omega)
  have hlen : (data.take (st.take data)).length = st.take data := by
    simp only [List.length_take, Fifo.take]; omega
  have hspan : d.readPos + (st.push data).pending.length = d.writePos + st.take data := by
    simp only [Fifo.push, List.length_append, hlen]; omega
  refine ⟨⟨h.size, by rw [hadd]; exact hspan, ?_, by simp only [hadd]; omega⟩, by
    simp only [hadd, Fifo.push]; omega⟩
  simp only [Fifo.push, List.length_append, hlen]
  rw [Mem.load_add, h.bytes, hs, hcopy]

/-! ### The points of the critical sections -/

/-- A read has taken its bytes from the front of the queue. -/
def Taken (st : Fifo bufLen) (len : ℕ) (bytes : List UInt8) : Prop :=
  st.pending ≠ [] ∧ bytes = st.pending.take len

def AtRead (st : Fifo bufLen) (len : ℕ) (d : Dev ι) : ReadPc → Prop
  | .unlockAgain | .unlockWait => Sim st d ∧ st.pending = []
  | .copy | .unlockFault => Sim st d ∧ st.pending ≠ []
  | .advance bytes => Sim st d ∧ Taken st len bytes
  | .checkEmpty bytes =>
    Holds (st.pending.drop len) d ∧ d.writePos = st.used ∧ Taken st len bytes
  | .resetRead bytes => d.bufferSize = bufLen ∧ st.pending.length ≤ len ∧ Taken st len bytes
  | .resetWrite bytes =>
    d.bufferSize = bufLen ∧ d.readPos = 0 ∧ st.pending.length ≤ len ∧ Taken st len bytes
  | .unlock bytes => Sim (st.pop len) d ∧ Taken st len bytes
  | _ => Sim st d

def AtWrite (st : Fifo bufLen) (data : List UInt8) (d : Dev ι) : WritePc → Prop
  | .lock | .wake _ _ | .checkFull => Sim st d
  | .resetRead => Sim st d ∧ st.used = bufLen
  | .resetWrite lost =>
    d.bufferSize = bufLen ∧ d.readPos = 0 ∧ st.used = bufLen ∧ lost = st.pending
  | .copy lost | .unlockFault lost => Sim st.makeRoom d ∧ lost.getD [] = st.lost
  | .advance lost n => Sim st.makeRoom d ∧ lost.getD [] = st.lost ∧ n = st.makeRoom.take data ∧
    d.buffer.load d.writePos n = data.take n
  | .unlock lost n =>
    Sim (st.makeRoom.push data) d ∧ lost.getD [] = st.lost ∧ n = st.makeRoom.take data

/-- What a process at point `k` has of the device, when the settled calls led to `st`. -/
def At (st : Fifo bufLen) (d : Dev ι) : Pc → Prop
  | .devRead _ len k => AtRead st len d k
  | .devWrite data k => AtWrite st data d k
  | _ => Sim st d

/-- The abstract device takes the call that an event settles, if it settles one. -/
def Takes (st : Fifo bufLen) (e : Act) (st' : Fifo bufLen) : Prop :=
  match e with
  | .settle o => st.step o = some st'
  | _ => st' = st

theorem At.outside {k : Pc} (hk : k.holds = false) (h : Sim st d) : At st d k := by
  cases k with
  | devRead nb len k => cases k <;> simp_all [At, AtRead, Pc.holds, ReadPc.holds]
  | devWrite data k => cases k <;> simp_all [At, AtWrite, Pc.holds, WritePc.holds]
  | _ => exact h

theorem At.sim {k : Pc} (hk : k.holds = false) (h : At st d k) : Sim st d := by
  cases k with
  | devRead nb len k => cases k <;> simp_all [At, AtRead, Pc.holds, ReadPc.holds]
  | devWrite data k => cases k <;> simp_all [At, AtWrite, Pc.holds, WritePc.holds]
  | _ => exact h

/-! ### One step -/

theorem Interrupts.takes {k : Pc} {c : Call} (h : Interrupts k c) :
    Takes st (.settle (interrupted c)) st := by
  cases h <;> simp [Takes, interrupted, Fifo.step, Fifo.exec]

theorem Locks.at {k k' : Pc} (h : Locks drv k k') (ha : At st d k) (l : Option ι) :
    At st { d with lock := l } k' := by
  have hs : Sim st { d with lock := l } := (At.sim h.holds.1 ha).ofLock l
  cases h with
  | devRead => cases drv <;> exact hs
  | _ => exact hs

/-- The bytes a read copied, when none was left. -/
theorem Sim.copiedToUser (h : Sim st d) {len : ℕ} {f : Fault}
    (hleft : (copyToUser d.buffer d.readPos (bytesToRead d len) f).2 = 0) :
    (copyToUser d.buffer d.readPos (bytesToRead d len) f).1 = st.pending.take len := by
  have hz : f.uncopied (bytesToRead d len) = 0 := hleft
  simp only [copyToUser, hz, Nat.sub_zero]
  rw [h.readCount, ← Mem.take_load _ (Nat.min_le_right len _), h.bytes, List.take_eq_take_iff]
  omega

/-- The buffer behind `write_pos` holds the data, when nothing was left of a write's copy. -/
theorem Sim.copiedFromUser (h : Sim st d) {data : List UInt8} {f : Fault}
    (hleft : (copyFromUser d.buffer d.writePos data (bytesToWrite d data) f).2 = 0) :
    (copyFromUser d.buffer d.writePos data (bytesToWrite d data) f).1.load d.writePos
      (bytesToWrite d data) = data.take (bytesToWrite d data) := by
  have hz : f.uncopied (bytesToWrite d data) = 0 := hleft
  have hfit : bytesToWrite d data ≤ data.length := by
    rw [h.writeCount]; exact Nat.min_le_left ..
  have hcopy := copyFromUser_prefix d.buffer d.writePos f hfit
  simpa [hz] using hcopy

/-- Every step carries the assertion along. -/
theorem Step.at {k : Pc} (h : Step drv p g d k d' k' e) (ha : At st d k) :
    ∃ st', Takes st e st' ∧ At st' d' k' := by
  cases h with
  | enter => exact ⟨st, rfl, At.outside (enter_holds _) ha⟩
  | lock hl => exact ⟨st, rfl, hl.at ha _⟩
  | interrupt hi => exact ⟨st, hi.takes, At.sim hi.holds ha⟩
  | @openReaders r w | @releaseReaders r w =>
    have hs : Sim st d := ha
    exact ⟨st, rfl, by cases r <;> exact ⟨⟨hs.size, hs.span, hs.bytes, hs.room⟩, hs.used⟩⟩
  | @openWriters r w | @releaseWriters r w =>
    have hs : Sim st d := ha
    exact ⟨st, rfl, by cases w <;> exact ⟨⟨hs.size, hs.span, hs.bytes, hs.room⟩, hs.used⟩⟩
  | again hd =>
    have hs : Sim st d := ha
    refine ⟨st, rfl, hs, ?_⟩
    by_contra hne
    rw [hs.hasData.mpr hne] at hd
    exact absurd hd (by decide)
  | unlockAgain =>
    obtain ⟨hs, hp⟩ := ha
    exact ⟨st, by simp [Takes, Fifo.step, Fifo.exec, hp], hs.ofLock none⟩
  | loopData hd =>
    have hs : Sim st d := ha
    exact ⟨st, rfl, hs, hs.hasData.mp hd⟩
  | loopWait hd =>
    have hs : Sim st d := ha
    refine ⟨st, rfl, hs, ?_⟩
    by_contra hne
    rw [hs.hasData.mpr hne] at hd
    exact absurd hd (by decide)
  | unlockWait => exact ⟨st, rfl, ha.1.ofLock none⟩
  | copyRead hleft =>
    obtain ⟨hs, hp⟩ := ha
    exact ⟨st, rfl, hs, hp, hs.copiedToUser hleft⟩
  | unlockFaultRead =>
    obtain ⟨hs, hp⟩ := ha
    exact ⟨st, by simp [Takes, Fifo.step, Fifo.exec, hp], hs.ofLock none⟩
  | advanceRead =>
    obtain ⟨hs, hp, rfl⟩ := ha
    exact ⟨st, rfl, hs.advanceRead, hs.used, hp, rfl⟩
  | isEmpty hle =>
    obtain ⟨hh, hu, ht⟩ := ha
    have hspan := hh.span
    rw [List.length_drop] at hspan
    exact ⟨st, rfl, hh.size, by omega, ht⟩
  | @notEmpty nb len bytes hlt =>
    obtain ⟨hh, hu, ht⟩ := ha
    have hspan := hh.span
    rw [List.length_drop] at hspan
    have hrest : ¬ st.pending.length ≤ len := by omega
    exact ⟨st, rfl, ⟨hh, by rw [hu]; simp [Fifo.pop, hrest]⟩, ht⟩
  | emptyRead => exact ⟨st, rfl, ha.1, rfl, ha.2⟩
  | emptyWrite =>
    obtain ⟨hz, hr, hlen, ht⟩ := ha
    exact ⟨st, rfl, sim_pop_empty (holds_reset hz hr) rfl hlen, ht⟩
  | @unlockRead nb len bytes =>
    obtain ⟨hs, hp, rfl⟩ := ha
    exact ⟨st.pop len, by simp [Takes, Fifo.step, Fifo.exec, hp], hs.ofLock none⟩
  | isFull hsp =>
    have hs : Sim st d := ha
    refine ⟨st, rfl, hs, ?_⟩
    by_contra hne
    rw [hs.hasSpace.mpr hne] at hsp
    exact absurd hsp (by decide)
  | hasRoom hsp =>
    have hs : Sim st d := ha
    have hne := hs.hasSpace.mp hsp
    refine ⟨st, rfl, ?_, (Fifo.lost_of_room hne).symm⟩
    rw [Fifo.makeRoom_of_room hne]
    exact hs
  | fullRead => exact ⟨st, rfl, ha.1.size, rfl, ha.2, ha.1.unread⟩
  | fullWrite =>
    obtain ⟨hz, hr, hfull, rfl⟩ := ha
    refine ⟨st, rfl, ?_, (Fifo.lost_of_full hfull).symm⟩
    rw [Fifo.makeRoom_of_full hfull]
    exact sim_empty (holds_reset hz hr) rfl
  | copyWrite hleft =>
    obtain ⟨hs, hl⟩ := ha
    exact ⟨st, rfl, hs.copied _ _ _, hl, hs.writeCount _, hs.copiedFromUser hleft⟩
  | faultWrite =>
    obtain ⟨hs, hl⟩ := ha
    exact ⟨st, rfl, hs.copied _ _ _, hl⟩
  | unlockFaultWrite =>
    obtain ⟨hs, hl⟩ := ha
    exact ⟨st.makeRoom, by simp [Takes, Fifo.step, Fifo.exec, hl], hs.ofLock none⟩
  | advanceWrite =>
    obtain ⟨hs, hl, rfl, hcopy⟩ := ha
    exact ⟨st, rfl, hs.advanceWrite hcopy, hl, rfl⟩
  | @unlockWrite data lost n =>
    obtain ⟨hs, hl, rfl⟩ := ha
    exact ⟨st.makeRoom.push data, by simp [Takes, Fifo.step, Fifo.exec, hl], hs.ofLock none⟩
  | unlockOpen | unlockRelease | unlockPoll =>
    have hs : Sim st d := ha
    exact ⟨st, rfl, hs.ofLock none⟩
  | _ => exact ⟨st, rfl, ha⟩

/-- Hearing an event does not change what a process has of the device. -/
theorem Heard.at {k : Pc} (h : Heard k k') (ha : At st d k) : At st d k' := by
  cases h <;> exact ha

/-! ### Every run -/

/-- A step without the lock settles nothing that the abstract device would notice. -/
theorem Step.aside {k : Pc} (h : Step drv p g d k d' k' e) (hk : k.holds = false)
    (hk' : k'.holds = false) (st : Fifo bufLen) : Takes st e st := by
  cases h with
  | lock hl => exact absurd (hl.holds.2.symm.trans hk') (by decide)
  | interrupt hi => exact hi.takes
  | unlockAgain | unlockFaultRead | unlockRead | unlockFaultWrite | unlockWrite =>
    exact absurd hk (by simp [Pc.holds, ReadPc.holds, WritePc.holds])
  | _ => rfl

theorem replay_takes {st' : Fifo bufLen} {tr : List (ι × Act)}
    (h : (Fifo.empty bufLen).replay (settled tr) = some st) (ht : Takes st e st') :
    (Fifo.empty bufLen).replay (settled (tr ++ [(p, e)])) = some st' := by
  rw [settled_append, show settled [(p, e)] = settles [e] from rfl]
  cases e with
  | settle o => exact Fifo.replay_concat h ht
  | _ =>
    rw [show settles [_] = [] from rfl, List.append_nil, h]
    exact congrArg some (Eq.symm ht)

/-- The settled calls replay to a state that the device is in, as far as the holder of the lock
    left it. -/
def Follows (o : Option Pc) (tr : List (ι × Act)) (d : Dev ι) : Prop :=
  ∃ st : Fifo bufLen, (Fifo.empty bufLen).replay (settled tr) = some st ∧
    o.elim (Sim st d) (At st d)

theorem sim_loaded : Sim (Fifo.empty bufLen) (chardevInit ι) :=
  ⟨⟨rfl, rfl, rfl, Nat.zero_le _⟩, rfl⟩

variable [DecidableEq ι] {ok : ι → Choice → Conf ι (Dev ι) Pc → Prop}
variable {tr : List (ι × Act)} {c : Conf ι (Dev ι) Pc}

/-- In every run the device follows the abstract one. -/
theorem follows_run (hrun : (fops ι drv).Run ok (loaded ι) tr c) :
    Follows (Mutex.owner Dev.lock c) tr c.shared := by
  refine (mutex drv).guarded hrun rfl (fun _ => rfl) ⟨Fifo.empty bufLen, rfl, sim_loaded⟩ ?_ ?_ ?_
  · rintro p g s k s' k' e tr hn - ⟨st, hrep, hs⟩
    have hat : At st s k := by
      cases hk : k.holds
      · rw [Mutex.held_neg hk] at hs; exact At.outside hk hs
      · rw [Mutex.held_pos hk] at hs; exact hs
    obtain ⟨st', ht, hat'⟩ := (Step.of_next hn).at hat
    refine ⟨st', replay_takes hrep ht, ?_⟩
    cases hk : k'.holds
    · rw [Mutex.held_neg hk]; exact At.sim hk hat'
    · rw [Mutex.held_pos hk]; exact hat'
  · rintro p g s k k' e o tr hn hk hk' ⟨st, hrep, hs⟩
    exact ⟨st, replay_takes hrep ((Step.of_next hn).aside hk hk' st), hs⟩
  · rintro e k tr s ⟨st, hrep, hs⟩
    exact ⟨st, hrep, (heard drv e k).at hs⟩

end Ldd.Stream

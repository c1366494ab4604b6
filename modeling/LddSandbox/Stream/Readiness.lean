import LddSandbox.Stream.Within

/-! What `dev_poll` tells, and what `dev_read` and `dev_write` then do (`07-char-dev-poll`).

    A call that takes the lock finds the stream that a poll at that moment reports on: a read with
    `O_NONBLOCK` fails with `-EAGAIN` exactly without `POLLIN` (`nonblocking_read`), a write keeps
    what is unread exactly with `POLLOUT` (`pollout_write`). -/

namespace Ldd.Stream
open Ldd.Schemes Ldd.Kernel

variable {ι : Type}

/-- A `dev_poll` that takes the lock in `c` returns `mask`. -/
def PollReturns [DecidableEq ι] (c : Conf ι (Dev ι) Pc) (mask : Events) : Prop :=
  ∀ q ev t e c', c.pc q = .devPoll ev t .lock →
    CriticalSection (fops ι .charDevPoll) anyStep Dev.lock q c e c' →
    ∃ t', c'.pc q = .devPoll ev t' (.sleep mask)

/-- The mask as far as it is computed. -/
def PollPc.Tells (mask : Events) : PollPc → Prop
  | .checkRead => True
  | .checkWrite readable => readable = mask.pollin
  | .unlock m => m = mask
  | _ => False

def ReadPc.Wakeful (d : Dev ι) (nonblock : Bool) : ReadPc → Prop
  | .loop => nonblock = true → d.hasData = true
  | .unlockWait | .wait _ | .relock => nonblock = false
  | _ => True

/-- A read with `O_NONBLOCK` is not on its way to sleep. -/
def Wakeful (d : Dev ι) : Pc → Prop
  | .devRead nonblock _ k => k.Wakeful d nonblock
  | _ => True

variable {drv : Driver} {p : ι} {g : Choice} {d d' : Dev ι} {k k' : Pc} {e : Act}

/-! ### One step of a poll with the lock -/

/-- It leaves the device alone, and each test adds its part of the mask. -/
theorem Step.tells {mask : Events} {ev : Events} {t : PollTable} {k : PollPc}
    (h : Step drv p g d (.devPoll ev t k) d' k' e) (hready : d.ready = mask) (htells : k.Tells mask) :
    (k'.holds = true → d'.ready = mask ∧ ∃ k₁, k' = .devPoll ev t k₁ ∧ k₁.Tells mask) ∧
      (k'.holds = false → k' = .devPoll ev t (.sleep mask)) := by
  cases h with
  | lock hl =>
    cases hl
    cases htells
  | interrupt hi => cases hi
  | checkRead =>
    have hin : d.hasData = mask.pollin := congrArg Events.pollin hready
    exact ⟨fun _ => ⟨hready, _, rfl, hin⟩, nofun⟩
  | @checkWrite _ _ readable =>
    have hin : readable = mask.pollin := htells
    have hout : d.hasSpace = mask.pollout := congrArg Events.pollout hready
    refine ⟨fun _ => ⟨hready, _, rfl, ?_⟩, nofun⟩
    rw [hin, hout]
    rfl
  | unlockPoll =>
    obtain rfl : _ = mask := htells
    exact ⟨nofun, fun _ => rfl⟩
  | waitRead | waitWrite | endPoll | pollAgain | pollAsleep | pollSignal => cases htells

theorem Heard.tells {mask : Events} {ev : Events} {t : PollTable} {k : PollPc}
    (h : Heard (.devPoll ev t k) k') (htells : k.Tells mask) :
    ∃ t' k₁, k' = .devPoll ev t' k₁ ∧ k₁.Tells mask := by
  cases h with
  | same => exact ⟨_, _, rfl, htells⟩
  | poll => exact ⟨_, _, rfl, htells⟩
  | pollAgain => cases htells

/-! ### One step of a read with `O_NONBLOCK` -/

theorem Heard.wakeful (hk : Heard k k') (h : Wakeful d k) : Wakeful d k' := by
  cases hk with
  | same => exact h
  | wait => exact h
  | _ => trivial

/-- Without the lock it does not depend on the device. -/
theorem Wakeful.outside (h : Wakeful d k) (hk : k.holds = false) (d' : Dev ι) : Wakeful d' k := by
  cases k with
  | devRead nb len k =>
    cases k with
    | loop => cases hk
    | _ => exact h
  | _ => trivial

theorem wakeful_of_next (hn : (fops ι .charDevPoll).next p g d k = some (d', k', e))
    (h : Wakeful d k) : Wakeful d' k' := by
  cases Step.of_next hn with
  | enter => cases g.call <;> trivial
  | lock hl =>
    cases hl with
    | @relock nb =>
      intro hnb
      exact absurd (hnb.symm.trans h) (by decide)
    | _ => trivial
  | @goOn nb =>
    rintro rfl
    exact hasData_of_goOn hn
  | @loopWait nb len hd =>
    refine Bool.eq_false_iff.mpr fun hnb => ?_
    exact absurd (hd.symm.trans (h hnb)) (by decide)
  | unlockWait | enqueue | testData | testSleep | woken | fallAsleep | lookAgain => exact h
  | _ => trivial

/-- It gives up the lock only with an outcome. -/
theorem Unlocks.settles_of_wakeful {len : ℕ} (h : Unlocks k e k') (hw : Wakeful d k)
    (hcall : Stream.current k = [.devRead true len]) : e ≠ .tau := by
  cases h with
  | @wait nb =>
    obtain rfl : nb = true := (Call.devRead.inj (List.singleton_inj.mp hcall)).1
    cases hw
  | devOpen | devRelease | poll => cases hcall
  | _ => nofun

variable [DecidableEq ι] {ok : ι → Choice → Conf ι (Dev ι) Pc → Prop}
variable {tr : List (ι × Act)} {c c' : Conf ι (Dev ι) Pc} {st : Fifo bufLen}

/-! ### What a poll reports -/

/-- A poll returns what the device is ready for when it takes the lock. -/
theorem poll_returns (hrun : (fops ι .charDevPoll).Run anyStep (loaded ι) tr c) :
    PollReturns c c.shared.ready := by
  rintro q ev t e c' hq ⟨tr', c₁, g, hin, -, hf, hl⟩
  have htold : c₁.shared.ready = c.shared.ready ∧ ∃ t' k, c₁.pc q = .devPoll ev t' k ∧
      k.Tells c.shared.ready := by
    refine hin.carries (mutex .charDevPoll) (B := fun k d => d.ready = c.shared.ready ∧
      ∃ t' k', k = .devPoll ev t' k' ∧ k'.Tells c.shared.ready) (holder hrun) ?_ ?_ ?_
    · intro g s' k' e _ hn hk'
      rw [hq] at hn
      cases Step.of_next hn with
      | lock hl =>
        cases hl
        exact ⟨rfl, t, _, rfl, trivial⟩
      | interrupt hi => cases hi
    · rintro g ⟨d, pc⟩ s' k' e _ hn - hk' ⟨hready, t', k, hk, htells⟩
      simp only at hn hk hready
      rw [hk] at hn
      obtain ⟨hready', k₁, hk₁, htells'⟩ := ((Step.of_next hn).tells hready htells).1 hk'
      exact ⟨hready', t', k₁, hk₁, htells'⟩
    · rintro e k d ⟨hready, t', k', rfl, htells⟩
      exact ⟨hready, (heard (ι := ι) .charDevPoll e _).tells htells⟩
  obtain ⟨hready, t', k, hk, htells⟩ := htold
  have hn := (Program.fire_spec hf).1
  have hout := outside ((within_run hrun hin).step trivial hf) hl q
  rw [hk] at hn
  exact ⟨t', ((Step.of_next hn).tells hready htells).2 hout⟩

/-! ### Reads that do not block -/

/-- No read with `O_NONBLOCK` comes near the wait. -/
theorem wakeful_run (hrun : (fops ι .charDevPoll).Run anyStep (loaded ι) tr c) (r : ι) :
    Wakeful c.shared (c.pc r) := by
  induction hrun generalizing r with
  | start => trivial
  | @step tr c p g e c' hpre hok hf ih =>
    obtain ⟨hn, hothers⟩ := Program.fire_spec hf
    rcases eq_or_ne r p with rfl | hr
    · exact wakeful_of_next hn (ih r)
    · have hheard := heard (ι := ι) .charDevPoll e (c.pc r)
      rw [hothers r hr]
      cases hk : (c.pc r).holds with
      | false => exact (hheard.wakeful (ih r)).outside (hheard.holds.trans hk) _
      | true =>
        -- the others change nothing while the read has the lock
        have hlock := (holder hpre r).mp hk
        have hother : c.shared.lock ≠ some p := by
          rw [hlock]
          exact fun heq => hr (Option.some.inj heq)
        have hout := outside_of_ne hpre hother
        rw [Inside.beside (mutex .charDevPoll) hn hout hlock]
        exact hheard.wakeful (ih r)

/-- How a read of `len` bytes with `O_NONBLOCK` ends that takes the lock in `c`. -/
structure NonblockEnds (c : Conf ι (Dev ι) Pc) (len : ℕ) (o : Outcome) : Prop where
  call : o.call = .devRead true len
  again : o.ret = -EAGAIN ↔ c.shared.unread = []
  pollin : o.ret = -EAGAIN ↔ c.shared.ready.pollin = false
  copies : o.ret ≠ -EAGAIN → o.fate = .fault ∧ o.ret = -EFAULT ∨
    o.fate = .done ∧ o.ret = (min len c.shared.unread.length : ℕ) ∧ o.bytes = c.shared.unread.take len

theorem nonblock_ends (hrun : (fops ι .charDevPoll).Run anyStep (loaded ι) tr c) {len : ℕ}
    (hp : c.pc p = .devRead true len .lock) (hs : Sim st c.shared)
    (h : CriticalSection (fops ι .charDevPoll) ok Dev.lock p c e c') :
    ∃ o, e = .settle o ∧ NonblockEnds c len o := by
  have hcall : current (c.pc p) = [.devRead true len] := by rw [hp]; rfl
  have hunread : c.shared.unread = st.pending := hs.unread
  have hready : c.shared.ready.pollin = false ↔ st.pending = [] := by
    rw [← Bool.not_eq_true, show c.shared.ready.pollin = c.shared.hasData from rfl, hs.hasData,
      not_not]
  obtain ⟨st', hleaves, -⟩ := section_leaves hrun hs h
  rw [hcall] at hleaves
  cases hleaves with
  | read hne =>
    have hcount : ((min len st.pending.length : ℕ) : ℤ) ≠ -EAGAIN :=
      ne_of_gt (lt_of_lt_of_le (show -EAGAIN < 0 by decide) (Int.natCast_nonneg _))
    refine ⟨_, rfl, rfl, iff_of_false hcount ?_, iff_of_false hcount ?_, fun _ => .inr ?_⟩
    · rwa [hunread]
    · rwa [hready]
    · rw [hunread]
      exact ⟨rfl, rfl, rfl⟩
  | readFault hne =>
    have hfault : -EFAULT ≠ -EAGAIN := by decide
    refine ⟨_, rfl, rfl, iff_of_false hfault ?_, iff_of_false hfault ?_, fun _ => .inl ⟨rfl, rfl⟩⟩
    · rwa [hunread]
    · rwa [hready]
  | again hnil =>
    exact ⟨_, rfl, rfl, iff_of_true rfl (hunread.trans hnil), iff_of_true rfl (hready.mpr hnil),
      fun hne => absurd rfl hne⟩
  | wait hnil =>
    obtain ⟨tr₁, c₁, g, hin, -, hf, hl⟩ := h
    have hw := wakeful_run (within_run hrun hin) p
    have hcall₁ := (within_at hrun hs hin).2.trans hcall
    exact absurd rfl ((section_unlocks hrun hin hf hl).1.settles_of_wakeful hw hcall₁)

/-- NON-BLOCKING READS: in every run no read with `O_NONBLOCK` enters the wait. One that takes the
    lock settles its result before it gives the lock up: `-EAGAIN` exactly if nothing is unread,
    which is exactly if a poll at that moment would not return `POLLIN`; otherwise it copies, and
    without a fault returns the number of unread bytes, cut to `len`. -/
theorem nonblocking_read (hrun : (fops ι .charDevPoll).Run anyStep (loaded ι) tr c) :
    (∀ r len w, c.pc r ≠ .devRead true len (.wait w)) ∧ PollReturns c c.shared.ready ∧
    ∀ p len, c.pc p = .devRead true len .lock → c.shared.lock = none →
      (∃ e c', CriticalSection (fops ι .charDevPoll) (Unfaulted p) Dev.lock p c e c') ∧
      (∀ ok e c', CriticalSection (fops ι .charDevPoll) ok Dev.lock p c e c' →
        ∃ o, e = .settle o ∧ NonblockEnds c len o) ∧
      ∀ o c', CriticalSection (fops ι .charDevPoll) (Unfaulted p) Dev.lock p c (.settle o) c' →
        o.fate ≠ .fault := by
  refine ⟨fun r len w hr => ?_, poll_returns hrun, fun p len hp hl => ⟨?_, ?_, ?_⟩⟩
  · have hw := wakeful_run hrun r
    rw [hr] at hw
    cases hw
  · exact section_ends hrun hl hp .devRead fun _ _ => rfl
  · intro ok e c' h
    obtain ⟨st, -, hsim⟩ := replayed hrun
    exact nonblock_ends hrun hp (hsim hl) h
  · intro o c' h
    exact section_unfaulted hrun h rfl

/-- Process `true` has written three bytes, and `false` begins a read with `O_NONBLOCK`. -/
def nonblockReads : List (Bool × Choice) :=
  calls true { call := .devWrite [7, 8, 9] } 7 ++ calls false { call := .devRead true 2 } 0

theorem nonblockReads_runs :
    ((fops Bool .charDevPoll).exec anyway nonblockReads (loaded Bool)).isSome = true := by
  decide +kernel

/-- The run of `nonblockReads`. -/
def nonblockReadsRun : List (Bool × Act) × Conf Bool (Dev Bool) Pc :=
  ((fops Bool .charDevPoll).exec anyway nonblockReads (loaded Bool)).get nonblockReads_runs

theorem nonblocking_read_nonblockReads : nonblockReadsRun.2.shared.unread = [7, 8, 9] ∧
    ∃ e c', CriticalSection (fops Bool .charDevPoll) (Unfaulted false) Dev.lock false
      nonblockReadsRun.2 e c' :=
  ⟨by decide +kernel,
    ((nonblocking_read (Program.Run.of_exec anyway_any nonblockReads_runs)).2.2 false 2
      (by decide +kernel) (by decide +kernel)).1⟩

/-! ### Writes -/

/-- How a write of `data` goes that takes the lock in `c` and does not fault: with `POLLOUT` it
    appends what fits behind the unread bytes; without, it discards them and starts over. -/
structure WriteEnds (c : Conf ι (Dev ι) Pc) (data : List UInt8) (e : Act)
    (c' : Conf ι (Dev ι) Pc) : Prop where
  pollout : c.shared.ready.pollout = true → ∃ n : ℕ, 0 < n ∧
    n = min data.length (c.shared.bufferSize - c.shared.writePos) ∧
    e = .settle ⟨.devWrite data, .done, n, [], []⟩ ∧
    c'.shared.unread = c.shared.unread ++ data.take n
  full : c.shared.ready.pollout = false → ∃ n : ℕ, 0 < n ∧
    n = min data.length c.shared.bufferSize ∧
    e = .settle ⟨.devWrite data, .done, n, [], c.shared.unread⟩ ∧ c'.shared.unread = data.take n

theorem write_ends (hrun : (fops ι .charDevPoll).Run anyStep (loaded ι) tr c) {data : List UInt8}
    (hp : c.pc p = .devWrite data .lock) (hdata : data ≠ [])
    (h : CriticalSection (fops ι .charDevPoll) (Unfaulted p) Dev.lock p c e c') :
    WriteEnds c data e c' := by
  obtain ⟨st, -, hsim⟩ := replayed hrun
  have hs : Sim st c.shared := hsim h.free
  have hready : c.shared.ready.pollout = true ↔ st.used ≠ bufLen := hs.hasSpace
  have hcall : current (c.pc p) = [.devWrite data] := by rw [hp]; rfl
  obtain ⟨st', hleaves, hs'⟩ := section_leaves hrun hs h
  rw [hcall] at hleaves
  cases hleaves with
  | writeFault => exact absurd rfl (section_unfaulted hrun h rfl)
  | write =>
    have hunread := hs'.unread
    refine ⟨fun hout => ?_, fun hfull => ?_⟩
    · have hused := hready.mp hout
      have hmake := Fifo.makeRoom_of_room hused
      have hlost := Fifo.lost_of_room hused
      have hless := lt_of_le_of_ne st.room hused
      refine ⟨st.take data, Fifo.take_pos hless hdata, ?_, ?_, ?_⟩
      · rw [hs.size, hs.used]
        rfl
      · rw [hmake, hlost]
      · rw [hunread, hs.unread, hmake]
        rfl
    · have hused : st.used = bufLen := by
        by_contra hne
        rw [hready.mpr hne] at hfull
        cases hfull
      have hmake := Fifo.makeRoom_of_full hused
      have hlost := Fifo.lost_of_full hused
      have hempty : (Fifo.empty bufLen).used < bufLen := by decide
      refine ⟨(Fifo.empty bufLen).take data, Fifo.take_pos hempty hdata, ?_, ?_, ?_⟩
      · rw [hs.size]
        rfl
      · rw [hmake, hlost, hs.unread]
      · rw [hunread, hmake]
        exact List.nil_append _

/-- POLLOUT AND WRITES: a write of some bytes that takes the lock, and whose copy does not fault,
    accepts at least one byte. It discards no unread byte if a poll at that moment would return
    `POLLOUT`; if not, the buffer is full, and the write starts it over, which discards all that is
    unread. -/
theorem pollout_write (hrun : (fops ι .charDevPoll).Run anyStep (loaded ι) tr c)
    (hl : c.shared.lock = none) :
    PollReturns c c.shared.ready ∧
      (c.shared.ready.pollout = false ↔ c.shared.writePos = c.shared.bufferSize) ∧
      ∀ p data, c.pc p = .devWrite data .lock → data ≠ [] →
        (∃ e c', CriticalSection (fops ι .charDevPoll) (Unfaulted p) Dev.lock p c e c') ∧
        ∀ e c', CriticalSection (fops ι .charDevPoll) (Unfaulted p) Dev.lock p c e c' →
          WriteEnds c data e c' := by
  obtain ⟨st, -, hsim⟩ := replayed hrun
  have hroom := (hsim hl).room
  have hsize := (hsim hl).size
  refine ⟨poll_returns hrun, ?_, fun p data hp hdata => ⟨?_, fun e c' h => ?_⟩⟩
  · rw [show c.shared.ready.pollout = c.shared.hasSpace from rfl, Dev.hasSpace,
      decide_eq_false_iff_not]
    omega
  · exact section_ends hrun hl hp .devWrite fun _ _ => rfl
  · exact write_ends hrun hp hdata h

/-- Process `true` has filled the buffer, and `false` begins a write of one byte. -/
def writesFull : List (Bool × Choice) :=
  calls true { call := .devWrite (List.replicate bufLen 0) } 7 ++
  calls false { call := .devWrite [1] } 0

theorem writesFull_runs (drv : Driver) :
    ((fops Bool drv).exec anyway writesFull (loaded Bool)).isSome = true := by
  cases drv <;> decide +kernel

/-- The run of `writesFull`. -/
def writesFullRun (drv : Driver) : List (Bool × Act) × Conf Bool (Dev Bool) Pc :=
  ((fops Bool drv).exec anyway writesFull (loaded Bool)).get (writesFull_runs drv)

theorem pollout_write_writesFull : (writesFullRun .charDevPoll).2.shared.ready.pollout = false ∧
    ∃ e c', CriticalSection (fops Bool .charDevPoll) (Unfaulted false) Dev.lock false
      (writesFullRun .charDevPoll).2 e c' :=
  ⟨by decide +kernel,
    ((pollout_write (Program.Run.of_exec anyway_any (writesFull_runs .charDevPoll))
      (by decide +kernel)).2.2 false [1] (by decide +kernel) (by decide)).1⟩

/-- `POLLOUT` and `dev_write` agree: with it a write accepts some bytes and discards none, without
    it a write accepts nothing. -/
def PolloutAgrees (ι : Type) [DecidableEq ι] : Prop :=
  ∀ (tr : List (ι × Act)) (c : Conf ι (Dev ι) Pc) (p : ι) (data : List UInt8) (o : Outcome)
    (c' : Conf ι (Dev ι) Pc), (fops ι .charDevPoll).Run anyStep (loaded ι) tr c →
    c.pc p = .devWrite data .lock → data ≠ [] →
    CriticalSection (fops ι .charDevPoll) (Unfaulted p) Dev.lock p c (.settle o) c' →
    (c.shared.ready.pollout = true → o.accepted ≠ [] ∧ o.lost = []) ∧
      (c.shared.ready.pollout = false → o.accepted = [])

theorem full_accepts {data : List UInt8} (hrun : (fops ι .charDevPoll).Run anyStep (loaded ι) tr c)
    (hl : c.shared.lock = none) (hp : c.pc p = .devWrite data .lock) (hdata : data ≠ [])
    (hfull : c.shared.ready.pollout = false) : ¬ PolloutAgrees ι := by
  intro h
  have hquiet : ∀ c : Conf ι (Dev ι) Pc, Unfaulted p p {} c := fun _ _ => rfl
  obtain ⟨e, c', hsec⟩ := section_ends hrun hl hp .devWrite hquiet
  obtain ⟨n, hpos, -, rfl, -⟩ := (write_ends hrun hp hdata hsec).full hfull
  have hnone := (h tr c p data _ c' hrun hp hdata hsec).2 hfull
  have hlen := List.length_pos_of_ne_nil hdata
  have htake : data.take n = [] := by simpa [Outcome.accepted, hpos] using hnone
  rcases List.take_eq_nil_iff.mp htake with h0 | h0
  · exact absurd h0 hpos.ne'
  · exact hdata h0

theorem not_pollout_agrees : ¬ PolloutAgrees Bool := by
  have hrun : (fops Bool .charDevPoll).Run anyStep (loaded Bool) (writesFullRun .charDevPoll).1
      (writesFullRun .charDevPoll).2 := Program.Run.of_exec anyway_any (writesFull_runs .charDevPoll)
  have hp : (writesFullRun .charDevPoll).2.pc false = .devWrite [1] .lock := by decide +kernel
  exact full_accepts hrun (by decide +kernel) hp (by decide) (by decide +kernel)

end Ldd.Stream

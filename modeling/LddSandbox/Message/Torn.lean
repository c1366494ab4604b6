import LddSandbox.Message.Race

/-! The writers of `04-char-dev-ioctl` and `05-char-dev-auto-node` run without a lock too. A
    `dev_write` copies its bytes, stores the size, stores the terminator, and returns the size as
    it finds it then; any number of others may do so in between.

        p:  copy ─────────────────────────────────▶ storeSize ▶ terminate ▶ ret
        q:         copy ▶ storeSize ▶ terminate ▶ ret               buffer of q, size of p

    A write that copies, while another has copied a different number of bytes and not returned, can
    make that one return the wrong number (`misreturns`). Without such a copy the message is the one
    copied last, and every write returns its own count (`writes_untorn`). -/

namespace Ldd.Message.Race
open Ldd.Schemes Ldd.Kernel

/-- A `dev_write` that has returned: the bytes it accepted, and its value. -/
structure Written where
  accepted : List UInt8
  ret : ℤ
  deriving DecidableEq, Repr

/-- The write that a step completes. -/
def completes : Pc → Act → Option Written
  | .devWrite data (.ret n), .wrote ret => some ⟨data.take n.toNat, ret⟩
  | _, _ => none

/-- The driver, with the writes it completes as its events. -/
def writers (ι : Type) (drv : Driver) : Program ι Shared Pc Choice (Option Written) where
  next p g s k := ((fops ι drv).next p g s k).map fun x => (x.1, x.2.1, completes k x.2.2)
  hear _ k := k

/-- The calls are `dev_write`s. -/
def OnlyWrites {ι : Type} (p : ι) (g : Choice) (c : Conf ι Shared Pc) : Prop :=
  c.pc p = .idle → ∃ data, g.call = .devWrite data

/-- The writes that a run has completed. -/
def completed {ι : Type} (tr : List (ι × Option Written)) : List Written := tr.filterMap Prod.snd

/-! ### What holds, and when -/

/-- No write is torn: with none in progress, the message is what one of them accepted, and each
    returned the number of its own bytes. -/
structure Untorn {ι : Type} (tr : List (ι × Option Written)) (c : Conf ι Shared Pc) : Prop where
  message : (∀ r, c.pc r = .idle) → completed tr ≠ [] →
    ∃ w ∈ completed tr, c.shared.buffer.load 0 c.shared.bufferSize.toNat = w.accepted
  rets : ∀ w ∈ completed tr, w.ret = w.accepted.length

/-- The bytes that a write has copied, until it returns. -/
def Pc.accepted : Pc → Option (List UInt8)
  | .devWrite data (.storeSize n) | .devWrite data (.terminate n) | .devWrite data (.ret n) =>
    some (data.take n.toNat)
  | _ => none

/-- A write copies only as many bytes as each write that has copied and not returned. -/
def SameLength {ι : Type} (p : ι) (g : Choice) (c : Conf ι Shared Pc) : Prop :=
  ∀ data, c.pc p = .devWrite data .copy → ∀ r bytes, (c.pc r).accepted = some bytes →
    bytes.length = Msg.kept bufLen data g.fault

/-- The runs of writes of one length at a time. -/
structure Alike {ι : Type} (p : ι) (g : Choice) (c : Conf ι Shared Pc) : Prop where
  only : OnlyWrites p g c
  length : SameLength p g c

variable {ι : Type} {drv : Driver} {p : ι} {g : Choice} {s s' : Shared} {k k' : Pc}
variable {e : Option Written} {data : List UInt8}

/-! ### One step -/

/-- A process that writes, or does nothing; the number it has noted is that of its bytes. -/
def Pc.Counts : Pc → Prop
  | .idle | .devWrite _ .copy => True
  | .devWrite data (.storeSize n) | .devWrite data (.terminate n) | .devWrite data (.ret n) =>
    n = (data.take n.toNat).length ∧ n ≤ (bufLen - 1 : ℕ)
  | _ => False

/-- The steps of a writer. -/
inductive Writes (g : Choice) (s : Shared) : Pc → Shared → Pc → Option Written → Prop
  | enter (data : List UInt8) : Writes g s .idle s (.devWrite data .copy) none
  | copy (data : List UInt8) : Writes g s (.devWrite data .copy)
      { s with buffer := (copyFromUser s.buffer 0 data (min data.length (bufLen - 1)) g.fault).1 }
      (.devWrite data (.storeSize (Msg.kept bufLen data g.fault))) none
  | storeSize (data : List UInt8) (n : ℤ) : Writes g s (.devWrite data (.storeSize n))
      { s with bufferSize := n } (.devWrite data (.terminate n)) none
  | terminate (data : List UInt8) (n : ℤ) : Writes g s (.devWrite data (.terminate n))
      { s with buffer := s.buffer.store s.bufferSize.toNat [0] } (.devWrite data (.ret n)) none
  | ret (data : List UInt8) (n : ℤ) : Writes g s (.devWrite data (.ret n)) s .idle
      (some ⟨data.take n.toNat, s64 s.bufferSize⟩)

/-- The step of the copy, with the numbers as they are. -/
theorem devWrite_copy (g : Choice) (s : Shared) (data : List UInt8) :
    devWrite g s data .copy =
      ({ s with buffer := (copyFromUser s.buffer 0 data (min data.length (bufLen - 1)) g.fault).1 },
        .devWrite data (.storeSize (Msg.kept bufLen data g.fault)), .tau) := by
  have hk := Msg.kept_le bufLen data g.fault
  have h256 : bufLen = 256 := rfl
  have hlen : (clampLen bufLen data).toNat = min data.length (bufLen - 1) := by
    rw [clampLen_eq (by decide), Int.toNat_natCast]
  have hn : u64 (clampLen bufLen data - (g.fault.uncopied (clampLen bufLen data).toNat : ℤ)) =
      Msg.kept bufLen data g.fault := by
    rw [clampLen_sub (by decide), u64_id (by omega) (by omega)]
  simp only [devWrite, copyFromUser, hn]
  rw [hlen]

theorem Writes.of_next (hk : k.Counts) (hidle : k = .idle → ∃ data, g.call = .devWrite data)
    (h : (writers ι drv).next p g s k = some (s', k', e)) : Writes g s k s' k' e := by
  simp only [writers, Option.map_eq_some_iff] at h
  obtain ⟨⟨s₁, k₁, a⟩, hnext, heq⟩ := h
  obtain ⟨rfl, rfl, rfl⟩ : s₁ = s' ∧ k₁ = k' ∧ completes k a = e := by simpa using heq
  have hstep := Step.of_next hnext
  cases hstep with
  | enter _ =>
    obtain ⟨data, hcall⟩ := hidle rfl
    rw [hcall]
    exact .enter data
  | @write data k =>
    cases k with
    | copy => rw [devWrite_copy]; exact .copy data
    | storeSize n => exact .storeSize data n
    | terminate n => exact .terminate data n
    | ret n => exact .ret data n
  | reset k => exact hk.elim
  | _ => exact hk.elim

theorem Writes.counts (h : Writes g s k s' k' e) (hk : k.Counts) : k'.Counts := by
  cases h with
  | enter | ret => trivial
  | copy data =>
    have hlen : Msg.kept bufLen data g.fault ≤ data.length :=
      (Nat.sub_le _ _).trans (Nat.min_le_left _ _)
    refine ⟨?_, Int.ofNat_le.mpr (Msg.kept_le bufLen data g.fault)⟩
    rw [Int.toNat_natCast, List.length_take, Nat.min_eq_left hlen]
  | storeSize | terminate => exact hk

/-! ### Every run -/

/-- A write that has stored its size. -/
def Pc.stored : Pc → Prop
  | .devWrite _ (.terminate _) | .devWrite _ (.ret _) => True
  | _ => False

theorem Pc.accepted_of_stored (h : k.stored) : ∃ bytes, k.accepted = some bytes := by
  cases k with
  | devWrite data k =>
    cases k with
    | terminate n => exact ⟨_, rfl⟩
    | ret n => exact ⟨_, rfl⟩
    | _ => exact h.elim
  | _ => exact h.elim

variable {tr tr' : List (ι × Option Written)} {c c' : Conf ι Shared Pc} {a : List UInt8}

/-- The bytes `a` were copied last: they are in the buffer, every write under way has as many, one
    that has stored its size has stored theirs, and their own write is under way or completed. -/
structure Last (tr : List (ι × Option Written)) (c : Conf ι Shared Pc) (a : List UInt8) : Prop where
  bytes : c.shared.buffer.load 0 a.length = a
  lengths : ∀ r bytes, (c.pc r).accepted = some bytes → bytes.length = a.length
  size : ∀ r, (c.pc r).stored → c.shared.bufferSize = a.length
  writer : (∃ r, (c.pc r).accepted = some a) ∨
    (∃ w ∈ completed tr, w.accepted = a) ∧ c.shared.bufferSize = a.length

/-- The invariant of the writers. -/
structure Sound (tr : List (ι × Option Written)) (c : Conf ι Shared Pc) : Prop where
  counts : ∀ r, (c.pc r).Counts
  rets : ∀ w ∈ completed tr, w.ret = w.accepted.length
  last : (completed tr = [] ∧ ∀ r, (c.pc r).accepted = none) ∨ ∃ a, Last tr c a

theorem completed_none (tr : List (ι × Option Written)) (p : ι) :
    completed (tr ++ [(p, none)]) = completed tr := by
  simp [completed, List.filterMap_append]

theorem completed_some (tr : List (ι × Option Written)) (p : ι) (w : Written) :
    completed (tr ++ [(p, some w)]) = completed tr ++ [w] := by
  simp [completed, List.filterMap_append]

/-- What was copied last stays so, as long as no write begins or ends. -/
theorem Last.keep (h : Last tr c a) (hacc : ∀ r, (c'.pc r).accepted = (c.pc r).accepted)
    (hdone : completed tr' = completed tr)
    (hbytes : c'.shared.buffer.load 0 a.length = c.shared.buffer.load 0 a.length)
    (hstored : ∀ r, (c'.pc r).stored → c'.shared.bufferSize = a.length)
    (hsize : c.shared.bufferSize = a.length → c'.shared.bufferSize = a.length) :
    Last tr' c' a := by
  refine ⟨hbytes.trans h.bytes, fun r bytes hr => h.lengths r bytes (hacc r ▸ hr), hstored, ?_⟩
  rcases h.writer with ⟨r, hr⟩ | ⟨hw, heq⟩
  · exact .inl ⟨r, (hacc r).trans hr⟩
  · exact .inr ⟨hdone ▸ hw, hsize heq⟩

/-- A size that fits is the value returned. -/
theorem s64_length {n : ℤ} (h : n = a.length) (hle : n ≤ (bufLen - 1 : ℕ)) :
    s64 n = a.length := by
  have h256 : bufLen = 256 := rfl
  rw [h] at hle ⊢
  exact s64_id (by omega) (by omega)

/-- A copy of as many bytes as all writes under way have is the last one from then on. -/
theorem Sound.copy (h : Sound tr c) {data : List UInt8}
    (hlen : ∀ r bytes, (c.pc r).accepted = some bytes →
      bytes.length = Msg.kept bufLen data g.fault)
    (hshared : c'.shared = { c.shared with
      buffer := (copyFromUser c.shared.buffer 0 data (min data.length (bufLen - 1)) g.fault).1 })
    (hp : c'.pc p = .devWrite data (.storeSize (Msg.kept bufLen data g.fault)))
    (hothers : ∀ r, r ≠ p → c'.pc r = c.pc r) :
    Last tr' c' (data.take (Msg.kept bufLen data g.fault)) := by
  have hkept : Msg.kept bufLen data g.fault ≤ data.length :=
    (Nat.sub_le _ _).trans (Nat.min_le_left _ _)
  have htake : (data.take (Msg.kept bufLen data g.fault)).length = Msg.kept bufLen data g.fault := by
    rw [List.length_take, Nat.min_eq_left hkept]
  have hacc : (c'.pc p).accepted = some (data.take (Msg.kept bufLen data g.fault)) := by
    rw [hp]; simp only [Pc.accepted, Int.toNat_natCast]
  refine ⟨?_, fun r bytes hr => ?_, fun r hr => ?_, .inl ⟨p, hacc⟩⟩
  · rw [htake, hshared]
    exact copyFromUser_prefix _ 0 g.fault (Nat.min_le_left _ _)
  · rw [htake]
    by_cases hrp : r = p
    · subst hrp
      rw [hacc] at hr
      rw [← Option.some.inj hr, htake]
    · exact hlen r bytes (hothers r hrp ▸ hr)
  · have hrp : r ≠ p := by
      rintro rfl
      rw [hp] at hr
      exact hr
    rw [hothers r hrp] at hr
    obtain ⟨bytes, hbytes⟩ := Pc.accepted_of_stored hr
    rcases h.last with ⟨-, hnone⟩ | ⟨a, ha⟩
    · rw [hnone r] at hbytes
      cases hbytes
    · -- the size is that of the bytes copied before, and all writes under way have as many
      rw [htake, hshared]
      show c.shared.bufferSize = _
      rw [ha.size r hr, ← ha.lengths r bytes hbytes, hlen r bytes hbytes]

/-- A step that begins and ends no copy keeps the invariant, if it keeps what was copied last. -/
theorem Sound.keep (h : Sound tr c) (hcounts : ∀ r, (c'.pc r).Counts)
    (hacc : ∀ r, (c'.pc r).accepted = (c.pc r).accepted)
    (hlast : ∀ a, Last tr c a → Last (tr ++ [(p, none)]) c' a) : Sound (tr ++ [(p, none)]) c' := by
  refine ⟨hcounts, by rw [completed_none]; exact h.rets, ?_⟩
  rcases h.last with ⟨hdone, hnone⟩ | ⟨a, ha⟩
  · exact .inl ⟨by rw [completed_none]; exact hdone, fun r => by rw [hacc r]; exact hnone r⟩
  · exact .inr ⟨a, hlast a ha⟩

/-- A write that returns has the bytes of its own length, and its own count. -/
theorem Sound.ret (h : Sound tr c) (hcounts : ∀ r, (c'.pc r).Counts) {n : ℤ}
    (hk : c.pc p = .devWrite data (.ret n)) (hp : c'.pc p = .idle)
    (hothers : ∀ r, r ≠ p → c'.pc r = c.pc r) (hshared : c'.shared = c.shared) :
    Sound (tr ++ [(p, some ⟨data.take n.toNat, s64 c.shared.bufferSize⟩)]) c' := by
  have hacc : (c.pc p).accepted = some (data.take n.toNat) := by rw [hk]; rfl
  obtain ⟨a, ha⟩ : ∃ a, Last tr c a := by
    rcases h.last with ⟨-, hnone⟩ | hlast
    · rw [hnone p] at hacc
      cases hacc
    · exact hlast
  have hsize : c.shared.bufferSize = a.length := ha.size p (by rw [hk]; trivial)
  have hlen : (data.take n.toNat).length = a.length := ha.lengths p _ hacc
  have hcount := h.counts p
  rw [hk] at hcount
  obtain ⟨hn, hle⟩ : n = (data.take n.toNat).length ∧ n ≤ (bufLen - 1 : ℕ) := hcount
  refine ⟨hcounts, fun w hw => ?_, .inr ⟨a, ?_, fun r bytes hr => ?_, fun r hr => ?_, ?_⟩⟩
  · rw [completed_some, List.mem_append, List.mem_singleton] at hw
    rcases hw with hw | rfl
    · exact h.rets w hw
    · rw [hlen] at hn
      exact (s64_length hsize (by rw [hsize, ← hn]; exact hle)).trans (by rw [hlen])
  · rw [hshared]; exact ha.bytes
  · by_cases hrp : r = p
    · subst hrp
      rw [hp] at hr
      cases hr
    · exact ha.lengths r bytes (hothers r hrp ▸ hr)
  · by_cases hrp : r = p
    · subst hrp
      rw [hp] at hr
      exact hr.elim
    · rw [hshared]
      exact ha.size r (hothers r hrp ▸ hr)
  · rw [completed_some, hshared]
    rcases ha.writer with ⟨r, hr⟩ | ⟨⟨w, hw, hwa⟩, -⟩
    · by_cases hrp : r = p
      · -- the write that copied last is the one that returns
        subst hrp
        refine .inr ⟨⟨_, List.mem_append_right _ (List.mem_singleton_self _), ?_⟩, hsize⟩
        exact Option.some.inj (hacc.symm.trans hr)
      · exact .inl ⟨r, by rw [hothers r hrp]; exact hr⟩
    · exact .inr ⟨⟨w, List.mem_append_left _ hw, hwa⟩, hsize⟩

variable [DecidableEq ι]

/-- A step among writes of one length keeps the invariant. -/
theorem Sound.step (h : Sound tr c) (hok : Alike p g c)
    (hf : (writers ι drv).fire p g c = some (e, c')) : Sound (tr ++ [(p, e)]) c' := by
  obtain ⟨hn, hothers⟩ := Program.fire_spec hf
  replace hothers : ∀ r, r ≠ p → c'.pc r = c.pc r := hothers
  have hstep := Writes.of_next (h.counts p) hok.only hn
  have hcounts : ∀ r, (c'.pc r).Counts := by
    intro r
    by_cases hr : r = p
    · subst hr; exact hstep.counts (h.counts r)
    · rw [hothers r hr]; exact h.counts r
  have hkeep : (c'.pc p).accepted = (c.pc p).accepted →
      ∀ r, (c'.pc r).accepted = (c.pc r).accepted := by
    intro hp r
    by_cases hr : r = p
    · subst hr; exact hp
    · rw [hothers r hr]
  generalize hk : c.pc p = k at hstep hkeep
  generalize hk' : c'.pc p = k' at hstep hkeep
  generalize hs' : c'.shared = s' at hstep
  cases hstep with
  | enter data =>
    have hacc := hkeep rfl
    refine h.keep hcounts hacc fun a ha => ha.keep hacc (completed_none ..) (by rw [hs']) ?_ ?_
    · intro r hr
      have hrp : r ≠ p := by rintro rfl; rw [hk'] at hr; exact hr
      rw [hs']; exact ha.size r (hothers r hrp ▸ hr)
    · rw [hs']; exact id
  | copy data =>
    have hlast : Last (tr ++ [(p, none)]) c' _ := h.copy (hok.length data hk) hs' hk' hothers
    exact ⟨hcounts, by rw [completed_none]; exact h.rets, .inr ⟨_, hlast⟩⟩
  | storeSize data n =>
    have hacc := hkeep rfl
    refine h.keep hcounts hacc fun a ha => ?_
    have hcount := h.counts p
    rw [hk] at hcount
    have hlen : (data.take n.toNat).length = a.length := ha.lengths p _ (by rw [hk]; rfl)
    have hsize : c'.shared.bufferSize = a.length := by rw [hs', ← hlen]; exact hcount.1
    exact ha.keep hacc (completed_none ..) (by rw [hs']) (fun _ _ => hsize) fun _ => hsize
  | terminate data n =>
    have hacc := hkeep rfl
    refine h.keep hcounts hacc fun a ha => ?_
    have hsize : c.shared.bufferSize = a.length := ha.size p (by rw [hk]; trivial)
    refine ha.keep hacc (completed_none ..) ?_ (fun _ _ => by rw [hs']; exact hsize) fun _ => by
      rw [hs']; exact hsize
    rw [hs', hsize]
    exact Mem.load_store_before _ _ (by omega)
  | ret data n => exact h.ret hcounts hk hk' hothers hs'

omit [DecidableEq ι] in
theorem sound_loaded (ι : Type) (drv : Driver) : Sound [] (loaded ι drv) :=
  ⟨fun _ => trivial, fun _ hw => absurd hw List.not_mem_nil, .inl ⟨rfl, fun _ => rfl⟩⟩

/-- In every run of writes of one length at a time no write is torn. -/
theorem untorn_run (hrun : (writers ι drv).Run Alike (loaded ι drv) tr c) : Untorn tr c := by
  have h : Sound tr c := hrun.history (sound_loaded ι drv) fun _ _ _ _ _ _ h hok hf => h.step hok hf
  refine ⟨fun hidle hdone => ?_, h.rets⟩
  rcases h.last with ⟨hnone, -⟩ | ⟨a, ha⟩
  · exact absurd hnone hdone
  · rcases ha.writer with ⟨r, hr⟩ | ⟨⟨w, hw, hwa⟩, hsize⟩
    · rw [hidle r] at hr
      cases hr
    · refine ⟨w, hw, ?_⟩
      rw [hsize, Int.toNat_natCast, hwa]
      exact ha.bytes

/-! ### Two lengths at a time -/

/-- A run can go on to a torn write. -/
def Tears (drv : Driver) (tr : List (ι × Option Written)) : Prop :=
  ∃ tr' c', (writers ι drv).Run OnlyWrites (loaded ι drv) (tr ++ tr') c' ∧ ¬ Untorn (tr ++ tr') c'

theorem Tears.before {x : ι × Option Written} (h : Tears drv (tr ++ [x])) : Tears drv tr := by
  obtain ⟨tr', c', hrun, htorn⟩ := h
  rw [List.append_assoc] at hrun htorn
  exact ⟨_, c', hrun, htorn⟩

theorem counts_run (hrun : (writers ι drv).Run OnlyWrites (loaded ι drv) tr c) (r : ι) :
    (c.pc r).Counts := by
  refine hrun.everywhere (L := fun _ k => k.Counts) (fun _ => trivial) ?_ r
  intro p g c s' k' e hall hok hn
  exact ⟨(Writes.of_next (hall p) hok hn).counts (hall p), fun r _ => hall r⟩

/-- A write under way can take its next step. -/
theorem run_write (hrun : (writers ι drv).Run OnlyWrites (loaded ι drv) tr c) {k : WritePc}
    (hk : c.pc p = .devWrite data k) (g : Choice) :
    ∃ c', (writers ι drv).Run OnlyWrites (loaded ι drv)
        (tr ++ [(p, completes (.devWrite data k) (devWrite g c.shared data k).2.2)]) c' ∧
      c'.shared = (devWrite g c.shared data k).1 ∧ c'.pc p = (devWrite g c.shared data k).2.1 ∧
      ∀ r, r ≠ p → c'.pc r = c.pc r := by
  refine ⟨⟨(devWrite g c.shared data k).1,
    fun r => if r = p then (devWrite g c.shared data k).2.1 else c.pc r⟩,
    hrun.step (g := g) ?_ ?_, rfl, if_pos rfl, fun r hr => if_neg hr⟩
  · intro hidle
    rw [hk] at hidle
    cases hidle
  · simp only [Program.fire, writers, fops, hk, Option.map_some]

/-- A write returns the size it finds, be it its own or not. -/
theorem tears_ret (hrun : (writers ι drv).Run OnlyWrites (loaded ι drv) tr c) {m : ℤ}
    (hp : c.pc p = .devWrite data (.ret m)) (hsize : s64 c.shared.bufferSize ≠ m) :
    Tears drv tr := by
  obtain ⟨c', hrun', -⟩ := run_write hrun hp {}
  have hm := counts_run hrun p
  rw [hp] at hm
  refine ⟨_, c', hrun', fun h => hsize ?_⟩
  have hret := h.rets ⟨data.take m.toNat, s64 c.shared.bufferSize⟩ (by
    show _ ∈ completed (tr ++ [(p, some _)])
    rw [completed_some]
    exact List.mem_append_right _ (List.mem_singleton_self _))
  rw [hm.1]
  exact hret

theorem tears_stored (hrun : (writers ι drv).Run OnlyWrites (loaded ι drv) tr c) {m : ℤ}
    (hp : c.pc p = .devWrite data (.terminate m) ∨ c.pc p = .devWrite data (.ret m))
    (hsize : s64 c.shared.bufferSize ≠ m) : Tears drv tr := by
  rcases hp with hp | hp
  · obtain ⟨c', hrun', hshared, hp', -⟩ := run_write hrun hp {}
    refine (tears_ret hrun' hp' ?_).before
    rw [hshared]
    exact hsize
  · exact tears_ret hrun hp hsize

/-- The points of a write that has copied. -/
theorem Pc.accepted_cases {bytes : List UInt8} (hk : k.Counts) (h : k.accepted = some bytes) :
    ∃ data, ∃ m : ℤ, m = bytes.length ∧ (k = .devWrite data (.storeSize m) ∨
      k = .devWrite data (.terminate m) ∨ k = .devWrite data (.ret m)) := by
  cases k with
  | devWrite data k =>
    cases k with
    | copy => cases h
    | storeSize n => obtain rfl := Option.some.inj h; exact ⟨data, n, hk.1, .inl rfl⟩
    | terminate n => obtain rfl := Option.some.inj h; exact ⟨data, n, hk.1, .inr (.inl rfl)⟩
    | ret n => obtain rfl := Option.some.inj h; exact ⟨data, n, hk.1, .inr (.inr rfl)⟩
  | _ => cases h

/-- A write that has copied `n` bytes stores its size over that of another, which then returns it. -/
theorem tears_copied (hrun : (writers ι drv).Run OnlyWrites (loaded ι drv) tr c) {n : ℤ}
    (hp : c.pc p = .devWrite data (.storeSize n)) {r : ι} (hr : r ≠ p) {bytes : List UInt8}
    (hacc : (c.pc r).accepted = some bytes) (hne : s64 n ≠ bytes.length) : Tears drv tr := by
  obtain ⟨data', m, rfl, hcases⟩ := Pc.accepted_cases (counts_run hrun r) hacc
  rcases hcases with hstore | hstored
  · -- first `r` stores its size, then `p`
    obtain ⟨c₁, hrun₁, -, hr₁, hothers₁⟩ := run_write hrun hstore {}
    obtain ⟨c₂, hrun₂, hshared₂, -, hothers₂⟩ := run_write hrun₁ ((hothers₁ p hr.symm).trans hp) {}
    refine (tears_stored hrun₂ (.inl ((hothers₂ r hr).trans hr₁)) ?_).before.before
    rw [hshared₂]
    exact hne
  · obtain ⟨c₁, hrun₁, hshared₁, -, hothers₁⟩ := run_write hrun hp {}
    refine (tears_stored hrun₁ (by rw [hothers₁ r hr]; exact hstored) ?_).before
    rw [hshared₁]
    exact hne

/-- A copy of another length than that of a write under way can be followed by a wrong return. -/
theorem misreturns (hrun : (writers ι drv).Run OnlyWrites (loaded ι drv) tr c)
    (hbad : ¬ SameLength p g c) (hf : (writers ι drv).fire p g c = some (e, c')) :
    Tears drv (tr ++ [(p, e)]) := by
  obtain ⟨data, hp, r, bytes, hacc, hne⟩ : ∃ data, c.pc p = .devWrite data .copy ∧ ∃ r bytes,
      (c.pc r).accepted = some bytes ∧ bytes.length ≠ Msg.kept bufLen data g.fault := by
    simpa only [SameLength, not_forall, exists_prop] using hbad
  have hrp : r ≠ p := by
    rintro rfl
    rw [hp] at hacc
    cases hacc
  have hok : OnlyWrites p g c := by
    intro hidle
    rw [hp] at hidle
    cases hidle
  obtain ⟨hn, hothers⟩ := Program.fire_spec hf
  have hstep := Writes.of_next (counts_run hrun p) hok hn
  rw [hp] at hstep
  generalize hk' : c'.pc p = k' at hstep
  generalize c'.shared = s' at hstep
  cases hstep
  have hkept := Msg.kept_le bufLen data g.fault
  have h256 : bufLen = 256 := rfl
  refine tears_copied (hrun.step hok hf) hk' hrp ((congrArg Pc.accepted (hothers r hrp)).trans hacc) ?_
  rw [s64_id (by omega) (by omega)]
  omega

/-- UNTORN WRITES: in every run of writes where each copies only as many bytes as those that have
    copied and not returned, the message is always that of one completed write and each write
    returns its own count; and any step that copies another number can be followed by steps of
    writes to a state where this fails. -/
theorem writes_untorn (ι : Type) [DecidableEq ι] (drv : Driver) :
    (∀ (tr : List (ι × Option Written)) (c : Conf ι Shared Pc),
      (writers ι drv).Run Alike (loaded ι drv) tr c → Untorn tr c) ∧
    ∀ (tr : List (ι × Option Written)) (c c' : Conf ι Shared Pc) (p : ι) (g : Choice)
      (e : Option Written), (writers ι drv).Run OnlyWrites (loaded ι drv) tr c →
      ¬ SameLength p g c → (writers ι drv).fire p g c = some (e, c') →
      ∃ tr' c'', (writers ι drv).Run OnlyWrites (loaded ι drv) (tr ++ (p, e) :: tr') c'' ∧
        ¬ Untorn (tr ++ (p, e) :: tr') c'' := by
  refine ⟨fun _ _ hrun => untorn_run hrun, fun tr c c' p g e hrun hbad hf => ?_⟩
  obtain ⟨tr', c'', hrun', htorn⟩ := misreturns hrun hbad hf
  rw [List.append_assoc] at hrun' htorn
  exact ⟨tr', c'', hrun', htorn⟩

/-- Process `false` copies four bytes; `true` writes two; `false` goes on to its end. -/
def mixes : List (Bool × Choice) :=
  calls false { call := .devWrite [1, 1, 1, 1] } 1 ++ calls true { call := .devWrite [2, 2] } 4 ++
  moves false 3

/-- As `mixes`, but `true` writes four bytes too. -/
def overlaps : List (Bool × Choice) :=
  calls false { call := .devWrite [1, 1, 1, 1] } 1 ++
  calls true { call := .devWrite [2, 2, 2, 2] } 4 ++ moves false 3

/-- `OnlyWrites` for two processes, as a test. -/
def onlyWrites (p : Bool) (g : Choice) (c : Conf Bool Shared Pc) : Bool :=
  match c.pc p, g.call with
  | .idle, .devWrite _ => true
  | .idle, _ => false
  | _, _ => true

theorem onlyWrites_ok (p : Bool) (g : Choice) (c : Conf Bool Shared Pc)
    (h : onlyWrites p g c = true) : OnlyWrites p g c := by
  intro hidle
  simp only [onlyWrites, hidle] at h
  cases hcall : g.call with
  | devWrite data => exact ⟨data, rfl⟩
  | _ => rw [hcall] at h; cases h

/-- `Alike` for two processes, as a test. -/
def alike (p : Bool) (g : Choice) (c : Conf Bool Shared Pc) : Bool :=
  onlyWrites p g c && match c.pc p with
    | .devWrite data .copy => [false, true].all fun r =>
      (c.pc r).accepted.all fun bytes => bytes.length = Msg.kept bufLen data g.fault
    | _ => true

theorem alike_ok (p : Bool) (g : Choice) (c : Conf Bool Shared Pc) (h : alike p g c = true) :
    Alike p g c := by
  rw [alike, Bool.and_eq_true] at h
  refine ⟨onlyWrites_ok p g c h.1, fun data hp r bytes hr => ?_⟩
  have hall := h.2
  rw [hp] at hall
  have hr' := List.all_eq_true.mp hall r (by cases r <;> decide)
  rw [hr] at hr'
  exact of_decide_eq_true hr'

theorem overlaps_runs : ((writers Bool .charDevIoctl).exec alike overlaps
    (loaded Bool .charDevIoctl)).isSome = true := by
  decide +kernel

theorem writes_untorn_overlaps :
    let r := ((writers Bool .charDevIoctl).exec alike overlaps
      (loaded Bool .charDevIoctl)).get overlaps_runs
    completed r.1 = [⟨[2, 2, 2, 2], 4⟩, ⟨[1, 1, 1, 1], 4⟩] ∧ Untorn r.1 r.2 :=
  ⟨by decide +kernel,
    (writes_untorn Bool .charDevIoctl).1 _ _ (Program.Run.of_exec alike_ok overlaps_runs)⟩

/-- No write is torn, whatever is written. -/
def AlwaysUntorn (drv : Driver) : Prop :=
  ∀ (tr : List (Bool × Option Written)) (c : Conf Bool Shared Pc),
    (writers Bool drv).Run OnlyWrites (loaded Bool drv) tr c → Untorn tr c

theorem mixes_tears {drv : Driver}
    (hrun : ((writers Bool drv).exec onlyWrites mixes (loaded Bool drv)).isSome = true)
    (hidle : ∀ r, (((writers Bool drv).exec onlyWrites mixes (loaded Bool drv)).get hrun).2.pc r =
      .idle)
    (hdone : completed (((writers Bool drv).exec onlyWrites mixes (loaded Bool drv)).get hrun).1 =
      [⟨[2, 2], 2⟩, ⟨[1, 1, 1, 1], 4⟩])
    (hmessage : let s := (((writers Bool drv).exec onlyWrites mixes (loaded Bool drv)).get
      hrun).2.shared
      s.buffer.load 0 s.bufferSize.toNat = [2, 2, 0, 1]) : ¬ AlwaysUntorn drv := by
  intro h
  obtain ⟨w, hw, heq⟩ := (h _ _ (Program.Run.of_exec onlyWrites_ok hrun)).message hidle
    (by rw [hdone]; exact List.cons_ne_nil _ _)
  rw [hdone] at hw
  rw [hmessage] at heq
  rcases List.mem_pair.mp hw with rfl | rfl <;> exact absurd heq (by decide)

theorem not_always_untorn :
    ¬ AlwaysUntorn .charDevIoctl ∧ ¬ AlwaysUntorn (.charDevAutoNode 0) :=
  ⟨mixes_tears (by decide +kernel) (by decide +kernel) (by decide +kernel) (by decide +kernel),
    mixes_tears (by decide +kernel) (by decide +kernel) (by decide +kernel) (by decide +kernel)⟩

end Ldd.Message.Race

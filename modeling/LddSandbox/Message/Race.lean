import LddSandbox.Message.Refine
import LddSandbox.Schemes.Threads

/-! `04-char-dev-ioctl` and `05-char-dev-auto-node` run without a lock. `dev_read` evaluates
    `dev->buffer_size` up to three times, and any number of `dev_write`s (and, in `04`,
    `IOCTL_RESET`s) may store it in between.

        read:   eof ─▶ clampTest ─▶ clampAssign ─▶ copy       each arrow an evaluation of the size
        write:  copy ─▶ storeSize ─▶ terminate ─▶ ret
        reset:  speed ─▶ mode ─▶ storeSize ─▶ clear

    A read that has passed its end-of-file test relies on a size of at least its offset. A store of
    less, before the clamp is assigned, makes the subtraction wrap (`overrun`); without such a
    store every copy stays inside the buffer (`reads_inside`). -/

namespace Ldd.Message.Race
open Ldd.Schemes Ldd.Kernel

/-- `#define BUF_LEN 256`, in both drivers. -/
def bufLen : ℕ := 256

/-- The two drivers; the second has a first message. -/
inductive Driver
  | charDevIoctl
  | charDevAutoNode (index : ℕ)

/-- What the calls share of the device. -/
structure Shared where
  buffer : Mem UInt8
  bufferSize : ℤ

/-- The device as the driver's init leaves it. -/
def Driver.init : Driver → Shared
  | .charDevIoctl => ⟨CharDevIoctl.init.buffer, CharDevIoctl.init.bufferSize⟩
  | .charDevAutoNode index =>
    ⟨(CharDevAutoNode.initDevice index).buffer, (CharDevAutoNode.initDevice index).bufferSize⟩

inductive Call
  | devRead (len : ℕ) (offset : ℤ)
  | devWrite (data : List UInt8)
  | reset
  deriving DecidableEq, Repr

/-- Only `04` has an `ioctl`; the VFS lets through what it admits. -/
def Driver.offers : Driver → Call → Bool
  | _, .devRead len offset => admits offset len
  | _, .devWrite data => decide (data.length ≤ maxRwCount)
  | .charDevIoctl, .reset => true
  | .charDevAutoNode _, .reset => false

/-- The points of `dev_read`; `n` is `len` as clamped. -/
inductive ReadPc
  | eof
  | clampTest
  | clampAssign
  | copy (n : ℤ)
  deriving DecidableEq, Repr

/-- The points of `dev_write`; `n` is the number of bytes copied. -/
inductive WritePc
  | copy
  | storeSize (n : ℤ)
  | terminate (n : ℤ)
  | ret (n : ℤ)
  deriving DecidableEq, Repr

/-- The points of `IOCTL_RESET`. -/
inductive ResetPc | speed | mode | storeSize | clear
  deriving DecidableEq, Repr

inductive Pc
  | idle
  | devRead (len : ℕ) (offset : ℤ) (k : ReadPc)
  | devWrite (data : List UInt8) (k : WritePc)
  | reset (k : ResetPc)
  deriving DecidableEq, Repr

inductive Act
  | tau
  | call (c : Call)
  | read (r : ReadResult)
  | wrote (ret : ℤ)
  | reset
  deriving DecidableEq, Repr

/-- What the environment decides: how a copy ends, and the call an idle process makes. -/
structure Choice where
  fault : Fault := {}
  call : Call := .reset

instance : Inhabited Choice := ⟨{}⟩

/-- `dev_read`. -/
def devRead (g : Choice) (s : Shared) (len : ℕ) (offset : ℤ) :
    ReadPc → Shared × Pc × Act
  | .eof =>
    if u64 offset ≥ s.bufferSize then (s, .idle, .read ⟨0, offset, []⟩)
    else (s, .devRead len offset .clampTest, .tau)
  | .clampTest =>
    if u64 (offset + len) > s.bufferSize then (s, .devRead len offset .clampAssign, .tau)
    else (s, .devRead len offset (.copy len), .tau)
  | .clampAssign => (s, .devRead len offset (.copy (u64 (s.bufferSize - offset))), .tau)
  | .copy n => (s, .idle, .read (sendBytes s.buffer 0 n offset g.fault))

/-- `dev_write`. -/
def devWrite (g : Choice) (s : Shared) (data : List UInt8) : WritePc → Shared × Pc × Act
  | .copy =>
    let len := clampLen bufLen data
    let (buffer, left) := copyFromUser s.buffer 0 data len.toNat g.fault
    ({ s with buffer := buffer }, .devWrite data (.storeSize (u64 (len - left))), .tau)
  | .storeSize n => ({ s with bufferSize := n }, .devWrite data (.terminate n), .tau)
  | .terminate n =>
    ({ s with buffer := s.buffer.store s.bufferSize.toNat [0] }, .devWrite data (.ret n), .tau)
  | .ret _ => (s, .idle, .wrote (s64 s.bufferSize))

/-- `IOCTL_RESET`: `speed` and `mode` are not in what is shared here. -/
def reset (s : Shared) : ResetPc → Shared × Pc × Act
  | .speed => (s, .reset .mode, .tau)
  | .mode => (s, .reset .storeSize, .tau)
  | .storeSize => ({ s with bufferSize := 0 }, .reset .clear, .tau)
  | .clear => ({ s with buffer := s.buffer.store 0 (List.replicate bufLen 0) }, .idle, .reset)

/-- A call begins. -/
def enter : Call → Pc
  | .devRead len offset => .devRead len offset .eof
  | .devWrite data => .devWrite data .copy
  | .reset => .reset .speed

/-- The driver as a program of its processes. -/
def fops (ι : Type) (drv : Driver) : Program ι Shared Pc Choice Act where
  next _ g s
    | .idle => if drv.offers g.call then some (s, enter g.call, .call g.call) else none
    | .devRead len offset k => some (devRead g s len offset k)
    | .devWrite data k => some (devWrite g s data k)
    | .reset k => some (reset s k)
  hear _ k := k

/-- The device freshly loaded, every process outside the driver. -/
def loaded (ι : Type) (drv : Driver) : Conf ι Shared Pc := ⟨drv.init, fun _ => .idle⟩

/-! ### What holds, and when -/

/-- The reads stay inside the buffer: at the clamp the subtraction does not wrap, and at the copy
    the range ends inside. -/
structure Inside {ι : Type} (c : Conf ι Shared Pc) : Prop where
  clamp : ∀ r len offset, c.pc r = .devRead len offset .clampAssign →
    u64 (c.shared.bufferSize - offset) = c.shared.bufferSize - offset
  copy : ∀ r len offset n, c.pc r = .devRead len offset (.copy n) →
    0 ≤ offset ∧ 0 ≤ n ∧ offset + n ≤ bufLen

/-- The value of `buffer_size` that the next step of a process stores, if it stores one. -/
def Pc.stores : Pc → Option ℤ
  | .devWrite _ (.storeSize n) => some n
  | .reset .storeSize => some 0
  | _ => none

/-- The offset of a read between its end-of-file test and its clamp. -/
def Pc.relies : Pc → Option ℤ
  | .devRead _ offset .clampTest | .devRead _ offset .clampAssign => some offset
  | _ => none

/-- A step stores no size below the offset of a read that is between its test and its clamp. -/
def KeepsReads {ι : Type} (p : ι) (_ : Choice) (c : Conf ι Shared Pc) : Prop :=
  ∀ v, (c.pc p).stores = some v → ∀ r offset, (c.pc r).relies = some offset → offset ≤ v

instance {ι : Type} [Fintype ι] (p : ι) (g : Choice) (c : Conf ι Shared Pc) :
    Decidable (KeepsReads p g c) :=
  inferInstanceAs (Decidable (∀ v ∈ (c.pc p).stores, ∀ r, ∀ offset ∈ (c.pc r).relies, offset ≤ v))

variable {ι : Type} {drv : Driver} {p : ι} {g : Choice} {s s' : Shared} {k k' : Pc} {e : Act}

/-! ### One step -/

/-- The steps there are: the tests of a read told apart, those of a write or a reset as they
    stand. -/
inductive Step (drv : Driver) (g : Choice) (s : Shared) : Pc → Shared → Pc → Act → Prop
  | enter : drv.offers g.call = true → Step drv g s .idle s (enter g.call) (.call g.call)
  | pastEnd {len : ℕ} {offset : ℤ} : u64 offset ≥ s.bufferSize →
      Step drv g s (.devRead len offset .eof) s .idle (.read ⟨0, offset, []⟩)
  | inside {len : ℕ} {offset : ℤ} : ¬ u64 offset ≥ s.bufferSize →
      Step drv g s (.devRead len offset .eof) s (.devRead len offset .clampTest) .tau
  | long {len : ℕ} {offset : ℤ} : u64 (offset + len) > s.bufferSize →
      Step drv g s (.devRead len offset .clampTest) s (.devRead len offset .clampAssign) .tau
  | short {len : ℕ} {offset : ℤ} : ¬ u64 (offset + len) > s.bufferSize →
      Step drv g s (.devRead len offset .clampTest) s (.devRead len offset (.copy len)) .tau
  | clamp {len : ℕ} {offset : ℤ} : Step drv g s (.devRead len offset .clampAssign) s
      (.devRead len offset (.copy (u64 (s.bufferSize - offset)))) .tau
  | copy {len : ℕ} {offset n : ℤ} : Step drv g s (.devRead len offset (.copy n)) s .idle
      (.read (sendBytes s.buffer 0 n offset g.fault))
  | write {data : List UInt8} (k : WritePc) : Step drv g s (.devWrite data k)
      (devWrite g s data k).1 (devWrite g s data k).2.1 (devWrite g s data k).2.2
  | reset (k : ResetPc) :
      Step drv g s (.reset k) (Race.reset s k).1 (Race.reset s k).2.1 (Race.reset s k).2.2

theorem Step.of_next (h : (fops ι drv).next p g s k = some (s', k', e)) :
    Step drv g s k s' k' e := by
  cases k with
  | idle =>
    simp only [fops, Option.ite_none_right_eq_some, Option.some.injEq, Prod.mk.injEq] at h
    obtain ⟨hoff, rfl, rfl, rfl⟩ := h
    exact .enter hoff
  | devRead len offset k =>
    simp only [fops, Option.some.injEq] at h
    cases k <;> simp only [devRead] at h
    case eof =>
      split at h <;> cases h
      · exact .pastEnd ‹_›
      · exact .inside ‹_›
    case clampTest =>
      split at h <;> cases h
      · exact .long ‹_›
      · exact .short ‹_›
    case clampAssign => cases h; exact .clamp
    case copy n => cases h; exact .copy
  | devWrite data k =>
    have hstep : Step drv g s (.devWrite data k) _ _ _ := .write k
    rw [Option.some.inj h] at hstep
    exact hstep
  | reset k =>
    have hstep : Step drv g s (.reset k) _ _ _ := .reset k
    rw [Option.some.inj h] at hstep
    exact hstep

/-- A size that fits the buffer. -/
def Fits (n : ℤ) : Prop := 0 ≤ n ∧ n ≤ (bufLen - 1 : ℕ)

/-- What holds of a process at a point: the VFS admitted its read, a read that passed its test has
    its offset within the size, a copy stays inside, and a size to be stored fits. -/
def Pc.Sound (s : Shared) : Pc → Prop
  | .devRead len offset k => admits offset len = true ∧ match k with
    | .eof => True
    | .clampTest | .clampAssign => offset ≤ s.bufferSize
    | .copy n => 0 ≤ n ∧ offset + n ≤ (bufLen - 1 : ℕ)
  | .devWrite _ (.storeSize n) => Fits n
  | _ => True

theorem fits_init (drv : Driver) : Fits drv.init.bufferSize := by
  cases drv with
  | charDevIoctl => exact ⟨le_refl _, by decide⟩
  | charDevAutoNode index => exact (CharDevAutoNode.holds_init index).fits

theorem fits_copied (data : List UInt8) (f : Fault) :
    Fits (u64 (clampLen bufLen data - (f.uncopied (clampLen bufLen data).toNat : ℤ))) := by
  have hk := Msg.kept_le bufLen data f
  have h256 : bufLen = 256 := rfl
  rw [clampLen_sub (by decide), u64_id (by omega) (by omega)]
  exact ⟨by omega, by omega⟩

/-- Only the two stores change the size. -/
theorem Step.size (h : Step drv g s k s' k' e) : s'.bufferSize = k.stores.getD s.bufferSize := by
  cases h with
  | write k => cases k <;> rfl
  | reset k => cases k <;> rfl
  | _ => rfl

/-- The size stays in the buffer. -/
theorem Step.fits (h : Step drv g s k s' k' e) (hs : Fits s.bufferSize) (hk : k.Sound s) :
    Fits s'.bufferSize := by
  rw [h.size]
  cases h with
  | write k =>
    cases k with
    | storeSize n => exact hk
    | _ => exact hs
  | reset k =>
    cases k with
    | storeSize => exact ⟨le_refl (0 : ℤ), Int.natCast_nonneg _⟩
    | _ => exact hs
  | _ => exact hs

/-- A step of a process leaves it sound. -/
theorem Step.sound (h : Step drv g s k s' k' e) (hs : Fits s.bufferSize) (hk : k.Sound s) :
    k'.Sound s' := by
  have h256 : bufLen = 256 := rfl
  obtain ⟨hlow, hhigh⟩ := hs
  cases h with
  | enter hoff =>
    cases hc : g.call with
    | devRead len offset => rw [hc] at hoff; exact ⟨by cases drv <;> exact hoff, trivial⟩
    | _ => trivial
  | @inside len offset hin =>
    obtain ⟨h0, hsum, -⟩ := of_decide_eq_true hk.1
    rw [u64_id h0 (by omega)] at hin
    exact ⟨hk.1, by omega⟩
  | long => exact hk
  | @short len offset hshort =>
    obtain ⟨h0, hsum, -⟩ := of_decide_eq_true hk.1
    rw [u64_id (by omega) (by omega)] at hshort
    exact ⟨hk.1, by omega, by omega⟩
  | @clamp len offset =>
    obtain ⟨h0, -, -⟩ := of_decide_eq_true hk.1
    have hle : offset ≤ s.bufferSize := hk.2
    refine ⟨hk.1, ?_⟩
    show 0 ≤ u64 (s.bufferSize - offset) ∧ offset + u64 (s.bufferSize - offset) ≤ _
    rw [u64_id (by omega) (by omega)]
    exact ⟨by omega, by omega⟩
  | write k =>
    cases k with
    | copy => exact fits_copied _ g.fault
    | _ => trivial
  | reset k => cases k <;> trivial
  | _ => trivial

/-- A step makes no read but one that the VFS admits. -/
theorem Step.admitted (h : Step drv g s k s' k' e)
    (hk : ∀ len offset kr, k = .devRead len offset kr → admits offset len = true) {len : ℕ}
    {offset : ℤ} {kr : ReadPc} (hk' : k' = .devRead len offset kr) : admits offset len = true := by
  cases h with
  | enter hoff =>
    cases hc : g.call with
    | devRead len' offset' =>
      rw [hc] at hoff hk'
      cases hk'
      cases drv <;> exact hoff
    | _ => rw [hc] at hk'; cases hk'
  | write k => cases k <;> cases hk'
  | reset k => cases k <;> cases hk'
  | pastEnd | copy => cases hk'
  | inside | long | short | clamp => cases hk'; exact hk _ _ _ rfl

/-- A step of another leaves a process sound, if it stores no size below what a read relies on. -/
theorem Pc.Sound.stable (hk : k.Sound s)
    (hsize : ∀ offset, k.relies = some offset → offset ≤ s'.bufferSize) : k.Sound s' := by
  cases k with
  | devRead len offset k =>
    cases k with
    | clampTest | clampAssign => exact ⟨hk.1, hsize offset rfl⟩
    | _ => exact hk
  | devWrite data k => cases k <;> exact hk
  | _ => trivial

/-! ### Every run -/

variable [DecidableEq ι] {ok : ι → Choice → Conf ι Shared Pc → Prop}
variable {tr : List (ι × Act)} {c c' : Conf ι Shared Pc}

/-- In a run whose stores keep the reads, the size fits and every process is sound. -/
theorem sound_run (hrun : (fops ι drv).Run KeepsReads (loaded ι drv) tr c) (r : ι) :
    Fits c.shared.bufferSize ∧ (c.pc r).Sound c.shared := by
  refine hrun.everywhere (L := fun s k => Fits s.bufferSize ∧ k.Sound s)
    (fun _ => ⟨fits_init drv, trivial⟩) ?_ r
  intro p g c s' k' e hall hok hn
  obtain ⟨hfits, hsound⟩ := hall p
  have hstep := Step.of_next hn
  have hfits' := hstep.fits hfits hsound
  refine ⟨⟨hfits', hstep.sound hfits hsound⟩, fun r _ => ⟨hfits', (hall r).2.stable ?_⟩⟩
  intro offset hr
  rw [hstep.size]
  cases hv : (c.pc p).stores with
  | none =>
    -- the size is as it was, and the read relies on it already
    obtain ⟨-, hs⟩ := hall r
    generalize c.pc r = k at hr hs
    cases k with
    | devRead len offset k => cases k <;> cases hr <;> exact hs.2
    | _ => nomatch hr
  | some v => exact hok v hv r offset hr

theorem inside_run (hrun : (fops ι drv).Run KeepsReads (loaded ι drv) tr c) : Inside c := by
  have h256 : bufLen = 256 := rfl
  refine ⟨fun r len offset hr => ?_, fun r len offset n hr => ?_⟩
  · obtain ⟨⟨hlow, hhigh⟩, hs⟩ := sound_run hrun r
    rw [hr] at hs
    obtain ⟨ha, hle⟩ : admits offset len = true ∧ offset ≤ c.shared.bufferSize := hs
    obtain ⟨h0, -, -⟩ := of_decide_eq_true ha
    exact u64_id (by omega) (by omega)
  · obtain ⟨-, hs⟩ := sound_run hrun r
    rw [hr] at hs
    obtain ⟨ha, hn, hend⟩ : admits offset len = true ∧ 0 ≤ n ∧ offset + n ≤ (bufLen - 1 : ℕ) := hs
    obtain ⟨h0, -, -⟩ := of_decide_eq_true ha
    exact ⟨h0, hn, by omega⟩

/-- The VFS admitted every read under way. -/
theorem admitted_run (hrun : (fops ι drv).Run ok (loaded ι drv) tr c) {r : ι} {len : ℕ}
    {offset : ℤ} {k : ReadPc} (hr : c.pc r = .devRead len offset k) :
    admits offset len = true := by
  have hall : ∀ r len offset k, c.pc r = .devRead len offset k → admits offset len = true :=
    hrun.own (J := fun _ k => ∀ len offset k', k = .devRead len offset k' →
      admits offset len = true) (fun _ => nofun)
      (fun _ _ _ _ _ _ _ _ hk hn _ _ _ hk' => (Step.of_next hn).admitted hk hk')
      (fun _ _ _ hk => hk)
  exact hall r len offset k hr

omit [DecidableEq ι] in
/-- A size below the offset of a read at its clamp makes the subtraction wrap. -/
theorem not_inside_clamp {r : ι} {len : ℕ} {offset : ℤ}
    (hr : c.pc r = .devRead len offset .clampAssign) (hlt : c.shared.bufferSize < offset) :
    ¬ Inside c := by
  intro h
  have hwrap := h.clamp r len offset hr
  have hpos : 0 ≤ u64 (c.shared.bufferSize - offset) := Int.emod_nonneg _ (by decide)
  omega

/-- A store below what a read relies on: the read's own next steps leave the buffer. -/
theorem overrun (hrun : (fops ι drv).Run anyStep (loaded ι drv) tr c)
    (hbad : ¬ KeepsReads p g c) (hf : (fops ι drv).fire p g c = some (e, c')) :
    ∃ tr' c'', (fops ι drv).Run anyStep (loaded ι drv) (tr ++ (p, e) :: tr') c'' ∧
      ¬ Inside c'' := by
  obtain ⟨v, hv, r, offset, hr, hlt⟩ : ∃ v, (c.pc p).stores = some v ∧ ∃ r offset,
      (c.pc r).relies = some offset ∧ v < offset := by
    simpa only [KeepsReads, not_forall, not_le, exists_prop] using hbad
  obtain ⟨hn, hothers⟩ := Program.fire_spec hf
  have hrun' := hrun.step trivial hf
  have hsize : c'.shared.bufferSize = v := by rw [(Step.of_next hn).size, hv]; rfl
  have hne : r ≠ p := by
    rintro rfl
    generalize c.pc r = k at hv hr
    cases k with
    | devRead len offset k => cases hv
    | _ => cases hr
  have hpc : c'.pc r = c.pc r := hothers r hne
  rw [← hpc] at hr
  generalize hk : c'.pc r = k at hr
  cases k with
  | devRead len offset' k =>
    cases k with
    | clampTest =>
      cases hr
      obtain ⟨h0, hsum, -⟩ := of_decide_eq_true (admitted_run hrun' hk)
      have hadd : u64 (offset + len) = offset + len := u64_id (by omega) (by omega)
      have hgt : u64 (offset + len) > c'.shared.bufferSize := by rw [hadd, hsize]; omega
      -- the read takes its clamp test, and the next subtraction wraps
      have hfire : (fops ι drv).fire r g c' = some (.tau, ⟨c'.shared, fun q =>
          if q = r then .devRead len offset .clampAssign else c'.pc q⟩) := by
        simp only [Program.fire, hk, fops, devRead, if_pos hgt, Option.map_some]
      have hnext := hrun'.step (g := g) trivial hfire
      rw [List.append_assoc] at hnext
      exact ⟨_, _, hnext, not_inside_clamp (r := r) (if_pos rfl) (hsize ▸ hlt)⟩
    | clampAssign =>
      cases hr
      exact ⟨[], c', hrun', not_inside_clamp hk (hsize ▸ hlt)⟩
    | _ => cases hr
  | _ => cases hr

/-- READS INSIDE: in every run whose stores of `buffer_size` never go below the offset of a read
    between its end-of-file test and its clamp, no subtraction wraps and every copy stays inside
    the buffer; and any step that makes such a store can be followed by a read that does not. -/
theorem reads_inside (drv : Driver) :
    (∀ (tr : List (ι × Act)) (c : Conf ι Shared Pc),
      (fops ι drv).Run KeepsReads (loaded ι drv) tr c → Inside c) ∧
    ∀ (tr : List (ι × Act)) (c c' : Conf ι Shared Pc) (p : ι) (g : Choice) (e : Act),
      (fops ι drv).Run anyStep (loaded ι drv) tr c → ¬ KeepsReads p g c →
      (fops ι drv).fire p g c = some (e, c') →
      ∃ tr' c'', (fops ι drv).Run anyStep (loaded ι drv) (tr ++ (p, e) :: tr') c'' ∧
        ¬ Inside c'' :=
  ⟨fun _ _ hrun => inside_run hrun, fun _ _ _ _ _ _ hrun hbad hf => overrun hrun hbad hf⟩

/-- With ten bytes stored, process `true` reads behind the eighth and passes its end-of-file test;
    process `false` stores a message of two bytes, and `true` goes on to its copy. -/
def shrinks : List (Bool × Choice) :=
  calls false { call := .devWrite (List.replicate 10 7) } 4 ++
  calls true { call := .devRead 4 8 } 1 ++ calls false { call := .devWrite [1, 2] } 2 ++
  moves true 2

/-- As `shrinks`, but `false` stores nine bytes. -/
def keeps : List (Bool × Choice) :=
  calls false { call := .devWrite (List.replicate 10 7) } 4 ++
  calls true { call := .devRead 4 8 } 1 ++
  calls false { call := .devWrite (List.replicate 9 1) } 2 ++ moves true 2

theorem keeps_runs : ((fops Bool .charDevIoctl).exec (testing KeepsReads) keeps
    (loaded Bool .charDevIoctl)).isSome = true := by
  decide +kernel

theorem reads_inside_keeps :
    let c := (((fops Bool .charDevIoctl).exec (testing KeepsReads) keeps
      (loaded Bool .charDevIoctl)).get keeps_runs).2
    c.pc true = .devRead 4 8 (.copy 1) ∧ Inside c :=
  ⟨by decide +kernel,
    (reads_inside .charDevIoctl).1 _ _ (Program.Run.of_exec testing_ok keeps_runs)⟩

/-- The reads stay inside the buffer, whatever is stored. -/
def AlwaysInside (drv : Driver) : Prop :=
  ∀ (tr : List (Bool × Act)) (c : Conf Bool Shared Pc),
    (fops Bool drv).Run anyStep (loaded Bool drv) tr c → Inside c

theorem shrinks_overruns {drv : Driver}
    (hrun : ((fops Bool drv).exec anyway shrinks (loaded Bool drv)).isSome = true)
    (hcopy : (((fops Bool drv).exec anyway shrinks (loaded Bool drv)).get hrun).2.pc true =
      .devRead 4 8 (.copy (2 ^ 64 - 6))) : ¬ AlwaysInside drv := by
  intro h
  obtain ⟨-, -, hend⟩ := (h _ _ (Program.Run.of_exec anyway_any hrun)).copy true 4 8 _ hcopy
  exact absurd hend (by decide)

theorem not_always_inside :
    ¬ AlwaysInside .charDevIoctl ∧ ¬ AlwaysInside (.charDevAutoNode 0) :=
  ⟨shrinks_overruns (by decide +kernel) (by decide +kernel),
    shrinks_overruns (by decide +kernel) (by decide +kernel)⟩

end Ldd.Message.Race

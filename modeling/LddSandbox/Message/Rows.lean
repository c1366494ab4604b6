import LddSandbox.Message.Isolation
import LddSandbox.Schemes.Threads

/-! `02-char-device-driver`, `03-char-dev-multibuf` and `09-platform-driver` from any number of
    processes at once. They take no lock either: `dev_read` evaluates the `int message_size` of its
    message up to three times, and `dev_write` stores it and evaluates it twice again.

        read:   eof ─▶ clampTest ─▶ clampAssign ─▶ copy       each arrow an evaluation of the size
        write:  copy ─▶ storeSize ─▶ terminate ─▶ ret         a copy is one step

    The messages are the rows of one array, of which `02` and `09` have only the first. Each size
    fits its row in every interleaving (`fit_run`), so no step stores anything outside the row of
    its own minor (`Step.other`). -/

namespace Ldd.Message.Rows
open Ldd.Schemes Ldd.Kernel CharDevMultibuf

inductive Driver | charDeviceDriver | charDevMultibuf | platformDriver
  deriving DecidableEq, Repr

/-- The row of a file: `message[minor]` in `03`, and the one message in the others. -/
def Driver.row : Driver → ℕ → ℕ
  | .charDevMultibuf, minor => minor
  | _, _ => 0

/-- `minor >= DEV_MAX`, which only `03` has to test. -/
def Driver.lacks : Driver → ℕ → Bool
  | .charDevMultibuf, minor => decide (minor ≥ devMax)
  | _, _ => false

/-- The VFS lets the call through. -/
def admitted : Call → Bool
  | .read _ len offset _ => admits offset len
  | .write _ offset data _ => admits offset data.length

/-- What a call on a minor without a device is answered. -/
def refusal : Call → Answer
  | .read _ _ offset _ => .read ⟨-ENODEV, offset, []⟩
  | .write _ _ _ _ => .wrote (-ENODEV)

/-- The points of `dev_read`; `n` is `len` as clamped. -/
inductive ReadPc
  | eof
  | clampTest
  | clampAssign
  | copy (n : ℤ)

/-- The points of `dev_write`; `n` is the number of bytes copied. -/
inductive WritePc
  | copy
  | storeSize (n : ℤ)
  | terminate
  | ret

inductive Pc
  | idle
  | noDevice (c : Call)
  | devRead (minor len : ℕ) (offset : ℤ) (f : Fault) (k : ReadPc)
  | devWrite (minor : ℕ) (offset : ℤ) (data : List UInt8) (f : Fault) (k : WritePc)

inductive Act
  | tau (minor : ℕ)
  | call (c : Call)
  | answer (c : Call) (a : Answer)

/-- `dev_read` and `platform_read`. -/
def devRead (drv : Driver) (s : State) (minor len : ℕ) (offset : ℤ) (f : Fault) :
    ReadPc → State × Pc × Act
  | .eof =>
    if offset ≥ s.messageSize (drv.row minor) then
      (s, .idle, .answer (.read minor len offset f) (.read ⟨0, offset, []⟩))
    else (s, .devRead minor len offset f .clampTest, .tau minor)
  | .clampTest =>
    if u64 (offset + len) > u64 (s.messageSize (drv.row minor)) then
      (s, .devRead minor len offset f .clampAssign, .tau minor)
    else (s, .devRead minor len offset f (.copy len), .tau minor)
  | .clampAssign =>
    (s, .devRead minor len offset f (.copy (u64 (s64 (s.messageSize (drv.row minor) - offset)))),
      .tau minor)
  | .copy n =>
    (s, .idle, .answer (.read minor len offset f)
      (.read (sendBytes s.message (drv.row minor * bufLen) n offset f)))

/-- `dev_write` and `platform_write`. -/
def devWrite (drv : Driver) (s : State) (minor : ℕ) (offset : ℤ) (data : List UInt8) (f : Fault) :
    WritePc → State × Pc × Act
  | .copy =>
    let len := clampLen bufLen data
    let (message, left) := copyFromUser s.message (drv.row minor * bufLen) data len.toNat f
    ({ s with message := message },
      .devWrite minor offset data f (.storeSize (s32 (u64 (len - left)))), .tau minor)
  | .storeSize n =>
    ({ s with messageSize := Function.update s.messageSize (drv.row minor) n },
      .devWrite minor offset data f .terminate, .tau minor)
  | .terminate =>
    ({ s with message :=
        s.message.store (drv.row minor * bufLen + s.messageSize (drv.row minor)).toNat [0] },
      .devWrite minor offset data f .ret, .tau minor)
  | .ret =>
    (s, .idle, .answer (.write minor offset data f) (.wrote (s.messageSize (drv.row minor))))

/-- A call begins. -/
def Driver.enter (drv : Driver) (c : Call) : Pc :=
  if drv.lacks c.minor then .noDevice c
  else match c with
    | .read minor len offset f => .devRead minor len offset f .eof
    | .write minor offset data f => .devWrite minor offset data f .copy

instance : Inhabited Call := ⟨.read 0 0 0 {}⟩

/-- The driver as a program of its processes; an idle one makes the call that it chooses. -/
def fops (ι : Type) (drv : Driver) : Program ι State Pc Call Act where
  next _ g s
    | .idle => if admitted g then some (s, drv.enter g, .call g) else none
    | .noDevice c => some (s, .idle, .answer c (refusal c))
    | .devRead minor len offset f k => some (devRead drv s minor len offset f k)
    | .devWrite minor offset data f k => some (devWrite drv s minor offset data f k)
  hear _ k := k

/-- The device freshly loaded, or probed, every process outside the driver. -/
def loaded (ι : Type) : Conf ι State Pc := ⟨init, fun _ => .idle⟩

/-- The minor that a process is busy with. -/
def Pc.minor : Pc → Option ℕ
  | .idle => none
  | .noDevice c => some c.minor
  | .devRead minor _ _ _ _ | .devWrite minor _ _ _ _ => some minor

/-- The minor of the call that a step belongs to. -/
def Act.minor : Act → ℕ
  | .tau minor => minor
  | .call c | .answer c _ => c.minor

/-! ### One step -/

/-- The steps there are: the tests of a read told apart, those of a write as they stand. -/
inductive Step (drv : Driver) (g : Call) (s : State) : Pc → State → Pc → Act → Prop
  | enter : admitted g = true → Step drv g s .idle s (drv.enter g) (.call g)
  | noDevice (c : Call) : Step drv g s (.noDevice c) s .idle (.answer c (refusal c))
  | pastEnd {minor len : ℕ} {offset : ℤ} {f : Fault} : offset ≥ s.messageSize (drv.row minor) →
      Step drv g s (.devRead minor len offset f .eof) s .idle
        (.answer (.read minor len offset f) (.read ⟨0, offset, []⟩))
  | inside {minor len : ℕ} {offset : ℤ} {f : Fault} : ¬ offset ≥ s.messageSize (drv.row minor) →
      Step drv g s (.devRead minor len offset f .eof) s (.devRead minor len offset f .clampTest)
        (.tau minor)
  | long {minor len : ℕ} {offset : ℤ} {f : Fault} :
      u64 (offset + len) > u64 (s.messageSize (drv.row minor)) →
      Step drv g s (.devRead minor len offset f .clampTest) s
        (.devRead minor len offset f .clampAssign) (.tau minor)
  | short {minor len : ℕ} {offset : ℤ} {f : Fault} :
      ¬ u64 (offset + len) > u64 (s.messageSize (drv.row minor)) →
      Step drv g s (.devRead minor len offset f .clampTest) s
        (.devRead minor len offset f (.copy len)) (.tau minor)
  | clamp {minor len : ℕ} {offset : ℤ} {f : Fault} :
      Step drv g s (.devRead minor len offset f .clampAssign) s (.devRead minor len offset f
        (.copy (u64 (s64 (s.messageSize (drv.row minor) - offset))))) (.tau minor)
  | copy {minor len : ℕ} {offset n : ℤ} {f : Fault} :
      Step drv g s (.devRead minor len offset f (.copy n)) s .idle
        (.answer (.read minor len offset f)
          (.read (sendBytes s.message (drv.row minor * bufLen) n offset f)))
  | write {minor : ℕ} {offset : ℤ} {data : List UInt8} {f : Fault} (k : WritePc) :
      Step drv g s (.devWrite minor offset data f k) (devWrite drv s minor offset data f k).1
        (devWrite drv s minor offset data f k).2.1 (devWrite drv s minor offset data f k).2.2

variable {ι : Type} {drv : Driver} {p : ι} {g : Call} {s s' : State} {k k' : Pc} {e : Act}

theorem Step.of_next (h : (fops ι drv).next p g s k = some (s', k', e)) :
    Step drv g s k s' k' e := by
  cases k with
  | idle =>
    simp only [fops, Option.ite_none_right_eq_some, Option.some.injEq, Prod.mk.injEq] at h
    obtain ⟨hadm, rfl, rfl, rfl⟩ := h
    exact .enter hadm
  | noDevice c => cases h; exact .noDevice c
  | devRead minor len offset f k =>
    simp only [fops, Option.some.injEq] at h
    cases k <;> simp only [devRead] at h
    case eof =>
      split at h <;> cases h
      · exact .pastEnd ‹_›
      · exact .inside ‹_›
    case clampTest =>
      split at h <;> cases h
      · exact .long ‹_›
      · exact .short ‹_›
    case clampAssign => cases h; exact .clamp
    case copy n => cases h; exact .copy
  | devWrite minor offset data f k =>
    have hstep : Step drv g s (.devWrite minor offset data f k) _ _ _ := .write k
    rw [Option.some.inj h] at hstep
    exact hstep

/-- A process steps on the minor that it is busy with. -/
theorem Step.minors (h : Step drv g s k s' k' e) :
    (∀ m, k.minor = some m → m = e.minor) ∧ ∀ m, k'.minor = some m → m = e.minor := by
  cases h with
  | enter =>
    refine ⟨nofun, fun m hm => ?_⟩
    cases g <;> simp only [Driver.enter] at hm <;> split at hm <;> cases hm <;> rfl
  | write k => cases k <;> exact ⟨by rintro _ ⟨⟩; rfl, by rintro _ ⟨⟩ <;> rfl⟩
  | _ => exact ⟨by rintro _ ⟨⟩; rfl, by rintro _ ⟨⟩ <;> rfl⟩

/-! ### What a step stores -/

/-- A size that fits a row. -/
def Fits (n : ℤ) : Prop := 0 ≤ n ∧ n ≤ (bufLen - 1 : ℕ)

/-- The row and the value of `message_size` that the next step of a process stores, if it does. -/
def Pc.stores (drv : Driver) : Pc → Option (ℕ × ℤ)
  | .devWrite minor _ _ _ (.storeSize n) => some (drv.row minor, n)
  | _ => none

/-- The row and the offset of a read between its end-of-file test and its clamp. -/
def Pc.relies (drv : Driver) : Pc → Option (ℕ × ℤ)
  | .devRead minor _ offset _ .clampTest | .devRead minor _ offset _ .clampAssign =>
    some (drv.row minor, offset)
  | _ => none

/-- Every size fits. -/
def Fit (s : State) : Prop := ∀ row, Fits (s.messageSize row)

/-- A size that a process is about to store fits. -/
def Pc.StoresFit : Pc → Prop
  | .devWrite _ _ _ _ (.storeSize n) => Fits n
  | _ => True

/-- The same message lies in two rows: the sizes are one, and so are the bytes. -/
structure SameRow (j k : ℕ) (s t : State) : Prop where
  size : s.messageSize j = t.messageSize k
  bytes : ∀ i < bufLen, s.message (j * bufLen + i) = t.message (k * bufLen + i)

theorem SameRow.refl (j : ℕ) (s : State) : SameRow j j s s := ⟨rfl, fun _ _ => rfl⟩

theorem SameRow.trans {j k l : ℕ} {t u : State} (h : SameRow j k s t) (h' : SameRow k l t u) :
    SameRow j l s u :=
  ⟨h.size.trans h'.size, fun i hi => (h.bytes i hi).trans (h'.bytes i hi)⟩

theorem clampLen_le (data : List UInt8) : (clampLen bufLen data).toNat ≤ bufLen - 1 := by
  rw [clampLen_eq (by decide), Int.toNat_natCast]
  exact Nat.min_le_right ..

/-- The number of bytes that a write notes, as it is. -/
theorem noted_eq (data : List UInt8) (f : Fault) :
    s32 (u64 (clampLen bufLen data - (f.uncopied (clampLen bufLen data).toNat : ℤ))) =
      Msg.kept bufLen data f := by
  have hk := Msg.kept_le bufLen data f
  have h1024 : bufLen = 1024 := rfl
  rw [clampLen_sub (by decide), u64_id (by omega) (by omega), s32_id (by omega) (by omega)]

theorem fits_kept (data : List UInt8) (f : Fault) : Fits (Msg.kept bufLen data f) :=
  ⟨Int.natCast_nonneg _, Int.ofNat_le.mpr (Msg.kept_le bufLen data f)⟩

/-- Only one store changes a size. -/
theorem Step.size (h : Step drv g s k s' k' e) : s'.messageSize = match k.stores drv with
    | some (row, n) => Function.update s.messageSize row n
    | none => s.messageSize := by
  cases h with
  | write k => cases k <;> rfl
  | _ => rfl

/-- A step stores a size that fits, if the one that it noted does. -/
theorem Step.fit (h : Step drv g s k s' k' e) (hs : Fit s) (hk : k.StoresFit) :
    Fit s' ∧ k'.StoresFit := by
  cases h with
  | enter =>
    refine ⟨hs, ?_⟩
    cases g <;> simp only [Driver.enter] <;> split <;> trivial
  | write k =>
    cases k with
    | copy =>
      refine ⟨hs, ?_⟩
      simp only [devWrite, copyFromUser, noted_eq]
      exact fits_kept ..
    | storeSize n =>
      refine ⟨fun row => ?_, trivial⟩
      simp only [devWrite]
      rw [Function.update_apply]
      split
      · exact hk
      · exact hs row
    | _ => exact ⟨hs, trivial⟩
  | _ => exact ⟨hs, trivial⟩

theorem row_apart {j k i n : ℕ} (hj : j ≠ k) (hi : i < bufLen) (hn : n ≤ bufLen) :
    j * bufLen + i < k * bufLen ∨ k * bufLen + n ≤ j * bufLen + i := by
  rcases Nat.lt_or_gt_of_ne hj with hlt | hgt
  · have hrow : (j + 1) * bufLen ≤ k * bufLen := Nat.mul_le_mul_right _ hlt
    rw [Nat.add_mul] at hrow
    omega
  · have hrow : (k + 1) * bufLen ≤ j * bufLen := Nat.mul_le_mul_right _ hgt
    rw [Nat.add_mul] at hrow
    omega

/-- The place of the terminator, in its row. -/
theorem Fits.at_row {n : ℤ} (h : Fits n) (row : ℕ) :
    ((row : ℤ) * bufLen + n).toNat = row * bufLen + n.toNat ∧ n.toNat + 1 ≤ bufLen := by
  obtain ⟨hlow, hhigh⟩ := h
  have h1024 : bufLen = 1024 := rfl
  obtain ⟨i, rfl⟩ := Int.eq_ofNat_of_zero_le hlow
  refine ⟨?_, ?_⟩
  · exact_mod_cast Int.toNat_natCast _
  · rw [Int.toNat_natCast]
    omega

/-- A step changes nothing of the rows but that of its own minor. -/
theorem Step.other (h : Step drv g s k s' k' e) (hs : Fit s) {j : ℕ} (hj : j ≠ drv.row e.minor) :
    SameRow j j s' s := by
  cases h with
  | @write minor offset data f k =>
    cases k with
    | copy =>
      refine ⟨rfl, fun i hi => ?_⟩
      have hlen := clampLen_le data
      exact copyFromUser_outside s.message data f (row_apart hj hi (by omega))
    | storeSize n => exact ⟨Function.update_of_ne hj .., fun _ _ => rfl⟩
    | terminate =>
      have hj : j ≠ drv.row minor := hj
      refine ⟨rfl, fun i hi => ?_⟩
      obtain ⟨hat, hin⟩ := (hs (drv.row minor)).at_row (drv.row minor)
      simp only [devWrite, hat]
      rcases row_apart (n := bufLen) hj hi (le_refl _) with hlt | hge
      · exact Mem.store_before (Nat.lt_add_right _ hlt)
      · exact Mem.store_after (by rw [List.length_singleton]; omega)
    | ret => exact .refl j s
  | _ => exact .refl j s

variable [DecidableEq ι] {ok : ι → Call → Conf ι State Pc → Prop}
variable {tr : List (ι × Act)} {c : Conf ι State Pc}

/-- In every run the sizes fit their rows. -/
theorem fit_run (hrun : (fops ι drv).Run ok (loaded ι) tr c) (r : ι) :
    Fit c.shared ∧ (c.pc r).StoresFit := by
  refine hrun.everywhere (L := fun s k => Fit s ∧ k.StoresFit)
    (fun _ => ⟨fun _ => ⟨le_refl _, Int.natCast_nonneg _⟩, trivial⟩) ?_ r
  intro p g c s' k' e hall _ hn
  obtain ⟨hs, hk⟩ := hall p
  obtain ⟨hs', hk'⟩ := (Step.of_next hn).fit hs hk
  exact ⟨⟨hs', hk'⟩, fun r _ => ⟨hs', (hall r).2⟩⟩

end Ldd.Message.Rows

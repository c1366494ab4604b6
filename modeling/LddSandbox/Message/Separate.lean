import LddSandbox.Message.Rows
import LddSandbox.Schemes.Slices

/-! The sixteen minors of `03-char-dev-multibuf` are sixteen devices like `02-char-device-driver`,
    also when their calls are interleaved step by step. Nothing keeps the processes on different
    minors apart but the rows, and a read whose `len` wraps at its clamp runs on into the next one.

        03:   0 ▶ m ▶ 1 ▶ m ▶ m ▶ 1 ▶ 0 ▶ m          0, 1: they may do what they like
        02:       m ────▶ m ▶ m ────────▶ m          the same steps, the same answers

    What it takes is that no write to minor `m` stores a size below the offset of a read of `m`
    between its end-of-file test and its clamp; the other minors need not keep to that. -/

namespace Ldd.Message.Rows
open Ldd.Schemes Ldd.Kernel CharDevMultibuf

/-! ### What a read relies on -/

/-- A step stores no size of the row below the offset of a read there that relies on it. -/
def KeepsReads {ι : Type} (drv : Driver) (row : ℕ) (p : ι) (_ : Call) (c : Conf ι State Pc) :
    Prop :=
  ∀ n, (c.pc p).stores drv = some (row, n) →
    ∀ r offset, (c.pc r).relies drv = some (row, offset) → offset ≤ n

instance {ι : Type} [Fintype ι] (drv : Driver) (row : ℕ) (p : ι) (g : Call)
    (c : Conf ι State Pc) : Decidable (KeepsReads drv row p g c) :=
  decidable_of_iff (∀ x ∈ (c.pc p).stores drv, x.1 = row →
      ∀ r, ∀ y ∈ (c.pc r).relies drv, y.1 = row → y.2 ≤ x.2)
    ⟨fun h n hn r offset hr => h (row, n) hn rfl r (row, offset) hr rfl,
      fun h ⟨_, n⟩ hx hrow r ⟨_, offset⟩ hy hrow' => h n (hrow ▸ hx) r offset (hrow' ▸ hy)⟩

/-- What holds of a read of the row: the VFS admitted it, one that has passed its test has its
    offset within the size, and a copy stays in the row. -/
def Pc.Sound (drv : Driver) (row : ℕ) (s : State) : Pc → Prop
  | .devRead minor len offset _ k => drv.row minor = row → admits offset len = true ∧ match k with
    | .eof => True
    | .clampTest | .clampAssign => offset ≤ s.messageSize row
    | .copy n => 0 ≤ n ∧ offset + n ≤ bufLen
  | _ => True

variable {ι : Type} {drv drv' : Driver} {row : ℕ} {p : ι} {g : Call} {s s' t : State} {k k' : Pc}
variable {e : Act}

/-- A step of a process leaves it sound. -/
theorem Step.sound (h : Step drv g s k s' k' e) (hs : Fit s) (hk : k.Sound drv row s) :
    k'.Sound drv row s' := by
  have h1024 : bufLen = 1024 := rfl
  cases h with
  | enter hadm =>
    cases g <;> simp only [Driver.enter] <;> split
    · trivial
    · exact fun _ => ⟨hadm, trivial⟩
    · trivial
    · trivial
  | inside hin =>
    rintro rfl
    exact ⟨(hk rfl).1, Int.le_of_lt (Int.not_le.mp hin)⟩
  | long => exact hk
  | @short minor len offset f hshort =>
    rintro rfl
    obtain ⟨ha, -⟩ := hk rfl
    obtain ⟨h0, hsum, -⟩ := of_decide_eq_true ha
    obtain ⟨hlow, hhigh⟩ := hs (drv.row minor)
    rw [u64_id (by omega) (by omega), u64_id (by omega) (by omega)] at hshort
    exact ⟨ha, by omega, by omega⟩
  | @clamp minor len offset f =>
    rintro rfl
    obtain ⟨ha, hle⟩ := hk rfl
    obtain ⟨h0, -, -⟩ := of_decide_eq_true ha
    obtain ⟨hlow, hhigh⟩ := hs (drv.row minor)
    refine ⟨ha, ?_⟩
    have hle : offset ≤ s.messageSize (drv.row minor) := hle
    show 0 ≤ u64 (s64 (s.messageSize (drv.row minor) - offset)) ∧
      offset + u64 (s64 (s.messageSize (drv.row minor) - offset)) ≤ _
    rw [s64_id (by omega) (by omega), u64_id (by omega) (by omega)]
    exact ⟨by omega, by omega⟩
  | write k => cases k <;> trivial
  | _ => trivial

/-- A step of another leaves a process sound, if it stores no size below what a read relies on. -/
theorem Pc.Sound.stable (hk : k.Sound drv row s)
    (hsize : ∀ offset, k.relies drv = some (row, offset) → offset ≤ s'.messageSize row) :
    k.Sound drv row s' := by
  cases k with
  | devRead minor len offset f k =>
    rintro rfl
    cases k with
    | clampTest | clampAssign => exact ⟨(hk rfl).1, hsize offset rfl⟩
    | _ => exact hk rfl
  | _ => trivial

/-- What a read relies on is within the size. -/
theorem Pc.Sound.within (hk : k.Sound drv row s) {offset : ℤ}
    (hr : k.relies drv = some (row, offset)) : offset ≤ s.messageSize row := by
  cases k with
  | devRead minor len offset' f k =>
    cases k with
    | clampTest | clampAssign =>
      cases hr
      exact (hk rfl).2
    | _ => cases hr
  | _ => cases hr

/-- In a run whose stores keep the reads of a row, they are sound. -/
theorem sound_run [DecidableEq ι] {tr : List (ι × Act)} {c : Conf ι State Pc}
    (hrun : (fops ι drv).Run (KeepsReads drv row) (loaded ι) tr c) (r : ι) :
    (c.pc r).Sound drv row c.shared := by
  have hstart : (fops ι drv).Run anyStep (loaded ι) [] (loaded ι) := .start
  have hall := hrun.everywhere (L := fun s k => (Fit s ∧ k.StoresFit) ∧ k.Sound drv row s)
    (fun r => ⟨fit_run hstart r, trivial⟩) ?_ r
  · exact hall.2
  intro p g c s' k' e hall hok hn
  obtain ⟨⟨hs, hk⟩, hsound⟩ := hall p
  have hstep := Step.of_next hn
  obtain ⟨hs', hk'⟩ := hstep.fit hs hk
  refine ⟨⟨⟨hs', hk'⟩, hstep.sound hs hsound⟩, fun r _ => ⟨⟨hs', (hall r).1.2⟩, ?_⟩⟩
  refine (hall r).2.stable fun offset hr => ?_
  have hwithin := (hall r).2.within hr
  rw [hstep.size]
  cases hst : (c.pc p).stores drv with
  | none => exact hwithin
  | some x =>
    obtain ⟨j, n⟩ := x
    show offset ≤ Function.update c.shared.messageSize j n row
    rcases eq_or_ne row j with rfl | hj
    · rw [Function.update_self]
      exact hok n hst r offset hr
    · rw [Function.update_of_ne hj]
      exact hwithin

/-! ### One step on two rows -/

/-- A read that stays in its row sends the same bytes from either. -/
theorem sendBytes_same {j l : ℕ} (h : SameRow j l s t) {n offset : ℤ} (h0 : 0 ≤ offset)
    (hn : 0 ≤ n) (hend : offset + n ≤ bufLen) (f : Fault) :
    sendBytes s.message (j * bufLen) n offset f = sendBytes t.message (l * bufLen) n offset f := by
  have hat : ∀ row : ℕ, (((row * bufLen : ℕ) : ℤ) + offset).toNat = row * bufLen + offset.toNat :=
    fun row => by omega
  have hload := Mem.load_shift (p := offset.toNat) (n := n.toNat - f.uncopied n.toNat) h.bytes
    (by omega)
  simp only [sendBytes, copyToUser, hat, hload]

/-- A copy from the user leaves the same bytes in either. -/
theorem copyFromUser_same {j l : ℕ} (h : SameRow j l s t) (data : List UInt8) (n : ℕ) (f : Fault) :
    ∀ i < bufLen, (copyFromUser s.message (j * bufLen) data n f).1 (j * bufLen + i) =
      (copyFromUser t.message (l * bufLen) data n f).1 (l * bufLen + i) := by
  have hshift := Mem.store_shift h.bytes 0
    (data.take (n - f.uncopied n) ++ f.junk.take (f.uncopied n))
  simpa only [copyFromUser, Nat.add_zero] using hshift

theorem devRead_state (drv : Driver) (s : State) (minor len : ℕ) (offset : ℤ) (f : Fault)
    (kr : ReadPc) : (devRead drv s minor len offset f kr).1 = s := by
  cases kr with
  | eof | clampTest =>
    simp only [devRead]
    split <;> rfl
  | clampAssign | copy n => rfl

section
variable {minor len : ℕ} {offset : ℤ} {data : List UInt8} {f : Fault}

/-- A read that stays in its row takes the same step in either. -/
theorem devRead_same (h : SameRow (drv.row minor) (drv'.row minor) s t) (kr : ReadPc)
    (hk : (Pc.devRead minor len offset f kr).Sound drv (drv.row minor) s) :
    devRead drv' t minor len offset f kr = (t, (devRead drv s minor len offset f kr).2) := by
  cases kr with
  | eof | clampTest =>
    simp only [devRead, h.size]
    split <;> rfl
  | clampAssign => simp only [devRead, h.size]
  | copy n =>
    obtain ⟨ha, hn, hend⟩ := hk rfl
    obtain ⟨h0, -, -⟩ := of_decide_eq_true ha
    simp only [devRead, sendBytes_same h h0 hn hend]

/-- A write takes the same step in either row, and leaves the same there. -/
theorem devWrite_same (h : SameRow (drv.row minor) (drv'.row minor) s t) (hs : Fit s)
    (kw : WritePc) : ∃ t',
      devWrite drv' t minor offset data f kw = (t', (devWrite drv s minor offset data f kw).2) ∧
        SameRow (drv.row minor) (drv'.row minor) (devWrite drv s minor offset data f kw).1 t' := by
  cases kw with
  | copy => exact ⟨_, rfl, h.size, copyFromUser_same h _ _ _⟩
  | storeSize n =>
    refine ⟨_, rfl, ?_, h.bytes⟩
    simp only [devWrite, Function.update_self]
  | terminate =>
    have hat := fun row => ((hs (drv.row minor)).at_row row).1
    have hshift := Mem.store_shift h.bytes (s.messageSize (drv.row minor)).toNat [0]
    refine ⟨_, rfl, h.size, ?_⟩
    simp only [devWrite, ← h.size, hat]
    exact hshift
  | ret =>
    refine ⟨t, ?_, h⟩
    simp only [devWrite, h.size]

end

/-- A step of one driver is a step of another, with the same message in the row of the process. -/
theorem next_same (hn : (fops ι drv).next p g s k = some (s', k', e)) (hs : Fit s)
    (hk : k.Sound drv (drv.row e.minor) s) (hlacks : drv.lacks e.minor = drv'.lacks e.minor)
    (hrow : SameRow (drv.row e.minor) (drv'.row e.minor) s t) :
    ∃ t', (fops ι drv').next p g t k = some (t', k', e) ∧
      SameRow (drv.row e.minor) (drv'.row e.minor) s' t' := by
  cases k with
  | idle =>
    simp only [fops, Option.ite_none_right_eq_some, Option.some.injEq, Prod.mk.injEq] at hn
    obtain ⟨hadm, rfl, rfl, rfl⟩ := hn
    have henter : drv'.enter g = drv.enter g := by
      unfold Driver.enter
      rw [show drv.lacks g.minor = drv'.lacks g.minor from hlacks]
    refine ⟨t, ?_, hrow⟩
    simp only [fops, hadm, if_true, henter]
  | noDevice c =>
    cases hn
    exact ⟨t, rfl, hrow⟩
  | devRead minor len offset f kr =>
    have hminor := (Step.of_next hn).minors.1 minor rfl
    rw [← hminor] at hk hrow ⊢
    have hread := devRead_same hrow kr hk
    have hstay := devRead_state drv s minor len offset f kr
    simp only [fops, Option.some.injEq] at hn ⊢
    rw [hn] at hread hstay
    obtain rfl : s' = s := hstay
    exact ⟨t, hread, hrow⟩
  | devWrite minor offset data f kw =>
    have hminor := (Step.of_next hn).minors.1 minor rfl
    rw [← hminor] at hrow ⊢
    obtain ⟨t', hwrite, hrow'⟩ := devWrite_same hrow hs kw
    simp only [fops, Option.some.injEq] at hn ⊢
    rw [hn] at hwrite hrow'
    exact ⟨t', hwrite, hrow'⟩

/-! ### One minor of the sixteen -/

/-- A process as seen from one minor: outside, unless it is busy there. -/
def Pc.only (m : ℕ) (k : Pc) : Pc := if k.minor = some m then k else .idle

theorem only_own {m : ℕ} (h : ∀ j, k.minor = some j → j = m) : k.only m = k := by
  cases hk : k.minor with
  | none => cases k <;> first | rfl | cases hk
  | some j =>
    rw [← h j hk]
    exact if_pos hk

theorem only_other {m : ℕ} (h : ∀ j, k.minor = some j → j ≠ m) : k.only m = .idle :=
  if_neg fun hk => h m hk rfl

theorem stores_only {m : ℕ} {n : ℤ} (h : (k.only m).stores .charDeviceDriver = some (0, n)) :
    k.stores .charDevMultibuf = some (m, n) := by
  unfold Pc.only at h
  split at h
  · rename_i hm
    cases k with
    | devWrite minor offset data f k =>
      cases hm
      cases k with
      | storeSize n' => cases h; rfl
      | _ => cases h
    | _ => cases h
  · cases h

theorem relies_only {m : ℕ} {offset : ℤ}
    (h : (k.only m).relies .charDeviceDriver = some (0, offset)) :
    k.relies .charDevMultibuf = some (m, offset) := by
  unfold Pc.only at h
  split at h
  · rename_i hm
    cases k with
    | devRead minor len offset' f k =>
      cases hm
      cases k with
      | clampTest | clampAssign => cases h; rfl
      | _ => cases h
    | _ => cases h
  · cases h

/-- The steps on one minor are those of `02`, and the others leave its row. -/
theorem sliced {m : ℕ} (hm : m < devMax) :
    Sliced (fops ι .charDevMultibuf) (fops ι .charDeviceDriver) (fun e => decide (e.minor = m))
      (Pc.only m) (SameRow m 0) fun s k => Fit s ∧ k.Sound .charDevMultibuf m s where
  own := by
    rintro p g s s' t k k' e ⟨hs, hk⟩ hrow hn he
    have hstep := Step.of_next hn
    obtain ⟨hmine, hmine'⟩ := hstep.minors
    have hminor := of_decide_eq_true he
    rw [hminor] at hmine hmine'
    rw [only_own hmine, only_own hmine']
    subst hminor
    refine next_same hn hs hk ?_ hrow
    exact decide_eq_false (Nat.not_le.mpr hm)
  other := by
    rintro p g s s' t k k' e ⟨hs, -⟩ hrow hn he
    have hstep := Step.of_next hn
    have hne : e.minor ≠ m := of_decide_eq_false he
    obtain ⟨hmine, hmine'⟩ := hstep.minors
    refine ⟨(hstep.other hs hne.symm).trans hrow, ?_⟩
    rw [only_other fun j hj => hmine' j hj ▸ hne, only_other fun j hj => hmine j hj ▸ hne]
  hear_own _ _ := rfl
  hear_other _ _ := rfl

/-- SEPARATE MINORS: in every interleaving of the steps of any number of processes that read and
    write the minors of `03`, the steps on minor `m` are an interleaving on a `02` device, with the
    same answers, and end with the same message and the same processes under way, if no write to
    minor `m` stores a size below the offset of a read of `m` that relies on it. -/
theorem minors_separate [DecidableEq ι] {m : ℕ} (hm : m < devMax) (tr : List (ι × Act))
    (c : Conf ι State Pc)
    (hrun : (fops ι .charDevMultibuf).Run (KeepsReads .charDevMultibuf m) (loaded ι) tr c) :
    ∃ d, (fops ι .charDeviceDriver).Run (KeepsReads .charDeviceDriver 0) (loaded ι)
        (sliceOf (fun e => decide (e.minor = m)) tr) d ∧
      Sliced.Beside (Pc.only m) (SameRow m 0) c d := by
  refine (sliced hm).run hrun ?_ ?_ ⟨⟨rfl, fun _ _ => rfl⟩, fun _ => rfl⟩
  · exact fun tr c hrun r => ⟨(fit_run hrun r).1, sound_run hrun r⟩
  · intro p g c d e c' hok _ _ hbeside n hn r offset hr
    rw [hbeside.pc] at hn hr
    exact hok n (stores_only hn) r offset (relies_only hr)

/-- `true` stores a message on minor 1 and reads it, while on minor 0 `false` stores ten bytes,
    reads behind the eighth and has its size shrink under it by a write of `true`. -/
def overrunBeside : List (Bool × Call) :=
  calls true (.write 1 0 [104, 105] {}) 4 ++ calls false (.write 0 0 (List.replicate 10 7) {}) 4 ++
  calls false (.read 0 4 8 ⟨2 ^ 64 - 1026, []⟩) 1 ++ calls true (.write 0 0 [1, 2] {}) 4 ++
  calls true (.read 1 64 0 {}) 1 ++ moves false 3 ++ moves true 3

theorem overrunBeside_runs :
    ((fops Bool .charDevMultibuf).exec (testing (KeepsReads .charDevMultibuf 1)) overrunBeside
      (loaded Bool)).isSome = true := by
  decide +kernel

/-- The run of `overrunBeside`. -/
def overrunBesideRun : List (Bool × Act) × Conf Bool State Pc :=
  ((fops Bool .charDevMultibuf).exec (testing (KeepsReads .charDevMultibuf 1)) overrunBeside
    (loaded Bool)).get overrunBeside_runs

/-- The read of minor 0 gets the message of minor 1 with it; minor 1 is none the wiser. -/
theorem minors_separate_overrunBeside :
    (overrunBesideRun.1.any fun x => match x.2 with
      | .answer (.read 0 _ _ _) (.read r) => (r.bytes.drop 1016).take 2 = [104, 105]
      | _ => false) = true ∧
    ∃ d, (fops Bool .charDeviceDriver).Run (KeepsReads .charDeviceDriver 0) (loaded Bool)
        (sliceOf (fun e => decide (e.minor = 1)) overrunBesideRun.1) d ∧
      Sliced.Beside (Pc.only 1) (SameRow 1 0) overrunBesideRun.2 d :=
  ⟨by decide +kernel,
    minors_separate (by decide) _ _ (Program.Run.of_exec testing_ok overrunBeside_runs)⟩

end Ldd.Message.Rows

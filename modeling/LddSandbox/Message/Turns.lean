import LddSandbox.Message.Rows
import LddSandbox.Schemes.Sharing

/-! A lock for each minor is enough. `02-char-device-driver`, `03-char-dev-multibuf` and
    `09-platform-driver` take none, and their calls are not atomic; but if those who call on one
    message share it as a file lock would have them, many reading or one writing, then that message
    is the abstract one, whatever is done to the others.

        row m:    read ─┬───────▶          write ──▶ ∙ ──▶ ∙ ──▶
                  read ─┴─▶ ∙ ──▶                                    as one call after the other
        row j:    write ──▶ ∙ ─── write ──▶ ∙ ──▶ .. read ──▶        anything at all              -/

namespace Ldd.Message.Rows
open Ldd.Schemes Ldd.Kernel CharDevMultibuf

/-- The rows there are. -/
def Driver.rows : Driver → ℕ
  | .charDevMultibuf => devMax
  | _ => 1

/-- The abstract message device, by the calls of the drivers. -/
def oneMessage : Machine (Msg bufLen) Call Answer
  | m, .read _ len offset f => (m, .read (m.read len offset f))
  | m, .write _ _ data f => ((m.write data f).1, .wrote (m.write data f).2)

/-- The part of a process in a row. -/
def Pc.role (drv : Driver) (row : ℕ) : Pc → Role
  | .devRead minor _ _ _ _ => if drv.row minor = row then .reads else .outside
  | .devWrite minor _ _ _ _ => if drv.row minor = row then .writes else .outside
  | _ => .outside

/-- A call is answered by the message in the row. -/
def answered (drv : Driver) (row : ℕ) : Act → Option (Call × Answer)
  | .answer c a => if drv.row c.minor = row then some (c, a) else none
  | _ => none

/-- A call on the row begins when nobody writes there, and a write when nobody is there at all. -/
def TakesTurns {ι : Type} (drv : Driver) (row : ℕ) (p : ι) (g : Call) (c : Conf ι State Pc) :
    Prop :=
  c.pc p = .idle → Admits (Pc.role drv row) c.pc (drv.enter g)

/-- The row holds the message. -/
def Held (row : ℕ) (m : Msg bufLen) (s : State) : Prop :=
  Holds m s.message (row * bufLen) (s.messageSize row)

/-- The row holds the bytes that a write has copied. -/
def Copied (row : ℕ) (data : List UInt8) (f : Fault) (s : State) : Prop :=
  s.message.load (row * bufLen) (Msg.kept bufLen data f) = data.take (Msg.kept bufLen data f)

/-- What a process in the row has of the message at its point. -/
def Pc.At (row : ℕ) (m : Msg bufLen) (s : State) : Pc → Prop
  | .devRead _ len offset _ k => admits offset len = true ∧ match k with
    | .eof => True
    | .clampTest => offset < s.messageSize row
    | .clampAssign => offset < s.messageSize row ∧ s.messageSize row < offset + len
    | .copy n => offset < s.messageSize row ∧ n = m.span len offset
  | .devWrite _ _ data f k => match k with
    | .copy => True
    | .storeSize n => n = Msg.kept bufLen data f ∧ Copied row data f s
    | .terminate => s.messageSize row = Msg.kept bufLen data f ∧ Copied row data f s
    | .ret => Held row (m.write data f).1 s
  | _ => True

/-- A process that is told there is no device asked for one that there is not. -/
def Pc.Lacks (drv : Driver) : Pc → Prop
  | .noDevice c => drv.lacks c.minor = true
  | _ => True

variable {ι : Type} {drv : Driver} {row : ℕ} {p : ι} {g : Call} {s s' : State} {k k' : Pc} {e : Act}
variable {m : Msg bufLen}

/-! ### Steps elsewhere -/

theorem Held.same (h : Held row m s) (hrow : SameRow row row s' s) : Held row m s' := by
  unfold Held
  rw [hrow.size]
  exact holds_row h hrow.bytes

theorem Copied.same {data : List UInt8} {f : Fault} (h : Copied row data f s)
    (hrow : SameRow row row s' s) : Copied row data f s' := by
  have hkept := Msg.kept_le bufLen data f
  have hload := Mem.load_shift (p := 0) (n := Msg.kept bufLen data f) hrow.bytes
    (hkept.trans (Nat.sub_le ..) |> (Nat.zero_add _).le.trans)
  rw [Nat.add_zero] at hload
  exact hload.trans h

/-- What a process has of the message stays as long as the row does. -/
theorem Pc.At.same (h : k.At row m s) (hrow : SameRow row row s' s) : k.At row m s' := by
  have hsize := hrow.size
  cases k with
  | devRead minor len offset f k =>
    cases k with
    | eof => exact h
    | clampTest | clampAssign | copy n =>
      refine ⟨h.1, ?_⟩
      simp only [hsize]
      exact h.2
  | devWrite minor offset data f k =>
    cases k with
    | copy => trivial
    | storeSize n => exact ⟨h.1, h.2.same hrow⟩
    | terminate => exact ⟨hsize.trans h.1, h.2.same hrow⟩
    | ret => exact Held.same h hrow
  | _ => trivial

/-- A process that is outside the row in a call is on another. -/
theorem row_ne_of_reads {minor len : ℕ} {offset : ℤ} {f : Fault} {kr : ReadPc}
    (h : (Pc.devRead minor len offset f kr).role drv row = .outside) : drv.row minor ≠ row := by
  intro heq
  simp [Pc.role, heq] at h

theorem row_ne_of_writes {minor : ℕ} {offset : ℤ} {data : List UInt8} {f : Fault} {kw : WritePc}
    (h : (Pc.devWrite minor offset data f kw).role drv row = .outside) : drv.row minor ≠ row := by
  intro heq
  simp [Pc.role, heq] at h

/-- A process outside the row leaves it. -/
theorem Step.outside (h : Step drv g s k s' k' e) (hs : Fit s) (hk : k.role drv row = .outside) :
    SameRow row row s' s := by
  cases h with
  | @write minor offset data f kw =>
    have hne : row ≠ drv.row minor := (row_ne_of_writes hk).symm
    have hstep : Step drv g s (.devWrite minor offset data f kw) _ _ _ := .write kw
    refine hstep.other hs ?_
    cases kw <;> exact hne
  | _ => exact .refl row s

/-- A process goes into the row with a new call. -/
theorem Step.goes_inside (h : Step drv g s k s' k' e) (hk : k.role drv row = .outside)
    (hk' : k'.role drv row ≠ .outside) : k = .idle ∧ k' = drv.enter g ∧ admitted g = true := by
  cases h with
  | enter hadm => exact ⟨rfl, rfl, hadm⟩
  | write kw => cases kw <;> first | exact absurd hk hk' | exact absurd rfl hk'
  | inside | long | short | clamp => exact absurd hk hk'
  | noDevice | pastEnd | copy => exact absurd rfl hk'

/-- A process outside the row answers nothing for it. -/
theorem Step.outside_answers (h : Step drv g s k s' k' e) (hrow : row < drv.rows)
    (hk : k.role drv row = .outside) (hlacks : k.Lacks drv) : answered drv row e = none := by
  cases h with
  | noDevice c =>
    refine if_neg ?_
    rintro rfl
    have hlacks : drv.lacks c.minor = true := hlacks
    cases drv with
    | charDevMultibuf => exact absurd (of_decide_eq_true hlacks) (Nat.not_le.mpr hrow)
    | _ => cases hlacks
  | write kw =>
    cases kw with
    | ret => exact if_neg (row_ne_of_writes hk)
    | _ => rfl
  | pastEnd | copy => exact if_neg (row_ne_of_reads hk)
  | _ => rfl

/-- A call begins with nothing of the message. -/
theorem at_enter (hadm : admitted g = true) : (drv.enter g).At row m s := by
  cases g <;> simp only [Driver.enter] <;> split
  · trivial
  · exact ⟨hadm, trivial⟩
  · trivial
  · trivial

/-! ### Steps in the row -/

theorem row_of_reads {minor len : ℕ} {offset : ℤ} {f : Fault} {kr : ReadPc}
    (h : (Pc.devRead minor len offset f kr).role drv row = .reads) : drv.row minor = row := by
  by_contra hne
  simp [Pc.role, hne] at h

theorem row_of_writes {minor : ℕ} {offset : ℤ} {data : List UInt8} {f : Fault} {kw : WritePc}
    (h : (Pc.devWrite minor offset data f kw).role drv row = .writes) : drv.row minor = row := by
  by_contra hne
  simp [Pc.role, hne] at h

/-- A reader leaves the state as it is, and is answered by the message. -/
theorem Step.reader (h : Step drv g s k s' k' e) (hk : k.role drv row = .reads)
    (hheld : Held row m s) (hat : k.At row m s) : s' = s ∧
      (k'.role drv row = .reads ∧ answered drv row e = none ∧ k'.At row m s ∨
        k'.role drv row = .outside ∧
          ∃ a b, answered drv row e = some (a, b) ∧ oneMessage m a = (m, b)) := by
  have hfits := Holds.fits hheld
  have hsize := Holds.size hheld
  have h1024 : bufLen = 1024 := rfl
  cases h with
  | enter | noDevice => cases hk
  | @write minor => simp only [Pc.role] at hk; split at hk <;> cases hk
  | @pastEnd minor len offset f hend =>
    obtain rfl := row_of_reads hk
    refine ⟨rfl, .inr ⟨rfl, _, _, if_pos rfl, ?_⟩⟩
    simp only [oneMessage]
    rw [m.read_end len f (by omega)]
  | @inside minor len offset f hin =>
    obtain rfl := row_of_reads hk
    exact ⟨rfl, .inl ⟨if_pos rfl, rfl, hat.1, Int.not_le.mp hin⟩⟩
  | @long minor len offset f hlong =>
    obtain rfl := row_of_reads hk
    obtain ⟨ha, hoff⟩ := hat
    obtain ⟨h0, hsum, -⟩ := of_decide_eq_true ha
    rw [u64_id (by omega) (by omega), u64_id (by omega) (by omega)] at hlong
    exact ⟨rfl, .inl ⟨if_pos rfl, rfl, ha, hoff, hlong⟩⟩
  | @short minor len offset f hshort =>
    obtain rfl := row_of_reads hk
    obtain ⟨ha, hoff⟩ := hat
    obtain ⟨h0, hsum, -⟩ := of_decide_eq_true ha
    rw [u64_id (by omega) (by omega), u64_id (by omega) (by omega)] at hshort
    refine ⟨rfl, .inl ⟨if_pos rfl, rfl, ha, hoff, ?_⟩⟩
    unfold Msg.span
    omega
  | @clamp minor len offset f =>
    obtain rfl := row_of_reads hk
    obtain ⟨ha, hoff, hlong⟩ := hat
    obtain ⟨h0, -, -⟩ := of_decide_eq_true ha
    refine ⟨rfl, .inl ⟨if_pos rfl, rfl, ha, hoff, ?_⟩⟩
    rw [s64_id (by omega) (by omega), u64_id (by omega) (by omega)]
    unfold Msg.span
    omega
  | @copy minor len offset n f =>
    obtain rfl := row_of_reads hk
    obtain ⟨ha, hoff, hn⟩ := hat
    obtain ⟨h0, -, -⟩ := of_decide_eq_true ha
    refine ⟨rfl, .inr ⟨rfl, _, _, if_pos rfl, ?_⟩⟩
    rw [Holds.sendBytes hheld (by decide) h0 hoff hn]
    rfl

theorem kept_length (data : List UInt8) (f : Fault) :
    (data.take (Msg.kept bufLen data f)).length = Msg.kept bufLen data f := by
  rw [List.length_take]
  exact Nat.min_eq_left ((Nat.sub_le _ _).trans (Nat.min_le_left _ _))

/-- The bytes are in the row once they are copied. -/
theorem copied (s : State) (row : ℕ) (data : List UInt8) (f : Fault) :
    Mem.load (copyFromUser s.message (row * bufLen) data (clampLen bufLen data).toNat f).1
      (row * bufLen) (Msg.kept bufLen data f) = data.take (Msg.kept bufLen data f) := by
  rw [clampLen_eq (by decide), Int.toNat_natCast]
  exact copyFromUser_prefix s.message _ f (Nat.min_le_left ..)

/-- With the size stored and the terminator behind them, the bytes copied are the message. -/
theorem Copied.held {data : List UInt8} {f : Fault} (h : Copied row data f s)
    (hsize : s.messageSize row = Msg.kept bufLen data f) :
    Held row (m.write data f).1
      ⟨s.message.store (row * bufLen + s.messageSize row).toNat [0], s.messageSize⟩ := by
  have hlen := kept_length data f
  have hat := ((fits_kept data f).at_row row).1
  rw [Int.toNat_natCast] at hat
  refine ⟨?_, ?_⟩
  · show s.messageSize row = ((data.take (Msg.kept bufLen data f)).length : ℤ)
    rw [hsize, hlen]
  · show Mem.load (s.message.store _ _) _ (data.take (Msg.kept bufLen data f)).length =
      data.take (Msg.kept bufLen data f)
    rw [hlen, hsize, hat, Mem.load_store_before _ _ (le_refl _)]
    exact h

/-- A writer ends with the new message in the row, and is answered by it. -/
theorem Step.writer (h : Step drv g s k s' k' e) (hk : k.role drv row = .writes)
    (hat : k.At row m s) :
    k'.role drv row = .writes ∧ answered drv row e = none ∧ k'.At row m s' ∨
      k'.role drv row = .outside ∧ ∃ a m' b, answered drv row e = some (a, b) ∧
        oneMessage m a = (m', b) ∧ Held row m' s' := by
  cases h with
  | @write minor offset data f kw =>
    obtain rfl := row_of_writes hk
    cases kw with
    | copy =>
      refine .inl ⟨if_pos rfl, rfl, ?_⟩
      simp only [devWrite, copyFromUser, noted_eq]
      exact ⟨rfl, copied s (drv.row minor) data f⟩
    | storeSize n =>
      refine .inl ⟨if_pos rfl, rfl, ?_, hat.2⟩
      exact (Function.update_self ..).trans hat.1
    | terminate => exact .inl ⟨if_pos rfl, rfl, hat.2.held hat.1⟩
    | ret =>
      have hheld : Held (drv.row minor) (m.write data f).1 s := hat
      refine .inr ⟨rfl, _, _, _, if_pos rfl, ?_, hheld⟩
      have hsize := Holds.size hheld
      have hlen : (m.write data f).1.bytes.length = Msg.kept bufLen data f := kept_length data f
      rw [hlen] at hsize
      simp only [oneMessage, hsize]
      rfl
  | enter | noDevice => cases hk
  | _ => simp only [Pc.role] at hk; split at hk <;> cases hk

/-! ### Every run -/

theorem shares (hrow : row < drv.rows) :
    Shares (fops ι drv) (Pc.role drv row) (answered drv row) oneMessage
      (fun s k => Fit s ∧ k.Lacks drv) (Held row) (Pc.At row) where
  aside := by
    rintro p g s s' k k' e m ⟨hs, hlacks⟩ hn hk
    have hstep := Step.of_next hn
    have hsame := hstep.outside hs hk
    refine ⟨hstep.outside_answers hrow hk hlacks,
      fun hheld => ⟨hheld.same hsame, fun hk' => ?_⟩, fun q hq => hq.same hsame⟩
    obtain ⟨-, rfl, hadm⟩ := hstep.goes_inside hk hk'
    exact at_enter hadm
  reader := by
    intro p g s s' k k' e m hn hk hheld hat
    obtain ⟨rfl, hown⟩ := (Step.of_next hn).reader hk hheld hat
    exact ⟨hheld, fun _ hq => hq, hown⟩
  writer hn hk hat := (Step.of_next hn).writer hk hat
  hear _ _ := ⟨rfl, fun _ _ h => h⟩

/-- Who is told that there is no device has asked for one that there is not. -/
theorem Step.lacks (h : Step drv g s k s' k' e) : k'.Lacks drv := by
  cases h with
  | enter =>
    unfold Driver.enter
    split
    · assumption
    · cases g <;> trivial
  | write kw => cases kw <;> trivial
  | _ => trivial

/-- TURNS: if the calls on one row take turns, many reading or one writing, then in every
    interleaving with any calls on the other rows, which need not take turns, they are answered as
    the abstract message device answers them one after the other, in the order of their answers;
    and the row holds its message while nobody writes there. -/
theorem turns_message [DecidableEq ι] (hrow : row < drv.rows) (tr : List (ι × Act))
    (c : Conf ι State Pc) (hrun : (fops ι drv).Run (TakesTurns drv row) (loaded ι) tr c) :
    let asked := commits (answered drv row) tr
    let r := oneMessage.run (Msg.empty bufLen) (asked.map Prod.fst)
    r.2 = asked.map Prod.snd ∧
      ((∀ p, (c.pc p).role drv row ≠ .writes) →
        Holds r.1 c.shared.message (row * bufLen) (c.shared.messageSize row)) := by
  have hknown : ∀ tr c, (fops ι drv).Run (TakesTurns drv row) (loaded ι) tr c →
      ∀ r, Fit c.shared ∧ (c.pc r).Lacks drv := by
    intro tr c hrun r
    refine ⟨(fit_run hrun r).1, ?_⟩
    refine hrun.own (J := fun _ k => k.Lacks drv) (fun _ => trivial) ?_ (fun _ _ _ h => h) r
    exact fun p g s k s' k' e _ _ hn => (Step.of_next hn).lacks
  have hturns : ∀ {p : ι} {g : Call} {c c' : Conf ι State Pc} {e : Act}, TakesTurns drv row p g c →
      (fops ι drv).fire p g c = some (e, c') → (c.pc p).role drv row = .outside →
      Admits (Pc.role drv row) c.pc (c'.pc p) := by
    intro p g c c' e hok hf hout
    have hstep := Step.of_next (Program.fire_spec hf).1
    by_cases hin : (c'.pc p).role drv row = .outside
    · rw [Admits, hin]
      exact ⟨nofun, nofun⟩
    · obtain ⟨hidle, henter, -⟩ := hstep.goes_inside hout hin
      rw [henter]
      exact hok hidle
  obtain ⟨hanswers, hshared⟩ := (shares hrow).linear hrun hknown hturns (fun _ => rfl) holds_empty
  exact ⟨hanswers, hshared.free⟩

/-- `TakesTurns` for two processes, as a test. -/
def takesTurns (drv : Driver) (row : ℕ) (p : Bool) (g : Call) (c : Conf Bool State Pc) : Bool :=
  match c.pc p with
  | .idle => [false, true].all fun r => match (drv.enter g).role drv row with
    | .outside => true
    | .reads => (c.pc r).role drv row ≠ .writes
    | .writes => (c.pc r).role drv row = .outside
  | _ => true

theorem takesTurns_ok (p : Bool) (g : Call) (c : Conf Bool State Pc)
    (h : takesTurns drv row p g c = true) : TakesTurns drv row p g c := by
  intro hidle
  rw [takesTurns, hidle] at h
  refine ⟨fun hrole r => ?_, fun hrole r => ?_⟩ <;>
  · have hr := List.all_eq_true.mp h r (by cases r <;> decide)
    simpa [hrole] using hr

/-- After a write to minor 1 two processes read it at once, and one of them writes to minor 0
    before it does. -/
def twoReaders : List (Bool × Call) :=
  calls true (.write 1 0 [104, 105] {}) 4 ++ calls true (.read 1 64 0 {}) 1 ++
  calls false (.write 0 0 [7] {}) 4 ++ calls false (.read 1 1 0 {}) 2 ++
  moves true 3 ++ moves false 1

theorem twoReaders_runs : ((fops Bool .charDevMultibuf).exec (takesTurns .charDevMultibuf 1)
    twoReaders (loaded Bool)).isSome = true := by
  decide +kernel

/-- The run of `twoReaders`. -/
def twoReadersRun : List (Bool × Act) × Conf Bool State Pc :=
  ((fops Bool .charDevMultibuf).exec (takesTurns .charDevMultibuf 1) twoReaders (loaded Bool)).get
    twoReaders_runs

theorem turns_message_twoReaders :
    let asked := commits (answered .charDevMultibuf 1) twoReadersRun.1
    asked.map Prod.snd = [.wrote 2, .read ⟨2, 2, [104, 105]⟩, .read ⟨1, 1, [104]⟩] ∧
      (oneMessage.run (Msg.empty bufLen) (asked.map Prod.fst)).2 = asked.map Prod.snd :=
  ⟨by decide +kernel, (turns_message (by decide) _ _
    (Program.Run.of_exec takesTurns_ok twoReaders_runs)).1⟩

end Ldd.Message.Rows

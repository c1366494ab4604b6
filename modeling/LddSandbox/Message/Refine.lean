import LddSandbox.Message.Drivers

/-! Five drivers, one message device. `Holds` relates a message to a range of memory and a size;
    both forms of a read give what the message gives, and both forms of a write leave the new
    message there (`Holds.readInt`, `Holds.readSize`, `Holds.writeInt`, `Holds.writeSize`). So
    every driver shows the abstract device, and its files answer every run of calls as the
    abstract ones do (`one_message_device`). -/

namespace Ldd.Message
open Ldd.Schemes Ldd.Kernel

variable {N : ℕ}

/-- The message lies in memory from `base` on, and `size` is its length. -/
structure Holds (m : Msg N) (mem : Mem UInt8) (base : ℕ) (size : ℤ) : Prop where
  size : size = m.bytes.length
  bytes : mem.load base m.bytes.length = m.bytes

variable {m : Msg N} {mem : Mem UInt8} {base : ℕ} {size : ℤ} {len : ℕ} {offset : ℤ}
variable {data : List UInt8} {f : Fault}

theorem Holds.fits (h : Holds m mem base size) : 0 ≤ size ∧ size ≤ (N - 1 : ℕ) := by
  have := h.size; have := m.room
  omega

/-! ### Reads -/

/-- The end of a read, when the clamped length stays inside the message. -/
theorem Holds.sendBytes (h : Holds m mem base size) (hN : N ≤ 1024) (h0 : 0 ≤ offset)
    (hoff : offset < size) {n : ℤ} (hn : n = m.span len offset) :
    sendBytes mem base n offset f = m.read len offset f := by
  have hfit := h.fits
  have hsize := h.size
  have hspan : (m.span len offset : ℤ) ≤ m.bytes.length - offset := by
    unfold Msg.span; omega
  have hk := f.uncopied_le (m.span len offset)
  set k := m.span len offset - f.uncopied (m.span len offset) with hkdef
  have hleft : (n - (f.uncopied (m.span len offset) : ℤ)) = (k : ℤ) := by omega
  have hret : s32 (u64 (n - (f.uncopied (m.span len offset) : ℤ))) = (k : ℤ) := by
    rw [hleft, u64_id (by omega) (by omega), s32_id (by omega) (by omega)]
  have hat : ((base : ℤ) + offset).toNat = base + offset.toNat := by omega
  have hlen : n.toNat = m.span len offset := by omega
  -- the bytes sent are those of the message
  have hbytes : mem.load (base + offset.toNat) k = (m.bytes.drop offset.toNat).take k := by
    have hdrop := congrArg (List.drop offset.toNat) h.bytes
    rw [Mem.drop_load _ (by omega)] at hdrop
    rw [← hdrop, Mem.take_load _ (by omega)]
  simp only [Message.sendBytes, copyToUser, hlen, hat, ← hkdef, hret, hbytes, Msg.read]
  rw [s64_id (by omega) (by omega)]

/-- At or past the end there is nothing to read. -/
theorem Msg.read_end (m : Msg N) (len : ℕ) (f : Fault) (h : (m.bytes.length : ℤ) ≤ offset) :
    m.read len offset f = ⟨0, offset, []⟩ := by
  have hspan : m.span len offset = 0 := by unfold Msg.span; omega
  simp [Msg.read, hspan]

theorem Holds.readInt (h : Holds m mem base size) (hN : N ≤ 1024)
    (ha : admits offset len = true) :
    readInt mem base size len offset f = m.read len offset f := by
  obtain ⟨h0, hsum, -⟩ := of_decide_eq_true ha
  have hfit := h.fits
  have hsize := h.size
  unfold Message.readInt
  split
  · rw [m.read_end]; omega
  · refine h.sendBytes hN h0 (by omega) ?_
    have hadd : u64 (offset + len) = offset + len := u64_id (by omega) (by omega)
    have hcap : u64 size = size := u64_id (by omega) (by omega)
    have hsub : u64 (s64 (size - offset)) = size - offset := by
      rw [s64_id (by omega) (by omega), u64_id (by omega) (by omega)]
    rw [hadd, hcap, hsub]
    unfold Msg.span
    split <;> omega

theorem Holds.readSize (h : Holds m mem base size) (hN : N ≤ 1024)
    (ha : admits offset len = true) :
    readSize mem base size len offset f = m.read len offset f := by
  obtain ⟨h0, hsum, -⟩ := of_decide_eq_true ha
  have hfit := h.fits
  have hsize := h.size
  have hoff : u64 offset = offset := u64_id h0 (by omega)
  unfold Message.readSize
  split
  · rw [m.read_end]; omega
  · refine h.sendBytes hN h0 (by omega) ?_
    have hadd : u64 (offset + len) = offset + len := u64_id (by omega) (by omega)
    have hsub : u64 (size - offset) = size - offset := u64_id (by omega) (by omega)
    rw [hadd, hsub]
    unfold Msg.span
    split <;> omega

/-! ### Writes -/

theorem clampLen_eq (hN : 0 < N) : clampLen N data = (min data.length (N - 1) : ℕ) := by
  unfold clampLen
  split <;> omega

/-- The bytes that were copied, as the drivers count them. -/
theorem clampLen_sub (hN : 0 < N) : clampLen N data - (f.uncopied (clampLen N data).toNat : ℤ) =
    Msg.kept N data f := by
  have := f.uncopied_le (min data.length (N - 1))
  rw [clampLen_eq hN, Int.toNat_natCast]
  unfold Msg.kept
  omega

/-- What a write leaves in memory: the copied prefix, and the terminator behind it. -/
theorem holds_write (m : Msg N) (mem : Mem UInt8) (base : ℕ) (data : List UInt8) (f : Fault)
    (hN : 0 < N) :
    Holds (m.write data f).1 (((copyFromUser mem base data (clampLen N data).toNat f).1).store
      ((base : ℤ) + Msg.kept N data f).toNat [0]) base (Msg.kept N data f) := by
  have hlen : (data.take (Msg.kept N data f)).length = Msg.kept N data f := by
    rw [List.length_take]
    exact Nat.min_eq_left ((Nat.sub_le _ _).trans (Nat.min_le_left _ _))
  have hat : ((base : ℤ) + Msg.kept N data f).toNat = base + Msg.kept N data f := by omega
  rw [clampLen_eq hN, Int.toNat_natCast, hat]
  refine ⟨?_, ?_⟩
  · show _ = ((data.take (Msg.kept N data f)).length : ℤ)
    rw [hlen]
  · show Mem.load _ base (data.take (Msg.kept N data f)).length = data.take (Msg.kept N data f)
    rw [hlen, Mem.load_store_before _ _ (le_refl _)]
    exact copyFromUser_prefix mem base f (Nat.min_le_left _ _)

/-- What a write must do: leave the new message, and have its length as the size. -/
def Writes (m : Msg N) (base : ℕ) (data : List UInt8) (f : Fault) (r : Mem UInt8 × ℤ) : Prop :=
  Holds (m.write data f).1 r.1 base r.2 ∧ r.2 = (m.write data f).2

/-- A write with an `int message_size`, with the numbers as they are. -/
theorem writeInt_eq (mem : Mem UInt8) (base : ℕ) (data : List UInt8) (f : Fault)
    (h0 : 0 < N) (hN : N ≤ 1024) : writeInt N mem base data f =
      (((copyFromUser mem base data (clampLen N data).toNat f).1).store
        ((base : ℤ) + Msg.kept N data f).toNat [0], (Msg.kept N data f : ℤ)) := by
  have hk := Msg.kept_le N data f
  have hsize : s32 (u64 (Msg.kept N data f)) = Msg.kept N data f := by
    rw [u64_id (by omega) (by omega), s32_id (by omega) (by omega)]
  simp only [writeInt, copyFromUser, clampLen_sub h0, hsize]

/-- A write with a `size_t buffer_size`, with the numbers as they are. -/
theorem writeSize_eq (mem : Mem UInt8) (base : ℕ) (data : List UInt8) (f : Fault)
    (h0 : 0 < N) (hN : N ≤ 1024) : writeSize N mem base data f =
      (((copyFromUser mem base data (clampLen N data).toNat f).1).store
        ((base : ℤ) + Msg.kept N data f).toNat [0], (Msg.kept N data f : ℤ)) := by
  have hk := Msg.kept_le N data f
  have hsize : u64 (Msg.kept N data f) = Msg.kept N data f := u64_id (by omega) (by omega)
  simp only [writeSize, copyFromUser, clampLen_sub h0, hsize]

theorem writes_int (m : Msg N) (mem : Mem UInt8) (base : ℕ) (data : List UInt8) (f : Fault)
    (h0 : 0 < N) (hN : N ≤ 1024) : Writes m base data f (writeInt N mem base data f) := by
  rw [writeInt_eq mem base data f h0 hN]
  exact ⟨holds_write m mem base data f h0, rfl⟩

theorem writes_size (m : Msg N) (mem : Mem UInt8) (base : ℕ) (data : List UInt8) (f : Fault)
    (h0 : 0 < N) (hN : N ≤ 1024) : Writes m base data f (writeSize N mem base data f) := by
  rw [writeSize_eq mem base data f h0 hN]
  exact ⟨holds_write m mem base data f h0, rfl⟩

/-! ### The five drivers -/

theorem CharDeviceDriver.shows : Shows CharDeviceDriver.ops fun (m : Msg CharDeviceDriver.bufLen) s =>
    Holds m s.message 0 s.messageSize where
  read f h ha := h.readInt (by decide) ha
  write {m s data} f _ _ := writes_int m s.message 0 data f (by decide) (by decide)

theorem CharDevMultibuf.shows (minor : Fin devMax) :
    Shows (CharDevMultibuf.ops minor) fun (m : Msg CharDevMultibuf.bufLen) s =>
      Holds m s.message (minor * bufLen) (s.messageSize minor) where
  read f h ha := by
    have hlt : ¬ (minor : ℕ) ≥ devMax := Nat.not_le.mpr minor.isLt
    simp only [ops, devRead, if_neg hlt]
    exact h.readInt (by decide) ha
  write {m s data} f _ _ := by
    have hlt : ¬ (minor : ℕ) ≥ devMax := Nat.not_le.mpr minor.isLt
    have hw := writes_int m s.message (minor * bufLen) data f (N := bufLen) (by decide) (by decide)
    simp only [ops, devWrite, if_neg hlt, Function.update_self]
    exact hw

theorem s64_kept {x : ℤ} (h : x = Msg.kept 256 data f) : s64 x = x := by
  have := Msg.kept_le 256 data f
  exact s64_id (by omega) (by omega)

theorem CharDevIoctl.shows : Shows CharDevIoctl.ops fun (m : Msg CharDevIoctl.bufLen) dev =>
    Holds m dev.buffer 0 dev.bufferSize where
  read f h ha := h.readSize (by decide) ha
  write {m dev data} f _ _ := by
    obtain ⟨hh, hret⟩ := writes_size m dev.buffer 0 data f (N := bufLen) (by decide) (by decide)
    exact ⟨hh, (s64_kept hret).trans hret⟩

theorem CharDevAutoNode.shows : Shows CharDevAutoNode.ops fun (m : Msg CharDevAutoNode.bufLen) dev =>
    Holds m dev.buffer 0 dev.bufferSize where
  read f h ha := h.readSize (by decide) ha
  write {m dev data} f _ _ := by
    obtain ⟨hh, hret⟩ := writes_size m dev.buffer 0 data f (N := bufLen) (by decide) (by decide)
    exact ⟨hh, (s64_kept hret).trans hret⟩

theorem PlatformDriver.shows : Shows PlatformDriver.ops fun (m : Msg PlatformDriver.bufLen) dev =>
    Holds m dev.message 0 dev.messageSize where
  read f h ha := h.readInt (by decide) ha
  write {m dev data} f _ _ := writes_int m dev.message 0 data f (by decide) (by decide)

theorem holds_empty {base : ℕ} : Holds (Msg.empty N) mem base 0 := ⟨rfl, rfl⟩

/-- What `snprintf` wrote and `strlen` counts lies before the terminator. -/
theorem CharDevAutoNode.strlen_snprintf (size : ℕ) (text : List UInt8) :
    strlen (snprintf size text) ≤ size - 1 := by
  have hcut : ∀ l : List UInt8, (l ++ [0]).takeWhile (· ≠ 0) = l.takeWhile (· ≠ 0) := by
    intro l
    induction l with
    | nil => rfl
    | cons b l ih =>
      rw [List.cons_append, List.takeWhile_cons, List.takeWhile_cons, ih]
  rw [strlen, snprintf, hcut]
  exact (List.takeWhile_prefix _).length_le.trans (List.length_take_le _ _)

/-- The message of `05`'s device after `init_device`. -/
def CharDevAutoNode.initMsg (index : ℕ) : Msg CharDevAutoNode.bufLen where
  bytes := (snprintf bufLen (defaultMessage index)).takeWhile (· ≠ 0)
  room := strlen_snprintf bufLen (defaultMessage index)

/-- A string stored in a cleared buffer is there up to its terminator. -/
theorem CharDevAutoNode.holds_string {m : Msg N} (buffer : List UInt8)
    (h : m.bytes = buffer.takeWhile (· ≠ 0)) :
    Holds m (Mem.store (fun _ => 0) 0 buffer) 0 (strlen buffer) := by
  have hprefix : m.bytes <+: buffer := by rw [h]; exact List.takeWhile_prefix _
  have hcut := congrArg (List.take m.bytes.length)
    (Mem.load_store_self (fun _ => (0 : UInt8)) 0 buffer)
  rw [Mem.take_load _ hprefix.length_le, ← List.prefix_iff_eq_take.mp hprefix] at hcut
  exact ⟨by rw [strlen, h], hcut⟩

theorem CharDevAutoNode.holds_init (index : ℕ) :
    Holds (initMsg index) (initDevice index).buffer 0 (initDevice index).bufferSize :=
  holds_string (m := initMsg index) (snprintf bufLen (defaultMessage index)) rfl

/-- The files over a driver answer every run of calls as those over the abstract device do, move
    their offsets alike, and leave the driver with the abstract device's message. -/
def AnswersAs (φ : Type) [DecidableEq φ] {σ : Type} {N : ℕ} (D : Ops σ) (s : σ) (m : Msg N)
    (R : Msg N → σ → Prop) : Prop :=
  ∀ (pos : φ → ℤ) (calls : List (FileCall φ)),
    ((files φ D).run (s, pos) calls).2 = ((files φ (Msg.ops N)).run (m, pos) calls).2 ∧
    ((files φ D).run (s, pos) calls).1.2 = ((files φ (Msg.ops N)).run (m, pos) calls).1.2 ∧
    R ((files φ (Msg.ops N)).run (m, pos) calls).1.1 ((files φ D).run (s, pos) calls).1.1

theorem Shows.answersAs {φ σ : Type} [DecidableEq φ] {D : Ops σ} {R : Msg N → σ → Prop}
    (h : Shows D R) {s : σ} (hs : R m s) : AnswersAs φ D s m R := by
  intro pos calls
  obtain ⟨⟨hR, hpos⟩, hout⟩ := h.simulation.run (s := (s, pos)) (t := (m, pos)) ⟨hs, rfl⟩ calls
  exact ⟨hout, hpos, hR⟩

/-- Two drivers that answer as the same message answer alike. -/
theorem AnswersAs.alike {φ σ τ : Type} [DecidableEq φ] {D : Ops σ} {E : Ops τ} {s : σ} {t : τ}
    {R : Msg N → σ → Prop} {S : Msg N → τ → Prop} (h : AnswersAs φ D s m R)
    (h' : AnswersAs φ E t m S) (pos : φ → ℤ) (calls : List (FileCall φ)) :
    ((files φ D).run (s, pos) calls).2 = ((files φ E).run (t, pos) calls).2 :=
  (h pos calls).1.trans (h' pos calls).1.symm

/-- ONE MESSAGE DEVICE: for every run of reads and writes from any number of open files, whatever
    their offsets, lengths and faults, each driver answers as the abstract message device with its
    `BUF_LEN` does; so the three drivers with the same `BUF_LEN` and no first message answer alike,
    although one has a message for each minor. -/
theorem one_message_device (φ : Type) [DecidableEq φ] :
    AnswersAs φ CharDeviceDriver.ops CharDeviceDriver.init (Msg.empty CharDeviceDriver.bufLen)
        (fun m s => Holds m s.message 0 s.messageSize) ∧
    (∀ minor : Fin CharDevMultibuf.devMax, AnswersAs φ (CharDevMultibuf.ops minor)
        CharDevMultibuf.init (Msg.empty CharDevMultibuf.bufLen)
        fun m s => Holds m s.message (minor * CharDevMultibuf.bufLen) (s.messageSize minor)) ∧
    AnswersAs φ CharDevIoctl.ops CharDevIoctl.init (Msg.empty CharDevIoctl.bufLen)
        (fun m dev => Holds m dev.buffer 0 dev.bufferSize) ∧
    (∀ index : ℕ, AnswersAs φ CharDevAutoNode.ops (CharDevAutoNode.initDevice index)
        (CharDevAutoNode.initMsg index) fun m dev => Holds m dev.buffer 0 dev.bufferSize) ∧
    AnswersAs φ PlatformDriver.ops PlatformDriver.init (Msg.empty PlatformDriver.bufLen)
        (fun m dev => Holds m dev.message 0 dev.messageSize) ∧
    ∀ (minor : Fin CharDevMultibuf.devMax) (pos : φ → ℤ) (calls : List (FileCall φ)),
      ((files φ CharDeviceDriver.ops).run (CharDeviceDriver.init, pos) calls).2 =
          ((files φ (CharDevMultibuf.ops minor)).run (CharDevMultibuf.init, pos) calls).2 ∧
        ((files φ CharDeviceDriver.ops).run (CharDeviceDriver.init, pos) calls).2 =
          ((files φ PlatformDriver.ops).run (PlatformDriver.init, pos) calls).2 := by
  have h02 := CharDeviceDriver.shows.answersAs (φ := φ) (s := CharDeviceDriver.init) holds_empty
  have h03 := fun minor => (CharDevMultibuf.shows minor).answersAs (φ := φ)
    (s := CharDevMultibuf.init) holds_empty
  have h04 := CharDevIoctl.shows.answersAs (φ := φ) (s := CharDevIoctl.init) holds_empty
  have h05 := fun index => CharDevAutoNode.shows.answersAs (φ := φ) (CharDevAutoNode.holds_init index)
  have h09 := PlatformDriver.shows.answersAs (φ := φ) (s := PlatformDriver.init) holds_empty
  refine ⟨h02, h03, h04, h05, h09, fun minor pos calls => ⟨?_, ?_⟩⟩
  · exact h02.alike (h03 minor) pos calls
  · exact h02.alike h09 pos calls

end Ldd.Message

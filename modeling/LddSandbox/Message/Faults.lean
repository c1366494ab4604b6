import LddSandbox.Message.Isolation

/-! Faulting copies of the message devices. The drivers count what a copy moved and make that count
    their result, so a copy that stops after some bytes is reported as a short read or write; but a
    copy that moves nothing gives `0`, which is also what a read gives at the end of the message, and
    a write then leaves the empty message.

        copied:       0                          j > 0
        write:        returns 0, message empty   returns j, message = first j bytes
        read:         returns 0                  returns j, offset moves by j

    `FaultsReported` is what a caller may expect, with `-EFAULT` for a copy that moved nothing, and
    `Shows.write_reported_iff` and `Shows.read_reported_iff` say when a driver does so. -/

namespace Ldd.Message
open Ldd.Schemes Ldd.Kernel

variable {σ : Type} {N : ℕ}

/-- The bytes that the copy of a read moves. -/
def Msg.copied (m : Msg N) (len : ℕ) (offset : ℤ) (f : Fault) : ℕ :=
  m.span len offset - f.uncopied (m.span len offset)

/-- A write reports its copy: one that moved nothing gives `-EFAULT` and keeps the message, and one
    that moved `j` bytes gives `j`, with these bytes as the message. -/
structure ReportsWrite (D : Ops σ) (R : Msg N → σ → Prop) (m : Msg N) (s : σ) (data : List UInt8)
    (f : Fault) : Prop where
  nothing : Msg.kept N data f = 0 → (D.write s data f).2 = -EFAULT ∧ R m (D.write s data f).1
  some : 0 < Msg.kept N data f → (D.write s data f).2 = Msg.kept N data f ∧
    ∃ m' : Msg N, m'.bytes = data.take (Msg.kept N data f) ∧ R m' (D.write s data f).1

/-- A read reports its copy: at the end of the message it gives `0`, and below the end `-EFAULT` if
    the copy moved nothing, and `j` with an offset moved by `j` if it moved `j` bytes. -/
structure ReportsRead (D : Ops σ) (m : Msg N) (s : σ) (len : ℕ) (offset : ℤ) (f : Fault) : Prop where
  zero : (D.read s len offset f).ret = 0 ↔ m.bytes.length ≤ offset
  nothing : offset < m.bytes.length → m.copied len offset f = 0 →
    (D.read s len offset f).ret = -EFAULT ∧ (D.read s len offset f).offset = offset
  some : 0 < m.copied len offset f → (D.read s len offset f).ret = m.copied len offset f ∧
    (D.read s len offset f).offset = offset + m.copied len offset f ∧
    (D.read s len offset f).bytes = (m.bytes.drop offset.toNat).take (m.copied len offset f)

variable {D : Ops σ} {R : Msg N → σ → Prop} {m : Msg N} {s : σ} {data : List UInt8} {len : ℕ}
variable {offset : ℤ} {f : Fault}

theorem natCast_ne_neg_EFAULT (n : ℕ) : (n : ℤ) ≠ -EFAULT :=
  ne_of_gt (lt_of_lt_of_le (show -EFAULT < 0 by decide) (Int.natCast_nonneg n))

/-- A write reports its copy exactly if the copy moves at least one byte. -/
theorem Shows.write_reported_iff (h : Shows D R) (hR : R m s) (hlen : data.length ≤ maxRwCount) :
    ReportsWrite D R m s data f ↔ 0 < Msg.kept N data f := by
  obtain ⟨hR', hret⟩ := h.write f hR hlen
  constructor
  · intro hw
    by_contra h0
    have hfault := (hw.nothing (Nat.eq_zero_of_not_pos h0)).1
    exact natCast_ne_neg_EFAULT _ (hret.symm.trans hfault)
  · intro hpos
    exact ⟨fun h0 => absurd h0 hpos.ne', fun _ => ⟨hret, _, rfl, hR'⟩⟩

/-- A read reports its copy exactly if it is at the end of the message, or the copy moves at least
    one byte. -/
theorem Shows.read_reported_iff (h : Shows D R) (hR : R m s) (ha : admits offset len = true) :
    ReportsRead D m s len offset f ↔
      m.bytes.length ≤ offset ∨ 0 < m.copied len offset f := by
  have hread := h.read f hR ha
  have hret : (D.read s len offset f).ret = m.copied len offset f := by rw [hread]; rfl
  constructor
  · intro hr
    by_contra hno
    obtain ⟨hbelow, h0⟩ := not_or.mp hno
    have hfault := (hr.nothing (not_le.mp hbelow) (Nat.eq_zero_of_not_pos h0)).1
    exact natCast_ne_neg_EFAULT _ (hret.symm.trans hfault)
  · intro hcond
    have hend : m.bytes.length ≤ offset → m.copied len offset f = 0 := by
      intro hle
      unfold Msg.copied Msg.span
      omega
    refine ⟨?_, fun hbelow h0 => ?_, fun hpos => ⟨hret, ?_, ?_⟩⟩
    · rw [hret]
      constructor
      · intro h0
        exact hcond.resolve_right (by omega)
      · intro hle
        rw [hend hle]
        rfl
    · rcases hcond with hle | hpos
      · exact absurd hle (not_le.mpr hbelow)
      · exact absurd h0 hpos.ne'
    · rw [hread]
      rfl
    · rw [hread]
      rfl

/-! ### The five drivers -/

/-- When the calls of a driver that ask for some bytes report a copy that ends as `f`. -/
structure ReportedIff (D : Ops σ) (R : Msg N → σ → Prop) (f : Fault) : Prop where
  write : ∀ m s data, R m s → data ≠ [] → data.length ≤ maxRwCount →
    (ReportsWrite D R m s data f ↔ 0 < Msg.kept N data f)
  read : ∀ m s len offset, R m s → 0 < len → admits offset len = true →
    (ReportsRead D m s len offset f ↔ m.bytes.length ≤ offset ∨ 0 < m.copied len offset f)

theorem Shows.reportedIff (h : Shows D R) (f : Fault) : ReportedIff D R f where
  write _ _ _ hR _ hlen := h.write_reported_iff hR hlen
  read _ _ _ _ hR _ ha := h.read_reported_iff hR ha

/-- FAULTING COPIES: however a copy ends, in every state of each of the five drivers, a write of
    some bytes reports its copy exactly if the copy moves at least one byte, and a read of some
    bytes exactly if it is at the end of the message or its copy moves at least one byte. (A minor
    past the last device has no message, and its calls give `-ENODEV`.) -/
theorem faults_reported_iff (f : Fault) :
    ReportedIff CharDeviceDriver.ops (fun (m : Msg CharDeviceDriver.bufLen) s =>
      Holds m s.message 0 s.messageSize) f ∧
    (∀ minor : Fin CharDevMultibuf.devMax, ReportedIff (CharDevMultibuf.ops minor)
      (fun (m : Msg CharDevMultibuf.bufLen) s =>
        Holds m s.message (minor * CharDevMultibuf.bufLen) (s.messageSize minor)) f) ∧
    (∀ minor, CharDevMultibuf.devMax ≤ minor → ∀ s len offset data,
      CharDevMultibuf.devRead minor s len offset f = ⟨-ENODEV, offset, []⟩ ∧
        CharDevMultibuf.devWrite minor s data f = (s, -ENODEV)) ∧
    ReportedIff CharDevIoctl.ops (fun (m : Msg CharDevIoctl.bufLen) dev =>
      Holds m dev.buffer 0 dev.bufferSize) f ∧
    ReportedIff CharDevAutoNode.ops (fun (m : Msg CharDevAutoNode.bufLen) dev =>
      Holds m dev.buffer 0 dev.bufferSize) f ∧
    ReportedIff PlatformDriver.ops (fun (m : Msg PlatformDriver.bufLen) dev =>
      Holds m dev.message 0 dev.messageSize) f :=
  ⟨CharDeviceDriver.shows.reportedIff f, fun minor => (CharDevMultibuf.shows minor).reportedIff f,
    fun _ hminor s len offset data => CharDevMultibuf.no_device hminor s len offset data f,
    CharDevIoctl.shows.reportedIff f, CharDevAutoNode.shows.reportedIff f,
    PlatformDriver.shows.reportedIff f⟩

/-- Every read and write of some bytes reports its copy. -/
def FaultsReported (D : Ops σ) (R : Msg N → σ → Prop) : Prop :=
  (∀ m s data f, R m s → data ≠ [] → data.length ≤ maxRwCount → ReportsWrite D R m s data f) ∧
    ∀ m s len offset f, R m s → 0 < len → admits offset len = true → ReportsRead D m s len offset f

/-- A write of one byte whose copy faults at once gives `0`. -/
theorem Shows.not_reported (h : Shows D R) (hR : R m s) : ¬ FaultsReported D R := by
  rintro ⟨hwrite, -⟩
  have hone : [(1 : UInt8)].length ≤ maxRwCount := by decide
  have hreports := hwrite m s [1] { left := 1 } hR (List.cons_ne_nil _ _) hone
  have hkept := (h.write_reported_iff hR hone).mp hreports
  simp only [Msg.kept, Fault.uncopied, List.length_singleton] at hkept
  omega

theorem not_faults_reported :
    (¬ FaultsReported CharDeviceDriver.ops fun (m : Msg CharDeviceDriver.bufLen) s =>
      Holds m s.message 0 s.messageSize) ∧
    (∀ minor : Fin CharDevMultibuf.devMax, ¬ FaultsReported (CharDevMultibuf.ops minor)
      fun (m : Msg CharDevMultibuf.bufLen) s =>
        Holds m s.message (minor * CharDevMultibuf.bufLen) (s.messageSize minor)) ∧
    (¬ FaultsReported CharDevIoctl.ops fun (m : Msg CharDevIoctl.bufLen) dev =>
      Holds m dev.buffer 0 dev.bufferSize) ∧
    (¬ FaultsReported CharDevAutoNode.ops fun (m : Msg CharDevAutoNode.bufLen) dev =>
      Holds m dev.buffer 0 dev.bufferSize) ∧
    ¬ FaultsReported PlatformDriver.ops fun (m : Msg PlatformDriver.bufLen) dev =>
      Holds m dev.message 0 dev.messageSize :=
  ⟨CharDeviceDriver.shows.not_reported (s := CharDeviceDriver.init) holds_empty,
    fun minor => (CharDevMultibuf.shows minor).not_reported (s := CharDevMultibuf.init) holds_empty,
    CharDevIoctl.shows.not_reported (s := CharDevIoctl.init) holds_empty,
    CharDevAutoNode.shows.not_reported (CharDevAutoNode.holds_init 0),
    PlatformDriver.shows.not_reported (s := PlatformDriver.init) holds_empty⟩

end Ldd.Message

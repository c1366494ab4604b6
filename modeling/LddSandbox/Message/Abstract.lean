import LddSandbox.Kernel.UserCopy
import LddSandbox.Schemes.Machine
import Mathlib.Logic.Function.Basic

/-! What a message device is for: it holds one message, a write replaces it and a read returns a
    range of it. `Msg` is that device; `Ops` is what a driver gives for it, and `files` the machine
    of the open files over it, each with an offset of its own, behind the checks of the VFS.

        write d:   m ──▶ d[0 .. min |d| (N - 1))
        read:      m[off .. off + n),   off ──▶ off + n -/

namespace Ldd.Message
open Ldd.Schemes Ldd.Kernel

/-- What a read gives: the value returned, the offset afterwards, the bytes the user got. -/
structure ReadResult where
  ret : ℤ
  offset : ℤ
  bytes : List UInt8
  deriving DecidableEq, Repr

/-- The reads and writes of a driver. A write leaves the file's offset alone. -/
structure Ops (σ : Type) where
  read : σ → ℕ → ℤ → Fault → ReadResult
  write : σ → List UInt8 → Fault → σ × ℤ

/-- The message of a device with room for `N` bytes and the terminator among them. -/
structure Msg (N : ℕ) where
  bytes : List UInt8
  room : bytes.length ≤ N - 1

namespace Msg
variable {N : ℕ}

@[ext] theorem ext {m m' : Msg N} (h : m.bytes = m'.bytes) : m = m' := by
  cases m; cases m'; cases h; rfl

/-- No message. -/
def empty (N : ℕ) : Msg N := ⟨[], Nat.zero_le _⟩

/-- The number of bytes a read asks of the message. -/
def span (m : Msg N) (len : ℕ) (offset : ℤ) : ℕ := (min (len : ℤ) (m.bytes.length - offset)).toNat

/-- A read: the bytes from `offset` on, less the ones not copied. -/
def read (m : Msg N) (len : ℕ) (offset : ℤ) (f : Fault) : ReadResult :=
  let n := m.span len offset - f.uncopied (m.span len offset)
  ⟨n, offset + n, (m.bytes.drop offset.toNat).take n⟩

/-- The number of bytes a write stores. -/
def kept (N : ℕ) (data : List UInt8) (f : Fault) : ℕ :=
  min data.length (N - 1) - f.uncopied (min data.length (N - 1))

theorem kept_le (N : ℕ) (data : List UInt8) (f : Fault) : kept N data f ≤ N - 1 :=
  (Nat.sub_le _ _).trans (Nat.min_le_right _ _)

/-- A write: the copied prefix is the new message. -/
def write (_ : Msg N) (data : List UInt8) (f : Fault) : Msg N × ℤ :=
  (⟨data.take (kept N data f), (List.length_take_le _ _).trans (kept_le N data f)⟩, kept N data f)

/-- The abstract message device. -/
def ops (N : ℕ) : Ops (Msg N) := ⟨read, write⟩

end Msg

/-- `MAX_RW_COUNT` -/
def maxRwCount : ℕ := 0x7ffff000

/-- What the VFS lets through to a driver. -/
def admits (offset : ℤ) (len : ℕ) : Bool :=
  decide (0 ≤ offset ∧ offset + len ≤ 2 ^ 63 - 1 ∧ len ≤ maxRwCount)

/-- A call on an open file, with how its copy ends. -/
inductive FileCall (φ : Type)
  | read (file : φ) (len : ℕ) (f : Fault)
  | pread (offset : ℤ) (len : ℕ) (f : Fault)
  | write (file : φ) (data : List UInt8) (f : Fault)
  | pwrite (offset : ℤ) (data : List UInt8) (f : Fault)

inductive Answer
  | refused
  | read (r : ReadResult)
  | wrote (ret : ℤ)
  deriving DecidableEq, Repr

/-- The open files of a device: a read moves the offset of its own file. -/
def files {σ : Type} (φ : Type) [DecidableEq φ] (D : Ops σ) :
    Machine (σ × (φ → ℤ)) (FileCall φ) Answer
  | (s, pos), .read file len f =>
    if admits (pos file) len then
      let r := D.read s len (pos file) f
      ((s, Function.update pos file r.offset), .read r)
    else ((s, pos), .refused)
  | (s, pos), .pread offset len f =>
    if admits offset len then ((s, pos), .read (D.read s len offset f)) else ((s, pos), .refused)
  | (s, pos), .write file data f =>
    if admits (pos file) data.length then
      let (s', ret) := D.write s data f
      ((s', pos), .wrote ret)
    else ((s, pos), .refused)
  | (s, pos), .pwrite offset data f =>
    if admits offset data.length then
      let (s', ret) := D.write s data f
      ((s', pos), .wrote ret)
    else ((s, pos), .refused)

/-- A driver shows the abstract device: on every admitted call it gives what the message gives. -/
structure Shows {σ : Type} {N : ℕ} (D : Ops σ) (R : Msg N → σ → Prop) : Prop where
  read : ∀ {m s len offset} (f : Fault), R m s → admits offset len = true →
    D.read s len offset f = m.read len offset f
  write : ∀ {m s data} (f : Fault), R m s → data.length ≤ maxRwCount →
    R (m.write data f).1 (D.write s data f).1 ∧ (D.write s data f).2 = (m.write data f).2

theorem admits_len {offset : ℤ} {len : ℕ} (h : admits offset len = true) : len ≤ maxRwCount :=
  (of_decide_eq_true h).2.2

variable {σ φ : Type} [DecidableEq φ] {N : ℕ} {D : Ops σ} {R : Msg N → σ → Prop}

/-- Agreement of the operations is agreement of the files over them. -/
theorem Shows.simulation (h : Shows D R) :
    (files φ D).Simulation (files φ (Msg.ops N)) fun s t => R t.1 s.1 ∧ s.2 = t.2 := by
  rintro ⟨s, pos⟩ ⟨m, pos'⟩ call ⟨hR, rfl⟩
  cases call with
  | read file len f =>
    simp only [files]
    split
    · rename_i ha
      rw [h.read f hR ha]
      exact ⟨⟨hR, rfl⟩, rfl⟩
    · exact ⟨⟨hR, rfl⟩, rfl⟩
  | pread offset len f =>
    simp only [files]
    split
    · rename_i ha
      rw [h.read f hR ha]
      exact ⟨⟨hR, rfl⟩, rfl⟩
    · exact ⟨⟨hR, rfl⟩, rfl⟩
  | write file data f =>
    simp only [files]
    split
    · rename_i ha
      obtain ⟨hR', hret⟩ := h.write f hR (admits_len ha)
      exact ⟨⟨hR', rfl⟩, congrArg Answer.wrote hret⟩
    · exact ⟨⟨hR, rfl⟩, rfl⟩
  | pwrite offset data f =>
    simp only [files]
    split
    · rename_i ha
      obtain ⟨hR', hret⟩ := h.write f hR (admits_len ha)
      exact ⟨⟨hR', rfl⟩, congrArg Answer.wrote hret⟩
    · exact ⟨⟨hR, rfl⟩, rfl⟩

end Ldd.Message

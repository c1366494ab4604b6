import LddSandbox.Ioctl.Registers

/-! `IOCTL_RESET` of `04-char-dev-ioctl` against `chardev_init`, seen by what comes after.

    A reset clears the mode, the size and the buffer, which is what `chardev_init` starts with; but
    it stores `0` as the speed, and `chardev_init` stores `100`. Two devices that differ in the speed
    alone answer alike until one is asked for it, or it is stored in both (`answers_iff`).

        RESET:          speed 0     mode 0   buffer_size 0   buffer 0..0
        chardev_init:   speed 100   mode 0   buffer_size 0   buffer 0..0 -/

namespace Ldd.Ioctl
open Ldd.Schemes Ldd.Kernel Ldd.Message Ldd.Message.CharDevIoctl

/-- A call on an open file of the device. -/
inductive SessionCall (φ : Type)
  | file (c : FileCall φ)
  | ioctl (cmd arg : BitVec 32) (f : Fault)

inductive SessionAnswer
  | file (a : Message.Answer)
  | reply (r : Reply)
  deriving DecidableEq, Repr

/-- The device and its open files. -/
def session (φ : Type) [DecidableEq φ] :
    Machine (MyioctlDev × (φ → ℤ)) (SessionCall φ) SessionAnswer
  | s, .file c =>
    let (s, a) := files φ CharDevIoctl.ops s c
    (s, .file a)
  | (dev, pos), .ioctl cmd arg f =>
    let (dev, r) := devIoctl dev f cmd arg
    ((dev, pos), .reply r)

/-- The offsets of files just opened. -/
def opened (φ : Type) : φ → ℤ := fun _ => 0

/-- The devices have the same mode and message. -/
structure Alike (dev dev' : MyioctlDev) : Prop where
  mode : dev.mode = dev'.mode
  message : ∃ m : Msg bufLen, Holds m dev.buffer 0 dev.bufferSize ∧
    Holds m dev'.buffer 0 dev'.bufferSize

variable {φ : Type} [DecidableEq φ] {dev dev' : MyioctlDev} {cmd arg : BitVec 32} {f : Fault}

/-! ### One call -/

/-- What an ioctl does to two devices. -/
structure Together (dev dev' : MyioctlDev) (stores : Bool) (r r' : MyioctlDev × Reply) : Prop where
  alike : Alike r.1 r'.1
  reply : r.2 = r'.2
  stored : stores = true → r.1.speed = r'.1.speed
  kept : stores = false → r.1.speed = dev.speed ∧ r'.1.speed = dev'.speed

theorem Alike.same (h : Alike dev dev') {stores : Bool} (hs : stores = false) (r : Reply) :
    Together dev dev' stores (dev, r) (dev', r) where
  alike := h
  reply := rfl
  stored ht := absurd (hs.symm.trans ht) (by decide)
  kept _ := ⟨rfl, rfl⟩

end Ldd.Ioctl

import LddSandbox.Message.Drivers

/-! The `ioctl` of `04-char-dev-ioctl`: the command numbers, `dev_ioctl`, and the device as a
    machine of reads, writes and ioctls.

        cmd:   dir (2) │ size (14) │ type (8) │ nr (8)                        `_IOC`

    The argument of a command is the `int` at the user's address, and a fault may hit its copy in
    either direction. -/

namespace Ldd.Ioctl
open Ldd.Schemes Ldd.Kernel Ldd.Message Ldd.Message.CharDevIoctl

/-- `_IOC(dir, type, nr, size)` -/
def ioc (dir type nr size : ℕ) : BitVec 32 :=
  BitVec.ofNat 32 (dir <<< 30 ||| type <<< 8 ||| nr ||| size <<< 16)

/-- `_IOC_TYPE(cmd)` -/
def iocType (cmd : BitVec 32) : BitVec 32 := cmd >>> 8 &&& 0xff

/-- `sizeof(int)` -/
def sizeofInt : ℕ := 4

/-- `#define IOCTL_MAGIC 'k'` -/
def ioctlMagic : ℕ := 0x6b

def ioctlSetSpeed : BitVec 32 := ioc 1 ioctlMagic 1 sizeofInt

def ioctlGetSpeed : BitVec 32 := ioc 2 ioctlMagic 2 sizeofInt

def ioctlSetMode : BitVec 32 := ioc 1 ioctlMagic 3 sizeofInt

def ioctlGetMode : BitVec 32 := ioc 2 ioctlMagic 4 sizeofInt

def ioctlReset : BitVec 32 := ioc 0 ioctlMagic 5 0

def ioctlGetVersion : BitVec 32 := ioc 2 ioctlMagic 6 sizeofInt

/-- `#define DRIVER_VERSION 100` -/
def driverVersion : ℤ := 100

/-- What an ioctl gives: the value returned, and the `int` that the user got, if all of it. -/
structure Reply where
  ret : ℤ
  out : Option ℤ
  deriving DecidableEq, Repr

section Cases
variable (dev : MyioctlDev) (f : Fault)

/-- A command that takes an `int` up to `max` from the user and stores it. -/
def takeInt (max : ℤ) (store : ℤ → MyioctlDev) (arg : BitVec 32) : MyioctlDev × Reply :=
  if f.uncopied sizeofInt ≠ 0 then (dev, ⟨-EFAULT, none⟩)
  else
    let temp := arg.toInt
    if temp < 0 ∨ temp > max then (dev, ⟨-EINVAL, none⟩) else (store temp, ⟨0, none⟩)

/-- A command that gives an `int` to the user. A copy that stops short leaves the first bytes of the
    `int` with the user; the reply leaves them out. -/
def giveInt (value : ℤ) : MyioctlDev × Reply :=
  if f.uncopied sizeofInt ≠ 0 then (dev, ⟨-EFAULT, none⟩) else (dev, ⟨0, some value⟩)

/-- `dev_ioctl`; `arg` is the `int` that the user's argument points to. -/
def devIoctl (cmd : BitVec 32) (arg : BitVec 32) : MyioctlDev × Reply :=
  if iocType cmd ≠ BitVec.ofNat 32 ioctlMagic then (dev, ⟨-ENOTTY, none⟩)
  else if cmd = ioctlSetSpeed then
    takeInt dev f 1000 (fun temp => { dev with speed := temp }) arg
  else if cmd = ioctlGetSpeed then giveInt dev f dev.speed
  else if cmd = ioctlSetMode then
    takeInt dev f 3 (fun temp => { dev with mode := temp }) arg
  else if cmd = ioctlGetMode then giveInt dev f dev.mode
  else if cmd = ioctlReset then
    ({ dev with
      speed := 0, mode := 0, bufferSize := 0
      buffer := dev.buffer.store 0 (List.replicate bufLen 0) }, ⟨0, none⟩)
  else if cmd = ioctlGetVersion then giveInt dev f driverVersion
  else (dev, ⟨-ENOTTY, none⟩)

end Cases

/-- A call on the device, with how its copy ends. -/
inductive Call
  | read (len : ℕ) (offset : ℤ) (f : Fault)
  | write (data : List UInt8) (f : Fault)
  | ioctl (cmd arg : BitVec 32) (f : Fault)

inductive Answer
  | read (r : ReadResult)
  | wrote (ret : ℤ)
  | reply (r : Reply)
  deriving DecidableEq, Repr

/-- The device: its calls, by any callers in any order. -/
def device : Machine MyioctlDev Call Answer
  | dev, .read len offset f => (dev, .read (devRead dev len offset f))
  | dev, .write data f =>
    let (dev, ret) := devWrite dev data f
    (dev, .wrote ret)
  | dev, .ioctl cmd arg f =>
    let (dev, r) := devIoctl dev f cmd arg
    (dev, .reply r)

end Ldd.Ioctl

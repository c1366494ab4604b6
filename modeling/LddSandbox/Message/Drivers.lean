import LddSandbox.Message.Abstract
import LddSandbox.Schemes.CInt

/-! The reads and writes of the five message drivers, in C's arithmetic. They come in two forms:
    `02-char-device-driver`, `03-char-dev-multibuf` and `09-platform-driver` keep an
    `int message_size`, `04-char-dev-ioctl` and `05-char-dev-auto-node` a `size_t buffer_size`.
    `loff_t` is 64 bits signed and `size_t` 64 bits unsigned, so `*offset >= size` compares signed
    values in the first form and unsigned ones in the second, and `*offset + len` is unsigned in
    both. -/

namespace Ldd.Message
open Ldd.Schemes Ldd.Kernel

/-! ### The two forms -/

/-- The end of every read: copy `len` bytes to the user, and move the offset by the `int
    bytes_read`. The message lies in memory from `base` on. -/
def sendBytes (message : Mem UInt8) (base : ℕ) (len offset : ℤ) (f : Fault) : ReadResult :=
  let (bytes, left) := copyToUser message (base + offset).toNat len.toNat f
  let bytesRead := s32 (u64 (len - left))
  ⟨bytesRead, s64 (offset + bytesRead), bytes⟩

/-- A read with an `int message_size`. -/
def readInt (message : Mem UInt8) (base : ℕ) (messageSize : ℤ) (len : ℕ) (offset : ℤ)
    (f : Fault) : ReadResult :=
  if offset ≥ messageSize then ⟨0, offset, []⟩
  else
    let len := if u64 (offset + len) > u64 messageSize then u64 (s64 (messageSize - offset)) else len
    sendBytes message base len offset f

/-- A read with a `size_t buffer_size`. -/
def readSize (buffer : Mem UInt8) (base : ℕ) (bufferSize : ℤ) (len : ℕ) (offset : ℤ)
    (f : Fault) : ReadResult :=
  if u64 offset ≥ bufferSize then ⟨0, offset, []⟩
  else
    let len := if u64 (offset + len) > bufferSize then u64 (bufferSize - offset) else len
    sendBytes buffer base len offset f

/-- The start of every write: `if (len > BUF_LEN - 1) len = BUF_LEN - 1;` -/
def clampLen (bufLen : ℕ) (data : List UInt8) : ℤ :=
  if (data.length : ℤ) > bufLen - 1 then bufLen - 1 else data.length

/-- A write with an `int message_size`: the memory and the size afterwards. -/
def writeInt (bufLen : ℕ) (message : Mem UInt8) (base : ℕ) (data : List UInt8) (f : Fault) :
    Mem UInt8 × ℤ :=
  let len := clampLen bufLen data
  let (message, left) := copyFromUser message base data len.toNat f
  let messageSize := s32 (u64 (len - left))
  (message.store (base + messageSize).toNat [0], messageSize)

/-- A write with a `size_t buffer_size`. -/
def writeSize (bufLen : ℕ) (buffer : Mem UInt8) (base : ℕ) (data : List UInt8) (f : Fault) :
    Mem UInt8 × ℤ :=
  let len := clampLen bufLen data
  let (buffer, left) := copyFromUser buffer base data len.toNat f
  let bufferSize := u64 (len - left)
  (buffer.store (base + bufferSize).toNat [0], bufferSize)

/-! ### `02-char-device-driver` -/

namespace CharDeviceDriver

def bufLen : ℕ := 1024

structure State where
  message : Mem UInt8
  messageSize : ℤ

def init : State := ⟨fun _ => 0, 0⟩

def devRead (s : State) (len : ℕ) (offset : ℤ) (f : Fault) : ReadResult :=
  readInt s.message 0 s.messageSize len offset f

def devWrite (s : State) (data : List UInt8) (f : Fault) : State × ℤ :=
  let (message, messageSize) := writeInt bufLen s.message 0 data f
  (⟨message, messageSize⟩, messageSize)

def ops : Ops State := ⟨devRead, devWrite⟩

end CharDeviceDriver

/-! ### `03-char-dev-multibuf` -/

namespace CharDevMultibuf

def bufLen : ℕ := 1024

def devMax : ℕ := 16

/-- `message[minor][j]` is at `minor * BUF_LEN + j`. -/
structure State where
  message : Mem UInt8
  messageSize : ℕ → ℤ

def init : State := ⟨fun _ => 0, fun _ => 0⟩

def devRead (minor : ℕ) (s : State) (len : ℕ) (offset : ℤ) (f : Fault) : ReadResult :=
  if minor ≥ devMax then ⟨-ENODEV, offset, []⟩
  else readInt s.message (minor * bufLen) (s.messageSize minor) len offset f

def devWrite (minor : ℕ) (s : State) (data : List UInt8) (f : Fault) : State × ℤ :=
  if minor ≥ devMax then (s, -ENODEV)
  else
    let (message, messageSize) := writeInt bufLen s.message (minor * bufLen) data f
    (⟨message, Function.update s.messageSize minor messageSize⟩, messageSize)

/-- The operations of the files of one minor. -/
def ops (minor : ℕ) : Ops State := ⟨devRead minor, devWrite minor⟩

end CharDevMultibuf

/-! ### `04-char-dev-ioctl` -/

namespace CharDevIoctl

def bufLen : ℕ := 256

/-- `struct myioctl_dev` -/
structure MyioctlDev where
  speed : ℤ
  mode : ℤ
  buffer : Mem UInt8
  bufferSize : ℤ

/-- The device as `chardev_init` leaves it. -/
def init : MyioctlDev := ⟨100, 0, fun _ => 0, 0⟩

def devRead (dev : MyioctlDev) (len : ℕ) (offset : ℤ) (f : Fault) : ReadResult :=
  readSize dev.buffer 0 dev.bufferSize len offset f

def devWrite (dev : MyioctlDev) (data : List UInt8) (f : Fault) : MyioctlDev × ℤ :=
  let (buffer, bufferSize) := writeSize bufLen dev.buffer 0 data f
  ({ dev with buffer := buffer, bufferSize := bufferSize }, s64 bufferSize)

def ops : Ops MyioctlDev := ⟨devRead, devWrite⟩

end CharDevIoctl

/-! ### `05-char-dev-auto-node` -/

namespace CharDevAutoNode

def bufLen : ℕ := 256

/-- `struct myauto_dev` -/
structure MyautoDev where
  buffer : Mem UInt8
  bufferSize : ℤ

/-- `"Device %d default message\n"` -/
@[irreducible] def defaultMessage (index : ℕ) : List UInt8 :=
  (s!"Device {index} default message\n").toList.map fun c => c.toNat.toUInt8

/-- `snprintf` into a buffer of `size` bytes: the text cut to leave room for the terminator. -/
def snprintf (size : ℕ) (text : List UInt8) : List UInt8 := text.take (size - 1) ++ [0]

/-- `strlen`: the bytes before the first zero. -/
def strlen (s : List UInt8) : ℕ := (s.takeWhile (· ≠ 0)).length

/-- The device as `init_device` leaves it. -/
def initDevice (index : ℕ) : MyautoDev :=
  let buffer := snprintf bufLen (defaultMessage index)
  ⟨Mem.store (fun _ => 0) 0 buffer, strlen buffer⟩

def devRead (dev : MyautoDev) (len : ℕ) (offset : ℤ) (f : Fault) : ReadResult :=
  readSize dev.buffer 0 dev.bufferSize len offset f

def devWrite (dev : MyautoDev) (data : List UInt8) (f : Fault) : MyautoDev × ℤ :=
  let (buffer, bufferSize) := writeSize bufLen dev.buffer 0 data f
  (⟨buffer, bufferSize⟩, s64 bufferSize)

def ops : Ops MyautoDev := ⟨devRead, devWrite⟩

end CharDevAutoNode

/-! ### `09-platform-driver` -/

namespace PlatformDriver

def bufLen : ℕ := 1024

/-- `struct myplatform_dev` -/
structure MyplatformDev where
  message : Mem UInt8
  messageSize : ℤ

/-- The device as `myplatform_probe` leaves it. -/
def init : MyplatformDev := ⟨fun _ => 0, 0⟩

def platformRead (dev : MyplatformDev) (len : ℕ) (offset : ℤ) (f : Fault) : ReadResult :=
  readInt dev.message 0 dev.messageSize len offset f

def platformWrite (dev : MyplatformDev) (data : List UInt8) (f : Fault) : MyplatformDev × ℤ :=
  let (message, messageSize) := writeInt bufLen dev.message 0 data f
  (⟨message, messageSize⟩, messageSize)

def ops : Ops MyplatformDev := ⟨platformRead, platformWrite⟩

end PlatformDriver

end Ldd.Message

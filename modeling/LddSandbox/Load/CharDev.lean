import LddSandbox.Kernel.Loader
import LddSandbox.Kernel.UserCopy
import LddSandbox.Stream.Device

/-! `chardev_init` and `chardev_exit` of the blocking device (`06-char-dev-blocking`) and of the
    poll device (`07-char-dev-poll`): the same statements, under the drivers' own names.

        region ▶ class ▶ my_device ▶ buffer ▶ cdev ▶ node         (chardev_exit: back again)

    A call that fails undoes the calls before it. The undo list of `device_create` frees
    `my_device` and then returns `PTR_ERR(my_device->device)`. -/

namespace Ldd.Load
open Ldd.Schemes Ldd.Kernel Script Ledger

/-- What the two modules hold: the device numbers, the class and the node by name. -/
inductive CharResource
  | region (name : String)
  | class (name : String)
  | device
  | buffer
  | cdev
  | node (name : String)
  deriving DecidableEq, Repr

/-- The cdev is part of the device and serves its buffer under the device numbers; the node belongs
    to the class and leads to the cdev; the device points to the buffer. -/
@[simp] def CharResource.needs : CharResource → CharResource → Bool
  | .cdev, .device | .cdev, .buffer | .cdev, .region _ => true
  | .node _, .class _ | .node _, .region _ | .node _, .cdev => true
  | .buffer, .device => true
  | _, _ => false

/-- `struct myblock_dev`, `struct mypoll_dev`: its pointers, and `io`, the rest of it together with
    the bytes that `buffer` points to. -/
structure CharDev (ι : Type) where
  device : ℤ
  buffer : ℤ
  io : Stream.Dev ι

/-- The outcomes of the calls of `chardev_init`, in order. -/
structure CharCalls where
  allocChrdevRegion : Except Errno Unit
  classCreate : Except Errno Object
  kzallocDevice : Option Object
  kzallocBuffer : Option Object
  cdevAdd : Except Errno Unit
  deviceCreate : Except Errno Object

variable {ι : Type}

/-- `kzalloc(sizeof(struct myblock_dev), GFP_KERNEL)` -/
@[simp] def CharDev.zeroed : CharDev ι where
  device := 0
  buffer := 0
  io := { lock := none, buffer := fun _ => 0, bufferSize := 0, readPos := 0, writePos := 0,
          readers := 0, writers := 0 }

@[simp] def CharDev.setBuffer (p : ℤ) (d : CharDev ι) : CharDev ι :=
  { d with buffer := p, io := { d.io with buffer := fun _ => 0 } }

/-- The stores between the allocations and `cdev_add`. -/
@[simp] def CharDev.initState (d : CharDev ι) : CharDev ι :=
  { d with io := { d.io with
      bufferSize := Stream.bufLen
      readPos := 0
      writePos := 0
      readers := 0
      writers := 0
      lock := none } }

open CharResource

/-- `chardev_init` -/
def chardevInit (deviceName className : String) (calls : CharCalls) :
    Script CharResource (CharDev ι) ℤ := do
  let ret ← register (region deviceName) calls.allocChrdevRegion
  if ret < 0 then
    return ret
  let cls ← create (.class className) calls.classCreate
  if IsErr cls then
    release (region deviceName)
    return ptrErr cls
  let myDevice ← alloc device calls.kzallocDevice
  if myDevice = 0 then
    release (.class className)
    release (region deviceName)
    return -ENOMEM
  assign device fun _ => .zeroed
  let p ← alloc buffer calls.kzallocBuffer
  assign device (.setBuffer p)
  if (← deref device).buffer = 0 then
    release device
    release (.class className)
    release (region deviceName)
    return -ENOMEM
  assign device .initState
  access device
  let ret ← register cdev calls.cdevAdd
  if ret < 0 then
    access device
    release buffer
    release device
    release (.class className)
    release (region deviceName)
    return ret
  let p ← create (node deviceName) calls.deviceCreate
  assign device ({ · with device := p })
  if IsErr (← deref device).device then
    access device
    release cdev
    access device
    release buffer
    release device
    release (.class className)
    release (region deviceName)
    return ptrErr (← deref device).device
  return 0

/-- `chardev_exit` -/
def chardevExit (deviceName className : String) : Script CharResource (CharDev ι) Unit := do
  release (node deviceName)
  access device
  release cdev
  access device
  release buffer
  release device
  release (.class className)
  release (region deviceName)

/-- Every call succeeds. -/
def CharCalls.succeed : CharCalls → Bool
  | ⟨.ok _, .ok _, some _, some _, .ok _, .ok _⟩ => true
  | _ => false

/-- Every call succeeds but `device_create`. -/
def CharCalls.deviceCreateFails : CharCalls → Bool
  | ⟨.ok _, .ok _, some _, some _, .ok _, .error _⟩ => true
  | _ => false

/-- The two modules. -/
def charModule (ι : Type) (deviceName className : String) :
    Loadable CharResource (CharDev ι) CharCalls where
  needs := CharResource.needs
  init := chardevInit deviceName className
  exit := chardevExit deviceName className
  fails calls := !calls.succeed

/-- `06-char-dev-blocking` -/
def blockingModule (ι : Type) := charModule ι "myblocking" "myblockclass"

/-- `07-char-dev-poll` -/
def pollModule (ι : Type) := charModule ι "mypoll" "mypollclass"

/-- What a successful `chardev_init` holds. -/
def charHeld (deviceName className : String) (w : World CharResource (CharDev ι)) : Prop :=
  live w.past = [node deviceName, cdev, buffer, device, .class className, region deviceName]

variable {deviceName className : String} {calls : CharCalls} {w : World CharResource (CharDev ι)}

/-- All calls succeed: everything is held, and the device is in its first state. -/
theorem chardevInit_loads (hidle : live w.past = []) (hsound : Sound CharResource.needs w.past)
    (hs : calls.succeed = true) :
    (chardevInit deviceName className calls w).1 = 0 ∧
      Sound CharResource.needs (chardevInit deviceName className calls w).2.past ∧
      charHeld deviceName className (chardevInit deviceName className calls w).2 ∧
      (chardevInit deviceName className calls w).2.mem.io = Stream.chardevInit ι := by
  unfold CharCalls.succeed at hs
  split at hs
  · rename_i cls dev buf _ nod
    have hcls := cls.2.2
    have hdev := dev.2.1
    have hbuf := buf.2.1
    have hnod := nod.2.2
    refine ⟨?_, ?_, ?_, ?_⟩ <;>
      simp [chardevInit, charHeld, Stream.chardevInit, hidle, hsound, hcls, hdev, hbuf, hnod]
  · exact absurd hs (by decide)

/-- A call other than `device_create` fails: one case for each call, in order. -/
theorem chardevInit_rolls_back (hidle : live w.past = []) (hsound : Sound CharResource.needs w.past)
    (hf : calls.succeed = false) (hs : calls.deviceCreateFails = false) :
    (∃ e : Errno, (chardevInit deviceName className calls w).1 = -e.1) ∧
      Sound CharResource.needs (chardevInit deviceName className calls w).2.past ∧
      live (chardevInit deviceName className calls w).2.past = [] := by
  rcases calls with ⟨e | _, cls, dev, buf, cdevAdd, nod⟩
  · refine ⟨⟨e, ?_⟩, ?_, ?_⟩ <;> simp [chardevInit, hidle, hsound, e.2.1]
  rcases cls with e | cls
  · refine ⟨⟨e, ?_⟩, ?_, ?_⟩ <;> simp [chardevInit, hidle, hsound]
  rcases dev with _ | dev
  · refine ⟨⟨⟨ENOMEM, by decide⟩, ?_⟩, ?_, ?_⟩ <;> simp [chardevInit, hidle, hsound, cls.2.2]
  rcases buf with _ | buf
  · refine ⟨⟨⟨ENOMEM, by decide⟩, ?_⟩, ?_, ?_⟩ <;>
      simp [chardevInit, hidle, hsound, cls.2.2, dev.2.1]
  rcases cdevAdd with e | _
  · refine ⟨⟨e, ?_⟩, ?_, ?_⟩ <;>
      simp [chardevInit, hidle, hsound, cls.2.2, dev.2.1, buf.2.1, e.2.1]
  rcases nod with e | _
  · exact absurd hs (by simp [CharCalls.deviceCreateFails])
  · exact absurd hf (by simp [CharCalls.succeed])

/-- `device_create` fails: `my_device` is read after it was freed. -/
theorem chardevInit_slips (hidle : live w.past = []) (hs : calls.deviceCreateFails = true) :
    ¬ Sound CharResource.needs (chardevInit deviceName className calls w).2.past := by
  unfold CharCalls.deviceCreateFails at hs
  split at hs
  · rename_i cls dev buf _ e
    simp [chardevInit, hidle, cls.2.2, dev.2.1, buf.2.1]
  · exact absurd hs (by decide)

theorem chardevExit_unloads (hsound : Sound CharResource.needs w.past)
    (hheld : charHeld deviceName className w) :
    Sound CharResource.needs (chardevExit deviceName className w).2.past ∧
      live (chardevExit deviceName className w).2.past = [] := by
  unfold charHeld at hheld
  constructor <;> simp [chardevExit, hheld, hsound]

/-- The two modules unwind, except when `device_create` fails. -/
theorem charModule_unwinds (ι : Type) (deviceName className : String) :
    (charModule ι deviceName className).Unwinds CharCalls.deviceCreateFails
      (charHeld deviceName className) where
  loads _ _ hidle hsound hf :=
    have h := chardevInit_loads hidle hsound (by simpa [charModule] using hf)
    ⟨h.1, h.2.1, h.2.2.1⟩
  rolls_back _ _ hidle hsound hf hs :=
    chardevInit_rolls_back hidle hsound (by simpa [charModule] using hf) hs
  slips _ _ hidle hs := chardevInit_slips hidle hs
  unloads w freed hsound hheld := chardevExit_unloads (w := { w with freed := freed }) hsound hheld

end Ldd.Load

import LddSandbox.Kernel.Loader
import LddSandbox.Message.Drivers

/-! `chardev_init` and `chardev_exit` of `02-char-device-driver` and `03-char-dev-multibuf`, which
    register a major number and nothing else, and of `04-char-dev-ioctl`.

        02, 03:   chrdev                        (chardev_exit gives back the number it got)
        04:       region ▶ my_device ▶ cdev     (chardev_exit: back again)

    No undo list of theirs slips: every sequence of loads and unloads is clean, whatever calls fail
    (`simple_loads_clean`). -/

namespace Ldd.Load
open Ldd.Schemes Ldd.Kernel Script Ledger Message

/-! ### `02-char-device-driver` and `03-char-dev-multibuf` -/

namespace Chrdev

/-- What the two modules hold, by the number that `unregister_chrdev` is given. -/
inductive ChrdevResource
  | chrdev (major : ℤ)
  deriving DecidableEq, Repr

open ChrdevResource

/-- `register_chrdev(0, DEVICE_NAME, &fops)`: a major number or a negative errno. -/
def registerChrdev : Except Errno Major → Script ChrdevResource ℤ ℤ
  | .ok m => do acquire (chrdev m.1); return m.1
  | .error e => return -e.1

/-- `chardev_init`; the structure is `major_num`. -/
def chardevInit (calls : Except Errno Major) : Script ChrdevResource ℤ ℤ := do
  let major ← registerChrdev calls
  update fun _ => major
  if (← look) < 0 then
    return ← look
  return 0

/-- `chardev_exit` -/
def chardevExit : Script ChrdevResource ℤ Unit := do
  release (chrdev (← look))

/-- The two modules. -/
def chrdevModule : Loadable ChrdevResource ℤ (Except Errno Major) where
  needs _ _ := false
  init := chardevInit
  exit := chardevExit
  fails calls := !calls.toBool

/-- What a successful `chardev_init` holds: the number it noted. -/
def held (w : World ChrdevResource ℤ) : Prop := live w.past = [chrdev w.mem]

section Runs
variable {α : Type} (w : World ChrdevResource ℤ) (k : ℤ → Script ChrdevResource ℤ α)

@[simp] theorem registerChrdev_ok (m : Major) :
    (registerChrdev (.ok m) >>= k) w = k m.1 (w.use (.acquire (chrdev m.1))) := rfl

@[simp] theorem registerChrdev_error (e : Errno) :
    (registerChrdev (.error e) >>= k) w = k (-e.1) w := rfl

end Runs

theorem chrdevModule_unwinds : chrdevModule.Unwinds (fun _ => false) held where
  loads calls w hidle hsound hf := by
    replace hsound : Sound (fun _ _ => false) w.past := hsound
    rcases calls with e | m
    · cases hf
    · have hm : ¬ m.1 < 0 := Int.not_lt.mpr (Int.le_of_lt m.2)
      refine ⟨?_, ?_, ?_⟩ <;> simp [chrdevModule, chardevInit, held, hidle, hsound, hm]
  rolls_back calls w hidle hsound hf _ := by
    replace hsound : Sound (fun _ _ => false) w.past := hsound
    rcases calls with e | m
    · refine ⟨⟨e, ?_⟩, ?_, ?_⟩ <;> simp [chrdevModule, chardevInit, hidle, hsound, e.2.1]
    · cases hf
  slips _ _ _ hs := by cases hs
  unloads w freed hsound hheld := by
    replace hsound : Sound (fun _ _ => false) w.past := hsound
    replace hheld : live w.past = [chrdev w.mem] := hheld
    constructor <;> simp [chrdevModule, chardevExit, hheld, hsound]

end Chrdev

/-! ### `04-char-dev-ioctl` -/

namespace Ioctl

/-- What the module holds. -/
inductive IoctlResource | region | device | cdev
  deriving DecidableEq, Repr

/-- The cdev is part of the device, and serves it under the device numbers. -/
@[simp] def IoctlResource.needs : IoctlResource → IoctlResource → Bool
  | .cdev, .device | .cdev, .region => true
  | _, _ => false

open IoctlResource CharDevIoctl

/-- The outcomes of the calls of `chardev_init`, in order; `junk` is what `kmalloc` left in the
    device. -/
structure IoctlCalls where
  allocChrdevRegion : Except Errno Unit
  kmalloc : Option Object
  junk : MyioctlDev
  cdevAdd : Except Errno Unit

/-- `chardev_init` -/
def chardevInit (calls : IoctlCalls) : Script IoctlResource MyioctlDev ℤ := do
  let ret ← register region calls.allocChrdevRegion
  if ret < 0 then
    return ret
  let myDevice ← alloc device calls.kmalloc
  if myDevice = 0 then
    release region
    return -ENOMEM
  assign device fun _ => calls.junk
  assign device fun _ => ⟨0, 0, fun _ => 0, 0⟩
  assign device ({ · with speed := 100 })
  assign device ({ · with mode := 0 })
  access device
  let ret ← register cdev calls.cdevAdd
  if ret < 0 then
    release device
    release region
    return ret
  return 0

/-- `chardev_exit` -/
def chardevExit : Script IoctlResource MyioctlDev Unit := do
  access device
  release cdev
  release device
  release region

/-- Every call succeeds. -/
def IoctlCalls.succeed : IoctlCalls → Bool
  | ⟨.ok _, some _, _, .ok _⟩ => true
  | _ => false

/-- `04-char-dev-ioctl` -/
def ioctlModule : Loadable IoctlResource MyioctlDev IoctlCalls where
  needs := IoctlResource.needs
  init := chardevInit
  exit := chardevExit
  fails calls := !calls.succeed

/-- What a successful `chardev_init` holds. -/
def held (w : World IoctlResource MyioctlDev) : Prop := live w.past = [cdev, device, region]

/-- Every load that succeeds leaves the device in its first state. -/
theorem chardevInit_fresh {calls : IoctlCalls} (h : ioctlModule.fails calls = false)
    (w : World IoctlResource MyioctlDev) : (chardevInit calls w).2.mem = CharDevIoctl.init := by
  rcases calls with ⟨_ | _, _ | dev, junk, _ | _⟩ <;> cases h
  simp [chardevInit, dev.2.1, CharDevIoctl.init]

theorem ioctlModule_unwinds : ioctlModule.Unwinds (fun _ => false) held where
  loads calls w hidle hsound hf := by
    replace hsound : Sound IoctlResource.needs w.past := hsound
    rcases calls with ⟨_ | _, _ | dev, junk, _ | _⟩ <;> cases hf
    refine ⟨?_, ?_, ?_⟩ <;> simp [ioctlModule, chardevInit, held, hidle, hsound, dev.2.1]
  rolls_back calls w hidle hsound hf _ := by
    replace hsound : Sound IoctlResource.needs w.past := hsound
    rcases calls with ⟨e | _, dev, junk, added⟩
    · refine ⟨⟨e, ?_⟩, ?_, ?_⟩ <;> simp [ioctlModule, chardevInit, hidle, hsound, e.2.1]
    rcases dev with _ | dev
    · refine ⟨⟨⟨ENOMEM, by decide⟩, ?_⟩, ?_, ?_⟩ <;>
        simp [ioctlModule, chardevInit, hidle, hsound]
    rcases added with e | _
    · refine ⟨⟨e, ?_⟩, ?_, ?_⟩ <;>
        simp [ioctlModule, chardevInit, hidle, hsound, dev.2.1, e.2.1]
    · cases hf
  slips _ _ _ hs := by cases hs
  unloads w freed hsound hheld := by
    replace hsound : Sound IoctlResource.needs w.past := hsound
    replace hheld : live w.past = [cdev, device, region] := hheld
    constructor <;> simp [ioctlModule, chardevExit, hheld, hsound]

end Ioctl

/-- CLEAN LOADS: after every attempt of every sequence, whatever calls fail, all uses of resources
    were allowed, nothing is left unless the module is loaded, and a failed init returned a negative
    errno. -/
theorem simple_loads_clean :
    (∀ mem attempts, Chrdev.chrdevModule.AllClean mem attempts) ∧
    ∀ mem attempts, Ioctl.ioctlModule.AllClean mem attempts :=
  ⟨Chrdev.chrdevModule_unwinds.all_clean, Ioctl.ioctlModule_unwinds.all_clean⟩

end Ldd.Load

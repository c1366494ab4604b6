import LddSandbox.Kernel.Loader
import LddSandbox.Kernel.UserCopy
import LddSandbox.RamDisk.Transfer

/-! `myramdisk_init` and `myramdisk_exit` (`08-block-dev-ramdisk-basic`).

        Device ▶ data ▶ major ▶ tag set ▶ gendisk ▶ added disk    (myramdisk_exit: back again)

    A call that fails undoes the calls before it. The undo list of `blk_mq_alloc_disk` frees
    `Device` and then returns `PTR_ERR(Device->gd)`. -/

namespace Ldd.Load
open Ldd.Schemes Ldd.Kernel Script Ledger RamDisk

/-- What the module holds; `disk` is the registration made by `add_disk`. -/
inductive DiskResource | device | data | major | tagSet | gendisk | disk
  deriving DecidableEq, Repr

/-- The tag set is part of the device, which points to the storage; the gendisk works on the tag
    set and on the device; the disk, once added, serves the storage under the major number. -/
@[simp] def DiskResource.needs : DiskResource → DiskResource → Bool
  | .data, .device | .tagSet, .device => true
  | .gendisk, .tagSet | .gendisk, .device => true
  | .disk, .gendisk | .disk, .data | .disk, .major => true
  | _, _ => false

/-- `struct myramdisk_dev`, and the bytes that `data` points to. -/
structure DiskDev where
  major : ℤ
  data : ℤ
  gd : ℤ
  bytes : Mem UInt8

/-- The outcomes of the calls of `myramdisk_init`, in order; `junk` is what `vmalloc` finds. -/
structure DiskCalls where
  kzalloc : Option Object
  vmalloc : Option Object
  junk : Mem UInt8
  registerBlkdev : Except Errno Major
  allocTagSet : Except Errno Unit
  allocDisk : Except Errno Object
  addDisk : Except Errno Unit

/-- `kzalloc(sizeof(struct myramdisk_dev), GFP_KERNEL)` -/
@[simp] def DiskDev.zeroed : DiskDev where
  major := 0
  data := 0
  gd := 0
  bytes := fun _ => 0

/-- `memset(Device->data, 0, NSECTORS * KERNEL_SECTOR_SIZE)` -/
@[simp] def DiskDev.clear (d : DiskDev) : DiskDev :=
  { d with bytes := d.bytes.store 0 (List.replicate (nsectors * kernelSectorSize) 0) }

open DiskResource

/-- `myramdisk_init` -/
def myramdiskInit (calls : DiskCalls) : Script DiskResource DiskDev ℤ := do
  let dev ← alloc device calls.kzalloc
  if dev = 0 then
    return -ENOMEM
  assign device fun _ => .zeroed
  let p ← alloc data calls.vmalloc
  assign device ({ · with data := p, bytes := calls.junk })
  if (← deref device).data = 0 then
    release device
    return -ENOMEM
  access data
  assign device .clear
  let m ← request major (·.1) calls.registerBlkdev
  assign device ({ · with major := m })
  if (← deref device).major < 0 then
    access device
    release data
    release device
    return -EBUSY
  access device
  let ret ← register tagSet calls.allocTagSet
  if ret ≠ 0 then
    access device
    release major
    access device
    release data
    release device
    return ret
  access device
  let p ← create gendisk calls.allocDisk
  assign device ({ · with gd := p })
  if IsErr (← deref device).gd then
    access device
    release tagSet
    access device
    release major
    access device
    release data
    release device
    return ptrErr (← deref device).gd
  -- the queue, the fields of the gendisk, its capacity and its block sizes
  access device
  access gendisk
  let ret ← register disk calls.addDisk
  if ret ≠ 0 then
    access device
    release gendisk
    access device
    release tagSet
    access device
    release major
    access device
    release data
    release device
    return ret
  return 0

/-- `myramdisk_exit` -/
def myramdiskExit : Script DiskResource DiskDev Unit := do
  if (← deref device).gd ≠ 0 then
    access device
    release disk
    access device
    release gendisk
  access device
  release tagSet
  if (← deref device).major > 0 then
    access device
    release major
  if (← deref device).data ≠ 0 then
    access device
    release data
  release device

/-- Every call succeeds. -/
def DiskCalls.succeed : DiskCalls → Bool
  | ⟨some _, some _, _, .ok _, .ok _, .ok _, .ok _⟩ => true
  | _ => false

/-- `blk_mq_alloc_disk` fails, and every call before it succeeds. -/
def DiskCalls.allocDiskFails : DiskCalls → Bool
  | ⟨some _, some _, _, .ok _, .ok _, .error _, _⟩ => true
  | _ => false

/-- `08-block-dev-ramdisk-basic` -/
def ramdiskModule : Loadable DiskResource DiskDev DiskCalls where
  needs := DiskResource.needs
  init := myramdiskInit
  exit := myramdiskExit
  fails calls := !calls.succeed

/-- What a successful `myramdisk_init` holds and has set. -/
structure DiskHeld (w : World DiskResource DiskDev) : Prop where
  held : live w.past = [disk, gendisk, tagSet, major, data, device]
  gd : w.mem.gd ≠ 0
  major : 0 < w.mem.major
  data : w.mem.data ≠ 0

variable {calls : DiskCalls} {w : World DiskResource DiskDev}

/-- All calls succeed: everything is held, and the storage is clear. -/
theorem myramdiskInit_loads (hidle : live w.past = []) (hsound : Sound DiskResource.needs w.past)
    (hs : calls.succeed = true) :
    (myramdiskInit calls w).1 = 0 ∧ Sound DiskResource.needs (myramdiskInit calls w).2.past ∧
      DiskHeld (myramdiskInit calls w).2 ∧
      (myramdiskInit calls w).2.mem.bytes =
        calls.junk.store 0 (List.replicate (nsectors * kernelSectorSize) 0) := by
  unfold DiskCalls.succeed at hs
  split at hs
  · rename_i dev buf _ maj _ gd _
    have hmaj := maj.2
    have hmaj' : ¬ maj.1 < 0 := by omega
    refine ⟨?_, ?_, ⟨?_, ?_, ?_, ?_⟩, ?_⟩ <;>
      simp [myramdiskInit, hidle, hsound, dev.2.1, buf.2.1, hmaj, hmaj', gd.2.1, gd.2.2]
  · exact absurd hs (by decide)

/-- The storage of a disk that was loaded is the one that requests are served from first, as far as
    the disk goes. -/
theorem myramdiskInit_zeroed (hidle : live w.past = []) (hsound : Sound DiskResource.needs w.past)
    (hs : calls.succeed = true) :
    (myramdiskInit calls w).2.mem.bytes.load 0 (nsectors * kernelSectorSize) =
      zeroed.load 0 (nsectors * kernelSectorSize) := by
  obtain ⟨-, -, -, hbytes⟩ := myramdiskInit_loads hidle hsound hs
  refine Mem.load_congr fun i _ hi => ?_
  have hlen : i < (List.replicate (nsectors * kernelSectorSize) (0 : UInt8)).length := by
    rw [List.length_replicate]; omega
  have hcell := Mem.store_inside (m := calls.junk) (p := 0) hlen
  rw [Nat.zero_add, List.getElem_replicate] at hcell
  rw [hbytes, hcell]
  rfl

/-- A call other than `blk_mq_alloc_disk` fails: one case for each call, in order. -/
theorem myramdiskInit_rolls_back (hidle : live w.past = [])
    (hsound : Sound DiskResource.needs w.past) (hf : calls.succeed = false)
    (hs : calls.allocDiskFails = false) :
    (∃ e : Errno, (myramdiskInit calls w).1 = -e.1) ∧
      Sound DiskResource.needs (myramdiskInit calls w).2.past ∧
      live (myramdiskInit calls w).2.past = [] := by
  rcases calls with ⟨_ | dev, buf, junk, maj, tags, gd, added⟩
  · refine ⟨⟨⟨ENOMEM, by decide⟩, ?_⟩, ?_, ?_⟩ <;> simp [myramdiskInit, hidle, hsound]
  rcases buf with _ | buf
  · refine ⟨⟨⟨ENOMEM, by decide⟩, ?_⟩, ?_, ?_⟩ <;> simp [myramdiskInit, hidle, hsound, dev.2.1]
  rcases maj with e | maj
  · refine ⟨⟨⟨EBUSY, by decide⟩, ?_⟩, ?_, ?_⟩ <;>
      simp [myramdiskInit, hidle, hsound, dev.2.1, buf.2.1, e.2.1]
  have hmaj : ¬ maj.1 < 0 := Int.not_lt.mpr (Int.le_of_lt maj.2)
  rcases tags with e | _
  · have he : e.1 ≠ 0 := Int.ne_of_gt e.2.1
    refine ⟨⟨e, ?_⟩, ?_, ?_⟩ <;>
      simp [myramdiskInit, hidle, hsound, dev.2.1, buf.2.1, hmaj, he]
  rcases gd with e | gd
  · exact absurd hs (by simp [DiskCalls.allocDiskFails])
  rcases added with e | _
  · have he : e.1 ≠ 0 := Int.ne_of_gt e.2.1
    refine ⟨⟨e, ?_⟩, ?_, ?_⟩ <;>
      simp [myramdiskInit, hidle, hsound, dev.2.1, buf.2.1, hmaj, gd.2.2, he]
  · exact absurd hf (by simp [DiskCalls.succeed])

/-- `blk_mq_alloc_disk` fails: `Device` is read after it was freed. -/
theorem myramdiskInit_slips (hidle : live w.past = []) (hs : calls.allocDiskFails = true) :
    ¬ Sound DiskResource.needs (myramdiskInit calls w).2.past := by
  unfold DiskCalls.allocDiskFails at hs
  split at hs
  · rename_i dev buf _ maj _ e _
    have hmaj : ¬ maj.1 < 0 := Int.not_lt.mpr (Int.le_of_lt maj.2)
    simp [myramdiskInit, hidle, dev.2.1, buf.2.1, hmaj]
  · exact absurd hs (by decide)

theorem myramdiskExit_unloads (hsound : Sound DiskResource.needs w.past) (hheld : DiskHeld w) :
    Sound DiskResource.needs (myramdiskExit w).2.past ∧ live (myramdiskExit w).2.past = [] := by
  constructor <;>
    simp [myramdiskExit, hheld.held, hheld.gd, hheld.major, hheld.data, hsound]

/-- The module unwinds, except when `blk_mq_alloc_disk` fails. -/
theorem ramdiskModule_unwinds : ramdiskModule.Unwinds DiskCalls.allocDiskFails DiskHeld where
  loads _ _ hidle hsound hf :=
    have h := myramdiskInit_loads hidle hsound (by simpa [ramdiskModule] using hf)
    ⟨h.1, h.2.1, h.2.2.1⟩
  rolls_back _ _ hidle hsound hf hs :=
    myramdiskInit_rolls_back hidle hsound (by simpa [ramdiskModule] using hf) hs
  slips _ _ hidle hs := myramdiskInit_slips hidle hs
  unloads w freed hsound hheld :=
    myramdiskExit_unloads (w := { w with freed := freed }) hsound
      ⟨hheld.held, hheld.gd, hheld.major, hheld.data⟩

end Ldd.Load

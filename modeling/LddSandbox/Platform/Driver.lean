import LddSandbox.Kernel.Calls
import LddSandbox.Kernel.DevNum
import LddSandbox.Kernel.UserCopy

/-! The platform driver of `10-platform-instance` (`platform-drv.c`).

        probe:    record ▶ buffer ▶ cdev ▶ node          (devm: record, buffer)
        remove:   node, cdev; the driver core then frees the record and the buffer

    A probe that fails undoes its calls by hand, and the driver core frees what is left of the devm
    allocations. `d : δ` names a platform device; a record is named by the device that it was
    allocated for, and so is a pointer to it. -/

namespace Ldd.Platform
open Ldd.Schemes Ldd.Kernel Script Ledger

def maxDevices : ℕ := 4

/-- Major number 240 has room for the devices. -/
theorem room_at_240 :
    240 * 2 ^ 20 < 2 ^ 32 ∧ minor (240 * 2 ^ 20) + maxDevices ≤ 2 ^ minorBits := by decide

/-- `struct platform_data` -/
structure PlatformData where
  size : ℤ
  perm : ℤ
  serialNumber : String

/-- `struct platform_device`, as far as the driver reads it; `id` is an `int`. -/
structure PlatformDevice where
  name : String
  id : ℤ
  platformData : Option PlatformData
  id_range : -2 ^ 31 ≤ id ∧ id < 2 ^ 31

/-- `pdevs_id`, the names without their `driver_data`. -/
def pdevsId : List String := ["pdev-A1x", "pdev-B1x"]

/-- The driver takes the device. -/
def PlatformDevice.matched (p : PlatformDevice) : Bool := p.name ∈ pdevsId

/-- What the driver holds. A node has a name, made of the id, and a device number; what `NULL`
    points to is never held. -/
inductive PdrvResource (δ : Type)
  | null
  | region (first : ℕ)
  | class (p : ℤ)
  | driver
  | record (d : δ)
  | buffer (d : δ)
  | cdev (d : δ)
  | node (id : ℤ) (devt : ℕ)
  deriving DecidableEq

variable {δ : Type} [DecidableEq δ]

/-- A cdev and the pointer to a buffer are parts of the record; a node is in the class, a cdev in the
    region. The driver, while it is registered, adds to both. -/
@[simp] def PdrvResource.needs : PdrvResource δ → PdrvResource δ → Bool
  | .cdev d, .record d' => d = d'
  | .buffer d, .record d' => d = d'
  | .node _ _, .class _ | .cdev _, .region _ => true
  | .driver, .class _ | .driver, .region _ => true
  | _, _ => false

/-- `struct platform_dev_private_data` -/
structure DevData where
  pdata : PlatformData
  buf : ℤ
  devNum : ℕ

/-- `devm_kzalloc(&pdev->dev, sizeof(*dev_data), GFP_KERNEL)` -/
@[simp] def DevData.zeroed : DevData := ⟨⟨0, 0, ""⟩, 0, 0⟩

/-- `struct platform_drv_private_data`. Each bound device has a record in memory, so that
    `total_devices` does not overflow. -/
structure DrvData where
  totalDevices : ℤ
  devNumBase : ℕ
  classPcd : ℤ
  devicePcd : ℤ

/-- `pdrv_data`, what `dev_set_drvdata` has set, and the records. -/
structure PdrvMem (δ : Type) where
  pdrv : DrvData
  drvdata : δ → Option δ
  data : δ → DevData

@[simp] def PdrvMem.setData (d : δ) (f : DevData → DevData) (m : PdrvMem δ) : PdrvMem δ :=
  { m with data := Function.update m.data d (f (m.data d)) }

@[simp] def PdrvMem.setDrvdata (d : δ) (p : Option δ) (m : PdrvMem δ) : PdrvMem δ :=
  { m with drvdata := Function.update m.drvdata d p }

@[simp] def PdrvMem.setPdrv (f : DrvData → DrvData) (m : PdrvMem δ) : PdrvMem δ :=
  { m with pdrv := f m.pdrv }

/-- The outcomes of the calls of a probe, in order; `device_create` may fail on its own too. -/
structure ProbeCalls where
  kzallocData : Option Object
  kzallocBuf : Option Object
  cdevAdd : Except Errno Unit
  deviceCreate : Except Errno Object

abbrev PdrvScript (δ : Type) := Script (PdrvResource δ) (PdrvMem δ)

open PdrvResource

/-! ### The device nodes of the class -/

/-- A node of this name. -/
@[simp] def hasName (id : ℤ) : PdrvResource δ → Bool
  | node id' _ => id' = id
  | _ => false

/-- There is a node of this name. -/
def nameTaken (id : ℤ) (held : List (PdrvResource δ)) : Bool := held.any (hasName id)

omit [DecidableEq δ] in
@[simp] theorem nameTaken_cons (id : ℤ) (r : PdrvResource δ) (held : List (PdrvResource δ)) :
    nameTaken id (r :: held) = (hasName id r || nameTaken id held) := rfl

omit [DecidableEq δ] in
theorem nameTaken_iff {id : ℤ} {held : List (PdrvResource δ)} :
    nameTaken id held = true ↔ ∃ devt, node id devt ∈ held := by
  rw [nameTaken, List.any_eq_true]
  constructor
  · rintro ⟨r, hr, hname⟩
    cases r with
    | node id' devt =>
      rw [hasName, decide_eq_true_iff] at hname
      subst hname
      exact ⟨devt, hr⟩
    | _ => exact absurd hname (by simp)
  · rintro ⟨devt, h⟩
    exact ⟨_, h, by simp⟩

/-- A node of this number. -/
@[simp] def hasNumber (devt : ℕ) : PdrvResource δ → Bool
  | node _ devt' => devt' = devt
  | _ => false

def eexist : Errno := ⟨EEXIST, by decide⟩

/-- `device_create(class, NULL, devt, NULL, "pdev-%d", id)`: two nodes of one class do not share a
    name. -/
def deviceCreate (id : ℤ) (devt : ℕ) (outcome : Except Errno Object) : PdrvScript δ ℤ := do
  let w ← get
  create (node id devt) (if nameTaken id (live w.past) then .error eexist else outcome)

/-- `device_destroy(class, devt)`: the first node of that number. -/
def deviceDestroy (devt : ℕ) : PdrvScript δ Unit := do
  let w ← get
  match (live w.past).find? (hasNumber devt) with
  | some r => release r
  | none => return ()

/-! ### The driver -/

/-- `pdrv_data.dev_num_base + pdev->id` -/
def numberOf (base : ℕ) (id : ℤ) : ℕ := ((base + id) % 2 ^ 32).toNat

/-- The label `dev_data_free` of `platform_drv_probe`. -/
def devDataFree (d : δ) : PdrvScript δ Unit := release (record d)

/-- The label `buffer_free`. -/
def bufferFree (d : δ) : PdrvScript δ Unit := do
  access (record d)
  release (buffer d)
  devDataFree d

/-- The label `cdev_del`. -/
def cdevDel (d : δ) : PdrvScript δ Unit := do
  access (record d)
  release (cdev d)
  bufferFree d

/-- `platform_drv_probe` -/
def platformDrvProbe (pdev : δ → PlatformDevice) (d : δ) (calls : ProbeCalls) : PdrvScript δ ℤ := do
  match (pdev d).platformData with
  | none => return -EINVAL
  | some pdata =>
    let devData ← alloc (record d) calls.kzallocData
    if devData = 0 then
      return -ENOMEM
    assign (record d) (.setData d fun _ => .zeroed)
    assign (record d) (.setData d ({ · with pdata := pdata }))
    let buf ← alloc (buffer d) calls.kzallocBuf
    assign (record d) (.setData d ({ · with buf := buf }))
    if ((← deref (record d)).data d).buf = 0 then
      devDataFree d
      return -ENOMEM
    let base := (← look).pdrv.devNumBase
    assign (record d) (.setData d ({ · with devNum := numberOf base (pdev d).id }))
    access (record d)
    let ret ← register (cdev d) calls.cdevAdd
    if ret < 0 then
      bufferFree d
      return ret
    let devNum := ((← deref (record d)).data d).devNum
    let p ← deviceCreate (pdev d).id devNum calls.deviceCreate
    update (.setPdrv ({ · with devicePcd := p }))
    if IsErr (← look).pdrv.devicePcd then
      let ret := ptrErr (← look).pdrv.devicePcd
      cdevDel d
      return ret
    update (.setDrvdata d (some d))
    update (.setPdrv fun m => { m with totalDevices := m.totalDevices + 1 })
    return 0

/-- `platform_drv_remove`, which does not ask whether the driver data is `NULL`. -/
def platformDrvRemove (d : δ) : PdrvScript δ ℤ := do
  match (← look).drvdata d with
  | none =>
    access null
    return 0
  | some p =>
    let devNum := ((← deref (record p)).data p).devNum
    deviceDestroy devNum
    access (record p)
    release (cdev p)
    update (.setPdrv fun m => { m with totalDevices := m.totalDevices - 1 })
    return 0

/-- What the driver core does after a remove or a failed probe: it frees the devm allocations that
    are left, the latest first, and forgets the driver data. -/
def devresRelease (d : δ) : PdrvScript δ Unit := do
  if buffer d ∈ live (← get).past then
    release (buffer d)
  if record d ∈ live (← get).past then
    release (record d)
  update (.setDrvdata d none)

/-- The outcomes of the calls of `platform_drv_init`, in order. -/
structure DrvCalls where
  allocChrdevRegion : Except Errno (Region maxDevices)
  classCreate : Except Errno Object
  driverRegister : Except Errno Unit

/-- `alloc_chrdev_region(&pdrv_data.dev_num_base, 0, MAX_DEVICES, "pdrv")` -/
def allocChrdevRegion : Except Errno (Region maxDevices) → PdrvScript δ ℤ
  | .ok r => do
    acquire (region r.1)
    update (.setPdrv ({ · with devNumBase := r.1 }))
    return 0
  | .error e => return -e.1

/-- `platform_drv_init` -/
def platformDrvInit (calls : DrvCalls) : PdrvScript δ ℤ := do
  let ret ← allocChrdevRegion calls.allocChrdevRegion
  if ret < 0 then
    return ret
  let c ← createAt .class calls.classCreate
  update (.setPdrv ({ · with classPcd := c }))
  if IsErr (← look).pdrv.classPcd then
    let ret := ptrErr (← look).pdrv.classPcd
    release (region (← look).pdrv.devNumBase)
    return ret
  let _ ← register driver calls.driverRegister
  return 0

/-- `platform_drv_cleanup` -/
def platformDrvCleanup : PdrvScript δ Unit := do
  release driver
  release (.class (← look).pdrv.classPcd)
  release (region (← look).pdrv.devNumBase)

/-! ### How its statements run -/

section
variable {α : Type} (w : World (PdrvResource δ) (PdrvMem δ)) (k : ℤ → PdrvScript δ α)
  (k' : Unit → PdrvScript δ α)

omit [DecidableEq δ] in
@[simp] theorem allocChrdevRegion_ok (r : Region maxDevices) :
    (allocChrdevRegion (.ok r) >>= k) w =
      k 0 { w.use (.acquire (region r.1)) with
        mem := w.mem.setPdrv ({ · with devNumBase := r.1 }) } := rfl

omit [DecidableEq δ] in
@[simp] theorem allocChrdevRegion_error (e : Errno) :
    (allocChrdevRegion (.error e) >>= k) w = k (-e.1) w := rfl

@[simp] theorem deviceCreate_bind (id : ℤ) (devt : ℕ) (o : Except Errno Object) :
    (deviceCreate id devt o >>= k) w = (create (node id devt)
      (if nameTaken id (live w.past) then .error eexist else o) >>= k) w := rfl

theorem deviceDestroy_bind {id : ℤ} {devt : ℕ}
    (h : (live w.past).find? (hasNumber devt) = some (node id devt)) :
    (deviceDestroy devt >>= k') w = k' () (w.use (.release (node id devt))) := by
  simp [deviceDestroy, h]

end

end Ldd.Platform

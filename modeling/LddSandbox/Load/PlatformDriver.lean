import LddSandbox.Kernel.Loader
import LddSandbox.Message.Drivers

/-! `myplatform_init` and `myplatform_exit` of `09-platform-driver`, with the probe and the remove
    that the driver core runs inside them.

        myplatform_init:   driver ▶ test_pdev ─┬─ probe ▶ 0 ────▶ bound
                                               └─ probe ▶ -errno, devres ──▶ not bound
        probe:             record ▶ regs ▶ region ▶ cdev          (remove: cdev, region; devres)

    What is allocated with `devm_` is released by the driver core alone, after a probe that failed
    and after a remove. A probe that fails does not fail the load, and the device may be unbound and
    bound again through sysfs while the module is loaded; each probe allocates its own record. -/

namespace Ldd.Load.PlatformDriver
open Ldd.Schemes Ldd.Kernel Script Ledger Message

/-- What the module holds: the driver registered, the test device, and what a bound device has. A
    record is named by the probe that allocated it. -/
inductive PlatformResource | driver | testPdev | record (probe : ℕ) | regs | region | cdev
  deriving DecidableEq, Repr

/-- The cdev is part of the record and serves it, by code of the driver, under the device numbers;
    what was allocated with `devm_` hangs on the device. -/
@[simp] def PlatformResource.needs : PlatformResource → PlatformResource → Bool
  | .cdev, .record _ | .cdev, .region | .cdev, .driver => true
  | .record _, .testPdev | .regs, .testPdev => true
  | _, _ => false

/-- `test_pdev`, which probe of the device was the last and whether it bound the device, and the
    `struct myplatform_dev` of that probe. -/
structure PlatformMem where
  testPdev : ℤ
  probe : ℕ
  bound : Bool
  regs : ℤ
  irq : ℤ
  io : PlatformDriver.MyplatformDev

/-- The outcomes of the calls of `myplatform_probe`, in order; there is no call to
    `devm_ioremap_resource` if the device has no memory resource. -/
structure ProbeCalls where
  devmKzalloc : Option Object
  devmIoremapResource : Option (Except Errno Object)
  platformGetIrq : ℤ
  allocChrdevRegion : Except Errno Unit
  cdevAdd : Except Errno Unit

/-- The outcomes of the calls of `myplatform_init`, and of the probe of the device that it
    registers. -/
structure PlatformCalls where
  driverRegister : Except Errno Unit
  registerSimple : Except Errno Object
  probe : ProbeCalls

open PlatformResource

abbrev PlatformScript := Script PlatformResource PlatformMem

/-! ### The driver -/

/-- The drvdata of the device: the record of its last probe. -/
def drvdata : PlatformScript PlatformResource := return record (← look).probe

/-- `myplatform_probe` -/
def myplatformProbe (calls : ProbeCalls) : PlatformScript ℤ := do
  let r ← drvdata
  let dev ← alloc r calls.devmKzalloc
  if dev = 0 then
    return -ENOMEM
  assign r ({ · with regs := 0, irq := 0, io := PlatformDriver.init })
  if let some outcome := calls.devmIoremapResource then
    let p ← create regs outcome
    assign r ({ · with regs := p })
    if IsErr (← deref r).regs then
      return ptrErr (← deref r).regs
  assign r ({ · with irq := calls.platformGetIrq })
  let ret ← register region calls.allocChrdevRegion
  if ret < 0 then
    return ret
  access r
  let ret ← register cdev calls.cdevAdd
  if ret < 0 then
    access r
    release region
    return ret
  return 0

/-- `myplatform_remove` -/
def myplatformRemove : PlatformScript ℤ := do
  let r ← drvdata
  access r
  release cdev
  access r
  release region
  return 0

/-! ### The driver core -/

/-- Releases one `devm_` allocation, if it was made. -/
def devresRelease (r : PlatformResource) : PlatformScript Unit := do
  if r ∈ live (← get).past then
    release r

/-- Releases the `devm_` allocations of the device, the latest first. -/
def devresReleaseAll : PlatformScript Unit := do
  devresRelease regs
  devresRelease (← drvdata)

/-- Probes the device once more, and binds it if the probe returned 0. -/
def attach (calls : ProbeCalls) : PlatformScript Unit := do
  update fun mem => { mem with probe := mem.probe + 1 }
  let ret ← myplatformProbe calls
  if ret = 0 then
    update ({ · with bound := true })
  else
    devresReleaseAll

/-- Removes the device, if it is bound. -/
def detach : PlatformScript Unit := do
  if (← look).bound then
    let _ ← myplatformRemove
    devresReleaseAll
    update ({ · with bound := false })

/-- `platform_driver_register`; nothing is bound to a driver that is new. -/
def driverRegister (outcome : Except Errno Unit) : PlatformScript ℤ := do
  update ({ · with bound := false })
  register driver outcome

/-- `platform_device_register_simple("myplatform", -1, NULL, 0)`: the driver matches the device by
    its name, and what its probe returns is not returned. -/
def registerSimple (outcome : Except Errno Object) (calls : ProbeCalls) : PlatformScript ℤ := do
  let p ← create testPdev outcome
  if ¬ IsErr p then
    attach calls
  return p

/-- `platform_device_unregister` -/
def deviceUnregister : PlatformScript Unit := do
  detach
  release testPdev

/-- `platform_driver_unregister` -/
def driverUnregister : PlatformScript Unit := do
  detach
  release driver

/-! ### The module -/

/-- `myplatform_init` -/
def myplatformInit (calls : PlatformCalls) : PlatformScript ℤ := do
  let ret ← driverRegister calls.driverRegister
  if ret < 0 then
    return ret
  let p ← registerSimple calls.registerSimple calls.probe
  update ({ · with testPdev := p })
  if IsErr (← look).testPdev then
    driverUnregister
    return ptrErr (← look).testPdev
  return 0

/-- `myplatform_exit` -/
def myplatformExit : PlatformScript Unit := do
  if (← look).testPdev ≠ 0 then
    deviceUnregister
  driverUnregister

/-! ### Probe and remove -/

/-- Every call of the probe succeeds. -/
def ProbeCalls.succeed : ProbeCalls → Bool
  | ⟨some _, none, _, .ok _, .ok _⟩ => true
  | ⟨some _, some (.ok _), _, .ok _, .ok _⟩ => true
  | _ => false

/-- The device is registered and not bound. -/
structure Unbound (w : World PlatformResource PlatformMem) : Prop where
  sound : Sound PlatformResource.needs w.past
  bound : w.mem.bound = false
  live : live w.past = [testPdev, driver]

/-- The device is bound, with or without registers. -/
structure Bound (w : World PlatformResource PlatformMem) : Prop where
  sound : Sound PlatformResource.needs w.past
  bound : w.mem.bound = true
  live : live w.past = [cdev, region, record w.mem.probe, testPdev, driver] ∨
    live w.past = [cdev, region, regs, record w.mem.probe, testPdev, driver]

variable {w : World PlatformResource PlatformMem} {calls : ProbeCalls}

@[simp] theorem drvdata_bind {α : Type} (k : PlatformResource → PlatformScript α) :
    (drvdata >>= k) w = k (record w.mem.probe) w := rfl

@[simp] theorem drvdata_apply : drvdata w = (record w.mem.probe, w) := rfl

@[simp] theorem devresRelease_bind {α : Type} (r : PlatformResource) (k : Unit → PlatformScript α) :
    (devresRelease r >>= k) w =
      if r ∈ Ledger.live w.past then k () (w.use (.release r)) else k () w := by
  simp only [devresRelease, bind_assoc, get_bind, ite_bind]
  rfl

@[simp] theorem devresRelease_apply (r : PlatformResource) :
    devresRelease r w = if r ∈ Ledger.live w.past then ((), w.use (.release r)) else ((), w) := by
  simp only [devresRelease, get_bind, ite_run, release_apply]
  rfl

/-- A probe whose calls succeed binds the device, with no message. -/
theorem attach_binds (h : Unbound w) (hs : calls.succeed = true) :
    Bound (attach calls w).2 ∧ (attach calls w).2.mem.io = PlatformDriver.init ∧
      (attach calls w).2.mem.testPdev = w.mem.testPdev := by
  unfold ProbeCalls.succeed at hs
  split at hs
  · rename_i dev irq _ _
    refine ⟨⟨?_, ?_, .inl ?_⟩, ?_, ?_⟩ <;>
      simp [attach, myplatformProbe, h.live, h.sound, dev.2.1]
  · rename_i dev p irq _ _
    refine ⟨⟨?_, ?_, .inr ?_⟩, ?_, ?_⟩ <;>
      simp [attach, myplatformProbe, h.live, h.sound, dev.2.1, p.2.2]
  · exact absurd hs (by decide)

/-- What a device that is not bound may still have: its `devm_` allocations. -/
structure Allocated (w : World PlatformResource PlatformMem) : Prop where
  sound : Sound PlatformResource.needs w.past
  live : live w.past = [testPdev, driver] ∨
    live w.past = [record w.mem.probe, testPdev, driver] ∨
    live w.past = [regs, record w.mem.probe, testPdev, driver]

theorem Allocated.released (h : Allocated w) :
    Sound PlatformResource.needs (devresReleaseAll w).2.past ∧
      Ledger.live (devresReleaseAll w).2.past = [testPdev, driver] ∧
      (devresReleaseAll w).2.mem = w.mem := by
  have hsound := h.sound
  rcases h.live with hlive | hlive | hlive <;> refine ⟨?_, ?_, ?_⟩ <;>
    simp [devresReleaseAll, hlive, hsound]

/-- A probe with a call that fails returns its error: one case for each call, in order. -/
theorem myplatformProbe_fails (h : Unbound w) (hf : calls.succeed = false) :
    (myplatformProbe calls w).1 ≠ 0 ∧ Allocated (myplatformProbe calls w).2 ∧
      (myplatformProbe calls w).2.mem.bound = false ∧
      (myplatformProbe calls w).2.mem.testPdev = w.mem.testPdev := by
  have hsound := h.sound
  have hlive := h.live
  have hbound := h.bound
  have hne : ∀ e : Errno, e.1 ≠ 0 := fun e => Int.ne_of_gt e.2.1
  have hnomem : ENOMEM ≠ 0 := by decide
  rcases calls with ⟨_ | dev, res, irq, reg, added⟩
  · refine ⟨?_, ⟨?_, .inl ?_⟩, ?_, ?_⟩ <;> simp [myplatformProbe, hlive, hsound, hbound, hnomem]
  rcases res with _ | e | p
  · rcases reg with e | _
    · refine ⟨?_, ⟨?_, .inr (.inl ?_)⟩, ?_, ?_⟩ <;>
        simp [myplatformProbe, hlive, hsound, hbound, dev.2.1, e.2.1, hne]
    rcases added with e | _
    · refine ⟨?_, ⟨?_, .inr (.inl ?_)⟩, ?_, ?_⟩ <;>
        simp [myplatformProbe, hlive, hsound, hbound, dev.2.1, e.2.1, hne]
    · cases hf
  · refine ⟨?_, ⟨?_, .inr (.inl ?_)⟩, ?_, ?_⟩ <;>
      simp [myplatformProbe, hlive, hsound, hbound, dev.2.1, hne]
  · rcases reg with e | _
    · refine ⟨?_, ⟨?_, .inr (.inr ?_)⟩, ?_, ?_⟩ <;>
        simp [myplatformProbe, hlive, hsound, hbound, dev.2.1, p.2.2, e.2.1, hne]
    rcases added with e | _
    · refine ⟨?_, ⟨?_, .inr (.inr ?_)⟩, ?_, ?_⟩ <;>
        simp [myplatformProbe, hlive, hsound, hbound, dev.2.1, p.2.2, e.2.1, hne]
    · cases hf

/-- The world in which the device is probed once more. -/
def probing (w : World PlatformResource PlatformMem) : World PlatformResource PlatformMem :=
  { w with mem := { w.mem with probe := w.mem.probe + 1 } }

theorem attach_run : attach calls w =
    (if (myplatformProbe calls (probing w)).1 = 0 then update ({ · with bound := true })
      else devresReleaseAll) (myplatformProbe calls (probing w)).2 := rfl

/-- A probe with a call that fails leaves nothing. -/
theorem attach_undoes (h : Unbound w) (hf : calls.succeed = false) :
    Unbound (attach calls w).2 ∧ (attach calls w).2.mem.testPdev = w.mem.testPdev := by
  have hprobing : Unbound (probing w) := ⟨h.sound, h.bound, h.live⟩
  obtain ⟨hret, hallocated, hbound, hpdev⟩ := myplatformProbe_fails hprobing hf
  obtain ⟨hsound, hlive, hmem⟩ := hallocated.released
  rw [attach_run, if_neg hret]
  exact ⟨⟨hsound, (congrArg PlatformMem.bound hmem).trans hbound, hlive⟩,
    (congrArg PlatformMem.testPdev hmem).trans hpdev⟩

/-- A remove of the device leaves its allocations. -/
theorem myplatformRemove_ends (h : Bound w) : Allocated (myplatformRemove w).2 ∧
    (myplatformRemove w).2.mem = w.mem := by
  have hsound := h.sound
  rcases h.live with hlive | hlive
  · refine ⟨⟨?_, .inr (.inl ?_)⟩, ?_⟩ <;> simp [myplatformRemove, hlive, hsound]
  · refine ⟨⟨?_, .inr (.inr ?_)⟩, ?_⟩ <;> simp [myplatformRemove, hlive, hsound]

theorem detach_run (h : w.mem.bound = true) :
    detach w = update ({ · with bound := false }) (devresReleaseAll (myplatformRemove w).2).2 := by
  simp only [detach, look_bind, h, if_true]
  rw [bind_run, bind_run]

theorem detach_unbinds (h : Bound w) :
    Unbound (detach w).2 ∧ (detach w).2.mem.testPdev = w.mem.testPdev := by
  obtain ⟨hallocated, hmem⟩ := myplatformRemove_ends h
  obtain ⟨hsound, hlive, hmem'⟩ := hallocated.released
  have hpdev : (devresReleaseAll (myplatformRemove w).2).2.mem.testPdev = w.mem.testPdev :=
    congrArg PlatformMem.testPdev (hmem'.trans hmem)
  rw [detach_run h.bound, update_apply]
  exact ⟨⟨hsound, rfl, hlive⟩, hpdev⟩

theorem detach_idle (h : w.mem.bound = false) : detach w = ((), w) := by
  simp [detach, h]

/-! ### Loads and unloads -/

/-- Every call of `myplatform_init` succeeds; those of the probe need not. -/
def PlatformCalls.succeed : PlatformCalls → Bool
  | ⟨.ok _, .ok _, _⟩ => true
  | _ => false

/-- `09-platform-driver` -/
def platformModule : Loadable PlatformResource PlatformMem PlatformCalls where
  needs := PlatformResource.needs
  init := myplatformInit
  exit := myplatformExit
  fails calls := !calls.succeed

/-- What a successful `myplatform_init` leaves: the device, bound or not. -/
structure PlatformHeld (w : World PlatformResource PlatformMem) : Prop where
  testPdev : w.mem.testPdev ≠ 0
  device : Unbound w ∨ Bound w

/-- The world in which the device is probed. -/
def registered (w : World PlatformResource PlatformMem) : World PlatformResource PlatformMem :=
  { w with
    past := .acquire testPdev :: .acquire driver :: w.past
    mem := { w.mem with bound := false } }

theorem registered_unbound (hidle : Ledger.live w.past = [])
    (hsound : Sound PlatformResource.needs w.past) : Unbound (registered w) := by
  refine ⟨?_, rfl, ?_⟩ <;> simp [registered, hidle, hsound]

section Runs
variable {α : Type} (k : ℤ → PlatformScript α)

@[simp] theorem driverRegister_ok (u : Unit) : (driverRegister (.ok u) >>= k) w =
    k 0 { w with past := .acquire driver :: w.past, mem := { w.mem with bound := false } } := rfl

@[simp] theorem driverRegister_error (e : Errno) : (driverRegister (.error e) >>= k) w =
    k (-e.1) { w with mem := { w.mem with bound := false } } := rfl

@[simp] theorem registerSimple_ok (p : Object) : (registerSimple (.ok p) calls >>= k) w =
    k p.1 (attach calls (w.use (.acquire testPdev))).2 := by
  simp only [registerSimple, bind_assoc, create_ok, p.2.2, not_false_eq_true, if_true]
  rfl

@[simp] theorem registerSimple_error (e : Errno) :
    (registerSimple (.error e) calls >>= k) w = k (-e.1) w := by
  simp only [registerSimple, bind_assoc, create_error, e.isErr, not_true_eq_false, if_false]
  rfl

@[simp] theorem detach_bind (f : Unit → PlatformScript α) :
    (detach >>= f) w = f () (detach w).2 := rfl

end Runs

theorem myplatformInit_run {u : Unit} {p : Object} :
    myplatformInit ⟨.ok u, .ok p, calls⟩ w = (0, { (attach calls (registered w)).2 with
      mem := { (attach calls (registered w)).2.mem with testPdev := p.1 } }) := by
  simp [myplatformInit, p.2.2, registered, World.use]

/-- A call of the module itself fails: what was registered before it is unregistered. -/
theorem myplatformInit_rolls_back {calls : PlatformCalls} (hidle : Ledger.live w.past = [])
    (hsound : Sound PlatformResource.needs w.past) (hf : calls.succeed = false) :
    (∃ e : Errno, (myplatformInit calls w).1 = -e.1) ∧
      Sound PlatformResource.needs (myplatformInit calls w).2.past ∧
      Ledger.live (myplatformInit calls w).2.past = [] := by
  rcases calls with ⟨e | _, pdev, probe⟩
  · refine ⟨⟨e, ?_⟩, ?_, ?_⟩ <;> simp [myplatformInit, hidle, hsound, e.2.1]
  rcases pdev with e | p
  · refine ⟨⟨e, ?_⟩, ?_, ?_⟩ <;>
      simp [myplatformInit, driverUnregister, detach_idle, hidle, hsound]
  · cases hf

/-- An exit from an unbound device, whose registrations are left. -/
theorem myplatformExit_unbound (h : Unbound w) (hp : w.mem.testPdev ≠ 0) :
    Sound PlatformResource.needs (myplatformExit w).2.past ∧
      Ledger.live (myplatformExit w).2.past = [] := by
  constructor <;>
    simp [myplatformExit, deviceUnregister, driverUnregister, detach_idle, h.bound, h.live, h.sound,
      hp]

theorem myplatformExit_ends (h : PlatformHeld w) :
    Sound PlatformResource.needs (myplatformExit w).2.past ∧
      Ledger.live (myplatformExit w).2.past = [] := by
  rcases h.device with hu | hb
  · exact myplatformExit_unbound hu h.testPdev
  · obtain ⟨hu, hp⟩ := detach_unbinds hb
    have hsame : myplatformExit w = myplatformExit (detach w).2 := by
      have hagain : detach (detach w).2 = ((), (detach w).2) := detach_idle hu.bound
      simp [myplatformExit, deviceUnregister, hp, h.testPdev, hagain]
    rw [hsame]
    exact myplatformExit_unbound hu (hp ▸ h.testPdev)

theorem platformModule_unwinds : platformModule.Unwinds (fun _ => false) PlatformHeld where
  loads calls w hidle hsound hf := by
    obtain ⟨_ | u, _ | p, probe⟩ := calls <;> cases hf
    have hreg := registered_unbound hidle hsound
    have hinit : platformModule.init ⟨.ok u, .ok p, probe⟩ w = _ := myplatformInit_run
    rw [hinit]
    cases hs : probe.succeed with
    | true =>
      have hb := (attach_binds hreg hs).1
      exact ⟨rfl, hb.sound, p.2.1, .inr ⟨hb.sound, hb.bound, hb.live⟩⟩
    | false =>
      have hu := (attach_undoes hreg hs).1
      exact ⟨rfl, hu.sound, p.2.1, .inl ⟨hu.sound, hu.bound, hu.live⟩⟩
  rolls_back calls w hidle hsound hf _ :=
    myplatformInit_rolls_back hidle hsound (by simpa [platformModule] using hf)
  slips _ _ _ hs := by cases hs
  unloads w freed _ hheld := by
    refine myplatformExit_ends (w := { w with freed := freed }) ⟨hheld.testPdev, ?_⟩
    rcases hheld.device with h | h
    · exact .inl ⟨h.sound, h.bound, h.live⟩
    · exact .inr ⟨h.sound, h.bound, h.live⟩

end Ldd.Load.PlatformDriver

import LddSandbox.Kernel.Loader
import LddSandbox.Platform.Driver

/-! Loads and unloads of the two modules of `10-platform-instance`, in any order.

        platform-drv:    region ▶ class ▶ driver         (platform_drv_cleanup: back again)
        platform-setup:  platform_dev_1 ▶ platform_dev_2

    Both inits return 0 without looking at what the registration returned, and the loader pairs
    init and exit by that value alone. -/

namespace Ldd.Platform
open Ldd.Schemes Ldd.Kernel Script Ledger

variable {δ : Type} [DecidableEq δ]

/-! ### The modules -/

/-- What `platform-setup` holds: its devices on the platform bus. -/
inductive SetupResource | platformDev1 | platformDev2
  deriving DecidableEq, Repr

/-- The outcomes of registering the devices, in order. -/
structure SetupCalls where
  device1 : Except Errno Unit
  device2 : Except Errno Unit

open SetupResource in
/-- `platform_add_devices`: if a device cannot be added, the one before it is removed. -/
def platformAddDevices (calls : SetupCalls) : Script SetupResource Unit ℤ := do
  let ret ← register platformDev1 calls.device1
  if ret ≠ 0 then
    return ret
  let ret ← register platformDev2 calls.device2
  if ret ≠ 0 then
    release platformDev1
    return ret
  return 0

/-- `platform_driver_init` -/
def platformDriverInit (calls : SetupCalls) : Script SetupResource Unit ℤ := do
  let _ ← platformAddDevices calls
  return 0

open SetupResource in
/-- `platform_driver_exit` -/
def platformDriverExit : Script SetupResource Unit Unit := do
  release platformDev1
  release platformDev2

/-- The first call of `platform_drv_init` that fails. -/
def DrvCalls.failure : DrvCalls → Option Errno
  | ⟨.error e, _, _⟩ => some e
  | ⟨_, .error e, _⟩ => some e
  | ⟨_, _, .error e⟩ => some e
  | _ => none

/-- The failure of `platform_add_devices`. -/
def SetupCalls.failure : SetupCalls → Option Errno
  | ⟨.error e, _⟩ => some e
  | ⟨_, .error e⟩ => some e
  | _ => none

/-- `platform_driver_register` fails, and every call before it succeeds. -/
def DrvCalls.registerFails : DrvCalls → Bool
  | ⟨.ok _, .ok _, .error _⟩ => true
  | _ => false

/-- `platform_add_devices` fails. -/
def SetupCalls.addFails (calls : SetupCalls) : Bool := calls.failure.isSome

/-- `platform-drv` -/
def drvModule (δ : Type) [DecidableEq δ] : Loadable (PdrvResource δ) (PdrvMem δ) DrvCalls where
  needs := PdrvResource.needs
  init := platformDrvInit
  exit := platformDrvCleanup
  fails calls := calls.failure.isSome

/-- `platform-setup` -/
def setupModule : Loadable SetupResource Unit SetupCalls where
  needs _ _ := false
  init := platformDriverInit
  exit := platformDriverExit
  fails calls := calls.failure.isSome

/-! ### What a load should mean -/

section
variable {ρ σ ε : Type} [DecidableEq ρ]

/-- An attempt that means what it returns: init returned 0 only if `regs` are registered, and if a
    call failed it returned that errno and holds nothing; exit gave up only what was held, and all
    of it. -/
structure Means (m : Loadable ρ σ ε) (failure : ε → Option Errno) (regs : List ρ) (k : Loader ρ σ)
    (a : Attempt σ ε) : Prop where
  sound : Sound m.needs (m.next k a).world.past
  registered : (m.attempt k a).2 = some 0 → ∀ r ∈ regs, r ∈ live (m.next k a).world.past
  failed : ∀ calls freed e, a = .load calls freed → k.loaded = false → failure calls = some e →
    (m.attempt k a).2 = some (-e.1) ∧ live (m.next k a).world.past = []
  exited : ∀ freed, a = .unload freed → k.loaded = true → live (m.next k a).world.past = [] ∧
    ∀ r, (m.next k a).world.past.count (.release r) = (m.next k a).world.past.count (.acquire r)

/-- What init and exit do when each is run alone. -/
structure Registers (m : Loadable ρ σ ε) (failure : ε → Option Errno) (regs : List ρ)
    (slips : ε → Bool) (held : World ρ σ → Prop) : Prop where
  loads : ∀ calls w, live w.past = [] → Sound m.needs w.past → failure calls = none →
    (m.init calls w).1 = 0 ∧ Sound m.needs (m.init calls w).2.past ∧ held (m.init calls w).2
  fails : ∀ calls w, live w.past = [] → Sound m.needs w.past → slips calls = false →
    ∀ e, failure calls = some e → (m.init calls w).1 = -e.1 ∧
      Sound m.needs (m.init calls w).2.past ∧ live (m.init calls w).2.past = []
  slips : ∀ calls w, live w.past = [] → slips calls = true →
    ∃ r ∈ regs, (m.init calls w).1 = 0 ∧ r ∉ live (m.init calls w).2.past
  exits : ∀ w freed, Sound m.needs w.past → held w →
    Sound m.needs (m.exit { w with freed := freed }).2.past ∧
      live (m.exit { w with freed := freed }).2.past = []
  held : ∀ w, held w → ∀ r ∈ regs, r ∈ live w.past

variable {m : Loadable ρ σ ε} {failure : ε → Option Errno} {regs : List ρ} {slips : ε → Bool}
  {held : World ρ σ → Prop} {k : Loader ρ σ} {a : Attempt σ ε}

/-- What an attempt leaves decides whether it meant what it returned. -/
theorem means_of {k' : Loader ρ σ} {o : Option ℤ} (hrun : m.attempt k a = (k', o))
    (hb : m.Between held k') (hzero : o = some 0 → ∀ r ∈ regs, r ∈ live k'.world.past)
    (hfail : ∀ calls freed e, a = .load calls freed → k.loaded = false →
      failure calls = some e → o = some (-e.1) ∧ live k'.world.past = [])
    (hexit : ∀ freed, a = .unload freed → k.loaded = true → live k'.world.past = []) :
    Means m failure regs k a ∧ m.Between held (m.next k a) := by
  have hnext : m.next k a = k' := congrArg Prod.fst hrun
  refine ⟨⟨?_, ?_, ?_, ?_⟩, hnext ▸ hb⟩
  · rw [hnext]
    exact hb.sound
  · rw [hrun, hnext]
    exact hzero
  · rw [hrun, hnext]
    exact hfail
  · intro freed ha hk
    have hnone := hexit freed ha hk
    rw [hnext]
    exact ⟨hnone, fun r => hb.sound.released hnone r⟩

/-- A load that does not slip means what it returns. -/
theorem means_load (h : Registers m failure regs slips held) (hb : m.Between held k)
    (hk : k.loaded = false) {calls : ε} (hs : slips calls = false) (freed : σ) :
    Means m failure regs k (.load calls freed) ∧ m.Between held (m.next k (.load calls freed)) := by
  have hrun := Loadable.attempt_load (m := m) hk calls freed
  cases hf : failure calls with
  | none =>
    obtain ⟨hret, hsound, hheld⟩ :=
      h.loads calls { k.world with freed := freed } (hb.idle hk) hb.sound hf
    rw [hret] at hrun
    refine means_of hrun ⟨hsound, fun _ => hheld, nofun⟩ (fun _ => h.held _ hheld) ?_ nofun
    rintro calls' freed' e ha - hf'
    cases ha
    rw [hf] at hf'
    cases hf'
  | some e =>
    obtain ⟨hret, hsound, hnone⟩ :=
      h.fails calls { k.world with freed := freed } (hb.idle hk) hb.sound hs e hf
    have hneg := e.neg
    rw [hret, decide_eq_false (Int.not_le.mpr hneg)] at hrun
    refine means_of hrun ⟨hsound, nofun, fun _ => hnone⟩ ?_ ?_ nofun
    · intro hzero
      have := Option.some.inj hzero
      omega
    · rintro calls' freed' e' ha - hf'
      cases ha
      rw [hf] at hf'
      cases hf'
      exact ⟨rfl, hnone⟩

theorem means_unload (h : Registers m failure regs slips held) (hb : m.Between held k)
    (hk : k.loaded = true) (freed : σ) :
    Means m failure regs k (.unload freed) ∧ m.Between held (m.next k (.unload freed)) := by
  obtain ⟨hsound, hnone⟩ := h.exits k.world freed hb.sound (hb.held hk)
  exact means_of (Loadable.attempt_unload hk freed) ⟨hsound, nofun, fun _ => hnone⟩ nofun nofun
    fun _ _ _ => hnone

/-- One attempt: it means what it returns if it does not slip, and keeps what holds between
    attempts. -/
theorem means_step (h : Registers m failure regs slips held) (hb : m.Between held k)
    (ha : Loadable.Avoids slips k a) : Means m failure regs k a ∧ m.Between held (m.next k a) := by
  cases hk : k.loaded with
  | false =>
    cases a with
    | load calls freed => exact means_load h hb hk (ha calls freed rfl hk) freed
    | unload freed =>
      refine means_of (Loadable.attempt_idle_unload hk freed) hb nofun nofun fun _ _ hk' => ?_
      rw [hk] at hk'
      cases hk'
  | true =>
    cases a with
    | load calls freed =>
      refine means_of (Loadable.attempt_idle_load hk calls freed) hb nofun ?_ nofun
      rintro calls' freed' e - hk'
      rw [hk] at hk'
      cases hk'
    | unload freed => exact means_unload h hb hk freed

/-- A load that slips returns 0 without a registration. -/
theorem avoids_of_means (h : Registers m failure regs slips held) (hb : m.Between held k)
    (hm : Means m failure regs k a) : Loadable.Avoids slips k a := by
  intro calls freed ha hk
  cases hs : slips calls with
  | false => rfl
  | true =>
    subst ha
    obtain ⟨r, hr, hret, hnot⟩ :=
      h.slips calls { k.world with freed := freed } (hb.idle hk) hs
    have hrun := Loadable.attempt_load (m := m) hk calls freed
    have hnext : m.next k (.load calls freed) = _ := congrArg Prod.fst hrun
    have hlive := hm.registered (by rw [hrun, hret]) r hr
    rw [hnext] at hlive
    exact absurd hlive hnot

end

/-! ### The two modules do -/

/-- What a successful `platform_drv_init` holds. -/
def drvHeld (w : World (PdrvResource δ) (PdrvMem δ)) : Prop :=
  live w.past = [.driver, .class w.mem.pdrv.classPcd, .region w.mem.pdrv.devNumBase]

/-- What a successful `platform_driver_init` holds. -/
def setupHeld (w : World SetupResource Unit) : Prop :=
  live w.past = [.platformDev2, .platformDev1]

theorem drvModule_registers (δ : Type) [DecidableEq δ] :
    Registers (drvModule δ) DrvCalls.failure [.driver] DrvCalls.registerFails drvHeld where
  loads := by
    intro calls w hidle hsound hf
    have hsound' : Sound PdrvResource.needs w.past := hsound
    rcases calls with ⟨e | r, cls, reg⟩
    · cases hf
    rcases cls with e | c
    · cases hf
    rcases reg with e | _
    · cases hf
    refine ⟨?_, ?_, ?_⟩ <;>
      simp [drvModule, platformDrvInit, drvHeld, hidle, hsound', c.2.2]
  fails := by
    intro calls w hidle hsound hs e hf
    have hsound' : Sound PdrvResource.needs w.past := hsound
    rcases calls with ⟨e' | r, cls, reg⟩
    · cases hf
      have he := e.2.1
      refine ⟨?_, ?_, ?_⟩ <;> simp [drvModule, platformDrvInit, hidle, hsound', he]
    rcases cls with e' | c
    · cases hf
      refine ⟨?_, ?_, ?_⟩ <;> simp [drvModule, platformDrvInit, hidle, hsound']
    rcases reg with e' | _
    · cases hs
    · cases hf
  slips := by
    intro calls w hidle hs
    rcases calls with ⟨e | r, cls, reg⟩
    · cases hs
    rcases cls with e | c
    · cases hs
    rcases reg with e | _
    swap
    · cases hs
    refine ⟨.driver, List.mem_singleton_self _, ?_, ?_⟩ <;>
      simp [drvModule, platformDrvInit, hidle, c.2.2]
  exits := by
    intro w freed hsound hheld
    have hsound' : Sound PdrvResource.needs w.past := hsound
    have hheld' : live w.past = _ := hheld
    constructor <;> simp [drvModule, platformDrvCleanup, hheld', hsound']
  held := by
    intro w hheld r hr
    rw [List.mem_singleton.mp hr, show live w.past = _ from hheld]
    exact List.mem_cons_self

theorem setupModule_registers :
    Registers setupModule SetupCalls.failure [.platformDev1, .platformDev2] SetupCalls.addFails
      setupHeld where
  loads := by
    intro calls w hidle hsound hf
    have hsound' : Sound (fun _ _ => false) w.past := hsound
    rcases calls with ⟨e | _, o⟩
    · cases hf
    rcases o with e | _
    · cases hf
    refine ⟨?_, ?_, ?_⟩ <;>
      simp [setupModule, platformDriverInit, platformAddDevices, setupHeld, hidle, hsound']
  fails := by
    intro calls w _ _ hs e hf
    rw [SetupCalls.addFails, hf] at hs
    cases hs
  slips := by
    rintro calls w hidle hs
    refine ⟨.platformDev1, List.mem_cons_self, rfl, ?_⟩
    rcases calls with ⟨e | _, o⟩
    · have he : e.1 ≠ 0 := Int.ne_of_gt e.2.1
      simp [setupModule, platformDriverInit, platformAddDevices, hidle, he]
    rcases o with e | _
    · have he : e.1 ≠ 0 := Int.ne_of_gt e.2.1
      simp [setupModule, platformDriverInit, platformAddDevices, hidle, he]
    · cases hs
  exits := by
    intro w freed hsound hheld
    have hsound' : Sound (fun _ _ => false) w.past := hsound
    have hheld' : live w.past = _ := hheld
    constructor <;> simp [setupModule, platformDriverExit, hheld', hsound']
  held := by
    intro w hheld r hr
    rw [show live w.past = _ from hheld]
    revert hr
    simp [or_comm]

/-! ### Both modules together -/

/-- Each module with its own statics and resources. -/
structure Modules (δ : Type) where
  drv : Loader (PdrvResource δ) (PdrvMem δ)
  setup : Loader SetupResource Unit

/-- A load or unload of one of the two. -/
inductive ModuleAttempt (δ : Type)
  | drv (a : Attempt (PdrvMem δ) DrvCalls)
  | setup (a : Attempt Unit SetupCalls)

namespace Modules

def boot (mem : PdrvMem δ) : Modules δ := ⟨.boot mem, .boot ()⟩

def next (s : Modules δ) : ModuleAttempt δ → Modules δ
  | .drv a => { s with drv := (drvModule δ).next s.drv a }
  | .setup a => { s with setup := setupModule.next s.setup a }

/-- The attempt means what it returns. -/
def Honest (s : Modules δ) : ModuleAttempt δ → Prop
  | .drv a => Means (drvModule δ) DrvCalls.failure [.driver] s.drv a
  | .setup a => Means setupModule SetupCalls.failure [.platformDev1, .platformDev2] s.setup a

/-- The attempt runs no init whose registration fails. -/
def Registering (s : Modules δ) : ModuleAttempt δ → Prop
  | .drv a => Loadable.Avoids DrvCalls.registerFails s.drv a
  | .setup a => Loadable.Avoids SetupCalls.addFails s.setup a

/-- What holds between attempts. -/
structure Between (s : Modules δ) : Prop where
  drv : (drvModule δ).Between drvHeld s.drv
  setup : setupModule.Between setupHeld s.setup

/-- One attempt. -/
theorem honest_iff {s : Modules δ} (hb : s.Between) (a : ModuleAttempt δ) :
    s.Honest a ↔ s.Registering a := by
  cases a with
  | drv a =>
    constructor
    · exact avoids_of_means (drvModule_registers δ) hb.drv
    · exact fun ha => (means_step (drvModule_registers δ) hb.drv ha).1
  | setup a =>
    constructor
    · exact avoids_of_means setupModule_registers hb.setup
    · exact fun ha => (means_step setupModule_registers hb.setup ha).1

theorem between_next {s : Modules δ} (hb : s.Between) {a : ModuleAttempt δ} (ha : s.Honest a) :
    (s.next a).Between := by
  have hreg := (honest_iff hb a).mp ha
  cases a with
  | drv a => exact ⟨(means_step (drvModule_registers δ) hb.drv hreg).2, hb.setup⟩
  | setup a => exact ⟨hb.drv, (means_step setupModule_registers hb.setup hreg).2⟩

end Modules

/-- Every attempt of a sequence means what it returns. -/
def AllHonest (mem : PdrvMem δ) (attempts : List (ModuleAttempt δ)) : Prop :=
  Traced Modules.next Modules.Honest (.boot mem) attempts

/-- No attempt of a sequence runs an init whose registration fails. -/
def AllRegistering (mem : PdrvMem δ) (attempts : List (ModuleAttempt δ)) : Prop :=
  Traced Modules.next Modules.Registering (.boot mem) attempts

/-- LOADED MEANS REGISTERED: over any sequence of loads and unloads of the two modules, init returns
    0 only with its driver or its devices registered, a failed call makes it return that errno with
    nothing held, and exit gives up exactly what is held, if and only if no init that ran had
    `platform_driver_register` or `platform_add_devices` fail. -/
theorem loaded_registered_iff (mem : PdrvMem δ) (attempts : List (ModuleAttempt δ)) :
    AllHonest mem attempts ↔ AllRegistering mem attempts :=
  Traced.iff (I := Modules.Between) (fun _ a hb => Modules.honest_iff hb a)
    (fun _ _ hb ha => Modules.between_next hb ha)
    ⟨Loadable.between_boot mem, Loadable.between_boot ()⟩

/-- `platform_driver_register` finds no memory. -/
def noDriver : DrvCalls :=
  ⟨.ok ⟨240 * 2 ^ 20, room_at_240⟩, .ok someObject, .error enomem⟩

/-- The statics before a load. -/
def statics : PdrvMem ℕ := ⟨⟨0, 0, 0, 0⟩, fun _ => none, fun _ => .zeroed⟩

/-- `platform-drv` stays loaded although its driver is not registered. -/
theorem not_always_registered : ¬ AllHonest statics [.drv (.load noDriver statics)] := by
  rintro ⟨h, -⟩
  exact absurd (h.registered rfl .driver List.mem_cons_self) (by decide)

end Ldd.Platform

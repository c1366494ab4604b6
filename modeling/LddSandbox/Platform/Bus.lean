import LddSandbox.Platform.Probe

/-! The platform bus and the driver of `10-platform-instance`.

        registerDriver    addDevice d        probe d        remove d
              │                │         (driver and d      (either is to go)
              ▼                ▼          are there)              │
           driver           present ─────────▶ bound ─────────────┘
              │                │
        unregisterDriver  removeDevice d     (once nothing of theirs is bound)

    The bus probes the devices that match in any order, and removes what is bound before the driver
    or the device goes. A call that the bus does not make in a state leaves the state. -/

namespace Ldd.Platform
open Ldd.Schemes Ldd.Kernel Script Ledger PdrvResource

variable {δ : Type} [DecidableEq δ]

structure Bus (δ : Type) where
  world : World (PdrvResource δ) (PdrvMem δ)
  driver : Bool
  present : δ → Bool
  bound : List δ

/-- What happens on the bus, with the outcomes of the calls that the driver makes; `freed` is what
    freed memory holds meanwhile. -/
inductive BusEvent (δ : Type)
  | registerDriver (first : Region maxDevices) (cls : Object)
  | unregisterDriver
  | addDevice (d : δ)
  | removeDevice (d : δ)
  | probe (d : δ) (calls : ProbeCalls) (freed : PdrvMem δ)
  | remove (d : δ) (freed : PdrvMem δ)

/-- `pdrv_data` of a module that was just loaded. -/
@[simp] def DrvData.zeroed : DrvData := ⟨0, 0, 0, 0⟩

namespace Bus
variable (pdev : δ → PlatformDevice)

/-- No driver, no device; `data` is what memory holds. -/
def boot (data : δ → DevData) : Bus δ :=
  let mem : PdrvMem δ := ⟨.zeroed, fun _ => none, data⟩
  ⟨⟨[], mem, mem⟩, false, fun _ => false, []⟩

/-- The bus may probe the device. -/
def Probes (b : Bus δ) (d : δ) : Prop :=
  b.driver = true ∧ b.present d = true ∧ (pdev d).matched = true ∧ d ∉ b.bound

instance (b : Bus δ) (d : δ) : Decidable (b.Probes pdev d) :=
  inferInstanceAs (Decidable (_ ∧ _ ∧ _ ∧ _))

/-- What a probe returns, and the world it leaves. -/
def probe (b : Bus δ) (d : δ) (calls : ProbeCalls) (freed : PdrvMem δ) :
    ℤ × World (PdrvResource δ) (PdrvMem δ) :=
  platformDrvProbe pdev d calls { b.world with freed := freed }

def step (b : Bus δ) : BusEvent δ → Bus δ
  | .registerDriver first cls =>
    if b.driver then b
    else
      let w := { b.world with mem := b.world.mem.setPdrv fun _ => .zeroed }
      { b with
        world := (platformDrvInit ⟨.ok first, .ok cls, .ok ()⟩ w).2
        driver := true }
  | .unregisterDriver =>
    if b.driver ∧ b.bound = [] then
      { b with
        world := (platformDrvCleanup b.world).2
        driver := false }
    else b
  | .addDevice d => { b with present := Function.update b.present d true }
  | .removeDevice d =>
    if d ∈ b.bound then b else { b with present := Function.update b.present d false }
  | .probe d calls freed =>
    if b.Probes pdev d then
      let (ret, w) := b.probe pdev d calls freed
      if ret = 0 then { b with world := w, bound := d :: b.bound }
      else { b with world := (devresRelease d w).2 }
    else b
  | .remove d freed =>
    if d ∈ b.bound then
      let w := (platformDrvRemove d { b.world with freed := freed }).2
      { b with world := (devresRelease d w).2, bound := b.bound.erase d }
    else b

/-- The bus after some events. -/
def after (data : δ → DevData) (events : List (BusEvent δ)) : Bus δ :=
  events.foldl (step pdev) (boot data)

end Bus

/-! ### What is held -/

/-- What a bound device owns. -/
def Owns (pdev : δ → PlatformDevice) (m : PdrvMem δ) (d : δ) (r : PdrvResource δ) : Prop :=
  r = record d ∨ r = buffer d ∨ r = cdev d ∨ r = node (pdev d).id (m.data d).devNum

/-- What the registered driver owns. -/
def DriverOwns (m : PdrvMem δ) (r : PdrvResource δ) : Prop :=
  r = driver ∨ r = .class m.pdrv.classPcd ∨ r = region m.pdrv.devNumBase

def Bus.held (pdev : δ → PlatformDevice) (b : Bus δ) : Set (PdrvResource δ) :=
  { r | (b.driver = true ∧ DriverOwns b.world.mem r) ∨
    ∃ d ∈ b.bound, Owns pdev b.world.mem d r }

variable {pdev : δ → PlatformDevice} {b b' : Bus δ} {d : δ} {calls : ProbeCalls} {freed : PdrvMem δ}

/-- What holds between events. -/
structure Bus.Inv (pdev : δ → PlatformDevice) (b : Bus δ) : Prop where
  holds : Holds needs (b.held pdev) b.world.past
  total : b.world.mem.pdrv.totalDevices = b.bound.length
  nodup : b.bound.Nodup
  driven : b.driver = false → b.bound = []
  drvdata : ∀ d, b.world.mem.drvdata d = if d ∈ b.bound then some d else none
  names : ∀ d ∈ b.bound, ∀ d' ∈ b.bound, (pdev d).id = (pdev d').id → d = d'
  numbers : ∀ d ∈ b.bound,
    (b.world.mem.data d).devNum = numberOf b.world.mem.pdrv.devNumBase (pdev d).id
  base : b.world.mem.pdrv.devNumBase < 2 ^ 32 ∧
    minor b.world.mem.pdrv.devNumBase + maxDevices ≤ 2 ^ minorBits

theorem numberOf_inj {base : ℕ} {p q : PlatformDevice}
    (h : numberOf base p.id = numberOf base q.id) : p.id = q.id := by
  have hp := p.id_range
  have hq := q.id_range
  unfold numberOf at h
  omega

namespace Bus

theorem inv_boot (data : δ → DevData) : (boot data).Inv pdev where
  holds := ⟨trivial, fun r => by simp [boot, held]⟩
  total := rfl
  nodup := List.nodup_nil
  driven _ := rfl
  drvdata _ := rfl
  names d hd := absurd hd List.not_mem_nil
  numbers d hd := absurd hd List.not_mem_nil
  base := (by decide : 0 < 2 ^ 32 ∧ minor 0 + maxDevices ≤ 2 ^ minorBits)

/-- A device that is not bound owns nothing. -/
theorem Inv.fresh (h : b.Inv pdev) (hd : d ∉ b.bound) : Fresh d (live b.world.past) := by
  have hnone : ∀ r, r = record d ∨ r = buffer d ∨ r = cdev d → r ∉ live b.world.past := by
    rintro r hr hlive
    rcases (h.holds.mem r).mp hlive with ⟨-, hown⟩ | ⟨d', hd', hown⟩
    · rcases hr with rfl | rfl | rfl <;> rcases hown with hown | hown | hown <;> cases hown
    · rcases hr with rfl | rfl | rfl <;> rcases hown with hown | hown | hown | hown <;>
        cases hown <;> exact hd hd'
  exact ⟨hnone _ (.inl rfl), hnone _ (.inr (.inl rfl)), hnone _ (.inr (.inr rfl))⟩

/-- The nodes are those of the bound devices. -/
theorem Inv.node (h : b.Inv pdev) {id : ℤ} {devt : ℕ} :
    node id devt ∈ live b.world.past ↔
      ∃ d ∈ b.bound, id = (pdev d).id ∧ devt = (b.world.mem.data d).devNum := by
  rw [h.holds.mem]
  constructor
  · rintro (⟨-, hown⟩ | ⟨d, hd, hown⟩)
    · rcases hown with hown | hown | hown <;> cases hown
    · rcases hown with hown | hown | hown | hown <;> cases hown
      exact ⟨d, hd, rfl, rfl⟩
  · rintro ⟨d, hd, rfl, rfl⟩
    exact .inr ⟨d, hd, .inr (.inr (.inr rfl))⟩

/-- What does not change what is bound, held and set keeps the invariant. -/
theorem Inv.congr (h : b.Inv pdev) (hsound : Sound needs b'.world.past)
    (hlive : live b'.world.past = live b.world.past) (hbound : b'.bound = b.bound)
    (hdriver : b'.driver = b.driver)
    (hpdrv : b'.world.mem.pdrv =
      { b.world.mem.pdrv with devicePcd := b'.world.mem.pdrv.devicePcd })
    (hdrvdata : b'.world.mem.drvdata = b.world.mem.drvdata)
    (hdata : ∀ d ∈ b.bound, b'.world.mem.data d = b.world.mem.data d) : b'.Inv pdev := by
  have htotal := congrArg DrvData.totalDevices hpdrv
  have hbase := congrArg DrvData.devNumBase hpdrv
  have hcls := congrArg DrvData.classPcd hpdrv
  refine ⟨⟨hsound, fun r => ?_⟩, ?_, ?_, ?_, ?_, ?_, ?_, ?_⟩
  · rw [hlive, h.holds.mem]
    simp only [held, DriverOwns, Set.mem_ofPred_eq, hdriver, hbound, hbase, hcls]
    refine or_congr Iff.rfl (exists_congr fun d => and_congr_right fun hd => ?_)
    rw [Owns, Owns, hdata d hd]
  · rw [htotal, hbound]
    exact h.total
  · rw [hbound]
    exact h.nodup
  · rw [hbound, hdriver]
    exact h.driven
  · rw [hbound, hdrvdata]
    exact h.drvdata
  · rw [hbound]
    exact h.names
  · intro d hd
    rw [hbound] at hd
    rw [hbase, hdata d hd]
    exact h.numbers d hd
  · rw [hbase]
    exact h.base

/-! ### A probe -/

/-- What a refused probe leaves as it was: all but `device_pcd`. -/
structure Kept (b b' : Bus δ) : Prop where
  bound : b'.bound = b.bound
  driver : b'.driver = b.driver
  present : b'.present = b.present
  live : live b'.world.past = live b.world.past
  pdrv : b'.world.mem.pdrv = { b.world.mem.pdrv with devicePcd := b'.world.mem.pdrv.devicePcd }
  drvdata : b'.world.mem.drvdata = b.world.mem.drvdata
  data : ∀ d ∈ b.bound, b'.world.mem.data d = b.world.mem.data d

/-- `device_create` ends with the node of the device. -/
def Creates (pdev : δ → PlatformDevice) (b : Bus δ) (d : δ) (calls : ProbeCalls) (p : Object) :
    Prop :=
  calls.creates (pdev d).platformData = true ∧
    created (pdev d).id (Ledger.live b.world.past) calls = .ok p

/-- A probe that was undone: the devm release finds nothing. -/
theorem Inv.refused (h : b.Inv pdev) (hp : b.Probes pdev d) {e : Errno}
    (hret : (b.probe pdev d calls freed).1 = -e.1)
    (hundone : Undone d { b.world with freed := freed } (b.probe pdev d calls freed).2) :
    Kept b (b.step pdev (.probe d calls freed)) ∧
      (b.step pdev (.probe d calls freed)).Inv pdev ∧
      (b.step pdev (.probe d calls freed)).world.mem.pdrv =
        (b.probe pdev d calls freed).2.mem.pdrv := by
  obtain ⟨-, -, -, hd⟩ := id hp
  have hne : -e.1 ≠ 0 := Int.ne_of_lt e.neg
  generalize hx : b.probe pdev d calls freed = x at hret hundone
  have hfresh : Fresh d (Ledger.live x.2.past) := by
    rw [hundone.live]
    exact h.fresh hd
  have hstep : b.step pdev (.probe d calls freed) =
      { b with world := { x.2 with mem := x.2.mem.setDrvdata d none } } := by
    simp only [step, if_pos hp, hx, hret, if_neg hne]
    simp [devresRelease, hfresh.noBuffer, hfresh.noRecord]
  have hnone : b.world.mem.drvdata d = none := by
    rw [h.drvdata, if_neg hd]
  have hdrv : Function.update x.2.mem.drvdata d none = b.world.mem.drvdata := by
    rw [hundone.drvdata]
    exact (Function.update_eq_self_iff.mpr hnone.symm)
  have hdata : ∀ d' ∈ b.bound, x.2.mem.data d' = b.world.mem.data d' := fun d' hd' =>
    hundone.data d' fun heq => hd (heq ▸ hd')
  rw [hstep]
  refine ⟨⟨rfl, rfl, rfl, hundone.live, hundone.pdrv, hdrv, hdata⟩, ?_, rfl⟩
  exact h.congr hundone.sound hundone.live rfl rfl hundone.pdrv hdrv hdata

/-- A probe that ends with no node of its own fails. -/
theorem Inv.probe_fails (h : b.Inv pdev) (hp : b.Probes pdev d) (calls : ProbeCalls)
    (freed : PdrvMem δ) (hc : ∀ p, ¬ b.Creates pdev d calls p) :
    (b.probe pdev d calls freed).1 ≠ 0 ∧ Kept b (b.step pdev (.probe d calls freed)) ∧
      (b.step pdev (.probe d calls freed)).Inv pdev ∧
      (calls.creates (pdev d).platformData = false →
        (b.step pdev (.probe d calls freed)).world.mem.pdrv = b.world.mem.pdrv) ∧
      (calls.creates (pdev d).platformData = true → ∀ e,
        created (pdev d).id (Ledger.live b.world.past) calls = .error e →
        (b.step pdev (.probe d calls freed)).world.mem.pdrv.devicePcd = -e.1) := by
  have hfresh := h.fresh hp.2.2.2
  cases hcreates : calls.creates (pdev d).platformData with
  | false =>
    obtain ⟨⟨e, hret⟩, hundone, hpdrv⟩ := probe_stops
      (w := { b.world with freed := freed }) h.holds.sound hfresh hcreates
    obtain ⟨hkept, hinv, hmem⟩ := h.refused hp hret hundone
    refine ⟨?_, hkept, hinv, fun _ => hmem.trans hpdrv, fun hfalse => absurd hfalse (by decide)⟩
    rw [probe, hret]
    exact Int.ne_of_lt e.neg
  | true =>
    cases hnode : created (pdev d).id (Ledger.live b.world.past) calls with
    | ok p => exact absurd ⟨hcreates, hnode⟩ (hc p)
    | error e =>
      obtain ⟨hret, hundone, hpcd⟩ := probe_undoes
        (w := { b.world with freed := freed }) h.holds.sound hfresh hcreates hnode
      obtain ⟨hkept, hinv, hmem⟩ := h.refused hp hret hundone
      refine ⟨?_, hkept, hinv, fun hfalse => absurd hfalse (by decide), ?_⟩
      · rw [probe, hret]
        exact Int.ne_of_lt e.neg
      · rintro - e' he'
        cases he'
        rw [hmem]
        exact hpcd

omit [DecidableEq δ] in
/-- A device that is bound in addition adds what it owns. -/
theorem held_cons {w : World (PdrvResource δ) (PdrvMem δ)}
    (hdriver : ∀ r, DriverOwns w.mem r ↔ DriverOwns b.world.mem r)
    (hdata : ∀ d' ∈ b.bound, w.mem.data d' = b.world.mem.data d') (r : PdrvResource δ) :
    r ∈ held pdev { b with world := w, bound := d :: b.bound } ↔
      Owns pdev w.mem d r ∨ r ∈ b.held pdev := by
  constructor
  · rintro (⟨hdrv, hr⟩ | ⟨x, hx, hr⟩)
    · exact .inr (.inl ⟨hdrv, (hdriver r).mp hr⟩)
    · rcases List.mem_cons.mp hx with rfl | hx
      · exact .inl hr
      · rw [Owns, hdata x hx] at hr
        exact .inr (.inr ⟨x, hx, hr⟩)
  · rintro (hr | ⟨hdrv, hr⟩ | ⟨x, hx, hr⟩)
    · exact .inr ⟨d, List.mem_cons_self, hr⟩
    · exact .inl ⟨hdrv, (hdriver r).mpr hr⟩
    · refine .inr ⟨x, List.mem_cons_of_mem _ hx, ?_⟩
      rw [Owns, hdata x hx]
      exact hr

/-- A node of its own has a name that no bound device has. -/
theorem Inv.name (h : b.Inv pdev) {p : Object} (hc : b.Creates pdev d calls p) {d' : δ}
    (hd' : d' ∈ b.bound) : (pdev d).id ≠ (pdev d').id := by
  intro heq
  have htaken := nameTaken_iff.mpr ⟨_, h.node.mpr ⟨d', hd', heq, rfl⟩⟩
  have hnode := hc.2
  rw [created, if_pos htaken] at hnode
  cases hnode

/-- A probe that ends with a node binds the device. -/
theorem Inv.probe_binds (h : b.Inv pdev) (hp : b.Probes pdev d) (freed : PdrvMem δ) {p : Object}
    (hc : b.Creates pdev d calls p) :
    (b.step pdev (.probe d calls freed)).bound = d :: b.bound ∧
      (b.step pdev (.probe d calls freed)).Inv pdev := by
  obtain ⟨hcreates, hnode⟩ := id hc
  obtain ⟨hdriver, -, -, hd⟩ := id hp
  have hbinds := Platform.probe_binds (w := { b.world with freed := freed }) h.holds.sound
    (h.fresh hd) hcreates hnode
  change ∃ data : DevData, data.devNum = numberOf b.world.mem.pdrv.devNumBase (pdev d).id ∧
    (b.probe pdev d calls freed).1 = 0 ∧ Sound needs (b.probe pdev d calls freed).2.past ∧
    Ledger.live (b.probe pdev d calls freed).2.past =
      [PdrvResource.node (pdev d).id data.devNum, cdev d, buffer d, record d] ++
        Ledger.live b.world.past ∧
    (b.probe pdev d calls freed).2.mem = ((b.world.mem.setData d fun _ => data).setDrvdata d
      (some d)).setPdrv fun m =>
        { m with totalDevices := m.totalDevices + 1, devicePcd := p.1 } at hbinds
  obtain ⟨data, hnum, hret, hsound, hlive, hmem⟩ := hbinds
  have hstep : b.step pdev (.probe d calls freed) =
      { b with world := (b.probe pdev d calls freed).2, bound := d :: b.bound } := by
    simp only [step, if_pos hp]
    rw [if_pos hret]
  have hself : (b.probe pdev d calls freed).2.mem.data d = data := by
    rw [hmem]
    exact Function.update_self ..
  have hother : ∀ d' ∈ b.bound,
      (b.probe pdev d calls freed).2.mem.data d' = b.world.mem.data d' := by
    intro d' hd'
    rw [hmem]
    exact Function.update_of_ne (fun heq : d' = d => hd (heq ▸ hd')) _ _
  have howns : ∀ r, Owns pdev (b.probe pdev d calls freed).2.mem d r ↔
      r ∈ [PdrvResource.node (pdev d).id data.devNum, cdev d, buffer d, record d] := by
    intro r
    simp only [Owns, hself, List.mem_cons, List.not_mem_nil, or_false]
    tauto
  have hdriverOwns : ∀ r, DriverOwns (b.probe pdev d calls freed).2.mem r ↔
      DriverOwns b.world.mem r := by
    intro r
    rw [hmem]
    rfl
  rw [hstep]
  refine ⟨rfl, ⟨⟨hsound, fun r => ?_⟩, ?_, ?_, ?_, ?_, ?_, ?_, ?_⟩⟩
  · rw [held_cons hdriverOwns hother, hlive, List.mem_append, h.holds.mem, howns]
  · simp [hmem, h.total]
  · exact List.nodup_cons.mpr ⟨hd, h.nodup⟩
  · intro hf
    exact absurd hdriver (by rw [hf]; decide)
  · intro d'
    rw [hmem]
    rcases eq_or_ne d' d with rfl | hne
    · simp
    · simp [hne, h.drvdata]
  · intro x hx y hy heq
    rcases List.mem_cons.mp hx with rfl | hx'
    · rcases List.mem_cons.mp hy with rfl | hy'
      · rfl
      · exact absurd heq (h.name hc hy')
    · rcases List.mem_cons.mp hy with rfl | hy'
      · exact absurd heq.symm (h.name hc hx')
      · exact h.names x hx' y hy' heq
  · intro x hx
    have hbase : (b.probe pdev d calls freed).2.mem.pdrv.devNumBase =
        b.world.mem.pdrv.devNumBase := by rw [hmem]; rfl
    rw [hbase]
    rcases List.mem_cons.mp hx with rfl | hx'
    · rw [hself, hnum]
    · rw [hother x hx']
      exact h.numbers x hx'
  · rw [hmem]
    exact h.base

/-! ### The other events -/

/-- Two bound devices do not share a number. -/
theorem Inv.distinct (h : b.Inv pdev) {d d' : δ} (hd : d ∈ b.bound) (hd' : d' ∈ b.bound)
    (heq : (b.world.mem.data d).devNum = (b.world.mem.data d').devNum) : d = d' := by
  rw [h.numbers d hd, h.numbers d' hd'] at heq
  exact h.names d hd d' hd' (numberOf_inj heq)

/-- What a bound device owns, no other does, nor does the driver. -/
theorem Inv.owner (h : b.Inv pdev) {d d' : δ} (hd : d ∈ b.bound) (hd' : d' ∈ b.bound)
    {r : PdrvResource δ} (hr : Owns pdev b.world.mem d r) (hr' : Owns pdev b.world.mem d' r) :
    d = d' := by
  rcases hr with rfl | rfl | rfl | rfl <;> rcases hr' with hr' | hr' | hr' | hr'
  case inr.inr.inr.inr.inr.inr => exact h.names d hd d' hd' (PdrvResource.node.inj hr').1
  all_goals first | cases hr'; rfl | cases hr'

omit [DecidableEq δ] in
theorem not_driverOwns {m : PdrvMem δ} {r : PdrvResource δ} (hr : Owns pdev m d r) :
    ¬ DriverOwns m r := by
  rintro (rfl | rfl | rfl) <;> rcases hr with hr | hr | hr | hr <;> cases hr

/-- The releases of a remove give up what the device owns, and nothing else. -/
theorem gives_up {H : Set (PdrvResource δ)} {past : List (Use (PdrvResource δ))} {m : PdrvMem δ}
    (h : Holds needs H past) (hown : ∀ r, Owns pdev m d r → r ∈ H) :
    Holds needs {r | r ∈ H ∧ ¬ Owns pdev m d r}
      ([.release (record d), .release (buffer d), .release (cdev d), .access (record d),
        .release (node (pdev d).id (m.data d).devNum), .access (record d)] ++ past) := by
  have hread := h.access (hown _ (.inl rfl))
  have hnode := hread.release (hown _ (.inr (.inr (.inr rfl)))) fun x _ => by cases x <;> rfl
  have hcdev := (hnode.access (r := record d) ⟨hown _ (.inl rfl), by simp⟩).release
    (r := cdev d) ⟨hown _ (.inr (.inr (.inl rfl))), by simp⟩ fun x _ => by cases x <;> rfl
  have hbuffer := hcdev.release (r := buffer d) ⟨⟨hown _ (.inr (.inl rfl)), by simp⟩, by simp⟩
    fun x _ => by cases x <;> rfl
  -- the cdev and the buffer are gone before the record
  have hrecord := hbuffer.release (r := record d)
    ⟨⟨⟨hown _ (.inl rfl), by simp⟩, by simp⟩, by simp⟩ fun x hx => by
      cases x with
      | cdev d' =>
        rw [needs, decide_eq_false_iff_not]
        rintro rfl
        exact hx.1.2 rfl
      | buffer d' =>
        rw [needs, decide_eq_false_iff_not]
        rintro rfl
        exact hx.2 rfl
      | _ => rfl
  refine hrecord.congr fun r => ?_
  simp only [Set.mem_sdiff, Set.mem_singleton_iff, Set.mem_ofPred_eq, Owns]
  tauto

/-- What is held without a device is what it does not own. -/
theorem Inv.held_erase (h : b.Inv pdev) (hd : d ∈ b.bound) (r : PdrvResource δ) :
    (r ∈ b.held pdev ∧ ¬ Owns pdev b.world.mem d r) ↔
      (b.driver = true ∧ DriverOwns b.world.mem r) ∨
        ∃ x ∈ b.bound.erase d, Owns pdev b.world.mem x r := by
  constructor
  · rintro ⟨hdrv | ⟨x, hx, hr⟩, hnot⟩
    · exact .inl hdrv
    · refine .inr ⟨x, h.nodup.mem_erase_iff.mpr ⟨?_, hx⟩, hr⟩
      rintro rfl
      exact hnot hr
  · rintro (⟨hdrv, hr⟩ | ⟨x, hx, hr⟩)
    · exact ⟨.inl ⟨hdrv, hr⟩, fun hr' => not_driverOwns hr' hr⟩
    · obtain ⟨hne, hx⟩ := h.nodup.mem_erase_iff.mp hx
      exact ⟨.inr ⟨x, hx, hr⟩, fun hr' => hne (h.owner hx hd hr hr')⟩

/-- A device that is removed is bound no more. -/
theorem Inv.remove (h : b.Inv pdev) (hd : d ∈ b.bound) :
    (b.step pdev (.remove d freed)).Inv pdev := by
  have hown : ∀ r, Owns pdev b.world.mem d r → r ∈ b.held pdev := fun r hr => .inr ⟨d, hd, hr⟩
  have hlive : ∀ r, Owns pdev b.world.mem d r → r ∈ Ledger.live b.world.past := fun r hr =>
    (h.holds.mem r).mpr (hown r hr)
  have hfind : (Ledger.live b.world.past).find? (hasNumber (b.world.mem.data d).devNum) =
      some (PdrvResource.node (pdev d).id (b.world.mem.data d).devNum) := by
    refine find_node (h.node.mpr ⟨d, hd, rfl, rfl⟩) fun id' hid' => ?_
    obtain ⟨d', hd', rfl, hnum⟩ := h.node.mp hid'
    rw [h.distinct hd hd' hnum]
  have hrun := remove_run (w := { b.world with freed := freed }) (d := d)
    (by simp [h.drvdata, hd]) (hlive _ (.inl rfl)) (hlive _ (.inr (.inl rfl))) rfl hfind
  have hstep : b.step pdev (.remove d freed) =
      { b with
        world := (devresRelease d (platformDrvRemove d { b.world with freed := freed }).2).2
        bound := b.bound.erase d } := by
    simp only [step, if_pos hd]
  rw [hstep, hrun]
  have hmem : ∀ x, x ∈ b.bound.erase d ↔ x ≠ d ∧ x ∈ b.bound := fun x => h.nodup.mem_erase_iff
  refine ⟨(gives_up h.holds hown).congr (h.held_erase hd), ?_, h.nodup.erase d, ?_, ?_, ?_, ?_,
    h.base⟩
  · have hpos : 0 < b.bound.length := List.length_pos_of_mem hd
    simp only [PdrvMem.setPdrv, PdrvMem.setDrvdata, h.total, List.length_erase_of_mem hd]
    omega
  · intro hf
    rw [h.driven hf] at hd
    exact absurd hd List.not_mem_nil
  · intro x
    rcases eq_or_ne x d with rfl | hne
    · simp [h.nodup.not_mem_erase]
    · simp [hne, h.drvdata, hmem]
  · exact fun x hx y hy => h.names x ((hmem x).mp hx).2 y ((hmem y).mp hy).2
  · exact fun x hx => h.numbers x ((hmem x).mp hx).2

/-- The driver registers: it holds its class and its region, and nothing is bound yet. -/
theorem Inv.registerDriver (h : b.Inv pdev) (first : Region maxDevices) (cls : Object) :
    (b.step pdev (.registerDriver first cls)).Inv pdev := by
  by_cases hdrv : b.driver = true
  · rw [step, if_pos hdrv]
    exact h
  have hnone : b.bound = [] := h.driven (Bool.eq_false_iff.mpr hdrv)
  have hempty : Holds needs ∅ b.world.past := h.holds.congr fun r => by
    simp [held, hdrv, hnone]
  have hrun : (platformDrvInit ⟨.ok first, .ok cls, .ok ()⟩
      { b.world with mem := b.world.mem.setPdrv fun _ => .zeroed }).2 = { b.world with
        past := [.acquire PdrvResource.driver, .acquire (.class cls.1), .acquire (region first.1)] ++
          b.world.past
        mem := b.world.mem.setPdrv fun _ => ⟨0, first.1, cls.1, 0⟩ } := by
    simp [platformDrvInit, cls.2.2, World.use]
  have hstep : b.step pdev (.registerDriver first cls) = { b with
      world := (platformDrvInit ⟨.ok first, .ok cls, .ok ()⟩
        { b.world with mem := b.world.mem.setPdrv fun _ => .zeroed }).2
      driver := true } := by
    simp only [step, if_neg hdrv]
  rw [hstep, hrun]
  have hregion := hempty.acquire (r := region first.1) (by simp)
  have hclass := hregion.acquire (r := .class cls.1) (by simp)
  have hdriver := hclass.acquire (r := PdrvResource.driver) (by simp)
  refine ⟨hdriver.congr fun r => ?_, ?_, h.nodup, fun hf => ?_, h.drvdata, h.names, ?_, first.2⟩
  · simp [held, DriverOwns, hnone]
  · simp [hnone]
  · cases hf
  · rw [hnone]
    exact fun d hd => absurd hd List.not_mem_nil

/-- The driver goes, once nothing is bound. -/
theorem Inv.unregisterDriver (h : b.Inv pdev) : (b.step pdev .unregisterDriver).Inv pdev := by
  by_cases hdrv : b.driver = true ∧ b.bound = []
  · obtain ⟨hd, hnone⟩ := id hdrv
    have hheld : ∀ r, r ∈ b.held pdev ↔ DriverOwns b.world.mem r := by
      intro r
      simp [held, hd, hnone]
    have hrun : (platformDrvCleanup b.world).2 = { b.world with
        past := [.release (region b.world.mem.pdrv.devNumBase),
          .release (.class b.world.mem.pdrv.classPcd), .release PdrvResource.driver] ++
            b.world.past } := by
      simp [platformDrvCleanup, World.use]
    rw [step, if_pos hdrv, hrun]
    have hdriver := h.holds.release (r := PdrvResource.driver) ((hheld _).mpr (.inl rfl))
      fun x _ => by cases x <;> rfl
    have hclass := hdriver.release (r := .class b.world.mem.pdrv.classPcd)
      ⟨(hheld _).mpr (.inr (.inl rfl)), by simp⟩ fun x hx => by
        rcases (hheld x).mp hx.1 with rfl | rfl | rfl
        · exact absurd rfl hx.2
        · rfl
        · rfl
    have hregion := hclass.release (r := region b.world.mem.pdrv.devNumBase)
      ⟨⟨(hheld _).mpr (.inr (.inr rfl)), by simp⟩, by simp⟩ fun x hx => by
        rcases (hheld x).mp hx.1.1 with rfl | rfl | rfl
        · exact absurd rfl hx.1.2
        · rfl
        · rfl
    refine ⟨hregion.congr fun r => ?_, h.total, h.nodup, fun _ => hnone, h.drvdata, h.names,
      h.numbers, h.base⟩
    constructor
    · rintro ⟨⟨⟨hr, h₁⟩, h₂⟩, h₃⟩
      rcases (hheld r).mp hr with rfl | rfl | rfl
      · exact absurd rfl h₁
      · exact absurd rfl h₂
      · exact absurd rfl h₃
    · rintro (⟨hfalse, -⟩ | ⟨x, hx, -⟩)
      · cases hfalse
      · rw [hnone] at hx
        exact absurd hx List.not_mem_nil
  · rw [step, if_neg hdrv]
    exact h

/-- Every event keeps the invariant. -/
theorem Inv.step (h : b.Inv pdev) (e : BusEvent δ) : (b.step pdev e).Inv pdev := by
  cases e with
  | registerDriver first cls => exact h.registerDriver first cls
  | unregisterDriver => exact h.unregisterDriver
  | addDevice d => exact h.congr h.holds.sound rfl rfl rfl rfl rfl fun _ _ => rfl
  | removeDevice d =>
    by_cases hd : d ∈ b.bound
    · rw [Bus.step, if_pos hd]
      exact h
    · rw [Bus.step, if_neg hd]
      exact h.congr h.holds.sound rfl rfl rfl rfl rfl fun _ _ => rfl
  | probe d calls freed =>
    by_cases hp : b.Probes pdev d
    · by_cases hc : ∃ p, b.Creates pdev d calls p
      · obtain ⟨p, hc⟩ := hc
        exact (h.probe_binds hp freed hc).2
      · exact (h.probe_fails hp calls freed fun p hp' => hc ⟨p, hp'⟩).2.2.1
    · rw [Bus.step, if_neg hp]
      exact h
  | remove d freed =>
    by_cases hd : d ∈ b.bound
    · exact h.remove hd
    · rw [Bus.step, if_neg hd]
      exact h

theorem inv_after (pdev : δ → PlatformDevice) (data : δ → DevData) (events : List (BusEvent δ)) :
    (after pdev data events).Inv pdev := by
  have hrun : ∀ b : Bus δ, b.Inv pdev → (events.foldl (Bus.step pdev) b).Inv pdev := by
    induction events with
    | nil => exact fun b h => h
    | cons e events ih => exact fun b h => ih _ (h.step e)
  exact hrun _ (inv_boot data)

end Bus

/-- What the books say on a bus: the counter, what each device owns, and that nothing was released
    more or less often than it was acquired, but for what is owned now. -/
structure Accounts (pdev : δ → PlatformDevice) (b : Bus δ) : Prop where
  sound : Sound needs b.world.past
  total : b.world.mem.pdrv.totalDevices = b.bound.length
  nodup : b.bound.Nodup
  bound : ∀ d ∈ b.bound, (live b.world.past).count (record d) = 1 ∧
    (live b.world.past).count (buffer d) = 1 ∧ (live b.world.past).count (cdev d) = 1 ∧
    (live b.world.past).count (node (pdev d).id (b.world.mem.data d).devNum) = 1
  unbound : ∀ d ∉ b.bound, record d ∉ live b.world.past ∧ buffer d ∉ live b.world.past ∧
    cdev d ∉ live b.world.past
  nodes : ∀ id devt, node id devt ∈ live b.world.past →
    ∃! d, d ∈ b.bound ∧ id = (pdev d).id ∧ devt = (b.world.mem.data d).devNum
  once : ∀ r, b.world.past.count (.acquire r) =
    b.world.past.count (.release r) + if r ∈ live b.world.past then 1 else 0

/-- ACCOUNTS: after any events on the bus, in any order and with any calls of the probes failing, the
    counter is the number of bound devices, each bound device owns one record with a buffer, one
    cdev and one node, and all else was released as often as it was acquired. -/
theorem probe_accounting (pdev : δ → PlatformDevice) (data : δ → DevData)
    (events : List (BusEvent δ)) : Accounts pdev (Bus.after pdev data events) := by
  have h := Bus.inv_after pdev data events
  have hone : ∀ r, r ∈ live (Bus.after pdev data events).world.past →
      (live (Bus.after pdev data events).world.past).count r = 1 := fun r hr => by
    rw [h.holds.sound.nodup.count, if_pos hr]
  refine ⟨h.holds.sound, h.total, h.nodup, fun d hd => ?_, fun d hd => ?_, fun id devt hr => ?_,
    fun r => ?_⟩
  · have hown : ∀ r, Owns pdev (Bus.after pdev data events).world.mem d r →
        r ∈ live (Bus.after pdev data events).world.past := fun r hr =>
      (h.holds.mem r).mpr (.inr ⟨d, hd, hr⟩)
    exact ⟨hone _ (hown _ (.inl rfl)), hone _ (hown _ (.inr (.inl rfl))),
      hone _ (hown _ (.inr (.inr (.inl rfl)))), hone _ (hown _ (.inr (.inr (.inr rfl))))⟩
  · have hfresh := h.fresh hd
    exact ⟨hfresh.noRecord, hfresh.noBuffer, hfresh.noCdev⟩
  · obtain ⟨d, hd, hid, hdevt⟩ := h.node.mp hr
    refine ⟨d, ⟨hd, hid, hdevt⟩, ?_⟩
    rintro d' ⟨hd', hid', -⟩
    exact h.names d' hd' d hd (hid'.symm.trans hid)
  · rw [h.holds.sound.balance, h.holds.sound.nodup.count]

end Ldd.Platform

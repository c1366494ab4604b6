import LddSandbox.Kernel.DevNum
import LddSandbox.Kernel.Loader
import LddSandbox.Message.Drivers

/-! `chardev_init` and `chardev_exit` of `05-char-dev-auto-node`, with `NUM_DEVICES` any `n`.

        region ▶ class ▶ for each i < n: devices[i] ▶ cdev i ▶ node i

    A call that fails at index `i` undoes its own device, then the devices below `i`, then the class
    and the region. Resources are named by what the code passes to release them: a pointer or a
    device number. -/

namespace Ldd.Load.AutoNode
open Ldd.Schemes Ldd.Kernel Script Ledger Message

/-- What the module holds; a cdev is a part of the device at `p`. -/
inductive AutoResource
  | region (first : ℕ)
  | class (p : ℤ)
  | device (p : ℤ)
  | cdev (p : ℤ) (devno : ℕ)
  | node (devno : ℕ)
  deriving DecidableEq, Repr

/-- A cdev lives in its device and under the region; a node belongs to the class and leads to the
    cdev of its number. -/
@[simp] def AutoResource.needs : AutoResource → AutoResource → Bool
  | .cdev p _, .device q => p = q
  | .cdev _ _, .region _ => true
  | .node _, .class _ | .node _, .region _ => true
  | .node d, .cdev _ d' => d = d'
  | _, _ => false

/-- `struct myauto_dev`; `dev` is the number that `cdev_add` keeps in the cdev. -/
structure AutoDev where
  dev : ℕ
  device : ℤ
  minor : ℕ
  openCount : ℤ
  io : CharDevAutoNode.MyautoDev

/-- `memset(devices[index], 0, sizeof(struct myauto_dev))` -/
@[simp] def AutoDev.zeroed : AutoDev := ⟨0, 0, 0, 0, ⟨fun _ => 0, 0⟩⟩

/-- The globals of the module, and the devices by pointer. -/
structure AutoMem where
  devNum : ℕ
  myautoClass : ℤ
  devices : ℕ → ℤ
  heap : ℤ → AutoDev

@[simp] def AutoMem.setSlot (index : ℕ) (p : ℤ) (m : AutoMem) : AutoMem :=
  { m with devices := Function.update m.devices index p }

@[simp] def AutoMem.setDev (p : ℤ) (f : AutoDev → AutoDev) (m : AutoMem) : AutoMem :=
  { m with heap := Function.update m.heap p (f (m.heap p)) }

/-- The outcomes of the calls of `chardev_init`, by index where a call is made for each device.
    `kmalloc` does not hand out one object twice. -/
structure AutoCalls (n : ℕ) where
  allocChrdevRegion : Except Errno (Region n)
  classCreate : Except Errno Object
  kmalloc : ℕ → Option Object
  cdevAdd : ℕ → Except Errno Unit
  deviceCreate : ℕ → Except Errno Object
  fresh : ∀ i j p, kmalloc i = some p → kmalloc j = some p → i = j

/-- The calls for the device `i` succeed. -/
def AutoCalls.makes {n : ℕ} (calls : AutoCalls n) (i : ℕ) : Bool :=
  (calls.kmalloc i).isSome && (calls.cdevAdd i).toBool && (calls.deviceCreate i).toBool

/-- Every call succeeds. -/
def AutoCalls.succeed {n : ℕ} (calls : AutoCalls n) : Bool :=
  calls.allocChrdevRegion.toBool && calls.classCreate.toBool && (List.range n).all calls.makes

theorem AutoCalls.makes_iff {n i : ℕ} {calls : AutoCalls n} : calls.makes i = true ↔
    ∃ p d, calls.kmalloc i = some p ∧ calls.cdevAdd i = .ok () ∧ calls.deviceCreate i = .ok d := by
  unfold AutoCalls.makes
  cases calls.kmalloc i <;> cases calls.cdevAdd i <;> cases calls.deviceCreate i <;>
    simp [Except.toBool]

abbrev AutoScript := Script AutoResource AutoMem

open AutoResource

/-! ### The driver -/

/-- `devices[index]` -/
def slot (index : ℕ) : AutoScript ℤ := return (← look).devices index

@[simp] theorem slot_bind {α : Type} (i : ℕ) (f : ℤ → AutoScript α)
    (w : World AutoResource AutoMem) : (slot i >>= f) w = f (w.mem.devices i) w := rfl

/-- `alloc_chrdev_region(&dev_num, 0, NUM_DEVICES, DEVICE_NAME)` -/
def allocChrdevRegion {n : ℕ} : Except Errno (Region n) → AutoScript ℤ
  | .ok r => do
    acquire (region r.1)
    update ({ · with devNum := r.1 })
    return 0
  | .error e => return -e.1

@[simp] theorem allocChrdevRegion_ok {n : ℕ} {α : Type} (r : Region n) (k : ℤ → AutoScript α)
    (w : World AutoResource AutoMem) : (allocChrdevRegion (.ok r) >>= k) w =
      k 0 { w.use (.acquire (region r.1)) with mem := { w.mem with devNum := r.1 } } := rfl

@[simp] theorem allocChrdevRegion_error {n : ℕ} {α : Type} (e : Errno) (k : ℤ → AutoScript α)
    (w : World AutoResource AutoMem) :
    (allocChrdevRegion (.error e : Except Errno (Region n)) >>= k) w = k (-e.1) w := rfl

/-- `cdev_del`: gives up the number that `cdev_add` has kept. -/
def cdevDel (p : ℤ) : AutoScript Unit := do
  let cd := (← deref (device p)).heap p
  release (cdev p cd.dev)

/-- `cleanup_device` -/
def cleanupDevice (index : ℕ) : AutoScript Unit := do
  let p ← slot index
  if p ≠ 0 then
    if ((← deref (device p)).heap p).device ≠ 0 then
      let devNum := (← look).devNum
      release (node (mkdev (major devNum) (minor devNum + index)))
    cdevDel p
    release (device p)
    update (.setSlot index 0)

/-- `cleanup_devices` -/
def cleanupDevices (n upToIndex : ℕ) : AutoScript Unit := each cleanupDevice (min upToIndex n)

/-- `cleanup_class_and_devnum` -/
def cleanupClassAndDevnum : AutoScript Unit := do
  let c := (← look).myautoClass
  if c ≠ 0 then
    release (.class c)
    update ({ · with myautoClass := 0 })
  release (region (← look).devNum)

/-- `init_device` -/
def initDevice {n : ℕ} (calls : AutoCalls n) (index : ℕ) : AutoScript ℤ := do
  let devNum := (← look).devNum
  let devno := mkdev (major devNum) (minor devNum + index)
  let p ← allocAt device (calls.kmalloc index)
  update (.setSlot index p)
  let p ← slot index
  if p = 0 then
    return -ENOMEM
  assign (device p) (.setDev p fun _ => .zeroed)
  assign (device p) (.setDev p ({ · with minor := index, io := CharDevAutoNode.initDevice index }))
  assign (device p) (.setDev p ({ · with dev := devno }))
  let ret ← register (cdev p devno) (calls.cdevAdd index)
  if ret < 0 then
    release (device p)
    update (.setSlot index 0)
    return ret
  let d ← create (node devno) (calls.deviceCreate index)
  assign (device p) (.setDev p ({ · with device := d }))
  if IsErr ((← deref (device p)).heap p).device then
    let ret := ptrErr ((← deref (device p)).heap p).device
    assign (device p) (.setDev p ({ · with device := 0 }))
    cdevDel p
    release (device p)
    update (.setSlot index 0)
    return ret
  return 0

/-- One iteration of the loop of `chardev_init`. -/
def initIteration {n : ℕ} (calls : AutoCalls n) (i : ℕ) : AutoScript (Option ℤ) := do
  let ret ← initDevice calls i
  if ret < 0 then
    cleanupDevices n i
    cleanupClassAndDevnum
    return some ret
  return none

/-- `chardev_init` -/
def chardevInit (n : ℕ) (calls : AutoCalls n) : AutoScript ℤ := do
  each (fun i => update (.setSlot i 0)) n
  let ret ← allocChrdevRegion calls.allocChrdevRegion
  if ret < 0 then
    return ret
  let c ← createAt .class calls.classCreate
  update ({ · with myautoClass := c })
  if IsErr (← look).myautoClass then
    release (region (← look).devNum)
    return ptrErr (← look).myautoClass
  let stopped ← upTo (initIteration calls) n
  return stopped.getD 0

/-- `chardev_exit` -/
def chardevExit (n : ℕ) : AutoScript Unit := do
  cleanupDevices n n
  cleanupClassAndDevnum

/-! ### What is held

While devices are made or taken down, those from `lo` below `hi` are complete. -/

/-- `NULL` was not acquired as a device. -/
def NullFree (past : List (Use AutoResource)) : Prop := ∀ p, .acquire (device p) ∈ past → p ≠ 0

/-- A sound past without `NULL` never accessed it. -/
theorem NullFree.unaccessed {past : List (Use AutoResource)} (h : NullFree past)
    (hsound : Sound AutoResource.needs past) : .access (device 0) ∉ past :=
  fun hnull => h 0 (hsound.acquired hnull) rfl

/-- What the devices below `i` hold, the latest first. -/
def heldBelow (devices : ℕ → ℤ) (base : ℕ) : ℕ → List AutoResource
  | 0 => []
  | i + 1 => node (base + i) :: cdev (devices i) (base + i) :: device (devices i) ::
      heldBelow devices base i

/-- What the devices from `lo` below `hi` hold, with the class and the region. -/
def Held (devices : ℕ → ℤ) (base : ℕ) (c : ℤ) (lo hi : ℕ) : Set AutoResource := { r |
  (∃ j, lo ≤ j ∧ j < hi ∧
    (r = node (base + j) ∨ r = cdev (devices j) (base + j) ∨ r = device (devices j))) ∨
  r = .class c ∨ r = region base }

section
variable {n i j : ℕ} {devices devices' : ℕ → ℤ} {base : ℕ} {c : ℤ}

theorem heldBelow_congr (h : ∀ j < i, devices j = devices' j) :
    heldBelow devices base i = heldBelow devices' base i := by
  induction i with
  | zero => rfl
  | succ i ih =>
    rw [heldBelow, heldBelow, h i (Nat.lt_succ_self i), ih fun j hj => h j (Nat.lt_succ_of_lt hj)]

theorem mem_heldBelow {r : AutoResource} : r ∈ heldBelow devices base i ↔ ∃ j < i,
    r = node (base + j) ∨ r = cdev (devices j) (base + j) ∨ r = device (devices j) := by
  induction i with
  | zero => simp [heldBelow]
  | succ i ih =>
    rw [heldBelow, List.mem_cons, List.mem_cons, List.mem_cons, ih]
    constructor
    · rintro (h | h | h | ⟨j, hj, h⟩)
      · exact ⟨i, Nat.lt_succ_self i, .inl h⟩
      · exact ⟨i, Nat.lt_succ_self i, .inr (.inl h)⟩
      · exact ⟨i, Nat.lt_succ_self i, .inr (.inr h)⟩
      · exact ⟨j, Nat.lt_succ_of_lt hj, h⟩
    · rintro ⟨j, hj, h⟩
      rcases Nat.lt_succ_iff_lt_or_eq.mp hj with hj | rfl
      · exact .inr (.inr (.inr ⟨j, hj, h⟩))
      · rcases h with h | h | h
        · exact .inl h
        · exact .inr (.inl h)
        · exact .inr (.inr (.inl h))

/-- The devices below `i` are made, and nothing else is held but the class and the region. -/
structure Made (calls : AutoCalls n) (base : ℕ) (c : ℤ) (i : ℕ)
    (w : World AutoResource AutoMem) : Prop where
  sound : Sound AutoResource.needs w.past
  nonnull : NullFree w.past
  live : live w.past = heldBelow w.mem.devices base i ++ [.class c, region base]
  devNum : w.mem.devNum = base
  cls : w.mem.myautoClass = c
  unused : ∀ j, i ≤ j → j < n → w.mem.devices j = 0
  object : ∀ j < i, ∃ p, calls.kmalloc j = some p ∧ w.mem.devices j = p.1
  nodes : ∀ j < i, (w.mem.heap (w.mem.devices j)).device ≠ 0
  made : ∀ j < i, (w.mem.heap (w.mem.devices j)).dev = base + j ∧
    (w.mem.heap (w.mem.devices j)).minor = j ∧
    (w.mem.heap (w.mem.devices j)).io = CharDevAutoNode.initDevice j
  unopened : ∀ j < i, (w.mem.heap (w.mem.devices j)).openCount = 0

variable {calls : AutoCalls n} {w w' : World AutoResource AutoMem}

/-- What was done and undone above the devices that are made does not matter to them. -/
theorem Made.frame (h : Made calls base c i w) (hsound : Sound AutoResource.needs w'.past)
    (hnull : NullFree w'.past) (hlive : Ledger.live w'.past = Ledger.live w.past)
    (hnum : w'.mem.devNum = w.mem.devNum) (hcls : w'.mem.myautoClass = w.mem.myautoClass)
    (hslot : ∀ j < n, j ≠ i → w'.mem.devices j = w.mem.devices j) (hi : w'.mem.devices i = 0)
    (hin : i < n)
    (hheap : ∀ j < i, w'.mem.heap (w.mem.devices j) = w.mem.heap (w.mem.devices j)) :
    Made calls base c i w' := by
  have hbelow : ∀ j < i, w'.mem.devices j = w.mem.devices j := fun j hj =>
    hslot j (Nat.lt_trans hj hin) (Nat.ne_of_lt hj)
  refine ⟨hsound, hnull, ?_, hnum.trans h.devNum, hcls.trans h.cls, ?_, ?_, ?_, ?_, ?_⟩
  · rw [hlive, h.live, heldBelow_congr hbelow]
  · intro j hj hjn
    rcases Nat.eq_or_lt_of_le hj with rfl | hlt
    · exact hi
    · rw [hslot j hjn (Nat.ne_of_gt hlt), h.unused j hj hjn]
  · intro j hj
    rw [hbelow j hj]
    exact h.object j hj
  · intro j hj
    rw [hbelow j hj, hheap j hj]
    exact h.nodes j hj
  · intro j hj
    rw [hbelow j hj, hheap j hj]
    exact h.made j hj
  · intro j hj
    rw [hbelow j hj, hheap j hj]
    exact h.unopened j hj

/-- No two devices are one object. -/
theorem Made.distinct (h : Made calls base c i w) {j k : ℕ} (hj : j < i) (hk : k < i)
    (heq : w.mem.devices j = w.mem.devices k) : j = k := by
  obtain ⟨p, hp, hpj⟩ := h.object j hj
  obtain ⟨q, hq, hqk⟩ := h.object k hk
  have hpq : p = q := Subtype.ext (by rw [← hpj, ← hqk, heq])
  subst hpq
  exact calls.fresh j k p hp hq

/-- A new object is no device below it. -/
theorem Made.other (h : Made calls base c i w) {p : Object} (hp : calls.kmalloc i = some p)
    (hj : j < i) : w.mem.devices j ≠ p.1 := by
  intro heq
  obtain ⟨q, hq, hqj⟩ := h.object j hj
  have hqp : q = p := Subtype.ext (by rw [← hqj, heq])
  subst hqp
  exact absurd (calls.fresh j i q hq hp) (Nat.ne_of_lt hj)

/-- A new object is not held yet, nor is the number of the next device. -/
theorem Made.unheld (h : Made calls base c i w) {p : Object} (hp : calls.kmalloc i = some p) :
    device p.1 ∉ Ledger.live w.past ∧ (∀ d, cdev p.1 d ∉ Ledger.live w.past) ∧
      node (base + i) ∉ Ledger.live w.past := by
  have hold : ∀ j < i, w.mem.devices j ≠ p.1 := fun j hj => h.other hp hj
  rw [h.live]
  refine ⟨?_, fun d => ?_, ?_⟩
  · simp only [List.mem_append, mem_heldBelow]
    rintro (⟨j, hj, heq | heq | heq⟩ | heq)
    · cases heq
    · cases heq
    · exact hold j hj (AutoResource.device.inj heq).symm
    · simp at heq
  · simp only [List.mem_append, mem_heldBelow]
    rintro (⟨j, hj, heq | heq | heq⟩ | heq)
    · cases heq
    · exact hold j hj (AutoResource.cdev.inj heq).1.symm
    · cases heq
    · simp at heq
  · simp only [List.mem_append, mem_heldBelow]
    rintro (⟨j, hj, heq | heq | heq⟩ | heq)
    · have := AutoResource.node.inj heq
      omega
    · cases heq
    · cases heq
    · simp at heq

/-- Nothing that is held depends on a new object, or on the cdev that is added in it. -/
theorem Made.unneeded (h : Made calls base c i w) {p : Object} (hp : calls.kmalloc i = some p) :
    (∀ x ∈ Ledger.live w.past, x.needs (device p.1) = false) ∧
      ∀ x ∈ Ledger.live w.past, x.needs (cdev p.1 (base + i)) = false := by
  obtain ⟨-, hcdev, hnode⟩ := h.unheld hp
  constructor
  · intro x hx
    cases x with
    | cdev q d =>
      rw [AutoResource.needs, decide_eq_false_iff_not]
      rintro rfl
      exact hcdev d hx
    | _ => rfl
  · intro x hx
    cases x with
    | node d =>
      rw [AutoResource.needs, decide_eq_false_iff_not]
      rintro rfl
      exact hnode hx
    | _ => rfl

/-! ### `init_device` -/

variable {r : Region n}

theorem Made.devno (h : Made calls r.1 c i w) (hi : i < n) :
    mkdev (major w.mem.devNum) (minor w.mem.devNum + i) = r.1 + i := by
  rw [h.devNum, r.mkdev hi]

/-- Every call succeeds: the next device is made. -/
theorem initDevice_makes (h : Made calls r.1 c i w) (hi : i < n) {p d : Object}
    (hp : calls.kmalloc i = some p) (ha : calls.cdevAdd i = .ok ())
    (hd : calls.deviceCreate i = .ok d) :
    (initDevice calls i w).1 = 0 ∧ Made calls r.1 c (i + 1) (initDevice calls i w).2 := by
  obtain ⟨hdev, hcdev, hnode⟩ := h.unheld hp
  have hrun : initDevice calls i w = (0, { w with
      past := [.access (device p.1), .access (device p.1), .acquire (node (r.1 + i)),
        .acquire (cdev p.1 (r.1 + i)), .access (device p.1), .access (device p.1),
        .access (device p.1), .acquire (device p.1)] ++ w.past
      mem := (w.mem.setSlot i p.1).setDev p.1 fun _ =>
        ⟨r.1 + i, d.1, i, 0, CharDevAutoNode.initDevice i⟩ }) := by
    simp [initDevice, hp, ha, hd, h.devno hi, p.2.1, d.2.2, World.use]
  have hbelow : ∀ j < i, Function.update w.mem.devices i p.1 j = w.mem.devices j := fun j hj =>
    Function.update_of_ne (Nat.ne_of_lt hj) _ _
  have hheap : ∀ j < i, ∀ x, Function.update w.mem.heap p.1 x
      (Function.update w.mem.devices i p.1 j) = w.mem.heap (w.mem.devices j) := fun j hj x => by
    rw [hbelow j hj, Function.update_of_ne (h.other hp hj)]
  rw [hrun]
  refine ⟨rfl, ⟨?_, ?_, ?_, h.devNum, h.cls, ?_, ?_, ?_, ?_, ?_⟩⟩
  · simp [h.sound, hdev, hcdev, hnode]
  · simpa [NullFree, p.2.1] using h.nonnull
  · simp [heldBelow, h.live, heldBelow_congr hbelow]
  · intro j hj hjn
    have hji : j ≠ i := by omega
    simp [Function.update_of_ne hji, h.unused j (by omega) hjn]
  · intro j hj
    rcases Nat.lt_succ_iff_lt_or_eq.mp hj with hj | rfl
    · simpa [hbelow j hj] using h.object j hj
    · exact ⟨p, hp, by simp⟩
  · intro j hj
    rcases Nat.lt_succ_iff_lt_or_eq.mp hj with hj | rfl
    · simpa [hheap j hj] using h.nodes j hj
    · simpa using d.2.1
  · intro j hj
    rcases Nat.lt_succ_iff_lt_or_eq.mp hj with hj | rfl
    · simpa [hheap j hj] using h.made j hj
    · simp
  · intro j hj
    rcases Nat.lt_succ_iff_lt_or_eq.mp hj with hj | rfl
    · simpa [hheap j hj] using h.unopened j hj
    · simp

/-- A call fails: the device is undone, one case for each call in order. -/
theorem initDevice_undoes (h : Made calls r.1 c i w) (hi : i < n)
    (hf : ¬ ∃ p d, calls.kmalloc i = some p ∧ calls.cdevAdd i = .ok () ∧
      calls.deviceCreate i = .ok d) :
    (∃ e : Errno, (initDevice calls i w).1 = -e.1) ∧
      Made calls r.1 c i (initDevice calls i w).2 := by
  have hslot : ∀ j < n, j ≠ i → ∀ x, Function.update w.mem.devices i x j = w.mem.devices j :=
    fun j _ hji _ => Function.update_of_ne hji _ _
  rcases hp : calls.kmalloc i with _ | p
  · have hrun : initDevice calls i w = (-ENOMEM, { w with mem := w.mem.setSlot i 0 }) := by
      simp [initDevice, hp]
    rw [hrun]
    refine ⟨⟨⟨ENOMEM, by decide⟩, rfl⟩, ?_⟩
    exact h.frame h.sound h.nonnull rfl rfl rfl (fun j hj hji => hslot j hj hji 0) (by simp) hi
      fun _ _ => rfl
  obtain ⟨hdev, hcdev, hnode⟩ := h.unheld hp
  have hheap : ∀ j < i, ∀ x, Function.update w.mem.heap p.1 x (w.mem.devices j) =
      w.mem.heap (w.mem.devices j) := fun j hj _ => Function.update_of_ne (h.other hp hj) _ _
  have hfree := h.unneeded hp
  rcases ha : calls.cdevAdd i with e | u
  · have hrun : initDevice calls i w = (-e.1, { w with
        past := [.release (device p.1), .access (device p.1), .access (device p.1),
          .access (device p.1), .acquire (device p.1)] ++ w.past
        mem := (w.mem.setSlot i 0).setDev p.1 fun _ =>
          ⟨r.1 + i, 0, i, 0, CharDevAutoNode.initDevice i⟩ }) := by
      simp [initDevice, hp, ha, h.devno hi, p.2.1, e.2.1, World.use]
    rw [hrun]
    refine ⟨⟨e, rfl⟩, h.frame ?_ ?_ (by simp) rfl rfl ?_ (by simp) hi ?_⟩
    · simpa [h.sound, hdev] using hfree.1
    · simpa [NullFree, p.2.1] using h.nonnull
    · exact fun j hj hji => hslot j hj hji 0
    · exact fun j hj => hheap j hj _
  rcases hd : calls.deviceCreate i with e | d
  · have hrun : initDevice calls i w = (-e.1, { w with
        past := [.release (device p.1), .release (cdev p.1 (r.1 + i)), .access (device p.1),
          .access (device p.1), .access (device p.1), .access (device p.1), .access (device p.1),
          .acquire (cdev p.1 (r.1 + i)), .access (device p.1), .access (device p.1),
          .access (device p.1), .acquire (device p.1)] ++ w.past
        mem := (w.mem.setSlot i 0).setDev p.1 fun _ =>
          ⟨r.1 + i, 0, i, 0, CharDevAutoNode.initDevice i⟩ }) := by
      simp [initDevice, cdevDel, hp, ha, hd, h.devno hi, p.2.1, World.use]
    rw [hrun]
    refine ⟨⟨e, rfl⟩, h.frame ?_ ?_ (by simp) rfl rfl ?_ (by simp) hi ?_⟩
    · simpa [h.sound, hdev, hcdev] using hfree
    · simpa [NullFree, p.2.1] using h.nonnull
    · exact fun j hj hji => hslot j hj hji 0
    · exact fun j hj => hheap j hj _
  exact absurd ⟨p, d, hp, ha, hd⟩ hf

/-! ### Cleanup -/

/-- The devices `k`, .., `i - 1` of `devices` are left, and the slots below `k` are empty. -/
structure Left (devices : ℕ → ℤ) (base : ℕ) (c : ℤ) (i k : ℕ) (w : World AutoResource AutoMem) :
    Prop where
  holds : Holds AutoResource.needs (Held devices base c k i) w.past
  nonnull : NullFree w.past
  devNum : w.mem.devNum = base
  cls : w.mem.myautoClass = c
  gone : ∀ j < k, w.mem.devices j = 0
  kept : ∀ j, k ≤ j → w.mem.devices j = devices j
  object : ∀ j < i, devices j ≠ 0
  distinct : ∀ j < i, ∀ k < i, devices j = devices k → j = k
  nodes : ∀ j < i, (w.mem.heap (devices j)).device ≠ 0 ∧ (w.mem.heap (devices j)).dev = base + j

theorem Made.left (h : Made calls base c i w) : Left w.mem.devices base c i 0 w where
  holds := by
    refine ⟨h.sound, fun r => ?_⟩
    simp [h.live, mem_heldBelow, Held]
  nonnull := h.nonnull
  devNum := h.devNum
  cls := h.cls
  gone _ hj := absurd hj (Nat.not_lt_zero _)
  kept _ _ := rfl
  object j hj := by
    obtain ⟨p, -, hp⟩ := h.object j hj
    rw [hp]
    exact p.2.1
  distinct _ hj _ hk heq := h.distinct hj hk heq
  nodes j hj := ⟨h.nodes j hj, (h.made j hj).1⟩

/-- The next device is gone from what is held. -/
theorem held_succ (hdistinct : ∀ k < i, devices k = devices j → k = j) (r : AutoResource) :
    r ∈ ((Held devices base c j i \ {node (base + j)}) \ {cdev (devices j) (base + j)}) \
      {device (devices j)} ↔ r ∈ Held devices base c (j + 1) i := by
  simp only [Held, Set.mem_sdiff, Set.mem_ofPred_eq, Set.mem_singleton_iff]
  constructor
  · rintro ⟨⟨⟨⟨l, hl, hli, hr⟩ | hr, hnode⟩, hcdev⟩, hdev⟩
    · refine .inl ⟨l, ?_, hli, hr⟩
      rcases Nat.eq_or_lt_of_le hl with rfl | hlt
      · rcases hr with hr | hr | hr
        · exact absurd hr hnode
        · exact absurd hr hcdev
        · exact absurd hr hdev
      · exact hlt
    · exact .inr hr
  · rintro (⟨l, hl, hli, hr⟩ | hr)
    · have hlj : l ≠ j := Nat.ne_of_gt hl
      have hother : devices l ≠ devices j := fun heq => hlj (hdistinct l hli heq)
      refine ⟨⟨⟨.inl ⟨l, Nat.le_of_lt hl, hli, hr⟩, ?_⟩, ?_⟩, ?_⟩ <;>
        rcases hr with rfl | rfl | rfl <;> simp [hlj, hother]
    · refine ⟨⟨⟨.inr hr, ?_⟩, ?_⟩, ?_⟩ <;> rcases hr with rfl | rfl <;> simp

/-- `cleanup_device` takes down the next device. -/
theorem cleanupDevice_takes {k : ℕ} (h : Left devices r.1 c i k w) (hk : k < i) (hi : i ≤ n) :
    Left devices r.1 c i (k + 1) (cleanupDevice k w).2 := by
  have hslot : w.mem.devices k = devices k := h.kept k (Nat.le_refl k)
  have hin : ∀ x, x = node (r.1 + k) ∨ x = cdev (devices k) (r.1 + k) ∨ x = device (devices k) →
      x ∈ Held devices r.1 c k i := fun x hx => .inl ⟨k, Nat.le_refl k, hk, hx⟩
  have hdev := hin _ (.inr (.inr rfl))
  have hlive : device (devices k) ∈ Ledger.live w.past := (h.holds.mem _).mpr hdev
  have hdevno : mkdev (major w.mem.devNum) (minor w.mem.devNum + k) = r.1 + k := by
    rw [h.devNum, r.mkdev (Nat.lt_of_lt_of_le hk hi)]
  have hrun : cleanupDevice k w = ((), { w with
      past := [.release (device (devices k)), .release (cdev (devices k) (r.1 + k)),
        .access (device (devices k)), .release (node (r.1 + k)), .access (device (devices k))] ++
          w.past
      mem := w.mem.setSlot k 0 }) := by
    simp [cleanupDevice, cdevDel, hslot, h.object k hk, hlive, (h.nodes k hk).1, (h.nodes k hk).2,
      hdevno, World.use]
  have hread := h.holds.access hdev
  have hdestroy := hread.release (r := node (r.1 + k)) (hin _ (.inl rfl)) (by
    rintro (_ | _ | _ | _ | _) _ <;> rfl)
  have hcd := hdestroy.access (r := device (devices k)) ⟨hdev, by simp⟩
  have hdel := hcd.release (r := cdev (devices k) (r.1 + k)) ⟨hin _ (.inr (.inl rfl)), by simp⟩ (by
    rintro (_ | _ | _ | _ | d) ⟨-, hx⟩
    case node => simpa using hx
    all_goals rfl)
  -- no other device is this object, so no cdev that is left lives in it
  have hfree := hdel.release (r := device (devices k)) ⟨⟨hdev, by simp⟩, by simp⟩ (by
    rintro (_ | _ | _ | ⟨q, d⟩ | _) ⟨⟨hx, -⟩, hne⟩
    case cdev =>
      rcases hx with ⟨j, hj, hji, hx | hx | hx⟩ | hx | hx
      · cases hx
      · obtain ⟨rfl, rfl⟩ := AutoResource.cdev.inj hx
        rw [AutoResource.needs, decide_eq_false_iff_not]
        intro heq
        have hjk := h.distinct j hji k hk heq
        subst hjk
        exact hne rfl
      · cases hx
      · cases hx
      · cases hx
    all_goals rfl)
  have hholds := hfree.congr (held_succ fun j hj heq => h.distinct j hj k hk heq)
  rw [hrun]
  refine ⟨hholds, ?_, h.devNum, h.cls, ?_, ?_, h.object, h.distinct, h.nodes⟩
  · simpa [NullFree] using h.nonnull
  · intro j hj
    rcases Nat.lt_succ_iff_lt_or_eq.mp hj with hj | rfl
    · simp [Function.update_of_ne (Nat.ne_of_lt hj), h.gone j hj]
    · simp
  · intro j hj
    simp [Function.update_of_ne (Nat.ne_of_gt hj), h.kept j (Nat.le_of_lt hj)]

/-- `cleanup_devices(i)` takes down all of the `i` devices. -/
theorem cleanupDevices_takes (h : Left devices r.1 c i 0 w) (hi : i ≤ n) :
    Left devices r.1 c i i (cleanupDevices n i w).2 := by
  rw [cleanupDevices, Nat.min_eq_left hi]
  exact each_ends h fun k hk w hw => cleanupDevice_takes hw hk hi

/-- Nothing is held, the slots are empty, and all that was acquired was released. -/
structure NothingLeft (n : ℕ) (w : World AutoResource AutoMem) : Prop where
  sound : Sound AutoResource.needs w.past
  nonnull : .access (device 0) ∉ w.past
  live : live w.past = []
  slots : ∀ i < n, w.mem.devices i = 0
  balance : ∀ r, w.past.count (.release r) = w.past.count (.acquire r)

theorem NothingLeft.of_sound (hsound : Sound AutoResource.needs w.past) (hnull : NullFree w.past)
    (hlive : Ledger.live w.past = []) (hslots : ∀ i < n, w.mem.devices i = 0) : NothingLeft n w :=
  ⟨hsound, hnull.unaccessed hsound, hlive, hslots, fun r => hsound.released hlive r⟩

/-- No device is left: the class and the region go. -/
theorem cleanupClassAndDevnum_ends (h : Left devices base c i i w) (hc : c ≠ 0)
    (hslots : ∀ j < n, w.mem.devices j = 0) : NothingLeft n (cleanupClassAndDevnum w).2 := by
  have hrun : cleanupClassAndDevnum w = ((), { w with
      past := [.release (region base), .release (.class c)] ++ w.past
      mem := { w.mem with myautoClass := 0 } }) := by
    simp [cleanupClassAndDevnum, h.cls, h.devNum, hc, World.use]
  have hleft : ∀ x ∈ Held devices base c i i, x = .class c ∨ x = region base := by
    rintro x (⟨j, hj, hji, -⟩ | hx)
    · omega
    · exact hx
  have hclass := h.holds.release (r := .class c) (.inr (.inl rfl)) fun x hx => by
    rcases hleft x hx with rfl | rfl <;> rfl
  have hregion := hclass.release (r := region base) ⟨.inr (.inr rfl), by simp⟩ fun x hx => by
    rcases hleft x hx.1 with rfl | rfl <;> rfl
  rw [hrun]
  refine .of_sound hregion.sound ?_ (Holds.live_nil (hregion.congr fun x => ?_)) hslots
  · simpa [NullFree] using h.nonnull
  constructor
  · rintro ⟨⟨hx, hcls⟩, hreg⟩
    rcases hleft x hx with hx | hx
    · exact absurd hx hcls
    · exact absurd hx hreg
  · exact False.elim

/-- The two cleanups after the devices below `i` were made. -/
theorem cleanup_ends (h : Made calls r.1 c i w) (hi : i ≤ n) (hc : c ≠ 0) :
    NothingLeft n (cleanupClassAndDevnum (cleanupDevices n i w).2).2 := by
  have hleft := cleanupDevices_takes h.left hi
  refine cleanupClassAndDevnum_ends hleft hc fun j hj => ?_
  rcases Nat.lt_or_ge j i with hji | hij
  · exact hleft.gone j hji
  · rw [hleft.kept j hij]
    exact h.unused j hij hj

/-! ### `chardev_init` and `chardev_exit` -/

/-- The devices below `i` are complete: an iteration completes the next exactly if its calls
    succeed, and else leaves nothing. -/
theorem initIteration_ends (h : Made calls r.1 c i w) (hi : i < n) (hc : c ≠ 0) :
    Ends (fun w => Made calls r.1 c (i + 1) w ∧ calls.makes i = true)
      (fun ret w => ((∃ e : Errno, ret = -e.1) ∧ NothingLeft n w) ∧ calls.makes i = false)
      (initIteration calls i w) := by
  have hrun : initIteration calls i w =
      if (initDevice calls i w).1 < 0 then
        (some (initDevice calls i w).1,
          (cleanupClassAndDevnum (cleanupDevices n i (initDevice calls i w).2).2).2)
      else (none, (initDevice calls i w).2) := by
    simp only [initIteration, bind_run, ite_run]
    rfl
  cases hm : calls.makes i with
  | true =>
    obtain ⟨p, d, hp, ha, hd⟩ := AutoCalls.makes_iff.mp hm
    obtain ⟨hret, hmade⟩ := initDevice_makes h hi hp ha hd
    rw [hrun, hret, if_neg (by decide)]
    exact ⟨hmade, rfl⟩
  | false =>
    obtain ⟨⟨e, hret⟩, hmade⟩ := initDevice_undoes h hi fun hok => by
      rw [AutoCalls.makes_iff.mpr hok] at hm
      cases hm
    rw [hrun, hret, if_pos e.neg]
    exact ⟨⟨⟨e, rfl⟩, cleanup_ends hmade (Nat.le_of_lt hi) hc⟩, rfl⟩

/-- The loop of `chardev_init`, from no device on. -/
theorem initLoop_ends (h : Made calls r.1 c 0 w) (hc : c ≠ 0) :
    Ends (fun w => Made calls r.1 c n w ∧ (List.range n).all calls.makes = true)
      (fun ret w => ((∃ e : Errno, ret = -e.1) ∧ NothingLeft n w) ∧
        (List.range n).all calls.makes = false)
      (upTo (initIteration calls) n w) := by
  have hloop : Ends (fun w => Made calls r.1 c n w ∧ ∀ j < n, calls.makes j = true)
      (fun ret w => ((∃ e : Errno, ret = -e.1) ∧ NothingLeft n w) ∧ ∃ j < n, calls.makes j = false)
      (upTo (initIteration calls) n w) := by
    refine upTo_ends (I := fun i w => Made calls r.1 c i w ∧ ∀ j < i, calls.makes j = true)
      ⟨h, fun _ hj => absurd hj (Nat.not_lt_zero _)⟩ ?_
    rintro i hi w' ⟨hmade, hall⟩
    have hit := initIteration_ends hmade hi hc
    generalize initIteration calls i w' = x at hit ⊢
    rcases x with ⟨_ | ret, w''⟩
    · obtain ⟨hmade', hmakes⟩ := hit
      refine ⟨hmade', fun j hj => ?_⟩
      rcases Nat.lt_succ_iff_lt_or_eq.mp hj with hj | rfl
      · exact hall j hj
      · exact hmakes
    · exact ⟨hit.1, i, hi, hit.2⟩
  generalize upTo (initIteration calls) n w = x at hloop ⊢
  rcases x with ⟨_ | ret, w'⟩
  · obtain ⟨hmade, hall⟩ := hloop
    exact ⟨hmade, by simpa using hall⟩
  · obtain ⟨hleft, j, hj, hfails⟩ := hloop
    exact ⟨hleft, List.all_eq_false.mpr ⟨j, List.mem_range.mpr hj, by simp [hfails]⟩⟩

/-- The `n` devices are live, each with its memory, its cdev and its node at the minor of its index,
    and nothing else is held but the class and the region. -/
structure AllLive (n : ℕ) (w : World AutoResource AutoMem) : Prop where
  sound : Sound AutoResource.needs w.past
  nonnull : .access (device 0) ∉ w.past
  live : live w.past = heldBelow w.mem.devices w.mem.devNum n ++
    [.class w.mem.myautoClass, region w.mem.devNum]
  object : ∀ i < n, w.mem.devices i ≠ 0
  distinct : ∀ i < n, ∀ j < n, w.mem.devices i = w.mem.devices j → i = j
  number : ∀ i < n, w.mem.devNum + i = mkdev (major w.mem.devNum) (minor w.mem.devNum + i) ∧
    minor (w.mem.devNum + i) = minor w.mem.devNum + i
  state : ∀ i < n, (w.mem.heap (w.mem.devices i)).minor = i ∧
    (w.mem.heap (w.mem.devices i)).io = CharDevAutoNode.initDevice i

/-- All devices are made, by some calls, in some region and some class. -/
def Loaded (n : ℕ) (w : World AutoResource AutoMem) : Prop :=
  ∃ (calls : AutoCalls n) (r : Region n) (c : ℤ), c ≠ 0 ∧ Made calls r.1 c n w

theorem Loaded.allLive (h : Loaded n w) : AllLive n w := by
  obtain ⟨calls, r, c, -, hm⟩ := h
  refine ⟨hm.sound, hm.nonnull.unaccessed hm.sound, ?_, ?_, ?_, ?_, ?_⟩
  · rw [hm.live, hm.devNum, hm.cls]
  · intro i hi
    obtain ⟨p, -, hp⟩ := hm.object i hi
    rw [hp]
    exact p.2.1
  · exact fun i hi j hj heq => hm.distinct hi hj heq
  · intro i hi
    rw [hm.devNum]
    exact ⟨(r.mkdev hi).symm, r.minor hi⟩
  · exact fun i hi => (hm.made i hi).2

/-- The first loop of `chardev_init` empties the slots. -/
theorem clear_slots (n : ℕ) (w : World AutoResource AutoMem) :
    (each (fun i => update (.setSlot i 0)) n w).2.past = w.past ∧
      ∀ j < n, (each (fun i => update (.setSlot i 0)) n w).2.mem.devices j = 0 := by
  refine each_ends (I := fun i (w' : World AutoResource AutoMem) =>
    w'.past = w.past ∧ ∀ j < i, w'.mem.devices j = 0) ?_ ?_
  · exact ⟨rfl, fun j hj => absurd hj (Nat.not_lt_zero j)⟩
  rintro i - w' ⟨hpast, hslots⟩
  refine ⟨hpast, fun j hj => ?_⟩
  rcases Nat.lt_succ_iff_lt_or_eq.mp hj with hj | rfl
  · simp [Function.update_of_ne (Nat.ne_of_lt hj), hslots j hj]
  · simp

/-- `chardev_init` on a module that holds nothing. -/
theorem chardevInit_ends (calls : AutoCalls n) (hidle : Ledger.live w.past = [])
    (hsound : Sound AutoResource.needs w.past) (hnull : NullFree w.past) :
    ((chardevInit n calls w).1 = 0 ∧ calls.succeed = true ∧ Loaded n (chardevInit n calls w).2) ∨
      ((∃ e : Errno, (chardevInit n calls w).1 = -e.1) ∧ calls.succeed = false ∧
        NothingLeft n (chardevInit n calls w).2) := by
  obtain ⟨hpast, hslots⟩ := clear_slots n w
  set w₀ := (each (fun i => update (.setSlot i 0)) n w).2
  rw [← hpast] at hidle hsound hnull
  rcases hreg : calls.allocChrdevRegion with e | r
  · have hrun : chardevInit n calls w = (-e.1, w₀) := by
      rw [chardevInit, bind_run, hreg]
      simp [e.2.1, w₀]
    have hfails : calls.succeed = false := by simp [AutoCalls.succeed, hreg, Except.toBool]
    rw [hrun]
    exact .inr ⟨⟨e, rfl⟩, hfails, .of_sound hsound hnull hidle hslots⟩
  rcases hcls : calls.classCreate with e | c
  · have hrun : chardevInit n calls w = (-e.1, { w₀ with
        past := [.release (region r.1), .acquire (region r.1)] ++ w₀.past
        mem := { w₀.mem with devNum := r.1, myautoClass := -e.1 } }) := by
      rw [chardevInit, bind_run, hreg, hcls]
      simp [World.use, w₀]
    have hfails : calls.succeed = false := by simp [AutoCalls.succeed, hcls, Except.toBool]
    rw [hrun]
    refine .inr ⟨⟨e, rfl⟩, hfails, .of_sound ?_ ?_ ?_ hslots⟩
    · simp [hsound, hidle]
    · simpa [NullFree] using hnull
    · simp [hidle]
  set w₁ : World AutoResource AutoMem := { w₀ with
    past := .acquire (.class c.1) :: .acquire (region r.1) :: w₀.past
    mem := { w₀.mem with devNum := r.1, myautoClass := c.1 } }
  have hmade : Made calls r.1 c.1 0 w₁ := by
    refine ⟨?_, ?_, ?_, rfl, rfl, fun j _ hj => hslots j hj, ?_, ?_, ?_, ?_⟩
    · simp [w₁, hidle, hsound]
    · simpa [w₁, NullFree] using hnull
    · simp [w₁, heldBelow, hidle]
    all_goals exact fun j hj => absurd hj (Nat.not_lt_zero j)
  have hrun : chardevInit n calls w =
      ((upTo (initIteration calls) n w₁).1.getD 0, (upTo (initIteration calls) n w₁).2) := by
    rw [chardevInit, bind_run, hreg, hcls]
    simp [c.2.2, World.use, w₀, w₁]
  have hsucceed : calls.succeed = (List.range n).all calls.makes := by
    simp [AutoCalls.succeed, hreg, hcls, Except.toBool]
  have hloop := initLoop_ends hmade c.2.1
  rw [hrun, hsucceed]
  generalize upTo (initIteration calls) n w₁ = x at hloop
  rcases x with ⟨_ | ret, w'⟩
  · exact .inl ⟨rfl, hloop.2, ⟨calls, r, c.1, c.2.1, hloop.1⟩⟩
  · exact .inr ⟨hloop.1.1, hloop.2, hloop.1.2⟩

/-- `chardev_exit` on a module whose devices are all made; `freed` is what freed memory holds. -/
theorem chardevExit_ends (h : Loaded n w) (freed : AutoMem) :
    NothingLeft n (chardevExit n { w with freed := freed }).2 := by
  obtain ⟨calls, r, c, hc, hm⟩ := h
  have hm' : Made calls r.1 c n { w with freed := freed } :=
    ⟨hm.sound, hm.nonnull, hm.live, hm.devNum, hm.cls, hm.unused, hm.object, hm.nodes, hm.made,
      hm.unopened⟩
  exact cleanup_ends hm' (Nat.le_refl n) hc

/-- ALL OR NOTHING: for any number of devices and whichever calls fail, `chardev_init` either
    returns 0 with exactly the `n` devices live, and then `chardev_exit` releases everything, or it
    returns a negative errno and nothing is left; it returns 0 exactly if no call fails. Every use
    of a resource was allowed. -/
theorem all_or_nothing (n : ℕ) (calls : AutoCalls n) (w : World AutoResource AutoMem)
    (hidle : Ledger.live w.past = []) (hsound : Sound AutoResource.needs w.past)
    (hnull : NullFree w.past) :
    let r := chardevInit n calls w
    (r.1 = 0 ∧ calls.succeed = true ∧ AllLive n r.2 ∧
      ∀ freed, NothingLeft n (chardevExit n { r.2 with freed := freed }).2) ∨
      ((∃ e : Errno, r.1 = -e.1) ∧ calls.succeed = false ∧ NothingLeft n r.2) := by
  rcases chardevInit_ends calls hidle hsound hnull with ⟨hret, hsucceed, hloaded⟩ | hfailed
  · exact .inl ⟨hret, hsucceed, hloaded.allLive, chardevExit_ends hloaded⟩
  · exact .inr hfailed

end

/-- Two devices, and what `device_create` answers for each. -/
def twoDevices (deviceCreate : ℕ → Except Errno Object) : AutoCalls 2 where
  allocChrdevRegion := .ok ⟨240 * 2 ^ 20, by decide⟩
  classCreate := .ok someObject
  kmalloc i := some ⟨8192 + i, by unfold IsErr; omega⟩
  cdevAdd _ := .ok ()
  deviceCreate := deviceCreate
  fresh i j p hi hj := by
    have hij := congrArg Subtype.val (Option.some.inj (hi.trans hj.symm))
    simpa using hij

def bothMade : AutoCalls 2 := twoDevices fun _ => .ok someObject

/-- `device_create` finds no memory for the second. -/
def secondNodeFails : AutoCalls 2 :=
  twoDevices fun i => if i = 0 then .ok someObject else .error enomem

/-- The globals before a load. -/
def unloaded : World AutoResource AutoMem :=
  let mem : AutoMem := ⟨0, 0, fun _ => 0, fun _ => .zeroed⟩
  ⟨[], mem, mem⟩

/-- Both devices are made, or the first is taken down with the rest. -/
theorem all_or_nothing_twoDevices : AllLive 2 (chardevInit 2 bothMade unloaded).2 ∧
    NothingLeft 2 (chardevInit 2 secondNodeFails unloaded).2 := by
  have hnull : NullFree unloaded.past := by simp [NullFree, unloaded]
  constructor
  · rcases all_or_nothing 2 bothMade unloaded rfl trivial hnull with
      ⟨-, -, hlive, -⟩ | ⟨-, hfails, -⟩
    · exact hlive
    · exact absurd hfails (by decide)
  · rcases all_or_nothing 2 secondNodeFails unloaded rfl trivial hnull with
      ⟨-, hsucceed, -⟩ | ⟨-, -, hnothing⟩
    · exact absurd hsucceed (by decide)
    · exact hnothing

end Ldd.Load.AutoNode

import LddSandbox.Kernel.Service
import LddSandbox.Load.AutoNode
import LddSandbox.Message.Refine

/-! The module of `05-char-dev-auto-node` in use, with `NUM_DEVICES` any `n`: loaded, called through
    its `n` nodes and unloaded, again and again, whatever calls of each load fail at whatever index.

        chardev_init ▶ 0:        device i: "Device i default message\n", never opened    for i < n
        open, read, write i:     number of node i ──▶ its cdev ──▶ devices[i], no other device -/

namespace Ldd.Load.AutoNode
open Ldd.Schemes Ldd.Kernel Script Ledger Message AutoResource

/-! ### The module forgets -/

section Forget
variable {n : ℕ}

theorem forgets_slot (i : ℕ) : Forgets (slot i) := forgets_look.bind fun _ => forgets_pure _

theorem forgets_allocChrdevRegion (o : Except Errno (Region n)) :
    Forgets (allocChrdevRegion o) := by
  cases o with
  | ok r => exact (forgets_acquire _).bind fun _ => (forgets_update _).bind fun _ => forgets_pure 0
  | error e => exact forgets_pure (-e.1)

theorem forgets_cdevDel (p : ℤ) : Forgets (cdevDel p) :=
  (forgets_deref _).bind fun _ => forgets_release _

theorem forgets_cleanupDevice (i : ℕ) : Forgets (cleanupDevice i) := by
  have hrest : ∀ p, Forgets (do cdevDel p; release (device p); update (.setSlot i 0)) := fun p =>
    (forgets_cdevDel p).bind fun _ => (forgets_release _).bind fun _ => forgets_update _
  refine (forgets_slot i).bind fun p => .ite ?_ (forgets_pure ())
  refine (forgets_deref _).bind fun m => .ite ?_ (hrest p)
  exact forgets_look.bind fun _ => (forgets_release _).bind fun _ => hrest p

theorem forgets_cleanupDevices (i : ℕ) : Forgets (cleanupDevices n i) :=
  .each forgets_cleanupDevice _

theorem forgets_cleanupClassAndDevnum : Forgets cleanupClassAndDevnum := by
  have hrest : Forgets (do release (region (← look).devNum) : AutoScript Unit) :=
    forgets_look.bind fun _ => forgets_release _
  refine forgets_look.bind fun m => .ite ?_ hrest
  exact (forgets_release _).bind fun _ => (forgets_update _).bind fun _ => hrest

theorem forgets_initDevice (calls : AutoCalls n) (i : ℕ) : Forgets (initDevice calls i) := by
  refine forgets_look.bind fun _ => (forgets_allocAt _ _).bind fun _ => ?_
  refine (forgets_update _).bind fun _ => (forgets_slot i).bind fun p => .ite (forgets_pure _) ?_
  refine (forgets_assign _ _).bind fun _ => (forgets_assign _ _).bind fun _ => ?_
  refine (forgets_assign _ _).bind fun _ => (forgets_request _ _ _).bind fun _ => .ite ?_ ?_
  · exact (forgets_release _).bind fun _ => (forgets_update _).bind fun _ => forgets_pure _
  · refine (forgets_request _ _ _).bind fun _ => (forgets_assign _ _).bind fun _ => ?_
    refine (forgets_deref _).bind fun _ => .ite ?_ (forgets_pure _)
    refine (forgets_deref _).bind fun _ => (forgets_assign _ _).bind fun _ => ?_
    exact (forgets_cdevDel p).bind fun _ => (forgets_release _).bind fun _ =>
      (forgets_update _).bind fun _ => forgets_pure _

theorem forgets_initIteration (calls : AutoCalls n) (i : ℕ) : Forgets (initIteration calls i) := by
  refine (forgets_initDevice calls i).bind fun _ => .ite ?_ (forgets_pure _)
  exact (forgets_cleanupDevices i).bind fun _ =>
    forgets_cleanupClassAndDevnum.bind fun _ => forgets_pure _

theorem forgets_chardevInit (calls : AutoCalls n) : Forgets (chardevInit n calls) := by
  refine (Forgets.each (fun _ => forgets_update _) n).bind fun _ => ?_
  refine (forgets_allocChrdevRegion _).bind fun _ => .ite (forgets_pure _) ?_
  refine (forgets_createAt _ _).bind fun _ => (forgets_update _).bind fun _ => ?_
  refine forgets_look.bind fun _ => .ite ?_ ?_
  · exact forgets_look.bind fun _ => (forgets_release _).bind fun _ =>
      forgets_look.bind fun _ => forgets_pure _
  · exact (Forgets.upTo (forgets_initIteration calls) n).bind fun _ => forgets_pure _

theorem forgets_chardevExit : Forgets (chardevExit n) :=
  (forgets_cleanupDevices n).bind fun _ => forgets_cleanupClassAndDevnum

end Forget

/-! ### What a load comes to -/

/-- `05-char-dev-auto-node` -/
def autoModule (n : ℕ) : Loadable AutoResource AutoMem (AutoCalls n) where
  needs := AutoResource.needs
  init := chardevInit n
  exit := chardevExit n
  fails calls := !calls.succeed

section
variable {n : ℕ} {w : World AutoResource AutoMem}

/-- `chardev_init` on a module that never ran. -/
theorem chardevInit_decides (calls : AutoCalls n) (hpast : w.past = []) :
    (calls.succeed = true → (chardevInit n calls w).1 = 0 ∧ Loaded n (chardevInit n calls w).2) ∧
    (calls.succeed = false → (∃ e : Errno, (chardevInit n calls w).1 = -e.1) ∧
      NothingLeft n (chardevInit n calls w).2) := by
  have hends := chardevInit_ends (n := n) (w := w) calls (by rw [hpast]; rfl)
    (by rw [hpast]; trivial) (by simp [hpast, NullFree])
  rcases hends with ⟨hret, hs, hloaded⟩ | ⟨herr, hs, hleft⟩
  · exact ⟨fun _ => ⟨hret, hloaded⟩, fun hf => absurd (hs.symm.trans hf) (by decide)⟩
  · exact ⟨fun ht => absurd (hs.symm.trans ht) (by decide), fun _ => ⟨herr, hleft⟩⟩

/-- The `n` devices are there, the class and the region. -/
def Up (n : ℕ) (w : World AutoResource AutoMem) : Prop :=
  ∃ (r : Region n) (c : ℤ), c ≠ 0 ∧ Left w.mem.devices r.1 c n 0 w

theorem Loaded.up (h : Loaded n w) : Up n w := by
  obtain ⟨calls, r, c, hc, hmade⟩ := h
  exact ⟨r, c, hc, hmade.left⟩

theorem Up.exit_ends (h : Up n w) (freed : AutoMem) :
    NothingLeft n (chardevExit n { w with freed := freed }).2 := by
  obtain ⟨r, c, hc, hl⟩ := h
  have hl' : Left w.mem.devices r.1 c n 0 { w with freed := freed } :=
    ⟨hl.holds, hl.nonnull, hl.devNum, hl.cls, hl.gone, hl.kept, hl.object, hl.distinct, hl.nodes⟩
  have hgone := cleanupDevices_takes hl' (Nat.le_refl n)
  exact cleanupClassAndDevnum_ends hgone hc hgone.gone

/-- The devices are there, whatever was used and given back before the load. -/
def AutoHeld (n : ℕ) (w : World AutoResource AutoMem) : Prop :=
  ∃ fresh old, w.past = fresh ++ old ∧ live old = [] ∧ Up n { w with past := fresh }

theorem autoModule_unwinds (n : ℕ) : (autoModule n).Unwinds (fun _ => false) (AutoHeld n) where
  loads calls w hidle hsound hf := by
    have hs : calls.succeed = true := by simpa [autoModule] using hf
    obtain ⟨hret, hloaded⟩ := (chardevInit_decides (w := { w with past := [] }) calls rfl).1 hs
    have hrun := (forgets_chardevInit calls).run hidle
    show (chardevInit n calls w).1 = 0 ∧ Sound AutoResource.needs (chardevInit n calls w).2.past ∧
      AutoHeld n (chardevInit n calls w).2
    rw [hrun]
    refine ⟨hret, (sound_append hidle _).mpr ⟨hloaded.allLive.sound, hsound⟩, ?_⟩
    exact ⟨_, w.past, rfl, hidle, hloaded.up⟩
  rolls_back calls w hidle hsound hf _ := by
    have hs : calls.succeed = false := by simpa [autoModule] using hf
    obtain ⟨herr, hnone⟩ := (chardevInit_decides (w := { w with past := [] }) calls rfl).2 hs
    have hrun := (forgets_chardevInit calls).run hidle
    show (∃ e : Errno, (chardevInit n calls w).1 = -e.1) ∧
      Sound AutoResource.needs (chardevInit n calls w).2.past ∧
      live (chardevInit n calls w).2.past = []
    rw [hrun]
    exact ⟨herr, (sound_append hidle _).mpr ⟨hnone.sound, hsound⟩,
      (live_append hidle _).trans hnone.live⟩
  slips _ _ _ hs := by cases hs
  unloads w freed hsound hheld := by
    obtain ⟨fresh, old, hpast, hidle, hup⟩ := hheld
    have hnone := hup.exit_ends freed
    rw [hpast] at hsound
    have hworld : ({ w with freed := freed } : World AutoResource AutoMem) =
        ({ w with past := fresh, freed := freed } : World AutoResource AutoMem).after old := by
      rw [World.after, ← hpast]
    have hrun := forgets_chardevExit (n := n) { w with past := fresh, freed := freed } old hidle
    show Sound AutoResource.needs (chardevExit n { w with freed := freed }).2.past ∧
      live (chardevExit n { w with freed := freed }).2.past = []
    rw [hworld, hrun]
    exact ⟨(sound_append hidle _).mpr ⟨hnone.sound, ((sound_append hidle _).mp hsound).2⟩,
      (live_append hidle _).trans hnone.live⟩

end

/-! ### The nodes in use -/

/-- A call on a node. -/
inductive NodeCall
  | openFile
  | read (len : ℕ) (offset : ℤ) (f : Fault)
  | write (data : List UInt8) (f : Fault)

/-- An open answers the minor and the count that `dev_open` prints. -/
inductive NodeAnswer
  | absent
  | opened (minor : ℕ) (count : ℤ)
  | read (r : ReadResult)
  | wrote (ret : ℤ)
  deriving DecidableEq, Repr

/-- What the VFS lets through. -/
def NodeCall.admitted : NodeCall → Bool
  | .openFile => true
  | .read len offset _ => admits offset len
  | .write data _ => decide (data.length ≤ maxRwCount)

abbrev AdmittedNodeCall := { c : NodeCall // c.admitted = true }

/-- `dev_open` -/
def devOpen (dev : AutoDev) : AutoDev := { dev with openCount := s32 (dev.openCount + 1) }

/-- `fops` -/
def AutoDev.call (dev : AutoDev) : NodeCall → AutoDev × NodeAnswer
  | .openFile => (devOpen dev, .opened (devOpen dev).minor (devOpen dev).openCount)
  | .read len offset f => (dev, .read (CharDevAutoNode.devRead dev.io len offset f))
  | .write data f =>
    let (io, ret) := CharDevAutoNode.devWrite dev.io data f
    ({ dev with io := io }, .wrote ret)

/-- The cdev that was added at a device number. -/
def cdevAt (devno : ℕ) (held : List AutoResource) : Option ℤ :=
  held.findSome? fun
    | .cdev p d => if d = devno then some p else none
    | _ => none

/-- A call on the node `myautodev<i>`: the number of the node leads to a cdev, and `container_of` to
    the device that the cdev is a part of. -/
def serve {n : ℕ} (c : Fin n × AdmittedNodeCall) : AutoScript NodeAnswer := do
  let devNum := (← look).devNum
  let devno := mkdev (major devNum) (minor devNum + c.1)
  access (node devno)
  match cdevAt devno (live (← get).past) with
  | none => return .absent
  | some p =>
    access (cdev p devno)
    let dev := (← deref (device p)).heap p
    let (dev, answer) := dev.call c.2.1
    assign (device p) (.setDev p fun _ => dev)
    return answer

/-- What a node is for: one message, and a count of its opens. -/
structure Node where
  message : Msg CharDevAutoNode.bufLen
  opens : ℕ

/-- The node `i` after a load. -/
def Node.init (i : ℕ) : Node := ⟨CharDevAutoNode.initMsg i, 0⟩

/-- The count that is shown wraps as an `int` does. -/
def Node.call (i : ℕ) (t : Node) : NodeCall → Node × NodeAnswer
  | .openFile => ({ t with opens := t.opens + 1 }, .opened i (s32 (t.opens + 1)))
  | .read len offset f => (t, .read (t.message.read len offset f))
  | .write data f => ({ t with message := (t.message.write data f).1 },
      .wrote (t.message.write data f).2)

/-- The nodes side by side: a call on one leaves the others as they are. -/
def nodes (n : ℕ) : Machine (Fin n → Node) (Fin n × AdmittedNodeCall) NodeAnswer := fun t c =>
  let (t', answer) := (t c.1).call c.1 c.2.1
  (Function.update t c.1 t', answer)

/-- A device shows the node. -/
structure NodeShown (i : ℕ) (t : Node) (dev : AutoDev) : Prop where
  minor : dev.minor = i
  message : Holds t.message dev.io.buffer 0 dev.io.bufferSize
  opens : dev.openCount = s32 t.opens

theorem s32_succ (x : ℤ) : s32 (s32 x + 1) = s32 (x + 1) := by
  unfold s32
  omega

/-- A call of the device is a call of the node. -/
theorem NodeShown.call {i : ℕ} {t : Node} {dev : AutoDev} (h : NodeShown i t dev) {c : NodeCall}
    (hc : c.admitted = true) :
    NodeShown i (t.call i c).1 (dev.call c).1 ∧ (dev.call c).2 = (t.call i c).2 := by
  cases c with
  | openFile =>
    have hopens : s32 (dev.openCount + 1) = s32 ((t.opens + 1 : ℕ) : ℤ) := by
      rw [h.opens, s32_succ, Nat.cast_succ]
    refine ⟨⟨h.minor, h.message, hopens⟩, ?_⟩
    show NodeAnswer.opened dev.minor (s32 (dev.openCount + 1)) = .opened i (s32 (t.opens + 1))
    rw [h.minor, hopens, Nat.cast_succ]
  | read len offset f =>
    exact ⟨h, congrArg NodeAnswer.read (CharDevAutoNode.shows.read f h.message hc)⟩
  | write data f =>
    obtain ⟨hm, hret⟩ := CharDevAutoNode.shows.write f h.message (of_decide_eq_true hc)
    exact ⟨⟨h.minor, hm, h.opens⟩, congrArg NodeAnswer.wrote hret⟩

/-- No call moves the cdev or the node of its device. -/
theorem AutoDev.call_kept (dev : AutoDev) (c : NodeCall) :
    (dev.call c).1.dev = dev.dev ∧ (dev.call c).1.device = dev.device := by
  cases c <;> exact ⟨rfl, rfl⟩

/-- The number of a node leads to the device of its index. -/
theorem cdevAt_held {n i base : ℕ} {c : ℤ} {devices : ℕ → ℤ} {held : List AutoResource}
    (h : ∀ r, r ∈ held ↔ r ∈ Held devices base c 0 n) (hi : i < n) :
    cdevAt (base + i) held = some (devices i) := by
  have hmem : cdev (devices i) (base + i) ∈ held :=
    (h _).mpr (.inl ⟨i, Nat.zero_le i, hi, .inr (.inl rfl)⟩)
  cases hfind : cdevAt (base + i) held with
  | none =>
    have hnone := List.findSome?_eq_none_iff.mp hfind _ hmem
    simp at hnone
  | some p =>
    obtain ⟨r, hr, hp⟩ := List.exists_of_findSome?_eq_some hfind
    have hin := (h r).mp hr
    cases r with
    | cdev q d =>
      have hd : d = base + i ∧ q = p := by simpa using hp
      obtain ⟨rfl, rfl⟩ := hd
      rcases hin with ⟨j, -, -, hj | hj | hj⟩ | hj | hj
      · cases hj
      · obtain ⟨hq, hij⟩ := AutoResource.cdev.inj hj
        rw [hq, Nat.add_left_cancel hij]
      · cases hj
      · cases hj
      · cases hj
    | _ => cases hp

section
variable {n : ℕ} {w : World AutoResource AutoMem} {devices : ℕ → ℤ} {r : Region n} {c : ℤ}

/-- The uses of a call on the node `i`, the latest first. -/
def uses (devices : ℕ → ℤ) (base i : ℕ) : List (Use AutoResource) :=
  [.access (device (devices i)), .access (device (devices i)),
    .access (cdev (devices i) (base + i)), .access (node (base + i))]

/-- How a call runs: it uses what belongs to the device of its node. -/
theorem serve_run (hnum : w.mem.devNum = r.1)
    (hlive : ∀ x, x ∈ live w.past ↔ x ∈ Held devices r.1 c 0 n) (a : Fin n × AdmittedNodeCall) :
    serve a w = (((w.mem.heap (devices a.1)).call a.2.1).2, { w with
      past := uses devices r.1 a.1 ++ w.past
      mem := w.mem.setDev (devices a.1) fun _ => ((w.mem.heap (devices a.1)).call a.2.1).1 }) := by
  have hdevno : mkdev (major w.mem.devNum) (minor w.mem.devNum + a.1) = r.1 + a.1 := by
    rw [hnum, r.mkdev a.1.2]
  have hcdev := cdevAt_held hlive a.1.2
  have hdev : device (devices a.1) ∈ live w.past :=
    (hlive _).mpr (.inl ⟨a.1, Nat.zero_le _, a.1.2, .inr (.inr rfl)⟩)
  simp [serve, hdevno, hcdev, hdev, uses, World.use]

/-- A call takes nothing down. -/
theorem Left.used (h : Left devices r.1 c n 0 w) {i : ℕ} (hi : i < n) {dev : AutoDev}
    (hdev : dev.dev = (w.mem.heap (devices i)).dev ∧ dev.device = (w.mem.heap (devices i)).device) :
    Left devices r.1 c n 0 { w with
      past := uses devices r.1 i ++ w.past
      mem := w.mem.setDev (devices i) fun _ => dev } := by
  have hin : ∀ x, x = node (r.1 + i) ∨ x = cdev (devices i) (r.1 + i) ∨ x = device (devices i) →
      x ∈ Held devices r.1 c 0 n := fun x hx => .inl ⟨i, Nat.zero_le i, hi, hx⟩
  have hdevice := hin _ (.inr (.inr rfl))
  refine ⟨?_, ?_, h.devNum, h.cls, h.gone, h.kept, h.object, h.distinct, fun j hj => ?_⟩
  · exact (((h.holds.access (hin _ (.inl rfl))).access (hin _ (.inr (.inl rfl)))).access
      hdevice).access hdevice
  · simpa [NullFree, uses] using h.nonnull
  · by_cases heq : devices j = devices i
    · obtain rfl := h.distinct j hj i hi heq
      simpa [hdev.1, hdev.2] using h.nodes j hj
    · simpa [Function.update_of_ne heq] using h.nodes j hj

/-- Every device shows its node. -/
def NodesShown (n : ℕ) (mem : AutoMem) (t : Fin n → Node) : Prop :=
  ∀ i : Fin n, NodeShown i (t i) (mem.heap (mem.devices i))

theorem Loaded.shown (h : Loaded n w) : NodesShown n w.mem fun i => Node.init i := by
  obtain ⟨calls, r, c, -, hmade⟩ := h
  intro i
  obtain ⟨-, hminor, hio⟩ := hmade.made i i.2
  refine ⟨hminor, ?_, ?_⟩
  · rw [hio]
    exact CharDevAutoNode.holds_init i
  · have hzero : s32 0 = 0 := s32_id (by decide) (by decide)
    exact (hmade.unopened i i.2).trans hzero.symm

/-- A call on one node leaves the others as they are. -/
theorem NodesShown.call {t : Fin n → Node} (h : NodesShown n w.mem t)
    (hdistinct : ∀ j < n, ∀ k < n, w.mem.devices j = w.mem.devices k → j = k)
    (a : Fin n × AdmittedNodeCall) :
    NodesShown n (w.mem.setDev (w.mem.devices a.1) fun _ =>
        ((w.mem.heap (w.mem.devices a.1)).call a.2.1).1) (nodes n t a).1 ∧
      ((w.mem.heap (w.mem.devices a.1)).call a.2.1).2 = (nodes n t a).2 := by
  obtain ⟨hshown, hout⟩ := (h a.1).call a.2.2
  refine ⟨fun j => ?_, hout⟩
  by_cases hj : j = a.1
  · subst hj
    simpa [nodes] using hshown
  · have hdev : w.mem.devices j ≠ w.mem.devices a.1 := fun heq =>
      hj (Fin.ext (hdistinct j j.2 a.1 a.1.2 heq))
    simpa [nodes, Function.update_of_ne hj, Function.update_of_ne hdev] using h j

end

theorem autoModule_offers (n : ℕ) :
    Offers (autoModule n) (fun _ => false) (AutoHeld n) serve (fun _ (i : Fin n) => Node.init i)
      (nodes n) (NodesShown n) where
  unwinds := autoModule_unwinds n
  fresh calls w hidle _ hf := by
    have hs : calls.succeed = true := by simpa [autoModule] using hf
    obtain ⟨-, hloaded⟩ := (chardevInit_decides (w := { w with past := [] }) calls rfl).1 hs
    have hrun := (forgets_chardevInit calls).run hidle
    show NodesShown n (chardevInit n calls w).2.mem _
    rw [hrun]
    exact hloaded.shown
  serves a w t hheld hsound hshown := by
    obtain ⟨fresh, old, hpast, hidle, r, c, hc, hl⟩ := hheld
    have hlive : ∀ x, x ∈ live w.past ↔ x ∈ Held w.mem.devices r.1 c 0 n := by
      rw [hpast, live_append hidle]
      exact hl.holds.mem
    have hrun := serve_run (w := w) hl.devNum hlive a
    obtain ⟨hshown', hout⟩ := hshown.call hl.distinct a
    have hused := hl.used a.1.2 (AutoDev.call_kept _ a.2.1)
    rw [hrun]
    refine ⟨?_, ?_, hshown', hout⟩
    · refine ⟨uses w.mem.devices r.1 a.1 ++ fresh, old, ?_, hidle, r, c, hc, hused⟩
      rw [List.append_assoc, ← hpast]
    · have hsound' := (sound_append hidle _).mpr
        ⟨hused.holds.sound, ((sound_append hidle _).mp (hpast ▸ hsound)).2⟩
      rw [List.append_assoc, ← hpast] at hsound'
      exact hsound'

/-- SESSIONS: for any number of devices, over every sequence of loads, whatever calls fail in them
    and at whatever index, unloads, opens, reads and writes of the nodes, the module is loaded and
    answers as `n` separate nodes that each load starts afresh, node `i` through the device of index
    `i`; every use of a resource, those of the calls among them, was allowed, and nothing is left
    when the module is not loaded. -/
theorem auto_sessions (n : ℕ) (mem : AutoMem)
    (asks : List (Ask AutoMem (AutoCalls n) (Fin n × AdmittedNodeCall))) :
    let r := ((autoModule n).inUse serve).run (.boot mem) asks
    r.2 = ((service AutoMem (autoModule n).fails (fun _ (i : Fin n) => Node.init i) (nodes n)).run
        none asks).2 ∧
      Sound AutoResource.needs r.1.world.past ∧
      (r.1.loaded = false → live r.1.world.past = []) :=
  (autoModule_offers n).sessions mem asks

end Ldd.Load.AutoNode

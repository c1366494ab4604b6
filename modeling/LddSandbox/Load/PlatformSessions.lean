import LddSandbox.Kernel.Service
import LddSandbox.Load.PlatformDriver
import LddSandbox.Message.Refine

/-! The module of `09-platform-driver` in use: loaded and unloaded, its device bound and unbound
    through sysfs, its node opened, read, written and closed, by any number of files.

        open:           node ──▶ cdev ──▶ record ──▶ private_data
        read, write:    private_data ──▶ record
        unbind:         cdev, region, record freed              private_data stays

    An open file holds the module, so that `rmmod` is refused; it does not hold the record. As long
    as no device is unbound while an open file points to its record, the files are served by one
    message, that each bind starts empty. -/

namespace Ldd.Load.PlatformDriver
open Ldd.Schemes Ldd.Kernel Script Ledger Message PlatformResource

/-! ### Binds and unbinds -/

/-- What is asked of the device through sysfs. -/
inductive BusCall
  | bind (calls : ProbeCalls)
  | unbind

/-- The driver core; it answers whether the device is bound. -/
def serve : BusCall → PlatformScript Bool
  | .bind calls => do
    if ¬ (← look).bound then
      attach calls
    return (← look).bound
  | .unbind => do
    detach
    return (← look).bound

/-- What the device is for: bound, it has a message that was empty at first. -/
def slot : Machine (Option (Msg PlatformDriver.bufLen)) BusCall Bool
  | some m, .bind _ => (some m, true)
  | none, .bind calls => if calls.succeed then (some (Msg.empty _), true) else (none, false)
  | _, .unbind => (none, false)

/-- The device holds the message of the slot. -/
structure SlotShown (mem : PlatformMem) (o : Option (Msg PlatformDriver.bufLen)) : Prop where
  bound : mem.bound = o.isSome
  message : ∀ m ∈ o, Holds m mem.io.message 0 mem.io.messageSize

/-- The slot of a module that was just loaded. -/
def slotStart (calls : PlatformCalls) : Option (Msg PlatformDriver.bufLen) :=
  if calls.probe.succeed then some (Msg.empty _) else none

variable {w : World PlatformResource PlatformMem}

theorem slotShown_none {mem : PlatformMem} (h : mem.bound = false) : SlotShown mem none :=
  ⟨h, fun _ hm => by cases hm⟩

theorem slotShown_empty {mem : PlatformMem} (h : mem.bound = true)
    (hio : mem.io = PlatformDriver.init) : SlotShown mem (some (Msg.empty _)) := by
  refine ⟨h, fun m hm => ?_⟩
  cases hm
  rw [hio]
  exact holds_empty

/-- What a call must do, beside the slot. -/
def ServesAs (c : BusCall) (w : World PlatformResource PlatformMem)
    (o : Option (Msg PlatformDriver.bufLen)) : Prop :=
  PlatformHeld (serve c w).2 ∧ SlotShown (serve c w).2.mem (slot o c).1 ∧
    (serve c w).1 = (slot o c).2

/-- A device that is not bound. -/
theorem serves_unbound (h : Unbound w) (hp : w.mem.testPdev ≠ 0) (c : BusCall) :
    ServesAs c w none := by
  have hb := h.bound
  unfold ServesAs
  cases c with
  | bind calls =>
    have hrun : serve (.bind calls) w = ((attach calls w).2.mem.bound, (attach calls w).2) := by
      simp [serve, hb, bind_run]
    rw [hrun]
    cases hs : calls.succeed with
    | true =>
      obtain ⟨hbound, hio, hpdev⟩ := attach_binds h hs
      simp only [slot, hs, if_true]
      exact ⟨⟨hpdev ▸ hp, .inr hbound⟩, slotShown_empty hbound.bound hio, hbound.bound⟩
    | false =>
      obtain ⟨hunbound, hpdev⟩ := attach_undoes h hs
      simp only [slot, hs]
      exact ⟨⟨hpdev ▸ hp, .inl hunbound⟩, slotShown_none hunbound.bound, hunbound.bound⟩
  | unbind =>
    have hrun : serve .unbind w = (false, w) := by simp [serve, detach_idle hb, hb]
    rw [hrun]
    exact ⟨⟨hp, .inl h⟩, slotShown_none hb, rfl⟩

theorem serve_unbind (h : Bound w) : serve .unbind w = (false, (detach w).2) := by
  simp [serve, (detach_unbinds h).1.bound]

theorem serve_bind (hb : w.mem.bound = true) (calls : ProbeCalls) :
    serve (.bind calls) w = (true, w) := by
  simp [serve, hb]

/-- A device that is bound, and holds a message. -/
theorem serves_bound (h : Bound w) (hp : w.mem.testPdev ≠ 0) {m : Msg PlatformDriver.bufLen}
    (hm : SlotShown w.mem (some m)) (c : BusCall) : ServesAs c w (some m) := by
  unfold ServesAs
  cases c with
  | bind calls =>
    rw [serve_bind h.bound]
    exact ⟨⟨hp, .inr h⟩, hm, rfl⟩
  | unbind =>
    obtain ⟨hunbound, hpdev⟩ := detach_unbinds h
    rw [serve_unbind h]
    exact ⟨⟨hpdev ▸ hp, .inl hunbound⟩, slotShown_none hunbound.bound, rfl⟩

theorem PlatformHeld.sound (h : PlatformHeld w) : Sound PlatformResource.needs w.past :=
  h.device.elim Unbound.sound Bound.sound

theorem PlatformHeld.bound_of (h : PlatformHeld w) (hb : w.mem.bound = true) : Bound w := by
  rcases h.device with hu | hbound
  · exact absurd (hu.bound.symm.trans hb) (by decide)
  · exact hbound

theorem PlatformHeld.unbound_of (h : PlatformHeld w) (hb : w.mem.bound = false) : Unbound w := by
  rcases h.device with hu | hbound
  · exact hu
  · exact absurd (hbound.bound.symm.trans hb) (by decide)

theorem platformModule_offers :
    Offers platformModule (fun _ => false) PlatformHeld serve slotStart slot SlotShown where
  unwinds := platformModule_unwinds
  fresh calls w hidle hsound hf := by
    obtain ⟨_ | u, _ | p, probe⟩ := calls <;> cases hf
    have hreg := registered_unbound hidle hsound
    have hinit : platformModule.init ⟨.ok u, .ok p, probe⟩ w = _ := myplatformInit_run
    rw [hinit]
    unfold slotStart
    cases hs : probe.succeed with
    | true =>
      obtain ⟨hb, hio, -⟩ := attach_binds hreg hs
      exact slotShown_empty hb.bound hio
    | false => exact slotShown_none (attach_undoes hreg hs).1.bound
  serves c w o hheld _ hshown := by
    have hserves : ServesAs c w o := by
      cases o with
      | none => exact serves_unbound (hheld.unbound_of hshown.bound) hheld.testPdev c
      | some m => exact serves_bound (hheld.bound_of hshown.bound) hheld.testPdev hshown c
    obtain ⟨hheld', hshown', hout⟩ := hserves
    exact ⟨hheld', hheld'.sound, hshown', hout⟩

/-! ### Open files -/

/-- A call on a file; a file is opened once. -/
inductive FileCall (φ : Type)
  | open (f : φ)
  | release (f : φ)
  | read (f : φ) (len : ℕ) (offset : ℤ) (fault : Fault)
  | write (f : φ) (data : List UInt8) (fault : Fault)

/-- How a call on a file ends; `refused` if the file is not open, or already open. -/
inductive FileAnswer
  | opened
  | absent
  | closed
  | refused
  | read (r : ReadResult)
  | wrote (ret : ℤ)
  deriving DecidableEq, Repr

variable {φ : Type}

/-- What the VFS lets through to the device. -/
def FileCall.admitted : FileCall φ → Bool
  | .read _ len offset _ => admits offset len
  | .write _ data _ => decide (data.length ≤ maxRwCount)
  | _ => true

abbrev AdmittedCall (φ : Type) := { c : FileCall φ // c.admitted = true }

/-- The open files, each with its `private_data`. -/
abbrev Files (φ : Type) := List (φ × PlatformResource)

/-- `platform_open`, once the cdev is found: `container_of` gives the record that the cdev is part
    of, which is the one of the last probe. -/
def platformOpen : PlatformScript (Option PlatformResource) := do
  if cdev ∈ live (← get).past then
    access cdev
    return some (← drvdata)
  else
    return none

/-- A call on a file. The last thing done with an open file is to put its cdev, which is part of the
    record. -/
def callFile [DecidableEq φ] (files : Files φ) : FileCall φ → PlatformScript (Files φ × FileAnswer)
  | .open f => do
    if (files.lookup f).isSome then
      return (files, .refused)
    match ← platformOpen with
    | some dev => return ((f, dev) :: files, .opened)
    | none => return (files, .absent)
  | .release f =>
    match files.lookup f with
    | some dev => do
      access dev
      return (files.filter (·.1 ≠ f), .closed)
    | none => return (files, .refused)
  | .read f len offset fault =>
    match files.lookup f with
    | some dev => do
      return (files, .read (PlatformDriver.platformRead (← deref dev).io len offset fault))
    | none => return (files, .refused)
  | .write f data fault =>
    match files.lookup f with
    | some dev => do
      let (io, ret) := PlatformDriver.platformWrite (← deref dev).io data fault
      assign dev ({ · with io := io })
      return (files, .wrote ret)
    | none => return (files, .refused)

/-- The same calls on a message, if the device is bound. -/
def slotFile [DecidableEq φ] :
    Machine (Option (Msg PlatformDriver.bufLen) × List φ) (FileCall φ) FileAnswer
  | (m, fs), .open f =>
    if f ∈ fs then ((m, fs), .refused)
    else if m.isSome then ((m, f :: fs), .opened)
    else ((m, fs), .absent)
  | (m, fs), .release f =>
    if f ∈ fs then ((m, fs.filter (· ≠ f)), .closed) else ((m, fs), .refused)
  | (some m, fs), .read f len offset fault =>
    if f ∈ fs then ((some m, fs), .read (m.read len offset fault)) else ((some m, fs), .refused)
  | (some m, fs), .write f data fault =>
    if f ∈ fs then ((some (m.write data fault).1, fs), .wrote (m.write data fault).2)
    else ((some m, fs), .refused)
  | (none, fs), .read _ _ _ _ | (none, fs), .write _ _ _ => ((none, fs), .refused)

/-! ### The system -/

/-- The module, and the files that are open on its device. -/
structure System (φ : Type) where
  loader : Loader PlatformResource PlatformMem
  files : Files φ

def System.boot (mem : PlatformMem) : System φ := ⟨.boot mem, []⟩

/-- What is asked of the module and of its device, and through a file. -/
inductive SystemAsk (φ : Type)
  | core (a : Ask PlatformMem PlatformCalls BusCall)
  | file (c : AdmittedCall φ)

inductive SystemSaid
  | core (s : Said Bool)
  | file (answer : FileAnswer)
  deriving DecidableEq, Repr

/-- An open file keeps the module loaded: `THIS_MODULE` owns the file's operations. -/
def keeps {α : Type} (files : List α) : Ask PlatformMem PlatformCalls BusCall → Bool
  | .attempt (.unload _) => !files.isEmpty
  | _ => false

variable [DecidableEq φ]

def system : Machine (System φ) (SystemAsk φ) SystemSaid
  | s, .core a =>
    if keeps s.files a then (s, .core (.loaded s.loader.loaded))
    else
      let (k, said) := platformModule.inUse serve s.loader a
      ({ s with loader := k }, .core said)
  | s, .file c =>
    let ((files, answer), w) := callFile s.files c.1 s.loader.world
    (⟨{ s.loader with world := w }, files⟩, .file answer)

/-- What the system is for: a service whose slot the open files share. -/
def slots : Machine (Option (Option (Msg PlatformDriver.bufLen)) × List φ) (SystemAsk φ) SystemSaid
  | (o, fs), .core a =>
    if keeps fs a then ((o, fs), .core (.loaded o.isSome))
    else
      let (o, said) := service PlatformMem platformModule.fails slotStart slot o a
      ((o, fs), .core said)
  | (o, fs), .file c =>
    let ((m, fs), answer) := slotFile (o.join, fs) c.1
    ((o.map fun _ => m, fs), .file answer)

/-- The device is not unbound while an open file points to its record. -/
def UnbindsUnheld (s : System φ) : SystemAsk φ → Prop
  | .core (.call .unbind) => ∀ f dev, (f, dev) ∈ s.files → dev ≠ record s.loader.world.mem.probe
  | _ => True

/-- The state of the system, and what it shows: the open files point to the record of a bound
    device. -/
structure SystemShown (s : System φ) (t : Option (Option (Msg PlatformDriver.bufLen)) × List φ) :
    Prop where
  shows : s.loader.Shows platformModule PlatformHeld SlotShown t.1
  files : s.files.map Prod.fst = t.2
  points : ∀ x ∈ s.files, x.2 = record s.loader.world.mem.probe ∧ t.1.join.isSome = true

/-! ### One ask -/

section Files
variable {files : Files φ} {f : φ} {dev : PlatformResource}

theorem lookup_opened (files : Files φ) (f : φ) :
    (∃ dev, files.lookup f = some dev ∧ (f, dev) ∈ files) ∨
      files.lookup f = none ∧ f ∉ files.map Prod.fst := by
  cases hlook : files.lookup f with
  | none =>
    refine .inr ⟨rfl, fun hf => ?_⟩
    obtain ⟨x, hx, rfl⟩ := List.mem_map.mp hf
    simpa using List.lookup_eq_none_iff.mp hlook x hx
  | some dev =>
    obtain ⟨before, after, rfl, -⟩ := List.lookup_eq_some_iff.mp hlook
    exact .inl ⟨dev, rfl, List.mem_append_right _ List.mem_cons_self⟩

theorem callFile_reopened (hlook : files.lookup f = some dev) :
    callFile files (.open f) w = ((files, .refused), w) := by
  simp [callFile, hlook]

theorem callFile_opens (hlook : files.lookup f = none) (hcdev : cdev ∈ Ledger.live w.past) :
    callFile files (.open f) w =
      (((f, record w.mem.probe) :: files, .opened), w.use (.access cdev)) := by
  simp [callFile, platformOpen, hlook, hcdev]

theorem callFile_absent (hlook : files.lookup f = none) (hcdev : cdev ∉ Ledger.live w.past) :
    callFile files (.open f) w = ((files, .absent), w) := by
  simp [callFile, platformOpen, hlook, hcdev]

theorem callFile_refused (hlook : files.lookup f = none) {c : FileCall φ}
    (hc : c = .release f ∨ (∃ len offset fault, c = .read f len offset fault) ∨
      ∃ data fault, c = .write f data fault) : callFile files c w = ((files, .refused), w) := by
  rcases hc with rfl | ⟨len, offset, fault, rfl⟩ | ⟨data, fault, rfl⟩ <;> simp [callFile, hlook]

theorem callFile_read (hlook : files.lookup f = some dev) (hdev : dev ∈ Ledger.live w.past)
    (len : ℕ) (offset : ℤ) (fault : Fault) : callFile files (.read f len offset fault) w =
      ((files, .read (PlatformDriver.platformRead w.mem.io len offset fault)),
        w.use (.access dev)) := by
  simp [callFile, hlook, hdev]

theorem callFile_write (hlook : files.lookup f = some dev) (hdev : dev ∈ Ledger.live w.past)
    (data : List UInt8) (fault : Fault) : callFile files (.write f data fault) w =
      ((files, .wrote (PlatformDriver.platformWrite w.mem.io data fault).2), { w with
        past := .access dev :: .access dev :: w.past
        mem := { w.mem with io := (PlatformDriver.platformWrite w.mem.io data fault).1 } }) := by
  simp [callFile, hlook, hdev, World.use]

theorem callFile_releases (hlook : files.lookup f = some dev) : callFile files (.release f) w =
    ((files.filter (·.1 ≠ f), .closed), w.use (.access dev)) := by
  simp [callFile, hlook]

end Files

theorem Bound.access (h : Bound w) {r : PlatformResource} (hr : r ∈ Ledger.live w.past) :
    Bound (w.use (.access r)) :=
  ⟨⟨hr, h.sound⟩, h.bound, h.live⟩

theorem Bound.setIo (h : Bound w) (io : PlatformDriver.MyplatformDev) :
    Bound { w with mem := { w.mem with io := io } } :=
  ⟨h.sound, h.bound, h.live⟩

theorem Bound.record_live (h : Bound w) : record w.mem.probe ∈ Ledger.live w.past := by
  rcases h.live with hlive | hlive <;> simp [hlive]

theorem Bound.cdev_live (h : Bound w) : cdev ∈ Ledger.live w.past := by
  rcases h.live with hlive | hlive <;> simp [hlive]

variable {s : System φ} {t : Option (Option (Msg PlatformDriver.bufLen)) × List φ}
variable {m : Msg PlatformDriver.bufLen} {fs : List φ}

/-- A module whose device is bound, with a message. -/
structure Ready (k : Loader PlatformResource PlatformMem) (m : Msg PlatformDriver.bufLen) :
    Prop where
  loaded : k.loaded = true
  testPdev : k.world.mem.testPdev ≠ 0
  bound : Bound k.world
  message : Holds m k.world.mem.io.message 0 k.world.mem.io.messageSize

variable {k : Loader PlatformResource PlatformMem}

theorem Ready.access (h : Ready k m) {r : PlatformResource} (hr : r ∈ Ledger.live k.world.past) :
    Ready { k with world := k.world.use (.access r) } m :=
  ⟨h.loaded, h.testPdev, h.bound.access hr, h.message⟩

omit [DecidableEq φ] in
theorem SystemShown.ready (h : SystemShown s (some (some m), fs)) : Ready s.loader m := by
  have hl : s.loader.loaded = true := h.shows.loaded
  have hheld := h.shows.between.held hl
  have hslot : SlotShown s.loader.world.mem (some m) := h.shows.mem (some m) rfl
  exact ⟨hl, hheld.testPdev, hheld.bound_of hslot.bound, hslot.message m rfl⟩

theorem Ready.shows (h : Ready k m) :
    k.Shows platformModule PlatformHeld SlotShown (some (some m)) where
  between := ⟨h.bound.sound, fun _ => ⟨h.testPdev, .inr h.bound⟩,
    fun hf => absurd (h.loaded.symm.trans hf) (by decide)⟩
  loaded := h.loaded
  mem o ho := by
    cases ho
    exact ⟨h.bound.bound, fun m hm => by cases hm; exact h.message⟩

omit [DecidableEq φ] in
/-- Without a message no file is open, and no cdev is there to be opened. -/
theorem SystemShown.idle (h : SystemShown s t) (ht : t.1.join = none) :
    s.files = [] ∧ cdev ∉ Ledger.live s.loader.world.past := by
  refine ⟨List.eq_nil_iff_forall_not_mem.mpr fun x hx => ?_, ?_⟩
  · have hsome := (h.points x hx).2
    rw [ht] at hsome
    cases hsome
  obtain ⟨o, fs⟩ := t
  cases o with
  | none =>
    rw [h.shows.between.idle h.shows.loaded]
    exact List.not_mem_nil
  | some slot =>
    have hnone : slot = none := ht
    subst hnone
    have hheld := h.shows.between.held h.shows.loaded
    have hslot : SlotShown s.loader.world.mem none := h.shows.mem none rfl
    rw [(hheld.unbound_of hslot.bound).live]
    decide

/-- An ask is answered as the slots answer it. -/
def Agrees (s : System φ) (t : Option (Option (Msg PlatformDriver.bufLen)) × List φ)
    (a : SystemAsk φ) : Prop :=
  SystemShown (system s a).1 (slots t a).1 ∧ (system s a).2 = (slots t a).2

/-- Without a message there is no file, and nothing to open. -/
theorem file_idle {o : Option (Option (Msg PlatformDriver.bufLen))} (h : SystemShown s (o, fs))
    (ho : o.join = none) (c : AdmittedCall φ) : Agrees s (o, fs) (.file c) := by
  obtain ⟨hnone, hcdev⟩ := h.idle ho
  have hfiles : s.files.map Prod.fst = fs := h.files
  obtain rfl : fs = [] := by rw [← hfiles, hnone, List.map_nil]
  have hlook : ∀ f, s.files.lookup f = none := fun f => by rw [hnone, List.lookup_nil]
  obtain ⟨answer, hrun, hslot⟩ : ∃ answer,
      callFile s.files c.1 s.loader.world = ((s.files, answer), s.loader.world) ∧
        slotFile (none, ([] : List φ)) c.1 = ((none, []), answer) := by
    cases c.1 with
    | «open» f => exact ⟨.absent, callFile_absent (hlook f) hcdev, rfl⟩
    | release f => exact ⟨.refused, callFile_refused (hlook f) (.inl rfl), rfl⟩
    | read f len offset fault =>
      exact ⟨.refused, callFile_refused (hlook f) (.inr (.inl ⟨_, _, _, rfl⟩)), rfl⟩
    | write f data fault =>
      exact ⟨.refused, callFile_refused (hlook f) (.inr (.inr ⟨_, _, rfl⟩)), rfl⟩
  have hstay : (o.map fun _ => (none : Option (Msg PlatformDriver.bufLen))) = o := by
    rcases o with _ | _ | m
    · rfl
    · rfl
    · cases ho
  have hsystem : system s (.file c) = (s, .file answer) := by simp only [system, hrun]
  have hslots : slots (o, []) (.file c) = ((o, []), .file answer) := by
    simp only [slots, ho, hslot, hstay]
  unfold Agrees
  rw [hsystem, hslots]
  exact ⟨h, rfl⟩

/-- A call on a file of a device with a message, that leaves the device with a message. -/
theorem agrees_file {c : AdmittedCall φ} {files : Files φ} {answer : FileAnswer}
    {w : World PlatformResource PlatformMem} {m' : Msg PlatformDriver.bufLen} (fs' : List φ)
    (hrun : callFile s.files c.1 s.loader.world = ((files, answer), w))
    (hslot : slotFile (some m, fs) c.1 = ((some m', fs'), answer))
    (hready : Ready { s.loader with world := w } m') (hfiles : files.map Prod.fst = fs')
    (hpoints : ∀ x ∈ files, x.2 = record w.mem.probe) :
    Agrees s (some (some m), fs) (.file c) := by
  have hsystem : system s (.file c) = (⟨{ s.loader with world := w }, files⟩, .file answer) := by
    simp only [system, hrun]
  have hslots : slots (some (some m), fs) (.file c) = ((some (some m'), fs'), .file answer) := by
    simp only [slots, Option.join_some, hslot, Option.map_some]
  unfold Agrees
  rw [hsystem, hslots]
  exact ⟨⟨hready.shows, hfiles, fun x hx => ⟨hpoints x hx, rfl⟩⟩, rfl⟩

/-- The files of a bound device are served by its message. -/
theorem file_bound (h : SystemShown s (some (some m), fs)) (c : AdmittedCall φ) :
    Agrees s (some (some m), fs) (.file c) := by
  have hready := h.ready
  have hfiles : s.files.map Prod.fst = fs := h.files
  have hpoints : ∀ x ∈ s.files, x.2 = record s.loader.world.mem.probe := fun x hx =>
    (h.points x hx).1
  -- a file that is open points to the record, which is live
  have hopen : ∀ {f dev}, (f, dev) ∈ s.files → f ∈ fs ∧ dev ∈ Ledger.live s.loader.world.past := by
    intro f dev hmem
    have hdev : dev = record s.loader.world.mem.probe := hpoints _ hmem
    exact ⟨hfiles ▸ List.mem_map_of_mem hmem, hdev ▸ hready.bound.record_live⟩
  obtain ⟨c, hc⟩ := c
  cases c with
  | «open» f =>
    rcases lookup_opened s.files f with ⟨dev, hlook, hmem⟩ | ⟨hlook, hnot⟩
    · obtain ⟨hf, -⟩ := hopen hmem
      exact agrees_file fs (callFile_reopened hlook) (by simp [slotFile, hf]) hready hfiles hpoints
    · have hnot' : f ∉ fs := hfiles ▸ hnot
      refine agrees_file (f :: fs) (callFile_opens hlook hready.bound.cdev_live)
        (by simp [slotFile, hnot']) (hready.access hready.bound.cdev_live) ?_ ?_
      · rw [List.map_cons, hfiles]
      · exact List.forall_mem_cons.mpr ⟨rfl, hpoints⟩
  | release f =>
    rcases lookup_opened s.files f with ⟨dev, hlook, hmem⟩ | ⟨hlook, hnot⟩
    · obtain ⟨hf, hdev⟩ := hopen hmem
      refine agrees_file (fs.filter (· ≠ f)) (callFile_releases hlook)
        (by simp [slotFile, hf]) (hready.access hdev) ?_ ?_
      · rw [← hfiles, List.filter_map]
        rfl
      · exact fun x hx => hpoints x (List.mem_of_mem_filter hx)
    · have hnot' : f ∉ fs := hfiles ▸ hnot
      exact agrees_file fs (callFile_refused hlook (.inl rfl)) (by simp [slotFile, hnot']) hready
        hfiles hpoints
  | read f len offset fault =>
    rcases lookup_opened s.files f with ⟨dev, hlook, hmem⟩ | ⟨hlook, hnot⟩
    · obtain ⟨hf, hdev⟩ := hopen hmem
      have hread : PlatformDriver.platformRead s.loader.world.mem.io len offset fault = _ :=
        PlatformDriver.shows.read fault hready.message hc
      refine agrees_file fs (callFile_read hlook hdev len offset fault) ?_ (hready.access hdev)
        hfiles hpoints
      simp [slotFile, hf, ← hread]
    · have hnot' : f ∉ fs := hfiles ▸ hnot
      exact agrees_file fs (callFile_refused hlook (.inr (.inl ⟨_, _, _, rfl⟩)))
        (by simp [slotFile, hnot']) hready hfiles hpoints
  | write f data fault =>
    rcases lookup_opened s.files f with ⟨dev, hlook, hmem⟩ | ⟨hlook, hnot⟩
    · obtain ⟨hf, hdev⟩ := hopen hmem
      obtain ⟨hm', hwrite⟩ :=
        PlatformDriver.shows.write fault hready.message (of_decide_eq_true hc)
      have hret : (PlatformDriver.platformWrite s.loader.world.mem.io data fault).2 = _ := hwrite
      have hready' := (hready.access hdev).access hdev
      refine agrees_file fs (callFile_write hlook hdev data fault) ?_
        ⟨hready.loaded, hready.testPdev, hready'.bound.setIo _, hm'⟩ hfiles hpoints
      simp [slotFile, hf, ← hret]
    · have hnot' : f ∉ fs := hfiles ▸ hnot
      exact agrees_file fs (callFile_refused hlook (.inr (.inr ⟨_, _, rfl⟩)))
        (by simp [slotFile, hnot']) hready hfiles hpoints

omit [DecidableEq φ] in
/-- While a file is open, what may be asked of the module and of its device changes nothing. -/
theorem core_idle (h : SystemShown s (some (some m), fs)) {x : φ × PlatformResource}
    (hx : x ∈ s.files) {a : Ask PlatformMem PlatformCalls BusCall} (hk : keeps s.files a = false)
    (hok : UnbindsUnheld s (.core a)) : (platformModule.inUse serve s.loader a).1 = s.loader ∧
      (service PlatformMem platformModule.fails slotStart slot (some (some m)) a).1 =
        some (some m) := by
  have hready := h.ready
  cases a with
  | attempt a =>
    cases a with
    | load calls freed =>
      exact ⟨congrArg Prod.fst (Loadable.attempt_idle_load hready.loaded calls freed), rfl⟩
    | unload freed =>
      have hnone : s.files = [] := by simpa [keeps] using hk
      exact absurd hx (hnone ▸ List.not_mem_nil)
  | call c =>
    cases c with
    | bind calls =>
      refine ⟨?_, rfl⟩
      rw [Loadable.inUse_call hready.loaded, serve_bind hready.bound.bound]
    | unbind => exact absurd (h.points x hx).1 (hok x.1 x.2 hx)

omit [DecidableEq φ] in
theorem keeps_map (files : Files φ) (a : Ask PlatformMem PlatformCalls BusCall) :
    keeps (files.map Prod.fst) a = keeps files a := by
  rcases a with (_ | _) | _ <;> simp [keeps]

/-- What is asked of the module and of its device is answered as the service answers it. -/
theorem core_agrees (h : SystemShown s t) {a : Ask PlatformMem PlatformCalls BusCall}
    (hok : UnbindsUnheld s (.core a)) : Agrees s t (.core a) := by
  obtain ⟨o, fs⟩ := t
  have hfiles : s.files.map Prod.fst = fs := h.files
  have hsame : keeps fs a = keeps s.files a := hfiles ▸ keeps_map s.files a
  unfold Agrees
  simp only [system, slots, hsame]
  cases hk : keeps s.files a with
  | true => exact ⟨h, congrArg (SystemSaid.core ∘ Said.loaded) h.shows.loaded⟩
  | false =>
    obtain ⟨hshows, hout⟩ := platformModule_offers.shows_ask h.shows (Ask.avoids_never _ a)
    refine ⟨⟨hshows, hfiles, fun x hx => ?_⟩, congrArg SystemSaid.core hout⟩
    obtain ⟨hpoint, hsome⟩ := h.points x hx
    obtain ⟨m, rfl⟩ : ∃ m, o = some (some m) := by
      rcases o with _ | _ | m
      · cases hsome
      · cases hsome
      · exact ⟨m, rfl⟩
    obtain ⟨hloader, hservice⟩ := core_idle h hx hk hok
    simp only [Bool.false_eq_true, if_false, hloader, hservice]
    exact ⟨hpoint, rfl⟩

theorem agrees (h : SystemShown s t) {a : SystemAsk φ} (hok : UnbindsUnheld s a) :
    Agrees s t a := by
  cases a with
  | core a => exact core_agrees h hok
  | file c =>
    obtain ⟨o, fs⟩ := t
    rcases o with _ | _ | m
    · exact file_idle h rfl c
    · exact file_idle h rfl c
    · exact file_bound h c

/-! ### Every run -/

omit [DecidableEq φ] in
theorem systemShown_boot (mem : PlatformMem) : SystemShown (.boot mem : System φ) (none, []) :=
  ⟨shows_boot mem, rfl, fun _ hx => absurd hx List.not_mem_nil⟩

/-- No device is unbound while an open file points to its record. -/
def AllUnheld (mem : PlatformMem) (asks : List (SystemAsk φ)) : Prop :=
  Traced (fun s a => (system s a).1) UnbindsUnheld (.boot mem) asks

theorem system_run {mem : PlatformMem} {asks : List (SystemAsk φ)} (hok : AllUnheld mem asks) :
    SystemShown (system.run (.boot mem) asks).1 (slots.run (none, []) asks).1 ∧
      (system.run (.boot mem) asks).2 = (slots.run (none, []) asks).2 := by
  refine Machine.agree_traced (fun s t a h ha => ?_) (systemShown_boot mem) hok
  exact agrees h ha

omit [DecidableEq φ] in
/-- A module that is not loaded has left nothing, and no file is open. -/
theorem SystemShown.unloaded (h : SystemShown s t) (hl : s.loader.loaded = false) :
    Ledger.live s.loader.world.past = [] ∧ s.files = [] := by
  obtain ⟨_ | slot, fs⟩ := t
  · exact ⟨h.shows.between.idle hl, (h.idle rfl).1⟩
  · cases h.shows.loaded.symm.trans hl

/-- An unbind of a device whose record an open file points to: a read of the file uses the record
    that was freed. -/
theorem unbind_dangles (h : SystemShown s t) {a : SystemAsk φ} (hbad : ¬ UnbindsUnheld s a) :
    ∃ c, ¬ Sound PlatformResource.needs (system.run s [a, .file c]).1.loader.world.past := by
  obtain rfl : a = .core (.call .unbind) := by
    rcases a with (a | _ | _) | c
    · exact absurd trivial hbad
    · exact absurd trivial hbad
    · rfl
    · exact absurd trivial hbad
  obtain ⟨f, dev, hmem, hdev⟩ : ∃ f dev, (f, dev) ∈ s.files ∧
      dev = record s.loader.world.mem.probe := by
    simpa only [UnbindsUnheld, not_forall, not_not, exists_prop] using hbad
  rcases t with ⟨_ | _ | m, fs⟩
  · cases (h.points _ hmem).2
  · cases (h.points _ hmem).2
  have hready := h.ready
  have hunbind : system s (.core (.call .unbind)) =
      (⟨{ s.loader with world := (detach s.loader.world).2 }, s.files⟩, .core (.answer false)) := by
    have hkeeps : keeps s.files (.call .unbind) = false := rfl
    simp only [system, hkeeps, Bool.false_eq_true, if_false, Loadable.inUse_call hready.loaded,
      serve_unbind hready.bound]
  rcases lookup_opened s.files f with ⟨dev', hlook, hmem'⟩ | ⟨-, hnot⟩
  · refine ⟨⟨.read f 0 0 {}, rfl⟩, fun hsound => ?_⟩
    rw [Machine.run_cons, hunbind] at hsound
    have hread : dev' ∈ Ledger.live (detach s.loader.world).2.past := by
      simp only [Machine.run_cons, Machine.run_nil, system, callFile, hlook] at hsound
      exact hsound.1
    have hpoint : dev' = record s.loader.world.mem.probe := (h.points _ hmem').1
    rw [hpoint, (detach_unbinds hready.bound).1.live] at hread
    exact absurd hread (by simp)
  · exact absurd (List.mem_map_of_mem hmem) hnot

/-- SESSIONS: over every sequence of loads, unloads, binds, unbinds and calls on files, whatever
    calls of an init or of a probe fail, in which the device is not unbound while an open file
    points to its record, the module is loaded and answers as the slots that each load starts
    afresh, whose open files share one message that was empty at the bind; every use of a resource,
    those of the driver core and of the files among them, was allowed, and nothing is left when the
    module is not loaded. And an unbind while a file points to the record can be followed by a read
    that uses the record that was freed. -/
theorem platform_sessions (φ : Type) [DecidableEq φ] (mem : PlatformMem) :
    (∀ asks : List (SystemAsk φ), AllUnheld mem asks →
      let r := system.run (.boot mem) asks
      r.2 = (slots.run (none, []) asks).2 ∧ Sound PlatformResource.needs r.1.loader.world.past ∧
        (r.1.loader.loaded = false → Ledger.live r.1.loader.world.past = [] ∧ r.1.files = [])) ∧
    ∀ (asks : List (SystemAsk φ)) (a : SystemAsk φ), AllUnheld mem asks →
      ¬ UnbindsUnheld (system.run (.boot mem) asks).1 a →
      ∃ c, ¬ Sound PlatformResource.needs
        (system.run (.boot mem) (asks ++ [a, .file c])).1.loader.world.past := by
  refine ⟨fun asks hok => ?_, fun asks a hok hbad => ?_⟩
  · obtain ⟨hshown, hout⟩ := system_run hok
    exact ⟨hout, hshown.shows.between.sound, hshown.unloaded⟩
  · obtain ⟨c, hc⟩ := unbind_dangles (system_run hok).1 hbad
    refine ⟨c, ?_⟩
    rw [Machine.run_append]
    exact hc

/-- A probe whose calls all succeed; the device has no memory resource. -/
def probeSucceeding : ProbeCalls := ⟨some someObject, none, 0, .ok (), .ok ()⟩

/-- The globals before a load. -/
def unloaded : PlatformMem := ⟨0, 0, false, 0, 0, PlatformDriver.init⟩

/-- A file is written, an `rmmod` refused, the file closed; then the device is bound again. -/
def boundAgain : List (SystemAsk ℕ) :=
  [.core (.attempt (.load ⟨.ok (), .ok someObject, probeSucceeding⟩ unloaded)),
    .file ⟨.open 0, rfl⟩, .file ⟨.write 0 [104, 105] {}, by decide⟩,
    .core (.attempt (.unload unloaded)), .file ⟨.read 0 4 0 {}, by decide⟩,
    .file ⟨.release 0, rfl⟩, .core (.call .unbind), .file ⟨.open 1, rfl⟩,
    .core (.call (.bind probeSucceeding)), .file ⟨.open 1, rfl⟩,
    .file ⟨.read 1 4 0 {}, by decide⟩]

/-- Nothing of the message is left. -/
theorem platform_sessions_boundAgain :
    let r := system.run (.boot unloaded) boundAgain
    r.2 = [.core (.loaded true), .file .opened, .file (.wrote 2), .core (.loaded true),
        .file (.read ⟨2, 2, [104, 105]⟩), .file .closed, .core (.answer false), .file .absent,
        .core (.answer true), .file .opened, .file (.read ⟨0, 0, []⟩)] ∧
      Sound PlatformResource.needs r.1.loader.world.past := by
  obtain ⟨hout, hsound, -⟩ := (platform_sessions ℕ unloaded).1 boundAgain
    ⟨trivial, trivial, trivial, trivial, trivial, trivial, fun _ _ hmem => (by cases hmem), trivial,
      trivial, trivial, trivial, trivial⟩
  exact ⟨hout.trans (by decide), hsound⟩

end Ldd.Load.PlatformDriver

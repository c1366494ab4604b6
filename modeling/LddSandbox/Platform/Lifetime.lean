import LddSandbox.Kernel.Calls
import LddSandbox.Message.Drivers
import LddSandbox.Schemes.Threads

/-! The device record of `09-platform-driver` and the files that point to it.

        probe:   devm_kzalloc ▶ cdev_add                    remove:  cdev_del ▶ free
        open:         chrdev_open finds the cdev ▶ private_data = record
        read, write:                               dev = private_data ▶ use of *dev

    The record lives from the probe to the remove, the pointer from the open to the release of the
    file, and nothing ties the two. A record is named by its device and the probe that allocated
    it. -/

namespace Ldd.Platform.Lifetime
open Ldd.Schemes Ldd.Kernel Ldd.Message PlatformDriver

variable {ι β φ : Type}

/-- A record: its device, and which probe of that device allocated it. -/
abbrev Rec (β : Type) := β × ℕ

/-- A device of the bus; the driver core probes or removes it in one thread at a time. -/
inductive DevState (ι : Type)
  | unbound
  | busy (p : ι)
  | bound (k : ℕ)
  deriving DecidableEq

/-- A file; while it is open its `private_data` points to a record, and it is not released while
    calls on it are under way. -/
inductive FileState (ι β : Type)
  | closed
  | opening (p : ι)
  | opened (r : Rec β) (users : List ι)
  deriving DecidableEq

structure Shared (ι β φ : Type) where
  dev : β → DevState ι
  probes : β → ℕ
  cdev : β → Option ℕ
  freed : Rec β → Bool
  data : Rec β → MyplatformDev
  files : φ → FileState ι β

/-- Where a thread is: between two calls of `myplatform_probe` or `myplatform_remove`, before the
    devm release, or in a file operation of the record that it has loaded. -/
inductive Pc (β φ : Type)
  | idle
  | kzalloc (d : β)
  | ioremap (r : Rec β)
  | allocRegion (r : Rec β)
  | cdevAdd (r : Rec β)
  | cdevDel (r : Rec β)
  | unregister (r : Rec β)
  | devres (r : Rec β)
  | platformOpen (f : φ) (r : Rec β)
  | platformRead (f : φ) (r : Rec β) (len : ℕ) (offset : ℤ) (fault : Fault)
  | platformWrite (f : φ) (r : Rec β) (data : List UInt8) (fault : Fault)

/-- What an idle thread begins, and how the next call of a busy one ends; `junk` is what freed
    memory holds. -/
inductive Choice (β φ : Type)
  | probe (d : β)
  | remove (d : β)
  | open (d : β) (f : φ)
  | read (f : φ) (len : ℕ) (offset : ℤ) (fault : Fault)
  | write (f : φ) (data : List UInt8) (fault : Fault)
  | release (f : φ)
  | done
  | fails (e : Errno)
  | junk (m : MyplatformDev)

instance : Inhabited (Choice β φ) := ⟨.done⟩

inductive Event
  | quiet
  | ret (v : ℤ)
  | read (r : ReadResult)

def FileState.leave [DecidableEq ι] (p : ι) : FileState ι β → FileState ι β
  | .opened r users => .opened r (users.erase p)
  | s => s

section
variable [DecidableEq ι] [DecidableEq β] [DecidableEq φ]

namespace Shared
variable (s : Shared ι β φ)

def setDev (d : β) (x : DevState ι) : Shared ι β φ := { s with dev := Function.update s.dev d x }

def setFile (f : φ) (x : FileState ι β) : Shared ι β φ :=
  { s with files := Function.update s.files f x }

def setCdev (d : β) (x : Option ℕ) : Shared ι β φ := { s with cdev := Function.update s.cdev d x }

def setData (r : Rec β) (m : MyplatformDev) : Shared ι β φ :=
  { s with data := Function.update s.data r m }

def free (r : Rec β) : Shared ι β φ := { s with freed := Function.update s.freed r true }

/-- One more probe of the device. -/
def count (d : β) : Shared ι β φ :=
  { s with probes := Function.update s.probes d (s.probes d + 1) }

end Shared

/-- One step of thread `p`. -/
def next (p : ι) (g : Choice β φ) (s : Shared ι β φ) :
    Pc β φ → Option (Shared ι β φ × Pc β φ × Event)
  | .idle => match g with
    | .probe d =>
      if s.dev d = .unbound then some (s.setDev d (.busy p), .kzalloc d, .quiet) else none
    | .remove d => match s.dev d with
      | .bound k => some (s.setDev d (.busy p), .cdevDel (d, k), .quiet)
      | _ => none
    | .open d f => match s.files f, s.cdev d with
      | .closed, some k => some (s.setFile f (.opening p), .platformOpen f (d, k), .quiet)
      | _, _ => none
    | .read f len offset fault => match s.files f with
      | .opened r users =>
        some (s.setFile f (.opened r (p :: users)), .platformRead f r len offset fault, .quiet)
      | _ => none
    | .write f data fault => match s.files f with
      | .opened r users =>
        some (s.setFile f (.opened r (p :: users)), .platformWrite f r data fault, .quiet)
      | _ => none
    | .release f => match s.files f with
      | .opened _ [] => some (s.setFile f .closed, .idle, .ret 0)
      | _ => none
    | _ => none
  -- myplatform_probe
  | .kzalloc d => match g with
    | .done =>
      some ((s.count d).setData (d, s.probes d) init, .ioremap (d, s.probes d), .quiet)
    | .fails _ => some (s.setDev d .unbound, .idle, .ret (-ENOMEM))
    | _ => none
  | .ioremap r => match g with
    | .done => some (s, .allocRegion r, .quiet)
    | .fails e => some (s, .devres r, .ret (-e.1))
    | _ => none
  | .allocRegion r => match g with
    | .done => some (s, .cdevAdd r, .quiet)
    | .fails e => some (s, .devres r, .ret (-e.1))
    | _ => none
  | .cdevAdd r => match g with
    | .done => some ((s.setCdev r.1 (some r.2)).setDev r.1 (.bound r.2), .idle, .ret 0)
    | .fails e => some (s, .unregister r, .ret (-e.1))
    | _ => none
  -- myplatform_remove, which ends like a probe whose cdev_add fails
  | .cdevDel r => match g with
    | .done => some (s.setCdev r.1 none, .unregister r, .quiet)
    | _ => none
  | .unregister r => match g with
    | .done => some (s, .devres r, .quiet)
    | _ => none
  | .devres r => match g with
    | .junk m => some (((s.free r).setData r m).setDev r.1 .unbound, .idle, .quiet)
    | _ => none
  -- the file operations
  | .platformOpen f r => match g with
    | .done => some (s.setFile f (.opened r []), .idle, .ret 0)
    | _ => none
  | .platformRead f r len offset fault => match g with
    | .done => some (s.setFile f ((s.files f).leave p), .idle,
        .read (platformRead (s.data r) len offset fault))
    | _ => none
  | .platformWrite f r data fault => match g with
    | .done =>
      let (m, ret) := platformWrite (s.data r) data fault
      some ((s.setData r m).setFile f ((s.files f).leave p), .idle, .ret ret)
    | _ => none

/-- The driver, the driver core and the processes. -/
def fops (ι β φ : Type) [DecidableEq ι] [DecidableEq β] [DecidableEq φ] :
    Program ι (Shared ι β φ) (Pc β φ) (Choice β φ) Event where
  next := next
  hear _ k := k

/-- The module loaded: nothing is bound or open. -/
def loaded (ι β φ : Type) : Conf ι (Shared ι β φ) (Pc β φ) where
  shared :=
    { dev := fun _ => .unbound
      probes := fun _ => 0
      cdev := fun _ => none
      freed := fun _ => false
      data := fun _ => init
      files := fun _ => .closed }
  pc := fun _ => .idle

/-! ### What holds, and when -/

/-- A file operation under way: its file, and the record that it uses. -/
@[simp] def Pc.uses : Pc β φ → Option (φ × Rec β)
  | .platformRead f r _ _ _ | .platformWrite f r _ _ => some (f, r)
  | _ => none

/-- No file operation under way uses a freed record. -/
def Safe (c : Conf ι (Shared ι β φ) (Pc β φ)) : Prop :=
  ∀ p f r, (c.pc p).uses = some (f, r) → c.shared.freed r = false

/-- No open file, and no open under way, points to the record. -/
def Unheld (c : Conf ι (Shared ι β φ) (Pc β φ)) (r : Rec β) : Prop :=
  (∀ f users, c.shared.files f ≠ .opened r users) ∧ ∀ p f, c.pc p ≠ .platformOpen f r

/-- The driver core frees only records that nothing points to. -/
def FreesUnheld (p : ι) (_ : Choice β φ) (c : Conf ι (Shared ι β φ) (Pc β φ)) : Prop :=
  ∀ r, c.pc p = .devres r → Unheld c r

/-- The device that a thread probes or removes. -/
@[simp] def Pc.device : Pc β φ → Option β
  | .kzalloc d => some d
  | .ioremap r | .allocRegion r | .cdevAdd r | .cdevDel r | .unregister r | .devres r => some r.1
  | _ => none

/-- The record that a thread has in hand for its device. -/
@[simp] def Pc.record : Pc β φ → Option (Rec β)
  | .ioremap r | .allocRegion r | .cdevAdd r | .cdevDel r | .unregister r | .devres r => some r
  | _ => none

/-- The device of a thread that has not added the cdev yet, or has deleted it. -/
@[simp] def Pc.hides : Pc β φ → Option β
  | .kzalloc d => some d
  | .ioremap r | .allocRegion r | .cdevAdd r | .unregister r | .devres r => some r.1
  | _ => none

/-! ### One step -/

/-- The steps there are: what each needs and changes. -/
inductive Step (p : ι) (s : Shared ι β φ) : Pc β φ → Shared ι β φ → Pc β φ → Prop
  | probe {d : β} : s.dev d = .unbound → Step p s .idle (s.setDev d (.busy p)) (.kzalloc d)
  | remove {d : β} {k : ℕ} : s.dev d = .bound k →
      Step p s .idle (s.setDev d (.busy p)) (.cdevDel (d, k))
  | open {d : β} {f : φ} {k : ℕ} : s.files f = .closed → s.cdev d = some k →
      Step p s .idle (s.setFile f (.opening p)) (.platformOpen f (d, k))
  | enter {f : φ} {r : Rec β} {users : List ι} {k' : Pc β φ} : s.files f = .opened r users →
      k'.uses = some (f, r) → k'.device = none → (∀ f r, k' ≠ .platformOpen f r) →
      Step p s .idle (s.setFile f (.opened r (p :: users))) k'
  | release {f : φ} {r : Rec β} : s.files f = .opened r [] →
      Step p s .idle (s.setFile f .closed) .idle
  | noMemory {d : β} : Step p s (.kzalloc d) (s.setDev d .unbound) .idle
  | alloc {d : β} : Step p s (.kzalloc d) ((s.count d).setData (d, s.probes d) init)
      (.ioremap (d, s.probes d))
  | advance {k k' : Pc β φ} {r : Rec β} : k.record = some r → k'.record = some r →
      k.hides = some r.1 → k'.hides = some r.1 → Step p s k s k'
  | publish {r : Rec β} :
      Step p s (.cdevAdd r) ((s.setCdev r.1 (some r.2)).setDev r.1 (.bound r.2)) .idle
  | hide {r : Rec β} : Step p s (.cdevDel r) (s.setCdev r.1 none) (.unregister r)
  | free {r : Rec β} {m : MyplatformDev} :
      Step p s (.devres r) (((s.free r).setData r m).setDev r.1 .unbound) .idle
  | opened {f : φ} {r : Rec β} :
      Step p s (.platformOpen f r) (s.setFile f (.opened r [])) .idle
  | leave {k : Pc β φ} {f : φ} {r : Rec β} {m : MyplatformDev} : k.uses = some (f, r) →
      Step p s k ((s.setData r m).setFile f ((s.files f).leave p)) .idle

variable {p : ι} {g : Choice β φ} {s s' : Shared ι β φ} {k k' : Pc β φ} {e : Event}

omit [DecidableEq ι] [DecidableEq φ] in
theorem Shared.setData_self (s : Shared ι β φ) (r : Rec β) : s.setData r (s.data r) = s := by
  simp [Shared.setData]

theorem Step.of_next (h : next p g s k = some (s', k', e)) : Step p s k s' k' := by
  cases k with
  | idle =>
    cases g with
    | probe d =>
      simp only [next, Option.ite_none_right_eq_some] at h
      obtain ⟨hd, h⟩ := h
      cases h
      exact .probe hd
    | remove d =>
      simp only [next] at h
      split at h
      · cases h
        exact .remove ‹_›
      · cases h
    | «open» d f =>
      simp only [next] at h
      split at h
      · cases h
        exact .open ‹_› ‹_›
      · cases h
    | read f len offset fault =>
      simp only [next] at h
      split at h
      · cases h
        exact .enter ‹_› rfl rfl nofun
      · cases h
    | write f data fault =>
      simp only [next] at h
      split at h
      · cases h
        exact .enter ‹_› rfl rfl nofun
      · cases h
    | release f =>
      simp only [next] at h
      split at h
      · cases h
        exact .release ‹_›
      · cases h
    | _ => cases h
  | kzalloc d =>
    cases g with
    | done => cases h; exact .alloc
    | fails e => cases h; exact .noMemory
    | _ => cases h
  | ioremap r =>
    cases g with
    | done => cases h; exact .advance rfl rfl rfl rfl
    | fails e => cases h; exact .advance rfl rfl rfl rfl
    | _ => cases h
  | allocRegion r =>
    cases g with
    | done => cases h; exact .advance rfl rfl rfl rfl
    | fails e => cases h; exact .advance rfl rfl rfl rfl
    | _ => cases h
  | cdevAdd r =>
    cases g with
    | done => cases h; exact .publish
    | fails e => cases h; exact .advance rfl rfl rfl rfl
    | _ => cases h
  | cdevDel r =>
    cases g with
    | done => cases h; exact .hide
    | _ => cases h
  | unregister r =>
    cases g with
    | done => cases h; exact .advance rfl rfl rfl rfl
    | _ => cases h
  | devres r =>
    cases g with
    | junk m => cases h; exact .free
    | _ => cases h
  | platformOpen f r =>
    cases g with
    | done => cases h; exact .opened
    | _ => cases h
  | platformRead f r len offset fault =>
    cases g with
    | done =>
      cases h
      have hstep : Step p s (.platformRead f r len offset fault) _ _ :=
        .leave (m := s.data r) rfl
      rw [Shared.setData_self] at hstep
      exact hstep
    | _ => cases h
  | platformWrite f r data fault =>
    cases g with
    | done => cases h; exact .leave rfl
    | _ => cases h

/-! ### Devices and their records -/

/-- What a thread at work on a device may rely on. -/
structure At (s : Shared ι β φ) (q : ι) (k : Pc β φ) : Prop where
  device : ∀ d, k.device = some d → s.dev d = .busy q
  record : ∀ r, k.record = some r → s.freed r = false ∧ r.2 < s.probes r.1
  hidden : ∀ d, k.hides = some d → s.cdev d = none

/-- What ties a device to its cdev and its records. -/
structure Tied (s : Shared ι β φ) : Prop where
  unbound : ∀ d, s.dev d = .unbound → s.cdev d = none
  bound : ∀ d k, s.dev d = .bound k → s.cdev d = some k
  cdev : ∀ d k, s.cdev d = some k → s.freed (d, k) = false ∧ k < s.probes d
  unused : ∀ d k, s.probes d ≤ k → s.freed (d, k) = false

omit [DecidableEq ι] [DecidableEq β] [DecidableEq φ] in
theorem Pc.device_of_record {r : Rec β} (h : k.record = some r) : k.device = some r.1 := by
  cases k <;> cases h <;> rfl

omit [DecidableEq ι] [DecidableEq β] [DecidableEq φ] in
theorem Pc.device_of_hides {d : β} (h : k.hides = some d) : k.device = some d := by
  cases k <;> cases h <;> rfl

/-- A step leaves the device that another thread is at work on. -/
theorem Step.elsewhere (h : Step p s k s' k') (hk : At s p k) {q : ι} (hq : q ≠ p) {d : β}
    (hd : s.dev d = .busy q) : s'.dev d = s.dev d ∧ s'.cdev d = s.cdev d ∧
      s'.probes d = s.probes d ∧ ∀ i, s'.freed (d, i) = s.freed (d, i) := by
  have hmine : ∀ d', k.device = some d' → d ≠ d' := by
    rintro d' hd' rfl
    rw [hk.device d hd'] at hd
    exact hq (DevState.busy.inj hd).symm
  cases h with
  | @probe d' hd' =>
    have hne : d ≠ d' := by
      rintro rfl
      rw [hd'] at hd
      cases hd
    simp [Shared.setDev, hne]
  | @remove d' i hd' =>
    have hne : d ≠ d' := by
      rintro rfl
      rw [hd'] at hd
      cases hd
    simp [Shared.setDev, hne]
  | noMemory => simp [Shared.setDev, hmine _ rfl]
  | alloc => simp [Shared.count, Shared.setData, hmine _ rfl]
  | publish => simp [Shared.setDev, Shared.setCdev, hmine _ rfl]
  | hide => simp [Shared.setCdev, hmine _ rfl]
  | @free r m =>
    have hne : ∀ i, (d, i) ≠ r := by
      rintro i rfl
      exact hmine _ rfl rfl
    simp [Shared.setDev, Shared.setData, Shared.free, hmine _ rfl, hne]
  | _ => exact ⟨rfl, rfl, rfl, fun _ => rfl⟩

/-- So another thread may rely on what it did. -/
theorem At.stable {q : ι} {kq : Pc β φ} (hq : At s q kq) (hk : At s p k) (hne : q ≠ p)
    (h : Step p s k s' k') : At s' q kq := by
  refine ⟨fun d hd => ?_, fun r hr => ?_, fun d hd => ?_⟩
  · rw [(h.elsewhere hk hne (hq.device d hd)).1]
    exact hq.device d hd
  · obtain ⟨-, -, hprobes, hfreed⟩ :=
      h.elsewhere hk hne (hq.device r.1 (Pc.device_of_record hr))
    rw [hprobes, hfreed r.2]
    exact hq.record r hr
  · rw [(h.elsewhere hk hne (hq.device d (Pc.device_of_hides hd))).2.1]
    exact hq.hidden d hd

omit [DecidableEq ι] [DecidableEq β] [DecidableEq φ] in
theorem At.of_none {q : ι} (h : k.device = none) : At s q k := by
  refine ⟨fun d hd => ?_, fun r hr => ?_, fun d hd => ?_⟩
  · rw [h] at hd
    cases hd
  · rw [Pc.device_of_record hr] at h
    cases h
  · rw [Pc.device_of_hides hd] at h
    cases h

omit [DecidableEq ι] [DecidableEq φ] in
theorem Tied.setDev (h : Tied s) {d : β} {x : DevState ι} (hu : x = .unbound → s.cdev d = none)
    (hb : ∀ i, x = .bound i → s.cdev d = some i) : Tied (s.setDev d x) := by
  refine ⟨fun d' hd' => ?_, fun d' i hd' => ?_, h.cdev, h.unused⟩
  · rcases eq_or_ne d' d with rfl | hne
    · exact hu (by simpa [Shared.setDev] using hd')
    · exact h.unbound d' (by simpa [Shared.setDev, hne] using hd')
  · rcases eq_or_ne d' d with rfl | hne
    · exact hb i (by simpa [Shared.setDev] using hd')
    · exact h.bound d' i (by simpa [Shared.setDev, hne] using hd')

omit [DecidableEq ι] [DecidableEq φ] in
/-- The cdev of a device that a thread is at work on may be set to a live record. -/
theorem Tied.setCdev (h : Tied s) {d : β} {x : Option ℕ} {q : ι} (hd : s.dev d = .busy q)
    (hx : ∀ i, x = some i → s.freed (d, i) = false ∧ i < s.probes d) : Tied (s.setCdev d x) := by
  refine ⟨fun d' hd' => ?_, fun d' i hd' => ?_, fun d' i hd' => ?_, h.unused⟩
  · have hne : d' ≠ d := by
      rintro rfl
      cases hd.symm.trans hd'
    simpa [Shared.setCdev, hne] using h.unbound d' hd'
  · have hne : d' ≠ d := by
      rintro rfl
      cases hd.symm.trans hd'
    simpa [Shared.setCdev, hne] using h.bound d' i hd'
  · rcases eq_or_ne d' d with rfl | hne
    · exact hx i (by simpa [Shared.setCdev] using hd')
    · exact h.cdev d' i (by simpa [Shared.setCdev, hne] using hd')

omit [DecidableEq ι] [DecidableEq φ] in
theorem Tied.count (h : Tied s) (d : β) : Tied (s.count d) := by
  have hmono : ∀ d', s.probes d' ≤ (s.count d).probes d' := by
    intro d'
    rcases eq_or_ne d' d with rfl | hne
    · simp [Shared.count]
    · simp [Shared.count, hne]
  refine ⟨h.unbound, h.bound, fun d' i hd' => ?_, fun d' i hi => ?_⟩
  · obtain ⟨hlive, hlt⟩ := h.cdev d' i hd'
    exact ⟨hlive, Nat.lt_of_lt_of_le hlt (hmono d')⟩
  · exact h.unused d' i (Nat.le_trans (hmono d') hi)

omit [DecidableEq ι] [DecidableEq φ] in
/-- A record may be freed once its device has no cdev. -/
theorem Tied.free (h : Tied s) {r : Rec β} (hc : s.cdev r.1 = none) (hr : r.2 < s.probes r.1) :
    Tied (s.free r) := by
  refine ⟨h.unbound, h.bound, fun d i hd => ?_, fun d i hi => ?_⟩
  · obtain ⟨hlive, hlt⟩ := h.cdev d i hd
    have hne : (d, i) ≠ r := by
      rintro rfl
      cases hc.symm.trans hd
    exact ⟨by simpa [Shared.free, hne] using hlive, hlt⟩
  · have hne : (d, i) ≠ r := by
      rintro rfl
      exact absurd hr (Nat.not_lt.mpr hi)
    simpa [Shared.free, hne] using h.unused d i hi

/-- A step keeps what is tied, and what its own thread may rely on. -/
theorem Step.tied (h : Step p s k s' k') (hk : At s p k) (ht : Tied s) : At s' p k' ∧ Tied s' := by
  cases h with
  | @probe d hd =>
    refine ⟨⟨?_, nofun, ?_⟩, ht.setDev nofun nofun⟩
    · rintro d' hd'
      cases hd'
      simp [Shared.setDev]
    · rintro d' hd'
      cases hd'
      exact ht.unbound d hd
  | @remove d i hd =>
    refine ⟨⟨?_, ?_, nofun⟩, ht.setDev nofun nofun⟩
    · rintro d' hd'
      cases hd'
      simp [Shared.setDev]
    · rintro r hr
      cases hr
      exact ht.cdev d i (ht.bound d i hd)
  | noMemory => exact ⟨.of_none rfl, ht.setDev (fun _ => hk.hidden _ rfl) nofun⟩
  | @alloc d =>
    have hcount := ht.count d
    refine ⟨⟨hk.device, ?_, hk.hidden⟩,
      ⟨hcount.unbound, hcount.bound, hcount.cdev, hcount.unused⟩⟩
    rintro r hr
    cases hr
    exact ⟨ht.unused d _ (Nat.le_refl _), by simp [Shared.count, Shared.setData]⟩
  | @advance k k' r hr hr' hh hh' =>
    refine ⟨⟨fun d hd => ?_, fun r' hr'' => ?_, fun d hd => ?_⟩, ht⟩
    · rw [Pc.device_of_record hr'] at hd
      cases hd
      exact hk.device _ (Pc.device_of_record hr)
    · rw [hr'] at hr''
      cases hr''
      exact hk.record r hr
    · rw [hh'] at hd
      cases hd
      exact hk.hidden _ hh
  | @publish r =>
    have hcdev := ht.setCdev (hk.device _ rfl) (x := some r.2) fun i hi => by
      cases hi
      exact hk.record r rfl
    refine ⟨.of_none rfl, hcdev.setDev nofun fun i hi => ?_⟩
    cases hi
    simp [Shared.setCdev]
  | @hide r =>
    refine ⟨⟨hk.device, hk.record, ?_⟩, ht.setCdev (hk.device _ rfl) nofun⟩
    rintro d hd
    cases hd
    simp [Shared.setCdev]
  | @free r m =>
    have hfree := ht.free (hk.hidden _ rfl) (hk.record r rfl).2
    have hdata : Tied ((s.free r).setData r m) :=
      ⟨hfree.unbound, hfree.bound, hfree.cdev, hfree.unused⟩
    exact ⟨.of_none rfl, hdata.setDev (fun _ => hk.hidden _ rfl) nofun⟩
  | enter hf huse hdev hopen =>
    exact ⟨.of_none hdev, ht.unbound, ht.bound, ht.cdev, ht.unused⟩
  | «open» | release | opened | leave =>
    exact ⟨.of_none rfl, ht.unbound, ht.bound, ht.cdev, ht.unused⟩

/-! ### Files -/

/-- No open file points to a freed record. -/
def FilesLive (s : Shared ι β φ) : Prop :=
  ∀ f r users, s.files f = .opened r users → s.freed r = false

/-- What a thread in a file operation may rely on. -/
structure Uses (s : Shared ι β φ) (q : ι) (k : Pc β φ) : Prop where
  opening : ∀ f r, k = .platformOpen f r → s.files f = .opening q ∧ s.freed r = false
  uses : ∀ f r, k.uses = some (f, r) → ∃ users, s.files f = .opened r users ∧ q ∈ users

omit [DecidableEq ι] [DecidableEq β] in
theorem Shared.files_setFile (s : Shared ι β φ) (f f' : φ) (x : FileState ι β) :
    (s.setFile f x).files f' = if f' = f then x else s.files f' := by
  simp [Shared.setFile, Function.update_apply]

omit [DecidableEq ι] [DecidableEq β] [DecidableEq φ] in
theorem Pc.uses_of_record {r : Rec β} (h : k.record = some r) : k.uses = none := by
  cases k <;> cases h <;> rfl

omit [DecidableEq ι] [DecidableEq β] in
/-- A file may be left pointing to a record that is not freed. -/
theorem FilesLive.setFile (hl : FilesLive s) {f : φ} {x : FileState ι β}
    (hx : ∀ r users, x = .opened r users → s.freed r = false) : FilesLive (s.setFile f x) := by
  intro f' r users hf'
  rw [Shared.files_setFile] at hf'
  split at hf'
  · exact hx r users hf'
  · exact hl f' r users hf'

/-- A step of its own, which frees no record that a file points to. -/
theorem Step.files (h : Step p s k s' k') (ht : Tied s) (hl : FilesLive s) (hu : Uses s p k)
    (hok : ∀ r, k = .devres r → ∀ f users, s.files f ≠ .opened r users) :
    FilesLive s' ∧ Uses s' p k' := by
  cases h with
  | @«open» d f i hf hc =>
    obtain ⟨hlive, -⟩ := ht.cdev d i hc
    refine ⟨hl.setFile nofun, ⟨?_, nofun⟩⟩
    rintro f' r hr
    cases hr
    exact ⟨by simp [Shared.files_setFile], hlive⟩
  | @enter f r users k' hf huse hdev hopen =>
    refine ⟨hl.setFile ?_, ⟨fun f' r' hr' => absurd hr' (hopen f' r'), ?_⟩⟩
    · rintro r' users' heq
      cases heq
      exact hl f r users hf
    · intro f' r' hr'
      rw [huse] at hr'
      cases hr'
      exact ⟨p :: users, by simp [Shared.files_setFile], List.mem_cons_self⟩
  | release hf => exact ⟨hl.setFile nofun, ⟨nofun, nofun⟩⟩
  | @opened f r =>
    obtain ⟨-, hlive⟩ := hu.opening f r rfl
    refine ⟨hl.setFile ?_, ⟨nofun, nofun⟩⟩
    rintro r' users' heq
    cases heq
    exact hlive
  | @leave k f r m huse =>
    obtain ⟨users, hf, -⟩ := hu.uses f r huse
    have hdata : FilesLive (s.setData r m) := hl
    refine ⟨hdata.setFile ?_, ⟨nofun, nofun⟩⟩
    rw [hf]
    rintro r' users' heq
    cases heq
    exact hl f r users hf
  | @free r m =>
    refine ⟨fun f' r' users' hf' => ?_, ⟨nofun, nofun⟩⟩
    have hne : r' ≠ r := by
      rintro rfl
      exact hok r' rfl f' users' hf'
    simpa [Shared.free, Shared.setData, Shared.setDev, hne] using hl f' r' users' hf'
  | advance hr hr' hh hh' =>
    refine ⟨hl, ⟨fun f' r' hk => ?_, fun f' r' hk => ?_⟩⟩
    · subst hk
      cases hr'
    · rw [Pc.uses_of_record hr'] at hk
      cases hk
  | _ => exact ⟨hl, ⟨nofun, nofun⟩⟩

/-- What a step does to a file: nothing, or it opens one that was closed or that its own thread was
    opening, or enters or leaves an open one, or closes one that is not in use. -/
theorem Step.file (h : Step p s k s' k') (hu : Uses s p k) (f : φ) :
    s'.files f = s.files f ∨ s.files f = .closed ∨ s.files f = .opening p ∨
      ∃ r users, s.files f = .opened r users ∧ (s'.files f = .opened r (p :: users) ∨
        users = [] ∨ s'.files f = .opened r (users.erase p)) := by
  cases h with
  | @«open» d f' i hf hc =>
    rcases eq_or_ne f f' with rfl | hne
    · exact .inr (.inl hf)
    · exact .inl (by simp [Shared.files_setFile, hne])
  | @enter f' r users k' hf huse hdev hopen =>
    rcases eq_or_ne f f' with rfl | hne
    · exact .inr (.inr (.inr ⟨r, users, hf, .inl (by simp [Shared.files_setFile])⟩))
    · exact .inl (by simp [Shared.files_setFile, hne])
  | @release f' r hf =>
    rcases eq_or_ne f f' with rfl | hne
    · exact .inr (.inr (.inr ⟨r, [], hf, .inr (.inl rfl)⟩))
    · exact .inl (by simp [Shared.files_setFile, hne])
  | @opened f' r =>
    rcases eq_or_ne f f' with rfl | hne
    · exact .inr (.inr (.inl (hu.opening f r rfl).1))
    · exact .inl (by simp [Shared.files_setFile, hne])
  | @leave k f' r m huse =>
    rcases eq_or_ne f f' with rfl | hne
    · obtain ⟨users, hf, -⟩ := hu.uses f r huse
      refine .inr (.inr (.inr ⟨r, users, hf, .inr (.inr ?_)⟩))
      simp [Shared.files_setFile, hf, FileState.leave]
    · refine .inl ?_
      rw [Shared.files_setFile, if_neg hne]
      rfl
  | _ => exact .inl rfl

/-- Only the devm release frees a record. -/
theorem Step.freed (h : Step p s k s' k') {r : Rec β} (hr : s.freed r = false)
    (hk : k ≠ .devres r) : s'.freed r = false := by
  cases h with
  | @free r' m =>
    have hne : r ≠ r' := fun heq => hk (heq ▸ rfl)
    simpa [Shared.free, Shared.setData, Shared.setDev, hne] using hr
  | _ => exact hr

/-- A step of another thread, which frees no record that this one opens. -/
theorem Uses.stable {q : ι} {kq : Pc β φ} (hq : Uses s q kq) (hu : Uses s p k) (hne : q ≠ p)
    (h : Step p s k s' k') (hok : ∀ r, k = .devres r → ∀ f, kq ≠ .platformOpen f r) :
    Uses s' q kq := by
  refine ⟨fun f r hk => ?_, fun f r hk => ?_⟩
  · obtain ⟨hf, hlive⟩ := hq.opening f r hk
    refine ⟨?_, h.freed hlive fun hr => hok r hr f hk⟩
    rcases h.file hu f with heq | hc | ho | ⟨r', users, ho, -⟩
    · rw [heq, hf]
    · cases hf.symm.trans hc
    · exact absurd (FileState.opening.inj (hf.symm.trans ho)) hne
    · cases hf.symm.trans ho
  · obtain ⟨users, hf, hmem⟩ := hq.uses f r hk
    rcases h.file hu f with heq | hc | ho | ⟨r', users', ho, hnext⟩
    · exact ⟨users, by rw [heq, hf], hmem⟩
    · cases hf.symm.trans hc
    · cases hf.symm.trans ho
    · cases hf.symm.trans ho
      rcases hnext with hnext | rfl | hnext
      · exact ⟨_, hnext, List.mem_cons_of_mem p hmem⟩
      · exact absurd hmem List.not_mem_nil
      · exact ⟨_, hnext, (List.mem_erase_of_ne hne).mpr hmem⟩

/-! ### Every run -/

variable {tr : List (ι × Event)} {c c' : Conf ι (Shared ι β φ) (Pc β φ)}

/-- What holds in every run that frees only what is not held. -/
structure Inv (c : Conf ι (Shared ι β φ) (Pc β φ)) : Prop where
  tied : Tied c.shared
  live : FilesLive c.shared
  at' : ∀ q, At c.shared q (c.pc q)
  uses : ∀ q, Uses c.shared q (c.pc q)

omit [DecidableEq ι] [DecidableEq β] [DecidableEq φ] in
theorem inv_loaded : Inv (loaded ι β φ) where
  tied := ⟨fun _ _ => rfl, fun _ _ h => (by cases h), fun _ _ h => (by cases h), fun _ _ _ => rfl⟩
  live _ _ _ h := by cases h
  at' _ := .of_none rfl
  uses _ := ⟨nofun, nofun⟩

theorem inv_run (hrun : (fops ι β φ).Run FreesUnheld (loaded ι β φ) tr c) : Inv c := by
  refine hrun.always inv_loaded ?_
  intro p g c e c' h hok hf
  obtain ⟨hn, hothers⟩ := Program.fire_spec hf
  have hstep := Step.of_next hn
  obtain ⟨hat, htied⟩ := hstep.tied (h.at' p) h.tied
  obtain ⟨hlive, huses⟩ := hstep.files h.tied h.live (h.uses p) fun r hr => (hok r hr).1
  refine ⟨htied, hlive, fun q => ?_, fun q => ?_⟩
  · rcases eq_or_ne q p with rfl | hne
    · exact hat
    · rw [hothers q hne]
      exact (h.at' q).stable (h.at' p) hne hstep
  · rcases eq_or_ne q p with rfl | hne
    · exact huses
    · rw [hothers q hne]
      exact (h.uses q).stable (h.uses p) hne hstep fun r hr f => (hok r hr).2 q f

omit [DecidableEq ι] [DecidableEq β] [DecidableEq φ] in
theorem Inv.safe (h : Inv c) : Safe c := by
  intro p f r hr
  obtain ⟨users, hf, -⟩ := (h.uses p).uses f r hr
  exact h.live f r users hf

/-- An idle thread reads from a file whose record is freed. -/
theorem reads_freed (hrun : (fops ι β φ).Run anyStep (loaded ι β φ) tr c) {q : ι} {f : φ}
    {r : Rec β} {users : List ι} (hidle : c.pc q = .idle) (hf : c.shared.files f = .opened r users)
    (hfreed : c.shared.freed r = true) :
    ∃ x c'', (fops ι β φ).Run anyStep (loaded ι β φ) (tr ++ [(q, x)]) c'' ∧ ¬ Safe c'' := by
  have hfire : (fops ι β φ).fire q (.read f 0 0 {}) c = some (.quiet,
      ⟨c.shared.setFile f (.opened r (q :: users)),
        fun p => if p = q then .platformRead f r 0 0 {} else c.pc p⟩) := by
    simp only [Program.fire, hidle, fops, next, hf, Option.map_some]
  refine ⟨_, _, hrun.step trivial hfire, fun hsafe => ?_⟩
  have hlive := hsafe q f r (by simp)
  exact absurd (hlive.symm.trans hfreed) (by decide)

/-- A record that is freed while something points to it is read. -/
theorem dangles (hrun : (fops ι β φ).Run anyStep (loaded ι β φ) tr c)
    (hbad : ¬ FreesUnheld p g c) (hf : (fops ι β φ).fire p g c = some (e, c')) :
    ∃ tr' c'', (fops ι β φ).Run anyStep (loaded ι β φ) (tr ++ (p, e) :: tr') c'' ∧ ¬ Safe c'' := by
  obtain ⟨r, hk, hheld⟩ : ∃ r, c.pc p = .devres r ∧ ¬ Unheld c r := by
    simpa only [FreesUnheld, not_forall, exists_prop] using hbad
  obtain ⟨hn, hothers⟩ := Program.fire_spec hf
  have hrun' := hrun.step trivial hf
  have hfreed : c'.shared.freed r = true ∧ c'.pc p = .idle ∧ c'.shared.files = c.shared.files := by
    simp only [fops, hk] at hn
    cases g with
    | junk m =>
      simp only [next, Option.some.injEq, Prod.mk.injEq] at hn
      obtain ⟨hs, hpc, -⟩ := hn
      rw [← hs]
      exact ⟨by simp [Shared.free, Shared.setData, Shared.setDev], hpc.symm, rfl⟩
    | _ => cases hn
  obtain ⟨hfreed, hidle, hfiles⟩ := hfreed
  by_cases hopen : ∃ f users, c.shared.files f = .opened r users
  · obtain ⟨f, users, hfile⟩ := hopen
    obtain ⟨x, c'', hnext, hunsafe⟩ := reads_freed hrun' hidle (hfiles ▸ hfile) hfreed
    rw [List.append_assoc] at hnext
    exact ⟨_, c'', hnext, hunsafe⟩
  · obtain ⟨q, f, hq⟩ : ∃ q f, c.pc q = .platformOpen f r := by
      by_contra hnone
      exact hheld ⟨fun f users h => hopen ⟨f, users, h⟩, fun q f h => hnone ⟨q, f, h⟩⟩
    have hne : q ≠ p := by
      rintro rfl
      cases hq.symm.trans hk
    have hq' : c'.pc q = .platformOpen f r := (hothers q hne).trans hq
    -- the open ends with a pointer to the freed record
    have hfire : (fops ι β φ).fire q .done c' = some (.ret 0, ⟨c'.shared.setFile f (.opened r []),
        fun p => if p = q then .idle else c'.pc p⟩) := by
      simp only [Program.fire, hq', fops, next, Option.map_some]
    have hrun'' := hrun'.step trivial hfire
    have hfile : (c'.shared.setFile f (.opened r [])).files f = .opened r [] := by
      simp [Shared.files_setFile]
    obtain ⟨x, c'', hnext, hunsafe⟩ := reads_freed hrun'' (q := q) (if_pos rfl) hfile hfreed
    rw [List.append_assoc, List.append_assoc] at hnext
    exact ⟨_, c'', hnext, hunsafe⟩

/-- LIFETIME: in every run in which the driver core frees only records that no open file and no open
    under way points to, no read or write uses a freed record; and any step that frees another record
    can be followed by a read that does. -/
theorem record_lives (ι β φ : Type) [DecidableEq ι] [DecidableEq β] [DecidableEq φ] :
    (∀ (tr : List (ι × Event)) (c : Conf ι (Shared ι β φ) (Pc β φ)),
      (fops ι β φ).Run FreesUnheld (loaded ι β φ) tr c → Safe c) ∧
    ∀ (tr : List (ι × Event)) (c c' : Conf ι (Shared ι β φ) (Pc β φ)) (p : ι) (g : Choice β φ)
      (e : Event), (fops ι β φ).Run anyStep (loaded ι β φ) tr c → ¬ FreesUnheld p g c →
      (fops ι β φ).fire p g c = some (e, c') →
      ∃ tr' c'', (fops ι β φ).Run anyStep (loaded ι β φ) (tr ++ (p, e) :: tr') c'' ∧ ¬ Safe c'' :=
  ⟨fun _ _ hrun => (inv_run hrun).safe, fun _ _ _ _ _ _ hrun hbad hf => dangles hrun hbad hf⟩

end

/-- Thread `true` probes the device. -/
def probes : List (Bool × Choice Unit Unit) := calls true (.probe ()) 4

/-- Thread `true` removes the device, and the driver core frees the record. -/
def removes : List (Bool × Choice Unit Unit) :=
  calls true (.remove ()) 2 ++ [(true, .junk init)]

/-- Process `false` opens the file. -/
def opens : List (Bool × Choice Unit Unit) := calls false (.open () ()) 1

/-- Process `false` begins a read. -/
def reads : List (Bool × Choice Unit Unit) := calls false (.read () 4 0 {}) 0

/-- Process `false` ends the read and releases the file. -/
def closes : List (Bool × Choice Unit Unit) := moves false 1 ++ calls false (.release ()) 0

/-- `FreesUnheld` for two threads, one device and one file, as a test. -/
def freesUnheld (p : Bool) (_ : Choice Unit Unit)
    (c : Conf Bool (Shared Bool Unit Unit) (Pc Unit Unit)) : Bool :=
  match c.pc p with
  | .devres r =>
    (match c.shared.files () with
      | .opened r' _ => r' ≠ r
      | _ => true) &&
    [false, true].all fun q => match c.pc q with
      | .platformOpen _ r' => r' ≠ r
      | _ => true
  | _ => true

theorem freesUnheld_ok (p : Bool) (g : Choice Unit Unit)
    (c : Conf Bool (Shared Bool Unit Unit) (Pc Unit Unit)) (h : freesUnheld p g c = true) :
    FreesUnheld p g c := by
  intro r hr
  simp only [freesUnheld, hr, Bool.and_eq_true] at h
  obtain ⟨hfile, hopen⟩ := h
  refine ⟨fun f users hf => ?_, fun q f hq => ?_⟩
  · rw [hf] at hfile
    simp at hfile
  · have hq' := List.all_eq_true.mp hopen q (by cases q <;> decide)
    rw [hq] at hq'
    simp at hq'

/-- The file is read and released before the device is removed; then the device is probed again, and
    the file opened and read. -/
def boundAgain : List (Bool × Choice Unit Unit) :=
  probes ++ opens ++ reads ++ closes ++ removes ++ probes ++ opens ++ reads

theorem boundAgain_runs : ((fops Bool Unit Unit).exec freesUnheld boundAgain
    (loaded Bool Unit Unit)).isSome = true := by
  decide +kernel

theorem record_lives_boundAgain :
    let c := (((fops Bool Unit Unit).exec freesUnheld boundAgain
      (loaded Bool Unit Unit)).get boundAgain_runs).2
    c.shared.freed ((), 0) = true ∧ c.pc false = .platformRead () ((), 1) 4 0 {} ∧ Safe c :=
  ⟨by decide +kernel, by rfl,
    (record_lives Bool Unit Unit).1 _ _ (Program.Run.of_exec freesUnheld_ok boundAgain_runs)⟩

theorem removed_runs : ((fops Bool Unit Unit).exec anyway (probes ++ opens ++ removes ++ reads)
    (loaded Bool Unit Unit)).isSome = true := by
  decide +kernel

/-- A file is open while its device is removed, and read after that. -/
theorem not_always_safe :
    ¬ ∀ (tr : List (Bool × Event)) (c : Conf Bool (Shared Bool Unit Unit) (Pc Unit Unit)),
      (fops Bool Unit Unit).Run anyStep (loaded Bool Unit Unit) tr c → Safe c := by
  intro h
  have hlive := h _ _ (Program.Run.of_exec anyway_any removed_runs) false () ((), 0) (by rfl)
  revert hlive
  decide +kernel

end Ldd.Platform.Lifetime

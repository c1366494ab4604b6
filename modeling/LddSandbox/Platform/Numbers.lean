import LddSandbox.Platform.Bus
import LddSandbox.Schemes.Traced
import Mathlib.Data.List.Nodup

/-! The device numbers of `10-platform-instance`. The driver owns `MAX_DEVICES` numbers and gives a
    device the number `dev_num_base + id`, for any `id`.

        dev_num_base - 1 | dev_num_base   ..   dev_num_base + 3 | dev_num_base + 4
           (id -1)       |         numbers of the driver        |     (id 4) -/

namespace Ldd.Platform
open Ldd.Schemes Ldd.Kernel Ledger

variable {δ : Type} [DecidableEq δ] {pdev : δ → PlatformDevice} {b : Bus δ} {e : BusEvent δ}

/-- The device can be given a number of the driver that no bound device has. -/
def Bus.HasRoom (pdev : δ → PlatformDevice) (b : Bus δ) (d : δ) : Prop :=
  (0 ≤ (pdev d).id ∧ (pdev d).id < maxDevices) ∧
    ∀ d' ∈ b.bound, (b.world.mem.data d').devNum ≠
      numberOf b.world.mem.pdrv.devNumBase (pdev d).id

/-- A probe left everything as it was. -/
structure Unchanged (b b' : Bus δ) : Prop where
  kept : Bus.Kept b b'
  devicePcd : b'.world.mem.pdrv.devicePcd = b.world.mem.pdrv.devicePcd

/-- An event after which the bound devices have numbers of the driver, each its own, and which, if it
    is the probe of a device that there is no such number for, fails and leaves everything. -/
structure Numbered (pdev : δ → PlatformDevice) (b : Bus δ) (e : BusEvent δ) : Prop where
  inside : ∀ d ∈ (b.step pdev e).bound,
    (b.step pdev e).world.mem.pdrv.devNumBase ≤ ((b.step pdev e).world.mem.data d).devNum ∧
      ((b.step pdev e).world.mem.data d).devNum <
        (b.step pdev e).world.mem.pdrv.devNumBase + maxDevices
  distinct : ∀ d ∈ (b.step pdev e).bound, ∀ d' ∈ (b.step pdev e).bound,
    ((b.step pdev e).world.mem.data d).devNum = ((b.step pdev e).world.mem.data d').devNum → d = d'
  few : (b.step pdev e).bound.length ≤ maxDevices
  refused : ∀ d calls freed, e = .probe d calls freed → b.Probes pdev d → ¬ b.HasRoom pdev d →
    (b.probe pdev d calls freed).1 ≠ 0 ∧ Unchanged b (b.step pdev e)

/-- A probe of a device that there is no number for does not get as far as `device_create`, or is
    answered there by the error that `device_pcd` holds already. -/
def StopsShort (pdev : δ → PlatformDevice) (b : Bus δ) (e : BusEvent δ) : Prop :=
  ∀ d calls freed, e = .probe d calls freed → b.Probes pdev d → ¬ b.HasRoom pdev d →
    calls.creates (pdev d).platformData = true →
    ∃ err : Errno, created (pdev d).id (live b.world.past) calls = .error err ∧
      b.world.mem.pdrv.devicePcd = -err.1

/-- A number is the driver's exactly if the id is an index into its numbers. -/
theorem numberOf_inside {base : ℕ} (hbase : base < 2 ^ 32 ∧ minor base + maxDevices ≤ 2 ^ minorBits)
    (p : PlatformDevice) :
    (base ≤ numberOf base p.id ∧ numberOf base p.id < base + maxDevices) ↔
      (0 ≤ p.id ∧ p.id < maxDevices) := by
  have hid := p.id_range
  have hfit := hbase.2
  rw [minor_eq, maxDevices, minorBits] at hfit
  have hmax := hbase.1
  unfold numberOf maxDevices
  omega

/-- Where the bound devices come from. -/
theorem mem_bound_step {x : δ} (h : b.Inv pdev) (hx : x ∈ (b.step pdev e).bound) :
    x ∈ b.bound ∨ ∃ calls freed p, e = .probe x calls freed ∧ b.Probes pdev x ∧
      b.Creates pdev x calls p := by
  cases e with
  | registerDriver first cls =>
    rw [Bus.step] at hx
    split at hx <;> exact .inl hx
  | unregisterDriver =>
    rw [Bus.step] at hx
    split at hx <;> exact .inl hx
  | addDevice d => exact .inl hx
  | removeDevice d =>
    rw [Bus.step] at hx
    split at hx <;> exact .inl hx
  | probe d calls freed =>
    by_cases hp : b.Probes pdev d
    · by_cases hc : ∃ p, b.Creates pdev d calls p
      · obtain ⟨p, hc⟩ := hc
        rw [(h.probe_binds hp freed hc).1] at hx
        rcases List.mem_cons.mp hx with rfl | hx
        · exact .inr ⟨calls, freed, p, rfl, hp, hc⟩
        · exact .inl hx
      · rw [(h.probe_fails hp calls freed fun p hp' => hc ⟨p, hp'⟩).2.1.bound] at hx
        exact .inl hx
    · rw [Bus.step, if_neg hp] at hx
      exact .inl hx
  | remove d freed =>
    rw [Bus.step] at hx
    split at hx
    · exact .inl (List.mem_of_mem_erase hx)
    · exact .inl hx

omit [DecidableEq δ] in
/-- At most as many devices as there are indices. -/
theorem few_of_inside {bound : List δ} (hnodup : bound.Nodup)
    (hnames : ∀ d ∈ bound, ∀ d' ∈ bound, (pdev d).id = (pdev d').id → d = d')
    (hids : ∀ d ∈ bound, 0 ≤ (pdev d).id ∧ (pdev d).id < maxDevices) :
    bound.length ≤ maxDevices := by
  have hmap : (bound.map fun d => (pdev d).id.toNat).Nodup := by
    refine List.Nodup.map_on ?_ hnodup
    intro d hd d' hd' heq
    have h := hids d hd
    have h' := hids d' hd'
    exact hnames d hd d' hd' (by omega)
  have hsub : (bound.map fun d => (pdev d).id.toNat) ⊆ List.range maxDevices := by
    intro i hi
    obtain ⟨d, hd, rfl⟩ := List.mem_map.mp hi
    have h := hids d hd
    exact List.mem_range.mpr (by omega)
  have hlen := hmap.length_le_of_subset hsub
  rwa [List.length_map, List.length_range] at hlen

/-- The ids of the bound devices are indices. -/
def IdsInside (pdev : δ → PlatformDevice) (b : Bus δ) : Prop :=
  ∀ d ∈ b.bound, 0 ≤ (pdev d).id ∧ (pdev d).id < maxDevices

theorem Numbered.ids (h : Numbered pdev b e) (hinv : b.Inv pdev) :
    IdsInside pdev (b.step pdev e) := by
  intro d hd
  have hnext := hinv.step e
  have hinside := h.inside d hd
  rw [hnext.numbers d hd] at hinside
  exact (numberOf_inside hnext.base (pdev d)).mp hinside

/-- One event. -/
theorem numbered_iff (h : b.Inv pdev) (hids : IdsInside pdev b) :
    Numbered pdev b e ↔ StopsShort pdev b e := by
  constructor
  · intro hn d calls freed he hp hroom hcreates
    subst he
    obtain ⟨hret, hunchanged⟩ := hn.refused d calls freed rfl hp hroom
    cases hnode : created (pdev d).id (live b.world.past) calls with
    | ok p =>
      have hbound := (h.probe_binds hp freed ⟨hcreates, hnode⟩).1
      have hlen := congrArg List.length hbound
      rw [hunchanged.kept.bound, List.length_cons] at hlen
      omega
    | error err =>
      have hfails := h.probe_fails hp calls freed fun p hp' => by
        rw [hp'.2] at hnode
        cases hnode
      refine ⟨err, rfl, ?_⟩
      rw [← hunchanged.devicePcd]
      exact hfails.2.2.2.2 hcreates err hnode
  · intro hs
    have hnext := h.step e
    have hnoCreates : ∀ d calls freed, e = .probe d calls freed → b.Probes pdev d →
        ¬ b.HasRoom pdev d → ∀ p, ¬ b.Creates pdev d calls p := by
      rintro d calls freed he hp hroom p ⟨hcreates, hnode⟩
      obtain ⟨err, herr, -⟩ := hs d calls freed he hp hroom hcreates
      rw [hnode] at herr
      cases herr
    have hids' : IdsInside pdev (b.step pdev e) := by
      intro d hd
      rcases mem_bound_step h hd with hd | ⟨calls, freed, p, he, hp, hc⟩
      · exact hids d hd
      · by_contra hid
        exact hnoCreates d calls freed he hp (fun hroom => hid hroom.1) p hc
    refine ⟨fun d hd => ?_, fun d hd d' hd' => hnext.distinct hd hd',
      few_of_inside hnext.nodup hnext.names hids', ?_⟩
    · rw [hnext.numbers d hd]
      exact (numberOf_inside hnext.base (pdev d)).mpr (hids' d hd)
    · intro d calls freed he hp hroom
      have hfails := h.probe_fails hp calls freed (hnoCreates d calls freed he hp hroom)
      obtain ⟨hret, hkept, -, hstops, hcreated⟩ := hfails
      subst he
      refine ⟨hret, hkept, ?_⟩
      cases hcreates : calls.creates (pdev d).platformData with
      | false => rw [hstops hcreates]
      | true =>
        obtain ⟨err, herr, hpcd⟩ := hs d calls freed rfl hp hroom hcreates
        rw [hcreated hcreates err herr, hpcd]

/-- Every event of a sequence is numbered. -/
def AllNumbered (pdev : δ → PlatformDevice) (data : δ → DevData) (events : List (BusEvent δ)) :
    Prop :=
  Traced (Bus.step pdev) (Numbered pdev) (Bus.boot data) events

/-- Every probe of a sequence that there is no number for stops short of `device_create`. -/
def AllStopShort (pdev : δ → PlatformDevice) (data : δ → DevData) (events : List (BusEvent δ)) :
    Prop :=
  Traced (Bus.step pdev) (StopsShort pdev) (Bus.boot data) events

/-- NUMBERS: after every event of a sequence the bound devices have numbers of the driver, at most
    `MAX_DEVICES` of them and each its own, and a device that there is no number for is refused and
    leaves everything, exactly if no such device gets as far as `device_create` unless it is answered
    there by the error that `device_pcd` holds already. -/
theorem numbers_owned_iff (pdev : δ → PlatformDevice) (data : δ → DevData)
    (events : List (BusEvent δ)) :
    AllNumbered pdev data events ↔ AllStopShort pdev data events :=
  Traced.iff (I := fun b => b.Inv pdev ∧ IdsInside pdev b)
    (fun _ _ h => numbered_iff h.1 h.2) (fun _ e h hn => ⟨h.1.step e, hn.ids h.1⟩)
    ⟨Bus.inv_boot data, fun _ hd => absurd hd List.not_mem_nil⟩

/-- A device without an id: `PLATFORM_DEVID_NONE`. -/
def noId : PlatformDevice := ⟨"pdev-A1x", -1, some ⟨512, 0x11, "PCDEV1111"⟩, by decide⟩

/-- All calls succeed. -/
def smooth : ProbeCalls :=
  ⟨some someObject, some ⟨8192, by decide⟩, .ok (), .ok someObject⟩

/-- The driver registers with major number 240, and probes one device. -/
def bindOne (d : δ) (freed : PdrvMem δ) : List (BusEvent δ) :=
  [.registerDriver ⟨240 * 2 ^ 20, room_at_240⟩ someObject, .addDevice d,
    .probe d smooth freed]

/-- A device without an id is bound to the number before those of the driver. -/
theorem not_always_numbered :
    ¬ AllNumbered (fun _ : Unit => noId) (fun _ => .zeroed)
      (bindOne () ⟨.zeroed, fun _ => none, fun _ => .zeroed⟩) := by
  rintro ⟨-, -, h, -⟩
  have hbelow := (h.inside () (by decide)).1
  revert hbelow
  decide

end Ldd.Platform

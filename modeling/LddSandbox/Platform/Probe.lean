import LddSandbox.Platform.Driver
import Mathlib.Data.List.Basic

/-! What `platform_drv_probe` and `platform_drv_remove` do, each on its own: a probe acquires all of
    a device or leaves what was held, and a remove with the devm release after it gives up all. -/

namespace Ldd.Platform
open Ldd.Schemes Ldd.Kernel Script Ledger PdrvResource

variable {δ : Type} [DecidableEq δ]

/-- The probe gets as far as `device_create`. -/
def ProbeCalls.creates : Option PlatformData → ProbeCalls → Bool
  | some _, ⟨some _, some _, .ok _, _⟩ => true
  | _, _ => false

theorem creates_iff {pdata : Option PlatformData} {calls : ProbeCalls} :
    calls.creates pdata = true ↔ ∃ p rec buf nod,
      pdata = some p ∧ calls = ⟨some rec, some buf, .ok (), nod⟩ := by
  constructor
  · intro h
    unfold ProbeCalls.creates at h
    split at h
    · exact ⟨_, _, _, _, rfl, rfl⟩
    · exact absurd h (by decide)
  · rintro ⟨p, rec, buf, nod, rfl, rfl⟩
    rfl

/-- How `device_create` ends. -/
def created (id : ℤ) (held : List (PdrvResource δ)) (calls : ProbeCalls) : Except Errno Object :=
  if nameTaken id held then .error eexist else calls.deviceCreate

variable {pdev : δ → PlatformDevice} {d : δ} {calls : ProbeCalls}
  {w w' : World (PdrvResource δ) (PdrvMem δ)}

/-- Nothing is held that belongs to the device. -/
structure Fresh (d : δ) (held : List (PdrvResource δ)) : Prop where
  noRecord : record d ∉ held
  noBuffer : buffer d ∉ held
  noCdev : cdev d ∉ held

/-- What a failed probe leaves is what it found, up to `device_pcd` and the record that it freed. -/
structure Undone (d : δ) (w w' : World (PdrvResource δ) (PdrvMem δ)) : Prop where
  sound : Sound needs w'.past
  live : live w'.past = live w.past
  pdrv : w'.mem.pdrv = { w.mem.pdrv with devicePcd := w'.mem.pdrv.devicePcd }
  drvdata : w'.mem.drvdata = w.mem.drvdata
  data : ∀ d' ≠ d, w'.mem.data d' = w.mem.data d'

/-- Nothing that is held depends on a record that is not. -/
theorem Fresh.unneeded {held : List (PdrvResource δ)} (h : Fresh d held) :
    ∀ x ∈ held, x.needs (record d) = false := by
  intro x hx
  cases x with
  | cdev d' =>
    rw [needs, decide_eq_false_iff_not]
    rintro rfl
    exact h.noCdev hx
  | buffer d' =>
    rw [needs, decide_eq_false_iff_not]
    rintro rfl
    exact h.noBuffer hx
  | _ => rfl

/-- A probe that stops before `device_create`: one case for each call, in order. -/
theorem probe_stops (hsound : Sound needs w.past) (hfresh : Fresh d (live w.past))
    (hc : calls.creates (pdev d).platformData = false) :
    (∃ e : Errno, (platformDrvProbe pdev d calls w).1 = -e.1) ∧
      Undone d w (platformDrvProbe pdev d calls w).2 ∧
      (platformDrvProbe pdev d calls w).2.mem.pdrv = w.mem.pdrv := by
  rcases hp : (pdev d).platformData with _ | pdata
  · have hrun : platformDrvProbe pdev d calls w = (-EINVAL, w) := by
      simp [platformDrvProbe, hp]
    rw [hrun]
    exact ⟨⟨⟨EINVAL, by decide⟩, rfl⟩, ⟨hsound, rfl, rfl, rfl, fun _ _ => rfl⟩, rfl⟩
  rw [hp] at hc
  rcases calls with ⟨_ | rec, buf, add, nod⟩
  · have hrun : platformDrvProbe pdev d ⟨none, buf, add, nod⟩ w = (-ENOMEM, w) := by
      simp [platformDrvProbe, hp]
    rw [hrun]
    exact ⟨⟨⟨ENOMEM, by decide⟩, rfl⟩, ⟨hsound, rfl, rfl, rfl, fun _ _ => rfl⟩, rfl⟩
  rcases buf with _ | buf
  · have hrun : platformDrvProbe pdev d ⟨some rec, none, add, nod⟩ w = (-ENOMEM, { w with
        past := [.release (record d), .access (record d), .access (record d), .access (record d),
          .access (record d), .acquire (record d)] ++ w.past
        mem := w.mem.setData d fun _ => ⟨pdata, 0, 0⟩ }) := by
      simp [platformDrvProbe, devDataFree, hp, rec.2.1, World.use]
    rw [hrun]
    refine ⟨⟨⟨ENOMEM, by decide⟩, rfl⟩, ⟨?_, by simp, rfl, rfl, ?_⟩, rfl⟩
    · simpa [hsound, hfresh.noRecord] using hfresh.unneeded
    · exact fun d' hd' => Function.update_of_ne hd' _ _
  rcases add with e | _
  · have hrun : platformDrvProbe pdev d ⟨some rec, some buf, .error e, nod⟩ w = (-e.1, { w with
        past := [.release (record d), .release (buffer d), .access (record d), .access (record d),
          .access (record d), .access (record d), .access (record d), .acquire (buffer d),
          .access (record d), .access (record d), .acquire (record d)] ++ w.past
        mem := w.mem.setData d fun _ =>
          ⟨pdata, buf.1, numberOf w.mem.pdrv.devNumBase (pdev d).id⟩ }) := by
      simp [platformDrvProbe, devDataFree, bufferFree, hp, rec.2.1, buf.2.1, e.2.1, World.use]
    rw [hrun]
    refine ⟨⟨e, rfl⟩, ⟨?_, by simp, rfl, rfl, ?_⟩, rfl⟩
    · simpa [hsound, hfresh.noRecord, hfresh.noBuffer] using hfresh.unneeded
    · exact fun d' hd' => Function.update_of_ne hd' _ _
  · exact absurd hc (by simp [ProbeCalls.creates])

/-- `device_create` fails: the cdev is deleted, the devm allocations are freed, and `device_pcd` keeps
    the error. -/
theorem probe_undoes (hsound : Sound needs w.past) (hfresh : Fresh d (live w.past))
    (hc : calls.creates (pdev d).platformData = true) {e : Errno}
    (hnode : created (pdev d).id (live w.past) calls = .error e) :
    (platformDrvProbe pdev d calls w).1 = -e.1 ∧ Undone d w (platformDrvProbe pdev d calls w).2 ∧
      (platformDrvProbe pdev d calls w).2.mem.pdrv.devicePcd = -e.1 := by
  obtain ⟨pdata, rec, buf, nod, hp, rfl⟩ := creates_iff.mp hc
  have hnode' : (if nameTaken (pdev d).id (live w.past) then .error eexist else nod) =
      (.error e : Except Errno Object) := hnode
  have hrun : platformDrvProbe pdev d ⟨some rec, some buf, .ok (), nod⟩ w = (-e.1, { w with
      past := [.release (record d), .release (buffer d), .access (record d), .release (cdev d),
        .access (record d), .access (record d), .acquire (cdev d), .access (record d),
        .access (record d), .access (record d), .access (record d), .acquire (buffer d),
        .access (record d), .access (record d), .acquire (record d)] ++ w.past
      mem := (w.mem.setData d fun _ =>
        ⟨pdata, buf.1, numberOf w.mem.pdrv.devNumBase (pdev d).id⟩).setPdrv
          ({ · with devicePcd := -e.1 }) }) := by
    simp [platformDrvProbe, devDataFree, bufferFree, cdevDel, hp, rec.2.1, buf.2.1, hnode',
      World.use]
  rw [hrun]
  refine ⟨rfl, ⟨?_, by simp, rfl, rfl, ?_⟩, rfl⟩
  · simpa [hsound, hfresh.noRecord, hfresh.noBuffer, hfresh.noCdev] using hfresh.unneeded
  · exact fun d' hd' => Function.update_of_ne hd' _ _

/-- Every call succeeds: the device owns its four resources. -/
theorem probe_binds (hsound : Sound needs w.past) (hfresh : Fresh d (live w.past))
    (hc : calls.creates (pdev d).platformData = true) {p : Object}
    (hnode : created (pdev d).id (live w.past) calls = .ok p) :
    ∃ data : DevData, data.devNum = numberOf w.mem.pdrv.devNumBase (pdev d).id ∧
      (platformDrvProbe pdev d calls w).1 = 0 ∧
      Sound needs (platformDrvProbe pdev d calls w).2.past ∧
      live (platformDrvProbe pdev d calls w).2.past =
        [node (pdev d).id data.devNum, cdev d, buffer d, record d] ++ live w.past ∧
      (platformDrvProbe pdev d calls w).2.mem = ((w.mem.setData d fun _ => data).setDrvdata d
        (some d)).setPdrv fun m => { m with totalDevices := m.totalDevices + 1, devicePcd := p.1 } := by
  obtain ⟨pdata, rec, buf, nod, hp, rfl⟩ := creates_iff.mp hc
  have hfree : nameTaken (pdev d).id (live w.past) = false := by
    rw [Bool.eq_false_iff]
    intro htaken
    rw [created, if_pos htaken] at hnode
    cases hnode
  have hnod : nod = .ok p := by
    rw [created, hfree] at hnode
    exact hnode
  have hnone : ∀ devt, node (pdev d).id devt ∉ live w.past := fun devt h =>
    absurd (nameTaken_iff.mpr ⟨devt, h⟩) (by rw [hfree]; decide)
  subst hnod
  have hrun : platformDrvProbe pdev d ⟨some rec, some buf, .ok (), .ok p⟩ w = (0, { w with
      past := [.acquire (node (pdev d).id (numberOf w.mem.pdrv.devNumBase (pdev d).id)),
        .access (record d), .acquire (cdev d), .access (record d), .access (record d),
        .access (record d), .access (record d), .acquire (buffer d), .access (record d),
        .access (record d), .acquire (record d)] ++ w.past
      mem := ((w.mem.setData d fun _ =>
        ⟨pdata, buf.1, numberOf w.mem.pdrv.devNumBase (pdev d).id⟩).setDrvdata d (some d)).setPdrv
          fun m => { m with totalDevices := m.totalDevices + 1, devicePcd := p.1 } }) := by
    simp [platformDrvProbe, hp, rec.2.1, buf.2.1, p.2.2, hfree, World.use]
  rw [hrun]
  refine ⟨⟨pdata, buf.1, numberOf w.mem.pdrv.devNumBase (pdev d).id⟩, rfl, rfl, ?_, by simp, rfl⟩
  simp [hsound, hfresh.noRecord, hfresh.noBuffer, hfresh.noCdev, hnone]

omit [DecidableEq δ] in
/-- The first node of a number that no other node has. -/
theorem find_node {id : ℤ} {devt : ℕ} {held : List (PdrvResource δ)} (h : node id devt ∈ held)
    (honly : ∀ id', node id' devt ∈ held → id' = id) :
    held.find? (hasNumber devt) = some (node id devt) := by
  induction held with
  | nil => exact absurd h List.not_mem_nil
  | cons r held ih =>
    by_cases hr : hasNumber devt r = true
    · cases r with
      | node id' devt' =>
        rw [hasNumber, decide_eq_true_iff] at hr
        subst hr
        rw [List.find?_cons_of_pos (by simp), honly id' List.mem_cons_self]
      | _ => exact absurd hr (by simp)
    · rw [List.find?_cons_of_neg hr]
      refine ih ?_ fun id' hid' => honly id' (List.mem_cons_of_mem _ hid')
      rcases List.mem_cons.mp h with rfl | h
      · exact absurd hr (by simp)
      · exact h

/-- A remove and the devm release after it. -/
theorem remove_run {devt : ℕ} (hdrv : w.mem.drvdata d = some d)
    (hrecord : record d ∈ live w.past) (hbuffer : buffer d ∈ live w.past)
    (hdata : (w.mem.data d).devNum = devt) {id : ℤ}
    (hfind : (live w.past).find? (hasNumber devt) = some (node id devt)) :
    (devresRelease d (platformDrvRemove d w).2).2 = { w with
      past := [.release (record d), .release (buffer d), .release (cdev d), .access (record d),
        .release (node id devt), .access (record d)] ++ w.past
      mem := (w.mem.setDrvdata d none).setPdrv fun m =>
        { m with totalDevices := m.totalDevices - 1 } } := by
  simp [platformDrvRemove, devresRelease, hdrv, hrecord, hbuffer, hdata, deviceDestroy_bind, hfind,
    World.use]

end Ldd.Platform

import LddSandbox.Kernel.Loader
import LddSandbox.Schemes.Threads

/-! A module whose device serves any number of processes at once. The driver is a program over the
    device, which lies in the module's memory; `rmmod` waits until no process is in a call, and a
    call is made only while the module is loaded.

        boot ── load ▶ 0 ──▶ fresh ══ steps of all processes, interleaved ══▶ .. ── unload ──▶ ..
                             └──────────── session: a run of the driver ────────────┘

    Every session is a run of the driver from a fresh device (`sessions`), and every run of the
    driver is a session (`carried_out`). -/

namespace Ldd.Kernel
open Ldd.Schemes Ledger

variable {ι ρ σ δ π γ ε κ : Type}

/-- What a process does: load or unload the module, or take a step of the driver. -/
inductive Turn (σ ε γ : Type)
  | attempt (a : Attempt σ ε)
  | step (g : γ)

/-- What happened: an attempt, and whether the module is loaded after it, or a driver's step. -/
inductive Happened (κ : Type)
  | attempted (loaded : Bool)
  | stepped (e : κ)

/-- A device in the memory of a module: its driver, where it lies, and what a step of the driver
    uses. -/
structure Mounted (ι ρ σ δ π γ κ : Type) where
  driver : Program ι δ π γ κ
  get : σ → δ
  put : δ → σ → σ
  parts : List ρ

/-- The world after a step of the driver. -/
def Mounted.after (D : Mounted ι ρ σ δ π γ κ) (d : δ) (w : World ρ σ) : World ρ σ :=
  { w with past := D.parts.map .access ++ w.past, mem := D.put d w.mem }

/-- The module and its processes. -/
def Loadable.pinned (m : Loadable ρ σ ε) (D : Mounted ι ρ σ δ π γ κ) :
    Program ι (Loader ρ σ) π (Turn σ ε γ) (Happened κ) where
  next p g k pc :=
    match g with
    | .attempt a => some (m.next k a, pc, .attempted (m.next k a).loaded)
    | .step g =>
      if k.loaded then
        (D.driver.next p g (D.get k.world.mem) pc).map fun x =>
          ({ k with world := D.after x.1 k.world }, x.2.1, .stepped x.2.2)
      else none
  hear e pc :=
    match e with
    | .attempted _ => pc
    | .stepped e => D.driver.hear e pc

/-- A process outside the driver loads, and no load slips; the module is unloaded only when it is
    not in use. -/
def Orderly (rest : π) (slips : ε → Bool) (p : ι) (g : Turn σ ε γ)
    (c : Conf ι (Loader ρ σ) π) : Prop :=
  match g with
  | .attempt (.load calls freed) =>
    c.pc p = rest ∧ Loadable.Avoids slips c.shared (.load calls freed)
  | .attempt (.unload _) => ∀ r, c.pc r = rest
  | .step _ => True

/-- The steps of the session after one more event. -/
def since (tr : List (ι × κ)) : ι × Happened κ → List (ι × κ)
  | (_, .attempted false) => []
  | (_, .attempted true) => tr
  | (p, .stepped e) => tr ++ [(p, e)]

/-- The steps since the module was last not loaded. -/
def session (tr : List (ι × Happened κ)) : List (ι × κ) := tr.foldl since []

theorem session_append (tr : List (ι × Happened κ)) (x : ι × Happened κ) :
    session (tr ++ [x]) = since (session tr) x := by
  simp [session]

/-- Steps go on with a session. -/
theorem session_steps (tr : List (ι × Happened κ)) (steps : List (ι × κ)) :
    session (tr ++ steps.map fun x => (x.1, .stepped x.2)) = session tr ++ steps := by
  induction steps using List.reverseRecOn with
  | nil => simp
  | append_singleton steps x ih =>
    rw [List.map_append, ← List.append_assoc, List.map_singleton, session_append, ih,
      ← List.append_assoc]
    rfl

section Firing
variable [DecidableEq ι] {m : Loadable ρ σ ε} {D : Mounted ι ρ σ δ π γ κ}
variable {c c' : Conf ι (Loader ρ σ) π} {p : ι} {e : Happened κ}

/-- How an attempt fires. -/
theorem fire_attempt {a : Attempt σ ε}
    (hf : (m.pinned D).fire p (.attempt a) c = some (e, c')) :
    c' = ⟨m.next c.shared a, c.pc⟩ ∧ e = .attempted (m.next c.shared a).loaded := by
  simp only [Program.fire, Loadable.pinned, Option.map_some, Option.some.injEq, Prod.mk.injEq] at hf
  obtain ⟨rfl, rfl⟩ := hf
  refine ⟨?_, rfl⟩
  have hpc : (fun r => if r = p then c.pc p else c.pc r) = c.pc := by
    funext r
    split
    · rename_i hr
      rw [hr]
    · rfl
  exact congrArg (Conf.mk _) hpc

/-- How a step of the driver fires. -/
theorem fire_step (hget : ∀ d s, D.get (D.put d s) = d) {g : γ}
    (hf : (m.pinned D).fire p (.step g) c = some (e, c')) :
    c.shared.loaded = true ∧ ∃ d e', e = .stepped e' ∧
      c'.shared = { c.shared with world := D.after d c.shared.world } ∧
      D.driver.fire p g ⟨D.get c.shared.world.mem, c.pc⟩ =
        some (e', ⟨D.get c'.shared.world.mem, c'.pc⟩) := by
  simp only [Program.fire, Loadable.pinned, Option.map_eq_some_iff] at hf
  obtain ⟨⟨k', pc', e₁⟩, hnext, heq⟩ := hf
  obtain ⟨rfl, rfl⟩ := Prod.mk.inj heq
  split at hnext
  · rename_i hl
    simp only [Option.map_eq_some_iff] at hnext
    obtain ⟨⟨d, pc'', e'⟩, hd, heq⟩ := hnext
    simp only [Prod.mk.injEq] at heq
    obtain ⟨rfl, rfl, rfl⟩ := heq
    refine ⟨hl, d, e', rfl, rfl, ?_⟩
    simp only [Program.fire, hd, Option.map_some, Mounted.after, hget]
  · cases hnext

/-- An attempt can be made at any time. -/
theorem fire_of_attempt (a : Attempt σ ε) : (m.pinned D).fire p (.attempt a) c =
    some (.attempted (m.next c.shared a).loaded, ⟨m.next c.shared a, c.pc⟩) := by
  cases hf : (m.pinned D).fire p (.attempt a) c with
  | none => cases hf
  | some x =>
    obtain ⟨hc, he⟩ := fire_attempt hf
    rw [← hc, ← he]

/-- A step of the driver can be taken while the module is loaded. -/
theorem fire_of_step (hl : c.shared.loaded = true) {g : γ} {e : κ} {t : Conf ι δ π}
    (hf : D.driver.fire p g ⟨D.get c.shared.world.mem, c.pc⟩ = some (e, t)) :
    (m.pinned D).fire p (.step g) c = some
      (.stepped e, ⟨{ c.shared with world := D.after t.shared c.shared.world }, t.pc⟩) := by
  simp only [Program.fire, Option.map_eq_some_iff] at hf
  obtain ⟨x, hx, heq⟩ := hf
  obtain ⟨rfl, rfl⟩ := Prod.mk.inj heq
  simp only [Program.fire, Loadable.pinned, hl, if_true, hx, Option.map_some]

/-- Every run of the driver goes on in a module whose device is fresh and not in use. -/
theorem carried_out {slips : ε → Bool} {fresh : δ} {rest : π} (hget : ∀ d s, D.get (D.put d s) = d)
    {k : Loader ρ σ} (hl : k.loaded = true) (hfresh : D.get k.world.mem = fresh)
    {steps : List (ι × κ)} {t : Conf ι δ π}
    (hrun : D.driver.Run anyStep ⟨fresh, fun _ => rest⟩ steps t) :
    ∃ c, (m.pinned D).Run (Orderly rest slips) ⟨k, fun _ => rest⟩
        (steps.map fun x => (x.1, .stepped x.2)) c ∧
      c.shared.loaded = true ∧ D.get c.shared.world.mem = t.shared ∧ c.pc = t.pc := by
  induction hrun with
  | start => exact ⟨_, .start, hl, hfresh, rfl⟩
  | @step steps t p g e t' _ _ hf ih =>
    obtain ⟨c, hrun, hloaded, hmem, hpc⟩ := ih
    have hat : (⟨D.get c.shared.world.mem, c.pc⟩ : Conf ι δ π) = t := by rw [hmem, hpc]
    have hfire := fire_of_step (m := m) hloaded (hat ▸ hf)
    refine ⟨⟨{ c.shared with world := D.after t'.shared c.shared.world }, t'.pc⟩, ?_, hloaded,
      hget _ _, rfl⟩
    have hok : Orderly rest slips p (.step g : Turn σ ε γ) c := trivial
    have hstep := hrun.step hok hfire
    simpa only [List.map_append, List.map_singleton] using hstep

end Firing

section Accesses
variable [DecidableEq ρ] {needs : ρ → ρ → Bool}

theorem live_accesses (parts : List ρ) (past : List (Use ρ)) :
    live (parts.map .access ++ past) = live past := by
  induction parts with
  | nil => rfl
  | cons r parts ih => exact ih

theorem sound_accesses {parts : List ρ} {past : List (Use ρ)} (h : Sound needs past)
    (hparts : ∀ r ∈ parts, r ∈ live past) : Sound needs (parts.map .access ++ past) := by
  induction parts with
  | nil => exact h
  | cons r parts ih =>
    refine ⟨?_, ih fun x hx => hparts x (List.mem_cons_of_mem _ hx)⟩
    show r ∈ live (parts.map .access ++ past)
    rw [live_accesses]
    exact hparts r List.mem_cons_self

end Accesses

variable [DecidableEq ρ]

/-- A module that unwinds, and makes its device afresh. -/
structure Mounts (m : Loadable ρ σ ε) (slips : ε → Bool) (held : World ρ σ → Prop)
    (D : Mounted ι ρ σ δ π γ κ) (fresh : δ) : Prop where
  unwinds : m.Unwinds slips held
  fresh : ∀ calls w, live w.past = [] → Sound m.needs w.past → m.fails calls = false →
    D.get (m.init calls w).2.mem = fresh
  parts : ∀ w, held w → ∀ r ∈ D.parts, r ∈ live w.past
  after : ∀ w d, held w → held (D.after d w)
  get_put : ∀ d s, D.get (D.put d s) = d

namespace Mounts
open Loadable

variable {m : Loadable ρ σ ε} {slips : ε → Bool} {held : World ρ σ → Prop}
variable {D : Mounted ι ρ σ δ π γ κ} {fresh : δ} {rest : π}

section
variable {k : Loader ρ σ} {calls : ε} {freed : σ}

/-- A load that leaves the module loaded has made the device afresh. -/
theorem fresh_load (h : Mounts m slips held D fresh) (hb : Between m held k)
    (hk : k.loaded = false) (hs : slips calls = false)
    (hl : (m.next k (.load calls freed)).loaded = true) :
    D.get (m.next k (.load calls freed)).world.mem = fresh := by
  have hidle : live ({ k.world with freed := freed } : World ρ σ).past = [] := hb.idle hk
  rw [next, attempt_load hk] at hl ⊢
  cases hf : m.fails calls with
  | false => exact h.fresh calls _ hidle hb.sound hf
  | true =>
    obtain ⟨⟨e, hret⟩, -⟩ := h.unwinds.rolls_back calls _ hidle hb.sound hf hs
    have hneg : decide (0 ≤ -e.1) = true := hret ▸ hl
    exact absurd (of_decide_eq_true hneg) (Int.not_le.mpr e.neg)

/-- A load whose calls succeed leaves the module loaded. -/
theorem loaded_load (h : Mounts m slips held D fresh) (hb : Between m held k)
    (hk : k.loaded = false) (hf : m.fails calls = false) :
    (m.next k (.load calls freed)).loaded = true := by
  have hidle : live ({ k.world with freed := freed } : World ρ σ).past = [] := hb.idle hk
  have hret := (h.unwinds.loads calls _ hidle hb.sound hf).1
  rw [next, attempt_load hk]
  exact decide_eq_true (hret ▸ Int.le_refl 0)

theorem between_after (h : Mounts m slips held D fresh) (hb : Between m held k)
    (hk : k.loaded = true) (d : δ) :
    Between m held { k with world := D.after d k.world } where
  sound := sound_accesses hb.sound (h.parts _ (hb.held hk))
  held _ := h.after _ d (hb.held hk)
  idle hf := absurd (hk.symm.trans hf) (by decide)

end

variable [DecidableEq ι]

/-- What holds in every orderly run. -/
structure InSession (m : Loadable ρ σ ε) (held : World ρ σ → Prop) (D : Mounted ι ρ σ δ π γ κ)
    (fresh : δ) (rest : π) (tr : List (ι × Happened κ)) (c : Conf ι (Loader ρ σ) π) : Prop where
  between : Between m held c.shared
  idle : c.shared.loaded = false → (∀ r, c.pc r = rest) ∧ session tr = []
  run : c.shared.loaded = true →
    D.driver.Run anyStep ⟨fresh, fun _ => rest⟩ (session tr) ⟨D.get c.shared.world.mem, c.pc⟩

variable {tr : List (ι × Happened κ)} {c c' : Conf ι (Loader ρ σ) π} {p : ι} {e : Happened κ}

theorem inSession_start (mem : σ) :
    InSession m held D fresh rest [] (⟨.boot mem, fun _ => rest⟩ : Conf ι (Loader ρ σ) π) where
  between := between_boot mem
  idle _ := ⟨fun _ => rfl, rfl⟩
  run h := by cases h

/-- An attempt: a session begins with a load that succeeds, and ends with an unload. -/
theorem InSession.attempt (h : Mounts m slips held D fresh)
    (hI : InSession m held D fresh rest tr c) {a : Attempt σ ε}
    (hok : Orderly rest slips p (.attempt a : Turn σ ε γ) c) :
    InSession m held D fresh rest
      (tr ++ [(p, .attempted (m.next c.shared a).loaded)]) ⟨m.next c.shared a, c.pc⟩ := by
  have hstay : m.next c.shared a = c.shared → InSession m held D fresh rest
      (tr ++ [(p, .attempted (m.next c.shared a).loaded)]) ⟨m.next c.shared a, c.pc⟩ := by
    intro hsame
    rw [hsame]
    have hsession : session (tr ++ [(p, .attempted c.shared.loaded)]) = session tr := by
      rw [session_append]
      cases hl : c.shared.loaded with
      | false => exact (hI.idle hl).2.symm
      | true => rfl
    exact ⟨hI.between, fun hl => ⟨(hI.idle hl).1, hsession.trans (hI.idle hl).2⟩,
      fun hl => hsession ▸ hI.run hl⟩
  cases a with
  | load calls freed =>
    cases hl : c.shared.loaded with
    | true => exact hstay (congrArg Prod.fst (attempt_idle_load hl calls freed))
    | false =>
      have hs := hok.2 calls freed rfl hl
      obtain ⟨-, hbetween⟩ := clean_load h.unwinds hI.between hl hs freed
      obtain ⟨hrest, hnone⟩ := hI.idle hl
      have hpc : c.pc = fun _ => rest := funext hrest
      refine ⟨hbetween, fun hl' => ⟨hrest, ?_⟩, fun hl' => ?_⟩
      · have hl' : (m.next c.shared (.load calls freed)).loaded = false := hl'
        rw [session_append, hl']
        rfl
      · have hl' : (m.next c.shared (.load calls freed)).loaded = true := hl'
        rw [session_append, hl', hnone, hpc, h.fresh_load hI.between hl hs hl']
        exact .start
  | unload freed =>
    cases hl : c.shared.loaded with
    | false => exact hstay (congrArg Prod.fst (attempt_idle_unload hl freed))
    | true =>
      obtain ⟨-, hbetween⟩ := clean_unload h.unwinds hI.between hl freed
      have hgone : (m.next c.shared (.unload freed)).loaded = false :=
        congrArg (fun r => r.1.loaded) (attempt_unload hl freed)
      refine ⟨hbetween, fun _ => ⟨hok, ?_⟩, fun hl' => ?_⟩
      · rw [session_append, hgone]
        rfl
      · exact absurd (hgone.symm.trans hl') (by decide)

/-- A step of the driver goes on with the session. -/
theorem InSession.step (h : Mounts m slips held D fresh)
    (hI : InSession m held D fresh rest tr c) {g : γ}
    (hf : (m.pinned D).fire p (.step g) c = some (e, c')) :
    InSession m held D fresh rest (tr ++ [(p, e)]) c' := by
  obtain ⟨hl, d, e', rfl, hshared, hfire⟩ := fire_step h.get_put hf
  have hl' : c'.shared.loaded = true := by
    rw [hshared]
    exact hl
  refine ⟨hshared ▸ h.between_after hI.between hl d, fun hf' => ?_, fun _ => ?_⟩
  · exact absurd (hl'.symm.trans hf') (by decide)
  · rw [session_append]
    exact (hI.run hl).step trivial hfire

/-- In every orderly run, whatever is loaded, unloaded and called by whom, the session is a run of
    the driver from a fresh device, and nothing runs when the module is not loaded. -/
theorem sessions (h : Mounts m slips held D fresh) {mem : σ}
    (hrun : (m.pinned D).Run (Orderly rest slips) ⟨.boot mem, fun _ => rest⟩ tr c) :
    InSession m held D fresh rest tr c := by
  refine hrun.history (I := InSession m held D fresh rest) (inSession_start mem) ?_
  intro tr p g c e c' hI hok hf
  cases g with
  | attempt a =>
    obtain ⟨rfl, rfl⟩ := fire_attempt hf
    exact hI.attempt h hok
  | step g => exact hI.step h hf

/-- Every run of the driver is a session: a process loads the module, and the processes do what they
    do in the run. -/
theorem is_session (h : Mounts m slips held D fresh) {calls : ε} (hs : slips calls = false)
    (hf : m.fails calls = false) (p : ι) (mem freed : σ) {steps : List (ι × κ)} {t : Conf ι δ π}
    (hrun : D.driver.Run anyStep ⟨fresh, fun _ => rest⟩ steps t) :
    ∃ tr c, (m.pinned D).Run (Orderly rest slips) ⟨.boot mem, fun _ => rest⟩ tr c ∧
      c.shared.loaded = true ∧ session tr = steps ∧ D.get c.shared.world.mem = t.shared ∧
      c.pc = t.pc := by
  have hb : Between m held (.boot mem) := between_boot mem
  have hl : (m.next (.boot mem) (.load calls freed)).loaded = true := h.loaded_load hb rfl hf
  have hfresh := h.fresh_load hb rfl hs hl
  have hok : Orderly rest slips p (.attempt (.load calls freed) : Turn σ ε γ)
      (⟨.boot mem, fun _ => rest⟩ : Conf ι (Loader ρ σ) π) :=
    ⟨rfl, fun _ _ heq _ => by cases heq; exact hs⟩
  have hload := Program.Run.start.step hok (fire_of_attempt (m := m) (D := D) _)
  obtain ⟨c, hsteps, hloaded, hmem, hpc⟩ := carried_out h.get_put hl hfresh hrun
  refine ⟨_, c, hload.trans hsteps, hloaded, ?_, hmem, hpc⟩
  rw [session_steps, hl]
  rfl

end Mounts

end Ldd.Kernel

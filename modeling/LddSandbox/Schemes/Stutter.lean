import LddSandbox.Schemes.Threads

/-! Simulation of one program by another, up to the events that are shown.

        P:   c ─(p, e)─▶ c'                        I c, ok p g c
             │f          │f
        Q:   f c ──▶ ∙∙∙ ──▶ f c'                  no step, one or several, shown as (p, e) is

    `Simulates.run` carries one step to every run: the shared state is the same, each thread stands
    at the point that `f` gives, and the same events are shown in the same order. -/

namespace Ldd.Schemes

variable {ι σ π π' γ γ' ε ε' ν : Type*}

/-- The events of a run that are shown, and as what. -/
def shown (see : ε → Option ν) (tr : List (ι × ε)) : List (ι × ν) :=
  tr.filterMap fun x => (see x.2).map (Prod.mk x.1)

section Shown
variable (see : ε → Option ν)

@[simp] theorem shown_nil : shown see ([] : List (ι × ε)) = [] := rfl

@[simp] theorem shown_append (tr tr' : List (ι × ε)) :
    shown see (tr ++ tr') = shown see tr ++ shown see tr' := List.filterMap_append ..

@[simp] theorem shown_cons (p : ι) (e : ε) (tr : List (ι × ε)) :
    shown see ((p, e) :: tr) = ((see e).map (Prod.mk p)).toList ++ shown see tr := by
  cases h : see e <;> simp [shown, h]

end Shown

/-- The configuration with every control point replaced. -/
def Conf.via (f : π → π') (c : Conf ι σ π) : Conf ι σ π' := ⟨c.shared, fun r => f (c.pc r)⟩

@[simp] theorem Conf.via_shared (f : π → π') (c : Conf ι σ π) : (c.via f).shared = c.shared := rfl

@[simp] theorem Conf.via_pc (f : π → π') (c : Conf ι σ π) (r : ι) :
    (c.via f).pc r = f (c.pc r) := rfl

variable [DecidableEq ι] {P : Program ι σ π γ ε} {Q : Program ι σ π' γ' ε'}
variable {ok : ι → γ → Conf ι σ π → Prop} {ok' : ι → γ' → Conf ι σ π' → Prop}

/-- Each step of `P` from a configuration with `I` is a run of `Q`, shown alike. -/
structure Simulates (P : Program ι σ π γ ε) (ok : ι → γ → Conf ι σ π → Prop)
    (Q : Program ι σ π' γ' ε') (ok' : ι → γ' → Conf ι σ π' → Prop) (I : π → Prop) (f : π → π')
    (see : ε → Option ν) (see' : ε' → Option ν) : Prop where
  next : ∀ {p g c s' k' e}, (∀ r, I (c.pc r)) → ok p g c →
    P.next p g c.shared (c.pc p) = some (s', k', e) → I k'
  hear : ∀ {e k}, I k → I (P.hear e k)
  step : ∀ {p g c e c'}, (∀ r, I (c.pc r)) → ok p g c → P.fire p g c = some (e, c') →
    ∃ tr, Q.Run ok' (c.via f) tr (c'.via f) ∧ shown see' tr = shown see [(p, e)]

namespace Simulates

variable {I : π → Prop} {f : π → π'} {see : ε → Option ν} {see' : ε' → Option ν}
variable {p : ι} {g : γ} {g' : γ'} {c c' c₀ : Conf ι σ π} {s' : σ} {k' : π} {e : ε} {e' : ε'}
variable {tr : List (ι × ε)}

/-- A step matched by one step. -/
theorem fire (hf : P.fire p g c = some (e, c'))
    (hn : Q.next p g' c.shared (f (c.pc p)) = some (c'.shared, f (c'.pc p), e'))
    (hear : ∀ k, f (P.hear e k) = Q.hear e' (f k)) :
    Q.fire p g' (c.via f) = some (e', c'.via f) := by
  obtain ⟨-, hothers⟩ := Program.fire_spec hf
  simp only [Program.fire, Conf.via, hn, Option.map_some, Option.some.injEq, Prod.mk.injEq,
    Conf.mk.injEq, true_and]
  funext r
  split
  · rename_i hr
    rw [hr]
  · rename_i hr
    rw [hothers r hr, hear]

/-- A step matched by no step. -/
theorem stay (hf : P.fire p g c = some (e, c')) (hs : c'.shared = c.shared)
    (hp : f (c'.pc p) = f (c.pc p)) (hear : ∀ k, f (P.hear e k) = f k) : c'.via f = c.via f := by
  obtain ⟨-, hothers⟩ := Program.fire_spec hf
  simp only [Conf.via, hs, Conf.mk.injEq, true_and]
  funext r
  rcases eq_or_ne r p with rfl | hr
  · exact hp
  · rw [hothers r hr, hear]

/-- The invariant of the control points. -/
theorem all (S : Simulates P ok Q ok' I f see see') (hrun : P.Run ok c₀ tr c)
    (h0 : ∀ r, I (c₀.pc r)) (r : ι) : I (c.pc r) := by
  refine hrun.everywhere (L := fun _ k => I k) h0 ?_ r
  intro p g c s' k' e hall hok hn
  exact ⟨S.next hall hok hn, fun r _ => S.hear (hall r)⟩

/-- SIMULATION: every run of `P` is a run of `Q`, shown alike. -/
theorem run (S : Simulates P ok Q ok' I f see see') (hrun : P.Run ok c₀ tr c)
    (h0 : ∀ r, I (c₀.pc r)) :
    ∃ tr', Q.Run ok' (c₀.via f) tr' (c.via f) ∧ shown see' tr' = shown see tr := by
  induction hrun with
  | start => exact ⟨[], .start, rfl⟩
  | step hpre hok hf ih =>
    obtain ⟨tr₁, hrun₁, hshow₁⟩ := ih
    obtain ⟨tr₂, hrun₂, hshow₂⟩ := S.step (S.all hpre h0) hok hf
    refine ⟨tr₁ ++ tr₂, hrun₁.trans hrun₂, ?_⟩
    rw [shown_append, shown_append, hshow₁, hshow₂]

end Simulates

/-! ### Notes

A thread may note what it sees of its own steps; the steps themselves do not depend on the notes,
but the environment's choices may. -/

/-- The program whose threads keep a note, renewed at each of their own steps. -/
def Program.noting (P : Program ι σ π γ ε) (note : π → π → ν → ν) : Program ι σ (π × ν) γ ε where
  next p g s k := (P.next p g s k.1).map fun x => (x.1, (x.2.1, note k.1 x.2.1 k.2), x.2.2)
  hear e k := (P.hear e k.1, k.2)

section Noting
variable {note : π → π → ν → ν} {ok : ι → γ → Conf ι σ (π × ν) → Prop}
variable {c₀ c c' : Conf ι σ (π × ν)} {tr : List (ι × ε)} {p : ι} {g : γ} {e : ε}

/-- A step with notes is a step, and notes it. -/
theorem noting_spec (hf : (P.noting note).fire p g c = some (e, c')) :
    P.next p g c.shared (c.pc p).1 = some (c'.shared, (c'.pc p).1, e) ∧
      (c'.pc p).2 = note (c.pc p).1 (c'.pc p).1 (c.pc p).2 ∧
      ∀ r, r ≠ p → c'.pc r = (P.hear e (c.pc r).1, (c.pc r).2) := by
  obtain ⟨hn, hothers⟩ := Program.fire_spec hf
  obtain ⟨⟨s', k', e'⟩, hnext, heq⟩ := Option.map_eq_some_iff.mp hn
  simp only [Prod.mk.injEq] at heq
  obtain ⟨rfl, hk, rfl⟩ := heq
  rw [← hk]
  exact ⟨hnext, rfl, hothers⟩

/-- Without its notes a run is a run. -/
theorem noting_run (hrun : (P.noting note).Run ok c₀ tr c) :
    P.Run anyStep (c₀.via Prod.fst) tr (c.via Prod.fst) := by
  induction hrun with
  | start => exact .start
  | step _ _ hf ih =>
    obtain ⟨hn, -⟩ := noting_spec hf
    exact ih.step trivial (Simulates.fire hf hn fun _ => rfl)

end Noting

end Ldd.Schemes

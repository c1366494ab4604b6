import LddSandbox.Schemes.Machine
import LddSandbox.Schemes.Threads

/-! Commit scheme: a program whose threads act on a part of the shared state in single steps.

        threads:    ──call──▶ ∙ ──▶ ∙ ══commit (a, b)══▶ ∙ ──▶
        machine:    view s  ────────── a / b ──────────▶ view s'

    A step commits when it does what the machine does to the view, and answers as the machine
    answers; every other step leaves the view alone. Then the commits of any interleaving, in their
    order, are a run of the machine (`Run.linear`). -/

namespace Ldd.Schemes

variable {ι σ π γ ε τ α β : Type*}

/-- The commits of a run, in order. -/
def commits (commit : ε → Option (α × β)) (tr : List (ι × ε)) : List (α × β) :=
  tr.filterMap fun x => commit x.2

/-- What a step does to the view, by whether it commits. -/
def Commits (M : Machine τ α β) (t t' : τ) : Option (α × β) → Prop
  | none => t' = t
  | some (a, b) => M t a = (t', b)

section
variable {commit : ε → Option (α × β)} (p : ι) {e : ε} (tr : List (ι × ε))

theorem commits_none (h : commit e = none) : commits commit (tr ++ [(p, e)]) = commits commit tr := by
  simp [commits, h]

theorem commits_some {x : α × β} (h : commit e = some x) :
    commits commit (tr ++ [(p, e)]) = commits commit tr ++ [x] := by
  simp [commits, h]

/-- One more step, by whether it commits. -/
theorem Commits.append {M : Machine τ α β} {m₀ m m' : τ} {tr : List (ι × ε)}
    (hlin : M.run m₀ ((commits commit tr).map Prod.fst) =
      (m, (commits commit tr).map Prod.snd)) (h : Commits M m m' (commit e)) :
    M.run m₀ ((commits commit (tr ++ [(p, e)])).map Prod.fst) =
      (m', (commits commit (tr ++ [(p, e)])).map Prod.snd) := by
  cases hc : commit e with
  | none =>
    rw [hc] at h
    have hm : m' = m := h
    rw [commits_none p tr hc, hlin, hm]
  | some x =>
    rw [hc] at h
    have hm : M m x.1 = (m', x.2) := h
    rw [commits_some p tr hc, List.map_append, List.map_append, Machine.run_append, hlin]
    simp only [List.map_cons, List.map_nil, Machine.run_cons, Machine.run_nil, hm]

end

variable [DecidableEq ι] {P : Program ι σ π γ ε} {ok : ι → γ → Conf ι σ π → Prop}
variable {c₀ c : Conf ι σ π} {tr : List (ι × ε)} {M : Machine τ α β}

/-- The commits of a run, executed one by one, end in the view of its end with their answers. -/
theorem Program.Run.linear (view : σ → τ) (commit : ε → Option (α × β)) {L : π → Prop}
    (hrun : P.Run ok c₀ tr c) (h0 : ∀ r, L (c₀.pc r))
    (hstep : ∀ p g s k s' k' e, L k → P.next p g s k = some (s', k', e) →
      L k' ∧ Commits M (view s) (view s') (commit e))
    (hhear : ∀ e k, L k → L (P.hear e k)) :
    M.run (view c₀.shared) ((commits commit tr).map Prod.fst) =
      (view c.shared, (commits commit tr).map Prod.snd) := by
  have hall : (∀ r, L (c.pc r)) ∧ M.run (view c₀.shared) ((commits commit tr).map Prod.fst) =
      (view c.shared, (commits commit tr).map Prod.snd) := by
    refine hrun.history (I := fun tr c => (∀ r, L (c.pc r)) ∧
      M.run (view c₀.shared) ((commits commit tr).map Prod.fst) =
        (view c.shared, (commits commit tr).map Prod.snd)) ⟨h0, rfl⟩ ?_
    rintro tr p g c e c' ⟨hpcs, hlin⟩ _ hf
    obtain ⟨hn, hothers⟩ := Program.fire_spec hf
    obtain ⟨hown, hcommit⟩ := hstep p g _ _ _ _ e (hpcs p) hn
    refine ⟨fun r => ?_, ?_⟩
    · rcases eq_or_ne r p with rfl | hr
      · exact hown
      · rw [hothers r hr]
        exact hhear e _ (hpcs r)
    · exact hcommit.append p hlin
  exact hall.2

end Ldd.Schemes

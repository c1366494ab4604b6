import LddSandbox.Schemes.Threads
import Mathlib.Tactic.Linarith

/-! Debt scheme: finitely many threads that disturb each other only so often. A thread owes a number
    of loud steps, and until its next loud step it has a number of quiet steps left.

        quiet:   owes the same or less, left ↓, and nobody else has more left
        loud:    owes ↓, and everybody has up to `M` left again

    Each loud step gives back at most `M` quiet steps to every thread, so that all the threads
    together take at most (Σ owes) · (n · M + 1) + Σ left steps (`Debts.spent`), and come to a point
    where none can step (`Debts.stops`). -/

namespace Ldd.Schemes

variable {ι σ π γ ε : Type*} [DecidableEq ι]

/-- What the steps of a program that meet `ok` owe and leave. -/
structure Debts (P : Program ι σ π γ ε) (ok : ι → γ → Conf ι σ π → Prop) (owes : π → ℕ)
    (left : σ → π → ℕ) (M : ℕ) : Prop where
  bound : ∀ s k, left s k ≤ M
  step : ∀ {p g c s' k' e}, ok p g c → P.next p g c.shared (c.pc p) = some (s', k', e) →
    owes k' < owes (c.pc p) ∨ owes k' ≤ owes (c.pc p) ∧ left s' k' < left c.shared (c.pc p) ∧
      ∀ k, left s' (P.hear e k) ≤ left c.shared k
  hear : ∀ e k, owes (P.hear e k) ≤ owes k

namespace Debts

/-- The steps that all the threads together can take. -/
def total [Fintype ι] (owes : π → ℕ) (left : σ → π → ℕ) (M : ℕ) (c : Conf ι σ π) : ℕ :=
  (∑ r, owes (c.pc r)) * (Fintype.card ι * M + 1) + ∑ r, left c.shared (c.pc r)

variable {P : Program ι σ π γ ε} {ok : ι → γ → Conf ι σ π → Prop} {owes : π → ℕ}
variable {left : σ → π → ℕ} {M : ℕ} {c₀ c c' : Conf ι σ π} {tr : List (ι × ε)}
variable {p : ι} {g : γ} {e : ε} [Fintype ι]

omit [DecidableEq ι] in
theorem left_le (D : Debts P ok owes left M) (c : Conf ι σ π) :
    ∑ r, left c.shared (c.pc r) ≤ Fintype.card ι * M := by
  have hsum := Finset.sum_le_card_nsmul Finset.univ (fun r => left c.shared (c.pc r)) M
    fun r _ => D.bound c.shared (c.pc r)
  simpa using hsum

omit [DecidableEq ι] [Fintype ι] in
theorem mono (D : Debts P ok owes left M) {ok' : ι → γ → Conf ι σ π → Prop}
    (hok : ∀ p g c, ok' p g c → ok p g c) : Debts P ok' owes left M :=
  ⟨D.bound, fun hp hn => D.step (hok _ _ _ hp) hn, D.hear⟩

/-- A step costs one. -/
theorem total_step (D : Debts P ok owes left M) (hok : ok p g c)
    (hf : P.fire p g c = some (e, c')) : total owes left M c' < total owes left M c := by
  obtain ⟨hn, hothers⟩ := Program.fire_spec hf
  have howes : ∀ r, r ≠ p → owes (c'.pc r) ≤ owes (c.pc r) := by
    intro r hr
    rw [hothers r hr]
    exact D.hear e _
  rcases D.step hok hn with hless | ⟨hle, hleft, hquiet⟩
  · -- a loud step pays for all the quiet ones it gives back
    have hsum : ∑ r, owes (c'.pc r) < ∑ r, owes (c.pc r) := by
      refine Finset.sum_lt_sum (fun r _ => ?_) ⟨p, Finset.mem_univ p, hless⟩
      rcases eq_or_ne r p with rfl | hr
      · exact hless.le
      · exact howes r hr
    have hback := D.left_le c'
    have hpaid : (∑ r, owes (c'.pc r) + 1) * (Fintype.card ι * M + 1) ≤
        (∑ r, owes (c.pc r)) * (Fintype.card ι * M + 1) := Nat.mul_le_mul_right _ hsum
    rw [Nat.add_mul, Nat.one_mul] at hpaid
    unfold total
    omega
  · have hsum : ∑ r, owes (c'.pc r) ≤ ∑ r, owes (c.pc r) := by
      refine Finset.sum_le_sum fun r _ => ?_
      rcases eq_or_ne r p with rfl | hr
      · exact hle
      · exact howes r hr
    have hfewer : ∑ r, left c'.shared (c'.pc r) < ∑ r, left c.shared (c.pc r) := by
      refine Finset.sum_lt_sum (fun r _ => ?_) ⟨p, Finset.mem_univ p, hleft⟩
      rcases eq_or_ne r p with rfl | hr
      · exact hleft.le
      · rw [hothers r hr]
        exact hquiet _
    have hkept := Nat.mul_le_mul_right (Fintype.card ι * M + 1) hsum
    unfold total
    omega

/-- The steps of a run are paid for. -/
theorem spent (D : Debts P ok owes left M) (hrun : P.Run ok c₀ tr c) :
    tr.length + total owes left M c ≤ total owes left M c₀ := by
  induction hrun with
  | start => exact (Nat.zero_add _).le
  | step _ hok hf ih =>
    have hcost := D.total_step hok hf
    rw [List.length_append, List.length_singleton]
    omega

/-- The bound, when no thread owes more than `K`. -/
theorem spent_le (D : Debts P ok owes left M) {K : ℕ} (hK : ∀ k, owes k ≤ K)
    (hrun : P.Run ok c₀ tr c) :
    tr.length ≤ Fintype.card ι * K * (Fintype.card ι * M + 1) + Fintype.card ι * M := by
  have hspent := D.spent hrun
  have hleft := D.left_le c₀
  have hsum := Finset.sum_le_card_nsmul Finset.univ (fun r => owes (c₀.pc r)) K fun r _ => hK _
  rw [Finset.card_univ, nsmul_eq_mul, Nat.cast_id] at hsum
  have howed := Nat.mul_le_mul_right (Fintype.card ι * M + 1) hsum
  unfold total at hspent
  omega

/-- Every run goes on to a point where no thread can step. -/
theorem stops (D : Debts P ok owes left M) (c₀ : Conf ι σ π) :
    ∃ tr c, P.Run ok c₀ tr c ∧ ∀ p g, ok p g c → P.fire p g c = none := by
  induction htotal : total owes left M c₀ using Nat.strong_induction_on generalizing c₀ with
  | _ n ih =>
    by_cases hstuck : ∀ p g, ok p g c₀ → P.fire p g c₀ = none
    · exact ⟨[], c₀, .start, hstuck⟩
    · simp only [not_forall, exists_prop] at hstuck
      obtain ⟨p, g, hok, hne⟩ := hstuck
      obtain ⟨⟨e, c₁⟩, hf⟩ := Option.ne_none_iff_exists'.mp hne
      have hless := D.total_step hok hf
      rw [htotal] at hless
      obtain ⟨tr, c, hrun, hstop⟩ := ih _ hless c₁ rfl
      have hfirst : P.Run ok c₀ [(p, e)] c₁ := Program.Run.step .start hok hf
      exact ⟨_, c, hfirst.trans hrun, hstop⟩

end Debts

end Ldd.Schemes

import LddSandbox.Schemes.Threads

/-! Critical sections: what a thread does between taking a lock and giving it up.

        c ─(p takes the lock)─▶ ∙ ──▶ ∙ ──▶ .. ──▶ ∙ ─(p gives it up, showing e)─▶ c'
                                 steps of p; the others step beside the state

    `Inside.carries` follows the shared state through the section by the steps of `p` alone;
    `Inside.ends` says that a thread which can always step, each time nearer to the end, ends it;
    `solo` executes the section of a thread that runs by itself. -/

namespace Ldd.Schemes

variable {ι σ π γ ε : Type*} [DecidableEq ι]

/-- Thread `p` took the lock in `c` and has had it since, by steps that all meet `ok`. -/
inductive Inside (P : Program ι σ π γ ε) (ok : ι → γ → Conf ι σ π → Prop) (lock : σ → Option ι)
    (p : ι) (c : Conf ι σ π) : List (ι × ε) → Conf ι σ π → Prop
  | take {g : γ} {e : ε} {c' : Conf ι σ π} : lock c.shared = none → ok p g c →
      P.fire p g c = some (e, c') → lock c'.shared = some p → Inside P ok lock p c [(p, e)] c'
  | step {tr : List (ι × ε)} {c₁ : Conf ι σ π} {q : ι} {g : γ} {e : ε} {c' : Conf ι σ π} :
      Inside P ok lock p c tr c₁ → ok q g c₁ → P.fire q g c₁ = some (e, c') →
      lock c'.shared = some p → Inside P ok lock p c (tr ++ [(q, e)]) c'

/-- A critical section of `p`: it takes the lock in `c`, and gives it up with the event `e`, which
    leaves `c'`. -/
def CriticalSection (P : Program ι σ π γ ε) (ok : ι → γ → Conf ι σ π → Prop)
    (lock : σ → Option ι) (p : ι) (c : Conf ι σ π) (e : ε) (c' : Conf ι σ π) : Prop :=
  ∃ tr c₁ g, Inside P ok lock p c tr c₁ ∧ ok p g c₁ ∧ P.fire p g c₁ = some (e, c') ∧
    lock c'.shared = none

variable {P : Program ι σ π γ ε} {ok : ι → γ → Conf ι σ π → Prop} {lock : σ → Option ι}
variable {holds : π → Bool} {p : ι} {c c₁ : Conf ι σ π} {tr : List (ι × ε)}

namespace Inside

theorem free (h : Inside P ok lock p c tr c₁) : lock c.shared = none := by
  induction h with
  | take hl _ _ _ => exact hl
  | step _ _ _ _ ih => exact ih

theorem locked (h : Inside P ok lock p c tr c₁) : lock c₁.shared = some p := by
  cases h with
  | take _ _ _ hl => exact hl
  | step _ _ _ hl => exact hl

theorem run (h : Inside P ok lock p c tr c₁) : P.Run ok c tr c₁ := by
  induction h with
  | take _ hok hf _ => exact .step .start hok hf
  | step _ hok hf _ ih => exact ih.step hok hf

/-- Beside a held lock a thread without it leaves the state alone. -/
theorem beside (M : Mutex P lock holds) {q : ι} {g : γ} {s s' : σ} {k k' : π} {e : ε}
    (hn : P.next q g s k = some (s', k', e)) (hk : holds k = false) (hl : lock s = some p) :
    s' = s := by
  have hmove := M.move hn
  rw [hk] at hmove
  generalize holds k' = b at hmove
  cases hmove with
  | aside => rfl
  | acquire hfree _ => rw [hl] at hfree; cases hfree

/-- What `p` has of the state once it has taken the lock, its own steps carry along to every point
    of the section. -/
theorem carries (M : Mutex P lock holds) {B : π → σ → Prop} (h : Inside P ok lock p c tr c₁)
    (hex : ∀ r, holds (c.pc r) = true ↔ lock c.shared = some r)
    (htake : ∀ g s' k' e, ok p g c → P.next p g c.shared (c.pc p) = some (s', k', e) →
      holds k' = true → B k' s')
    (hstep : ∀ g c s' k' e, ok p g c → P.next p g c.shared (c.pc p) = some (s', k', e) →
      holds (c.pc p) = true → holds k' = true → B (c.pc p) c.shared → B k' s')
    (hhear : ∀ e k s, B k s → B (P.hear e k) s) : B (c₁.pc p) c₁.shared := by
  induction h with
  | take hl hok hf hl' =>
    have hheld := (M.exclusive_from ((Inside.take hl hok hf hl').run) hex p).mpr hl'
    exact htake _ _ _ _ hok (Program.fire_spec hf).1 hheld
  | @step tr c₁ q g e c' h hok hf hl' ih =>
    obtain ⟨hn, hothers⟩ := Program.fire_spec hf
    have hbefore := M.exclusive_from h.run hex
    by_cases hq : q = p
    · subst hq
      have hafter := (M.exclusive_from (h.step hok hf hl').run hex q).mpr hl'
      exact hstep _ _ _ _ _ hok hn ((hbefore q).mpr h.locked) hafter ih
    · have hout : holds (c₁.pc q) = false := by
        rw [Bool.eq_false_iff, ne_eq, hbefore q, h.locked]
        exact fun heq => hq (Option.some.inj heq).symm
      rw [beside M hn hout h.locked, hothers p (Ne.symm hq)]
      exact hhear _ _ _ ih

/-- A thread that can take its next step wherever it has the lock, each one nearer to the end,
    gives the lock up. -/
theorem ends (M : Mutex P lock holds) {g : γ} {rank : π → ℕ} (h : Inside P ok lock p c tr c₁)
    (hex : ∀ r, holds (c.pc r) = true ↔ lock c.shared = some r) (hok : ∀ c, ok p g c)
    (hnext : ∀ s k, holds k = true → ∃ s' k' e, P.next p g s k = some (s', k', e) ∧
      (holds k' = true → rank k' < rank k)) : ∃ e c', CriticalSection P ok lock p c e c' := by
  induction hr : rank (c₁.pc p) using Nat.strong_induction_on generalizing c₁ tr with
  | _ n ih =>
    have hheld := (M.exclusive_from h.run hex p).mpr h.locked
    obtain ⟨s', k', e, hn, hless⟩ := hnext c₁.shared (c₁.pc p) hheld
    have hf : P.fire p g c₁ = some (e, ⟨s', fun r => if r = p then k' else P.hear e (c₁.pc r)⟩) := by
      rw [Program.fire, hn]
      rfl
    have hmove := M.move hn
    rw [hheld] at hmove
    cases hk : holds k' with
    | true =>
      rw [hk] at hmove
      have hl : lock s' = some p := by
        cases hmove with
        | keep hl => rw [hl]; exact h.locked
      refine ih _ ?_ (h.step (hok _) hf hl) rfl
      simp only [if_pos]
      have := hless hk
      omega
    | false =>
      rw [hk] at hmove
      have hl : lock s' = none := by
        cases hmove with
        | release hl => exact hl
      exact ⟨e, _, tr, c₁, g, h, hok _, hf, hl⟩

end Inside

theorem CriticalSection.free {e : ε} {c' : Conf ι σ π} (h : CriticalSection P ok lock p c e c') :
    lock c.shared = none := by
  obtain ⟨_, _, _, hin, -⟩ := h
  exact hin.free

theorem CriticalSection.run {e : ε} {c' : Conf ι σ π} (h : CriticalSection P ok lock p c e c') :
    ∃ tr, P.Run ok c tr c' := by
  obtain ⟨tr, c₁, g, hin, hok, hf, -⟩ := h
  exact ⟨_, hin.run.step hok hf⟩

/-! ### One thread by itself -/

/-- Thread `p` alone, from where it has the lock to where it has given it up. -/
def finish (P : Program ι σ π γ ε) (allow : ι → γ → Conf ι σ π → Bool) (lock : σ → Option ι)
    (p : ι) : List γ → Conf ι σ π → Option (ε × Conf ι σ π)
  | [], _ => none
  | g :: gs, c =>
    match P.fire p g c with
    | none => none
    | some (e, c') =>
      if !allow p g c then none
      else if lock c'.shared = some p then finish P allow lock p gs c'
      else if lock c'.shared = none then some (e, c')
      else none

/-- Thread `p` alone, through a whole critical section. -/
def solo (P : Program ι σ π γ ε) (allow : ι → γ → Conf ι σ π → Bool) (lock : σ → Option ι)
    (p : ι) : List γ → Conf ι σ π → Option (ε × Conf ι σ π)
  | [], _ => none
  | g :: gs, c =>
    match P.fire p g c with
    | none => none
    | some (_, c') =>
      if allow p g c ∧ lock c.shared = none ∧ lock c'.shared = some p then
        finish P allow lock p gs c'
      else none

variable {allow : ι → γ → Conf ι σ π → Bool}

theorem Inside.finish (hok : ∀ p g c, allow p g c = true → ok p g c) {gs : List γ}
    {x : ε × Conf ι σ π} (h : Inside P ok lock p c tr c₁)
    (hx : finish P allow lock p gs c₁ = some x) : CriticalSection P ok lock p c x.1 x.2 := by
  induction gs generalizing c₁ tr with
  | nil => cases hx
  | cons g gs ih =>
    simp only [Schemes.finish] at hx
    cases hf : P.fire p g c₁ with
    | none => simp [hf] at hx
    | some y =>
      obtain ⟨e, c'⟩ := y
      simp only [hf, Bool.not_eq_true', Option.ite_none_left_eq_some, Bool.not_eq_false] at hx
      obtain ⟨hallow, hx⟩ := hx
      split at hx
      · exact ih (h.step (hok _ _ _ hallow) hf ‹_›) hx
      · simp only [Option.ite_none_right_eq_some, Option.some.injEq] at hx
        obtain ⟨hl, rfl⟩ := hx
        exact ⟨tr, c₁, g, h, hok _ _ _ hallow, hf, hl⟩

theorem CriticalSection.of_solo (hok : ∀ p g c, allow p g c = true → ok p g c) {gs : List γ}
    {x : ε × Conf ι σ π} (hx : solo P allow lock p gs c = some x) :
    CriticalSection P ok lock p c x.1 x.2 := by
  cases gs with
  | nil => cases hx
  | cons g gs =>
    simp only [solo] at hx
    cases hf : P.fire p g c with
    | none => simp [hf] at hx
    | some y =>
      simp only [hf, Option.ite_none_right_eq_some] at hx
      obtain ⟨⟨hallow, hl, hl'⟩, hx⟩ := hx
      exact (Inside.take hl (hok _ _ _ hallow) hf hl').finish hok hx

end Ldd.Schemes

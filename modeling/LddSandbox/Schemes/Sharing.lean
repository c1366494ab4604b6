import LddSandbox.Schemes.Commits

/-! Sharing scheme: an object that many threads read at once, or one thread writes alone. A thread
    takes its part in the object when it goes inside, and answers as it goes out.

        readers:    ──▶ ∙ ──▶ ∙ ══(a, b)══▶        ──▶ ∙ ══(a, b)══▶
                      ──▶ ∙ ══(a, b)══▶
        writer:                              none inside ──▶ ∙ ──▶ ∙ ══(a, b)══▶

    `Shares` is about one step: a reader leaves the object alone and answers as the machine does, a
    writer leaves the object as the machine does when it goes out. Then the answers of any
    interleaving, in their order, are a run of the machine (`Shares.linear`), although no step of
    a thread is the whole of its call. -/

namespace Ldd.Schemes

variable {ι σ τ π γ ε α β : Type*}

/-- The part of a thread. -/
inductive Role | outside | reads | writes
  deriving DecidableEq, Repr

/-- `Held m s`: the shared state has the object in state `m`, and nobody is at work on it;
    `At m s k`: what a thread inside has of it at its point `k`. -/
structure Shares (P : Program ι σ π γ ε) (role : π → Role) (commit : ε → Option (α × β))
    (M : Machine τ α β) (I : σ → π → Prop) (Held : τ → σ → Prop) (At : τ → σ → π → Prop) :
    Prop where
  aside : ∀ {p g s s' k k' e m}, I s k → P.next p g s k = some (s', k', e) → role k = .outside →
    commit e = none ∧ (Held m s → Held m s' ∧ (role k' ≠ .outside → At m s' k')) ∧
      ∀ q, At m s q → At m s' q
  reader : ∀ {p g s s' k k' e m}, P.next p g s k = some (s', k', e) → role k = .reads →
    Held m s → At m s k → Held m s' ∧ (∀ q, At m s q → At m s' q) ∧
      (role k' = .reads ∧ commit e = none ∧ At m s' k' ∨
        role k' = .outside ∧ ∃ a b, commit e = some (a, b) ∧ M m a = (m, b))
  writer : ∀ {p g s s' k k' e m}, P.next p g s k = some (s', k', e) → role k = .writes →
    At m s k → role k' = .writes ∧ commit e = none ∧ At m s' k' ∨
      role k' = .outside ∧ ∃ a m' b, commit e = some (a, b) ∧ M m a = (m', b) ∧ Held m' s'
  hear : ∀ e k, role (P.hear e k) = role k ∧ ∀ m s, At m s k → At m s (P.hear e k)

/-- A thread goes inside to read when no writer is inside, and to write when nobody is. -/
def Admits (role : π → Role) (pc : ι → π) (k' : π) : Prop :=
  (role k' = .reads → ∀ r, role (pc r) ≠ .writes) ∧
    (role k' = .writes → ∀ r, role (pc r) = .outside)

namespace Shares

/-- What holds between any two steps, with the object in state `m`. -/
structure Shared (role : π → Role) (Held : τ → σ → Prop) (At : τ → σ → π → Prop) (m : τ)
    (c : Conf ι σ π) : Prop where
  alone : ∀ r q, role (c.pc r) = .writes → role (c.pc q) ≠ .outside → q = r
  inside : ∀ r, role (c.pc r) ≠ .outside → At m c.shared (c.pc r)
  free : (∀ r, role (c.pc r) ≠ .writes) → Held m c.shared

variable [DecidableEq ι] {P : Program ι σ π γ ε} {role : π → Role} {commit : ε → Option (α × β)}
variable {M : Machine τ α β} {I : σ → π → Prop} {Held : τ → σ → Prop} {At : τ → σ → π → Prop}
variable {ok : ι → γ → Conf ι σ π → Prop} {c₀ c c' : Conf ι σ π} {tr : List (ι × ε)} {p : ι} {g : γ}
variable {e : ε} {m : τ}

/-- What the step of a thread leaves of the others. -/
theorem others (S : Shares P role commit M I Held At)
    (hf : P.fire p g c = some (e, c')) {r : ι} (hr : r ≠ p) :
    role (c'.pc r) = role (c.pc r) ∧ ∀ m s, At m s (c.pc r) → At m s (c'.pc r) := by
  rw [(Program.fire_spec hf).2 r hr]
  exact S.hear e _

theorem step_outside (S : Shares P role commit M I Held At) (hI : I c.shared (c.pc p))
    (h : Shared role Held At m c) (hadm : Admits role c.pc (c'.pc p))
    (hf : P.fire p g c = some (e, c')) (hp : role (c.pc p) = .outside) :
    commit e = none ∧ Shared role Held At m c' := by
  obtain ⟨hc, hheld, hstay⟩ := S.aside (m := m) hI (Program.fire_spec hf).1 hp
  refine ⟨hc, ?_, fun r hr => ?_, fun hnone => (hheld (h.free fun r hr => ?_)).1⟩
  · intro r q hr hq
    rcases eq_or_ne r p with rfl | hrp
    · by_contra hqr
      rw [(S.others hf hqr).1] at hq
      exact hq (hadm.2 hr q)
    · rw [(S.others hf hrp).1] at hr
      rcases eq_or_ne q p with rfl | hqp
      · cases hrole : role (c'.pc q) with
        | outside => exact absurd hrole hq
        | reads => exact absurd hr (hadm.1 hrole r)
        | writes => rw [hadm.2 hrole r] at hr; cases hr
      · rw [(S.others hf hqp).1] at hq
        exact h.alone r q hr hq
  · rcases eq_or_ne r p with rfl | hrp
    · -- it has gone inside, past every writer
      refine (hheld (h.free fun q hq => ?_)).2 hr
      cases hrole : role (c'.pc r) with
      | outside => exact hr hrole
      | reads => exact hadm.1 hrole q hq
      | writes => rw [hadm.2 hrole q] at hq; cases hq
    · obtain ⟨hrole, hhear⟩ := S.others hf hrp
      exact hhear _ _ (hstay _ (h.inside r (hrole ▸ hr)))
  · rcases eq_or_ne r p with rfl | hrp
    · rw [hp] at hr; cases hr
    · exact hnone r ((S.others hf hrp).1.trans hr)

theorem step_reads (S : Shares P role commit M I Held At) (h : Shared role Held At m c)
    (hf : P.fire p g c = some (e, c')) (hp : role (c.pc p) = .reads) :
    Commits M m m (commit e) ∧ Shared role Held At m c' := by
  have hinside : role (c.pc p) ≠ .outside := by rw [hp]; decide
  have hnone : ∀ r, role (c.pc r) ≠ .writes := by
    intro r hr
    rw [← h.alone r p hr hinside, hp] at hr
    cases hr
  obtain ⟨hheld, hstay, hown⟩ :=
    S.reader (Program.fire_spec hf).1 hp (h.free hnone) (h.inside p hinside)
  refine ⟨?_, ?_, fun r hr => ?_, fun _ => hheld⟩
  · rcases hown with ⟨-, hc, -⟩ | ⟨-, a, b, hc, hm⟩
    · rw [hc]
      exact rfl
    · rw [hc]
      exact hm
  · intro r q hr _
    rcases eq_or_ne r p with rfl | hrp
    · rcases hown with ⟨hrole, -⟩ | ⟨hrole, -⟩ <;> rw [hrole] at hr <;> cases hr
    · rw [(S.others hf hrp).1] at hr
      exact absurd hr (hnone r)
  · rcases eq_or_ne r p with rfl | hrp
    · rcases hown with ⟨-, -, hat⟩ | ⟨hrole, -⟩
      · exact hat
      · exact absurd hrole hr
    · obtain ⟨hrole, hhear⟩ := S.others hf hrp
      exact hhear _ _ (hstay _ (h.inside r (hrole ▸ hr)))

theorem step_writes (S : Shares P role commit M I Held At) (h : Shared role Held At m c)
    (hf : P.fire p g c = some (e, c')) (hp : role (c.pc p) = .writes) :
    ∃ m', Commits M m m' (commit e) ∧ Shared role Held At m' c' := by
  have hinside : role (c.pc p) ≠ .outside := by rw [hp]; decide
  have hothers : ∀ r, r ≠ p → role (c'.pc r) = .outside := by
    intro r hr
    rw [(S.others hf hr).1]
    by_contra hrole
    exact hr (h.alone p r hp hrole)
  rcases S.writer (Program.fire_spec hf).1 hp (h.inside p hinside) with
    ⟨hrole, hc, hat⟩ | ⟨hrole, a, m', b, hc, hm, hheld⟩
  · rw [hc]
    refine ⟨m, rfl, fun r q hr hq => ?_, fun r hr => ?_, fun hnone => absurd hrole (hnone p)⟩
    · rcases eq_or_ne q p with rfl | hqp
      · by_contra hrq
        rw [hothers r (Ne.symm hrq)] at hr
        cases hr
      · exact absurd (hothers q hqp) hq
    · rcases eq_or_ne r p with rfl | hrp
      · exact hat
      · exact absurd (hothers r hrp) hr
  · have hall : ∀ r, role (c'.pc r) = .outside := by
      intro r
      rcases eq_or_ne r p with rfl | hrp
      · exact hrole
      · exact hothers r hrp
    rw [hc]
    refine ⟨m', hm, fun r q hr _ => ?_, fun r hr => absurd (hall r) hr, fun _ => hheld⟩
    rw [hall r] at hr
    cases hr

/-- LINEAR: the answers of a run whose threads go inside as they may, executed one by one, give
    themselves, and the object is in the state that they leave while no writer is inside. -/
theorem linear (S : Shares P role commit M I Held At) (hrun : P.Run ok c₀ tr c)
    (hI : ∀ tr c, P.Run ok c₀ tr c → ∀ r, I c.shared (c.pc r))
    (hok : ∀ {p g c e c'}, ok p g c → P.fire p g c = some (e, c') → role (c.pc p) = .outside →
      Admits role c.pc (c'.pc p))
    (hout : ∀ r, role (c₀.pc r) = .outside) (h₀ : Held m c₀.shared) :
    (M.run m ((commits commit tr).map Prod.fst)).2 = (commits commit tr).map Prod.snd ∧
      Shared role Held At (M.run m ((commits commit tr).map Prod.fst)).1 c := by
  have hall : ∃ m', M.run m ((commits commit tr).map Prod.fst) =
      (m', (commits commit tr).map Prod.snd) ∧ Shared role Held At m' c := by
    induction hrun with
    | start =>
      refine ⟨m, rfl, fun r _ hr => ?_, fun r hr => absurd (hout r) hr, fun _ => h₀⟩
      rw [hout r] at hr
      cases hr
    | @step tr c p g e c' hpre hp hf ih =>
      obtain ⟨m₁, hlin, hshared⟩ := ih
      have hstep : ∃ m', Commits M m₁ m' (commit e) ∧ Shared role Held At m' c' := by
        cases hrole : role (c.pc p) with
        | outside =>
          obtain ⟨hc, hshared'⟩ :=
            S.step_outside (hI tr c hpre p) hshared (hok hp hf hrole) hf hrole
          rw [hc]
          exact ⟨m₁, rfl, hshared'⟩
        | reads => exact ⟨m₁, S.step_reads hshared hf hrole⟩
        | writes => exact S.step_writes hshared hf hrole
      obtain ⟨m', hcommit, hshared'⟩ := hstep
      exact ⟨m', hcommit.append p hlin, hshared'⟩
  obtain ⟨m', hlin, hshared⟩ := hall
  rw [hlin]
  exact ⟨rfl, hshared⟩

end Shares

end Ldd.Schemes

import LddSandbox.Schemes.Threads

/-! Slice scheme: the steps of one part of a program, taken out of its runs, are a run of another
    program. What the two share of the state is related by a view.

        P:   c ──mine──▶ ∙ ──other──▶ ∙ ──mine──▶ c'
             │ view      │           ╱            │ view
        Q:   d ──────────▶ ∙ ────────────────────▶ d'

    A thread stands in `Q` where `slice` puts it: one that is busy with another part is outside.
    `Sliced` is about one step of one thread; `Sliced.run` carries it to every run. -/

namespace Ldd.Schemes

variable {ι σ τ π π' γ ε : Type*}

/-- The events of one part, in order. -/
def sliceOf (mine : ε → Bool) (tr : List (ι × ε)) : List (ι × ε) := tr.filter fun x => mine x.2

section
variable {mine : ε → Bool} {p : ι} {e : ε} (tr : List (ι × ε))

@[simp] theorem sliceOf_nil : sliceOf mine ([] : List (ι × ε)) = [] := rfl

theorem sliceOf_mine (h : mine e = true) :
    sliceOf mine (tr ++ [(p, e)]) = sliceOf mine tr ++ [(p, e)] := by
  simp [sliceOf, List.filter_append, h]

theorem sliceOf_other (h : mine e = false) : sliceOf mine (tr ++ [(p, e)]) = sliceOf mine tr := by
  simp [sliceOf, List.filter_append, h]

end

/-- A step of the part is a step of `Q`, by what the view shows and what is known of the thread;
    every other step leaves the view and the place of the thread. -/
structure Sliced (P : Program ι σ π γ ε) (Q : Program ι τ π' γ ε) (mine : ε → Bool)
    (slice : π → π') (View : σ → τ → Prop) (I : σ → π → Prop) : Prop where
  own : ∀ {p g s s' t k k' e}, I s k → View s t → P.next p g s k = some (s', k', e) →
    mine e = true → ∃ t', Q.next p g t (slice k) = some (t', slice k', e) ∧ View s' t'
  other : ∀ {p g s s' t k k' e}, I s k → View s t → P.next p g s k = some (s', k', e) →
    mine e = false → View s' t ∧ slice k' = slice k
  hear_own : ∀ {e} k, mine e = true → slice (P.hear e k) = Q.hear e (slice k)
  hear_other : ∀ {e} k, mine e = false → slice (P.hear e k) = slice k

namespace Sliced

variable [DecidableEq ι] {P : Program ι σ π γ ε} {Q : Program ι τ π' γ ε} {mine : ε → Bool}
variable {slice : π → π'} {View : σ → τ → Prop} {I : σ → π → Prop}
variable {ok : ι → γ → Conf ι σ π → Prop} {ok' : ι → γ → Conf ι τ π' → Prop}
variable {c₀ c c' : Conf ι σ π} {d₀ d : Conf ι τ π'} {tr : List (ι × ε)} {p : ι} {g : γ} {e : ε}

/-- What the other program stands at, for a configuration of this one. -/
structure Beside (slice : π → π') (View : σ → τ → Prop) (c : Conf ι σ π) (d : Conf ι τ π') :
    Prop where
  view : View c.shared d.shared
  pc : ∀ r, d.pc r = slice (c.pc r)

theorem fire_own (S : Sliced P Q mine slice View I) (hI : I c.shared (c.pc p))
    (h : Beside slice View c d) (hf : P.fire p g c = some (e, c')) (he : mine e = true) :
    ∃ d', Q.fire p g d = some (e, d') ∧ Beside slice View c' d' := by
  obtain ⟨hn, hothers⟩ := Program.fire_spec hf
  obtain ⟨t', hn', hview⟩ := S.own hI h.view hn he
  refine ⟨⟨t', fun r => if r = p then slice (c'.pc p) else Q.hear e (d.pc r)⟩, ?_, hview, ?_⟩
  · rw [Program.fire, h.pc p, hn']
    rfl
  · intro r
    rcases eq_or_ne r p with rfl | hr
    · exact if_pos rfl
    · rw [hothers r hr, S.hear_own _ he, ← h.pc r]
      exact if_neg hr

theorem fire_other (S : Sliced P Q mine slice View I) (hI : I c.shared (c.pc p))
    (h : Beside slice View c d) (hf : P.fire p g c = some (e, c')) (he : mine e = false) :
    Beside slice View c' d := by
  obtain ⟨hn, hothers⟩ := Program.fire_spec hf
  obtain ⟨hview, hslice⟩ := S.other hI h.view hn he
  refine ⟨hview, fun r => ?_⟩
  rcases eq_or_ne r p with rfl | hr
  · rw [hslice, h.pc r]
  · rw [hothers r hr, S.hear_other _ he, h.pc r]

/-- SLICE: the steps of one part are a run of the other program, in their order and with their
    events, if what is known of the threads holds throughout. -/
theorem run (S : Sliced P Q mine slice View I) (hrun : P.Run ok c₀ tr c)
    (hI : ∀ tr c, P.Run ok c₀ tr c → ∀ r, I c.shared (c.pc r))
    (hok : ∀ {p g c d e c'}, ok p g c → P.fire p g c = some (e, c') → mine e = true →
      Beside slice View c d → ok' p g d)
    (h₀ : Beside slice View c₀ d₀) :
    ∃ d, Q.Run ok' d₀ (sliceOf mine tr) d ∧ Beside slice View c d := by
  induction hrun with
  | start => exact ⟨d₀, .start, h₀⟩
  | @step tr c p g e c' hpre hp hf ih =>
    obtain ⟨d, hrun, hbeside⟩ := ih
    have hIp := hI tr c hpre p
    cases he : mine e with
    | true =>
      obtain ⟨d', hf', hbeside'⟩ := S.fire_own hIp hbeside hf he
      rw [sliceOf_mine tr he]
      exact ⟨d', hrun.step (hok hp hf he hbeside) hf', hbeside'⟩
    | false =>
      rw [sliceOf_other tr he]
      exact ⟨d, hrun, S.fire_other hIp hbeside hf he⟩

end Sliced

end Ldd.Schemes

import LddSandbox.Schemes.Threads

/-! Wake-ups: threads that sleep until a condition of the shared state holds, and threads that owe
    them a wake-up.

    A waiter has tested the condition, found it false, and no wake-up reached it since. A thread
    that makes the condition true must wake the waiters, now or at a later step: it owes. Between
    two stores of one critical section the condition may hold for a moment and go again; a thread
    at such a point is turning.

        ¬cond ──(raise)──▶ cond, some thread owes or turns ──(debt: wake-up)──▶ nobody waits
          ▲                                  │
          └──────────────(turn)──────────────┘                                             -/

namespace Ldd.Schemes

variable {ι σ π γ ε : Type*} [DecidableEq ι]

/-- What the steps of the runs must do about the waiters: see the header. -/
structure Waking (P : Program ι σ π γ ε) (ok : ι → γ → Conf ι σ π → Prop) (c₀ : Conf ι σ π)
    (cond : σ → Prop) (waits owes turning : π → Prop) : Prop where
  fresh : ∀ {tr c p g s' k' e}, P.Run ok c₀ tr c → ok p g c →
    P.next p g c.shared (c.pc p) = some (s', k', e) → waits k' → waits (c.pc p) ∨ ¬ cond s'
  raise : ∀ {tr c p g s' k' e}, P.Run ok c₀ tr c → ok p g c →
    P.next p g c.shared (c.pc p) = some (s', k', e) → cond s' →
    cond c.shared ∨ owes k' ∨ turning k'
  debt : ∀ {tr c p g s' k' e}, P.Run ok c₀ tr c → ok p g c →
    P.next p g c.shared (c.pc p) = some (s', k', e) → owes (c.pc p) →
    owes k' ∨ (¬ waits k' ∧ ∀ k, ¬ waits (P.hear e k))
  turn : ∀ {tr c p g s' k' e}, P.Run ok c₀ tr c → ok p g c →
    P.next p g c.shared (c.pc p) = some (s', k', e) → turning (c.pc p) →
    ¬ cond s' ∨ owes k' ∨ turning k'
  hearWaits : ∀ {e k}, waits (P.hear e k) → waits k
  hearOwes : ∀ {e k}, owes k → owes (P.hear e k)
  hearTurning : ∀ {e k}, turning k → turning (P.hear e k)

namespace Waking

variable {P : Program ι σ π γ ε} {ok : ι → γ → Conf ι σ π → Prop} {c₀ c : Conf ι σ π}
variable {cond : σ → Prop} {waits owes turning : π → Prop} {tr : List (ι × ε)}

/-- OWED: while a thread waits, the condition is false, or some thread owes a wake-up or is at a
    passing moment. -/
theorem owed (W : Waking P ok c₀ cond waits owes turning) (hrun : P.Run ok c₀ tr c)
    (h0 : ∀ r, ¬ waits (c₀.pc r)) (hw : ∃ r, waits (c.pc r)) :
    ¬ cond c.shared ∨ ∃ w, owes (c.pc w) ∨ turning (c.pc w) := by
  induction hrun with
  | start =>
    obtain ⟨r, hr⟩ := hw
    exact absurd hr (h0 r)
  | @step tr c p g e c' hpre hok hf ih =>
    obtain ⟨hn, hothers⟩ := Program.fire_spec hf
    by_cases hcond : cond c'.shared
    · right
      -- the condition holds now, so the waiter was there before the step
      have hbefore : ∃ r, waits (c.pc r) := by
        obtain ⟨r, hr⟩ := hw
        rcases eq_or_ne r p with rfl | hne
        · rcases W.fresh hpre hok hn hr with h | h
          · exact ⟨r, h⟩
          · exact absurd hcond h
        · rw [hothers r hne] at hr
          exact ⟨r, W.hearWaits hr⟩
      rcases W.raise hpre hok hn hcond with hold | hnew
      · rcases ih hbefore with h | ⟨w, how⟩
        · exact absurd hold h
        rcases eq_or_ne w p with rfl | hne
        · rcases how with how | htw
          · rcases W.debt hpre hok hn how with h | ⟨hself, hall⟩
            · exact ⟨w, .inl h⟩
            · -- the wake-up was given: no waiter is left
              obtain ⟨r, hr⟩ := hw
              rcases eq_or_ne r w with rfl | hr'
              · exact absurd hr hself
              · rw [hothers r hr'] at hr
                exact absurd hr (hall _)
          · rcases W.turn hpre hok hn htw with h | h
            · exact absurd hcond h
            · exact ⟨w, h⟩
        · refine ⟨w, ?_⟩
          rw [hothers w hne]
          exact how.imp W.hearOwes W.hearTurning
      · exact ⟨p, hnew⟩
    · exact .inl hcond

end Waking

end Ldd.Schemes

import LddSandbox.Schemes.Machine

/-! Confinement scheme: each call of a machine belongs to one part of it, and a part sees of the
    state only what its own view relates. `Confined` is about one call: a call is answered by the
    view of its own part, and leaves the view of every other part alone.

        calls:         a₁ ▶ b₁ ▶ a₂ ▶ b₂ ▶ b₃
        alone:         a₁ ──────▶ a₂               the same answers to a₁, a₂

    `Confined.alone` removes the calls of the other parts from a run; `Confined.two_runs` compares
    two runs whose calls of one part agree. -/

namespace Ldd.Schemes

variable {σ ι ο κ : Type*} [DecidableEq κ]

namespace Machine

/-- The calls of one part, in order. -/
def callsOf (part : ι → κ) (k : κ) (is : List ι) : List ι := is.filter fun i => part i = k

/-- The answers to the calls of one part, in order. -/
def answersOf (M : Machine σ ι ο) (part : ι → κ) (k : κ) (s : σ) (is : List ι) : List ο :=
  ((is.zip (M.run s is).2).filter fun x => part x.1 = k).map Prod.snd

variable {M : Machine σ ι ο} {part : ι → κ} {k : κ} {s t : σ} {i : ι} {is js : List ι}

theorem answersOf_own (h : part i = k) :
    answersOf M part k s (i :: is) = (M s i).2 :: answersOf M part k (M s i).1 is := by
  simp [answersOf, run_cons, h]

theorem answersOf_other (h : part i ≠ k) :
    answersOf M part k s (i :: is) = answersOf M part k (M s i).1 is := by
  simp [answersOf, run_cons, h]

/-- What one call does to the views: it goes by the view of its part, and keeps the others. -/
structure Confined (M : Machine σ ι ο) (part : ι → κ) (View : κ → σ → σ → Prop) : Prop where
  own : ∀ {s t i}, View (part i) s t → View (part i) (M s i).1 (M t i).1 ∧ (M s i).2 = (M t i).2
  other : ∀ {k s t i}, part i ≠ k → View k s t → View k (M s i).1 t

variable {View : κ → σ → σ → Prop}

/-- A part is answered as if it were alone. -/
theorem Confined.alone (h : Confined M part View) (hst : View k s t) (is : List ι) :
    View k (M.run s is).1 (M.run t (callsOf part k is)).1 ∧
      answersOf M part k s is = (M.run t (callsOf part k is)).2 := by
  induction is generalizing s t with
  | nil => exact ⟨hst, rfl⟩
  | cons i is ih =>
    by_cases hi : part i = k
    · subst hi
      obtain ⟨hview, hout⟩ := h.own hst
      obtain ⟨hrun, houts⟩ := ih hview
      have hcalls : callsOf part (part i) (i :: is) = i :: callsOf part (part i) is := by
        simp [callsOf]
      rw [hcalls, answersOf_own rfl, run_cons, run_cons]
      exact ⟨hrun, by rw [hout, houts]⟩
    · obtain ⟨hrun, houts⟩ := ih (h.other hi hst)
      have hcalls : callsOf part k (i :: is) = callsOf part k is := by simp [callsOf, hi]
      rw [hcalls, answersOf_other hi, run_cons]
      exact ⟨hrun, houts⟩

/-- Two runs with the same calls of a part answer them alike, from states that the part sees as
    one. -/
theorem Confined.two_runs (h : Confined M part View) {s₀ : σ} (hs : View k s s₀) (ht : View k t s₀)
    (hcalls : callsOf part k is = callsOf part k js) :
    answersOf M part k s is = answersOf M part k t js := by
  rw [(h.alone hs is).2, (h.alone ht js).2, hcalls]

end Machine

end Ldd.Schemes

import LddSandbox.Schemes.Traced
import Mathlib.Data.List.Induction

/-! Machine scheme: a component that answers one call after another, each from the state that the
    calls before it left.

        run:   s ── i₁ / o₁ ──▶ s₁ ── i₂ / o₂ ──▶ s₂ ── ..

    `Simulation.run` lifts agreement on one call to agreement on every run of calls, `agree_traced`
    to every run whose calls meet a condition, `Preserves.run` lifts an invariant, and `last_writer`
    the effect of one call on a register of the state. -/

namespace Ldd.Schemes

variable {σ τ ι ο : Type*}

/-- The next state and the answer to a call. -/
abbrev Machine (σ ι ο : Type*) := σ → ι → σ × ο

namespace Machine

/-- The state after a run of calls, and the answers. -/
def run (M : Machine σ ι ο) : σ → List ι → σ × List ο
  | s, [] => (s, [])
  | s, i :: is =>
    let (s', o) := M s i
    let (s'', os) := run M s' is
    (s'', o :: os)

variable {M : Machine σ ι ο} {N : Machine τ ι ο}

@[simp] theorem run_nil (s : σ) : M.run s [] = (s, []) := rfl

theorem run_cons (s : σ) (i : ι) (is : List ι) :
    M.run s (i :: is) = ((M.run (M s i).1 is).1, (M s i).2 :: (M.run (M s i).1 is).2) := rfl

theorem run_append (s : σ) (is js : List ι) :
    M.run s (is ++ js) =
      ((M.run (M.run s is).1 js).1, (M.run s is).2 ++ (M.run (M.run s is).1 js).2) := by
  induction is generalizing s with
  | nil => rfl
  | cons i is ih => simp only [List.cons_append, run_cons, ih]

theorem run_length (s : σ) (is : List ι) : (M.run s is).2.length = is.length := by
  induction is generalizing s with
  | nil => rfl
  | cons i is ih => rw [run_cons, List.length_cons, List.length_cons, ih]

/-- Two machines answer alike from related states. -/
def Simulation (M : Machine σ ι ο) (N : Machine τ ι ο) (R : σ → τ → Prop) : Prop :=
  ∀ s t i, R s t → R (M s i).1 (N t i).1 ∧ (M s i).2 = (N t i).2

/-- Agreement on one call is agreement on every run. -/
theorem Simulation.run {R : σ → τ → Prop} (h : Simulation M N R) {s : σ} {t : τ} (hst : R s t)
    (is : List ι) : R (M.run s is).1 (N.run t is).1 ∧ (M.run s is).2 = (N.run t is).2 := by
  induction is generalizing s t with
  | nil => exact ⟨hst, rfl⟩
  | cons i is ih =>
    obtain ⟨hstep, hout⟩ := h s t i hst
    obtain ⟨hrun, houts⟩ := ih hstep
    exact ⟨hrun, by rw [run_cons, run_cons, hout, houts]⟩

/-- Agreement on each call that meets a condition is agreement on every run of such calls. -/
theorem agree_traced {R : σ → τ → Prop} {ok : σ → ι → Prop}
    (h : ∀ s t i, R s t → ok s i → R (M s i).1 (N t i).1 ∧ (M s i).2 = (N t i).2) {s : σ} {t : τ}
    (hst : R s t) {is : List ι} (hok : Traced (fun s i => (M s i).1) ok s is) :
    R (M.run s is).1 (N.run t is).1 ∧ (M.run s is).2 = (N.run t is).2 := by
  induction is generalizing s t with
  | nil => exact ⟨hst, rfl⟩
  | cons i is ih =>
    obtain ⟨hstep, hout⟩ := h s t i hst hok.1
    obtain ⟨hrun, houts⟩ := ih hstep hok.2
    exact ⟨hrun, by rw [run_cons, run_cons, hout, houts]⟩

/-- A property of states that every call keeps. -/
def Preserves (M : Machine σ ι ο) (I : σ → Prop) : Prop := ∀ s i, I s → I (M s i).1

theorem Preserves.run {I : σ → Prop} (h : M.Preserves I) {s : σ} (hs : I s) (is : List ι) :
    I (M.run s is).1 := by
  induction is generalizing s with
  | nil => exact hs
  | cons i is ih => exact ih (h s i hs)

/-- What the last call that wrote a register put there. -/
def lastWrite {ρ : Type*} (writes : ι → ο → Option ρ) (history : List (ι × ο)) : Option ρ :=
  history.reverse.findSome? fun x => writes x.1 x.2

/-- A register holds what its last writer put there, or what it held first. -/
theorem last_writer {ρ : Type*} (reg : σ → ρ) {writes : ι → ο → Option ρ}
    (h : ∀ s i, reg (M s i).1 = (writes i (M s i).2).getD (reg s)) (s : σ) (is : List ι) :
    reg (M.run s is).1 = (lastWrite writes (is.zip (M.run s is).2)).getD (reg s) := by
  induction is using List.reverseRecOn with
  | nil => rfl
  | append_singleton is i ih =>
    have hlen : is.length = (M.run s is).2.length := (run_length s is).symm
    rw [run_append, List.zip_append hlen]
    simp only [run_cons, run_nil, List.zip_cons_cons, List.zip_nil_right, lastWrite,
      List.reverse_append, List.reverse_singleton, List.singleton_append, List.findSome?_cons]
    rw [h]
    cases writes i (M (M.run s is).1 i).2 with
    | none => exact ih
    | some v => rfl

end Machine

end Ldd.Schemes

import Mathlib.Data.List.Basic

/-! Trace scheme: a list of entries replayed from a state, each entry true of the state it was
    recorded in.

        s ── c₁ ──▶ s₁ ── c₂ ──▶ s₂ ── .. ──▶ s.foldl     P s c₁,  P s₁ c₂,  ..

    What holds of the entries of a run is stated with `Traced` and proved by `Traced.append`, one
    piece of the run at a time; `Traced.entry` reads it back for any one entry. -/

namespace Ldd.Schemes

variable {σ τ κ : Type*} {next : σ → κ → σ} {P : σ → κ → Prop}

/-- Each entry is true of the state that the entries before it lead to. -/
def Traced (next : σ → κ → σ) (P : σ → κ → Prop) : σ → List κ → Prop
  | _, [] => True
  | s, c :: cs => P s c ∧ Traced next P (next s c) cs

namespace Traced

theorem append {s : σ} {cs cs' : List κ} (h : Traced next P s cs)
    (h' : Traced next P (cs.foldl next s) cs') : Traced next P s (cs ++ cs') := by
  induction cs generalizing s with
  | nil => exact h'
  | cons c cs ih => exact ⟨h.1, ih h.2 h'⟩

/-- What an entry in the middle of the trace says. -/
theorem entry {s : σ} {before after : List κ} {c : κ}
    (h : Traced next P s (before ++ c :: after)) : P (before.foldl next s) c := by
  induction before generalizing s with
  | nil => exact h.1
  | cons b before ih => exact ih h.2

/-- What is true of every entry in every state. -/
theorem of_forall (h : ∀ s c, P s c) (s : σ) (cs : List κ) : Traced next P s cs := by
  induction cs generalizing s with
  | nil => trivial
  | cons c cs ih => exact ⟨h s c, ih (next s c)⟩

/-- A trace seen through an abstraction of the states. -/
theorem map {next' : τ → κ → τ} {P' : τ → κ → Prop} (f : σ → τ)
    (hnext : ∀ s c, next' (f s) c = f (next s c)) (hP : ∀ s c, P s c → P' (f s) c) {s : σ}
    {cs : List κ} (h : Traced next P s cs) : Traced next' P' (f s) cs := by
  induction cs generalizing s with
  | nil => trivial
  | cons c cs ih =>
    refine ⟨hP s c h.1, ?_⟩
    rw [hnext]
    exact ih h.2

/-- Two properties of entries that agree as long as an invariant holds, which both keep. -/
theorem iff {P' : σ → κ → Prop} {I : σ → Prop} (hstep : ∀ s c, I s → (P s c ↔ P' s c))
    (hkeep : ∀ s c, I s → P s c → I (next s c)) {s : σ} (hs : I s) {cs : List κ} :
    Traced next P s cs ↔ Traced next P' s cs := by
  induction cs generalizing s with
  | nil => exact Iff.rfl
  | cons c cs ih =>
    constructor
    · rintro ⟨hc, hcs⟩
      exact ⟨(hstep s c hs).mp hc, (ih (hkeep s c hs hc)).mp hcs⟩
    · rintro ⟨hc, hcs⟩
      have hc' := (hstep s c hs).mpr hc
      exact ⟨hc', (ih (hkeep s c hs hc')).mpr hcs⟩

end Traced

/-- The end of a replay, seen through an abstraction of the states. -/
theorem foldl_abs {next' : τ → κ → τ} (f : σ → τ) (hnext : ∀ s c, next' (f s) c = f (next s c))
    (s : σ) (cs : List κ) : cs.foldl next' (f s) = f (cs.foldl next s) := by
  induction cs generalizing s with
  | nil => rfl
  | cons c cs ih => rw [List.foldl_cons, List.foldl_cons, hnext, ih]

end Ldd.Schemes

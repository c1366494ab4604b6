import LddSandbox.Schemes.Ledger

/-! Scripts that forget: what was used and given back before a script began does not matter to it.

        past:       old, nothing live │ what the script uses
        run:        on the whole past  =  on the part behind the bar, with `old` put back below

    A script sees of the past only what is live. `Forgets` is closed under all that scripts are made
    of, so a run can be studied from an empty past (`Forgets.run`). -/

namespace Ldd.Schemes
open Ledger

variable {ρ σ α β : Type} [DecidableEq ρ]

/-- The world with an older past. -/
def World.after (w : World ρ σ) (old : List (Use ρ)) : World ρ σ := { w with past := w.past ++ old }

namespace Ledger

theorem live_append {old : List (Use ρ)} (h : live old = []) (past : List (Use ρ)) :
    live (past ++ old) = live past := by
  induction past with
  | nil => exact h
  | cons u past ih => cases u <;> simp only [List.cons_append, live, ih]

theorem sound_append {needs : ρ → ρ → Bool} {old : List (Use ρ)} (h : live old = [])
    (past : List (Use ρ)) : Sound needs (past ++ old) ↔ Sound needs past ∧ Sound needs old := by
  induction past with
  | nil => exact (and_iff_right trivial).symm
  | cons u past ih => simp only [List.cons_append, Sound, live_append h, ih, and_assoc]

end Ledger

namespace Script

/-- The script runs as it would from a world without the older past. -/
def Forgets (x : Script ρ σ α) : Prop :=
  ∀ (w : World ρ σ) (old : List (Use ρ)), live old = [] →
    x (w.after old) = ((x w).1, (x w).2.after old)

theorem Forgets.run {x : Script ρ σ α} (h : Forgets x) {w : World ρ σ} (hidle : live w.past = []) :
    x w = ((x { w with past := [] }).1, (x { w with past := [] }).2.after w.past) :=
  h { w with past := [] } w.past hidle

section Closed
variable {x : Script ρ σ α} {f : α → Script ρ σ β} {body : ℕ → Script ρ σ Unit}

theorem forgets_pure (a : α) : Forgets (pure a : Script ρ σ α) := fun _ _ _ => rfl

theorem forgets_acquire (r : ρ) : Forgets (acquire r : Script ρ σ Unit) := fun _ _ _ => rfl

theorem forgets_release (r : ρ) : Forgets (release r : Script ρ σ Unit) := fun _ _ _ => rfl

theorem forgets_look : Forgets (look : Script ρ σ σ) := fun _ _ _ => rfl

theorem forgets_update (g : σ → σ) : Forgets (update g : Script ρ σ Unit) := fun _ _ _ => rfl

theorem forgets_assign (r : ρ) (g : σ → σ) : Forgets (assign r g) := fun _ _ _ => rfl

theorem forgets_deref (r : ρ) : Forgets (deref r : Script ρ σ σ) := by
  intro w old h
  have hlive : live (w.after old).past = live w.past := live_append h w.past
  simp only [deref_apply, hlive]
  rfl

theorem Forgets.bind (hx : Forgets x) (hf : ∀ a, Forgets (f a)) : Forgets (x >>= f) := by
  intro w old h
  rw [bind_run, bind_run, hx w old h]
  exact hf _ _ old h

theorem Forgets.ite {c : Prop} [Decidable c] {y : Script ρ σ α} (hx : Forgets x) (hy : Forgets y) :
    Forgets (if c then x else y) := by split <;> assumption

theorem Forgets.each (h : ∀ i, Forgets (body i)) (n : ℕ) : Forgets (each body n) := by
  induction n with
  | zero => exact forgets_pure ()
  | succ n ih => exact ih.bind fun _ => h n

theorem Forgets.upTo {body : ℕ → Script ρ σ (Option α)} (h : ∀ i, Forgets (body i)) (n : ℕ) :
    Forgets (upTo body n) := by
  induction n with
  | zero => exact forgets_pure none
  | succ n ih =>
    refine ih.bind fun o => ?_
    cases o with
    | none => exact h n
    | some a => exact forgets_pure (some a)

end Closed

end Script

end Ldd.Schemes

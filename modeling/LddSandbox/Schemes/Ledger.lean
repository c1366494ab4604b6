import Mathlib.Data.List.Basic
import Mathlib.Data.Set.Insert
import Mathlib.Tactic.Cases

/-! Ledger scheme: what a program did with its resources, the latest use first.

        acquire r     r is free before, live after
        release r     r is live, and nothing live depends on it
        access r      r is live

    A past is `Sound` when every use in it obeyed these rules; `Sound.balance` is the conservation
    law that a sound past keeps: acquired = released + live. A `Script` is a program that uses
    resources and works on one structure, which holds anything at all once it has been freed. -/

namespace Ldd.Schemes

/-- A use of a resource. -/
inductive Use (ρ : Type)
  | acquire (r : ρ)
  | release (r : ρ)
  | access (r : ρ)
  deriving DecidableEq, Repr

variable {ρ : Type}

namespace Ledger
variable [DecidableEq ρ]

/-- The resources held after a past. -/
@[simp] def live : List (Use ρ) → List ρ
  | [] => []
  | .acquire r :: past => r :: live past
  | .release r :: past => (live past).erase r
  | .access _ :: past => live past

/-- The rules; `needs x r` tells that `x` depends on `r`. -/
@[simp] def Allowed (needs : ρ → ρ → Bool) (held : List ρ) : Use ρ → Prop
  | .acquire r => r ∉ held
  | .release r => r ∈ held ∧ ∀ x ∈ held, needs x r = false
  | .access r => r ∈ held

/-- Every use obeyed the rules. -/
@[simp] def Sound (needs : ρ → ρ → Bool) : List (Use ρ) → Prop
  | [] => True
  | u :: past => Allowed needs (live past) u ∧ Sound needs past

/-- What was acquired was released, or is live. -/
theorem Sound.balance {needs : ρ → ρ → Bool} {past : List (Use ρ)} (h : Sound needs past) (r : ρ) :
    past.count (.acquire r) = past.count (.release r) + (live past).count r := by
  induction past with
  | nil => rfl
  | cons u past ih =>
    have hpast := ih h.2
    cases u with
    | acquire x =>
      by_cases hx : x = r
      · subst hx; simp [live, hpast, Nat.add_assoc]
      · simp [live, hpast, hx]
    | release x =>
      by_cases hx : x = r
      · subst hx
        have hheld : 0 < (live past).count x := List.count_pos_iff.mpr h.1.1
        simp only [live, List.count_cons, List.count_erase_self]
        simp only [hpast, beq_iff_eq, reduceCtorEq, if_false, if_true]
        omega
      · simp [live, hpast, hx, List.count_erase_of_ne (Ne.symm hx)]
    | access x => simp [live, hpast]

/-- Nothing live: everything was released as often as it was acquired. -/
theorem Sound.released {needs : ρ → ρ → Bool} {past : List (Use ρ)} (h : Sound needs past)
    (hnone : live past = []) (r : ρ) : past.count (.release r) = past.count (.acquire r) := by
  have hbal := h.balance r
  rw [hnone, List.count_nil, Nat.add_zero] at hbal
  exact hbal.symm

theorem acquired_of_live {past : List (Use ρ)} {r : ρ} (h : r ∈ live past) :
    .acquire r ∈ past := by
  induction past with
  | nil => exact absurd h List.not_mem_nil
  | cons u past ih =>
    cases u with
    | acquire x =>
      rcases List.mem_cons.mp h with rfl | h
      · exact List.mem_cons_self
      · exact List.mem_cons_of_mem _ (ih h)
    | release x => exact List.mem_cons_of_mem _ (ih (List.mem_of_mem_erase h))
    | access x => exact List.mem_cons_of_mem _ (ih h)

/-- What was accessed had been acquired. -/
theorem Sound.acquired {needs : ρ → ρ → Bool} {past : List (Use ρ)} (h : Sound needs past) {r : ρ}
    (hr : .access r ∈ past) : .acquire r ∈ past := by
  induction past with
  | nil => exact absurd hr List.not_mem_nil
  | cons u past ih =>
    rcases List.mem_cons.mp hr with rfl | hr
    · exact List.mem_cons_of_mem _ (acquired_of_live h.1)
    · exact List.mem_cons_of_mem _ (ih h.2 hr)

/-- Nothing is held twice. -/
theorem Sound.nodup {needs : ρ → ρ → Bool} {past : List (Use ρ)} (h : Sound needs past) :
    (live past).Nodup := by
  induction past with
  | nil => exact List.nodup_nil
  | cons u past ih =>
    cases u with
    | acquire r => exact List.nodup_cons.mpr ⟨h.1, ih h.2⟩
    | release r => exact (ih h.2).erase r
    | access r => exact ih h.2

/-- A sound past after which exactly the resources of `H` are held. -/
structure Holds (needs : ρ → ρ → Bool) (H : Set ρ) (past : List (Use ρ)) : Prop where
  sound : Sound needs past
  mem : ∀ r, r ∈ live past ↔ r ∈ H

namespace Holds
variable {needs : ρ → ρ → Bool} {H : Set ρ} {past : List (Use ρ)}

theorem acquire (h : Holds needs H past) {r : ρ} (hr : r ∉ H) :
    Holds needs (insert r H) (.acquire r :: past) := by
  refine ⟨⟨fun hlive => hr ((h.mem r).mp hlive), h.sound⟩, fun x => ?_⟩
  rw [live, List.mem_cons, h.mem, Set.mem_insert_iff]

theorem release (h : Holds needs H past) {r : ρ} (hr : r ∈ H)
    (hfree : ∀ x ∈ H, needs x r = false) : Holds needs (H \ {r}) (.release r :: past) := by
  refine ⟨⟨⟨(h.mem r).mpr hr, fun x hx => hfree x ((h.mem x).mp hx)⟩, h.sound⟩, fun x => ?_⟩
  rw [live, h.sound.nodup.mem_erase_iff, h.mem, Set.mem_sdiff, Set.mem_singleton_iff, and_comm]

theorem access (h : Holds needs H past) {r : ρ} (hr : r ∈ H) :
    Holds needs H (.access r :: past) :=
  ⟨⟨(h.mem r).mpr hr, h.sound⟩, h.mem⟩

theorem congr (h : Holds needs H past) {H' : Set ρ} (heq : ∀ r, r ∈ H ↔ r ∈ H') :
    Holds needs H' past :=
  ⟨h.sound, fun r => (h.mem r).trans (heq r)⟩

theorem live_nil (h : Holds needs ∅ past) : live past = [] :=
  List.eq_nil_iff_forall_not_mem.mpr fun r hr => (h.mem r).mp hr

end Holds

end Ledger

variable {σ α β : Type}

/-- What a script works on: the past, the structure, and what it holds once it has been freed. -/
structure World (ρ σ : Type) where
  past : List (Use ρ)
  mem : σ
  freed : σ

def World.use (w : World ρ σ) (u : Use ρ) : World ρ σ := { w with past := u :: w.past }

/-- A program that uses resources and works on a structure. -/
abbrev Script (ρ σ α : Type) := StateM (World ρ σ) α

@[simp] theorem World.use_past (w : World ρ σ) (u : Use ρ) : (w.use u).past = u :: w.past := rfl

@[simp] theorem World.use_mem (w : World ρ σ) (u : Use ρ) : (w.use u).mem = w.mem := rfl

namespace Script

def acquire (r : ρ) : Script ρ σ Unit := modify (·.use (.acquire r))

def release (r : ρ) : Script ρ σ Unit := modify (·.use (.release r))

def access (r : ρ) : Script ρ σ Unit := modify (·.use (.access r))

/-- Reads what is part of no resource: a variable of the program. -/
def look : Script ρ σ σ := return (← get).mem

/-- Writes to what is part of no resource. -/
def update (f : σ → σ) : Script ρ σ Unit := modify fun w => { w with mem := f w.mem }

/-- Reads the structure, which is part of `r`. -/
def deref [DecidableEq ρ] (r : ρ) : Script ρ σ σ := do
  let w ← get
  access r
  return if r ∈ Ledger.live w.past then w.mem else w.freed

/-- Writes to the structure, which is part of `r`. -/
def assign (r : ρ) (f : σ → σ) : Script ρ σ Unit := do
  access r
  modify fun w => { w with mem := f w.mem }

/-! ### How a script runs

The equations by which `simp` runs a script: what its first statement does to the world, and the
rest of the script from there. -/

variable (w : World ρ σ) (k : Unit → Script ρ σ α)

@[simp] theorem pure_apply (a : α) : (pure a : Script ρ σ α) w = (a, w) := rfl

@[simp] theorem map_apply (g : α → β) (x : Script ρ σ α) :
    (g <$> x) w = (g (x w).1, (x w).2) := rfl

@[simp] theorem ite_run {p : Prop} [Decidable p] (x y : Script ρ σ α) :
    (if p then x else y) w = if p then x w else y w := by split <;> rfl

@[simp] theorem ite_bind {p : Prop} [Decidable p] (x y : Script ρ σ α) (f : α → Script ρ σ β) :
    ((if p then x else y) >>= f) w = if p then (x >>= f) w else (y >>= f) w := by split <;> rfl

theorem bind_run (x : Script ρ σ α) (f : α → Script ρ σ β) : (x >>= f) w = f (x w).1 (x w).2 := rfl

@[simp] theorem get_bind (f : World ρ σ → Script ρ σ α) :
    ((get : Script ρ σ (World ρ σ)) >>= f) w = f w w := rfl

@[simp] theorem release_apply (r : ρ) : release r w = ((), w.use (.release r)) := rfl

@[simp] theorem release_bind (r : ρ) : (release r >>= k) w = k () (w.use (.release r)) := rfl

@[simp] theorem access_bind (r : ρ) : (access r >>= k) w = k () (w.use (.access r)) := rfl

@[simp] theorem deref_apply [DecidableEq ρ] (r : ρ) :
    deref r w = (if r ∈ Ledger.live w.past then w.mem else w.freed, w.use (.access r)) := rfl

@[simp] theorem deref_bind [DecidableEq ρ] (r : ρ) (f : σ → Script ρ σ α) :
    (deref r >>= f) w =
      f (if r ∈ Ledger.live w.past then w.mem else w.freed) (w.use (.access r)) := rfl

@[simp] theorem look_apply : (look : Script ρ σ σ) w = (w.mem, w) := rfl

@[simp] theorem look_bind (f : σ → Script ρ σ α) : (look >>= f) w = f w.mem w := rfl

@[simp] theorem update_apply (g : σ → σ) :
    (update g : Script ρ σ Unit) w = ((), { w with mem := g w.mem }) := rfl

@[simp] theorem update_bind (g : σ → σ) : (update g >>= k) w = k () { w with mem := g w.mem } := rfl

@[simp] theorem assign_apply (r : ρ) (g : σ → σ) :
    assign r g w = ((), { w.use (.access r) with mem := g w.mem }) := rfl

@[simp] theorem assign_bind (r : ρ) (g : σ → σ) :
    (assign r g >>= k) w = k () { w.use (.access r) with mem := g w.mem } := rfl

/-! ### Loops

        for (i = 0; i < n; i++) body(i);          body i = some a: return a out of the loop -/

def upTo (body : ℕ → Script ρ σ (Option α)) : ℕ → Script ρ σ (Option α)
  | 0 => return none
  | i + 1 => do
    match ← upTo body i with
    | some a => return some a
    | none => body i

/-- The loop without a `return` in its body. -/
def each (body : ℕ → Script ρ σ Unit) : ℕ → Script ρ σ Unit
  | 0 => return ()
  | i + 1 => do
    each body i
    body i

/-- The rule of a loop without a `return`: `I i` holds before the iteration `i`. -/
theorem each_ends {body : ℕ → Script ρ σ Unit} {I : ℕ → World ρ σ → Prop} {n : ℕ} {w : World ρ σ}
    (hstart : I 0 w) (hbody : ∀ i < n, ∀ w, I i w → I (i + 1) (body i w).2) :
    I n (each body n w).2 := by
  induction n with
  | zero => exact hstart
  | succ n ih => exact hbody n (Nat.lt_succ_self n) _ (ih fun i hi => hbody i (Nat.lt_succ_of_lt hi))

/-- How a loop may end: at its bound with `I`, or by a `return` with `Q`. -/
def Ends (I : World ρ σ → Prop) (Q : α → World ρ σ → Prop) (r : Option α × World ρ σ) : Prop :=
  match r with
  | (none, w) => I w
  | (some a, w) => Q a w

/-- The loop rule: `I i` holds before the iteration `i`. -/
theorem upTo_ends {body : ℕ → Script ρ σ (Option α)} {I : ℕ → World ρ σ → Prop}
    {Q : α → World ρ σ → Prop} {n : ℕ} {w : World ρ σ} (hstart : I 0 w)
    (hbody : ∀ i < n, ∀ w, I i w → Ends (I (i + 1)) Q (body i w)) :
    Ends (I n) Q (upTo body n w) := by
  induction n with
  | zero => exact hstart
  | succ n ih =>
    have hn := ih fun i hi => hbody i (Nat.lt_succ_of_lt hi)
    have hrun : upTo body (n + 1) w =
        match upTo body n w with
        | (some a, w) => (some a, w)
        | (none, w) => body n w := by
      simp only [upTo, bind, StateT.bind]
      rcases upTo body n w with ⟨_ | a, w'⟩ <;> rfl
    rw [hrun]
    generalize upTo body n w = r at hn
    rcases r with ⟨_ | a, w'⟩
    · exact hbody n (Nat.lt_succ_self n) w' hn
    · exact hn

end Script

end Ldd.Schemes

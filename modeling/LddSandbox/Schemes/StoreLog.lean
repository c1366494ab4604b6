import LddSandbox.Schemes.Mem
import Mathlib.Data.List.Induction

/-! A memory and the log of its stores. Whatever the stores of a log overlap, the memory they leave
    has at each offset what the latest store that covers the offset put there, and what it had
    before where none does.

        m ──store w₁──▶ · ──store w₂──▶ · ─ .. ─▶ m'        m' p = (latest [w₁, w₂, ..] p).getD (m p) -/

namespace Ldd.Schemes

variable {α : Type*}

/-- A store: the bytes laid down from a position on. -/
structure Write (α : Type*) where
  pos : ℕ
  bytes : List α
  deriving DecidableEq, Repr

/-- What a store puts at an offset, if it covers it. -/
def Write.put (w : Write α) (p : ℕ) : Option α := if w.pos ≤ p then w.bytes[p - w.pos]? else none

/-- What the latest store that covers an offset put there. -/
def latest (ws : List (Write α)) (p : ℕ) : Option α := ws.reverse.findSome? (·.put p)

/-- Carry out the stores of a log. -/
def Mem.replay (m : Mem α) (ws : List (Write α)) : Mem α :=
  ws.foldl (fun m w => m.store w.pos w.bytes) m

theorem Write.put_eq_none {w : Write α} {p : ℕ} :
    w.put p = none ↔ p < w.pos ∨ w.pos + w.bytes.length ≤ p := by
  unfold Write.put
  split
  · rw [List.getElem?_eq_none_iff]; omega
  · exact ⟨fun _ => .inl (by omega), fun _ => rfl⟩

/-! ### One store -/

theorem Mem.store_put (m : Mem α) (w : Write α) (p : ℕ) :
    m.store w.pos w.bytes p = (w.put p).getD (m p) := by
  unfold Mem.store Write.put
  by_cases h : p < w.pos
  · rw [if_pos h, if_neg (by omega)]; rfl
  · rw [if_neg h, if_pos (by omega)]

theorem latest_concat (ws : List (Write α)) (w : Write α) (p : ℕ) :
    latest (ws ++ [w]) p = (w.put p).or (latest ws p) := by
  rw [latest, List.reverse_append, List.reverse_singleton, List.singleton_append,
    List.findSome?_cons]
  cases w.put p <;> rfl

/-! ### A log of stores -/

theorem Mem.replay_append (m : Mem α) (ws ws' : List (Write α)) :
    m.replay (ws ++ ws') = (m.replay ws).replay ws' := List.foldl_append

/-- The memory after a log of stores holds the latest bytes. -/
theorem Mem.replay_latest (m : Mem α) (ws : List (Write α)) (p : ℕ) :
    m.replay ws p = (latest ws p).getD (m p) := by
  induction ws using List.reverseRecOn with
  | nil => rfl
  | append_singleton ws w ih =>
    rw [Mem.replay_append, latest_concat]
    show (m.replay ws).store w.pos w.bytes p = _
    rw [Mem.store_put, ih]
    cases w.put p <;> rfl

/-- Where no store of the log covers an offset, the memory keeps what it had. -/
theorem Mem.replay_uncovered (m : Mem α) {ws : List (Write α)} {p : ℕ}
    (h : ∀ w ∈ ws, w.put p = none) : m.replay ws p = m p := by
  have hnone : latest ws p = none := by
    rw [latest, List.findSome?_eq_none_iff]
    intro w hw
    exact h w (List.mem_reverse.mp hw)
  rw [Mem.replay_latest, hnone]
  rfl

end Ldd.Schemes

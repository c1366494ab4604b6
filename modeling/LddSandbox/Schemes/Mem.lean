import Mathlib.Data.List.Basic
import Mathlib.Tactic.Linarith

/-! Memory scheme: a block of memory is one cell for each offset from its start, and a transfer is
    a `load` of consecutive cells or a `store` of a list of them. Nothing bounds the offsets here:
    whether a transfer stays inside its allocation is for the program to show.

        store m p bs:   .. m m m | b₀ b₁ .. bₖ | m m m ..
                                 p             p + k + 1 -/

namespace Ldd.Schemes

variable {α : Type*}

/-- Memory addressed from the start of an allocation. -/
abbrev Mem (α : Type*) := ℕ → α

namespace Mem

/-- The `n` cells from offset `p` on. -/
def load (m : Mem α) (p n : ℕ) : List α := (List.range n).map fun i => m (p + i)

/-- Memory `m` with the cells from offset `p` on replaced by `bs`. -/
def store (m : Mem α) (p : ℕ) (bs : List α) : Mem α :=
  fun i => if i < p then m i else bs[i - p]?.getD (m i)

@[simp] theorem load_length (m : Mem α) (p n : ℕ) : (m.load p n).length = n := by simp [load]

theorem load_getElem? (m : Mem α) {p n i : ℕ} (hi : i < n) : (m.load p n)[i]? = some (m (p + i)) := by
  simp [load, hi]

/-- A load is cut anywhere into two consecutive loads. -/
theorem load_add (m : Mem α) (p a b : ℕ) : m.load p (a + b) = m.load p a ++ m.load (p + a) b := by
  simp [load, List.range_add, Nat.add_assoc]

theorem take_load (m : Mem α) {p n k : ℕ} (h : k ≤ n) : (m.load p n).take k = m.load p k := by
  obtain ⟨j, rfl⟩ := Nat.exists_eq_add_of_le h
  rw [load_add, List.take_left' (load_length ..)]

theorem drop_load (m : Mem α) {p n k : ℕ} (h : k ≤ n) :
    (m.load p n).drop k = m.load (p + k) (n - k) := by
  obtain ⟨j, rfl⟩ := Nat.exists_eq_add_of_le h
  rw [load_add, List.drop_left' (load_length ..), Nat.add_sub_cancel_left]

theorem load_congr {m m' : Mem α} {p n : ℕ} (h : ∀ i, p ≤ i → i < p + n → m i = m' i) :
    m.load p n = m'.load p n := by
  refine List.map_congr_left fun i hi => h _ (Nat.le_add_right ..) ?_
  have := List.mem_range.mp hi
  omega

theorem store_before {m : Mem α} {p i : ℕ} {bs : List α} (h : i < p) : m.store p bs i = m i := by
  simp [store, h]

theorem store_inside {m : Mem α} {p i : ℕ} {bs : List α} (h : i < bs.length) :
    m.store p bs (p + i) = bs[i] := by
  simp [store, h]

theorem store_after {m : Mem α} {p i : ℕ} {bs : List α} (h : p + bs.length ≤ i) :
    m.store p bs i = m i := by
  rw [store, if_neg (by omega), List.getElem?_eq_none (by omega), Option.getD_none]

/-- A load that ends before the store does not see it. -/
theorem load_store_before (m : Mem α) {p n q : ℕ} (bs : List α) (h : p + n ≤ q) :
    (m.store q bs).load p n = m.load p n :=
  load_congr fun _ _ hi => store_before (by omega)

/-- A load of cells that the store does not touch. -/
theorem load_store_apart (m : Mem α) {p n q : ℕ} {bs : List α}
    (h : ∀ i, p ≤ i → i < p + n → i < q ∨ q + bs.length ≤ i) :
    (m.store q bs).load p n = m.load p n :=
  load_congr fun i hlow hhigh => (h i hlow hhigh).elim store_before store_after

/-- Two ranges that agree, loaded from at the same place. -/
theorem load_shift {m m' : Mem α} {a b size p n : ℕ} (h : ∀ i < size, m (a + i) = m' (b + i))
    (hend : p + n ≤ size) : m.load (a + p) n = m'.load (b + p) n := by
  refine List.map_congr_left fun i hi => ?_
  have hlt := List.mem_range.mp hi
  rw [Nat.add_assoc, Nat.add_assoc]
  exact h (p + i) (by omega)

/-- Two ranges that agree do so after the same store at the same place. -/
theorem store_shift {m m' : Mem α} {a b size : ℕ} (h : ∀ i < size, m (a + i) = m' (b + i)) (p : ℕ)
    (bs : List α) : ∀ i < size, m.store (a + p) bs (a + i) = m'.store (b + p) bs (b + i) := by
  intro i hi
  simp only [store, Nat.add_lt_add_iff_left, Nat.add_sub_add_left, h i hi]

/-- A store is cut anywhere into two consecutive stores. -/
theorem store_append (m : Mem α) (p : ℕ) (as bs : List α) :
    m.store p (as ++ bs) = (m.store p as).store (p + as.length) bs := by
  funext i
  by_cases hi : i < p + as.length
  · rw [store_before hi]
    unfold store
    split
    · rfl
    · rw [List.getElem?_append_left (by omega)]
  · rw [store, store, if_neg (by omega), if_neg hi, store_after (by omega),
      List.getElem?_append_right (by omega), Nat.sub_sub]

/-- Stores of different cells may be done in any order. -/
theorem store_comm (m : Mem α) {p q : ℕ} {as bs : List α}
    (h : ∀ i, p ≤ i → i < p + as.length → i < q ∨ q + bs.length ≤ i) :
    (m.store p as).store q bs = (m.store q bs).store p as := by
  funext i
  by_cases hp : p ≤ i ∧ i < p + as.length
  · have houtside : ∀ m : Mem α, m.store q bs i = m i := fun m =>
      (h i hp.1 hp.2).elim store_before store_after
    rw [houtside, store, store, houtside]
  · have houtside : ∀ m : Mem α, m.store p as i = m i := by
      intro m
      rcases Nat.lt_or_ge i p with hlt | hge
      · exact store_before hlt
      · exact store_after (by omega)
    rw [houtside, store, houtside, ← store]

/-- A store is read back. -/
theorem load_store_self (m : Mem α) (p : ℕ) (bs : List α) : (m.store p bs).load p bs.length = bs := by
  refine List.ext_getElem (load_length ..) fun i hi hi' => ?_
  simp only [load, List.getElem_map, List.getElem_range]
  exact store_inside hi'

end Mem

end Ldd.Schemes

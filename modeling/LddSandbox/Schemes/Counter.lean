import LddSandbox.Schemes.Threads
import Mathlib.Data.List.DropRight

/-! Counter scheme: a counter that threads increment without a lock, each with a load and a store.

        p:   load v ──────────────────────▶ store (v + 1)
        q:            load v ▶ store (v + 1)                  one increment is lost

    The counter never runs ahead of the stores, and it is exact precisely if every store was of a
    value loaded since the store before it; once one was not, it never catches up (`counted`). -/

namespace Ldd.Schemes

/-- What a step does with the counter. -/
inductive Touch | load | store | other
  deriving DecidableEq

variable {ι σ π γ ε : Type*}

/-- The stores of a run. -/
def stores (kind : ε → Touch) (tr : List (ι × ε)) : ℕ := tr.countP fun x => kind x.2 = .store

/-- The thread has loaded the counter since it was last stored. -/
def LoadedSince (kind : ε → Touch) (p : ι) (tr : List (ι × ε)) : Prop :=
  ∃ e, kind e = .load ∧ (p, e) ∈ tr.rtakeWhile fun x => kind x.2 ≠ .store

/-- No store falls between the load and the store of another thread. -/
def OneByOne (kind : ε → Touch) (tr : List (ι × ε)) : Prop :=
  ∀ before p e after, tr = before ++ (p, e) :: after → kind e = .store → LoadedSince kind p before

section Traces
variable {kind : ε → Touch} {tr : List (ι × ε)} {p r : ι} {e : ε}

theorem stores_store (h : kind e = .store) : stores kind (tr ++ [(p, e)]) = stores kind tr + 1 := by
  simp [stores, h]

theorem stores_other (h : kind e ≠ .store) : stores kind (tr ++ [(p, e)]) = stores kind tr := by
  simp [stores, h]

theorem stores_le (kind : ε → Touch) (tr : List (ι × ε)) (x : ι × ε) :
    stores kind tr ≤ stores kind (tr ++ [x]) := by
  simp [stores]

/-- Nobody has loaded a value that was just stored. -/
theorem not_loadedSince_store (h : kind e = .store) : ¬ LoadedSince kind r (tr ++ [(p, e)]) := by
  rintro ⟨e', -, hmem⟩
  rw [List.rtakeWhile_concat_neg _ _ _ (by simp [h])] at hmem
  cases hmem

theorem loadedSince_other (h : kind e ≠ .store) :
    LoadedSince kind r (tr ++ [(p, e)]) ↔ LoadedSince kind r tr ∨ r = p ∧ kind e = .load := by
  unfold LoadedSince
  rw [List.rtakeWhile_concat_pos _ _ _ (by simp [h])]
  constructor
  · rintro ⟨e', hload, hmem⟩
    rcases List.mem_append.mp hmem with hmem | hmem
    · exact .inl ⟨e', hload, hmem⟩
    · obtain ⟨rfl, rfl⟩ := Prod.mk.inj (List.mem_singleton.mp hmem)
      exact .inr ⟨rfl, hload⟩
  · rintro (⟨e', hload, hmem⟩ | ⟨rfl, hload⟩)
    · exact ⟨e', hload, List.mem_append_left _ hmem⟩
    · exact ⟨e, hload, List.mem_append_right _ (List.mem_singleton_self _)⟩

theorem oneByOne_append : OneByOne kind (tr ++ [(p, e)]) ↔
    OneByOne kind tr ∧ (kind e = .store → LoadedSince kind p tr) := by
  constructor
  · intro h
    refine ⟨fun before q e' after htr => ?_, h tr p e [] rfl⟩
    exact h before q e' (after ++ [(p, e)]) (by rw [htr, List.append_assoc, List.cons_append])
  · rintro ⟨htr, hlast⟩ before q e' after heq hstore
    rcases List.eq_nil_or_concat after with rfl | ⟨after', x, rfl⟩
    · obtain ⟨rfl, hx⟩ := List.append_inj' heq rfl
      obtain ⟨rfl, rfl⟩ := Prod.mk.inj (List.singleton_inj.mp hx)
      exact hlast hstore
    · rw [List.concat_eq_append, ← List.cons_append, ← List.append_assoc] at heq
      exact htr before q e' after' (List.append_inj' heq rfl).1 hstore

end Traces

variable {P : Program ι σ π γ ε}

/-- The steps of a program whose threads increment `reg`: `noted` is what a thread has loaded and
    not yet stored, and below `top` a store is of the number after it. -/
structure Increments (P : Program ι σ π γ ε) (reg : σ → ℤ) (noted : π → Option ℤ)
    (kind : ε → Touch) (top : ℤ) : Prop where
  load : ∀ {p g s k s' k' e}, P.next p g s k = some (s', k', e) → kind e = .load →
    reg s' = reg s ∧ noted k' = some (reg s)
  store : ∀ {p g s k s' k' e}, P.next p g s k = some (s', k', e) → kind e = .store →
    ∃ v, noted k = some v ∧ noted k' = none ∧ (0 ≤ v → v < top → reg s' = v + 1)
  other : ∀ {p g s k s' k' e}, P.next p g s k = some (s', k', e) → kind e = .other →
    reg s' = reg s ∧ noted k' = noted k
  hear : ∀ e k, noted (P.hear e k) = noted k

namespace Increments
variable {reg : σ → ℤ} {noted : π → Option ℤ} {kind : ε → Touch} {top : ℤ}

/-- What a noted value says of the stores. -/
structure Noted (kind : ε → Touch) (tr : List (ι × ε)) (count : ℤ) (p : ι) (v : ℤ) : Prop where
  nonneg : 0 ≤ v
  le : v ≤ stores kind tr
  fresh : LoadedSince kind p tr → v = count
  stale : ¬ LoadedSince kind p tr → v < stores kind tr

/-- The counter, the values noted, and the stores. -/
structure Counted (reg : σ → ℤ) (noted : π → Option ℤ) (kind : ε → Touch) (tr : List (ι × ε))
    (c : Conf ι σ π) : Prop where
  low : min 1 (stores kind tr : ℤ) ≤ reg c.shared
  high : reg c.shared ≤ stores kind tr
  noted : ∀ r v, noted (c.pc r) = some v → Noted kind tr (reg c.shared) r v
  exact_iff : reg c.shared = stores kind tr ↔ OneByOne kind tr

variable {c c' : Conf ι σ π} {tr : List (ι × ε)} {p : ι} {g : γ} {e : ε}

theorem Counted.start {c₀ : Conf ι σ π} (h0 : reg c₀.shared = 0)
    (hnone : ∀ r, noted (c₀.pc r) = none) : Counted reg noted kind [] c₀ where
  low := by rw [h0]; exact Int.min_le_right _ _
  high := by rw [h0]; exact Int.le_refl _
  noted r v hv := by rw [hnone] at hv; cases hv
  exact_iff := by
    refine ⟨fun _ before p e after heq => ?_, fun _ => h0⟩
    exact absurd heq.symm (List.append_ne_nil_of_right_ne_nil _ (List.cons_ne_nil _ _))

/-- A step that stores nothing; a load notes the counter as it is. -/
theorem Counted.load (h : Counted reg noted kind tr c) (hkind : kind e ≠ .store)
    (hreg : reg c'.shared = reg c.shared)
    (hown : ∀ v, noted (c'.pc p) = some v →
      kind e = .load ∧ v = reg c.shared ∨ kind e = .other ∧ noted (c.pc p) = some v)
    (hothers : ∀ r, r ≠ p → noted (c'.pc r) = noted (c.pc r)) :
    Counted reg noted kind (tr ++ [(p, e)]) c' := by
  have hstores : stores kind (tr ++ [(p, e)]) = stores kind tr := stores_other hkind
  -- an old value stays as fresh as it was
  have hkeep : ∀ r v, kind e = .other ∨ r ≠ p → noted (c.pc r) = some v →
      Noted kind (tr ++ [(p, e)]) (reg c'.shared) r v := by
    intro r v hr hv
    obtain ⟨hnonneg, hle, hfresh, hstale⟩ := h.noted r v hv
    have hsame : LoadedSince kind r (tr ++ [(p, e)]) ↔ LoadedSince kind r tr := by
      rw [loadedSince_other hkind, or_iff_left]
      rintro ⟨rfl, hload⟩
      rcases hr with hr | hr
      · rw [hload] at hr
        cases hr
      · exact hr rfl
    refine ⟨hnonneg, hstores ▸ hle, ?_, ?_⟩
    · rw [hsame, hreg]
      exact hfresh
    · rw [hsame, hstores]
      exact hstale
  refine ⟨by rw [hstores, hreg]; exact h.low, by rw [hstores, hreg]; exact h.high, ?_, ?_⟩
  · intro r v hv
    rcases eq_or_ne r p with rfl | hr
    · rcases hown v hv with ⟨hload, rfl⟩ | ⟨hother, hv⟩
      · have hsince : LoadedSince kind r (tr ++ [(r, e)]) :=
          (loadedSince_other hkind).mpr (.inr ⟨rfl, hload⟩)
        have hlow := h.low
        refine ⟨by omega, hstores ▸ h.high, fun _ => hreg.symm, fun hnot => absurd hsince hnot⟩
      · exact hkeep r v (.inl hother) hv
    · exact hkeep r v (.inr hr) (hothers r hr ▸ hv)
  · rw [hstores, hreg, oneByOne_append, h.exact_iff]
    exact ⟨fun hone => ⟨hone, fun hs => absurd hs hkind⟩, And.left⟩

/-- A store of the number after a noted value. -/
theorem Counted.store (h : Counted reg noted kind tr c) (hkind : kind e = .store) {v : ℤ}
    (hv : noted (c.pc p) = some v) (hnone : noted (c'.pc p) = none)
    (hreg : reg c'.shared = v + 1) (hothers : ∀ r, r ≠ p → noted (c'.pc r) = noted (c.pc r)) :
    Counted reg noted kind (tr ++ [(p, e)]) c' := by
  obtain ⟨hnonneg, hle, hfresh, hstale⟩ := h.noted p v hv
  have hstores : (stores kind (tr ++ [(p, e)]) : ℤ) = stores kind tr + 1 := by
    rw [stores_store hkind]
    rfl
  refine ⟨by omega, by omega, ?_, ?_⟩
  · intro r u hu
    rcases eq_or_ne r p with rfl | hr
    · rw [hnone] at hu
      cases hu
    · obtain ⟨hnonneg', hle', -, -⟩ := h.noted r u (hothers r hr ▸ hu)
      refine ⟨hnonneg', by omega, fun hs => ?_, fun _ => by omega⟩
      exact absurd hs (not_loadedSince_store hkind)
  · rw [hreg, hstores, oneByOne_append]
    constructor
    · intro heq
      have hsince : LoadedSince kind p tr := by
        by_contra hnot
        have := hstale hnot
        omega
      refine ⟨h.exact_iff.mp ?_, fun _ => hsince⟩
      have := hfresh hsince
      omega
    · rintro ⟨hone, hsince⟩
      have hcount := h.exact_iff.mpr hone
      have := hfresh (hsince hkind)
      omega

/-- UNLOCKED COUNTING: in every run the counter is at least `1` once it was stored and at most the
    number of stores, and it is that number exactly if the increments were made one by one. -/
theorem counted [DecidableEq ι] (h : Increments P reg noted kind top)
    {ok : ι → γ → Conf ι σ π → Prop} {c₀ : Conf ι σ π} (hrun : P.Run ok c₀ tr c)
    (h0 : reg c₀.shared = 0) (hnone : ∀ r, noted (c₀.pc r) = none) (htop : stores kind tr ≤ top) :
    Counted reg noted kind tr c := by
  revert htop
  refine hrun.history (I := fun tr c => (stores kind tr : ℤ) ≤ top → Counted reg noted kind tr c)
    (fun _ => .start h0 hnone) ?_
  intro tr p g c e c' hI _ hf htop
  obtain ⟨hn, hothers⟩ := Program.fire_spec hf
  have hrest : ∀ r, r ≠ p → noted (c'.pc r) = noted (c.pc r) := fun r hr => by
    rw [hothers r hr, h.hear]
  have hle := stores_le kind tr (p, e)
  have hc := hI (by omega)
  cases hkind : kind e with
  | load =>
    obtain ⟨hreg, hnoted⟩ := h.load hn hkind
    refine hc.load (by simp [hkind]) hreg (fun v hv => ?_) hrest
    rw [hnoted] at hv
    cases hv
    exact .inl ⟨hkind, rfl⟩
  | other =>
    obtain ⟨hreg, hnoted⟩ := h.other hn hkind
    exact hc.load (by simp [hkind]) hreg (fun v hv => .inr ⟨hkind, hnoted ▸ hv⟩) hrest
  | store =>
    obtain ⟨v, hv, hnone, hreg⟩ := h.store hn hkind
    obtain ⟨hnonneg, hle, -, -⟩ := hc.noted p v hv
    have hstores : stores kind (tr ++ [(p, e)]) = stores kind tr + 1 := stores_store hkind
    exact hc.store hkind hv hnone (hreg hnonneg (by omega)) hrest

end Increments

end Ldd.Schemes

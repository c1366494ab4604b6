import LddSandbox.Schemes.Threads

/-! Commutation scheme: actions of several threads on one state, each list of actions tagged with
    the thread that takes them. An interleaving is any list with the same own actions of every
    thread.

        own a:   a₁ a₂          a₁ b₁ a₂ b₂        b₁ a₁ b₂ a₂
        own b:   b₁ b₂          ───────────   =    ───────────     if every aᵢ commutes with every bⱼ

    Actions of one thread need not commute. `foldl_interleaved` moves the first action of one list
    to the front of the other, past the actions of other threads before it. -/

namespace Ldd.Schemes

variable {ι σ α : Type*} {act : σ → α → σ}

/-- The action of an entry. -/
def effect (act : σ → α → σ) (s : σ) (x : ι × α) : σ := act s x.2

/-- Actions of different threads may be taken in either order. -/
def Commuting (act : σ → α → σ) (xs : List (ι × α)) : Prop :=
  ∀ x ∈ xs, ∀ y ∈ xs, x.1 ≠ y.1 → ∀ s, act (act s x.2) y.2 = act (act s y.2) x.2

variable {xs ys : List (ι × α)} {r : ι} {a : α}

/-- The tags do not matter for what actions do. -/
theorem foldl_effect (xs : List (ι × α)) (s : σ) :
    xs.foldl (effect act) s = (xs.map Prod.snd).foldl act s := by
  rw [List.foldl_map]
  rfl

/-- An action moves to the front past those that it commutes with. -/
theorem foldl_effect_comm (h : ∀ y ∈ xs, ∀ s, act (act s y.2) a = act (act s a) y.2) (s : σ) :
    act (xs.foldl (effect act) s) a = xs.foldl (effect act) (act s a) := by
  induction xs generalizing s with
  | nil => rfl
  | cons y xs ih =>
    have hy := h y (List.mem_cons_self ..) s
    rw [List.foldl_cons, ih fun z hz => h z (List.mem_cons_of_mem _ hz), List.foldl_cons]
    exact congrArg (xs.foldl (effect act)) hy

variable [DecidableEq ι]

@[simp] theorem own_nil (r : ι) : own r ([] : List (ι × α)) = [] := rfl

theorem own_append (r : ι) (xs ys : List (ι × α)) : own r (xs ++ ys) = own r xs ++ own r ys := by
  simp [own, List.filter_append]

theorem own_cons_self (r : ι) (a : α) (xs : List (ι × α)) :
    own r ((r, a) :: xs) = a :: own r xs := by
  simp [own]

theorem own_cons_other {p : ι} (h : p ≠ r) (a : α) (xs : List (ι × α)) :
    own r ((p, a) :: xs) = own r xs := by
  simp [own, h]

/-- The actions of one thread, tagged. -/
theorem own_tagged (p r : ι) (as : List α) :
    own r (as.map (p, ·)) = if p = r then as else [] := by
  induction as with
  | nil => rw [List.map_nil, own_nil, ite_self]
  | cons a as ih =>
    by_cases h : p = r
    · subst h
      rw [List.map_cons, own_cons_self, ih, if_pos rfl, if_pos rfl]
    · rw [List.map_cons, own_cons_other h, ih, if_neg h, if_neg h]

/-- One thread after another is an interleaving. -/
theorem own_flatMap {order : List ι} (hnodup : order.Nodup) (hr : r ∈ order) (f : ι → List α) :
    own r (order.flatMap fun p => (f p).map (p, ·)) = f r := by
  induction order with
  | nil => cases hr
  | cons p order ih =>
    rw [List.nodup_cons] at hnodup
    rw [List.flatMap_cons, own_append, own_tagged]
    by_cases hp : p = r
    · subst hp
      have hnone : own p (order.flatMap fun q => (f q).map (q, ·)) = [] := by
        refine List.eq_nil_iff_forall_not_mem.mpr fun a ha => ?_
        obtain ⟨q, hq, ha⟩ := List.mem_flatMap.mp (mem_own.mp ha)
        obtain ⟨b, -, heq⟩ := List.mem_map.mp ha
        cases heq
        exact hnodup.1 hq
      rw [if_pos rfl, hnone, List.append_nil]
    · rw [if_neg hp, List.nil_append]
      exact ih hnodup.2 ((List.mem_cons.mp hr).resolve_left (Ne.symm hp))

/-- The first own action of a thread, and what is before it. -/
theorem own_split {as : List α} (h : own r xs = a :: as) :
    ∃ pre post, xs = pre ++ (r, a) :: post ∧ own r pre = [] ∧ own r post = as := by
  induction xs with
  | nil => cases h
  | cons x xs ih =>
    obtain ⟨p, b⟩ := x
    by_cases hp : p = r
    · subst hp
      rw [own_cons_self, List.cons.injEq] at h
      obtain ⟨rfl, has⟩ := h
      exact ⟨[], xs, rfl, rfl, has⟩
    · rw [own_cons_other hp] at h
      obtain ⟨pre, post, rfl, hpre, hpost⟩ := ih h
      exact ⟨(p, b) :: pre, post, rfl, by rw [own_cons_other hp, hpre], hpost⟩

/-- All interleavings of the same own actions have one result, if the actions of different threads
    commute. -/
theorem foldl_interleaved (hcomm : Commuting act xs) (h : ∀ r, own r xs = own r ys) (s : σ) :
    xs.foldl (effect act) s = ys.foldl (effect act) s := by
  induction xs generalizing ys s with
  | nil =>
    have hys : ys = [] := by
      cases ys with
      | nil => rfl
      | cons y ys =>
        have hy := h y.1
        rw [own_nil, own_cons_self] at hy
        cases hy
    rw [hys]
  | cons x xs ih =>
    obtain ⟨p, a⟩ := x
    have hp := (own_cons_self p a xs).symm.trans (h p)
    obtain ⟨pre, post, rfl, hpre, hpost⟩ := own_split hp.symm
    -- what is before the action belongs to other threads, and moves behind it
    have hmove : ∀ y ∈ pre, ∀ s, act (act s y.2) a = act (act s a) y.2 := by
      rintro ⟨q, b⟩ hy s
      have hq : q ≠ p := by
        rintro rfl
        have hb : b ∈ own q pre := mem_own.mpr hy
        rw [hpre] at hb
        cases hb
      have hmem : (q, b) ∈ (p, a) :: xs := by
        have hb : b ∈ own q (pre ++ (p, a) :: post) :=
          mem_own.mpr (List.mem_append_left _ hy)
        rw [← h q] at hb
        exact mem_own.mp hb
      exact hcomm _ hmem _ (List.mem_cons_self ..) hq s
    have hrest : ∀ r, own r xs = own r (pre ++ post) := by
      intro r
      have hr := h r
      rw [own_append] at hr ⊢
      by_cases hpr : p = r
      · subst hpr
        rw [hpre, hpost, List.nil_append]
      · rwa [own_cons_other hpr, own_cons_other hpr] at hr
    have hcomm' : Commuting act xs := fun x hx y hy =>
      hcomm x (List.mem_cons_of_mem _ hx) y (List.mem_cons_of_mem _ hy)
    rw [List.foldl_cons, List.foldl_append, List.foldl_cons]
    show xs.foldl _ (act s a) = post.foldl _ (act (pre.foldl _ s) a)
    rw [ih hcomm' hrest, List.foldl_append, foldl_effect_comm hmove]

end Ldd.Schemes

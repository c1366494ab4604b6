import Mathlib.Algebra.Order.BigOperators.Group.Finset
import Mathlib.Data.List.Basic
import Mathlib.Logic.Function.Basic

/-! Thread scheme: one program run by any number of threads over one shared state.

    A step is taken by one thread `p` under an environment choice `g` (a signal, a fault, the call
    it makes next). It changes the shared state and `p`'s own control point, and emits an event.
    Every other thread hears the event: that is how a wake-up reaches a sleeper. A run is any
    interleaving of such steps; `ok` restricts the steps a run may take, and `anyStep` restricts
    nothing.

        step (p, g):   s, k_p ──▶ s', k_p'   emits e      k_r ──▶ hear e k_r   (r ≠ p)

    The rules below turn facts about one step into facts about every run: `Run.own` follows one
    thread, `Run.everywhere` all of them with the shared state, and `Mutex.exclusive` and
    `Mutex.guarded` the holder of a lock. -/

namespace Ldd.Schemes

variable {ι σ π γ ε : Type*}

/-- The atomic steps of a thread, and what the others hear of the event a step emits. -/
structure Program (ι σ π γ ε : Type*) where
  next : ι → γ → σ → π → Option (σ × π × ε)
  hear : ε → π → π

/-- The shared state and the control point of every thread. -/
structure Conf (ι σ π : Type*) where
  shared : σ
  pc : ι → π

/-- The events of one thread, in order. -/
def own [DecidableEq ι] (r : ι) (tr : List (ι × ε)) : List ε :=
  (tr.filter fun x => x.1 = r).map Prod.snd

/-- The restriction that allows every step. -/
def anyStep : ι → γ → Conf ι σ π → Prop := fun _ _ _ => True

/-- The test that lets every step through. -/
def anyway : ι → γ → Conf ι σ π → Bool := fun _ _ _ => true

theorem anyway_any (p : ι) (g : γ) (c : Conf ι σ π) (_ : anyway p g c = true) : anyStep p g c :=
  trivial

/-- A restriction that can be decided, as a test. -/
def testing (ok : ι → γ → Conf ι σ π → Prop) [∀ p g c, Decidable (ok p g c)] :
    ι → γ → Conf ι σ π → Bool := fun p g c => decide (ok p g c)

theorem testing_ok {ok : ι → γ → Conf ι σ π → Prop} [∀ p g c, Decidable (ok p g c)] (p : ι)
    (g : γ) (c : Conf ι σ π) (h : testing ok p g c = true) : ok p g c :=
  of_decide_eq_true h

/-- Thread `p` takes `n` steps by default. -/
def moves [Inhabited γ] (p : ι) (n : ℕ) : List (ι × γ) := List.replicate n (p, default)

/-- Thread `p` takes a step under choice `g`, and `n` more by default. -/
def calls [Inhabited γ] (p : ι) (g : γ) (n : ℕ) : List (ι × γ) := (p, g) :: moves p n

section Own
variable [DecidableEq ι]

@[simp] theorem own_self (r : ι) (tr : List (ι × ε)) (e : ε) :
    own r (tr ++ [(r, e)]) = own r tr ++ [e] := by
  simp [own, List.filter_append]

theorem own_other {p r : ι} (h : p ≠ r) (tr : List (ι × ε)) (e : ε) :
    own r (tr ++ [(p, e)]) = own r tr := by
  simp [own, List.filter_append, h]

theorem mem_own {r : ι} {e : ε} {tr : List (ι × ε)} : e ∈ own r tr ↔ (r, e) ∈ tr := by
  simp [own]

end Own

namespace Program

variable [DecidableEq ι] (P : Program ι σ π γ ε)

/-- Thread `p` takes its step under choice `g`; the others hear the event. -/
def fire (p : ι) (g : γ) (c : Conf ι σ π) : Option (ε × Conf ι σ π) :=
  (P.next p g c.shared (c.pc p)).map fun x =>
    (x.2.2, ⟨x.1, fun r => if r = p then x.2.1 else P.hear x.2.2 (c.pc r)⟩)

/-- The runs from `c₀` whose steps all meet `ok`, each with the events emitted so far. -/
inductive Run (ok : ι → γ → Conf ι σ π → Prop) (c₀ : Conf ι σ π) :
    List (ι × ε) → Conf ι σ π → Prop
  | start : Run ok c₀ [] c₀
  | step {tr : List (ι × ε)} {c : Conf ι σ π} {p : ι} {g : γ} {e : ε} {c' : Conf ι σ π} :
      Run ok c₀ tr c → ok p g c → P.fire p g c = some (e, c') → Run ok c₀ (tr ++ [(p, e)]) c'

/-- Execute a schedule as long as its steps pass a test, collecting the events. -/
def exec (allow : ι → γ → Conf ι σ π → Bool) :
    List (ι × γ) → Conf ι σ π → Option (List (ι × ε) × Conf ι σ π)
  | [], c => some ([], c)
  | (p, g) :: rest, c =>
    match P.fire p g c with
    | none => none
    | some (e, c') =>
      if allow p g c then (exec allow rest c').map fun x => ((p, e) :: x.1, x.2) else none

variable {P}
variable {ok : ι → γ → Conf ι σ π → Prop} {c₀ c : Conf ι σ π} {tr : List (ι × ε)}

/-- What one fired step does: the stepping thread moves, the others only hear the event. -/
theorem fire_spec {p : ι} {g : γ} {e : ε} {c' : Conf ι σ π} (h : P.fire p g c = some (e, c')) :
    P.next p g c.shared (c.pc p) = some (c'.shared, c'.pc p, e) ∧
      ∀ r, r ≠ p → c'.pc r = P.hear e (c.pc r) := by
  simp only [fire, Option.map_eq_some_iff] at h
  obtain ⟨⟨s, k, e'⟩, hn, heq⟩ := h
  simp only [Prod.mk.injEq] at heq
  obtain ⟨rfl, rfl⟩ := heq
  exact ⟨by simpa using hn, fun r hr => by simp [hr]⟩

/-- An executed schedule extends a run. -/
theorem Run.exec {allow : ι → γ → Conf ι σ π → Bool} (hok : ∀ p g c, allow p g c = true → ok p g c) :
    ∀ {sched : List (ι × γ)} {tr tr' : List (ι × ε)} {c c' : Conf ι σ π}, P.Run ok c₀ tr c →
      P.exec allow sched c = some (tr', c') → P.Run ok c₀ (tr ++ tr') c'
  | [], tr, tr', c, c', hrun, h => by
    simp only [Program.exec, Option.some.injEq, Prod.mk.injEq] at h
    obtain ⟨rfl, rfl⟩ := h
    simpa using hrun
  | (p, g) :: rest, tr, tr', c, c', hrun, h => by
    simp only [Program.exec] at h
    cases hf : P.fire p g c with
    | none => simp [hf] at h
    | some x =>
      obtain ⟨e, c₁⟩ := x
      simp only [hf, Option.ite_none_right_eq_some, Option.map_eq_some_iff] at h
      obtain ⟨hallow, ⟨tr₁, c₂⟩, hrest, heq⟩ := h
      simp only [Prod.mk.injEq] at heq
      obtain ⟨rfl, rfl⟩ := heq
      simpa using Run.exec hok (hrun.step (hok p g c hallow) hf) hrest

/-- A schedule that executes to its end gives a run. -/
theorem Run.of_exec {allow : ι → γ → Conf ι σ π → Bool} {sched : List (ι × γ)}
    (hok : ∀ p g c, allow p g c = true → ok p g c) (h : (P.exec allow sched c₀).isSome = true) :
    P.Run ok c₀ ((P.exec allow sched c₀).get h).1 ((P.exec allow sched c₀).get h).2 := by
  obtain ⟨x, hx⟩ := Option.isSome_iff_exists.mp h
  have hrun := Run.exec hok .start hx
  simp only [hx, Option.get_some]
  simpa using hrun

/-- A run whose steps meet a stronger restriction. -/
theorem Run.mono {ok' : ι → γ → Conf ι σ π → Prop} (hok : ∀ p g c, ok p g c → ok' p g c)
    (hrun : P.Run ok c₀ tr c) : P.Run ok' c₀ tr c := by
  induction hrun with
  | start => exact .start
  | step _ hp hf ih => exact ih.step (hok _ _ _ hp) hf

/-- A run goes on with another from where it ended. -/
theorem Run.trans {tr' : List (ι × ε)} {c' : Conf ι σ π} (hrun : P.Run ok c₀ tr c)
    (hrun' : P.Run ok c tr' c') : P.Run ok c₀ (tr ++ tr') c' := by
  induction hrun' with
  | start => rwa [List.append_nil]
  | step _ hp hf ih =>
    rw [← List.append_assoc]
    exact ih.step hp hf

/-- Follow one thread: a fact about its own events and its control point that its steps and the
    events it hears preserve holds in every run. -/
theorem Run.own {J : List ε → π → Prop} (hrun : P.Run ok c₀ tr c) (h0 : ∀ r, J [] (c₀.pc r))
    (hnext : ∀ p g s k s' k' e es, J es k → P.next p g s k = some (s', k', e) → J (es ++ [e]) k')
    (hhear : ∀ e es k, J es k → J es (P.hear e k)) (r : ι) : J (Schemes.own r tr) (c.pc r) := by
  induction hrun with
  | start => exact h0 r
  | @step tr c p g e c' _ _ hf ih =>
    obtain ⟨hn, hothers⟩ := fire_spec hf
    rcases eq_or_ne r p with rfl | hr
    · rw [own_self]; exact hnext _ _ _ _ _ _ _ _ ih hn
    · rw [own_other hr.symm, hothers r hr]; exact hhear _ _ _ ih

/-- Every thread at once: an assertion about the shared state and a control point that a thread's
    own step carries along, and that no step of another invalidates, holds of every thread in every
    run. -/
theorem Run.everywhere {L : σ → π → Prop} (hrun : P.Run ok c₀ tr c)
    (h0 : ∀ r, L c₀.shared (c₀.pc r))
    (hstep : ∀ p g c s' k' e, (∀ r, L c.shared (c.pc r)) → ok p g c →
      P.next p g c.shared (c.pc p) = some (s', k', e) →
      L s' k' ∧ ∀ r, r ≠ p → L s' (P.hear e (c.pc r))) (r : ι) : L c.shared (c.pc r) := by
  induction hrun generalizing r with
  | start => exact h0 r
  | @step tr c p g e c' _ hok hf ih =>
    obtain ⟨hn, hothers⟩ := fire_spec hf
    obtain ⟨hown, hrest⟩ := hstep p g c _ _ e ih hok hn
    rcases eq_or_ne r p with rfl | hr
    · exact hown
    · rw [hothers r hr]; exact hrest r hr

/-- An invariant of the events so far and the configuration, kept by every step that the run may
    take. -/
theorem Run.history {I : List (ι × ε) → Conf ι σ π → Prop} (hrun : P.Run ok c₀ tr c)
    (h0 : I [] c₀)
    (hstep : ∀ tr p g c e c', I tr c → ok p g c → P.fire p g c = some (e, c') →
      I (tr ++ [(p, e)]) c') : I tr c := by
  induction hrun with
  | start => exact h0
  | @step tr c p g e c' _ hok hf ih => exact hstep tr p g c e c' ih hok hf

/-- An invariant of the configurations. -/
theorem Run.always {I : Conf ι σ π → Prop} (hrun : P.Run ok c₀ tr c) (h0 : I c₀)
    (hstep : ∀ p g c e c', I c → ok p g c → P.fire p g c = some (e, c') → I c') : I c :=
  hrun.history (I := fun _ => I) h0 fun _ => hstep

/-- Finitely many threads, each with fewer steps left after each of its steps, take so many steps
    in all. -/
theorem Run.bounded [Fintype ι] {left : π → ℕ} (hrun : P.Run ok c₀ tr c)
    (hstep : ∀ p g s k s' k' e, P.next p g s k = some (s', k', e) → left k' < left k)
    (hhear : ∀ e k, left (P.hear e k) = left k) :
    tr.length + ∑ r, left (c.pc r) ≤ ∑ r, left (c₀.pc r) := by
  refine hrun.history (I := fun tr c => tr.length + ∑ r, left (c.pc r) ≤ ∑ r, left (c₀.pc r))
    (Nat.zero_add _).le ?_
  intro tr p g c e c' hI _ hf
  obtain ⟨hn, hothers⟩ := fire_spec hf
  have hless : ∑ r, left (c'.pc r) < ∑ r, left (c.pc r) := by
    refine Finset.sum_lt_sum (fun r _ => ?_) ⟨p, Finset.mem_univ p, hstep _ _ _ _ _ _ _ hn⟩
    rcases eq_or_ne r p with rfl | hr
    · exact (hstep _ _ _ _ _ _ _ hn).le
    · rw [hothers r hr, hhear]
  rw [List.length_append, List.length_singleton]
  omega

/-- A counter of which each thread has a share, that moves with the shares of the threads. -/
theorem Run.shares [Fintype ι] (count : σ → ℤ) {share : π → ℕ} (hrun : P.Run ok c₀ tr c)
    (h0 : count c₀.shared = (∑ r, share (c₀.pc r) : ℕ))
    (hstep : ∀ p g c s' k' e, ok p g c → P.next p g c.shared (c.pc p) = some (s', k', e) →
      count s' + share (c.pc p) = count c.shared + share k')
    (hhear : ∀ e k, share (P.hear e k) = share k) :
    count c.shared = (∑ r, share (c.pc r) : ℕ) := by
  refine hrun.always (I := fun c => count c.shared = (∑ r, share (c.pc r) : ℕ)) h0 ?_
  intro p g c e c' hI hok hf
  obtain ⟨hn, hothers⟩ := fire_spec hf
  have hrest : ∑ r ∈ Finset.univ.erase p, share (c'.pc r) =
      ∑ r ∈ Finset.univ.erase p, share (c.pc r) := by
    refine Finset.sum_congr rfl fun r hr => ?_
    rw [hothers r (Finset.ne_of_mem_erase hr), hhear]
  have hbefore := Finset.add_sum_erase Finset.univ (fun r => share (c.pc r)) (Finset.mem_univ p)
  have hafter := Finset.add_sum_erase Finset.univ (fun r => share (c'.pc r)) (Finset.mem_univ p)
  have hmove := hstep p g c _ _ e hok hn
  simp only [hrest] at hafter
  omega

end Program

/-! ### A lock -/

/-- What a step of thread `p` may do with the lock, by whether `p` holds it before and after: leave
    the shared state alone, take the free lock, keep it, give it up. -/
inductive LockMove (lock : σ → Option ι) (p : ι) : Bool → Bool → σ → σ → Prop
  | aside {s : σ} : LockMove lock p false false s s
  | acquire {s s' : σ} : lock s = none → lock s' = some p → LockMove lock p false true s s'
  | keep {s s' : σ} : lock s' = lock s → LockMove lock p true true s s'
  | release {s s' : σ} : lock s' = none → LockMove lock p true false s s'

/-- The lock discipline of a program. -/
structure Mutex [DecidableEq ι] (P : Program ι σ π γ ε) (lock : σ → Option ι) (holds : π → Bool) :
    Prop where
  move : ∀ {p g s k s' k' e}, P.next p g s k = some (s', k', e) →
    LockMove lock p (holds k) (holds k') s s'
  hear : ∀ e k, holds (P.hear e k) = holds k

namespace Mutex

variable [DecidableEq ι] {P : Program ι σ π γ ε} {lock : σ → Option ι} {holds : π → Bool}
variable {ok : ι → γ → Conf ι σ π → Prop} {c₀ c : Conf ι σ π} {tr : List (ι × ε)}

/-- The control point of the lock's holder, if it is held. -/
def owner (lock : σ → Option ι) (c : Conf ι σ π) : Option π := (lock c.shared).map c.pc

/-- The control point as the lock sees it: `none` for a thread without the lock. -/
def held (holds : π → Bool) (k : π) : Option π := if holds k then some k else none

theorem held_pos {k : π} (h : holds k = true) : held holds k = some k := if_pos h

theorem held_neg {k : π} (h : holds k = false) : held holds k = none := by simp [held, h]

/-- That exactly the recorded holder is at a control point with the lock stays so. -/
theorem exclusive_from (M : Mutex P lock holds) (hrun : P.Run ok c₀ tr c)
    (hex : ∀ r, holds (c₀.pc r) = true ↔ lock c₀.shared = some r) (r : ι) :
    holds (c.pc r) = true ↔ lock c.shared = some r := by
  induction hrun generalizing r with
  | start => exact hex r
  | @step tr c p g e c' _ _ hf ih =>
    obtain ⟨hn, hothers⟩ := Program.fire_spec hf
    have hoth : ∀ r, r ≠ p → (holds (c'.pc r) = true ↔ lock c.shared = some r) := by
      intro r hr
      rw [hothers r hr, M.hear]; exact ih r
    have hp := ih p
    have hmove := M.move hn
    generalize hk : holds (c.pc p) = b at hmove hp
    generalize hs : c.shared = s at hmove hp hoth ⊢
    rcases eq_or_ne r p with rfl | hr
    · generalize holds (c'.pc r) = b' at hmove ⊢
      generalize c'.shared = s' at hmove ⊢
      cases hmove with
      | aside => exact hp
      | acquire _ hl' => simp [hl']
      | keep hl' => rw [hl']; exact hp
      | release hl' => simp [hl']
    · rw [hoth r hr]
      generalize holds (c'.pc p) = b' at hmove
      generalize c'.shared = s' at hmove ⊢
      cases hmove with
      | aside => rfl
      | acquire hl₀ hl' => simp [hl₀, hl', hr.symm]
      | keep hl' => rw [hl']
      | release hl' => simp [hp.mp rfl, hl', hr.symm]

/-- Exactly the recorded holder is at a control point that holds the lock. -/
theorem exclusive (M : Mutex P lock holds) (hrun : P.Run ok c₀ tr c) (hl : lock c₀.shared = none)
    (hpc : ∀ r, holds (c₀.pc r) = false) (r : ι) :
    holds (c.pc r) = true ↔ lock c.shared = some r :=
  M.exclusive_from hrun (fun r => by simp [hl, hpc]) r

/-- Follow the holder: an assertion about its control point (or about the free lock), the events so
    far and the shared state holds in every run once the holder's steps carry it along. -/
theorem guarded (M : Mutex P lock holds) {A : Option π → List (ι × ε) → σ → Prop}
    (hrun : P.Run ok c₀ tr c) (hl : lock c₀.shared = none) (hpc : ∀ r, holds (c₀.pc r) = false)
    (h0 : A none [] c₀.shared)
    (hstep : ∀ p g s k s' k' e tr, P.next p g s k = some (s', k', e) →
      (holds k = true ∨ holds k' = true) → A (held holds k) tr s →
      A (held holds k') (tr ++ [(p, e)]) s')
    (haside : ∀ p g s k k' e o tr, P.next p g s k = some (s, k', e) → holds k = false →
      holds k' = false → A o tr s → A o (tr ++ [(p, e)]) s)
    (hhear : ∀ e k tr s, A (some k) tr s → A (some (P.hear e k)) tr s) :
    A (owner lock c) tr c.shared := by
  induction hrun with
  | start => simpa [owner, hl] using h0
  | @step tr c p g e c' hpre _ hf ih =>
    obtain ⟨hn, hothers⟩ := Program.fire_spec hf
    have hex := M.exclusive hpre hl hpc
    have hmove := M.move hn
    unfold owner at ih ⊢
    generalize hb : holds (c.pc p) = b at hmove
    generalize hb' : holds (c'.pc p) = b' at hmove
    generalize c'.shared = s' at hmove hn ⊢
    generalize c.shared = s at hmove hn ih hex
    cases hmove with
    | aside =>
      have hmoved := haside p g _ _ _ e _ tr hn hb hb' ih
      cases hlk : lock s' with
      | none => simpa [hlk] using hmoved
      | some q =>
        -- the holder is another thread, which only hears the event
        have hq : q ≠ p := by
          rintro rfl
          rw [(hex q).mpr hlk] at hb; exact absurd hb (by decide)
        simp only [hlk, Option.map_some, hothers q hq] at hmoved ⊢
        exact hhear _ _ _ _ hmoved
    | acquire hl₀ hl' =>
      have hA := hstep p g _ _ _ _ e tr hn (.inr hb') (by simpa [held_neg hb, hl₀] using ih)
      simpa [hl', held_pos hb'] using hA
    | keep hl' =>
      have hlp := (hex p).mp hb
      have hA := hstep p g _ _ _ _ e tr hn (.inl hb) (by simpa [held_pos hb, hlp] using ih)
      simpa [hl', hlp, held_pos hb'] using hA
    | release hl' =>
      have hlp := (hex p).mp hb
      have hA := hstep p g _ _ _ _ e tr hn (.inl hb) (by simpa [held_pos hb, hlp] using ih)
      simpa [hl', held_neg hb'] using hA

/-- What the assertion says of a thread that stands at a control point with the lock. -/
theorem guarded_at (M : Mutex P lock holds) {A : Option π → List (ι × ε) → σ → Prop}
    (hrun : P.Run ok c₀ tr c) (hl : lock c₀.shared = none) (hpc : ∀ r, holds (c₀.pc r) = false)
    (hA : A (owner lock c) tr c.shared) {r : ι} (h : holds (c.pc r) = true) :
    A (some (c.pc r)) tr c.shared := by
  have hlr := (M.exclusive hrun hl hpc r).mp h
  simpa [owner, hlr] using hA

end Mutex

end Ldd.Schemes

import LddSandbox.Kernel.Loader

/-! A module in use: between a load that succeeds and the unload that ends it, its device answers
    calls, each a script on what the module holds. What the module is for is a service that is
    started and stopped; every start is a fresh one.

        absent ── load ▶ 0 ──▶ start ── call ──▶ t₁ ── call ──▶ t₂ ── .. ── unload ──▶ absent

    A module that `Offers` a machine, one call at a time, is such a service over every sequence of
    loads, unloads and calls (`Offers.in_use`), and its calls use nothing that is not held. -/

namespace Ldd.Kernel
open Ldd.Schemes Ledger

variable {ρ σ τ ε κ ο : Type}

/-- What is asked of a module, and of the device that it offers. -/
inductive Ask (σ ε κ : Type)
  | attempt (a : Attempt σ ε)
  | call (c : κ)

/-- What comes back: whether the module is loaded after the attempt, or the answer of the device,
    if there is one. -/
inductive Said (ο : Type)
  | loaded (yes : Bool)
  | absent
  | answer (o : ο)
  deriving DecidableEq, Repr

/-- A module and its device, whose calls are served by `serve`. -/
def Loadable.inUse (m : Loadable ρ σ ε) (serve : κ → Script ρ σ ο) :
    Machine (Loader ρ σ) (Ask σ ε κ) (Said ο)
  | k, .attempt a => (m.next k a, .loaded (m.next k a).loaded)
  | k, .call c =>
    if k.loaded then
      let (o, w) := serve c k.world
      ({ k with world := w }, .answer o)
    else (k, .absent)

theorem Loadable.inUse_call {m : Loadable ρ σ ε} {serve : κ → Script ρ σ ο} {k : Loader ρ σ}
    (hk : k.loaded = true) (c : κ) : m.inUse serve k (.call c) =
      ({ k with world := (serve c k.world).2 }, .answer (serve c k.world).1) :=
  if_pos hk

/-- The service: a machine that is started by a load that does not fail, in a state that the
    outcomes of its calls alone decide, and stopped by an unload. -/
def service (σ : Type) (fails : ε → Bool) (start : ε → τ) (N : Machine τ κ ο) :
    Machine (Option τ) (Ask σ ε κ) (Said ο)
  | none, .attempt (.load calls _) =>
    if fails calls then (none, .loaded false) else (some (start calls), .loaded true)
  | some t, .attempt (.load _ _) => (some t, .loaded true)
  | _, .attempt (.unload _) => (none, .loaded false)
  | none, .call _ => (none, .absent)
  | some t, .call c =>
    let (t, o) := N t c
    (some t, .answer o)

/-- No load runs init on outcomes that it slips on. -/
def Ask.Avoids (slips : ε → Bool) (k : Loader ρ σ) : Ask σ ε κ → Prop
  | .attempt a => Loadable.Avoids slips k a
  | .call _ => True

/-- A module that never slips. -/
theorem Ask.avoids_never (k : Loader ρ σ) (a : Ask σ ε κ) : a.Avoids (fun _ => false) k := by
  cases a with
  | attempt a => exact fun _ _ _ _ => rfl
  | call c => trivial

variable [DecidableEq ρ]

/-- A module that unwinds, starts its device afresh, and answers each call as a machine does; `S`
    relates the module's memory to the states of the machine. -/
structure Offers (m : Loadable ρ σ ε) (slips : ε → Bool) (held : World ρ σ → Prop)
    (serve : κ → Script ρ σ ο) (start : ε → τ) (N : Machine τ κ ο) (S : σ → τ → Prop) : Prop where
  unwinds : m.Unwinds slips held
  fresh : ∀ calls w, live w.past = [] → Sound m.needs w.past → m.fails calls = false →
    S (m.init calls w).2.mem (start calls)
  serves : ∀ c w t, held w → Sound m.needs w.past → S w.mem t →
    held (serve c w).2 ∧ Sound m.needs (serve c w).2.past ∧
      S (serve c w).2.mem (N t c).1 ∧ (serve c w).1 = (N t c).2

variable {m : Loadable ρ σ ε} {slips : ε → Bool} {held : World ρ σ → Prop}
variable {serve : κ → Script ρ σ ο} {start : ε → τ} {N : Machine τ κ ο} {S : σ → τ → Prop}

/-- A loader, and the state of the service that it shows. -/
structure Loader.Shows (m : Loadable ρ σ ε) (held : World ρ σ → Prop) (S : σ → τ → Prop)
    (k : Loader ρ σ) (o : Option τ) : Prop where
  between : Loadable.Between m held k
  loaded : k.loaded = o.isSome
  mem : ∀ t ∈ o, S k.world.mem t

theorem shows_boot (mem : σ) : Loader.Shows m held S (.boot mem) none :=
  ⟨Loadable.between_boot mem, rfl, fun _ h => by cases h⟩

namespace Offers
open Loadable

/-- A load of a module that is not loaded. -/
theorem shows_load (h : Offers m slips held serve start N S) {k : Loader ρ σ}
    (hb : Between m held k) (hk : k.loaded = false) {calls : ε} (hs : slips calls = false)
    (freed : σ) : Loader.Shows m held S (m.next k (.load calls freed))
      (if m.fails calls then none else some (start calls)) := by
  obtain ⟨-, hbetween⟩ := clean_load h.unwinds hb hk hs freed
  have hnext : m.next k (.load calls freed) =
      ⟨(m.init calls { k.world with freed := freed }).2,
        decide (0 ≤ (m.init calls { k.world with freed := freed }).1)⟩ := by
    rw [next, attempt_load hk]
  refine ⟨hbetween, ?_, ?_⟩
  · rw [hnext]
    cases hf : m.fails calls with
    | false =>
      have hret := (h.unwinds.loads calls { k.world with freed := freed } (hb.idle hk) hb.sound hf).1
      rw [hret]
      rfl
    | true =>
      obtain ⟨⟨e, hret⟩, -⟩ :=
        h.unwinds.rolls_back calls { k.world with freed := freed } (hb.idle hk) hb.sound hf hs
      rw [hret]
      exact decide_eq_false (Int.not_le.mpr e.neg)
  · intro t ht
    rw [hnext]
    split at ht
    · cases ht
    · rename_i hf
      cases ht
      exact h.fresh calls _ (hb.idle hk) hb.sound (Bool.eq_false_iff.mpr hf)

/-- An attempt leaves the module in the state of the service. -/
theorem shows_attempt (h : Offers m slips held serve start N S) {k : Loader ρ σ} {o : Option τ}
    (hk : k.Shows m held S o) {a : Attempt σ ε} (ha : Avoids slips k a) :
    (m.next k a).Shows m held S (service σ m.fails start N o (.attempt a)).1 ∧
      .loaded (m.next k a).loaded = (service σ m.fails start N o (.attempt a)).2 := by
  have hsaid : ∀ {o' : Option τ}, (m.next k a).Shows m held S o' →
      (.loaded (m.next k a).loaded : Said ο) = .loaded o'.isSome := fun hshows =>
    congrArg Said.loaded hshows.loaded
  cases a with
  | load calls freed =>
    cases o with
    | none =>
      have hshows := h.shows_load hk.between hk.loaded (ha calls freed rfl hk.loaded) freed
      have hout := hsaid hshows
      simp only [service]
      split at hshows
      · rename_i hf
        rw [if_pos hf] at hout ⊢
        exact ⟨hshows, hout⟩
      · rename_i hf
        rw [if_neg hf] at hout ⊢
        exact ⟨hshows, hout⟩
    | some t =>
      have hstay : m.next k (.load calls freed) = k :=
        congrArg Prod.fst (attempt_idle_load hk.loaded calls freed)
      rw [hstay] at hsaid ⊢
      exact ⟨hk, hsaid hk⟩
  | unload freed =>
    cases o with
    | none =>
      have hstay : m.next k (.unload freed) = k :=
        congrArg Prod.fst (attempt_idle_unload hk.loaded freed)
      rw [hstay] at hsaid ⊢
      exact ⟨hk, hsaid hk⟩
    | some t =>
      have hgone : (m.next k (.unload freed)).loaded = false :=
        congrArg (fun r => r.1.loaded) (attempt_unload hk.loaded freed)
      exact ⟨⟨(clean_unload h.unwinds hk.between hk.loaded freed).2, hgone, fun _ ht => by cases ht⟩,
        congrArg Said.loaded hgone⟩

/-- A call is answered as the service answers it. -/
theorem shows_call (h : Offers m slips held serve start N S) {k : Loader ρ σ} {o : Option τ}
    (hk : k.Shows m held S o) (c : κ) :
    (m.inUse serve k (.call c)).1.Shows m held S (service σ m.fails start N o (.call c)).1 ∧
      (m.inUse serve k (.call c)).2 = (service σ m.fails start N o (.call c)).2 := by
  cases o with
  | none =>
    have hrun : m.inUse serve k (.call c) = (k, .absent) :=
      if_neg (Bool.eq_false_iff.mp hk.loaded)
    rw [hrun]
    exact ⟨hk, rfl⟩
  | some t =>
    have hloaded : k.loaded = true := hk.loaded
    obtain ⟨hheld, hsound, hmem, hout⟩ :=
      h.serves c k.world t (hk.between.held hloaded) hk.between.sound (hk.mem t rfl)
    rw [Loadable.inUse_call hloaded]
    refine ⟨⟨⟨hsound, fun _ => hheld, fun hf => ?_⟩, hloaded, ?_⟩, congrArg Said.answer hout⟩
    · exact absurd (hloaded.symm.trans hf) (by decide)
    · intro t' ht'
      cases ht'
      exact hmem

/-- Whatever is asked is answered as the service answers it. -/
theorem shows_ask (h : Offers m slips held serve start N S) {k : Loader ρ σ} {o : Option τ}
    (hk : k.Shows m held S o) {a : Ask σ ε κ} (ha : a.Avoids slips k) :
    (m.inUse serve k a).1.Shows m held S (service σ m.fails start N o a).1 ∧
      (m.inUse serve k a).2 = (service σ m.fails start N o a).2 := by
  cases a with
  | attempt a => exact h.shows_attempt hk ha
  | call c => exact h.shows_call hk c

/-- A module in use is the service, over every sequence of loads, unloads and calls. -/
theorem in_use (h : Offers m slips held serve start N S) {k : Loader ρ σ} {o : Option τ}
    (hk : k.Shows m held S o) {asks : List (Ask σ ε κ)}
    (ha : Traced (fun k a => (m.inUse serve k a).1) (fun k a => a.Avoids slips k) k asks) :
    ((m.inUse serve).run k asks).1.Shows m held S ((service σ m.fails start N).run o asks).1 ∧
      ((m.inUse serve).run k asks).2 = ((service σ m.fails start N).run o asks).2 := by
  refine Machine.agree_traced (fun k o a hk ha => ?_) hk ha
  exact h.shows_ask hk ha

/-- A module that never slips: it answers as the service does, every use of a resource was allowed,
    and nothing is left when it is not loaded. -/
theorem sessions (h : Offers m (fun _ => false) held serve start N S) (mem : σ)
    (asks : List (Ask σ ε κ)) :
    ((m.inUse serve).run (.boot mem) asks).2 = ((service σ m.fails start N).run none asks).2 ∧
      Sound m.needs ((m.inUse serve).run (.boot mem) asks).1.world.past ∧
      (((m.inUse serve).run (.boot mem) asks).1.loaded = false →
        live ((m.inUse serve).run (.boot mem) asks).1.world.past = []) := by
  obtain ⟨hshows, hout⟩ := h.in_use (shows_boot mem) (.of_forall Ask.avoids_never _ asks)
  exact ⟨hout, hshows.between.sound, hshows.between.idle⟩

end Offers

end Ldd.Kernel

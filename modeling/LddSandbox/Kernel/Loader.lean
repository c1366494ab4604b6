import LddSandbox.Kernel.Calls
import LddSandbox.Schemes.Machine
import LddSandbox.Schemes.Traced

/-! The module loader: `insmod` runs the module's init function unless the module is loaded, and
    keeps the module if the function does not return a negative value; `rmmod` runs the exit
    function of a loaded module.

        not loaded ── load: init ▶ 0 ────▶ loaded ── unload: exit ──▶ not loaded
             ▲  └──── load: init ▶ -errno ──▶ not loaded

    A module `Unwinds` when each of its functions, run alone, does what it should, except that init
    slips on some outcomes of its calls; `clean_iff` says what that makes of every sequence of
    loads and unloads. -/

namespace Ldd.Kernel
open Ldd.Schemes Ledger

variable {ρ σ ε : Type}

/-- A module: which of its resources depend on which, its init function (run on outcomes of its
    calls) and its exit function; `fails` tells that a call of init fails. -/
structure Loadable (ρ σ ε : Type) where
  needs : ρ → ρ → Bool
  init : ε → Script ρ σ ℤ
  exit : Script ρ σ Unit
  fails : ε → Bool

/-- What `insmod` or `rmmod` is asked; `freed` is what freed memory holds meanwhile. -/
inductive Attempt (σ ε : Type)
  | load (calls : ε) (freed : σ)
  | unload (freed : σ)

structure Loader (ρ σ : Type) where
  world : World ρ σ
  loaded : Bool

/-- Nothing was used yet, the module's memory holds anything. -/
def Loader.boot (mem : σ) : Loader ρ σ := ⟨⟨[], mem, mem⟩, false⟩

namespace Loadable

/-- One attempt, and what init returned if it ran. -/
def attempt (m : Loadable ρ σ ε) : Machine (Loader ρ σ) (Attempt σ ε) (Option ℤ)
  | k, .load calls freed =>
    if k.loaded then (k, none)
    else
      let (ret, w) := m.init calls { k.world with freed := freed }
      (⟨w, decide (0 ≤ ret)⟩, some ret)
  | k, .unload freed =>
    if k.loaded then (⟨(m.exit { k.world with freed := freed }).2, false⟩, none)
    else (k, none)

/-- The loader after an attempt. -/
def next (m : Loadable ρ σ ε) (k : Loader ρ σ) (a : Attempt σ ε) : Loader ρ σ := (m.attempt k a).1

variable {m : Loadable ρ σ ε}

theorem attempt_load {k : Loader ρ σ} (hk : k.loaded = false) (calls : ε) (freed : σ) :
    m.attempt k (.load calls freed) =
      (⟨(m.init calls { k.world with freed := freed }).2,
        decide (0 ≤ (m.init calls { k.world with freed := freed }).1)⟩,
        some (m.init calls { k.world with freed := freed }).1) := by
  simp only [attempt, hk, Bool.false_eq_true, if_false]
  rfl

theorem attempt_unload {k : Loader ρ σ} (hk : k.loaded = true) (freed : σ) :
    m.attempt k (.unload freed) = (⟨(m.exit { k.world with freed := freed }).2, false⟩, none) := by
  simp only [attempt, hk, if_true]

theorem attempt_idle_load {k : Loader ρ σ} (hk : k.loaded = true) (calls : ε) (freed : σ) :
    m.attempt k (.load calls freed) = (k, none) := by
  simp only [attempt, hk, if_true]

theorem attempt_idle_unload {k : Loader ρ σ} (hk : k.loaded = false) (freed : σ) :
    m.attempt k (.unload freed) = (k, none) := by
  simp only [attempt, hk, Bool.false_eq_true, if_false]

variable [DecidableEq ρ]

/-- An attempt after which every use of a resource so far was allowed, nothing is left if the
    module is not loaded, and init returned a negative errno if it ran and a call failed. -/
structure Clean (m : Loadable ρ σ ε) (k : Loader ρ σ) (a : Attempt σ ε) : Prop where
  sound : Sound m.needs (m.next k a).world.past
  nothing_left : (m.next k a).loaded = false → live (m.next k a).world.past = [] ∧
    ∀ r, (m.next k a).world.past.count (.release r) =
      (m.next k a).world.past.count (.acquire r)
  errno : ∀ calls freed, a = .load calls freed → k.loaded = false → m.fails calls = true →
    ∃ e : Errno, (m.attempt k a).2 = some (-e.1)

/-- An attempt that does not run init on outcomes that it slips on. -/
def Avoids (slips : ε → Bool) (k : Loader ρ σ) (a : Attempt σ ε) : Prop :=
  ∀ calls freed, a = .load calls freed → k.loaded = false → slips calls = false

/-- Every attempt of a sequence is clean. -/
def AllClean (m : Loadable ρ σ ε) (mem : σ) (attempts : List (Attempt σ ε)) : Prop :=
  Traced m.next m.Clean (.boot mem) attempts

/-- No attempt of a sequence runs init on outcomes that it slips on. -/
def AllAvoid (m : Loadable ρ σ ε) (slips : ε → Bool) (mem : σ) (attempts : List (Attempt σ ε)) :
    Prop :=
  Traced m.next (Avoids slips) (.boot mem) attempts

/-- What init and exit do when each is run alone; `held` is what init leaves when it succeeds. -/
structure Unwinds (m : Loadable ρ σ ε) (slips : ε → Bool) (held : World ρ σ → Prop) : Prop where
  loads : ∀ calls w, live w.past = [] → Sound m.needs w.past → m.fails calls = false →
    (m.init calls w).1 = 0 ∧ Sound m.needs (m.init calls w).2.past ∧ held (m.init calls w).2
  rolls_back : ∀ calls w, live w.past = [] → Sound m.needs w.past → m.fails calls = true →
    slips calls = false → (∃ e : Errno, (m.init calls w).1 = -e.1) ∧
      Sound m.needs (m.init calls w).2.past ∧ live (m.init calls w).2.past = []
  slips : ∀ calls w, live w.past = [] → slips calls = true →
    ¬ Sound m.needs (m.init calls w).2.past
  unloads : ∀ w freed, Sound m.needs w.past → held w →
    Sound m.needs (m.exit { w with freed := freed }).2.past ∧
      live (m.exit { w with freed := freed }).2.past = []

variable {slips : ε → Bool} {held : World ρ σ → Prop}

/-- What holds between attempts as long as no load slipped. -/
structure Between (m : Loadable ρ σ ε) (held : World ρ σ → Prop) (k : Loader ρ σ) : Prop where
  sound : Sound m.needs k.world.past
  held : k.loaded = true → held k.world
  idle : k.loaded = false → live k.world.past = []

theorem between_boot (mem : σ) : Between m held (.boot mem) := ⟨trivial, nofun, fun _ => rfl⟩

/-- What an attempt leaves decides whether it was clean. -/
theorem clean_of {k k' : Loader ρ σ} {a : Attempt σ ε} {o : Option ℤ}
    (hrun : m.attempt k a = (k', o)) (hb : Between m held k')
    (herr : ∀ calls freed, a = .load calls freed → k.loaded = false → m.fails calls = true →
      ∃ e : Errno, o = some (-e.1)) : m.Clean k a ∧ Between m held (m.next k a) := by
  have hnext : m.next k a = k' := congrArg Prod.fst hrun
  refine ⟨⟨?_, ?_, ?_⟩, hnext ▸ hb⟩
  · rw [hnext]
    exact hb.sound
  · rw [hnext]
    intro hk
    exact ⟨hb.idle hk, fun r => hb.sound.released (hb.idle hk) r⟩
  · rw [hrun]
    exact herr

/-- A load that does not slip is clean. -/
theorem clean_load (h : m.Unwinds slips held) {k : Loader ρ σ} (hb : Between m held k)
    (hk : k.loaded = false) {calls : ε} (hs : slips calls = false) (freed : σ) :
    m.Clean k (.load calls freed) ∧ Between m held (m.next k (.load calls freed)) := by
  set w : World ρ σ := { k.world with freed := freed } with hw
  have hidle : live w.past = [] := hb.idle hk
  have hrun := attempt_load (m := m) hk calls freed
  rw [← hw] at hrun
  cases hf : m.fails calls with
  | false =>
    obtain ⟨hret, hsound, hheld⟩ := h.loads calls w hidle hb.sound hf
    rw [hret] at hrun
    refine clean_of hrun ⟨hsound, fun _ => hheld, nofun⟩ ?_
    intro calls' freed' ha _ hf'
    cases ha
    rw [hf] at hf'
    exact absurd hf' (by decide)
  | true =>
    obtain ⟨⟨e, hret⟩, hsound, hnone⟩ := h.rolls_back calls w hidle hb.sound hf hs
    have hneg : decide (0 ≤ -e.1) = false := decide_eq_false (Int.not_le.mpr e.neg)
    rw [hret, hneg] at hrun
    exact clean_of hrun ⟨hsound, nofun, fun _ => hnone⟩ fun _ _ _ _ _ => ⟨e, rfl⟩

theorem clean_unload (h : m.Unwinds slips held) {k : Loader ρ σ} (hb : Between m held k)
    (hk : k.loaded = true) (freed : σ) :
    m.Clean k (.unload freed) ∧ Between m held (m.next k (.unload freed)) := by
  obtain ⟨hsound, hnone⟩ := h.unloads k.world freed hb.sound (hb.held hk)
  exact clean_of (attempt_unload hk freed) ⟨hsound, nofun, fun _ => hnone⟩ fun _ _ ha => by cases ha

/-- One attempt: clean if it does not slip, and then what holds between attempts is kept. -/
theorem clean_step (h : m.Unwinds slips held) {k : Loader ρ σ} (hb : Between m held k)
    {a : Attempt σ ε} (ha : Avoids slips k a) : m.Clean k a ∧ Between m held (m.next k a) := by
  cases hk : k.loaded with
  | false =>
    cases a with
    | load calls freed => exact clean_load h hb hk (ha calls freed rfl hk) freed
    | unload freed => exact clean_of (attempt_idle_unload hk freed) hb fun _ _ ha => by cases ha
  | true =>
    cases a with
    | load calls freed =>
      refine clean_of (attempt_idle_load hk calls freed) hb fun _ _ _ hk' => ?_
      rw [hk] at hk'
      exact absurd hk' (by decide)
    | unload freed => exact clean_unload h hb hk freed

/-- A load that slips is not clean. -/
theorem avoids_of_clean (h : m.Unwinds slips held) {k : Loader ρ σ} (hb : Between m held k)
    {a : Attempt σ ε} (hc : m.Clean k a) : Avoids slips k a := by
  intro calls freed ha hk
  cases hs : slips calls with
  | false => rfl
  | true =>
    subst ha
    have hsound := hc.sound
    rw [next, attempt_load hk] at hsound
    exact absurd hsound (h.slips calls { k.world with freed := freed } (hb.idle hk) hs)

/-- A sequence is clean exactly if none of its loads slips. -/
theorem clean_iff (h : m.Unwinds slips held) (mem : σ) (attempts : List (Attempt σ ε)) :
    m.AllClean mem attempts ↔ m.AllAvoid slips mem attempts :=
  Traced.iff (I := Between m held)
    (fun _ _ hb => ⟨avoids_of_clean h hb, fun ha => (clean_step h hb ha).1⟩)
    (fun _ _ hb hc => (clean_step h hb (avoids_of_clean h hb hc)).2) (between_boot mem)

/-- A module that never slips: every sequence is clean. -/
theorem Unwinds.all_clean (h : m.Unwinds (fun _ => false) held) (mem : σ)
    (attempts : List (Attempt σ ε)) : m.AllClean mem attempts :=
  (clean_iff h mem attempts).mpr (.of_forall (fun _ _ _ _ _ _ => rfl) _ _)

end Loadable

end Ldd.Kernel

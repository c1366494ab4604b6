import LddSandbox.Load.AutoSessions
import LddSandbox.Schemes.Counter

/-! `dev_open` of `05-char-dev-auto-node` from any number of processes at once. No lock is taken, so
    `dev->open_count++` is a load and a store with anything in between, and what is printed is read
    again after it.

        p:   load v ────────────────────────────▶ store (v + 1) ▶ print open_count
        q:            load v ▶ store (v + 1) ▶ print open_count -/

namespace Ldd.Load.AutoNode.Opens
open Ldd.Schemes

/-- Where a process is in `dev_open`. -/
inductive Pc
  | idle
  | load
  | store (v : ℤ)
  | print
  deriving DecidableEq, Repr

inductive Act
  | enter
  | load
  | store
  | opened (minor : ℕ) (count : ℤ)
  deriving DecidableEq, Repr

/-- The processes that open the node. -/
def opens (ι : Type) : Program ι AutoDev Pc Unit Act where
  next _ _ dev
    | .idle => some (dev, .load, .enter)
    | .load => some (dev, .store dev.openCount, .load)
    | .store v => some ({ dev with openCount := s32 (v + 1) }, .print, .store)
    | .print => some (dev, .idle, .opened dev.minor dev.openCount)
  hear _ k := k

/-- What a step does with `open_count`. -/
def Act.touch : Act → Touch
  | .load => .load
  | .store => .store
  | _ => .other

/-- The count that a process has loaded and not yet stored. -/
def Pc.noted : Pc → Option ℤ
  | .store v => some v
  | _ => none

variable {ι : Type} {p : ι} {dev : AutoDev}

/-- The steps of `dev_open`, by what they do. -/
inductive Step (dev : AutoDev) : Pc → AutoDev → Pc → Act → Prop
  | enter : Step dev .idle dev .load .enter
  | load : Step dev .load dev (.store dev.openCount) .load
  | store (v : ℤ) : Step dev (.store v) { dev with openCount := s32 (v + 1) } .print .store
  | print : Step dev .print dev .idle (.opened dev.minor dev.openCount)

theorem Step.of_next {g : Unit} {dev' : AutoDev} {k k' : Pc} {e : Act}
    (h : (opens ι).next p g dev k = some (dev', k', e)) : Step dev k dev' k' e := by
  cases k <;> cases h
  · exact .enter
  · exact .load
  · exact .store _
  · exact .print

section
variable {dev' : AutoDev} {k k' : Pc} {e : Act}

theorem Step.minor (h : Step dev k dev' k' e) : dev'.minor = dev.minor := by
  cases h <;> rfl

/-- Only a store leads to what is printed. -/
theorem Step.to_print (h : Step dev k dev' .print e) : e = .store := by
  cases h
  rfl

theorem Step.opened {minor : ℕ} {count : ℤ} (h : Step dev k dev' k' (.opened minor count)) :
    k = .print ∧ minor = dev.minor ∧ count = dev.openCount := by
  cases h
  exact ⟨rfl, rfl, rfl⟩

end

theorem opens_increments (ι : Type) :
    Increments (opens ι) AutoDev.openCount Pc.noted Act.touch (2 ^ 31 - 1) where
  load h hkind := by
    cases Step.of_next h <;> cases hkind
    exact ⟨rfl, rfl⟩
  store h hkind := by
    cases Step.of_next h <;> cases hkind
    rename_i v
    exact ⟨v, rfl, rfl, fun h0 htop => s32_id (by omega) (by omega)⟩
  other h hkind := by
    cases Step.of_next h <;> cases hkind <;> exact ⟨rfl, rfl⟩
  hear _ _ := rfl

variable [DecidableEq ι]

/-- An open that nothing comes between is a call of `dev_open`. -/
theorem opens_alone (c : Conf ι AutoDev Pc) (h : c.pc p = .idle) :
    (opens ι).exec anyway (moves p 4) c = some
      ([(p, .enter), (p, .load), (p, .store),
        (p, .opened (devOpen c.shared).minor (devOpen c.shared).openCount)],
        ⟨devOpen c.shared, c.pc⟩) := by
  have hpc : (fun r => if r = p then Pc.idle else c.pc r) = c.pc := by
    funext r
    rcases eq_or_ne r p with rfl | hr
    · rw [if_pos rfl, h]
    · rw [if_neg hr]
  have hfold : ∀ (k k' : Pc) (r : ι), (if r = p then k else if r = p then k' else c.pc r) =
      if r = p then k else c.pc r := fun k k' r => by split <;> rfl
  simp [Program.exec, Program.fire, opens, h, anyway, moves, List.replicate, devOpen, hfold, hpc]

/-- What is printed, and who is about to print. -/
structure Printed (dev : AutoDev) (tr : List (ι × Act)) (c : Conf ι AutoDev Pc) : Prop where
  minor : c.shared.minor = dev.minor
  stored : ∀ r, c.pc r = .print → 0 < stores Act.touch tr
  counts : ∀ r minor (count : ℤ), (r, .opened minor count) ∈ tr →
    minor = dev.minor ∧ 1 ≤ count ∧ count ≤ stores Act.touch tr

/-- The node freshly made, no process opening it. -/
def unopened (ι : Type) (dev : AutoDev) : Conf ι AutoDev Pc := ⟨dev, fun _ => .idle⟩

variable {tr : List (ι × Act)} {c : Conf ι AutoDev Pc}

theorem open_counted (h0 : dev.openCount = 0)
    (hrun : (opens ι).Run anyStep (unopened ι dev) tr c) (hmax : stores Act.touch tr < 2 ^ 31) :
    Increments.Counted AutoDev.openCount Pc.noted Act.touch tr c :=
  (opens_increments ι).counted hrun h0 (fun _ => rfl) (by omega)

theorem open_printed (h0 : dev.openCount = 0)
    (hrun : (opens ι).Run anyStep (unopened ι dev) tr c) (hmax : stores Act.touch tr < 2 ^ 31) :
    Printed dev tr c := by
  induction hrun with
  | start => exact ⟨rfl, fun _ h => (by cases h), fun _ _ _ h => absurd h List.not_mem_nil⟩
  | @step tr c p g e c' hpre _ hf ih =>
    obtain ⟨hn, hothers⟩ := Program.fire_spec hf
    have hle := stores_le Act.touch tr (p, e)
    obtain ⟨hminor, hstored, hcounts⟩ := ih (by omega)
    have hcount := open_counted h0 hpre (by omega)
    have hstep := Step.of_next hn
    -- what was printed before stays in its bounds
    have hold : ∀ r minor (count : ℤ), (r, .opened minor count) ∈ tr →
        minor = dev.minor ∧ 1 ≤ count ∧ count ≤ stores Act.touch (tr ++ [(p, e)]) := by
      intro r minor count hr
      obtain ⟨hm, hlow, hhigh⟩ := hcounts r minor count hr
      exact ⟨hm, hlow, by omega⟩
    refine ⟨hstep.minor.trans hminor, fun r hr => ?_, fun r minor count hr => ?_⟩
    · rcases eq_or_ne r p with rfl | hne
      · rw [hr] at hstep
        rw [stores_store (by rw [hstep.to_print]; rfl)]
        exact Nat.succ_pos _
      · have hprint : c.pc r = .print := (hothers r hne).symm.trans hr
        exact (hstored r hprint).trans_le hle
    · rcases List.mem_append.mp hr with hr | hr
      · exact hold r minor count hr
      obtain ⟨rfl, rfl⟩ := Prod.mk.inj (List.mem_singleton.mp hr)
      obtain ⟨hprint, rfl, rfl⟩ := hstep.opened
      have hpos := hstored r hprint
      have hlow := hcount.low
      have hhigh := hcount.high
      exact ⟨hminor, by omega, by omega⟩

/-- OPENS ARE COUNTED: in every interleaving of fewer than `2 ^ 31` opens of a fresh node, the count
    is between `1` and the number of opens that have stored it, as is every count that is printed;
    and it is that number exactly if no open stored between the load and the store of another, so a
    count that has once fallen behind never catches up. -/
theorem opens_counted (h0 : dev.openCount = 0)
    (hrun : (opens ι).Run anyStep (unopened ι dev) tr c) (hmax : stores Act.touch tr < 2 ^ 31) :
    (min 1 (stores Act.touch tr : ℤ) ≤ c.shared.openCount ∧
        c.shared.openCount ≤ stores Act.touch tr) ∧
      (c.shared.openCount = stores Act.touch tr ↔ OneByOne Act.touch tr) ∧
      ∀ r minor (count : ℤ), (r, .opened minor count) ∈ tr →
        minor = dev.minor ∧ 1 ≤ count ∧ count ≤ stores Act.touch tr := by
  have hcounted := open_counted h0 hrun hmax
  exact ⟨⟨hcounted.low, hcounted.high⟩, hcounted.exact_iff, (open_printed h0 hrun hmax).counts⟩

/-- Two processes open the node, and both load before either stores. -/
def bothLoad : List (Bool × Unit) :=
  moves true 2 ++ moves false 2 ++ moves true 1 ++ moves false 1 ++ moves true 1 ++ moves false 1

theorem bothLoad_runs :
    ((opens Bool).exec anyway bothLoad (unopened Bool .zeroed)).isSome = true := by
  rfl

/-- The run of `bothLoad`. -/
def bothLoadRun : List (Bool × Act) × Conf Bool AutoDev Pc :=
  ((opens Bool).exec anyway bothLoad (unopened Bool .zeroed)).get bothLoad_runs

/-- Both print that the node was opened once. -/
theorem opens_counted_bothLoad : bothLoadRun.2.shared.openCount = 1 ∧
    ¬ OneByOne Act.touch bothLoadRun.1 := by
  have hcount : bothLoadRun.2.shared.openCount = 1 := by decide +kernel
  have hstores : stores Act.touch bothLoadRun.1 = 2 := by decide +kernel
  have hrun : (opens Bool).Run anyStep (unopened Bool .zeroed) bothLoadRun.1 bothLoadRun.2 :=
    Program.Run.of_exec anyway_any bothLoad_runs
  refine ⟨hcount, fun hone => ?_⟩
  have hexact := (opens_counted rfl hrun (by rw [hstores]; decide)).2.1.mpr hone
  rw [hcount, hstores] at hexact
  exact absurd hexact (by decide)

end Ldd.Load.AutoNode.Opens

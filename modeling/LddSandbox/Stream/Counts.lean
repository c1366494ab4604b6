import LddSandbox.Schemes.Stutter
import LddSandbox.Stream.Steps

/-! `readers` and `writers` of the blocking and the poll device. `dev_open` adds a file to them under
    the lock, `dev_release` takes it away again, and any number of processes do so at once. As long
    as a process releases only files that it opened, each counter is at every moment the number of
    files open in its mode, an open counted from its store on and a release up to its store
    (`counts_files`).

        open:     lock ▶ readers ▶ writers ▶ unlock ▶ (file)
        release:  (file) ▶ lock ▶ readers ▶ writers ▶ unlock                                  -/

namespace Ldd.Stream
open Ldd.Schemes

/-- The two counters. -/
inductive Counter | readers | writers

@[simp] def Counter.of {ι : Type} (d : Dev ι) : Counter → ℤ
  | .readers => d.readers
  | .writers => d.writers

/-- The counter counts a file of that mode. -/
@[simp] def Counter.counts : Counter → Bool × Bool → Bool
  | .readers, mode => mode.1
  | .writers, mode => mode.2

/-- The call has made its store to the counter. -/
@[simp] def CountPc.stored : Counter → CountPc → Bool
  | .readers, .writers | _, .unlock => true
  | _, _ => false

/-- The files that a process has open, by their modes. -/
@[simp] def files : Pc → Pc → List (Bool × Bool) → List (Bool × Bool)
  | .devOpen r w .unlock, .idle, fs => (r, w) :: fs
  | .idle, .devRelease r w .lock, fs => fs.erase (r, w)
  | _, _, fs => fs

/-- A process releases only files that it has open. -/
def ReleasesOwn {ι : Type} (p : ι) (g : Choice) (c : Conf ι (Dev ι) (Pc × List (Bool × Bool))) :
    Prop :=
  (c.pc p).1 = .idle → ∀ r w, g.call = .devRelease r w → (r, w) ∈ (c.pc p).2

/-- The device freshly loaded, no file open. -/
def unopened (ι : Type) : Conf ι (Dev ι) (Pc × List (Bool × Bool)) :=
  ⟨chardevInit ι, fun _ => (.idle, [])⟩

/-- A file being opened or released that the counter counts. -/
@[simp] def Pc.share (x : Counter) : Pc → ℕ
  | .devOpen r w k => if x.counts (r, w) && k.stored x then 1 else 0
  | .devRelease r w k => if x.counts (r, w) && !k.stored x then 1 else 0
  | _ => 0

/-- What a process has in the counter. -/
@[simp] def share (x : Counter) (k : Pc × List (Bool × Bool)) : ℕ := k.2.countP x.counts + k.1.share x

/-- The process is opening or releasing a file. -/
def Pc.countsFile : Pc → Bool
  | .devOpen _ _ _ | .devRelease _ _ _ => true
  | _ => false

variable {ι : Type} {drv : Driver} {p : ι} {g : Choice} {d d' : Dev ι} {k k' : Pc} {e : Act}
variable {x : Counter} {fs : List (Bool × Bool)}

theorem Heard.share (h : Heard k k') : k'.share x = k.share x := by
  cases h <;> rfl

/-- Closing a file takes it from the count. -/
theorem countP_erase_add {mode : Bool × Bool} (h : mode ∈ fs) :
    (fs.erase mode).countP x.counts + (if x.counts mode then 1 else 0) = fs.countP x.counts := by
  have hperm := (List.perm_cons_erase h).countP_eq x.counts
  rw [hperm, List.countP_cons]

/-- A step moves the counter as it moves the share. -/
theorem step_share (h : Step drv p g d k d' k' e)
    (hown : k = .idle → ∀ r w, g.call = .devRelease r w → (r, w) ∈ fs) :
    x.of d' + share x (k, fs) = x.of d + share x (k', files k k' fs) := by
  cases h with
  | enter =>
    cases hc : g.call with
    | devOpen r w => cases x <;> simp [enter]
    | devRelease r w =>
      have herase := countP_erase_add (x := x) (hown rfl r w hc)
      cases x <;> cases r <;> cases w <;> simp [enter, ← herase]
    | _ => rfl
  | lock hl =>
    cases hl with
    | devOpen | devRelease => cases x <;> simp
    | devRead => cases drv <;> cases x <;> rfl
    | _ => cases x <;> rfl
  | interrupt hi => cases hi <;> rfl
  | @openReaders r w | @releaseReaders r w =>
    cases x with
    | readers =>
      cases r
      · simp
      · simp
        omega
    | writers => cases r <;> simp
  | @openWriters r w | @releaseWriters r w =>
    cases x with
    | readers => cases w <;> simp
    | writers =>
      cases w
      · simp
      · simp
        omega
  | @unlockOpen r w =>
    cases x <;> cases r <;> cases w <;> simp [Dev.mutexUnlock, List.countP_cons]
  | unlockRelease => cases x <;> simp [Dev.mutexUnlock]
  | _ => cases x <;> rfl

/-! ### Every run -/

variable [DecidableEq ι] [Fintype ι] {tr : List (ι × Act)}
variable {c : Conf ι (Dev ι) (Pc × List (Bool × Bool))}

/-- Each counter is the sum of what the processes have in it. -/
theorem counter_shares (hrun : ((fops ι drv).noting files).Run ReleasesOwn (unopened ι) tr c)
    (x : Counter) : x.of c.shared = (∑ r, share x (c.pc r) : ℕ) := by
  refine hrun.shares (fun d => x.of d) ?_ ?_ ?_
  · cases x <;> simp [unopened, chardevInit]
  · intro p g c d' k' e hok hn
    obtain ⟨⟨d₁, k₁, e₁⟩, hnext, heq⟩ := Option.map_eq_some_iff.mp hn
    simp only [Prod.mk.injEq] at heq
    obtain ⟨rfl, rfl, rfl⟩ := heq
    exact step_share (Step.of_next hnext) hok
  · rintro e ⟨k, fs⟩
    have hk := (heard (ι := ι) drv e k).share (x := x)
    simp only [Program.noting, share, hk]

/-- FILES ARE COUNTED: in every run in which processes release only files that they opened, the
    counters are never negative, and while no `dev_open` or `dev_release` is under way `readers` is
    the number of files open for reading, and `writers` of those open for writing. -/
theorem counts_files (hrun : ((fops ι drv).noting files).Run ReleasesOwn (unopened ι) tr c) :
    0 ≤ c.shared.readers ∧ 0 ≤ c.shared.writers ∧
      ((∀ r, (c.pc r).1.countsFile = false) →
        c.shared.readers = (∑ r, (c.pc r).2.countP (·.1) : ℕ) ∧
        c.shared.writers = (∑ r, (c.pc r).2.countP (·.2) : ℕ)) := by
  have hreaders : c.shared.readers = _ := counter_shares hrun .readers
  have hwriters : c.shared.writers = _ := counter_shares hrun .writers
  refine ⟨by rw [hreaders]; exact Int.natCast_nonneg _, by rw [hwriters]; exact Int.natCast_nonneg _,
    fun hnone => ?_⟩
  have hshare : ∀ x r, share x (c.pc r) = (c.pc r).2.countP x.counts := by
    intro x r
    have hr := hnone r
    generalize c.pc r = q at hr ⊢
    obtain ⟨k, fs⟩ := q
    cases k <;> first | rfl | cases hr
  simp only [hshare] at hreaders hwriters
  exact ⟨hreaders, hwriters⟩

/-- Process `true` opens a file for both and one for reading, process `false` opens one for writing
    meanwhile, and `true` releases its first. -/
def opensThree : List (Bool × Choice) :=
  calls true { call := .devOpen true true } 2 ++ calls false { call := .devOpen false true } 0 ++
  moves true 2 ++ calls true { call := .devOpen true false } 4 ++ moves false 4 ++
  calls true { call := .devRelease true true } 4

/-- Processes release only files that they have open. -/
def releasesOwn (p : Bool) (g : Choice) (c : Conf Bool (Dev Bool) (Pc × List (Bool × Bool))) :
    Bool :=
  match g.call with
  | .devRelease r w => decide ((c.pc p).1 ≠ .idle) || decide ((r, w) ∈ (c.pc p).2)
  | _ => true

theorem releasesOwn_ok (p : Bool) (g : Choice) (c : Conf Bool (Dev Bool) (Pc × List (Bool × Bool)))
    (h : releasesOwn p g c = true) : ReleasesOwn p g c := by
  intro hidle r w hcall
  simpa [releasesOwn, hcall, hidle] using h

theorem opensThree_runs : (((fops Bool .charDevPoll).noting files).exec releasesOwn opensThree
    (unopened Bool)).isSome = true := by
  decide +kernel

/-- The run of `opensThree`. -/
def opensThreeRun : List (Bool × Act) × Conf Bool (Dev Bool) (Pc × List (Bool × Bool)) :=
  (((fops Bool .charDevPoll).noting files).exec releasesOwn opensThree (unopened Bool)).get
    opensThree_runs

theorem counts_files_opensThree : opensThreeRun.2.shared.readers = 1 ∧
    opensThreeRun.2.shared.readers = (∑ r, (opensThreeRun.2.pc r).2.countP (·.1) : ℕ) :=
  ⟨by decide +kernel,
    ((counts_files (Program.Run.of_exec releasesOwn_ok opensThree_runs)).2.2
      (by decide +kernel)).1⟩

end Ldd.Stream

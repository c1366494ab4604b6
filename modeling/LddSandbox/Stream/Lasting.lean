import LddSandbox.Stream.Readiness

/-! `POLLIN` lasts until somebody reads (`07-char-dev-poll`), up to the reset of a full buffer.

    Between two reads the queue only grows, except where a write finds every cell used up. The reset
    drops all that is pending, and what is pending afterwards is what the write goes on to store:
    nothing, if it has no bytes or its copy faults.

        pending ≠ [] ─ write ─┬ room ─▶ longer
                              └ full ─▶ [] ─┬ copies n > 0 ──────────▶ n bytes
                                            └ faults, or has no data ─▶ []    (`POLLIN` is gone) -/

namespace Ldd.Stream
open Ldd.Schemes Ldd.Kernel

/-- A write that discards unread bytes stores some of its own. -/
def Outcome.Replaces (o : Outcome) : Prop :=
  ∀ data, o.call = .devWrite data → o.lost ≠ [] → o.fate = .done ∧ data ≠ []

/-- A write that has reset the full buffer has bytes to store, and its copy does not fault. -/
def ResetStores {ι : Type} (p : ι) (g : Choice) (c : Conf ι (Dev ι) Pc) : Prop :=
  ∀ data lost, c.pc p = .devWrite data (.copy (some lost)) → g.fault.left = 0 ∧ data ≠ []

def WritePc.Replaces (data : List UInt8) : WritePc → Prop
  | .advance lost _ | .unlock lost _ => lost.isSome → data ≠ []
  | .unlockFault lost => lost = none
  | _ => True

/-- A write past its copy that reset the full buffer has stored bytes. -/
def Pc.Replaces : Pc → Prop
  | .devWrite data k => k.Replaces data
  | _ => True

namespace Fifo
variable {N : ℕ}

/-- A call that delivers nothing, and replaces what it discards, leaves something pending. -/
theorem step_keeps {st st' : Fifo N} {o : Outcome} (hN : 0 < N) (h : st.step o = some st')
    (hne : st.pending ≠ []) (hquiet : o.delivered = []) (hrep : o.Replaces) : st'.pending ≠ [] := by
  have hbytes : o.bytes = [] := (step_delivered h).symm.trans hquiet
  cases step_ends h with
  | @read nb len =>
    rcases List.take_eq_nil_iff.mp hbytes with rfl | hnil
    · simpa [pop] using hne
    · exact absurd hnil hne
  | @write data =>
    by_cases hu : st.used = N
    · have hlost : st.lost ≠ [] := by rwa [lost_of_full hu]
      exact push_ne_nil (makeRoom_used_lt hN st) (hrep data rfl hlost).2
    · rw [makeRoom_of_room hu]
      exact List.append_ne_nil_of_left_ne_nil hne _
  | @writeFault data =>
    by_cases hu : st.used = N
    · have hlost : st.lost ≠ [] := by rwa [lost_of_full hu]
      cases (hrep data rfl hlost).1
    · rwa [makeRoom_of_room hu]
  | readFault | readAgain | readSignal | writeSignal => exact hne

theorem replay_keeps (hN : 0 < N) : ∀ {os : List Outcome} {st st' : Fifo N},
    st.replay os = some st' → st.pending ≠ [] → (∀ o ∈ os, o.delivered = []) →
    (∀ o ∈ os, o.Replaces) → st'.pending ≠ []
  | [], st, st', h, hne, _, _ => by
    obtain rfl : st = st' := by simpa using h
    exact hne
  | o :: os, st, st', h, hne, hquiet, hrep => by
    obtain ⟨st₁, ho, hos⟩ := replay_cons.mp h
    have hne₁ := step_keeps hN ho hne (hquiet o List.mem_cons_self) (hrep o List.mem_cons_self)
    exact replay_keeps hN hos hne₁ (fun o ho => hquiet o (List.mem_cons_of_mem _ ho))
      fun o ho => hrep o (List.mem_cons_of_mem _ ho)

end Fifo

variable {ι : Type} {drv : Driver} {p : ι} {g : Choice} {d d' : Dev ι} {k k' : Pc} {e : Act}

/-! ### One step -/

theorem Pc.replaces_of_outside (hk : k.holds = false) : k.Replaces := by
  cases k with
  | devWrite data k => cases k <;> trivial
  | _ => trivial

theorem Heard.replaces (h : Heard k k') (hk : k.Replaces) : k'.Replaces := by
  cases h <;> exact hk

theorem Step.replaces (h : Step drv p g d k d' k' e) (hk : k.Replaces)
    (hok : ∀ data lost, k = .devWrite data (.copy (some lost)) → g.fault.left = 0 ∧ data ≠ []) :
    k'.Replaces ∧ ∀ o, e = .settle o → o.Replaces := by
  cases h with
  | enter => cases hc : g.call <;> exact ⟨trivial, fun _ h => by cases h⟩
  | lock hl =>
    cases hl with
    | devRead => cases drv <;> exact ⟨trivial, fun _ h => by cases h⟩
    | _ => exact ⟨trivial, fun _ h => by cases h⟩
  | interrupt =>
    refine ⟨trivial, fun o ho => ?_⟩
    obtain rfl := Act.settle.inj ho
    exact fun _ _ hlost => absurd rfl hlost
  | unlockAgain | unlockFaultRead | unlockRead =>
    refine ⟨trivial, fun o ho => ?_⟩
    obtain rfl := Act.settle.inj ho
    exact fun _ hcall => nomatch hcall
  | @copyWrite data lost =>
    refine ⟨fun hsome => ?_, fun _ h => by cases h⟩
    obtain ⟨bs, rfl⟩ := Option.isSome_iff_exists.mp hsome
    exact (hok data bs rfl).2
  | @faultWrite data lost hleft =>
    refine ⟨?_, fun _ h => by cases h⟩
    cases lost with
    | none => rfl
    | some bs =>
      refine absurd ?_ hleft
      simp only [copyFromUser, Fault.uncopied, (hok data bs rfl).1, Nat.zero_min]
  | @unlockFaultWrite data lost =>
    refine ⟨trivial, fun o ho => ?_⟩
    obtain rfl := Act.settle.inj ho
    obtain rfl : lost = none := hk
    exact fun _ _ hlost => absurd rfl hlost
  | advanceWrite => exact ⟨hk, fun _ h => by cases h⟩
  | @unlockWrite data lost n =>
    refine ⟨trivial, fun o ho => ?_⟩
    obtain rfl := Act.settle.inj ho
    rintro data' hcall hlost
    obtain rfl := Call.devWrite.inj hcall
    cases lost with
    | none => exact absurd rfl hlost
    | some bs => exact ⟨rfl, hk rfl⟩
  | _ => exact ⟨trivial, fun _ h => by cases h⟩

/-! ### Every run -/

variable [DecidableEq ι] {tr₀ tr : List (ι × Act)} {c₀ c c' : Conf ι (Dev ι) Pc}

theorem replaces_run (hrun : (fops ι drv).Run ResetStores c₀ tr c)
    (h0 : ∀ r, (c₀.pc r).Replaces) : ∀ o ∈ settled tr, o.Replaces := by
  refine (hrun.history (I := fun tr c => (∀ r, (c.pc r).Replaces) ∧
    ∀ o ∈ settled tr, o.Replaces) ⟨h0, nofun⟩ ?_).2
  rintro tr p g c e c' ⟨hpcs, hsettled⟩ hok hf
  obtain ⟨hn, hothers⟩ := Program.fire_spec hf
  obtain ⟨hk, ho⟩ := (Step.of_next hn).replaces (hpcs p) hok
  refine ⟨fun r => ?_, fun o hmem => ?_⟩
  · rcases eq_or_ne r p with rfl | hr
    · exact hk
    · rw [hothers r hr]
      exact (heard (ι := ι) drv e (c.pc r)).replaces (hpcs r)
  · rw [settled_append] at hmem
    rcases List.mem_append.mp hmem with h | h
    · exact hsettled o h
    · cases e with
      | settle o' =>
        obtain rfl := List.mem_singleton.mp h
        exact ho _ rfl
      | _ => cases h

/-- A read that takes the lock while there is data does not wait. -/
theorem read_ends {ok : ι → Choice → Conf ι (Dev ι) Pc → Prop} {st : Fifo bufLen} {nb : Bool}
    {len : ℕ} (hrun : (fops ι drv).Run anyStep (loaded ι) tr c) (hs : Sim st c.shared)
    (hne : st.pending ≠ []) (hp : c.pc p = .devRead nb len .lock)
    (h : CriticalSection (fops ι drv) ok Dev.lock p c e c') :
    ∃ o, e = .settle o ∧ o.call = .devRead nb len ∧
      (o.fate ≠ .fault → o.ret = (min len st.pending.length : ℕ)) := by
  obtain ⟨st', hleaves, -⟩ := section_leaves hrun hs h
  rw [hp] at hleaves
  generalize hcall : current (.devRead nb len .lock) = calls at hleaves
  cases hleaves with
  | read =>
    obtain ⟨rfl, rfl⟩ := Call.devRead.inj (List.singleton_inj.mp hcall)
    exact ⟨_, rfl, rfl, fun _ => rfl⟩
  | readFault =>
    obtain ⟨rfl, rfl⟩ := Call.devRead.inj (List.singleton_inj.mp hcall)
    exact ⟨_, rfl, rfl, fun hfate => absurd rfl hfate⟩
  | again hnil | wait hnil => exact absurd hnil hne
  | write | writeFault | aside => cases hcall

/-- POLLIN LASTS: from a state in which a poll returns `POLLIN`, in every run in which no read
    delivers a byte and every write that resets the full buffer has bytes to store and does not
    fault, a poll returns `POLLIN` in every state reached; and a read of at least one byte that
    takes the lock there does not wait, and without a fault returns a positive count. -/
theorem pollin_lasts (hrun₀ : (fops ι .charDevPoll).Run anyStep (loaded ι) tr₀ c₀)
    (hl₀ : c₀.shared.lock = none) (hready : c₀.shared.ready.pollin = true)
    (hrun : (fops ι .charDevPoll).Run ResetStores c₀ tr c)
    (hquiet : ∀ o ∈ settled tr, o.delivered = []) (hl : c.shared.lock = none) :
    c.shared.ready.pollin = true ∧ PollReturns c c.shared.ready ∧
      ∀ p nb len, c.pc p = .devRead nb len .lock → 0 < len →
        (∃ e c', CriticalSection (fops ι .charDevPoll) (Unfaulted p) Dev.lock p c e c') ∧
        (∀ ok e c', CriticalSection (fops ι .charDevPoll) ok Dev.lock p c e c' →
          ∃ o, e = .settle o ∧ o.call = .devRead nb len) ∧
        ∀ o c', CriticalSection (fops ι .charDevPoll) (Unfaulted p) Dev.lock p c (.settle o) c' →
          0 < o.ret := by
  have hall := hrun₀.trans (hrun.mono fun _ _ _ _ => trivial)
  obtain ⟨st₀, hrep₀, hsim₀⟩ := replayed hrun₀
  obtain ⟨st, hrep, hsim⟩ := replayed hall
  have hs := hsim hl
  have hne₀ : st₀.pending ≠ [] := (hsim₀ hl₀).hasData.mp hready
  have hrest : st₀.replay (settled tr) = some st := by
    rw [settled_append] at hrep
    obtain ⟨s, hs, hrest⟩ := Fifo.replay_append.mp hrep
    rw [hrep₀] at hs
    obtain rfl := Option.some.inj hs
    exact hrest
  have hreplaces := replaces_run hrun fun r => Pc.replaces_of_outside (outside hrun₀ hl₀ r)
  have hne := Fifo.replay_keeps (by decide) hrest hne₀ hquiet hreplaces
  refine ⟨hs.hasData.mpr hne, poll_returns hall, fun p nb len hp hlen => ⟨?_, ?_, ?_⟩⟩
  · exact section_ends hall hl hp .devRead fun _ _ => rfl
  · intro ok e c' h
    obtain ⟨o, he, hcall, -⟩ := read_ends hall hs hne hp h
    exact ⟨o, he, hcall⟩
  · intro o c' h
    obtain ⟨o', he, -, hret⟩ := read_ends hall hs hne hp h
    obtain rfl := Act.settle.inj he
    rw [hret (section_unfaulted hall h rfl)]
    exact Int.natCast_pos.mpr (Nat.lt_min.mpr ⟨hlen, List.length_pos_of_ne_nil hne⟩)

/-- Process `true` fills the buffer. -/
def fills : List (Bool × Choice) := calls true { call := .devWrite (List.replicate bufLen 0) } 7

theorem fills_runs : ((fops Bool .charDevPoll).exec anyway fills (loaded Bool)).isSome = true := by
  decide +kernel

/-- The run of `fills`. -/
def fillsRun : List (Bool × Act) × Conf Bool (Dev Bool) Pc :=
  ((fops Bool .charDevPoll).exec anyway fills (loaded Bool)).get fills_runs

/-- Without a fault, and not at the copy of a write without data that reset the full buffer. -/
def resetStores {ι : Type} (p : ι) (g : Choice) (c : Conf ι (Dev ι) Pc) : Bool :=
  decide (g.fault.left = 0) && decide (∀ lost ∈ resetBy (c.pc p), lost ≠ [])
where
  resetBy : Pc → List (List UInt8)
    | .devWrite data (.copy (some _)) => [data]
    | _ => []

theorem resetStores_ok {ι : Type} (p : ι) (g : Choice) (c : Conf ι (Dev ι) Pc)
    (h : resetStores p g c = true) : ResetStores p g c := by
  obtain ⟨hleft, hdata⟩ := Bool.and_eq_true_iff.mp h
  intro data lost hp
  refine ⟨of_decide_eq_true hleft, of_decide_eq_true hdata data ?_⟩
  rw [hp]
  exact List.mem_singleton_self _

/-- Then it writes two more bytes, and process `false` begins a read. -/
def replacesFull : List (Bool × Choice) :=
  calls true { call := .devWrite [5, 6] } 9 ++ calls false { call := .devRead false 4 } 0

theorem replacesFull_runs :
    ((fops Bool .charDevPoll).exec resetStores replacesFull fillsRun.2).isSome = true := by
  decide +kernel

/-- The run of `replacesFull`. -/
def replacesFullRun : List (Bool × Act) × Conf Bool (Dev Bool) Pc :=
  ((fops Bool .charDevPoll).exec resetStores replacesFull fillsRun.2).get replacesFull_runs

theorem pollin_lasts_replacesFull : replacesFullRun.2.shared.unread = [5, 6] ∧
    replacesFullRun.2.shared.ready.pollin = true := by
  have hrun₀ : (fops Bool .charDevPoll).Run anyStep (loaded Bool) fillsRun.1 fillsRun.2 :=
    Program.Run.of_exec anyway_any fills_runs
  have hrun : (fops Bool .charDevPoll).Run ResetStores fillsRun.2 replacesFullRun.1
      replacesFullRun.2 := Program.Run.of_exec resetStores_ok replacesFull_runs
  exact ⟨by decide +kernel, (pollin_lasts hrun₀ (by decide +kernel) (by decide +kernel) hrun
    (by decide +kernel) (by decide +kernel)).1⟩

/-- `POLLIN` lasts through every run without a successful read. -/
def PollinLasts (ι : Type) [DecidableEq ι] : Prop :=
  ∀ (tr₀ tr : List (ι × Act)) (c₀ c : Conf ι (Dev ι) Pc),
    (fops ι .charDevPoll).Run anyStep (loaded ι) tr₀ c₀ → c₀.shared.lock = none →
    c₀.shared.ready.pollin = true → (fops ι .charDevPoll).Run anyStep c₀ tr c →
    (∀ o ∈ settled tr, ∀ nb len, o.call = .devRead nb len → o.ret < 0) → c.shared.lock = none →
    c.shared.ready.pollin = true

/-- A write of no bytes to the full buffer. -/
def drops : List (Bool × Choice) := calls true { call := .devWrite [] } 9

theorem drops_runs : ((fops Bool .charDevPoll).exec anyway drops fillsRun.2).isSome = true := by
  decide +kernel

/-- The run of `drops`. -/
def dropsRun : List (Bool × Act) × Conf Bool (Dev Bool) Pc :=
  ((fops Bool .charDevPoll).exec anyway drops fillsRun.2).get drops_runs

theorem not_pollin_lasts : ¬ PollinLasts Bool := by
  intro h
  have hrun₀ : (fops Bool .charDevPoll).Run anyStep (loaded Bool) fillsRun.1 fillsRun.2 :=
    Program.Run.of_exec anyway_any fills_runs
  have hrun : (fops Bool .charDevPoll).Run anyStep fillsRun.2 dropsRun.1 dropsRun.2 :=
    Program.Run.of_exec anyway_any drops_runs
  have hwrites : (settled dropsRun.1).map Outcome.call = [.devWrite []] := by decide +kernel
  have hgone : dropsRun.2.shared.ready.pollin = false := by decide +kernel
  have hnoread : ∀ o ∈ settled dropsRun.1, ∀ nb len, o.call = .devRead nb len → o.ret < 0 := by
    intro o ho nb len hcall
    have hmem : o.call ∈ (settled dropsRun.1).map Outcome.call := List.mem_map_of_mem ho
    rw [hwrites, hcall] at hmem
    cases List.mem_singleton.mp hmem
  have hstays : dropsRun.2.shared.ready.pollin = true :=
    h _ _ _ _ hrun₀ (by decide +kernel) (by decide +kernel) hrun hnoread (by decide +kernel)
  exact Bool.false_ne_true (hgone.symm.trans hstays)

end Ldd.Stream

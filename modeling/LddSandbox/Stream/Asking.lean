import LddSandbox.Schemes.Stutter
import LddSandbox.Stream.History

/-! A writer that asks first (`07-char-dev-poll`). `dev_write` discards what is unread when it finds
    the buffer full. A process that is the only writer, and writes only once a poll told it
    `POLLOUT`, never finds it full: between its poll and its write the others can only make space,
    however they read and poll. So nothing is ever discarded, and the device is a lossless FIFO
    (`asking_lossless`).

        w:       poll ─ POLLOUT ─▶ (told) ───▶ write ▶ ..   ▶ poll ▶ ..
        others:        reads, polls, opens:  has_space stays                                  -/

namespace Ldd.Stream
open Ldd.Schemes Ldd.Kernel

/-- A poll that awaited `POLLOUT` told it; a write forgets. -/
def told : Pc → Pc → Bool → Bool
  | .devPoll ev _ (.sleep mask), .idle, _ => ev.pollout && mask.pollout
  | .devPoll _ _ .asleep, .idle, _ => false
  | .idle, .devWrite _ _, _ => false
  | _, _, b => b

/-- Process `w` is the only writer, and writes once it is told. -/
def Asks {ι : Type} (w p : ι) (g : Choice) (c : Conf ι (Dev ι) (Pc × Bool)) : Prop :=
  (c.pc p).1 = .idle → ∀ data, g.call = .devWrite data → p = w ∧ (c.pc p).2 = true

/-- The poll device freshly loaded, nobody told of anything. -/
def unasked (ι : Type) : Conf ι (Dev ι) (Pc × Bool) := ⟨chardevInit ι, fun _ => (.idle, false)⟩

def Pc.isWrite : Pc → Bool
  | .devWrite _ _ => true
  | _ => false

/-- There is space wherever the writer counts on it, and its write discards nothing. -/
def Pc.Roomy {ι : Type} (d : Dev ι) : Pc → Prop
  | .devWrite _ .lock | .devWrite _ .checkFull => d.hasSpace = true
  | .devWrite _ .resetRead | .devWrite _ (.resetWrite _) => False
  | .devWrite _ (.copy lost) | .devWrite _ (.unlockFault lost) | .devWrite _ (.advance lost _)
  | .devWrite _ (.unlock lost _) | .devWrite _ (.wake lost _) => lost = none
  | .devPoll _ _ (.unlock mask) | .devPoll _ _ (.sleep mask) =>
    mask.pollout = true → d.hasSpace = true
  | _ => True

/-- What the writer was told is still so, until it writes. -/
structure Roomy {ι : Type} (d : Dev ι) (b : Bool) (k : Pc) : Prop where
  note : b = true → k.isWrite = false ∧ d.hasSpace = true
  here : k.Roomy d

variable {ι : Type} {drv : Driver} {p w : ι} {g : Choice} {d d' : Dev ι} {k k' : Pc} {e : Act}
variable {b : Bool} {o : Outcome}

/-! ### One step -/

theorem Step.size (h : Step drv p g d k d' k' e) : d'.bufferSize = d.bufferSize := by
  cases h with
  | @openReaders r w | @releaseReaders r w => cases r <;> rfl
  | @openWriters r w | @releaseWriters r w => cases w <;> rfl
  | _ => rfl

/-- Only a write takes space. -/
theorem Step.keepsSpace (h : Step drv p g d k d' k' e) (hw : k.isWrite = false)
    (hsize : d.bufferSize = bufLen) (hs : d.hasSpace = true) : d'.hasSpace = true := by
  cases h with
  | @openReaders r w | @releaseReaders r w => cases r <;> exact hs
  | @openWriters r w | @releaseWriters r w => cases w <;> exact hs
  | emptyWrite =>
    -- `write_pos = 0`
    simp [Dev.hasSpace, hsize, bufLen]
  | fullRead | fullWrite | copyWrite | faultWrite | advanceWrite => cases hw
  | _ => exact hs

theorem Step.isWrite (h : Step drv p g d k d' k' e) (hk : k.isWrite = false)
    (hcall : k = .idle → ∀ data, g.call ≠ .devWrite data) : k'.isWrite = false := by
  cases h with
  | enter =>
    cases hc : g.call with
    | devWrite data => exact absurd hc (hcall rfl data)
    | _ => rfl
  | lock hl => cases hl <;> first | rfl | cases hk
  | _ => first | rfl | cases hk

/-- Only a write discards. -/
theorem Step.discards (h : Step drv p g d k d' k' (.settle o)) (hk : k.isWrite = false) :
    o.lost = [] := by
  cases h with
  | unlockFaultWrite | unlockWrite => cases hk
  | _ => rfl

theorem Heard.isWrite (h : Heard k k') : k'.isWrite = k.isWrite := by
  cases h <;> rfl

/-- More space is as good. -/
theorem Roomy.mono (h : Roomy d b k) (hs : d.hasSpace = true → d'.hasSpace = true) :
    Roomy d' b k := by
  refine ⟨fun hb => ⟨(h.note hb).1, hs (h.note hb).2⟩, ?_⟩
  have hhere := h.here
  cases k with
  | devWrite data k => cases k <;> first | exact hs hhere | exact hhere
  | devPoll ev t k => cases k <;> first | exact fun hm => hs (hhere hm) | exact hhere
  | _ => exact hhere

theorem Heard.roomy (hk : Heard k k') (h : Roomy d b k) : Roomy d b k' := by
  refine ⟨fun hb => ⟨hk.isWrite.trans (h.note hb).1, (h.note hb).2⟩, ?_⟩
  have hhere := h.here
  cases hk with
  | same => exact hhere
  | wait => trivial
  | @poll ev t t' k => cases k <;> exact hhere
  | pollAgain => trivial

theorem told_cases (h : told k k' b = true) :
    (∃ ev t mask, k = .devPoll ev t (.sleep mask) ∧ k' = .idle ∧ mask.pollout = true) ∨
      b = true ∧ (k = .idle → k'.isWrite = false) := by
  unfold told at h
  split at h
  · exact .inl ⟨_, _, _, rfl, rfl, (Bool.and_eq_true_iff.mp h).2⟩
  · cases h
  · cases h
  · rename_i hnot
    refine .inr ⟨h, ?_⟩
    rintro rfl
    cases k' with
    | devWrite data k => exact absurd rfl (hnot data k rfl)
    | _ => rfl

/-- What is told is so, and stays so. -/
theorem Step.notes (h : Step drv p g d k d' k' e) (hk : Roomy d b k) (hsize : d.bufferSize = bufLen)
    (ht : told k k' b = true) : k'.isWrite = false ∧ d'.hasSpace = true := by
  rcases told_cases ht with ⟨ev, t, mask, rfl, rfl, hm⟩ | ⟨hb, hidle⟩
  · exact ⟨rfl, h.keepsSpace rfl hsize (hk.here hm)⟩
  · obtain ⟨hw, hs⟩ := hk.note hb
    refine ⟨?_, h.keepsSpace hw hsize hs⟩
    by_cases hi : k = .idle
    · exact hidle hi
    · exact h.isWrite hw fun h => absurd h hi

/-- A step of the writer keeps to it, and settles nothing that discards. -/
theorem Step.roomy (h : Step drv p g d k d' k' e) (hk : Roomy d b k)
    (hsize : d.bufferSize = bufLen) (hasks : k = .idle → ∀ data, g.call = .devWrite data → b = true) :
    Roomy d' (told k k' b) k' ∧ ∀ o, e = .settle o → o.lost = [] := by
  refine ⟨⟨h.notes hk hsize, ?_⟩, ?_⟩
  · have hhere := hk.here
    cases h with
    | enter =>
      cases hc : g.call with
      | devWrite data => exact (hk.note (hasks rfl data hc)).2
      | _ => trivial
    | lock hl =>
      cases hl with
      | devWrite => exact hhere
      | _ => trivial
    | isFull hs =>
      -- the writer was told that there is space
      rw [show d.hasSpace = true from hhere] at hs
      cases hs
    | hasRoom => rfl
    | fullRead | fullWrite => exact hhere.elim
    | checkWrite => exact fun h => h
    | _ => first | exact hhere | trivial
  · rintro o rfl
    cases h with
    | unlockFaultWrite | unlockWrite =>
      obtain rfl := hk.here
      rfl
    | _ => rfl

/-! ### Every run -/

/-- What holds in every run with an asking writer. -/
structure Asked (w : ι) (tr : List (ι × Act)) (c : Conf ι (Dev ι) (Pc × Bool)) : Prop where
  size : c.shared.bufferSize = bufLen
  sole : ∀ r, r ≠ w → (c.pc r).1.isWrite = false
  roomy : Roomy c.shared (c.pc w).2 (c.pc w).1
  kept : ∀ o ∈ settled tr, o.lost = []

theorem kept_step {tr : List (ι × Act)} (h : ∀ o ∈ settled tr, o.lost = [])
    (he : ∀ o, e = .settle o → o.lost = []) : ∀ o ∈ settled (tr ++ [(p, e)]), o.lost = [] := by
  intro o ho
  rw [settled_append, List.mem_append] at ho
  rcases ho with ho | ho
  · exact h o ho
  · cases e with
    | settle o' =>
      obtain rfl := List.mem_singleton.mp ho
      exact he _ rfl
    | _ => cases ho

variable [DecidableEq ι] {tr : List (ι × Act)} {c c' : Conf ι (Dev ι) (Pc × Bool)}

/-- A step of another process. -/
theorem Asked.beside (h : Asked w tr c) (hp : p ≠ w) (hok : Asks w p g c)
    (hf : ((fops ι drv).noting told).fire p g c = some (e, c')) : Asked w (tr ++ [(p, e)]) c' := by
  obtain ⟨hn, -, hothers⟩ := noting_spec hf
  have hstep := Step.of_next hn
  have hcall : (c.pc p).1 = .idle → ∀ data, g.call ≠ .devWrite data :=
    fun hi data hc => hp (hok hi data hc).1
  refine ⟨hstep.size.trans h.size, fun r hr => ?_, ?_, kept_step h.kept ?_⟩
  · rcases eq_or_ne r p with rfl | hne
    · exact hstep.isWrite (h.sole r hr) hcall
    · rw [hothers r hne]
      exact (heard (ι := ι) drv e _).isWrite.trans (h.sole r hr)
  · rw [hothers w hp.symm]
    exact (heard (ι := ι) drv e _).roomy (h.roomy.mono (hstep.keepsSpace (h.sole p hp) h.size))
  · rintro o rfl
    exact hstep.discards (h.sole p hp)

/-- A step of the writer. -/
theorem Asked.own (h : Asked w tr c) (hok : Asks w w g c)
    (hf : ((fops ι drv).noting told).fire w g c = some (e, c')) : Asked w (tr ++ [(w, e)]) c' := by
  obtain ⟨hn, hnote, hothers⟩ := noting_spec hf
  have hstep := Step.of_next hn
  obtain ⟨hroomy, hlost⟩ := hstep.roomy h.roomy h.size fun hi data hc => (hok hi data hc).2
  refine ⟨hstep.size.trans h.size, fun r hr => ?_, ?_, kept_step h.kept hlost⟩
  · rw [hothers r hr]
    exact (heard (ι := ι) drv e _).isWrite.trans (h.sole r hr)
  · rw [hnote]
    exact hroomy

theorem asked_run (hrun : ((fops ι drv).noting told).Run (Asks w) (unasked ι) tr c) :
    Asked w tr c := by
  refine hrun.history ⟨rfl, fun _ _ => rfl, ⟨fun h => (by cases h), trivial⟩, fun _ h => ?_⟩ ?_
  · cases h
  · intro tr p g c e c' hI hok hf
    rcases eq_or_ne p w with rfl | hp
    · exact hI.own hok hf
    · exact hI.beside hp hok hf

/-- ASKING IS LOSSLESS: in every run of the poll device in which one process does all the writing,
    and writes only after a poll told it `POLLOUT`, whatever the other processes read and poll, no
    write discards anything: the bytes delivered, followed by the unread bytes, are the bytes
    accepted. -/
theorem asking_lossless (hrun : ((fops ι .charDevPoll).noting told).Run (Asks w) (unasked ι) tr c)
    (hl : c.shared.lock = none) :
    (∀ o ∈ settled tr, o.lost = []) ∧
      (settled tr).flatMap Outcome.delivered ++ c.shared.unread =
        (settled tr).flatMap Outcome.accepted := by
  have hkept := (asked_run hrun).kept
  have hplain : (fops ι .charDevPoll).Run anyStep (loaded ι) tr (c.via Prod.fst) := noting_run hrun
  obtain ⟨st, hrep, hsim⟩ := replayed hplain
  have hbal := Fifo.replay_balance hrep
  have hsplit : (settled tr).flatMap (fun o => o.lost ++ o.bytes) =
      (settled tr).flatMap Outcome.delivered := by
    refine List.flatMap_congr fun o ho => ?_
    obtain ⟨s, s', hstep⟩ := Fifo.replay_mem hrep ho
    rw [hkept o ho, Fifo.step_delivered hstep, List.nil_append]
  refine ⟨hkept, ?_⟩
  have hunread : c.shared.unread = st.pending := (hsim hl).unread
  rw [hunread, ← hsplit, ← hbal]
  rfl

/-- Process `true` polls for space and writes three bytes, process `false` reads two of them. -/
def asksAndWrites : List (Bool × Choice) :=
  calls true { call := .devPoll ⟨false, true⟩ } 7 ++ calls true { call := .devWrite [7, 8, 9] } 7 ++
  calls false { call := .devRead false 2 } 9

/-- Process `true` is the only writer, and writes once it is told. -/
def asks (p : Bool) (g : Choice) (c : Conf Bool (Dev Bool) (Pc × Bool)) : Bool :=
  match g.call with
  | .devWrite _ => decide ((c.pc p).1 ≠ .idle) || p && (c.pc p).2
  | _ => true

theorem asks_ok (p : Bool) (g : Choice) (c : Conf Bool (Dev Bool) (Pc × Bool))
    (h : asks p g c = true) : Asks true p g c := by
  intro hidle data hcall
  simpa [asks, hcall, hidle] using h

theorem asksAndWrites_runs : (((fops Bool .charDevPoll).noting told).exec asks asksAndWrites
    (unasked Bool)).isSome = true := by
  decide +kernel

/-- The run of `asksAndWrites`. -/
def asksAndWritesRun : List (Bool × Act) × Conf Bool (Dev Bool) (Pc × Bool) :=
  (((fops Bool .charDevPoll).noting told).exec asks asksAndWrites (unasked Bool)).get
    asksAndWrites_runs

theorem asking_lossless_asksAndWrites : asksAndWritesRun.2.shared.unread = [9] ∧
    (settled asksAndWritesRun.1).flatMap Outcome.delivered ++ asksAndWritesRun.2.shared.unread =
      (settled asksAndWritesRun.1).flatMap Outcome.accepted :=
  ⟨by decide +kernel,
    (asking_lossless (Program.Run.of_exec asks_ok asksAndWrites_runs) (by decide +kernel)).2⟩

end Ldd.Stream

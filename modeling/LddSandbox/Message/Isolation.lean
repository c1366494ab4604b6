import LddSandbox.Message.Refine
import LddSandbox.Schemes.Confined

/-! The minors of `03-char-dev-multibuf` are isolated. The buffers of the devices are the rows of
    one array, and nothing but the index of a row and the clamp of a length keeps a call in its
    row. `devWrite_row` says that a write stays there; with what a read gives (`shows`) the machine
    of the calls on all minors is confined to them, and two runs that agree on the calls of one
    minor answer these alike (`minors_isolated`).

        message:   | row 0 ..... | row 1 ..... | row m ..... \0 | ..   | row 15 .... |
                                                 m * BUF_LEN     (m + 1) * BUF_LEN        -/

namespace Ldd.Message.CharDevMultibuf
open Ldd.Schemes Ldd.Kernel

/-- A call on a file of a minor, with the offset of that file and how the copy ends. -/
inductive Call
  | read (minor len : ℕ) (offset : ℤ) (f : Fault)
  | write (minor : ℕ) (offset : ℤ) (data : List UInt8) (f : Fault)

def Call.minor : Call → ℕ
  | .read minor _ _ _ => minor
  | .write minor _ _ _ => minor

/-- The calls on all minors, behind the checks of the VFS. -/
def minors : Machine State Call Answer
  | s, .read minor len offset f =>
    if admits offset len then (s, .read (devRead minor s len offset f)) else (s, .refused)
  | s, .write minor offset data f =>
    if admits offset data.length then
      let (s', ret) := devWrite minor s data f
      (s', .wrote ret)
    else (s, .refused)

variable {s t : State} {minor j : ℕ} {data : List UInt8} {f : Fault}

/-! ### One call -/

/-- A minor past the last device has none. -/
theorem no_device (h : devMax ≤ minor) (s : State) (len : ℕ) (offset : ℤ) (data : List UInt8)
    (f : Fault) :
    devRead minor s len offset f = ⟨- ENODEV, offset, []⟩ ∧
      devWrite minor s data f = (s, - ENODEV) :=
  ⟨if_pos h, if_pos h⟩

theorem writeInt_outside {N : ℕ} (mem : Mem UInt8) {base i : ℕ} (h0 : 0 < N) (hN : N ≤ 1024)
    (h : i < base ∨ base + N ≤ i) : (writeInt N mem base data f).1 i = mem i := by
  have hk := Msg.kept_le N data f
  have hcopy : (copyFromUser mem base data (clampLen N data).toNat f).1 i = mem i := by
    rw [clampLen_eq h0, Int.toNat_natCast]
    exact copyFromUser_outside mem data f (by omega)
  rw [writeInt_eq mem base data f h0 hN, ← hcopy]
  -- the terminator is in the range too
  rcases h with h | h
  · exact Mem.store_before (by omega)
  · exact Mem.store_after (by rw [List.length_singleton]; omega)

/-- A write keeps to its row and its size. -/
theorem devWrite_row (s : State) (data : List UInt8) (f : Fault) (hj : j ≠ minor) :
    (devWrite minor s data f).1.messageSize j = s.messageSize j ∧
      ∀ i < bufLen, (devWrite minor s data f).1.message (j * bufLen + i) =
        s.message (j * bufLen + i) := by
  unfold devWrite
  split
  · exact ⟨rfl, fun _ _ => rfl⟩
  · refine ⟨Function.update_of_ne hj .., fun i hi => ?_⟩
    refine writeInt_outside s.message (by decide) (by decide) ?_
    rcases Nat.lt_or_gt_of_ne hj with hlt | hgt
    · left
      have hrow : (j + 1) * bufLen ≤ minor * bufLen := Nat.mul_le_mul_right _ hlt
      rw [Nat.add_mul] at hrow
      omega
    · right
      have hrow : (minor + 1) * bufLen ≤ j * bufLen := Nat.mul_le_mul_right _ hgt
      rw [Nat.add_mul] at hrow
      omega

theorem minors_row (s : State) (i : Call) (hj : j ≠ i.minor) :
    (minors s i).1.messageSize j = s.messageSize j ∧
      ∀ n < bufLen, (minors s i).1.message (j * bufLen + n) = s.message (j * bufLen + n) := by
  cases i with
  | read minor len offset f =>
    simp only [minors]
    split <;> exact ⟨rfl, fun _ _ => rfl⟩
  | write minor offset data f =>
    simp only [minors]
    split
    · exact devWrite_row s data f hj
    · exact ⟨rfl, fun _ _ => rfl⟩

/-! ### Two runs -/

/-- What a minor sees of two states is one: the same message lies in its row. -/
def View (minor : ℕ) (s t : State) : Prop :=
  ∃ m : Msg bufLen, Holds m s.message (minor * bufLen) (s.messageSize minor) ∧
    Holds m t.message (minor * bufLen) (t.messageSize minor)

theorem view_init (minor : ℕ) : View minor init init := ⟨Msg.empty bufLen, holds_empty, holds_empty⟩

/-- A message stays as long as its row does. -/
theorem holds_row {m : Msg bufLen} {mem mem' : Mem UInt8} {size : ℤ}
    (h : Holds m mem (minor * bufLen) size)
    (hrow : ∀ i < bufLen, mem' (minor * bufLen + i) = mem (minor * bufLen + i)) :
    Holds m mem' (minor * bufLen) size := by
  refine ⟨h.size, ?_⟩
  rw [← h.bytes, Mem.load_length]
  refine Mem.load_congr fun i hi hlt => ?_
  have hroom := m.room
  obtain ⟨n, rfl⟩ := Nat.exists_eq_add_of_le hi
  exact hrow n (by omega)

theorem view_own {i : Call} (h : View i.minor s t) :
    View i.minor (minors s i).1 (minors t i).1 ∧ (minors s i).2 = (minors t i).2 := by
  have hview := h
  obtain ⟨m, hs, ht⟩ := h
  cases i with
  | read minor len offset f =>
    simp only [minors]
    split
    · rename_i ha
      refine ⟨hview, congrArg Answer.read ?_⟩
      rcases Nat.lt_or_ge minor devMax with hlt | hge
      · have hshows := shows ⟨minor, hlt⟩
        exact (hshows.read f hs ha).trans (hshows.read f ht ha).symm
      · rw [(no_device hge s len offset [] f).1, (no_device hge t len offset [] f).1]
    · exact ⟨hview, rfl⟩
  | write minor offset data f =>
    simp only [minors]
    split
    · rename_i ha
      rcases Nat.lt_or_ge minor devMax with hlt | hge
      · have hshows := shows ⟨minor, hlt⟩
        obtain ⟨hs', hrets⟩ := hshows.write f hs (admits_len ha)
        obtain ⟨ht', hrett⟩ := hshows.write f ht (admits_len ha)
        exact ⟨⟨_, hs', ht'⟩, congrArg Answer.wrote (hrets.trans hrett.symm)⟩
      · rw [(no_device hge s 0 0 data f).2, (no_device hge t 0 0 data f).2]
        exact ⟨hview, rfl⟩
    · exact ⟨hview, rfl⟩

theorem view_other {i : Call} (hi : i.minor ≠ minor) (h : View minor s t) :
    View minor (minors s i).1 t := by
  obtain ⟨m, hs, ht⟩ := h
  obtain ⟨hsize, hrow⟩ := minors_row s i hi.symm
  refine ⟨m, ?_, ht⟩
  rw [hsize]
  exact holds_row hs hrow

theorem confined : minors.Confined Call.minor View := ⟨view_own, view_other⟩

/-- ISOLATED MINORS: two runs with the same calls on a minor answer them alike, whatever is called
    on other minors in between; a call on a minor past the last device gives `-ENODEV` and changes
    nothing; and no call changes a row or a size but those of its minor. -/
theorem minors_isolated (minor : ℕ) (is js : List Call)
    (h : Machine.callsOf Call.minor minor is = Machine.callsOf Call.minor minor js) :
    minors.answersOf Call.minor minor init is = minors.answersOf Call.minor minor init js ∧
    (∀ (s : State) (past : ℕ), devMax ≤ past → ∀ (len : ℕ) (offset : ℤ) (data : List UInt8)
      (f : Fault), devRead past s len offset f = ⟨- ENODEV, offset, []⟩ ∧
        devWrite past s data f = (s, - ENODEV)) ∧
    ∀ (s : State) (i : Call) (j : ℕ), j ≠ i.minor →
      (minors s i).1.messageSize j = s.messageSize j ∧
        ∀ n < bufLen, (minors s i).1.message (j * bufLen + n) = s.message (j * bufLen + n) :=
  ⟨confined.two_runs (view_init minor) (view_init minor) h,
    fun s _ hpast len offset data f => no_device hpast s len offset data f,
    fun s i _ hj => minors_row s i hj⟩

/-- A message for minor 1 and a read of it, with a longer one for minor 0 in between. -/
def interleaved : List Call :=
  [.write 1 0 [104, 105] {}, .write 0 0 (List.replicate 2000 7) {}, .read 1 64 0 {}]

theorem minors_isolated_interleaved :
    minors.answersOf Call.minor 1 init interleaved = [.wrote 2, .read ⟨2, 2, [104, 105]⟩] := by
  have hcalls : Machine.callsOf Call.minor 1 interleaved =
      Machine.callsOf Call.minor 1 [.write 1 0 [104, 105] {}, .read 1 64 0 {}] := rfl
  rw [(minors_isolated 1 _ _ hcalls).1]
  decide +kernel

end Ldd.Message.CharDevMultibuf

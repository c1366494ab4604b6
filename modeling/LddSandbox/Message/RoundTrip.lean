import LddSandbox.Message.Refine

/-! Storing a byte string in a message device, and reading it back.

    A caller writes what was not accepted yet until everything was; a driver cuts a write to
    `BUF_LEN - 1` bytes, and every write replaces the message, whatever the file's offset. So the
    device keeps the last piece, and a reader gets that piece, in chunks of whatever lengths.

        d:   │ n bytes │ n bytes │ .. │ 1 to n bytes │        n = BUF_LEN - 1
              write 1   write 2         last write  ─▶ the message -/

namespace Ldd.Message
open Ldd.Schemes Ldd.Kernel

/-- A loop, run on fuel, ends with `x`. -/
def Ends {α : Type*} (loop : ℕ → Option α) (x : α) : Prop :=
  ∃ bound, ∀ fuel, bound ≤ fuel → loop fuel = some x

theorem Ends.unique {α : Type*} {loop : ℕ → Option α} {x y : α} (h : Ends loop x)
    (h' : Ends loop y) : x = y := by
  obtain ⟨b, hb⟩ := h
  obtain ⟨b', hb'⟩ := h'
  have hx := hb (max b b') (le_max_left _ _)
  have hy := hb' (max b b') (le_max_right _ _)
  exact Option.some.inj (hx.symm.trans hy)

section Loops
variable {σ : Type} (D : Ops σ)

/-- `while (left) { n = write(fd, d, left); d += n; left -= n; }`: the VFS cuts a call to
    `MAX_RW_COUNT` bytes. -/
def storeLoop : ℕ → σ → List UInt8 → Option σ
  | _, s, [] => some s
  | 0, _, _ :: _ => none
  | fuel + 1, s, d =>
    let (s', ret) := D.write s (d.take maxRwCount) {}
    storeLoop fuel s' (d.drop ret.toNat)

/-- `while ((n = read(fd, buf, lens[k++])) != 0) out += buf[0..n);`, from an offset on. -/
def readLoop (s : σ) (lens : ℕ → ℕ) : ℕ → ℕ → ℤ → Option (List UInt8)
  | 0, _, _ => none
  | fuel + 1, k, offset =>
    let r := D.read s (min (lens k) maxRwCount) offset {}
    if r.ret = 0 then some [] else (readLoop s lens fuel (k + 1) r.offset).map (r.bytes ++ ·)

end Loops

/-- The last of the pieces of `n` bytes into which `d` is cut. -/
def lastPiece (n : ℕ) (d : List UInt8) : List UInt8 := d.drop (n * ((d.length - 1) / n))

/-! ### The last piece -/

theorem lastPiece_short {n : ℕ} {d : List UInt8} (h : d.length ≤ n) : lastPiece n d = d := by
  rcases Nat.eq_zero_or_pos d.length with h0 | h0
  · rw [lastPiece, List.length_eq_zero_iff.mp h0, List.drop_nil]
  · rw [lastPiece, Nat.div_eq_of_lt (by omega), Nat.mul_zero, List.drop_zero]

theorem lastPiece_drop {n : ℕ} {d : List UInt8} (hn : 0 < n) (h : n < d.length) :
    lastPiece n (d.drop n) = lastPiece n d := by
  have hdiv : (d.length - 1) / n = (d.length - n - 1) / n + 1 := by
    rw [← Nat.add_div_right _ hn]
    congr 1
    omega
  rw [lastPiece, lastPiece, List.length_drop, List.drop_drop, hdiv, Nat.mul_add, Nat.mul_one,
    Nat.add_comm]

theorem lastPiece_length {n : ℕ} {d : List UInt8} (hn : 0 < n) : (lastPiece n d).length ≤ n := by
  have hmod := Nat.mod_lt (d.length - 1) hn
  have hdiv := Nat.div_add_mod (d.length - 1) n
  rw [lastPiece, List.length_drop]
  omega

/-- The last piece is the first one exactly if there is one piece, or the last is full and equal to
    the first. -/
theorem lastPiece_eq_take {n : ℕ} {d : List UInt8} (hn : 0 < n) :
    lastPiece n d = d.take n ↔
      d.length ≤ n ∨ n ∣ d.length ∧ d.drop (d.length - n) = d.take n := by
  rcases Nat.lt_or_ge n d.length with h | h
  · have hlen : (d.take n).length = n := by
      rw [List.length_take]
      omega
    have hmod := Nat.mod_lt (d.length - 1) hn
    have hdiv := Nat.div_add_mod (d.length - 1) n
    rw [or_iff_right (by omega)]
    constructor
    · intro heq
      have hl := congrArg List.length heq
      rw [hlen, lastPiece, List.length_drop] at hl
      have hstart : n * ((d.length - 1) / n) = d.length - n := by omega
      rw [lastPiece, hstart] at heq
      refine ⟨?_, heq⟩
      have hmul : d.length = n * ((d.length - 1) / n + 1) := by
        rw [Nat.mul_add]
        omega
      exact ⟨_, hmul⟩
    · rintro ⟨⟨q, hq⟩, heq⟩
      have hstart : n * ((d.length - 1) / n) = d.length - n := by
        cases q with
        | zero => omega
        | succ q =>
          have hpred : d.length - 1 = n - 1 + n * q := by
            rw [hq, Nat.mul_add]
            omega
          rw [hpred, Nat.add_mul_div_left _ _ hn, Nat.div_eq_of_lt (by omega), Nat.zero_add, hq,
            Nat.mul_add]
          omega
      rw [lastPiece, hstart, heq]
  · exact iff_of_true (by rw [lastPiece_short h, List.take_of_length_le h]) (.inl h)

/-! ### The loops -/

variable {σ : Type} {N : ℕ} {D : Ops σ} {R : Msg N → σ → Prop} {m : Msg N} {s : σ}

/-- The message that a caller's loop leaves. -/
def lastMsg (N : ℕ) (d : List UInt8) (hN : 0 < N - 1) : Msg N :=
  ⟨lastPiece (N - 1) d, lastPiece_length hN⟩

/-- One write of what is left: it accepts the first piece, which is the message then. -/
theorem Shows.write_piece (h : Shows D R) (hR : R m s) (hN : N ≤ maxRwCount) (d : List UInt8) :
    (D.write s (d.take maxRwCount) {}).2 = (min d.length (N - 1) : ℕ) ∧
      R ⟨d.take (N - 1), List.length_take_le _ _⟩ (D.write s (d.take maxRwCount) {}).1 := by
  have hcut : (d.take maxRwCount).length ≤ maxRwCount := List.length_take_le _ _
  obtain ⟨hR', hret⟩ := h.write {} hR hcut
  have hkept : Msg.kept N (d.take maxRwCount) {} = min d.length (N - 1) := by
    simp only [Msg.kept, Fault.uncopied, List.length_take, Nat.zero_min]
    omega
  have hmsg : (m.write (d.take maxRwCount) {}).1 = ⟨d.take (N - 1), List.length_take_le _ _⟩ := by
    refine Msg.ext ?_
    show (d.take maxRwCount).take (Msg.kept N (d.take maxRwCount) {}) = d.take (N - 1)
    rw [hkept, List.take_take, List.take_eq_take_iff]
    omega
  rw [hmsg] at hR'
  refine ⟨hret.trans ?_, hR'⟩
  show ((Msg.kept N (d.take maxRwCount) {} : ℕ) : ℤ) = _
  rw [hkept]

@[simp] theorem storeLoop_nil (fuel : ℕ) (s : σ) : storeLoop D fuel s [] = some s := by
  cases fuel <;> rfl

theorem storeLoop_succ (fuel : ℕ) (s : σ) {d : List UInt8} (hd : d ≠ []) :
    storeLoop D (fuel + 1) s d = storeLoop D fuel (D.write s (d.take maxRwCount) {}).1
      (d.drop (D.write s (d.take maxRwCount) {}).2.toNat) := by
  cases d with
  | nil => exact absurd rfl hd
  | cons b d => rfl

/-- The caller's loop accepts every byte and leaves the last piece. -/
theorem Shows.storeLoop_ends (h : Shows D R) (hN : N ≤ maxRwCount) (hpos : 0 < N - 1)
    {d : List UInt8} (hd : d ≠ []) (hR : R m s) :
    ∃ s', R (lastMsg N d hpos) s' ∧ ∀ fuel, d.length ≤ fuel → storeLoop D fuel s d = some s' := by
  induction hlen : d.length using Nat.strong_induction_on generalizing d m s with
  | _ k ih =>
    obtain ⟨hret, hR'⟩ := h.write_piece hR hN d
    have hlpos := List.length_pos_of_ne_nil hd
    rcases Nat.lt_or_ge (N - 1) d.length with hlong | hshort
    · -- the first piece is accepted, and the rest is stored over it
      have hrest : d.drop (N - 1) ≠ [] := by
        rw [ne_eq, List.drop_eq_nil_iff]
        omega
      obtain ⟨s', hs', hloop⟩ := ih (d.drop (N - 1)).length
        (by rw [List.length_drop]; omega) hrest hR' rfl
      have hmsg : lastMsg N (d.drop (N - 1)) hpos = lastMsg N d hpos :=
        Msg.ext (lastPiece_drop hpos hlong)
      rw [hmsg] at hs'
      refine ⟨s', hs', fun fuel hfuel => ?_⟩
      obtain ⟨fuel, rfl⟩ : ∃ f, fuel = f + 1 := ⟨fuel - 1, by omega⟩
      rw [storeLoop_succ fuel s hd, hret, Int.toNat_natCast, Nat.min_eq_right hlong.le]
      refine hloop fuel ?_
      rw [List.length_drop]
      omega
    · have hmsg : (⟨d.take (N - 1), List.length_take_le _ _⟩ : Msg N) = lastMsg N d hpos := by
        refine Msg.ext ?_
        show d.take (N - 1) = lastPiece (N - 1) d
        rw [lastPiece_short hshort, List.take_of_length_le hshort]
      rw [hmsg] at hR'
      refine ⟨_, hR', fun fuel hfuel => ?_⟩
      obtain ⟨fuel, rfl⟩ : ∃ f, fuel = f + 1 := ⟨fuel - 1, by omega⟩
      rw [storeLoop_succ fuel s hd, hret, Int.toNat_natCast, Nat.min_eq_left hshort,
        List.drop_length, storeLoop_nil]

/-- The reader's loop gets the rest of the message from its offset on. -/
theorem Shows.readLoop_ends (h : Shows D R) (hR : R m s) (hN : N ≤ maxRwCount) {lens : ℕ → ℕ}
    (hlens : ∀ k, 0 < lens k) {fuel : ℕ} (k : ℕ) {offset : ℕ} (hoff : offset ≤ m.bytes.length)
    (hfuel : m.bytes.length - offset < fuel) :
    readLoop D s lens fuel k offset = some (m.bytes.drop offset) := by
  induction fuel generalizing k offset with
  | zero => omega
  | succ fuel ih =>
    have hroom := m.room
    have hmax : maxRwCount = 2147479552 := rfl
    have hadmits : admits offset (min (lens k) maxRwCount) = true := by
      refine decide_eq_true ⟨Int.natCast_nonneg _, ?_, Nat.min_le_right _ _⟩
      omega
    have hspan : m.span (min (lens k) maxRwCount) offset =
        min (min (lens k) maxRwCount) (m.bytes.length - offset) := by
      unfold Msg.span
      omega
    have hk := hlens k
    have hread := h.read {} hR hadmits
    simp only [Msg.read, Fault.uncopied, Nat.zero_min, Nat.sub_zero, Int.toNat_natCast,
      hspan] at hread
    simp only [readLoop, hread]
    split
    · -- nothing is left
      rename_i hzero
      have hend : m.bytes.length ≤ offset := by omega
      rw [List.drop_of_length_le hend]
    · rename_i hsome
      set n := min (min (lens k) maxRwCount) (m.bytes.length - offset) with hn
      have hnext : readLoop D s lens fuel (k + 1) ((offset + n : ℕ) : ℤ) =
          some (m.bytes.drop (offset + n)) := ih (k + 1) (by omega) (by omega)
      rw [Nat.cast_add] at hnext
      rw [hnext, Option.map_some, ← List.drop_drop, List.take_append_drop]

/-- Both loops end, and the reader gets the last piece. -/
theorem Shows.last_piece (h : Shows D R) (hN : N ≤ maxRwCount) (hpos : 0 < N - 1) (hR : R m s)
    {d : List UInt8} (hd : d ≠ []) {lens : ℕ → ℕ} (hlens : ∀ k, 0 < lens k) :
    ∃ s', Ends (fun fuel => storeLoop D fuel s d) s' ∧
      Ends (fun fuel => readLoop D s' lens fuel 0 0) (lastPiece (N - 1) d) := by
  obtain ⟨s', hs', hstore⟩ := h.storeLoop_ends hN hpos hd hR
  refine ⟨s', ⟨d.length, hstore⟩, ⟨N, fun fuel hfuel => ?_⟩⟩
  have hroom := (lastMsg N d hpos).room
  have hlong : (lastMsg N d hpos).bytes.length - 0 < fuel := by omega
  have hread := h.readLoop_ends hs' hN hlens 0 (Nat.zero_le _) hlong
  rwa [List.drop_zero] at hread

/-! ### The five drivers -/

/-- What a caller stores with a loop of writes, and a fresh open reads with a loop of reads of any
    positive lengths: both loops end, and the reader gets the last piece of what was stored. It is
    the first `BUF_LEN - 1` bytes exactly if there are no more, or the last piece is full and has
    the same bytes as the first. -/
def RoundTrips (D : Ops σ) (R : Msg N → σ → Prop) : Prop :=
  ∀ (m : Msg N) (s : σ) (d : List UInt8) (lens : ℕ → ℕ), R m s → d ≠ [] → (∀ k, 0 < lens k) →
    ∃ s', Ends (fun fuel => storeLoop D fuel s d) s' ∧
      Ends (fun fuel => readLoop D s' lens fuel 0 0) (lastPiece (N - 1) d) ∧
      (lastPiece (N - 1) d = d.take (N - 1) ↔ d.length ≤ N - 1 ∨
        N - 1 ∣ d.length ∧ d.drop (d.length - (N - 1)) = d.take (N - 1))

theorem Shows.roundTrips (h : Shows D R) (hN : N ≤ maxRwCount) (hpos : 0 < N - 1) :
    RoundTrips D R := by
  intro m s d lens hR hd hlens
  obtain ⟨s', hstore, hread⟩ := h.last_piece hN hpos hR hd hlens
  exact ⟨s', hstore, hread, lastPiece_eq_take hpos⟩

/-- ROUND TRIP: each of the five drivers, whatever message it holds. -/
theorem round_trip :
    RoundTrips CharDeviceDriver.ops (fun (m : Msg CharDeviceDriver.bufLen) s =>
      Holds m s.message 0 s.messageSize) ∧
    (∀ minor : Fin CharDevMultibuf.devMax, RoundTrips (CharDevMultibuf.ops minor)
      fun (m : Msg CharDevMultibuf.bufLen) s =>
        Holds m s.message (minor * CharDevMultibuf.bufLen) (s.messageSize minor)) ∧
    RoundTrips CharDevIoctl.ops (fun (m : Msg CharDevIoctl.bufLen) dev =>
      Holds m dev.buffer 0 dev.bufferSize) ∧
    RoundTrips CharDevAutoNode.ops (fun (m : Msg CharDevAutoNode.bufLen) dev =>
      Holds m dev.buffer 0 dev.bufferSize) ∧
    RoundTrips PlatformDriver.ops (fun (m : Msg PlatformDriver.bufLen) dev =>
      Holds m dev.message 0 dev.messageSize) :=
  ⟨CharDeviceDriver.shows.roundTrips (by decide) (by decide),
    fun minor => (CharDevMultibuf.shows minor).roundTrips (by decide) (by decide),
    CharDevIoctl.shows.roundTrips (by decide) (by decide),
    CharDevAutoNode.shows.roundTrips (by decide) (by decide),
    PlatformDriver.shows.roundTrips (by decide) (by decide)⟩

/-- The reader gets the first `BUF_LEN - 1` bytes of what was stored. -/
def KeepsFirst (D : Ops σ) (R : Msg N → σ → Prop) : Prop :=
  ∀ (m : Msg N) (s : σ) (d : List UInt8) (lens : ℕ → ℕ), R m s → d ≠ [] → (∀ k, 0 < lens k) →
    ∃ s', Ends (fun fuel => storeLoop D fuel s d) s' ∧
      Ends (fun fuel => readLoop D s' lens fuel 0 0) (d.take (N - 1))

/-- One byte more than `04`'s buffer has room for. -/
def oneMore : List UInt8 := List.replicate 255 0 ++ [1]

theorem oneMore_loses : lastPiece 255 oneMore ≠ oneMore.take 255 := by decide +kernel

/-- The second write replaces the first. -/
theorem not_keeps_first : ¬ KeepsFirst CharDevIoctl.ops fun (m : Msg CharDevIoctl.bufLen) dev =>
    Holds m dev.buffer 0 dev.bufferSize := by
  intro h
  have hd : oneMore ≠ [] := List.append_ne_nil_of_right_ne_nil _ (List.cons_ne_nil _ _)
  have hlens : ∀ k : ℕ, 0 < (fun _ => 64 : ℕ → ℕ) k := fun _ => Nat.succ_pos _
  have hempty : Holds (Msg.empty CharDevIoctl.bufLen) CharDevIoctl.init.buffer 0
      CharDevIoctl.init.bufferSize := holds_empty
  obtain ⟨s', hstore, hread⟩ := h _ CharDevIoctl.init oneMore _ hempty hd hlens
  obtain ⟨s'', hstore', hread'⟩ := CharDevIoctl.shows.last_piece (by decide) (by decide) hempty hd
    hlens
  obtain rfl := hstore.unique hstore'
  exact oneMore_loses (hread'.unique hread)

end Ldd.Message

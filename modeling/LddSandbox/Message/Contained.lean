import LddSandbox.Message.Race

/-! The stores of `04-char-dev-ioctl` and `05-char-dev-auto-node` under any interleaving. A read may
    overrun the buffer when the size shrinks under it (`reads_inside`), but a store never does: each
    size that is stored was clamped before, by the process itself, so whichever of them the
    terminator is laid down behind, it is inside.

        q:  copy ▶ storeSize n ────────────────▶ terminate             buffer[m] = 0,  m ≤ 255
        p:                      storeSize m ▶                                                    -/

namespace Ldd.Message.Race
open Ldd.Schemes Ldd.Kernel

variable {ι : Type} {drv : Driver} {g : Choice} {s s' : Shared} {k k' : Pc} {e : Act}

/-- A size that a process is about to store fits. -/
def Pc.StoresFit : Pc → Prop
  | .devWrite _ (.storeSize n) => Fits n
  | _ => True

/-- The bytes behind the buffer are those of `m`. -/
def Untouched (m : Mem UInt8) (s : Shared) : Prop := ∀ i, bufLen ≤ i → s.buffer i = m i

theorem untouched_store {m buffer : Mem UInt8} (h : ∀ i, bufLen ≤ i → buffer i = m i) {pos : ℕ}
    {bs : List UInt8} (hend : pos + bs.length ≤ bufLen) :
    ∀ i, bufLen ≤ i → buffer.store pos bs i = m i := by
  intro i hi
  rw [Mem.store_after (by omega)]
  exact h i hi

theorem untouched_copy {m buffer : Mem UInt8} (h : ∀ i, bufLen ≤ i → buffer i = m i)
    (data : List UInt8) (f : Fault) :
    ∀ i, bufLen ≤ i → (copyFromUser buffer 0 data (clampLen bufLen data).toNat f).1 i = m i := by
  intro i hi
  have hlen : (clampLen bufLen data).toNat ≤ bufLen := by
    have h256 : bufLen = 256 := rfl
    rw [clampLen_eq (by decide)]
    omega
  rw [copyFromUser_outside buffer data f (.inr (by omega))]
  exact h i hi

/-- A step stores a size that fits and bytes inside the buffer, if the size it finds fits and so
    does the one that it has noted. -/
theorem Step.contained {m : Mem UInt8} (h : Step drv g s k s' k' e) (hs : Fits s.bufferSize)
    (hk : k.StoresFit) (hm : Untouched m s) : k'.StoresFit ∧ Untouched m s' := by
  have h256 : bufLen = 256 := rfl
  cases h with
  | enter => cases g.call <;> exact ⟨trivial, hm⟩
  | write k =>
    cases k with
    | copy => exact ⟨fits_copied _ g.fault, untouched_copy hm _ g.fault⟩
    | terminate n =>
      have hend : s.bufferSize.toNat + [(0 : UInt8)].length ≤ bufLen := by
        have := hs.2
        simp only [List.length_singleton]
        omega
      exact ⟨trivial, untouched_store hm hend⟩
    | _ => exact ⟨trivial, hm⟩
  | reset k =>
    cases k with
    | clear =>
      have hend : 0 + (List.replicate bufLen (0 : UInt8)).length ≤ bufLen := by
        rw [List.length_replicate, Nat.zero_add]
      exact ⟨trivial, untouched_store hm hend⟩
    | _ => exact ⟨trivial, hm⟩
  | _ => exact ⟨trivial, hm⟩

/-- The size fits as long as the sizes stored do. -/
theorem Step.fits_stored (h : Step drv g s k s' k' e) (hs : Fits s.bufferSize)
    (hk : k.StoresFit) : Fits s'.bufferSize := by
  rw [h.size]
  cases k with
  | devWrite data k =>
    cases k with
    | storeSize n => exact hk
    | _ => exact hs
  | reset k =>
    cases k with
    | storeSize => exact ⟨le_refl (0 : ℤ), Int.natCast_nonneg _⟩
    | _ => exact hs
  | _ => exact hs

/-- WRITES INSIDE: in every interleaving of reads, writes and resets by any number of processes,
    with any lengths and faults, `buffer_size` is at most `BUF_LEN - 1` in every state, and no byte
    behind the `BUF_LEN` of the buffer is ever changed. -/
theorem writes_inside [DecidableEq ι] (drv : Driver) (tr : List (ι × Act)) (c : Conf ι Shared Pc)
    (hrun : (fops ι drv).Run anyStep (loaded ι drv) tr c) :
    Fits c.shared.bufferSize ∧ Untouched drv.init.buffer c.shared := by
  have hall : (Fits c.shared.bufferSize ∧ Untouched drv.init.buffer c.shared) ∧
      ∀ r, (c.pc r).StoresFit := by
    refine hrun.always (I := fun c => (Fits c.shared.bufferSize ∧
      Untouched drv.init.buffer c.shared) ∧ ∀ r, (c.pc r).StoresFit)
      ⟨⟨fits_init drv, fun _ _ => rfl⟩, fun _ => trivial⟩ ?_
    rintro p g c e c' ⟨⟨hfits, hm⟩, hpcs⟩ - hf
    obtain ⟨hn, hothers⟩ := Program.fire_spec hf
    have hstep := Step.of_next hn
    obtain ⟨hown, hm'⟩ := hstep.contained hfits (hpcs p) hm
    refine ⟨⟨hstep.fits_stored hfits (hpcs p), hm'⟩, fun r => ?_⟩
    rcases eq_or_ne r p with rfl | hr
    · exact hown
    · rw [hothers r hr]
      exact hpcs r
  exact hall.1

theorem shrinks_runs : ((fops Bool .charDevIoctl).exec anyway shrinks
    (loaded Bool .charDevIoctl)).isSome = true := by
  decide +kernel

/-- The size shrinks under a read, and the writes stay inside. -/
theorem writes_inside_shrinks :
    let c := (((fops Bool .charDevIoctl).exec anyway shrinks (loaded Bool .charDevIoctl)).get
      shrinks_runs).2
    c.pc true = .devRead 4 8 (.copy (2 ^ 64 - 6)) ∧ Fits c.shared.bufferSize ∧
      Untouched (Driver.init .charDevIoctl).buffer c.shared :=
  ⟨by decide +kernel,
    writes_inside .charDevIoctl _ _ (Program.Run.of_exec anyway_any shrinks_runs)⟩

end Ldd.Message.Race

import LddSandbox.RamDisk.Faithful

/-! What lies behind the end of the disk does not matter: two disks that agree up to there serve
    every request alike, and agree afterwards. -/

namespace Ldd.RamDisk
open Ldd.Schemes

/-- Two memories hold the same disk. -/
def Agree (data data' : Mem UInt8) : Prop := ∀ i < diskSize, data i = data' i

/-- Two stores with the same pages and the same disk. -/
structure Same (s s' : Store) : Prop where
  data : Agree s.data s'.data
  pages : s.pages = s'.pages

variable {s s' : Store} {c c' : Copy}

theorem Agree.store {data data' : Mem UInt8} (h : Agree data data') (p : ℕ) (bs : List UInt8) :
    Agree (data.store p bs) (data'.store p bs) := by
  intro i hi
  simp only [Mem.store, h i hi]

theorem Agree.load {data data' : Mem UInt8} (h : Agree data data') {p n : ℕ}
    (hfit : p + n ≤ diskSize) : data.load p n = data'.load p n :=
  Mem.load_congr fun i _ hi => h i (Nat.lt_of_lt_of_le hi hfit)

/-- The same segment copied from both: the copies are the same. -/
theorem Same.copy (h : Same s s') (hm : c.Moves s) (hm' : c'.Moves s')
    (hplaced : c.placed = c'.placed) (hfit : c.placed.fits = true) :
    c = c' ∧ Same (c.after s) (c'.after s') := by
  obtain ⟨dir, pos, page, offset, bytes⟩ := c
  obtain ⟨dir', pos', page', offset', bytes'⟩ := c'
  simp only [Copy.placed, Placed.mk.injEq, Segment.mk.injEq] at hplaced
  obtain ⟨rfl, rfl, rfl, rfl, hlen⟩ := hplaced
  have hend : pos + bytes.length ≤ diskSize := of_decide_eq_true hfit
  have hbytes : bytes = bytes' := by
    cases dir with
    | write =>
      have hload : bytes = (s.pages page).load offset bytes.length := hm
      have hload' : bytes' = (s'.pages page).load offset bytes'.length := hm'
      rw [hload, hload', h.pages, hlen]
    | read =>
      have hload : bytes = s.data.load pos bytes.length := hm
      have hload' : bytes' = s'.data.load pos bytes'.length := hm'
      rw [hload, hload', h.data.load hend, hlen]
  subst hbytes
  refine ⟨rfl, ?_⟩
  cases dir with
  | write => exact ⟨h.data.store pos bytes, h.pages⟩
  | read =>
    refine ⟨h.data, ?_⟩
    simp only [Copy.after, Copy.onPages, h.pages]

/-- The same segments copied from both. -/
theorem Same.copies (h : Same s s') {cs cs' : List Copy} (hm : Traced Copy.after Copy.Moves s cs)
    (hm' : Traced Copy.after Copy.Moves s' cs') (hplaced : cs.map Copy.placed = cs'.map Copy.placed)
    (hfit : ∀ c ∈ cs, c.placed.fits = true) :
    cs = cs' ∧ Same (cs.foldl Copy.after s) (cs'.foldl Copy.after s') := by
  induction cs generalizing s s' cs' with
  | nil =>
    obtain rfl := List.map_eq_nil_iff.mp hplaced.symm
    exact ⟨rfl, h⟩
  | cons c cs ih =>
    cases cs' with
    | nil => cases hplaced
    | cons c' cs' =>
      obtain ⟨hhead, htail⟩ := List.cons.inj hplaced
      obtain ⟨rfl, hafter⟩ := h.copy hm.1 hm'.1 hhead (hfit c (List.mem_cons_self ..))
      obtain ⟨rfl, hend⟩ :=
        ih hafter hm.2 hm'.2 htail fun x hx => hfit x (List.mem_cons_of_mem _ hx)
      exact ⟨rfl, hend⟩

/-- A request is served alike. -/
theorem Same.queueRq (h : Same s s') {req : Request} (hreq : ∀ bio ∈ req, Admitted bio) :
    Same (myramdiskQueueRq req s).1 (myramdiskQueueRq req s').1 ∧
      (myramdiskQueueRq req s).2 = (myramdiskQueueRq req s').2 := by
  have hserves := serves_request hreq s
  have hserves' := serves_request hreq s'
  have hfit : ∀ c ∈ (myramdiskTransferRequest req s).2.1, c.placed.fits = true := fun c hc =>
    List.mem_takeWhile_imp (hserves.executed ▸ List.mem_map_of_mem hc)
  obtain ⟨hcs, hend⟩ := h.copies hserves.moves hserves'.moves
    (hserves.executed.trans hserves'.executed.symm) hfit
  have hret := hserves.ret.trans hserves'.ret.symm
  rw [← hserves.after, ← hserves'.after] at hend
  simp only [myramdiskQueueRq]
  exact ⟨hend, by rw [hcs, hret]⟩

end Ldd.RamDisk

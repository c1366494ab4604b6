import LddSandbox.RamDisk.Bounds
import LddSandbox.Schemes.Machine
import Mathlib.Algebra.Order.BigOperators.Group.List

/-! A transfer of sectors may reach the driver cut into bios and segments. The loop advances by
    whole sectors, so behind a segment that is not a number of sectors long it lags by the rest:

        cut:       | 256 | 256 |            of one sector
        copied:    | 256 |                  both at the start of the sector
                   | 256 |

    Nothing then reaches the last byte of that bio (`lags`). A transfer is served as one copy of the
    whole range, for every content of the disk and the pages, exactly if every segment is a number
    of sectors long (`as_one_iff`). -/

namespace Ldd.RamDisk
open Ldd.Schemes

/-- The driver as a machine that takes one request after another. -/
def handle : Machine Store Request (List Copy × ℤ) := fun s req => myramdiskTransferRequest req s

/-- The length of a list of segments. -/
def total (segs : List Segment) : ℕ := (segs.map Segment.bvLen).sum

def Bio.size (bio : Bio) : ℕ := total bio.segments

/-- Bios of one direction that follow each other from a sector to another, each a number of
    sectors long. -/
inductive Consecutive (dir : Dir) : ℕ → List Bio → ℕ → Prop
  | nil {start stop : ℕ} : start = stop → Consecutive dir start [] stop
  | cons {start : ℕ} {bio : Bio} {rest : List Bio} {stop : ℕ} : bio.dir = dir →
      bio.biSector = start → kernelSectorSize ∣ bio.size →
      Consecutive dir (start + bio.size / kernelSectorSize) rest stop →
      Consecutive dir start (bio :: rest) stop

/-- A transfer of `n` sectors from a sector on, in the capacity, cut into requests. -/
structure Cut (dir : Dir) (start n : ℕ) (reqs : List Request) : Prop where
  capacity : start + n ≤ nsectors
  consecutive : Consecutive dir start reqs.flatten (start + n)

/-- The segments of requests, in order. -/
def segmentsOf (bios : List Bio) : List Segment := bios.flatMap Bio.segments

/-- The bytes in the pages of segments, in order. -/
def gather (pages : Pages) (segs : List Segment) : List UInt8 :=
  segs.flatMap fun seg => (pages seg.bvPage).load seg.bvOffset seg.bvLen

/-- Two segments that share no byte of a page. -/
def Segment.Apart (x y : Segment) : Prop :=
  x.bvPage = y.bvPage → x.bvOffset + x.bvLen ≤ y.bvOffset ∨ y.bvOffset + y.bvLen ≤ x.bvOffset

/-- The bytes that served requests copied, in order. -/
def delivered (served : List (List Copy × ℤ)) : List UInt8 :=
  (served.flatMap Prod.fst).flatMap Copy.bytes

/-- Requests are served as one copy of `n` sectors: a write leaves the bytes of its pages on the
    disk, in order; a read delivers those of the disk, and they are in its pages afterwards unless
    its segments overlap there. -/
structure AsOne (dir : Dir) (start n : ℕ) (reqs : List Request) (s : Store) : Prop where
  rets : ∀ o ∈ (handle.run s reqs).2, o.2 = 0
  write : dir = .write → (handle.run s reqs).1 =
    ⟨s.data.store (start * kernelSectorSize) (gather s.pages (segmentsOf reqs.flatten)), s.pages⟩
  read : dir = .read → (handle.run s reqs).1.data = s.data ∧
    delivered (handle.run s reqs).2 =
      s.data.load (start * kernelSectorSize) (n * kernelSectorSize) ∧
    ((segmentsOf reqs.flatten).Pairwise Segment.Apart →
      gather (handle.run s reqs).1.pages (segmentsOf reqs.flatten) =
        s.data.load (start * kernelSectorSize) (n * kernelSectorSize))

variable {dir : Dir} {sector start stop n : ℕ} {segs : List Segment} {bios : List Bio}
variable {reqs : List Request} {s : Store} {x : Placed}

/-! ### Where the segments are -/

@[simp] theorem total_cons (seg : Segment) (segs : List Segment) :
    total (seg :: segs) = seg.bvLen + total segs := by
  simp [total]

theorem segmentsAt_dir (hx : x ∈ segmentsAt dir sector segs) : x.dir = dir := by
  induction segs generalizing sector with
  | nil => cases hx
  | cons seg rest ih =>
    rcases List.mem_cons.mp hx with rfl | hx
    · rfl
    · exact ih hx

/-- A segment is never before its sector, nor past where it would be if it did not lag. -/
theorem segmentsAt_range (hx : x ∈ segmentsAt dir sector segs) :
    sector * kernelSectorSize ≤ x.pos ∧
      x.pos + x.seg.bvLen ≤ sector * kernelSectorSize + total segs := by
  induction segs generalizing sector with
  | nil => cases hx
  | cons seg rest ih =>
    rw [total_cons]
    rcases List.mem_cons.mp hx with rfl | hx
    · exact ⟨le_refl _, Nat.add_le_add_left (Nat.le_add_right _ _) _⟩
    · obtain ⟨hlow, hhigh⟩ := ih hx
      have hdiv := Nat.div_mul_le_self seg.bvLen kernelSectorSize
      rw [Nat.add_mul] at hlow hhigh
      exact ⟨by omega, by omega⟩

theorem bvLen_le_total {seg : Segment} (h : seg ∈ segs) : seg.bvLen ≤ total segs :=
  List.le_sum_of_mem (List.mem_map_of_mem h)

/-- LAG: in a bio of whole sectors with a segment that is none, no segment reaches the end. -/
theorem lags (hsize : kernelSectorSize ∣ total segs)
    (hodd : ∃ seg ∈ segs, ¬ kernelSectorSize ∣ seg.bvLen) (hx : x ∈ segmentsAt dir sector segs) :
    x.pos + x.seg.bvLen < sector * kernelSectorSize + total segs := by
  induction segs generalizing sector with
  | nil => cases hx
  | cons seg rest ih =>
    rw [total_cons] at hsize ⊢
    by_cases hseg : kernelSectorSize ∣ seg.bvLen
    · have hrest := (Nat.dvd_add_right hseg).mp hsize
      have hodd' : ∃ seg ∈ rest, ¬ kernelSectorSize ∣ seg.bvLen := by
        obtain ⟨y, hy, hny⟩ := hodd
        rcases List.mem_cons.mp hy with rfl | hy
        · exact absurd hseg hny
        · exact ⟨y, hy, hny⟩
      rcases List.mem_cons.mp hx with rfl | hx
      · -- the segment that is no number of sectors is still to come
        obtain ⟨y, hy, hny⟩ := hodd'
        have hle := bvLen_le_total hy
        have hpos : y.bvLen ≠ 0 := fun h0 => hny (h0 ▸ dvd_zero _)
        show sector * kernelSectorSize + seg.bvLen < _
        omega
      · have hlt := ih hrest hodd' hx
        rw [next_sector hseg] at hlt
        omega
    · -- from here on the loop lags
      have hlag : seg.bvLen / kernelSectorSize * kernelSectorSize < seg.bvLen :=
        lt_of_le_of_ne (Nat.div_mul_le_self _ _) fun h => hseg (Dvd.intro_left _ h)
      rcases List.mem_cons.mp hx with rfl | hx
      · have hpos : total rest ≠ 0 := fun h0 => hseg (by rwa [h0, Nat.add_zero] at hsize)
        show sector * kernelSectorSize + seg.bvLen < _
        omega
      · have hrange := (segmentsAt_range hx).2
        rw [Nat.add_mul] at hrange
        omega

theorem total_segmentsOf (bio : Bio) (rest : List Bio) :
    total (segmentsOf (bio :: rest)) = bio.size + total (segmentsOf rest) := by
  simp [segmentsOf, Bio.size, total]

/-- Bios that follow each other end where their bytes do. -/
theorem Consecutive.stop_eq (h : Consecutive dir start bios stop) :
    stop * kernelSectorSize = start * kernelSectorSize + total (segmentsOf bios) := by
  induction h with
  | nil hstop => rw [hstop]; exact (Nat.add_zero _).symm
  | @cons start bio rest stop _ hstart hsize _ ih =>
    subst hstart
    rw [ih, next_sector hsize, total_segmentsOf, Nat.add_assoc]

/-- Each of the bios is in their range. -/
theorem Consecutive.bio (h : Consecutive dir start bios stop) {bio : Bio} (hb : bio ∈ bios) :
    bio.dir = dir ∧ start * kernelSectorSize ≤ bio.biSector * kernelSectorSize ∧
      bio.biSector * kernelSectorSize + bio.size ≤ stop * kernelSectorSize := by
  induction h with
  | nil _ => cases hb
  | @cons start first rest stop hdir hstart hsize hrest ih =>
    subst hstart
    have hstop := hrest.stop_eq
    rw [next_sector hsize] at hstop
    rcases List.mem_cons.mp hb with rfl | hb
    · exact ⟨hdir, le_refl _, by omega⟩
    · obtain ⟨hbdir, hlow, hhigh⟩ := ih hb
      rw [next_sector hsize] at hlow
      exact ⟨hbdir, by omega, hhigh⟩

/-- And so is each of their segments. -/
theorem Consecutive.range (h : Consecutive dir start bios stop) (hx : x ∈ bios.flatMap requested) :
    x.dir = dir ∧ start * kernelSectorSize ≤ x.pos ∧
      x.pos + x.seg.bvLen ≤ stop * kernelSectorSize := by
  obtain ⟨bio, hb, hx⟩ := List.mem_flatMap.mp hx
  obtain ⟨hdir, hlow, hhigh⟩ := h.bio hb
  obtain ⟨hxlow, hxhigh⟩ := segmentsAt_range hx
  exact ⟨(segmentsAt_dir hx).trans hdir, hlow.trans hxlow, hxhigh.trans hhigh⟩

/-- A transfer with a segment that is no number of sectors has a byte that no segment covers. -/
theorem Consecutive.uncovered (h : Consecutive dir start bios stop)
    (hodd : ∃ bio ∈ bios, ∃ seg ∈ bio.segments, ¬ kernelSectorSize ∣ seg.bvLen) :
    ∃ p, start * kernelSectorSize ≤ p ∧ p < stop * kernelSectorSize ∧
      ∀ x ∈ bios.flatMap requested, p < x.pos ∨ x.pos + x.seg.bvLen ≤ p := by
  induction h with
  | nil _ => obtain ⟨bio, hb, -⟩ := hodd; cases hb
  | @cons start bio rest stop hdir hstart hsize hrest ih =>
    subst hstart
    have hstop := hrest.stop_eq
    rw [next_sector hsize] at hstop
    by_cases hbio : ∃ seg ∈ bio.segments, ¬ kernelSectorSize ∣ seg.bvLen
    · have hpos : bio.size ≠ 0 := by
        intro h0
        obtain ⟨seg, hseg, hn⟩ := hbio
        have hle := bvLen_le_total hseg
        exact hn (Nat.le_zero.mp (hle.trans_eq h0) ▸ dvd_zero _)
      -- the last byte of the bio
      refine ⟨bio.biSector * kernelSectorSize + bio.size - 1, by omega, by omega, ?_⟩
      intro x hx
      rw [List.flatMap_cons, List.mem_append] at hx
      rcases hx with hx | hx
      · right
        have hlt := lags hsize hbio hx
        change x.pos + x.seg.bvLen < bio.biSector * kernelSectorSize + bio.size at hlt
        omega
      · left
        obtain ⟨-, hlow, -⟩ := hrest.range hx
        rw [next_sector hsize] at hlow
        omega
    · obtain ⟨b, hb, hseg⟩ := hodd
      have hodd' : ∃ bio ∈ rest, ∃ seg ∈ bio.segments, ¬ kernelSectorSize ∣ seg.bvLen := by
        rcases List.mem_cons.mp hb with rfl | hb
        · exact absurd hseg hbio
        · exact ⟨b, hb, hseg⟩
      obtain ⟨p, hlow, hhigh, hp⟩ := ih hodd'
      rw [next_sector hsize] at hlow
      refine ⟨p, by omega, hhigh, fun x hx => ?_⟩
      rw [List.flatMap_cons, List.mem_append] at hx
      rcases hx with hx | hx
      · have hrange := (segmentsAt_range hx).2
        change _ ≤ bio.biSector * kernelSectorSize + bio.size at hrange
        right
        omega
      · exact hp x hx

/-! ### What the copies do -/

@[simp] theorem gather_length (pages : Pages) (segs : List Segment) :
    (gather pages segs).length = total segs := by
  simp [gather, total, List.length_flatMap]

theorem gather_append (pages : Pages) (xs ys : List Segment) :
    gather pages (xs ++ ys) = gather pages xs ++ gather pages ys := List.flatMap_append

/-- Copies to the disk leave the pages alone. -/
theorem acts_write {xs : List Placed} (h : ∀ x ∈ xs, x.dir = .write) (s : Store) :
    xs.foldl Placed.act s = ⟨s.data.replay (xs.map fun x =>
      ⟨x.pos, (s.pages x.seg.bvPage).load x.seg.bvOffset x.seg.bvLen⟩), s.pages⟩ := by
  induction xs generalizing s with
  | nil => rfl
  | cons x xs ih =>
    have hdir := h x (List.mem_cons_self ..)
    have hact : x.act s = ⟨s.data.store x.pos
        ((s.pages x.seg.bvPage).load x.seg.bvOffset x.seg.bvLen), s.pages⟩ := by
      simp only [Placed.act, hdir, copySegment]
    rw [List.foldl_cons, hact, ih fun y hy => h y (List.mem_cons_of_mem _ hy)]
    rfl

theorem act_read (h : x.dir = .read) (s : Store) : x.act s = ⟨s.data, Function.update s.pages
    x.seg.bvPage ((s.pages x.seg.bvPage).store x.seg.bvOffset
      (s.data.load x.pos x.seg.bvLen))⟩ := by
  simp only [Placed.act, h, copySegment]

/-- Copies from the disk leave it alone. -/
theorem acts_read {xs : List Placed} (h : ∀ x ∈ xs, x.dir = .read) (s : Store) :
    (xs.foldl Placed.act s).data = s.data := by
  induction xs generalizing s with
  | nil => rfl
  | cons x xs ih =>
    rw [List.foldl_cons, ih fun y hy => h y (List.mem_cons_of_mem _ hy),
      act_read (h x (List.mem_cons_self ..))]

/-- The bytes that copies from the disk delivered. -/
theorem delivered_read {cs : List Copy} (hmoves : Traced Copy.after Copy.Moves s cs)
    (h : ∀ c ∈ cs, c.dir = .read) :
    cs.flatMap Copy.bytes =
      (cs.map Copy.placed).flatMap fun x => s.data.load x.pos x.seg.bvLen := by
  induction cs generalizing s with
  | nil => rfl
  | cons c cs ih =>
    obtain ⟨dir, pos, page, offset, bytes⟩ := c
    obtain rfl : dir = .read := h _ (List.mem_cons_self ..)
    have hbytes : bytes = s.data.load pos bytes.length := hmoves.1
    rw [List.flatMap_cons, ih hmoves.2 fun c hc => h c (List.mem_cons_of_mem _ hc), List.map_cons,
      List.flatMap_cons]
    exact congrArg (· ++ _) hbytes

/-- A page keeps the bytes of a segment when others are read beside it. -/
theorem acts_read_apart {xs : List Placed} {seg : Segment} (h : ∀ x ∈ xs, x.dir = .read)
    (hapart : ∀ x ∈ xs, seg.Apart x.seg) (s : Store) :
    ((xs.foldl Placed.act s).pages seg.bvPage).load seg.bvOffset seg.bvLen =
      (s.pages seg.bvPage).load seg.bvOffset seg.bvLen := by
  induction xs generalizing s with
  | nil => rfl
  | cons x xs ih =>
    rw [List.foldl_cons, ih (fun y hy => h y (List.mem_cons_of_mem _ hy)) fun y hy =>
      hapart y (List.mem_cons_of_mem _ hy), act_read (h x (List.mem_cons_self ..))]
    have hx := hapart x (List.mem_cons_self ..)
    by_cases hpage : seg.bvPage = x.seg.bvPage
    · simp only [← hpage, Function.update_self]
      have hcells := hx hpage
      exact Mem.load_store_apart _ fun i _ _ => by rw [Mem.load_length]; omega
    · simp only [Function.update_of_ne hpage]

/-- What was read is in the pages. -/
theorem gather_read {xs : List Placed} (h : ∀ x ∈ xs, x.dir = .read)
    (hapart : (xs.map Placed.seg).Pairwise Segment.Apart) (s : Store) :
    gather (xs.foldl Placed.act s).pages (xs.map Placed.seg) =
      xs.flatMap fun x => s.data.load x.pos x.seg.bvLen := by
  induction xs generalizing s with
  | nil => rfl
  | cons x xs ih =>
    have hdir := h x (List.mem_cons_self ..)
    have hrest := fun y hy => h y (List.mem_cons_of_mem x hy)
    rw [List.map_cons, List.pairwise_cons] at hapart
    have hself : ((x.act s).pages x.seg.bvPage).load x.seg.bvOffset x.seg.bvLen =
        s.data.load x.pos x.seg.bvLen := by
      rw [act_read hdir]
      simp only [Function.update_self]
      have hback := Mem.load_store_self (s.pages x.seg.bvPage) x.seg.bvOffset
        (s.data.load x.pos x.seg.bvLen)
      rwa [Mem.load_length] at hback
    have hdata : (x.act s).data = s.data := by rw [act_read hdir]
    have hih := ih hrest hapart.2 (x.act s)
    rw [hdata] at hih
    rw [List.foldl_cons, List.map_cons, List.flatMap_cons, ← hself, ← hih]
    refine congrArg (· ++ _) (acts_read_apart hrest (fun y hy => ?_) _)
    exact hapart.1 y.seg (List.mem_map_of_mem hy)

/-! ### Without lag -/

theorem segmentsAt_seg (dir : Dir) (sector : ℕ) (segs : List Segment) :
    (segmentsAt dir sector segs).map Placed.seg = segs := by
  induction segs generalizing sector with
  | nil => rfl
  | cons seg rest ih => rw [segmentsAt, List.map_cons, ih]

theorem segmentsAt_mem (hx : x ∈ segmentsAt dir sector segs) : x.seg ∈ segs := by
  have hmem := List.mem_map_of_mem (f := Placed.seg) hx
  rwa [segmentsAt_seg] at hmem

theorem requested_seg (bios : List Bio) :
    (bios.flatMap requested).map Placed.seg = segmentsOf bios := by
  rw [List.map_flatMap, segmentsOf]
  exact List.flatMap_congr fun bio _ => segmentsAt_seg ..

/-- Segments of whole sectors are read as one range. -/
theorem load_segmentsAt (data : Mem UInt8) (h : ∀ seg ∈ segs, kernelSectorSize ∣ seg.bvLen) :
    (segmentsAt dir sector segs).flatMap (fun x => data.load x.pos x.seg.bvLen) =
      data.load (sector * kernelSectorSize) (total segs) := by
  induction segs generalizing sector with
  | nil => rfl
  | cons seg rest ih =>
    rw [segmentsAt, List.flatMap_cons, ih fun x hx => h x (List.mem_cons_of_mem _ hx),
      next_sector (h seg (List.mem_cons_self ..)), total_cons, Mem.load_add]

/-- Segments of whole sectors are written as one range. -/
theorem acts_segmentsAt (h : ∀ seg ∈ segs, kernelSectorSize ∣ seg.bvLen) (s : Store) :
    (segmentsAt .write sector segs).foldl Placed.act s =
      ⟨s.data.store (sector * kernelSectorSize) (gather s.pages segs), s.pages⟩ := by
  induction segs generalizing sector s with
  | nil =>
    have hnil : s.data.store (sector * kernelSectorSize) [] = s.data := by
      funext i
      simp [Mem.store]
    rw [show gather s.pages [] = [] from rfl, hnil]
    rfl
  | cons seg rest ih =>
    have hcat : gather s.pages (seg :: rest) =
        (s.pages seg.bvPage).load seg.bvOffset seg.bvLen ++ gather s.pages rest := rfl
    rw [segmentsAt, List.foldl_cons, ih fun x hx => h x (List.mem_cons_of_mem _ hx),
      next_sector (h seg (List.mem_cons_self ..)), hcat, Mem.store_append, Mem.load_length]
    rfl

theorem Consecutive.load (h : Consecutive dir start bios stop)
    (hcut : ∀ bio ∈ bios, ∀ seg ∈ bio.segments, kernelSectorSize ∣ seg.bvLen) (data : Mem UInt8) :
    (bios.flatMap requested).flatMap (fun x => data.load x.pos x.seg.bvLen) =
      data.load (start * kernelSectorSize) (total (segmentsOf bios)) := by
  induction h with
  | nil _ => rfl
  | @cons start bio rest stop _ hstart hsize _ ih =>
    subst hstart
    rw [List.flatMap_cons, List.flatMap_append, ih fun b hb => hcut b (List.mem_cons_of_mem _ hb),
      requested, load_segmentsAt data (hcut bio (List.mem_cons_self ..)), total_segmentsOf,
      Mem.load_add, next_sector hsize]
    rfl

theorem Consecutive.acts (h : Consecutive .write start bios stop)
    (hcut : ∀ bio ∈ bios, ∀ seg ∈ bio.segments, kernelSectorSize ∣ seg.bvLen) (s : Store) :
    (bios.flatMap requested).foldl Placed.act s =
      ⟨s.data.store (start * kernelSectorSize) (gather s.pages (segmentsOf bios)), s.pages⟩ := by
  induction h generalizing s with
  | nil _ => exact acts_segmentsAt (fun _ h => absurd h List.not_mem_nil) s
  | @cons start bio rest stop hdir hstart hsize _ ih =>
    subst hstart
    have hcat : gather s.pages (segmentsOf (bio :: rest)) =
        gather s.pages bio.segments ++ gather s.pages (segmentsOf rest) := by
      rw [segmentsOf, List.flatMap_cons, gather_append, segmentsOf]
    rw [List.flatMap_cons, List.foldl_append, requested, hdir,
      acts_segmentsAt (hcut bio (List.mem_cons_self ..)),
      ih fun b hb => hcut b (List.mem_cons_of_mem _ hb), hcat, Mem.store_append, gather_length,
      next_sector hsize]
    rfl

/-! ### Every cut -/

/-- In the capacity the check of a bio is exact. -/
theorem serves_capacity {bio : Bio} (h : bio.biSector * kernelSectorSize + bio.size ≤ diskSize)
    (s : Store) : Serves s (requested bio) (myramdiskTransferBio bio s) := by
  have hsize : diskSize = 16777216 := rfl
  refine serves_inside _ _ s (by omega) fun seg hseg => ?_
  have hle : seg.bvLen ≤ bio.size := bvLen_le_total hseg
  omega

/-- One request after another is served as their bios, if all of them are. -/
theorem serves_run (hserves : ∀ bio ∈ reqs.flatten, ∀ s, Serves s (requested bio)
      (myramdiskTransferBio bio s))
    (hfits : ∀ x ∈ reqs.flatten.flatMap requested, x.fits = true) (s : Store) :
    Serves s (reqs.flatten.flatMap requested)
        ((handle.run s reqs).1, (handle.run s reqs).2.flatMap Prod.fst, 0) ∧
      ∀ o ∈ (handle.run s reqs).2, o.2 = 0 := by
  induction reqs generalizing s with
  | nil => exact ⟨⟨rfl, rfl, trivial, rfl⟩, fun _ ho => absurd ho List.not_mem_nil⟩
  | cons req rest ih =>
    rw [List.flatten_cons] at hserves hfits ⊢
    rw [List.flatMap_append] at hfits ⊢
    have hreq := serves_bios (fun bio hb => hserves bio (List.mem_append_left _ hb)) s
    have hret := (hreq.all fun x hx => hfits x (List.mem_append_left _ hx)).1
    obtain ⟨hrest, hrets⟩ := ih (fun bio hb => hserves bio (List.mem_append_right _ hb))
      (fun x hx => hfits x (List.mem_append_right _ hx)) (myramdiskTransferRequest req s).1
    rw [Machine.run_cons]
    refine ⟨hreq.done hret hrest, fun o ho => ?_⟩
    rcases List.mem_cons.mp ho with rfl | ho
    · exact hret
    · exact hrets o ho

theorem Cut.stop_le (h : Cut dir start n reqs) : (start + n) * kernelSectorSize ≤ diskSize :=
  Nat.mul_le_mul_right _ h.capacity

theorem Cut.total_eq (h : Cut dir start n reqs) :
    total (segmentsOf reqs.flatten) = n * kernelSectorSize := by
  have hstop := h.consecutive.stop_eq
  rw [Nat.add_mul] at hstop
  omega

/-- A cut transfer copies every segment, each at its sector. -/
theorem Cut.serves (h : Cut dir start n reqs) (s : Store) :
    Serves s (reqs.flatten.flatMap requested)
        ((handle.run s reqs).1, (handle.run s reqs).2.flatMap Prod.fst, 0) ∧
      (∀ o ∈ (handle.run s reqs).2, o.2 = 0) ∧
      ∀ x ∈ reqs.flatten.flatMap requested, x.fits = true := by
  have hfits : ∀ x ∈ reqs.flatten.flatMap requested, x.fits = true := fun x hx =>
    decide_eq_true ((h.consecutive.range hx).2.2.trans h.stop_le)
  have hbios : ∀ bio ∈ reqs.flatten, ∀ s, Serves s (requested bio) (myramdiskTransferBio bio s) :=
    fun bio hb => serves_capacity ((h.consecutive.bio hb).2.2.trans h.stop_le)
  obtain ⟨hserves, hrets⟩ := serves_run hbios hfits s
  exact ⟨hserves, hrets, hfits⟩

theorem Cut.asOne (h : Cut dir start n reqs)
    (hcut : ∀ bio ∈ reqs.flatten, ∀ seg ∈ bio.segments, kernelSectorSize ∣ seg.bvLen) (s : Store) :
    AsOne dir start n reqs s := by
  obtain ⟨hserves, hrets, hfits⟩ := h.serves s
  obtain ⟨-, hexec, hafter⟩ := hserves.all hfits
  have hxdir : ∀ x ∈ reqs.flatten.flatMap requested, x.dir = dir := fun x hx =>
    (h.consecutive.range hx).1
  refine ⟨hrets, ?_, ?_⟩
  · rintro rfl
    exact hafter.trans (h.consecutive.acts hcut s)
  · rintro rfl
    have hload := h.consecutive.load hcut s.data
    rw [h.total_eq] at hload
    have hcdir : ∀ c ∈ (handle.run s reqs).2.flatMap Prod.fst, c.dir = .read := by
      intro c hc
      exact hxdir c.placed (hexec ▸ List.mem_map_of_mem hc)
    refine ⟨?_, ?_, fun hapart => ?_⟩
    · exact (congrArg Store.data hafter).trans (acts_read hxdir s)
    · rw [delivered, delivered_read hserves.moves hcdir]
      exact (congrArg _ hexec).trans hload
    · rw [← hload, ← requested_seg]
      rw [← requested_seg] at hapart
      have hgather := gather_read hxdir hapart s
      rwa [← hafter] at hgather

/-- Pages full of `1`s, and a disk without any. -/
def onesInPages : Store := ⟨zeroed, fun _ _ => 1⟩

/-- A disk with a `1` at one position, and pages without any. -/
def oneOnDisk (p : ℕ) : Store := ⟨fun i => if i = p then 1 else 0, fun _ => zeroed⟩

/-- A byte that no segment covers shows that a write was not one copy. -/
theorem Cut.not_written (h : Cut .write start n reqs) {p : ℕ} (hlow : start * kernelSectorSize ≤ p)
    (hhigh : p < (start + n) * kernelSectorSize)
    (hp : ∀ x ∈ reqs.flatten.flatMap requested, p < x.pos ∨ x.pos + x.seg.bvLen ≤ p) :
    ¬ AsOne .write start n reqs onesInPages := by
  intro hone
  obtain ⟨hserves, -, hfits⟩ := h.serves onesInPages
  have hafter := (hserves.all hfits).2.2.symm.trans (hone.write rfl)
  rw [acts_write fun x hx => (h.consecutive.range hx).1] at hafter
  have hbyte := congrFun (congrArg Store.data hafter) p
  simp only [onesInPages] at hbyte
  rw [Mem.replay_uncovered] at hbyte
  · -- the one copy stores a `1` there
    rw [Nat.add_mul] at hhigh
    obtain ⟨i, rfl⟩ := Nat.exists_eq_add_of_le hlow
    have hi : i < (gather (fun _ _ => 1) (segmentsOf reqs.flatten)).length := by
      rw [gather_length, h.total_eq]
      omega
    have hones : ∀ b ∈ gather (fun _ _ => 1) (segmentsOf reqs.flatten), b = 1 := by
      intro b hb
      obtain ⟨seg, -, hb⟩ := List.mem_flatMap.mp hb
      obtain ⟨j, -, rfl⟩ := List.mem_map.mp hb
      rfl
    rw [Mem.store_inside hi, hones _ (List.getElem_mem hi)] at hbyte
    change (0 : UInt8) = 1 at hbyte
    exact absurd hbyte (by decide)
  · intro w hw
    obtain ⟨x, hx, rfl⟩ := List.mem_map.mp hw
    refine Write.put_eq_none.mpr ?_
    simp only [Mem.load_length]
    exact hp x hx

/-- And that a read was not. -/
theorem Cut.not_read (h : Cut .read start n reqs) {p : ℕ} (hlow : start * kernelSectorSize ≤ p)
    (hhigh : p < (start + n) * kernelSectorSize)
    (hp : ∀ x ∈ reqs.flatten.flatMap requested, p < x.pos ∨ x.pos + x.seg.bvLen ≤ p) :
    ¬ AsOne .read start n reqs (oneOnDisk p) := by
  intro hone
  obtain ⟨hserves, -, hfits⟩ := h.serves (oneOnDisk p)
  have hexec := (hserves.all hfits).2.1
  have hcdir : ∀ c ∈ (handle.run (oneOnDisk p) reqs).2.flatMap Prod.fst, c.dir = .read := by
    intro c hc
    exact (h.consecutive.range (x := c.placed) (hexec ▸ List.mem_map_of_mem hc)).1
  have hload := (hone.read rfl).2.1
  rw [delivered, delivered_read hserves.moves hcdir, hexec] at hload
  -- the one copy delivers the `1` at `p`
  have hmem : 1 ∈ (oneOnDisk p).data.load (start * kernelSectorSize) (n * kernelSectorSize) := by
    rw [Nat.add_mul] at hhigh
    refine List.mem_map.mpr ⟨p - start * kernelSectorSize, List.mem_range.mpr (by omega), ?_⟩
    exact if_pos (by omega)
  rw [← hload] at hmem
  obtain ⟨x, hx, hmem⟩ := List.mem_flatMap.mp hmem
  obtain ⟨i, hi, heq⟩ := List.mem_map.mp hmem
  have hlt := List.mem_range.mp hi
  have hne : x.pos + i ≠ p := by
    have := hp x hx
    omega
  simp only [oneOnDisk, if_neg hne] at heq
  exact absurd heq (by decide)

/-- AS ONE COPY: a transfer of sectors inside the disk, cut into any requests, bios and segments, is
    served as one copy of the whole range, whatever the disk and the pages hold, if and only if
    every segment is a number of sectors long. -/
theorem as_one_iff {dir : Dir} {start n : ℕ} {reqs : List Request} (h : Cut dir start n reqs) :
    (∀ s, AsOne dir start n reqs s) ↔
      ∀ bio ∈ reqs.flatten, ∀ seg ∈ bio.segments, kernelSectorSize ∣ seg.bvLen := by
  constructor
  · intro hone
    by_contra hodd
    have hodd' : ∃ bio ∈ reqs.flatten, ∃ seg ∈ bio.segments, ¬ kernelSectorSize ∣ seg.bvLen := by
      simpa only [not_forall, exists_prop] using hodd
    obtain ⟨p, hlow, hhigh, hp⟩ := h.consecutive.uncovered hodd'
    cases dir with
    | write => exact h.not_written hlow hhigh hp (hone _)
    | read => exact h.not_read hlow hhigh hp (hone _)
  · exact fun hcut s => h.asOne hcut s

/-- Two sectors read by two requests, the second into two pages. -/
def twoRequests : List Request :=
  [[⟨.read, 4, [⟨0, 0, 512⟩]⟩], [⟨.read, 5, [⟨1, 0, 512⟩, ⟨2, 0, 512⟩]⟩]]

theorem cut_twoRequests : Cut .read 4 3 twoRequests :=
  ⟨by decide, .cons rfl rfl (by decide) (.cons rfl (by decide) (by decide) (.nil (by decide)))⟩

theorem as_one_twoRequests : AsOne .read 4 3 twoRequests (oneOnDisk 2048) :=
  (as_one_iff cut_twoRequests).mpr (by decide) _

/-- Every cut of a transfer is served as one copy. -/
def AlwaysAsOne : Prop :=
  ∀ (dir : Dir) (start n : ℕ) (reqs : List Request), Cut dir start n reqs →
    ∀ s, AsOne dir start n reqs s

/-- One sector in two halves. -/
def halves : List Request := [[⟨.write, 0, [⟨0, 0, 256⟩, ⟨0, 256, 256⟩]⟩]]

theorem not_always_as_one : ¬ AlwaysAsOne := by
  intro h
  have hcut : Cut .write 0 1 halves := ⟨by decide, .cons rfl rfl (by decide) (.nil (by decide))⟩
  have hwrite := (h .write 0 1 halves hcut onesInPages).write rfl
  have hbyte := congrFun (congrArg Store.data hwrite) 511
  exact absurd hbyte (by decide +kernel)

end Ldd.RamDisk

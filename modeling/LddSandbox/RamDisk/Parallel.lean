import LddSandbox.RamDisk.Cutting
import LddSandbox.Schemes.Commute
import Mathlib.Algebra.BigOperators.Ring.List
import Mathlib.Data.Fintype.Basic
import Mathlib.Logic.Relation

/-! Requests that the block layer dispatches to several CPUs at once. The driver has no lock, so
    their segment copies interleave in any order; `transfer` is one request taken step by step, and
    taken to its end by itself it is `myramdisk_transfer_request` (`transfer_alone`).

        request r:  bios ▶ segments ▶ copy ▶ copy ▶ bios ▶ .. ▶ done        q:  .. copy ..

    The copies of a request are fixed from the start (`todo`), and two copies that share no byte of
    the disk or of a page commute (`act_comm`). So requests that are independent have one outcome,
    in every order and every interleaving (`independent_requests`). -/

namespace Ldd.RamDisk
open Ldd.Schemes

/-- The points of a request: between its bios, in the segments of a bio, and at its end. -/
inductive Pc
  | bios (rest : Request)
  | segments (dir : Dir) (sector : ℕ) (segs : List Segment) (rest : Request)
  | done (ret : ℤ)
  deriving DecidableEq, Repr

/-- One step of `myramdisk_transfer_request`, and the segment it copies. -/
def transfer (s : Store) : Pc → Option (Store × Pc × Option Placed)
  | .bios [] => some (s, .done 0, none)
  | .bios (bio :: rest) => some (s, .segments bio.dir bio.biSector bio.segments rest, none)
  | .segments _ _ [] rest => some (s, .bios rest, none)
  | .segments dir sector (bvec :: segs) rest =>
    let offset := sector * kernelSectorSize % 2 ^ 64
    if uadd offset bvec.bvLen > nsectors * kernelSectorSize then some (s, .done (- EIO), none)
    else some ((copySegment dir offset bvec s).1,
      .segments dir (uadd sector (bvec.bvLen / kernelSectorSize)) segs rest,
      some ⟨dir, offset, bvec⟩)
  | .done _ => none

/-- The requests as a program; each is a thread of its own. -/
def queue (ι : Type) : Program ι Store Pc Unit (Option Placed) where
  next _ _ s k := transfer s k
  hear _ k := k

/-- All requests dispatched, none begun. -/
def dispatched {ι : Type} (reqs : ι → Request) (s : Store) : Conf ι Store Pc :=
  ⟨s, fun r => .bios (reqs r)⟩

/-- A request takes a step by itself. -/
def Moves (x y : Store × Pc) : Prop := ∃ e, transfer x.1 x.2 = some (y.1, y.2, e)

/-! ### One request by itself -/

theorem segments_alone (dir : Dir) (segs : List Segment) (rest : Request) (sector : ℕ) (s : Store) :
    let r := transferSegments dir sector segs s
    Relation.ReflTransGen Moves (s, .segments dir sector segs rest)
      (r.1, if r.2.2 ≠ 0 then .done r.2.2 else .bios rest) := by
  induction segs generalizing sector s with
  | nil => exact .single ⟨none, rfl⟩
  | cons seg segs ih =>
    simp only [transferSegments]
    split
    · rename_i hpast
      exact .single ⟨none, by simp only [transfer, if_pos hpast, if_pos neg_EIO_ne_zero]⟩
    · rename_i hin
      refine .head ⟨some ⟨dir, sector * kernelSectorSize % 2 ^ 64, seg⟩, ?_⟩ (ih _ _)
      simp only [transfer, if_neg hin]

/-- A request that runs by itself is the transfer of the source. -/
theorem transfer_alone (req : Request) (s : Store) :
    Relation.ReflTransGen Moves (s, .bios req)
      ((myramdiskTransferRequest req s).1, .done (myramdiskTransferRequest req s).2.2) := by
  induction req generalizing s with
  | nil => exact .single ⟨none, rfl⟩
  | cons bio rest ih =>
    refine .head (b := (s, .segments bio.dir bio.biSector bio.segments rest)) ⟨none, rfl⟩ ?_
    have hbio := segments_alone bio.dir bio.segments rest bio.biSector s
    by_cases hr : (myramdiskTransferBio bio s).2.2 = 0
    · rw [transferRequest_done rest hr]
      simp only [myramdiskTransferBio] at hr
      simp only [hr, ne_eq, not_true_eq_false, if_false] at hbio
      exact hbio.trans (ih _)
    · rw [transferRequest_failed rest hr]
      simp only [myramdiskTransferBio] at hr
      simp only [if_pos hr] at hbio
      exact hbio

/-- The number of steps that a request has still to take, at most. -/
def Pc.left : Pc → ℕ
  | .bios rest => 1 + (rest.map fun bio => bio.segments.length + 2).sum
  | .segments _ _ segs rest =>
    segs.length + 2 + (rest.map fun bio => bio.segments.length + 2).sum
  | .done _ => 0

theorem transfer_left {s s' : Store} {k k' : Pc} {e : Option Placed}
    (h : transfer s k = some (s', k', e)) : k'.left < k.left := by
  cases k with
  | bios rest =>
    cases rest with
    | nil => cases h; exact Nat.zero_lt_one
    | cons bio rest =>
      cases h
      simp only [Pc.left, List.map_cons, List.sum_cons]
      omega
  | segments dir sector segs rest =>
    cases segs with
    | nil => cases h; simp only [Pc.left, List.length_nil]; omega
    | cons seg segs =>
      simp only [transfer] at h
      split at h <;> cases h
      · simp only [Pc.left, List.length_cons]; omega
      · simp only [Pc.left, List.length_cons]; omega
  | done ret => cases h

/-- Only a request that is done takes no step. -/
theorem transfer_none {s : Store} {k : Pc} (h : transfer s k = none) : ∃ ret, k = .done ret := by
  cases k with
  | bios rest => cases rest <;> cases h
  | segments dir sector segs rest =>
    cases segs with
    | nil => cases h
    | cons seg segs =>
      simp only [transfer] at h
      split at h <;> cases h
  | done ret => exact ⟨ret, rfl⟩

/-! ### The copies of a request -/

/-- A bio in the capacity, cut at sectors. -/
structure Whole (bio : Bio) : Prop where
  capacity : bio.biSector * kernelSectorSize + bio.size ≤ diskSize
  cut : ∀ seg ∈ bio.segments, kernelSectorSize ∣ seg.bvLen

/-- The segments that a request has still to copy. -/
def Pc.todo : Pc → List Placed
  | .bios rest => rest.flatMap requested
  | .segments dir sector segs rest => segmentsAt dir sector segs ++ rest.flatMap requested
  | .done _ => []

/-- A request whose segments left are all in the capacity and cut at sectors. -/
def Pc.Fine : Pc → Prop
  | .bios rest => ∀ bio ∈ rest, Whole bio
  | .segments _ sector segs rest => sector * kernelSectorSize + total segs ≤ diskSize ∧
    (∀ seg ∈ segs, kernelSectorSize ∣ seg.bvLen) ∧ ∀ bio ∈ rest, Whole bio
  | .done ret => ret = 0

variable {s s' : Store} {k k' : Pc} {e : Option Placed}

/-- A step copies the first of the segments left, or none. -/
theorem transfer_todo (hk : k.Fine) (h : transfer s k = some (s', k', e)) :
    k'.Fine ∧ k.todo = e.toList ++ k'.todo ∧ s' = e.toList.foldl Placed.act s := by
  cases k with
  | bios rest =>
    cases rest with
    | nil => cases h; exact ⟨rfl, rfl, rfl⟩
    | cons bio rest =>
      cases h
      have hbio := hk bio (List.mem_cons_self ..)
      exact ⟨⟨hbio.capacity, hbio.cut, fun b hb => hk b (List.mem_cons_of_mem _ hb)⟩, rfl, rfl⟩
  | segments dir sector segs rest =>
    obtain ⟨hend, hcut, hrest⟩ := hk
    cases segs with
    | nil => cases h; exact ⟨hrest, rfl, rfl⟩
    | cons seg segs =>
      rw [total_cons] at hend
      have hle : sector * kernelSectorSize + seg.bvLen ≤ diskSize := by omega
      obtain ⟨hoff, hsum, hnext⟩ := no_wrap_inside hle
      have hin : ¬ sector * kernelSectorSize + seg.bvLen > nsectors * kernelSectorSize :=
        not_lt.mpr hle
      simp only [transfer, hoff, hsum, if_neg hin, hnext, Option.some.injEq, Prod.mk.injEq] at h
      obtain ⟨rfl, rfl, rfl⟩ := h
      refine ⟨⟨?_, fun x hx => hcut x (List.mem_cons_of_mem _ hx), hrest⟩, rfl, rfl⟩
      rw [next_sector (hcut seg (List.mem_cons_self ..))]
      omega
  | done ret => cases h

variable {ι : Type} [DecidableEq ι] {reqs : ι → Request} {tr : List (ι × Option Placed)}
variable {c : Conf ι Store Pc}

/-- The copies of a run, each with its request. -/
def copied {ι : Type} (tr : List (ι × Option Placed)) : List (ι × Placed) :=
  tr.flatMap fun x => x.2.toList.map (x.1, ·)

omit [DecidableEq ι] in
theorem copied_append (tr : List (ι × Option Placed)) (p : ι) (e : Option Placed) :
    copied (tr ++ [(p, e)]) = copied tr ++ e.toList.map (p, ·) := by
  simp [copied]

/-- In every run, each request has copied a first part of its segments, and the disk and the pages
    are those after all the copies so far. -/
theorem copied_run (hwhole : ∀ r, ∀ bio ∈ reqs r, Whole bio)
    (hrun : (queue ι).Run anyStep (dispatched reqs s) tr c) :
    (∀ r, (c.pc r).Fine ∧ own r (copied tr) ++ (c.pc r).todo = (reqs r).flatMap requested) ∧
      c.shared = (copied tr).foldl (effect Placed.act) s := by
  refine hrun.history (I := fun tr c => (∀ r, (c.pc r).Fine ∧
    own r (copied tr) ++ (c.pc r).todo = (reqs r).flatMap requested) ∧
      c.shared = (copied tr).foldl (effect Placed.act) s) ⟨fun r => ⟨hwhole r, rfl⟩, rfl⟩ ?_
  intro tr p g c e c' hI _ hf
  obtain ⟨hpcs, hshared⟩ := hI
  obtain ⟨hn, hothers⟩ := Program.fire_spec hf
  obtain ⟨hfine, htodo, hstore⟩ := transfer_todo (hpcs p).1 hn
  refine ⟨fun r => ?_, ?_⟩
  · rw [copied_append, own_append, own_tagged]
    by_cases hr : p = r
    · subst hr
      rw [if_pos rfl, List.append_assoc, ← htodo]
      exact ⟨hfine, (hpcs p).2⟩
    · have hpc : c'.pc r = c.pc r := hothers r (Ne.symm hr)
      rw [if_neg hr, List.append_nil, hpc]
      exact hpcs r
  · rw [copied_append, List.foldl_append, ← hshared, foldl_effect, List.map_map]
    exact hstore.trans (congrArg (List.foldl _ _) (List.map_id _).symm)

/-! ### Requests that are independent -/

/-- The sectors that a request covers. -/
def Covers (req : Request) (sector : ℕ) : Prop :=
  ∃ bio ∈ req, bio.biSector ≤ sector ∧ sector < bio.biSector + bio.size / kernelSectorSize

/-- The bytes of the pages that a request transfers from or to. -/
def Uses (req : Request) (page i : ℕ) : Prop :=
  ∃ bio ∈ req, ∃ seg ∈ bio.segments, seg.bvPage = page ∧ seg.bvOffset ≤ i ∧
    i < seg.bvOffset + seg.bvLen

def ReadOnly (req : Request) : Prop := ∀ bio ∈ req, bio.dir = .read

/-- Two requests with page memory of their own, which both only read or cover different sectors. -/
structure Independent (req req' : Request) : Prop where
  disk : (ReadOnly req ∧ ReadOnly req') ∨ ∀ sector, Covers req sector → ¬ Covers req' sector
  memory : ∀ page i, Uses req page i → ¬ Uses req' page i

theorem Independent.symm {req req' : Request} (h : Independent req req') : Independent req' req :=
  ⟨h.disk.imp And.symm fun hsectors sector h' h => hsectors sector h h',
    fun page i h' h'' => h.memory page i h'' h'⟩

/-- Two copies that share no byte of a page, and none of the disk unless both only read it. -/
structure Placed.Apart (x y : Placed) : Prop where
  disk : (x.dir = .read ∧ y.dir = .read) ∨
    ∀ i, x.pos ≤ i → i < x.pos + x.seg.bvLen → i < y.pos ∨ y.pos + y.seg.bvLen ≤ i
  memory : x.seg.bvPage = y.seg.bvPage → ∀ i, x.seg.bvOffset ≤ i →
    i < x.seg.bvOffset + x.seg.bvLen → i < y.seg.bvOffset ∨ y.seg.bvOffset + y.seg.bvLen ≤ i

theorem Placed.Apart.symm {x y : Placed} (h : x.Apart y) : y.Apart x := by
  refine ⟨?_, fun hpage i hlow hhigh => ?_⟩
  · rcases h.disk with hread | hdisk
    · exact .inl hread.symm
    · right
      intro i hlow hhigh
      have := hdisk i
      omega
  · have := h.memory hpage.symm i
    omega

theorem act_write {x : Placed} (h : x.dir = .write) (s : Store) : x.act s =
    ⟨s.data.store x.pos ((s.pages x.seg.bvPage).load x.seg.bvOffset x.seg.bvLen), s.pages⟩ := by
  simp only [Placed.act, h, copySegment]

/-- A copy to the disk and one from it. -/
theorem act_comm_write_read {x y : Placed} (h : x.Apart y) (hx : x.dir = .write)
    (hy : y.dir = .read) (s : Store) : y.act (x.act s) = x.act (y.act s) := by
  have hdisk := h.disk.resolve_left fun hread => by
    rw [hx] at hread
    exact absurd hread.1 (by decide)
  simp only [act_write hx, act_read hy]
  -- what the one reads, the other does not write
  have hload : (s.data.store x.pos ((s.pages x.seg.bvPage).load x.seg.bvOffset x.seg.bvLen)).load
      y.pos y.seg.bvLen = s.data.load y.pos y.seg.bvLen := by
    refine Mem.load_store_apart _ fun i hlow hhigh => ?_
    have := hdisk i
    rw [Mem.load_length]
    omega
  have hpage : (Function.update s.pages y.seg.bvPage ((s.pages y.seg.bvPage).store y.seg.bvOffset
      (s.data.load y.pos y.seg.bvLen)) x.seg.bvPage).load x.seg.bvOffset x.seg.bvLen =
      (s.pages x.seg.bvPage).load x.seg.bvOffset x.seg.bvLen := by
    by_cases hp : x.seg.bvPage = y.seg.bvPage
    · rw [← hp, Function.update_self]
      refine Mem.load_store_apart _ fun i hlow hhigh => ?_
      rw [Mem.load_length]
      exact h.memory hp i hlow hhigh
    · rw [Function.update_of_ne hp]
  rw [hload, hpage]

/-- Copies that are apart may be done in either order. -/
theorem act_comm {x y : Placed} (h : x.Apart y) (s : Store) :
    y.act (x.act s) = x.act (y.act s) := by
  cases hx : x.dir with
  | write =>
    cases hy : y.dir with
    | write =>
      have hdisk := h.disk.resolve_left fun hread => by
        rw [hx] at hread
        exact absurd hread.1 (by decide)
      simp only [act_write hx, act_write hy]
      congr 1
      refine Mem.store_comm _ fun i hlow hhigh => ?_
      rw [Mem.load_length] at hhigh ⊢
      exact hdisk i hlow hhigh
    | read => exact act_comm_write_read h hx hy s
  | read =>
    cases hy : y.dir with
    | write => exact (act_comm_write_read h.symm hy hx s).symm
    | read =>
      simp only [act_read hx, act_read hy]
      congr 1
      by_cases hp : x.seg.bvPage = y.seg.bvPage
      · rw [← hp, Function.update_self, Function.update_self, Function.update_idem,
          Function.update_idem, Mem.store_comm]
        intro i hlow hhigh
        rw [Mem.load_length] at hhigh ⊢
        exact h.memory hp i hlow hhigh
      · rw [Function.update_of_ne (Ne.symm hp), Function.update_of_ne hp, Function.update_comm hp]

omit [DecidableEq ι] in
theorem dvd_total {segs : List Segment} (h : ∀ seg ∈ segs, kernelSectorSize ∣ seg.bvLen) :
    kernelSectorSize ∣ total segs := by
  refine List.dvd_sum fun n hn => ?_
  obtain ⟨seg, hseg, rfl⟩ := List.mem_map.mp hn
  exact h seg hseg

/-- A byte of a bio is in a sector that its request covers. -/
theorem covers_byte {req : Request} {bio : Bio} {i : ℕ} (hb : bio ∈ req) (h : Whole bio)
    (hlow : bio.biSector * kernelSectorSize ≤ i)
    (hhigh : i < bio.biSector * kernelSectorSize + bio.size) :
    Covers req (i / kernelSectorSize) := by
  have hpos : 0 < kernelSectorSize := by decide
  refine ⟨bio, hb, (Nat.le_div_iff_mul_le hpos).mpr hlow, (Nat.div_lt_iff_lt_mul hpos).mpr ?_⟩
  have hsize : kernelSectorSize ∣ bio.size := dvd_total h.cut
  rw [next_sector hsize]
  exact hhigh

/-- The copies of independent requests are apart. -/
theorem Independent.apart {req req' : Request} (h : Independent req req')
    (hreq : ∀ bio ∈ req, Whole bio) (hreq' : ∀ bio ∈ req', Whole bio) {x y : Placed}
    (hx : x ∈ req.flatMap requested) (hy : y ∈ req'.flatMap requested) : x.Apart y := by
  obtain ⟨bio, hb, hx⟩ := List.mem_flatMap.mp hx
  obtain ⟨bio', hb', hy⟩ := List.mem_flatMap.mp hy
  have hxseg := segmentsAt_mem hx
  have hyseg := segmentsAt_mem hy
  obtain ⟨hxlow, hxhigh⟩ := segmentsAt_range hx
  obtain ⟨hylow, hyhigh⟩ := segmentsAt_range hy
  refine ⟨?_, fun hpage i hlow hhigh => ?_⟩
  · rcases h.disk with ⟨hread, hread'⟩ | hsectors
    · exact .inl ⟨(segmentsAt_dir hx).trans (hread bio hb),
        (segmentsAt_dir hy).trans (hread' bio' hb')⟩
    · right
      intro i hlow hhigh
      by_contra hboth
      have hcovers := covers_byte (i := i) hb (hreq bio hb) (hxlow.trans hlow)
        (hhigh.trans_le hxhigh)
      refine hsectors _ hcovers (covers_byte hb' (hreq' bio' hb') (by omega) ?_)
      exact lt_of_lt_of_le (by omega) hyhigh
  · by_contra hboth
    exact h.memory _ i ⟨bio, hb, x.seg, hxseg, rfl, hlow, hhigh⟩
      ⟨bio', hb', y.seg, hyseg, hpage.symm, by omega, by omega⟩

/-! ### Every order and every interleaving -/

/-- An order of the requests: each of them once. -/
structure Order (order : List ι) : Prop where
  once : order.Nodup
  all : ∀ r, r ∈ order

/-- The copies of the requests one after another, each with its request. -/
def oneByOne (reqs : ι → Request) (order : List ι) : List (ι × Placed) :=
  order.flatMap fun r => ((reqs r).flatMap requested).map (r, ·)

omit [DecidableEq ι] in
theorem oneByOne_copies (reqs : ι → Request) (order : List ι) :
    (oneByOne reqs order).map Prod.snd = (order.map reqs).flatten.flatMap requested := by
  induction order with
  | nil => rfl
  | cons r order ih =>
    have hself : ((((reqs r).flatMap requested).map (r, ·)).map Prod.snd) =
        (reqs r).flatMap requested := by
      rw [List.map_map]
      exact List.map_id _
    rw [oneByOne, List.flatMap_cons, List.map_append, List.map_cons, List.flatten_cons,
      List.flatMap_append, hself]
    exact congrArg (_ ++ ·) ih

theorem own_oneByOne {order : List ι} (h : Order order) (reqs : ι → Request) (r : ι) :
    own r (oneByOne reqs order) = (reqs r).flatMap requested := own_flatMap h.once (h.all r) _

omit [DecidableEq ι] in
/-- Requests taken one after another all succeed, and do all their copies. -/
theorem run_oneByOne (hwhole : ∀ r, ∀ bio ∈ reqs r, Whole bio) (s : Store) (order : List ι) :
    (handle.run s (order.map reqs)).1 = (oneByOne reqs order).foldl (effect Placed.act) s ∧
      ∀ o ∈ (handle.run s (order.map reqs)).2, o.2 = 0 := by
  have hbios : ∀ bio ∈ (order.map reqs).flatten, Whole bio := by
    intro bio hb
    obtain ⟨req, hreq, hb⟩ := List.mem_flatten.mp hb
    obtain ⟨r, -, rfl⟩ := List.mem_map.mp hreq
    exact hwhole r bio hb
  have hfits : ∀ x ∈ (order.map reqs).flatten.flatMap requested, x.fits = true := by
    intro x hx
    obtain ⟨bio, hb, hx⟩ := List.mem_flatMap.mp hx
    exact decide_eq_true ((segmentsAt_range hx).2.trans (hbios bio hb).capacity)
  obtain ⟨hrun, hrets⟩ := serves_run (fun bio hb => serves_capacity (hbios bio hb).capacity) hfits s
  refine ⟨?_, hrets⟩
  rw [foldl_effect, oneByOne_copies]
  exact (hrun.all hfits).2.2

omit [DecidableEq ι] in
theorem commuting_oneByOne (hwhole : ∀ r, ∀ bio ∈ reqs r, Whole bio)
    (hind : ∀ p r, p ≠ r → Independent (reqs p) (reqs r)) (order : List ι) :
    Commuting Placed.act (oneByOne reqs order) := by
  intro x hx y hy hne s
  obtain ⟨p, -, hxp⟩ := List.mem_flatMap.mp hx
  obtain ⟨x, hxreq, rfl⟩ := List.mem_map.mp hxp
  obtain ⟨r, -, hyr⟩ := List.mem_flatMap.mp hy
  obtain ⟨y, hyreq, rfl⟩ := List.mem_map.mp hyr
  exact act_comm ((hind p r hne).apart (hwhole p) (hwhole r) hxreq hyreq) s

/-- Every interleaving ends, with all requests done. -/
theorem interleaving_ends [Fintype ι] (hrun : (queue ι).Run anyStep (dispatched reqs s) tr c) :
    tr.length ≤ ∑ r, (Pc.bios (reqs r)).left ∧
      ((∀ r, ∃ ret, c.pc r = .done ret) ∨ ∃ p e c', (queue ι).fire p () c = some (e, c')) := by
  have hbound := hrun.bounded (fun _ _ _ _ _ _ _ h => transfer_left h) fun _ _ => rfl
  refine ⟨(Nat.le_add_right _ _).trans hbound, ?_⟩
  by_cases hdone : ∀ r, ∃ ret, c.pc r = .done ret
  · exact .inl hdone
  · right
    obtain ⟨p, hp⟩ := not_forall.mp hdone
    cases hfire : (queue ι).fire p () c with
    | none => exact absurd (transfer_none (Option.map_eq_none_iff.mp hfire)) hp
    | some x => exact ⟨p, x.1, x.2, hfire⟩

/-- INDEPENDENT REQUESTS: requests in the capacity and cut at sectors, any two of them with page
    memory of their own and either both reads or on different sectors, have one outcome on the disk
    and in the pages, and all succeed, in every order one after another and in every interleaving
    of their segment copies; and every interleaving ends. -/
theorem independent_requests {ι : Type} [DecidableEq ι] [Fintype ι] (reqs : ι → Request)
    (hwhole : ∀ r, ∀ bio ∈ reqs r, Whole bio)
    (hind : ∀ p r, p ≠ r → Independent (reqs p) (reqs r)) (s : Store) :
    ∃ s', (∀ order, Order order → (handle.run s (order.map reqs)).1 = s' ∧
        ∀ o ∈ (handle.run s (order.map reqs)).2, o.2 = 0) ∧
      (∀ tr c, (queue ι).Run anyStep (dispatched reqs s) tr c → (∀ r, ∃ ret, c.pc r = .done ret) →
        c.shared = s' ∧ ∀ r, c.pc r = .done 0) ∧
      ∃ n, ∀ tr c, (queue ι).Run anyStep (dispatched reqs s) tr c → tr.length ≤ n ∧
        ((∀ r, ∃ ret, c.pc r = .done ret) ∨ ∃ p e c', (queue ι).fire p () c = some (e, c')) := by
  have huniv : Order (Finset.univ : Finset ι).toList :=
    ⟨Finset.nodup_toList _, fun r => Finset.mem_toList.mpr (Finset.mem_univ r)⟩
  have hcomm := commuting_oneByOne hwhole hind (Finset.univ : Finset ι).toList
  refine ⟨(oneByOne reqs Finset.univ.toList).foldl (effect Placed.act) s, fun order horder => ?_,
    fun tr c hrun hdone => ?_, _, fun _ _ hrun => interleaving_ends hrun⟩
  · obtain ⟨hstore, hrets⟩ := run_oneByOne hwhole s order
    refine ⟨hstore.trans (foldl_interleaved hcomm (fun r => ?_) s).symm, hrets⟩
    rw [own_oneByOne huniv, own_oneByOne horder]
  · obtain ⟨hpcs, hshared⟩ := copied_run hwhole hrun
    refine ⟨hshared.trans (foldl_interleaved hcomm (fun r => ?_) s).symm, fun r => ?_⟩
    · obtain ⟨ret, hret⟩ := hdone r
      have htodo := (hpcs r).2
      rw [hret] at htodo
      rw [own_oneByOne huniv, ← htodo]
      exact List.append_nil _
    · obtain ⟨ret, hret⟩ := hdone r
      have hfine := (hpcs r).1
      rw [hret] at hfine ⊢
      exact congrArg Pc.done hfine

/-- A write of one sector in two pieces of memory, and a read of the next. -/
def writeAndRead : Bool → Request
  | false => [⟨.write, 0, [⟨0, 0, 512⟩]⟩]
  | true => [⟨.read, 1, [⟨1, 0, 512⟩]⟩, ⟨.read, 2, [⟨1, 512, 512⟩]⟩]

theorem writeAndRead_whole (r : Bool) (bio : Bio) (hb : bio ∈ writeAndRead r) : Whole bio := by
  cases r with
  | false =>
    obtain rfl := List.mem_singleton.mp hb
    exact ⟨by decide, by decide⟩
  | true =>
    rcases List.mem_pair.mp hb with rfl | rfl <;> exact ⟨by decide, by decide⟩

theorem write_independent_read : Independent (writeAndRead false) (writeAndRead true) := by
  refine ⟨.inr ?_, ?_⟩
  · rintro sector ⟨bio, hb, -, hhigh⟩ ⟨bio', hb', hlow, -⟩
    obtain rfl := List.mem_singleton.mp hb
    have hlt : sector < 1 := hhigh
    have hge : 1 ≤ sector := by
      rcases List.mem_pair.mp hb' with rfl | rfl
      · exact hlow
      · exact (by decide : 1 ≤ 2).trans hlow
    omega
  · rintro page i ⟨bio, hb, seg, hseg, hpage, -⟩ ⟨bio', hb', seg', hseg', hpage', -⟩
    obtain rfl := List.mem_singleton.mp hb
    obtain rfl := List.mem_singleton.mp hseg
    rcases List.mem_pair.mp hb' with rfl | rfl <;> obtain rfl := List.mem_singleton.mp hseg' <;>
      exact absurd (hpage.trans hpage'.symm) (by decide)

theorem writeAndRead_independent (p r : Bool) (h : p ≠ r) :
    Independent (writeAndRead p) (writeAndRead r) := by
  cases p <;> cases r
  · exact absurd rfl h
  · exact write_independent_read
  · exact write_independent_read.symm
  · exact absurd rfl h

/-- The write takes its copy between the two of the read. -/
def between : List (Bool × Unit) := moves true 2 ++ moves false 4 ++ moves true 5

theorem between_runs : ((queue Bool).exec anyway between
    (dispatched writeAndRead onesInPages)).isSome = true := by
  decide +kernel

theorem independent_requests_between :
    (((queue Bool).exec anyway between (dispatched writeAndRead onesInPages)).get
        between_runs).2.shared = (handle.run onesInPages ([false, true].map writeAndRead)).1 ∧
      (handle.run onesInPages ([true, false].map writeAndRead)).1 =
        (handle.run onesInPages ([false, true].map writeAndRead)).1 := by
  obtain ⟨s', horders, hruns, -⟩ := independent_requests writeAndRead writeAndRead_whole
    writeAndRead_independent onesInPages
  have hfirst := (horders [false, true] ⟨by decide, by decide⟩).1
  refine ⟨(hruns _ _ (Program.Run.of_exec anyway_any between_runs) ?_).1.trans hfirst.symm,
    (horders [true, false] ⟨by decide, by decide⟩).1.trans hfirst.symm⟩
  intro r
  exact ⟨0, by cases r <;> decide +kernel⟩

end Ldd.RamDisk

import LddSandbox.RamDisk.Transfer
import LddSandbox.Schemes.Traced
import Mathlib.Data.List.TakeWhile

/-! The RAM disk is a faithful store. A request is placed on the disk: each segment of each bio has
    the position where the segments before it in its bio end. `serves_request` says that the code
    copies exactly the segments placed before the first one that ends past the disk, each between
    its page and its place; `disk_faithful` carries that through any sequence of requests, where
    each read copies what the latest writes before it left.

        place:     x₁  x₂ .. xₙ │ xₙ₊₁ ..            (xₙ₊₁ ends past the disk)
        copies:    c₁  c₂ .. cₙ                       BLK_STS_IOERR -/

namespace Ldd.RamDisk
open Ldd.Schemes

/-- A segment and its place on the disk. -/
structure Placed where
  dir : Dir
  pos : ℕ
  seg : Segment
  deriving DecidableEq, Repr

/-- The segments of a bio from a position on. -/
def placeSegments (dir : Dir) : ℕ → List Segment → List Placed
  | _, [] => []
  | pos, seg :: rest => ⟨dir, pos, seg⟩ :: placeSegments dir (pos + seg.bvLen) rest

/-- The segments of a request, in bio then segment order, with their places. -/
def place (req : Request) : List Placed :=
  req.flatMap fun bio => placeSegments bio.dir (bio.biSector * kernelSectorSize) bio.segments

/-- The size of the disk in bytes. -/
def diskSize : ℕ := nsectors * kernelSectorSize

def Placed.fits (x : Placed) : Bool := decide (x.pos + x.seg.bvLen ≤ diskSize)

/-- The segments before the first one that ends past the disk. -/
def executed (req : Request) : List Placed := (place req).takeWhile Placed.fits

/-- What the block layer grants of a bio: it ends within 64 bits and is cut at sectors. -/
structure Admitted (bio : Bio) : Prop where
  fits : bio.biSector * kernelSectorSize + (bio.segments.map Segment.bvLen).sum < 2 ^ 64
  cut : ∀ seg ∈ bio.segments, kernelSectorSize ∣ seg.bvLen

namespace Copy

/-- The segment that a copy transferred, and where. -/
def placed (c : Copy) : Placed := ⟨c.dir, c.pos, ⟨c.page, c.offset, c.bytes.length⟩⟩

/-- What a copy stores on the disk. -/
def stored (c : Copy) : Option (Write UInt8) :=
  match c.dir with
  | .write => some ⟨c.pos, c.bytes⟩
  | .read => none

/-- The disk after a copy. -/
def onDisk (data : Mem UInt8) (c : Copy) : Mem UInt8 := data.replay c.stored.toList

/-- The pages after a copy. -/
def onPages (pages : Pages) (c : Copy) : Pages :=
  match c.dir with
  | .write => pages
  | .read => Function.update pages c.page ((pages c.page).store c.offset c.bytes)

def after (s : Store) (c : Copy) : Store := ⟨c.onDisk s.data, c.onPages s.pages⟩

/-- The bytes of a copy are those at its source. -/
def Moves (s : Store) (c : Copy) : Prop :=
  match c.dir with
  | .write => c.bytes = (s.pages c.page).load c.offset c.bytes.length
  | .read => c.bytes = s.data.load c.pos c.bytes.length

end Copy

/-- The stores that a list of copies made on the disk. -/
def stores (cs : List Copy) : List (Write UInt8) := cs.filterMap Copy.stored

theorem foldl_onDisk (data : Mem UInt8) (cs : List Copy) :
    cs.foldl Copy.onDisk data = data.replay (stores cs) := by
  induction cs generalizing data with
  | nil => rfl
  | cons c cs ih =>
    rw [List.foldl_cons, ih, Copy.onDisk, ← Mem.replay_append]
    cases hc : c.stored <;> simp [stores, hc]

/-! ### One segment -/

theorem copySegment_after (dir : Dir) (offset : ℕ) (seg : Segment) (s : Store) :
    (copySegment dir offset seg s).1 = (copySegment dir offset seg s).2.after s := by
  cases dir <;> rfl

theorem copySegment_moves (dir : Dir) (offset : ℕ) (seg : Segment) (s : Store) :
    (copySegment dir offset seg s).2.Moves s := by
  cases dir <;> simp [copySegment, Copy.Moves]

theorem copySegment_placed (dir : Dir) (offset : ℕ) (seg : Segment) (s : Store) :
    (copySegment dir offset seg s).2.placed = ⟨dir, offset, seg⟩ := by
  cases dir <;> simp [copySegment, Copy.placed]

/-! ### One request -/

/-- The result of transferring some placed segments from a state: exactly those before the first
    that ends past the disk are copied, and the rest is refused. -/
structure Serves (s : Store) (xs : List Placed) (r : Store × List Copy × ℤ) : Prop where
  executed : r.2.1.map Copy.placed = xs.takeWhile Placed.fits
  ret : r.2.2 = if xs.all Placed.fits then 0 else - EIO
  moves : Traced Copy.after Copy.Moves s r.2.1
  after : r.1 = r.2.1.foldl Copy.after s

/-- Inside the disk nothing wraps: not the position of a segment, nor its end, nor the next
    sector. -/
theorem no_wrap_inside {sector len : ℕ} (h : sector * kernelSectorSize + len ≤ diskSize) :
    sector * kernelSectorSize % 2 ^ 64 = sector * kernelSectorSize ∧
      uadd (sector * kernelSectorSize) len = sector * kernelSectorSize + len ∧
      uadd sector (len / kernelSectorSize) = sector + len / kernelSectorSize := by
  have hsize : diskSize = 16777216 := rfl
  have h512 : kernelSectorSize = 512 := rfl
  exact ⟨Nat.mod_eq_of_lt (by omega), uadd_eq (by omega), uadd_eq (by rw [h512] at h ⊢; omega)⟩

/-- A segment whose check is exact, and the transfer of those after it. -/
theorem Serves.cons {dir : Dir} {sector : ℕ} {seg : Segment} {rest : List Segment}
    {xs : List Placed} {s : Store}
    (hcheck : uadd (sector * kernelSectorSize % 2 ^ 64) seg.bvLen > nsectors * kernelSectorSize ↔
      diskSize < sector * kernelSectorSize + seg.bvLen)
    (hrest : sector * kernelSectorSize + seg.bvLen ≤ diskSize → ∀ s,
      Serves s xs (transferSegments dir (sector + seg.bvLen / kernelSectorSize) rest s)) :
    Serves s (⟨dir, sector * kernelSectorSize, seg⟩ :: xs)
      (transferSegments dir sector (seg :: rest) s) := by
  simp only [transferSegments]
  split
  · rename_i hpast
    have hout : Placed.fits ⟨dir, sector * kernelSectorSize, seg⟩ = false :=
      decide_eq_false (not_le.mpr (hcheck.mp hpast))
    exact ⟨by simp [hout], by simp [hout], trivial, rfl⟩
  · rename_i hin
    have hle : sector * kernelSectorSize + seg.bvLen ≤ diskSize := not_lt.mp (mt hcheck.mpr hin)
    have hfit : Placed.fits ⟨dir, sector * kernelSectorSize, seg⟩ = true := decide_eq_true hle
    obtain ⟨hoff, -, hnext⟩ := no_wrap_inside hle
    rw [hoff, hnext]
    have hserves := hrest hle (copySegment dir (sector * kernelSectorSize) seg s).1
    refine ⟨?_, ?_, ⟨copySegment_moves .., ?_⟩, ?_⟩
    · rw [List.map_cons, copySegment_placed, List.takeWhile_cons_of_pos hfit, hserves.executed]
    · rw [List.all_cons, hfit, Bool.true_and]; exact hserves.ret
    · rw [← copySegment_after]; exact hserves.moves
    · rw [List.foldl_cons, ← copySegment_after]; exact hserves.after

/-- Behind a number of whole sectors the next sector is where they end. -/
theorem next_sector {sector len : ℕ} (h : kernelSectorSize ∣ len) :
    (sector + len / kernelSectorSize) * kernelSectorSize = sector * kernelSectorSize + len := by
  rw [Nat.add_mul, Nat.div_mul_cancel h]

/-- One bio: the sector of the loop is the position in sectors, so the check is exact. -/
theorem serves_segments (dir : Dir) {segs : List Segment} {sector : ℕ} {s : Store}
    (hfits : sector * kernelSectorSize + (segs.map Segment.bvLen).sum < 2 ^ 64)
    (hcut : ∀ seg ∈ segs, kernelSectorSize ∣ seg.bvLen) :
    Serves s (placeSegments dir (sector * kernelSectorSize) segs)
      (transferSegments dir sector segs s) := by
  induction segs generalizing sector s with
  | nil => exact ⟨rfl, rfl, trivial, rfl⟩
  | cons seg rest ih =>
    rw [List.map_cons, List.sum_cons] at hfits
    refine Serves.cons ?_ fun _ s => ?_
    · rw [Nat.mod_eq_of_lt (by omega), uadd_eq (by omega)]
      exact Iff.rfl
    · have hpos : (sector + seg.bvLen / kernelSectorSize) * kernelSectorSize = _ :=
        next_sector (hcut seg (List.mem_cons_self ..))
      rw [← hpos]
      exact ih (by rw [hpos]; omega) fun x hx => hcut x (List.mem_cons_of_mem _ hx)

theorem serves_bio {bio : Bio} (h : Admitted bio) (s : Store) :
    Serves s (placeSegments bio.dir (bio.biSector * kernelSectorSize) bio.segments)
      (myramdiskTransferBio bio s) := serves_segments bio.dir h.fits h.cut

theorem neg_EIO_ne_zero : - EIO ≠ 0 := by decide

/-- A transfer that failed ends there. -/
theorem Serves.failed {s : Store} {xs : List Placed} {r : Store × List Copy × ℤ}
    (h : Serves s xs r) (hr : r.2.2 ≠ 0) (ys : List Placed) : Serves s (xs ++ ys) r := by
  have hall : xs.all Placed.fits = false := by
    by_contra hne
    exact hr (by rw [h.ret, if_pos (Bool.not_eq_false _ ▸ hne)])
  have hshort : (xs.takeWhile Placed.fits).length ≠ xs.length := by
    intro hlen
    have heq := List.takeWhile_eq_self_iff.mp ((List.takeWhile_prefix _).eq_of_length hlen)
    exact absurd (List.all_eq_true.mpr heq) (by rw [hall]; decide)
  refine ⟨?_, ?_, h.moves, h.after⟩
  · rw [h.executed, List.takeWhile_append, if_neg hshort]
  · rw [h.ret, List.all_append, hall, Bool.false_and]

/-- A transfer that was done is followed by the next. -/
theorem Serves.done {s : Store} {xs ys : List Placed} {r r' : Store × List Copy × ℤ}
    (h : Serves s xs r) (hr : r.2.2 = 0) (h' : Serves r.1 ys r') :
    Serves s (xs ++ ys) (r'.1, r.2.1 ++ r'.2.1, r'.2.2) := by
  have hall : xs.all Placed.fits = true := by
    by_contra hne
    rw [h.ret, if_neg hne] at hr
    exact neg_EIO_ne_zero hr
  have hafter := h.after
  refine ⟨?_, ?_, h.moves.append (hafter ▸ h'.moves), ?_⟩
  · rw [List.map_append, h.executed, h'.executed, List.takeWhile_append_of_pos (List.all_eq_true.mp hall),
      List.takeWhile_eq_self_iff.mpr (List.all_eq_true.mp hall)]
  · rw [List.all_append, hall, Bool.true_and]
    exact h'.ret
  · rw [List.foldl_append, ← hafter]
    exact h'.after

/-- The copy of a placed segment. -/
def Placed.act (s : Store) (x : Placed) : Store := (copySegment x.dir x.pos x.seg s).1

theorem Copy.after_act {s : Store} {c : Copy} (h : c.Moves s) : c.after s = c.placed.act s := by
  obtain ⟨dir, pos, page, offset, bytes⟩ := c
  cases dir with
  | write =>
    have hbytes : bytes = (s.pages page).load offset bytes.length := h
    simp only [Placed.act, Copy.placed, copySegment, Copy.after, Copy.onDisk, Copy.onPages,
      Copy.stored, ← hbytes]
    rfl
  | read =>
    have hbytes : bytes = s.data.load pos bytes.length := h
    simp only [Placed.act, Copy.placed, copySegment, Copy.after, Copy.onDisk, Copy.onPages,
      Copy.stored, ← hbytes]
    rfl

theorem acts_of_moves {s : Store} {cs : List Copy} (h : Traced Copy.after Copy.Moves s cs) :
    cs.foldl Copy.after s = (cs.map Copy.placed).foldl Placed.act s := by
  induction cs generalizing s with
  | nil => rfl
  | cons c cs ih => rw [List.foldl_cons, ih h.2, Copy.after_act h.1]; rfl

/-- A transfer that is done copies every segment. -/
theorem Serves.all {s : Store} {xs : List Placed} {r : Store × List Copy × ℤ} (h : Serves s xs r)
    (hfits : ∀ x ∈ xs, x.fits = true) :
    r.2.2 = 0 ∧ r.2.1.map Copy.placed = xs ∧ r.1 = xs.foldl Placed.act s := by
  have hexec : r.2.1.map Copy.placed = xs := by
    rw [h.executed]
    exact List.takeWhile_eq_self_iff.mpr hfits
  refine ⟨?_, hexec, ?_⟩
  · rw [h.ret, if_pos (List.all_eq_true.mpr hfits)]
  · rw [h.after, acts_of_moves h.moves, hexec]

/-- A bio that fails ends its request. -/
theorem transferRequest_failed {bio : Bio} {s : Store} (rest : Request)
    (h : (myramdiskTransferBio bio s).2.2 ≠ 0) :
    myramdiskTransferRequest (bio :: rest) s = myramdiskTransferBio bio s := if_pos h

/-- A bio that is done is followed by the rest of its request. -/
theorem transferRequest_done {bio : Bio} {s : Store} (rest : Request)
    (h : (myramdiskTransferBio bio s).2.2 = 0) :
    myramdiskTransferRequest (bio :: rest) s =
      ((myramdiskTransferRequest rest (myramdiskTransferBio bio s).1).1,
        (myramdiskTransferBio bio s).2.1 ++
          (myramdiskTransferRequest rest (myramdiskTransferBio bio s).1).2.1,
        (myramdiskTransferRequest rest (myramdiskTransferBio bio s).1).2.2) :=
  if_neg (not_not.mpr h)

/-- A request is served bio by bio. -/
theorem serves_bios {place : Bio → List Placed} {req : Request}
    (h : ∀ bio ∈ req, ∀ s, Serves s (place bio) (myramdiskTransferBio bio s)) (s : Store) :
    Serves s (req.flatMap place) (myramdiskTransferRequest req s) := by
  induction req generalizing s with
  | nil => exact ⟨rfl, rfl, trivial, rfl⟩
  | cons bio rest ih =>
    have hbio := h bio (List.mem_cons_self ..) s
    have hrest := ih (fun b hb => h b (List.mem_cons_of_mem _ hb)) (myramdiskTransferBio bio s).1
    rw [List.flatMap_cons]
    by_cases hr : (myramdiskTransferBio bio s).2.2 = 0
    · rw [transferRequest_done rest hr]
      exact hbio.done hr hrest
    · rw [transferRequest_failed rest hr]
      exact hbio.failed hr _

theorem serves_request {req : Request} (h : ∀ bio ∈ req, Admitted bio) (s : Store) :
    Serves s (place req) (myramdiskTransferRequest req s) :=
  serves_bios (fun bio hb s => serves_bio (h bio hb) s) s

def Event.copied : Event → Option Copy
  | .copy c => some c
  | _ => none

def Event.ended : Event → Option BlkStatus
  | .endRequest status => some status
  | _ => none

/-- The copies among the events of requests, in order. -/
def copies (events : List Event) : List Copy := events.filterMap Event.copied

/-- What `myramdisk_queue_rq` must do with a request, from the state it finds. -/
structure Faithful (req : Request) (s : Store) (r : Store × List Event) : Prop where
  executed : (copies r.2).map Copy.placed = executed req
  ended : r.2.filterMap Event.ended = [if (place req).all Placed.fits then .ok else .ioerr]
  moves : Traced Copy.after Copy.Moves s (copies r.2)
  after : r.1 = (copies r.2).foldl Copy.after s
  kept : ∀ p, (∀ x ∈ RamDisk.executed req, x.dir = .write → p < x.pos ∨ x.pos + x.seg.bvLen ≤ p) →
    r.1.data p = s.data p
  readOnly : (∀ bio ∈ req, bio.dir = .read) → r.1.data = s.data

theorem copies_queueRq (req : Request) (s : Store) :
    copies (myramdiskQueueRq req s).2 = (myramdiskTransferRequest req s).2.1 := by
  have hmap : ∀ cs : List Copy, (cs.map Event.copy).filterMap Event.copied = cs := by
    intro cs
    rw [List.filterMap_map]
    exact List.filterMap_some
  simp only [myramdiskQueueRq, copies]
  rw [List.filterMap_append, List.filterMap_cons_none rfl, hmap]
  exact List.append_nil _

theorem ended_queueRq (req : Request) (s : Store) :
    (myramdiskQueueRq req s).2.filterMap Event.ended =
      [if (myramdiskTransferRequest req s).2.2 ≠ 0 then .ioerr else .ok] := by
  have hmap : ∀ cs : List Copy, (cs.map Event.copy).filterMap Event.ended = [] := by
    intro cs
    rw [List.filterMap_map, List.filterMap_eq_nil_iff]
    exact fun _ _ => rfl
  simp only [myramdiskQueueRq]
  rw [List.filterMap_append, List.filterMap_cons_none rfl, hmap]
  rfl

theorem foldl_after_data (cs : List Copy) (s : Store) :
    (cs.foldl Copy.after s).data = s.data.replay (stores cs) := by
  rw [← foldl_onDisk]
  exact (foldl_abs Store.data (fun _ _ => rfl) s cs).symm

theorem place_dir {req : Request} (h : ∀ bio ∈ req, bio.dir = .read) :
    ∀ x ∈ place req, x.dir = .read := by
  have hsegs : ∀ (dir : Dir) (segs : List Segment) (pos : ℕ),
      ∀ x ∈ placeSegments dir pos segs, x.dir = dir := by
    intro dir segs
    induction segs with
    | nil => intro pos x hx; nomatch hx
    | cons seg rest ih =>
      intro pos x hx
      rcases List.mem_cons.mp hx with rfl | hx
      · rfl
      · exact ih _ x hx
  intro x hx
  obtain ⟨bio, hb, hx⟩ := List.mem_flatMap.mp hx
  rw [hsegs _ _ _ x hx, h bio hb]

/-- Every request is served faithfully. -/
theorem faithful_request {req : Request} (h : ∀ bio ∈ req, Admitted bio) (s : Store) :
    Faithful req s (myramdiskQueueRq req s) := by
  have hserves := serves_request h s
  have hcopies := copies_queueRq req s
  have hdata : (myramdiskQueueRq req s).1 = (copies (myramdiskQueueRq req s).2).foldl Copy.after s := by
    rw [hcopies]; exact hserves.after
  have hexec : (copies (myramdiskQueueRq req s).2).map Copy.placed = executed req := by
    rw [hcopies]; exact hserves.executed
  have hkept : ∀ p, (∀ x ∈ executed req, x.dir = .write → p < x.pos ∨ x.pos + x.seg.bvLen ≤ p) →
      (myramdiskQueueRq req s).1.data p = s.data p := by
    intro p hp
    rw [hdata, foldl_after_data]
    refine Mem.replay_uncovered _ fun w hw => ?_
    obtain ⟨c, hc, hw⟩ := List.mem_filterMap.mp hw
    have hx : c.placed ∈ executed req := by rw [← hexec]; exact List.mem_map_of_mem hc
    unfold Copy.stored at hw
    split at hw
    · rename_i hdir
      obtain rfl := Option.some.inj hw
      exact Write.put_eq_none.mpr (hp _ hx hdir)
    · nomatch hw
  refine ⟨hexec, ?_, ?_, hdata, hkept, fun hread => ?_⟩
  · rw [ended_queueRq, hserves.ret]
    by_cases hall : (place req).all Placed.fits = true
    · rw [if_pos hall, if_pos hall, if_neg (by decide)]
    · rw [if_neg hall, if_neg hall, if_pos neg_EIO_ne_zero]
  · rw [hcopies]; exact hserves.moves
  · funext p
    refine hkept p fun x hx hdir => ?_
    have hread := place_dir hread x ((List.takeWhile_prefix _).subset hx)
    exact absurd (hdir.symm.trans hread) (by decide)

/-! ### A sequence of requests -/

/-- A copy into a page is of what the disk has. -/
def Copy.FromDisk (data : Mem UInt8) (c : Copy) : Prop :=
  c.dir = .read → c.bytes = data.load c.pos c.bytes.length

/-- On the disk, the requests of a sequence are one list of copies. -/
theorem serve_copies {reqs : List (Pages × Request)} (h : ∀ x ∈ reqs, ∀ bio ∈ x.2, Admitted bio)
    (data : Mem UInt8) :
    Traced Copy.onDisk Copy.FromDisk data (copies (serve data reqs).2.flatten) ∧
      (serve data reqs).1 = (copies (serve data reqs).2.flatten).foldl Copy.onDisk data := by
  induction reqs generalizing data with
  | nil => exact ⟨trivial, rfl⟩
  | cons x rest ih =>
    obtain ⟨pages, req⟩ := x
    have hreq := faithful_request (h _ (List.mem_cons_self ..)) ⟨data, pages⟩
    obtain ⟨hrest, hend⟩ := ih (fun x hx => h x (List.mem_cons_of_mem _ hx))
      (myramdiskQueueRq req ⟨data, pages⟩).1.data
    have hdisk : (myramdiskQueueRq req ⟨data, pages⟩).1.data =
        (copies (myramdiskQueueRq req ⟨data, pages⟩).2).foldl Copy.onDisk data := by
      rw [hreq.after]
      exact (foldl_abs Store.data (fun _ _ => rfl) ⟨data, pages⟩ _).symm
    have hmoves : Traced Copy.onDisk Copy.FromDisk data
        (copies (myramdiskQueueRq req ⟨data, pages⟩).2) := by
      refine hreq.moves.map Store.data (fun _ _ => rfl) ?_
      intro s c hc hdir
      simpa only [Copy.Moves, hdir] using hc
    simp only [serve, List.flatten_cons, copies, List.filterMap_append] at hrest hend hdisk hmoves ⊢
    refine ⟨hmoves.append (hdisk ▸ hrest), ?_⟩
    rw [List.foldl_append, ← hdisk]
    exact hend

theorem serve_append (data : Mem UInt8) (xs ys : List (Pages × Request)) :
    serve data (xs ++ ys) = ((serve (serve data xs).1 ys).1,
      (serve data xs).2 ++ (serve (serve data xs).1 ys).2) := by
  induction xs generalizing data with
  | nil => rfl
  | cons x xs ih =>
    obtain ⟨pages, req⟩ := x
    simp only [List.cons_append, serve, ih]

theorem serve_length (data : Mem UInt8) (reqs : List (Pages × Request)) :
    (serve data reqs).2.length = reqs.length := by
  induction reqs generalizing data with
  | nil => rfl
  | cons x rest ih => simp only [serve, List.length_cons, ih]

/-- FAITHFUL STORE: over any sequence of requests from the zeroed disk, each byte read is the one
    most recently written at its position, or `0`; the disk holds at every position the byte most
    recently written there; and each request copies exactly the segments before the first one that
    ends past the disk, changes no other byte of the disk, and is ended once, with the error exactly
    if there is such a segment. -/
theorem disk_faithful (reqs : List (Pages × Request))
    (h : ∀ x ∈ reqs, ∀ bio ∈ x.2, Admitted bio) :
    (∀ before c after, copies (serve zeroed reqs).2.flatten = before ++ c :: after →
      c.dir = .read → ∀ i (hi : i < c.bytes.length),
        c.bytes[i] = (latest (stores before) (c.pos + i)).getD 0) ∧
    (∀ p, (serve zeroed reqs).1 p =
      (latest (stores (copies (serve zeroed reqs).2.flatten)) p).getD 0) ∧
    ∀ before pages req after, reqs = before ++ (pages, req) :: after →
      let s : Store := ⟨(serve zeroed before).1, pages⟩
      Faithful req s (myramdiskQueueRq req s) ∧
        (serve zeroed reqs).2[before.length]? = some (myramdiskQueueRq req s).2 := by
  obtain ⟨htraced, hend⟩ := serve_copies h zeroed
  refine ⟨?_, ?_, ?_⟩
  · intro before c after hcut hdir i hi
    rw [hcut] at htraced
    have hload := htraced.entry hdir
    rw [foldl_onDisk] at hload
    have hbyte : c.bytes[i]? = some (zeroed.replay (stores before) (c.pos + i)) := by
      rw [hload]
      exact Mem.load_getElem? _ hi
    rw [List.getElem?_eq_getElem hi, Mem.replay_latest] at hbyte
    exact Option.some.inj hbyte
  · intro p
    rw [hend, foldl_onDisk, Mem.replay_latest]
    rfl
  · rintro before pages req after rfl
    refine ⟨faithful_request (h (pages, req) (by simp)) _, ?_⟩
    rw [serve_append, ← serve_length zeroed before, List.getElem?_append_right (le_refl _),
      Nat.sub_self]
    rfl

/-- A sector written from one page, and read into another together with the sector after it. -/
def writeThenRead : List (Pages × Request) :=
  [(fun _ _ => 7, [⟨.write, 3, [⟨0, 0, 512⟩]⟩]), (fun _ _ => 9, [⟨.read, 3, [⟨1, 0, 1024⟩]⟩])]

theorem writeThenRead_admitted (x : Pages × Request) (hx : x ∈ writeThenRead) (bio : Bio)
    (hb : bio ∈ x.2) : Admitted bio := by
  simp only [writeThenRead, List.mem_cons, List.not_mem_nil, or_false] at hx
  rcases hx with rfl | rfl <;> obtain rfl := List.mem_singleton.mp hb <;>
    exact ⟨by decide, by decide⟩

theorem disk_faithful_writeThenRead :
    (serve zeroed writeThenRead).1 1536 = 7 ∧ (serve zeroed writeThenRead).1 2048 = 0 := by
  obtain ⟨-, hdisk, -⟩ := disk_faithful writeThenRead writeThenRead_admitted
  rw [hdisk, hdisk]
  decide +kernel

end Ldd.RamDisk

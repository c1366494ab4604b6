import LddSandbox.RamDisk.Faithful

/-! The bounds check of `myramdisk_transfer_bio` by itself, for every start sector and every list of
    segments. A segment is at the sector that the loop has come to; the check compares where it
    ends, modulo `2^64`, with the end of the disk.

        0 ──── disk ────┤ past the end: refused ................................. 2^64 ├ again 0
               copied                                          wraps: copied, at the wrong place

    Once a segment is copied inside the disk the sectors after it are small and nothing wraps
    (`serves_inside`), so only the first segment can slip past the check (`bounds_exact_iff`). -/

namespace Ldd.RamDisk
open Ldd.Schemes

/-- The segments of a bio from a sector on, each with the position of its sector. -/
def segmentsAt (dir : Dir) : ℕ → List Segment → List Placed
  | _, [] => []
  | sector, seg :: rest => ⟨dir, sector * kernelSectorSize, seg⟩ ::
    segmentsAt dir (sector + seg.bvLen / kernelSectorSize) rest

/-- What a bio asks for: its segments at their sectors, in order. -/
def requested (bio : Bio) : List Placed := segmentsAt bio.dir bio.biSector bio.segments

/-- The check is exact on a bio: the segments copied are those before the first one that ends past
    the disk, each at its position and inside the disk, and the rest gives `-EIO`. -/
structure Exact (bio : Bio) (s : Store) (r : Store × List Copy × ℤ) : Prop where
  serves : Serves s (requested bio) r
  inside : ∀ c ∈ r.2.1, c.pos + c.bytes.length ≤ diskSize

/-- The first segment does not end past the disk and, modulo `2^64`, inside it. -/
def NoWrap (bio : Bio) : Prop :=
  ∀ seg ∈ bio.segments.head?, diskSize < bio.biSector * kernelSectorSize + seg.bvLen →
    diskSize < (bio.biSector * kernelSectorSize + seg.bvLen) % 2 ^ 64

instance (bio : Bio) : Decidable (NoWrap bio) := by unfold NoWrap; infer_instance

variable {dir : Dir} {sector : ℕ} {seg : Segment} {rest segs : List Segment} {s : Store}

/-- The sum that is checked. -/
theorem checked_sum (sector len : ℕ) :
    uadd (sector * kernelSectorSize % 2 ^ 64) len = (sector * kernelSectorSize + len) % 2 ^ 64 := by
  rw [uadd, Nat.mod_add_mod]

/-- The check by the sum modulo `2^64` is exact if the sum does not wrap into the disk. -/
theorem check_exact {n : ℕ} (h : diskSize < n → diskSize < n % 2 ^ 64) :
    n % 2 ^ 64 > nsectors * kernelSectorSize ↔ diskSize < n :=
  ⟨fun hpast => hpast.trans_le (Nat.mod_le _ _), h⟩

/-- From a sector of the disk on, every check is exact. -/
theorem serves_inside (dir : Dir) (segs : List Segment) {sector : ℕ} (s : Store)
    (hsector : sector * kernelSectorSize ≤ diskSize) (hlen : ∀ seg ∈ segs, seg.bvLen < 2 ^ 32) :
    Serves s (segmentsAt dir sector segs) (transferSegments dir sector segs s) := by
  induction segs generalizing sector s with
  | nil => exact ⟨rfl, rfl, trivial, rfl⟩
  | cons seg rest ih =>
    have hseg := hlen seg (List.mem_cons_self ..)
    have hsize : diskSize = 16777216 := rfl
    refine Serves.cons ?_ fun hle s => ih s ?_ fun x hx => hlen x (List.mem_cons_of_mem _ hx)
    · rw [checked_sum]
      refine check_exact fun hpast => ?_
      rw [Nat.mod_eq_of_lt (by omega)]
      exact hpast
    · rw [Nat.add_mul]
      exact (Nat.add_le_add_left (Nat.div_mul_le_self _ _) _).trans hle

theorem serves_noWrap {bio : Bio} (hlen : ∀ seg ∈ bio.segments, seg.bvLen < 2 ^ 32)
    (h : NoWrap bio) (s : Store) : Serves s (requested bio) (myramdiskTransferBio bio s) := by
  obtain ⟨dir, sector, segs⟩ := bio
  cases segs with
  | nil => exact ⟨rfl, rfl, trivial, rfl⟩
  | cons seg rest =>
    refine Serves.cons ?_ fun hle s => serves_inside dir rest s ?_ fun x hx =>
      hlen x (List.mem_cons_of_mem _ hx)
    · rw [checked_sum]
      exact check_exact (h seg rfl)
    · rw [Nat.add_mul]
      exact (Nat.add_le_add_left (Nat.div_mul_le_self _ _) _).trans hle

/-- What was copied ends inside the disk. -/
theorem Serves.inside {xs : List Placed} {r : Store × List Copy × ℤ} (h : Serves s xs r) :
    ∀ c ∈ r.2.1, c.pos + c.bytes.length ≤ diskSize := by
  intro c hc
  have hmem : c.placed ∈ xs.takeWhile Placed.fits := by
    rw [← h.executed]
    exact List.mem_map_of_mem hc
  have hfit : c.placed.fits = true := List.mem_takeWhile_imp hmem
  exact of_decide_eq_true hfit

/-- A segment that ends past the disk and passes the check is copied. -/
theorem transfer_wrapped (h : (sector * kernelSectorSize + seg.bvLen) % 2 ^ 64 ≤ diskSize)
    (dir : Dir) (rest : List Segment) (s : Store) :
    (transferSegments dir sector (seg :: rest) s).2.1 ≠ [] := by
  have hcheck : ¬ uadd (sector * kernelSectorSize % 2 ^ 64) seg.bvLen >
      nsectors * kernelSectorSize := by
    rw [checked_sum]
    exact not_lt.mpr h
  simp only [transferSegments, if_neg hcheck]
  exact List.cons_ne_nil _ _

/-- EXACT BOUNDS: the check of a bio is exact, whatever the disk and the pages hold, if and only if
    its first segment does not end past the disk and, modulo `2^64`, inside it. -/
theorem bounds_exact_iff (bio : Bio) (hsector : bio.biSector < 2 ^ 64)
    (hlen : ∀ seg ∈ bio.segments, seg.bvLen < 2 ^ 32) :
    (∀ s, Exact bio s (myramdiskTransferBio bio s)) ↔ NoWrap bio := by
  constructor
  · intro h seg hseg hpast
    by_contra hwrap
    obtain ⟨dir, sector, segs⟩ := bio
    cases segs with
    | nil => cases hseg
    | cons first rest =>
      obtain rfl : first = seg := Option.some.inj hseg
      have hexec := (h ⟨zeroed, fun _ => zeroed⟩).serves.executed
      have hout : Placed.fits ⟨dir, sector * kernelSectorSize, first⟩ = false :=
        decide_eq_false (not_le.mpr hpast)
      rw [requested, segmentsAt, List.takeWhile_cons_of_neg (by rw [hout]; decide)] at hexec
      exact transfer_wrapped (not_lt.mp hwrap) dir rest _ (List.map_eq_nil_iff.mp hexec)
  · intro h s
    exact ⟨serves_noWrap hlen h s, (serves_noWrap hlen h s).inside⟩

/-- A sector written at the end of the disk, and one past it. -/
def lastSectors : Bio := ⟨.write, nsectors - 1, [⟨0, 0, 512⟩, ⟨0, 512, 512⟩]⟩

theorem bounds_exact_lastSectors : Exact lastSectors ⟨zeroed, fun _ _ => 7⟩
    (myramdiskTransferBio lastSectors ⟨zeroed, fun _ _ => 7⟩) :=
  (bounds_exact_iff lastSectors (by decide) (by decide)).mpr (by decide) _

/-- The check is exact for every start sector and every list of segments. -/
def AlwaysExact : Prop :=
  ∀ bio : Bio, bio.biSector < 2 ^ 64 → (∀ seg ∈ bio.segments, seg.bvLen < 2 ^ 32) →
    ∀ s, Exact bio s (myramdiskTransferBio bio s)

/-- Sector `2^55` is at position `2^64`, which is position `0`. -/
theorem not_always_exact : ¬ AlwaysExact := by
  intro h
  have hexec := (h ⟨.write, 2 ^ 55, [⟨0, 0, 512⟩]⟩ (by decide) (by decide)
    ⟨zeroed, fun _ => zeroed⟩).serves.executed
  have hcopied : (myramdiskTransferBio ⟨.write, 2 ^ 55, [⟨0, 0, 512⟩]⟩
      ⟨zeroed, fun _ => zeroed⟩).2.1 ≠ [] := transfer_wrapped (by decide) _ _ _
  rw [show (requested ⟨.write, 2 ^ 55, [⟨0, 0, 512⟩]⟩).takeWhile Placed.fits = [] by decide] at hexec
  exact hcopied (List.map_eq_nil_iff.mp hexec)

end Ldd.RamDisk

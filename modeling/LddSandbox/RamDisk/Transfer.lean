import LddSandbox.Schemes.CInt
import LddSandbox.Schemes.StoreLog

/-! The RAM disk's request path (`08-block-dev-ramdisk-basic`): `myramdisk_queue_rq` serves a
    request bio by bio, and a bio segment by segment, each segment one `memcpy` between the disk
    and a page. The sector runs on within a bio and starts anew with each bio; the first segment
    that the bounds check turns down ends the whole request.

        request:   bio ─────────────────▶ bio ─────────────────▶ ..     (until one fails)
                   │ bi_sector
                   seg ▶ seg ▶ ..          offset = sector * 512; sector += len / 512

    `Admitted` is what the block layer grants: a bio ends within 64 bits, and is cut at sectors. -/

namespace Ldd.RamDisk
open Ldd.Schemes

/-- `#define NSECTORS (1024 * 32)` -/
def nsectors : ℕ := 1024 * 32

/-- `#define KERNEL_SECTOR_SIZE 512` -/
def kernelSectorSize : ℕ := 512

def EIO : ℤ := 5

/-- `bio_data_dir` -/
inductive Dir | read | write
  deriving DecidableEq, Repr

/-- A segment of a bio: `bv_page`, `bv_offset`, `bv_len`. -/
structure Segment where
  bvPage : ℕ
  bvOffset : ℕ
  bvLen : ℕ
  deriving DecidableEq, Repr

structure Bio where
  dir : Dir
  biSector : ℕ
  segments : List Segment
  deriving DecidableEq, Repr

/-- A request: its bios, in order. -/
abbrev Request := List Bio

/-- The pages of memory that bios transfer from and to. -/
abbrev Pages := ℕ → Mem UInt8

/-- What a request works on. -/
structure Store where
  data : Mem UInt8
  pages : Pages

/-- A `memcpy` that was done: its direction, the position on the disk, the page and the offset in
    it, and the bytes copied. -/
structure Copy where
  dir : Dir
  pos : ℕ
  page : ℕ
  offset : ℕ
  bytes : List UInt8
  deriving DecidableEq, Repr

/-- `blk_status_t` -/
inductive BlkStatus | ok | ioerr
  deriving DecidableEq, Repr

/-- What the block layer sees of a request. -/
inductive Event
  | startRequest
  | copy (c : Copy)
  | endRequest (status : BlkStatus)
  deriving DecidableEq, Repr

/-- The `memcpy` of one segment at `offset` of the disk. -/
def copySegment (dir : Dir) (offset : ℕ) (bvec : Segment) (s : Store) : Store × Copy :=
  match dir with
  | .write =>
    let bytes := (s.pages bvec.bvPage).load bvec.bvOffset bvec.bvLen
    ({ s with data := s.data.store offset bytes },
      ⟨.write, offset, bvec.bvPage, bvec.bvOffset, bytes⟩)
  | .read =>
    let bytes := s.data.load offset bvec.bvLen
    let page := (s.pages bvec.bvPage).store bvec.bvOffset bytes
    ({ s with pages := Function.update s.pages bvec.bvPage page },
      ⟨.read, offset, bvec.bvPage, bvec.bvOffset, bytes⟩)

/-- The loop of `myramdisk_transfer_bio` from a sector on; `sector_t`, `unsigned long` and the sum
    `offset + len` are 64 bits wide. -/
def transferSegments (dir : Dir) : ℕ → List Segment → Store → Store × List Copy × ℤ
  | _, [], s => (s, [], 0)
  | sector, bvec :: rest, s =>
    let offset := sector * kernelSectorSize % 2 ^ 64
    if uadd offset bvec.bvLen > nsectors * kernelSectorSize then (s, [], - EIO)
    else
      let (s, c) := copySegment dir offset bvec s
      let (s, cs, ret) :=
        transferSegments dir (uadd sector (bvec.bvLen / kernelSectorSize)) rest s
      (s, c :: cs, ret)

/-- `myramdisk_transfer_bio` -/
def myramdiskTransferBio (bio : Bio) (s : Store) : Store × List Copy × ℤ :=
  transferSegments bio.dir bio.biSector bio.segments s

/-- `myramdisk_transfer_request` -/
def myramdiskTransferRequest : Request → Store → Store × List Copy × ℤ
  | [], s => (s, [], 0)
  | bio :: rest, s =>
    let (s, cs, ret) := myramdiskTransferBio bio s
    if ret ≠ 0 then (s, cs, ret)
    else
      let (s, cs', ret) := myramdiskTransferRequest rest s
      (s, cs ++ cs', ret)

/-- `myramdisk_queue_rq` -/
def myramdiskQueueRq (req : Request) (s : Store) : Store × List Event :=
  let (s, cs, ret) := myramdiskTransferRequest req s
  let status : BlkStatus := if ret ≠ 0 then .ioerr else .ok
  (s, .startRequest :: cs.map .copy ++ [.endRequest status])

/-- The disk as `myramdisk_init` leaves it. -/
def zeroed : Mem UInt8 := fun _ => 0

/-- A sequence of requests, each with the pages as it finds them; the events of each. -/
def serve (data : Mem UInt8) : List (Pages × Request) → Mem UInt8 × List (List Event)
  | [] => (data, [])
  | (pages, req) :: rest =>
    let (s, events) := myramdiskQueueRq req ⟨data, pages⟩
    let (data, served) := serve s.data rest
    (data, events :: served)

end Ldd.RamDisk

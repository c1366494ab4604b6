import LddSandbox.Ioctl.Panel
import LddSandbox.Kernel.Service
import LddSandbox.Load.Clean
import LddSandbox.Load.Simple
import LddSandbox.RamDisk.Agree

/-! The modules of `04-char-dev-ioctl` and `08-block-dev-ramdisk-basic` in use: loaded, called and
    unloaded, again and again, whatever the calls of each load come to. Each is a service that every
    load starts afresh, whatever the last session or the allocator left in memory: the panel of `04`
    with its first speed and no message, the disk of `08` with zeros. -/

namespace Ldd.Load
open Ldd.Schemes Ldd.Kernel Script Ledger

/-! ### `04-char-dev-ioctl` -/

namespace Ioctl
open IoctlResource Message.CharDevIoctl
open Ldd.Ioctl hiding device

/-- A call that the VFS lets through. -/
abbrev AdmittedCall := { c : Call // c.admitted = true }

/-- A call on a file of the device: `private_data` is `my_device`. -/
def serve (c : AdmittedCall) : Script IoctlResource MyioctlDev Answer := do
  let dev ← deref device
  let (dev, answer) := Ldd.Ioctl.device dev c.1
  assign device fun _ => dev
  return answer

/-- The panel, behind the VFS. -/
def admittedPanel : Machine Panel AdmittedCall Answer := fun p c => panel p c.1

theorem ioctlModule_offers :
    Offers ioctlModule (fun _ => false) held serve (fun _ => Panel.init) admittedPanel
      fun dev p => PanelShown p dev where
  unwinds := ioctlModule_unwinds
  fresh calls w _ _ hf := by
    have hmem : (ioctlModule.init calls w).2.mem = _ := chardevInit_fresh hf w
    rw [hmem]
    exact panelShown_init
  serves c w p hheld hsound hshown := by
    have hlive : live w.past = [cdev, device, region] := hheld
    have hdev : device ∈ live w.past := by simp [hlive]
    have hrun : serve c w = ((Ldd.Ioctl.device w.mem c.1).2, { w with
        past := .access device :: .access device :: w.past
        mem := (Ldd.Ioctl.device w.mem c.1).1 }) := by
      simp [serve, hdev, World.use]
    obtain ⟨hshown', hout⟩ := panel_shown hshown c.2
    rw [hrun]
    exact ⟨hlive, ⟨hdev, hdev, hsound⟩, hshown', hout⟩

/-- SESSIONS: over every sequence of loads, whatever calls fail in them, unloads and calls, the
    module is loaded and answers as the panel that each load starts afresh; every use of a resource,
    those of the calls among them, was allowed, and nothing is left when the module is not loaded. -/
theorem ioctl_sessions (mem : MyioctlDev) (asks : List (Ask MyioctlDev IoctlCalls AdmittedCall)) :
    let r := (ioctlModule.inUse serve).run (.boot mem) asks
    r.2 = ((service MyioctlDev ioctlModule.fails (fun _ => Panel.init) admittedPanel).run none asks).2 ∧
      Sound IoctlResource.needs r.1.world.past ∧
      (r.1.loaded = false → live r.1.world.past = []) :=
  ioctlModule_offers.sessions mem asks

end Ioctl

/-! ### `08-block-dev-ramdisk-basic` -/

namespace RamDisk
open DiskResource Ldd.RamDisk

/-- A request that the block layer lets through, each bio of it ending within 64 bits and cut at
    sectors, with the pages as it finds them. -/
abbrev AdmittedRequest := { r : Pages × Request // ∀ bio ∈ r.2, Admitted bio }

/-- `myramdisk_queue_rq`: `queuedata` is `Device`, whose `data` is the storage. -/
def serve (r : AdmittedRequest) : Script DiskResource DiskDev (List Event) := do
  let dev ← deref device
  access data
  let (s, events) := myramdiskQueueRq r.1.2 ⟨dev.bytes, r.1.1⟩
  assign device ({ · with bytes := s.data })
  return events

/-- The disk alone. -/
def disk : Machine (Mem UInt8) AdmittedRequest (List Event) := fun bytes r =>
  let (s, events) := myramdiskQueueRq r.1.2 ⟨bytes, r.1.1⟩
  (s.data, events)

theorem ramdiskModule_offers :
    Offers ramdiskModule DiskCalls.allocDiskFails DiskHeld serve (fun _ => zeroed) disk
      fun dev bytes => Agree dev.bytes bytes where
  unwinds := ramdiskModule_unwinds
  fresh calls w hidle hsound hf := by
    have hload := myramdiskInit_zeroed hidle hsound (by simpa [ramdiskModule] using hf)
    intro i hi
    have hbyte := congrArg (·[i]?) hload
    have hat : i < nsectors * kernelSectorSize := hi
    simp only [Mem.load_getElem? _ hat, Nat.zero_add, Option.some.injEq] at hbyte
    exact hbyte
  serves r w bytes hheld hsound hagree := by
    have hlive := hheld.held
    have hdev : device ∈ live w.past := by simp [hlive]
    have hdata : data ∈ live w.past := by simp [hlive]
    have hrun : serve r w = ((myramdiskQueueRq r.1.2 ⟨w.mem.bytes, r.1.1⟩).2, { w with
        past := .access device :: .access data :: .access device :: w.past
        mem := { w.mem with bytes := (myramdiskQueueRq r.1.2 ⟨w.mem.bytes, r.1.1⟩).1.data } }) := by
      simp [serve, hdev, World.use]
    have hstart : Same ⟨w.mem.bytes, r.1.1⟩ ⟨bytes, r.1.1⟩ := ⟨hagree, rfl⟩
    obtain ⟨hsame, hout⟩ := hstart.queueRq r.2
    rw [hrun]
    exact ⟨⟨hlive, hheld.gd, hheld.major, hheld.data⟩, ⟨hdev, hdata, hdev, hsound⟩, hsame.data, hout⟩

/-! A session of the disk: what was copied since the module was last unloaded. -/

/-- The copies of the session after one more ask and what came back. -/
def sinceLoad (cs : List Copy) :
    Ask DiskDev DiskCalls AdmittedRequest × Said (List Event) → List Copy
  | (.attempt (.unload _), _) => []
  | (.call _, .answer events) => cs ++ copies events
  | _ => cs

/-- The copies of the session that a history ends in. -/
def session (history : List (Ask DiskDev DiskCalls AdmittedRequest × Said (List Event))) :
    List Copy :=
  history.foldl sinceLoad []

/-- The service of the module. -/
abbrev diskService := service DiskDev ramdiskModule.fails (fun _ => zeroed) disk

/-- A running disk holds what the copies of its session stored; none runs before the first. -/
def Logged (cs : List Copy) : Option (Mem UInt8) → Prop
  | none => cs = []
  | some bytes => bytes = zeroed.replay (stores cs)

theorem stores_append (cs cs' : List Copy) : stores (cs ++ cs') = stores cs ++ stores cs' :=
  List.filterMap_append

theorem Logged.step {cs : List Copy} {o : Option (Mem UInt8)} (h : Logged cs o)
    (a : Ask DiskDev DiskCalls AdmittedRequest) :
    Logged (sinceLoad cs (a, (diskService o a).2)) (diskService o a).1 := by
  cases a with
  | attempt a =>
    cases a with
    | load calls freed =>
      cases o with
      | none =>
        have hnone : cs = [] := h
        subst hnone
        simp only [service]
        split <;> rfl
      | some bytes => exact h
    | unload freed => cases o <;> rfl
  | call r =>
    cases o with
    | none => exact h
    | some bytes =>
      have hbytes : bytes = zeroed.replay (stores cs) := h
      have hafter := (faithful_request r.2 ⟨bytes, r.1.1⟩).after
      show (myramdiskQueueRq r.1.2 ⟨bytes, r.1.1⟩).1.data = zeroed.replay
        (stores (cs ++ copies (myramdiskQueueRq r.1.2 ⟨bytes, r.1.1⟩).2))
      rw [stores_append, Mem.replay_append, ← hbytes]
      exact (congrArg Store.data hafter).trans (foldl_after_data _ _)

theorem Logged.run {cs : List Copy} {o : Option (Mem UInt8)} (h : Logged cs o)
    (asks : List (Ask DiskDev DiskCalls AdmittedRequest)) :
    Logged ((asks.zip (diskService.run o asks).2).foldl sinceLoad cs) (diskService.run o asks).1 := by
  induction asks generalizing cs o with
  | nil => exact h
  | cons a asks ih => exact ih (h.step a)

/-- What a request that is served in a session must give. -/
structure ServedIn (cs : List Copy) (r : AdmittedRequest) (events : List Event) : Prop where
  executed : (copies events).map Copy.placed = executed r.1.2
  ended : events.filterMap Event.ended = [if (place r.1.2).all Placed.fits then .ok else .ioerr]
  reads : ∀ before c after, copies events = before ++ c :: after → c.dir = .read →
    ∀ i (hi : i < c.bytes.length),
      c.bytes[i] = (latest (stores (cs ++ before)) (c.pos + i)).getD 0

theorem Logged.served {cs : List Copy} {bytes : Mem UInt8} (h : Logged cs (some bytes))
    (r : AdmittedRequest) : ServedIn cs r (disk bytes r).2 := by
  have hbytes : bytes = zeroed.replay (stores cs) := h
  have hfaithful := faithful_request r.2 ⟨bytes, r.1.1⟩
  refine ⟨hfaithful.executed, hfaithful.ended, ?_⟩
  intro before c after hcut hdir i hi
  have hcut' : copies (myramdiskQueueRq r.1.2 ⟨bytes, r.1.1⟩).2 = before ++ c :: after := hcut
  have htraced := hfaithful.moves
  rw [hcut'] at htraced
  have hmoves := htraced.entry
  have hload : c.bytes = (before.foldl Copy.after ⟨bytes, r.1.1⟩).data.load c.pos c.bytes.length := by
    simpa only [Copy.Moves, hdir] using hmoves
  rw [foldl_after_data, hbytes, ← Mem.replay_append, ← stores_append] at hload
  have hbyte : c.bytes[i]? = some (zeroed.replay (stores (cs ++ before)) (c.pos + i)) := by
    rw [hload]
    exact Mem.load_getElem? _ hi
  rw [List.getElem?_eq_getElem hi, Mem.replay_latest] at hbyte
  exact Option.some.inj hbyte

/-- SESSIONS: over every sequence of loads, unloads and requests, each bio ending within 64 bits and
    cut at sectors, in which no init that runs has `blk_mq_alloc_disk` as the first call to fail, a
    request is answered exactly if the module is loaded, and each byte that it reads is the one most
    recently written there since the module was last unloaded, or `0`, whatever `vmalloc` found;
    every use of a resource was allowed, and nothing is left when the module is not loaded. -/
theorem disk_sessions (mem : DiskDev) (asks : List (Ask DiskDev DiskCalls AdmittedRequest))
    (havoid : Traced (fun k a => (ramdiskModule.inUse serve k a).1)
      (fun k a => a.Avoids DiskCalls.allocDiskFails k) (.boot mem) asks) :
    let r := (ramdiskModule.inUse serve).run (.boot mem) asks
    (Sound DiskResource.needs r.1.world.past ∧ (r.1.loaded = false → live r.1.world.past = [])) ∧
      ∀ req, (r.1.loaded = false → (ramdiskModule.inUse serve r.1 (.call req)).2 = .absent) ∧
        (r.1.loaded = true → ∃ events, (ramdiskModule.inUse serve r.1 (.call req)).2 =
          .answer events ∧ ServedIn (session (asks.zip r.2)) req events) := by
  obtain ⟨hshows, hout⟩ := ramdiskModule_offers.in_use (shows_boot mem) havoid
  have hnone : Logged [] none := rfl
  have hlogged : Logged (session (asks.zip (diskService.run none asks).2))
      (diskService.run none asks).1 := hnone.run asks
  refine ⟨⟨hshows.between.sound, hshows.between.idle⟩, fun req => ?_⟩
  obtain ⟨-, hanswer⟩ := ramdiskModule_offers.shows_call hshows req
  have hloaded := hshows.loaded
  rw [hanswer, hout]
  cases ho : (diskService.run none asks).1 with
  | none =>
    rw [ho, Option.isSome_none] at hloaded
    exact ⟨fun _ => rfl, fun ht => absurd (hloaded.symm.trans ht) (by decide)⟩
  | some bytes =>
    rw [ho, Option.isSome_some] at hloaded
    rw [ho] at hlogged
    exact ⟨fun hf => absurd (hloaded.symm.trans hf) (by decide),
      fun _ => ⟨_, rfl, hlogged.served req⟩⟩

/-- A load whose calls all succeed; `vmalloc` finds sevens. -/
def succeeding : DiskCalls := { noDisk with junk := fun _ => 7, allocDisk := .ok someObject }

/-- A request for one sector. -/
def oneSector (dir : Dir) : AdmittedRequest where
  val := (fun _ _ => 9, [⟨dir, 3, [⟨0, 0, 512⟩]⟩])
  property bio hb := by
    obtain rfl := List.mem_singleton.mp hb
    refine ⟨(by decide : 3 * kernelSectorSize + 512 < 2 ^ 64), fun seg hseg => ?_⟩
    obtain rfl := List.mem_singleton.mp hseg
    decide

/-- A sector is written, and the module is loaded again. -/
def loadedAgain : List (Ask DiskDev DiskCalls AdmittedRequest) :=
  [.attempt (.load succeeding .zeroed), .call (oneSector .write), .attempt (.unload .zeroed),
    .attempt (.load succeeding .zeroed)]

/-- Nothing of the sector is left. -/
theorem disk_sessions_loadedAgain :
    ∃ events, (ramdiskModule.inUse serve
        ((ramdiskModule.inUse serve).run (.boot .zeroed) loadedAgain).1
        (.call (oneSector .read))).2 = .answer events ∧ ServedIn [] (oneSector .read) events := by
  have hload : ∀ k : Loader DiskResource DiskDev, Ask.Avoids DiskCalls.allocDiskFails k
      (.attempt (.load succeeding .zeroed) : Ask DiskDev DiskCalls AdmittedRequest) := by
    rintro k calls freed heq -
    cases heq
    rfl
  obtain ⟨-, hserved⟩ := disk_sessions .zeroed loadedAgain
    ⟨hload _, trivial, fun _ _ heq => (by cases heq), hload _, trivial⟩
  exact (hserved (oneSector .read)).2 rfl

end RamDisk

end Ldd.Load

import LddSandbox.Kernel.Pinned
import LddSandbox.Load.Clean
import LddSandbox.Stream.History

/-! The modules of `06-char-dev-blocking` and `07-char-dev-poll` in use: loaded, called by any
    number of processes at once, with waits and wake-ups, and unloaded when no process is in a call;
    again and again, and whatever the calls of each load come to.

        load ▶ 0:   an empty buffer of BUF_LEN bytes, no readers, no writers, the mutex free
        session:    a run of the driver from there: what is shown of 06 and 07 from a load on holds
                    in every session                                                            -/

namespace Ldd.Load
open Ldd.Schemes Ldd.Kernel Script Ledger

/-- The module of each driver. -/
def streamModule (ι : Type) : Stream.Driver → Loadable CharResource (CharDev ι) CharCalls
  | .charDevBlocking => blockingModule ι
  | .charDevPoll => pollModule ι

/-- What a successful load of it holds. -/
def streamHeld {ι : Type} : Stream.Driver → World CharResource (CharDev ι) → Prop
  | .charDevBlocking => charHeld "myblocking" "myblockclass"
  | .charDevPoll => charHeld "mypoll" "mypollclass"

/-- A call works on `my_device` and on the buffer that it points to. -/
def mounted (ι : Type) (drv : Stream.Driver) : Mounted ι CharResource (CharDev ι) (Stream.Dev ι)
    Stream.Pc Stream.Choice Stream.Act where
  driver := Stream.fops ι drv
  get dev := dev.io
  put io dev := { dev with io := io }
  parts := [.device, .buffer]

theorem charModule_mounts (ι : Type) (drv : Stream.Driver) (deviceName className : String) :
    Mounts (charModule ι deviceName className) CharCalls.deviceCreateFails
      (charHeld deviceName className) (mounted ι drv) (Stream.chardevInit ι) where
  unwinds := charModule_unwinds ι deviceName className
  fresh calls w hidle hsound hf :=
    (chardevInit_loads hidle hsound (by simpa [charModule] using hf)).2.2.2
  parts w hheld r hr := by
    have hlive : live w.past = _ := hheld
    rw [hlive]
    rcases List.mem_cons.mp hr with rfl | hr
    · simp
    · rw [List.mem_singleton.mp hr]
      simp
  after w d hheld := (live_accesses _ _).trans hheld
  get_put _ _ := rfl

theorem streamModule_mounts (ι : Type) (drv : Stream.Driver) :
    Mounts (streamModule ι drv) CharCalls.deviceCreateFails (streamHeld drv) (mounted ι drv)
      (Stream.chardevInit ι) := by
  cases drv with
  | charDevBlocking => exact charModule_mounts ι _ "myblocking" "myblockclass"
  | charDevPoll => exact charModule_mounts ι _ "mypoll" "mypollclass"

/-- The module and its processes. -/
abbrev inUse (ι : Type) (drv : Stream.Driver) := (streamModule ι drv).pinned (mounted ι drv)

/-- No load has `device_create` as the first call to fail, and the module is unloaded only when no
    process is in a call. -/
abbrev Quiet (ι : Type) := Orderly (ι := ι) (ρ := CharResource) (σ := CharDev ι)
  (γ := Stream.Choice) Stream.Pc.idle CharCalls.deviceCreateFails

/-- Nothing is loaded, every process is outside the driver. -/
def booted {ι : Type} (mem : CharDev ι) : Conf ι (Loader CharResource (CharDev ι)) Stream.Pc :=
  ⟨.boot mem, fun _ => .idle⟩

/-- What an orderly run has come to. -/
structure Served {ι : Type} [DecidableEq ι] (drv : Stream.Driver)
    (tr : List (ι × Happened Stream.Act))
    (c : Conf ι (Loader CharResource (CharDev ι)) Stream.Pc) : Prop where
  sound : Sound CharResource.needs c.shared.world.past
  left : c.shared.loaded = false → live c.shared.world.past = [] ∧ ∀ r, c.pc r = .idle
  session : c.shared.loaded = true → (Stream.fops ι drv).Run anyStep (Stream.loaded ι) (session tr)
    ⟨c.shared.world.mem.io, c.pc⟩
  unread : c.shared.loaded = true → ∃ st : Stream.Fifo Stream.bufLen,
    (Stream.Fifo.empty Stream.bufLen).replay (Stream.settled (Kernel.session tr)) = some st ∧
      (c.shared.world.mem.io.lock = none → c.shared.world.mem.io.unread = st.pending)

variable {ι : Type} [DecidableEq ι] {drv : Stream.Driver} {mem : CharDev ι}

theorem orderly_served {tr : List (ι × Happened Stream.Act)}
    {c : Conf ι (Loader CharResource (CharDev ι)) Stream.Pc}
    (hrun : (inUse ι drv).Run (Quiet ι) (booted mem) tr c) : Served drv tr c := by
  have hI := (streamModule_mounts ι drv).sessions hrun
  have hneeds : (streamModule ι drv).needs = CharResource.needs := by cases drv <;> rfl
  refine ⟨hneeds ▸ hI.between.sound, fun hl => ⟨hI.between.idle hl, (hI.idle hl).1⟩, hI.run, ?_⟩
  intro hl
  obtain ⟨st, hreplay, hsim⟩ := Stream.replayed (hI.run hl)
  exact ⟨st, hreplay, fun hlock => (hsim hlock).unread⟩

/-- A load whose calls all succeed. -/
def charSucceeding : CharCalls :=
  ⟨.ok (), .ok someObject, some someObject, some someObject, .ok (), .ok someObject⟩

/-- SESSIONS: in every interleaving of loads, whatever calls fail in them except `device_create`
    as the first, of unloads, and of the steps of the calls of any number of processes: every use of
    a resource, those of the calls among them, was allowed; while the module is not loaded nothing
    is left and no process is in a call; while it is loaded, the steps since the load are a run of
    the driver from a fresh device, whose calls are served by a buffer that was empty at the load.
    And every run of the driver is such a session. -/
theorem stream_sessions (ι : Type) [DecidableEq ι] (drv : Stream.Driver) :
    (∀ mem tr c, (inUse ι drv).Run (Quiet ι) (booted mem) tr c → Served drv tr c) ∧
      (Nonempty ι → ∀ mem steps t, (Stream.fops ι drv).Run anyStep (Stream.loaded ι) steps t →
        ∃ tr c, (inUse ι drv).Run (Quiet ι) (booted mem) tr c ∧ c.shared.loaded = true ∧
          session tr = steps ∧ c.shared.world.mem.io = t.shared ∧ c.pc = t.pc) := by
  refine ⟨fun mem tr c hrun => orderly_served hrun, fun ⟨p⟩ mem steps t hrun => ?_⟩
  have hf : (streamModule ι drv).fails charSucceeding = false := by cases drv <;> rfl
  exact (streamModule_mounts ι drv).is_session rfl hf p mem mem hrun

end Ldd.Load

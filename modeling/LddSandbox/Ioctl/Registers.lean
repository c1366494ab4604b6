import LddSandbox.Ioctl.Commands
import LddSandbox.Message.Refine

/-! The registers of `04-char-dev-ioctl`. `Serves` lists what `dev_ioctl` can do; from it follow,
    over every run of reads, writes and ioctls, the ranges of the registers and the size, the law
    of the last writer (a `GET` delivers what the last successful `SET` or `RESET` stored), which
    command changes what, and that an ioctl that fails changes nothing (`ioctl_registers`). -/

namespace Ldd.Ioctl
open Ldd.Schemes Ldd.Kernel Ldd.Message Ldd.Message.CharDevIoctl

/-- What an ioctl can do. -/
inductive Serves (dev : MyioctlDev) (cmd arg : BitVec 32) : MyioctlDev × Reply → Prop
  | fails {errno : ℤ} : 0 < errno → Serves dev cmd arg (dev, ⟨-errno, none⟩)
  | setSpeed : cmd = ioctlSetSpeed → 0 ≤ arg.toInt → arg.toInt ≤ 1000 →
      Serves dev cmd arg ({ dev with speed := arg.toInt }, ⟨0, none⟩)
  | getSpeed : cmd = ioctlGetSpeed → Serves dev cmd arg (dev, ⟨0, some dev.speed⟩)
  | setMode : cmd = ioctlSetMode → 0 ≤ arg.toInt → arg.toInt ≤ 3 →
      Serves dev cmd arg ({ dev with mode := arg.toInt }, ⟨0, none⟩)
  | getMode : cmd = ioctlGetMode → Serves dev cmd arg (dev, ⟨0, some dev.mode⟩)
  | reset : cmd = ioctlReset → Serves dev cmd arg ({ dev with
      speed := 0, mode := 0, bufferSize := 0
      buffer := dev.buffer.store 0 (List.replicate bufLen 0) }, ⟨0, none⟩)
  | getVersion : cmd = ioctlGetVersion → Serves dev cmd arg (dev, ⟨0, some driverVersion⟩)

variable {dev : MyioctlDev} {cmd arg : BitVec 32} {f : Fault}

theorem serves_takeInt {max : ℤ} {store : ℤ → MyioctlDev}
    (h : 0 ≤ arg.toInt → arg.toInt ≤ max → Serves dev cmd arg (store arg.toInt, ⟨0, none⟩)) :
    Serves dev cmd arg (takeInt dev f max store arg) := by
  unfold takeInt
  split
  · exact .fails (by decide)
  · simp only
    split
    · exact .fails (by decide)
    · rename_i hrange
      rw [not_or, not_lt, not_lt] at hrange
      exact h hrange.1 hrange.2

theorem serves_giveInt {value : ℤ} (h : Serves dev cmd arg (dev, ⟨0, some value⟩)) :
    Serves dev cmd arg (giveInt dev f value) := by
  unfold giveInt
  split
  · exact .fails (by decide)
  · exact h

/-- An ioctl does nothing else. -/
theorem serves (dev : MyioctlDev) (f : Fault) (cmd arg : BitVec 32) :
    Serves dev cmd arg (devIoctl dev f cmd arg) := by
  unfold devIoctl
  split
  · exact .fails (by decide)
  split
  · exact serves_takeInt (.setSpeed ‹_›)
  split
  · exact serves_giveInt (.getSpeed ‹_›)
  split
  · exact serves_takeInt (.setMode ‹_›)
  split
  · exact serves_giveInt (.getMode ‹_›)
  split
  · exact .reset ‹_›
  split
  · exact serves_giveInt (.getVersion ‹_›)
  · exact .fails (by decide)

/-! ### The ranges -/

/-- The registers and the size are in their ranges. -/
structure InRange (dev : MyioctlDev) : Prop where
  speed : 0 ≤ dev.speed ∧ dev.speed ≤ 1000
  mode : 0 ≤ dev.mode ∧ dev.mode ≤ 3
  size : 0 ≤ dev.bufferSize ∧ dev.bufferSize ≤ (bufLen - 1 : ℕ)

theorem inRange_ioctl (h : InRange dev) (f : Fault) (cmd arg : BitVec 32) :
    InRange (devIoctl dev f cmd arg).1 := by
  have hs := serves dev f cmd arg
  generalize devIoctl dev f cmd arg = r at hs
  cases hs with
  | setSpeed _ hlow hhigh => exact ⟨⟨hlow, hhigh⟩, h.mode, h.size⟩
  | setMode _ hlow hhigh => exact ⟨h.speed, ⟨hlow, hhigh⟩, h.size⟩
  | reset =>
    have h0 : (0 : ℤ) ≤ 0 ∧ (0 : ℤ) ≤ 1000 ∧ (0 : ℤ) ≤ 3 ∧ (0 : ℤ) ≤ (bufLen - 1 : ℕ) := by decide
    exact ⟨⟨h0.1, h0.2.1⟩, ⟨h0.1, h0.2.2.1⟩, ⟨h0.1, h0.2.2.2⟩⟩
  | _ => exact h

theorem inRange_preserved : device.Preserves InRange := by
  intro dev call h
  cases call with
  | read len offset f => exact h
  | write data f =>
    have hw := (writes_size (Msg.empty bufLen) dev.buffer 0 data f (by decide) (by decide)).1
    exact ⟨h.speed, h.mode, hw.fits⟩
  | ioctl cmd arg f => exact inRange_ioctl h f cmd arg

/-! ### The last writer -/

/-- What a successful `SET` (`set`) or `RESET` writes to a register. -/
def writes (set : BitVec 32) : Call → Answer → Option ℤ
  | .ioctl cmd arg _, .reply r =>
    if r.ret ≠ 0 then none
    else if cmd = set then some arg.toInt
    else if cmd = ioctlReset then some 0
    else none
  | _, _ => none

theorem writes_failed {set : BitVec 32} {errno : ℤ} (he : 0 < errno) {out : Option ℤ} :
    writes set (.ioctl cmd arg f) (.reply ⟨-errno, out⟩) = none :=
  if_pos (by show -errno ≠ 0; omega)

/-- A call leaves in each register what it writes there, or what was there. -/
theorem registers_next (dev : MyioctlDev) (call : Call) :
    (device dev call).1.speed = (writes ioctlSetSpeed call (device dev call).2).getD dev.speed ∧
    (device dev call).1.mode = (writes ioctlSetMode call (device dev call).2).getD dev.mode := by
  cases call with
  | ioctl cmd arg f =>
    have hs := serves dev f cmd arg
    simp only [device]
    generalize devIoctl dev f cmd arg = r at hs ⊢
    cases hs with
    | fails he => rw [writes_failed he, writes_failed he]; exact ⟨rfl, rfl⟩
    | setSpeed hc _ _ | getSpeed hc | setMode hc _ _ | getMode hc | reset hc | getVersion hc =>
      subst hc; exact ⟨rfl, rfl⟩
  | _ => exact ⟨rfl, rfl⟩

/-- The history of a run from the loaded module: its calls with their answers. -/
def history (calls : List Call) : List (Call × Answer) := calls.zip (device.run init calls).2

/-- What a command delivers when it succeeds. -/
def delivers (dev : MyioctlDev) (cmd : BitVec 32) : Option ℤ :=
  if cmd = ioctlGetSpeed then some dev.speed
  else if cmd = ioctlGetMode then some dev.mode
  else if cmd = ioctlGetVersion then some driverVersion
  else none

theorem delivers_of_ret (h0 : (devIoctl dev f cmd arg).2.ret = 0) :
    (devIoctl dev f cmd arg).2.out = delivers dev cmd := by
  have hs := serves dev f cmd arg
  generalize devIoctl dev f cmd arg = x at hs h0 ⊢
  cases hs with
  | fails he => exact absurd h0 (by show -_ ≠ 0; omega)
  | setSpeed hc _ _ | getSpeed hc | setMode hc _ _ | getMode hc | reset hc | getVersion hc =>
    subst hc; rfl

/-! ### What a call leaves alone -/

/-- What the calls leave alone on a device. -/
structure Frames (dev : MyioctlDev) : Prop where
  setSpeed : ∀ arg f, ∃ v, (devIoctl dev f ioctlSetSpeed arg).1 = { dev with speed := v }
  setMode : ∀ arg f, ∃ v, (devIoctl dev f ioctlSetMode arg).1 = { dev with mode := v }
  gets : ∀ cmd ∈ [ioctlGetSpeed, ioctlGetMode, ioctlGetVersion], ∀ arg f,
    (devIoctl dev f cmd arg).1 = dev
  read : ∀ len offset f, (device dev (.read len offset f)).1 = dev
  write : ∀ data f, (device dev (.write data f)).1.speed = dev.speed ∧
    (device dev (.write data f)).1.mode = dev.mode
  failed : ∀ cmd arg f, (devIoctl dev f cmd arg).2.ret ≠ 0 → (devIoctl dev f cmd arg).1 = dev
  unknown : ∀ cmd arg f, cmd ∉ [ioctlSetSpeed, ioctlGetSpeed, ioctlSetMode, ioctlGetMode,
    ioctlReset, ioctlGetVersion] → devIoctl dev f cmd arg = (dev, ⟨-ENOTTY, none⟩)

theorem frames (dev : MyioctlDev) : Frames dev where
  setSpeed arg f := by
    have hs := serves dev f ioctlSetSpeed arg
    generalize devIoctl dev f ioctlSetSpeed arg = r at hs
    cases hs with
    | setSpeed => exact ⟨_, rfl⟩
    | reset hc => exact absurd hc (by decide)
    | setMode hc _ _ => exact absurd hc (by decide)
    | _ => exact ⟨dev.speed, rfl⟩
  setMode arg f := by
    have hs := serves dev f ioctlSetMode arg
    generalize devIoctl dev f ioctlSetMode arg = r at hs
    cases hs with
    | setMode => exact ⟨_, rfl⟩
    | reset hc => exact absurd hc (by decide)
    | setSpeed hc _ _ => exact absurd hc (by decide)
    | _ => exact ⟨dev.mode, rfl⟩
  gets cmd hcmd arg f := by
    have hs := serves dev f cmd arg
    generalize devIoctl dev f cmd arg = r at hs
    cases hs with
    | setSpeed hc _ _ | setMode hc _ _ | reset hc =>
      subst hc
      exact absurd hcmd (by decide)
    | _ => rfl
  read _ _ _ := rfl
  write _ _ := ⟨rfl, rfl⟩
  failed cmd arg f hret := by
    have hs := serves dev f cmd arg
    generalize devIoctl dev f cmd arg = r at hs hret
    cases hs with
    | fails => rfl
    | _ => exact absurd rfl hret
  unknown cmd arg f hcmd := by
    simp only [List.mem_cons, List.not_mem_nil, or_false, not_or] at hcmd
    obtain ⟨h1, h2, h3, h4, h5, h6⟩ := hcmd
    simp only [devIoctl, h1, h2, h3, h4, h5, h6, if_false, ite_self]

/-- REGISTERS: in every run from the loaded module the registers and the size stay in range; a
    `GET_SPEED` (`GET_MODE`) that returns `0` delivers what the last writer in the history stored,
    a successful `SET` or a `RESET`, or the first value; and every call leaves alone what is not
    its own, with an ioctl that fails leaving all as it was. -/
theorem ioctl_registers (calls : List Call) :
    InRange (device.run init calls).1 ∧
    (∀ arg f, (devIoctl (device.run init calls).1 f ioctlGetSpeed arg).2.ret = 0 →
      (devIoctl (device.run init calls).1 f ioctlGetSpeed arg).2.out =
        some ((Machine.lastWrite (writes ioctlSetSpeed) (history calls)).getD init.speed)) ∧
    (∀ arg f, (devIoctl (device.run init calls).1 f ioctlGetMode arg).2.ret = 0 →
      (devIoctl (device.run init calls).1 f ioctlGetMode arg).2.out =
        some ((Machine.lastWrite (writes ioctlSetMode) (history calls)).getD init.mode)) ∧
    Frames (device.run init calls).1 := by
  have hinit : InRange init := ⟨by decide, by decide, by decide⟩
  refine ⟨inRange_preserved.run hinit calls, ?_, ?_, frames _⟩
  · intro arg f h0
    have hlast := Machine.last_writer MyioctlDev.speed (fun dev call => (registers_next dev call).1)
      init calls
    rw [delivers_of_ret h0]
    exact congrArg some hlast
  · intro arg f h0
    have hlast := Machine.last_writer MyioctlDev.mode (fun dev call => (registers_next dev call).2)
      init calls
    rw [delivers_of_ret h0]
    exact congrArg some hlast

end Ldd.Ioctl

import LddSandbox.Ioctl.Registers

/-! What `04-char-dev-ioctl` is for: a panel with two registers and a message, each of which can
    only hold what it may. A command is its number, and no number but those six is one.

        number ── ofNumber ──▶ some command   ▶ perform
                           └─▶ none           ▶ -ENOTTY

    The device shows the panel on every call that the VFS lets through (`panel_shown`). -/

namespace Ldd.Ioctl
open Ldd.Schemes Ldd.Kernel Ldd.Message Ldd.Message.CharDevIoctl

/-- An `int` register with the values up to `max`. -/
abbrev Register (max : ℤ) := { v : ℤ // 0 ≤ v ∧ v ≤ max }

structure Panel where
  speed : Register 1000
  mode : Register 3
  message : Msg bufLen

/-- The panel of a module that was just loaded. -/
def Panel.init : Panel := ⟨⟨100, by decide⟩, ⟨0, by decide⟩, Msg.empty bufLen⟩

inductive Command | setSpeed | getSpeed | setMode | getMode | reset | getVersion
  deriving DecidableEq, Repr

namespace Command

def all : List Command := [setSpeed, getSpeed, setMode, getMode, reset, getVersion]

def number : Command → BitVec 32
  | setSpeed => ioctlSetSpeed
  | getSpeed => ioctlGetSpeed
  | setMode => ioctlSetMode
  | getMode => ioctlGetMode
  | reset => ioctlReset
  | getVersion => ioctlGetVersion

/-- The command of a number, if it is one. -/
def ofNumber (cmd : BitVec 32) : Option Command := all.find? fun c => c.number = cmd

theorem mem_all (c : Command) : c ∈ all := by cases c <;> decide

theorem number_of_ofNumber {cmd : BitVec 32} {c : Command} (h : ofNumber cmd = some c) :
    c.number = cmd := by
  rw [ofNumber] at h
  simpa using List.find?_some h

theorem number_ne {cmd : BitVec 32} (h : ofNumber cmd = none) (c : Command) : cmd ≠ c.number := by
  have hne := List.find?_eq_none.mp h c (mem_all c)
  exact fun heq => hne (decide_eq_true heq.symm)

end Command

namespace Panel
variable (p : Panel) (f : Fault)

/-- Takes an `int` from the user, if a register may hold it. -/
def take {max : ℤ} (store : Register max → Panel) (arg : BitVec 32) : Panel × Reply :=
  if f.uncopied sizeofInt ≠ 0 then (p, ⟨-EFAULT, none⟩)
  else if h : 0 ≤ arg.toInt ∧ arg.toInt ≤ max then (store ⟨arg.toInt, h⟩, ⟨0, none⟩)
  else (p, ⟨-EINVAL, none⟩)

def give (value : ℤ) : Panel × Reply :=
  if f.uncopied sizeofInt ≠ 0 then (p, ⟨-EFAULT, none⟩) else (p, ⟨0, some value⟩)

def perform (arg : BitVec 32) : Command → Panel × Reply
  | .setSpeed => p.take f (fun v => { p with speed := v }) arg
  | .getSpeed => p.give f p.speed
  | .setMode => p.take f (fun v => { p with mode := v }) arg
  | .getMode => p.give f p.mode
  | .reset => (⟨⟨0, by decide⟩, ⟨0, by decide⟩, Msg.empty bufLen⟩, ⟨0, none⟩)
  | .getVersion => p.give f driverVersion

def ioctl (cmd arg : BitVec 32) : Panel × Reply :=
  match Command.ofNumber cmd with
  | some c => p.perform f arg c
  | none => (p, ⟨-ENOTTY, none⟩)

end Panel

/-- The panel as a machine of reads, writes and ioctls. -/
def panel : Machine Panel Call Answer
  | p, .read len offset f => (p, .read (p.message.read len offset f))
  | p, .write data f =>
    let (message, ret) := p.message.write data f
    ({ p with message := message }, .wrote ret)
  | p, .ioctl cmd arg f =>
    let (p, r) := p.ioctl f cmd arg
    (p, .reply r)

/-- What the VFS lets through to the device. -/
def Call.admitted : Call → Bool
  | .read len offset _ => admits offset len
  | .write data _ => decide (data.length ≤ maxRwCount)
  | .ioctl _ _ _ => true

/-- The device holds what the panel shows. -/
structure PanelShown (p : Panel) (dev : MyioctlDev) : Prop where
  speed : dev.speed = p.speed.1
  mode : dev.mode = p.mode.1
  message : Holds p.message dev.buffer 0 dev.bufferSize

variable {p : Panel} {dev : MyioctlDev} {f : Fault} {cmd arg : BitVec 32}

theorem panelShown_init : PanelShown .init CharDevIoctl.init := ⟨rfl, rfl, holds_empty⟩

/-- A step of the device beside one of the panel. -/
def Beside (r : Panel × Reply) (r' : MyioctlDev × Reply) : Prop := PanelShown r.1 r'.1 ∧ r'.2 = r.2

theorem PanelShown.take (h : PanelShown p dev) {max : ℤ} (store : Register max → Panel)
    (store' : ℤ → MyioctlDev) (hs : ∀ v, PanelShown (store v) (store' v.1)) (arg : BitVec 32) :
    Beside (p.take f store arg) (takeInt dev f max store' arg) := by
  unfold Panel.take takeInt
  split
  · exact ⟨h, rfl⟩
  · by_cases hrange : 0 ≤ arg.toInt ∧ arg.toInt ≤ max
    · rw [dif_pos hrange]
      simp only
      rw [if_neg (by omega)]
      exact ⟨hs ⟨arg.toInt, hrange⟩, rfl⟩
    · rw [dif_neg hrange]
      simp only
      rw [if_pos (by omega)]
      exact ⟨h, rfl⟩

theorem PanelShown.give (h : PanelShown p dev) {v v' : ℤ} (hv : v' = v) :
    Beside (p.give f v) (giveInt dev f v') := by
  subst hv
  unfold Panel.give giveInt
  split <;> exact ⟨h, rfl⟩

/-- Each command does to the device what it does to the panel. -/
theorem PanelShown.perform (h : PanelShown p dev) (c : Command) :
    Beside (p.perform f arg c) (devIoctl dev f c.number arg) := by
  cases c with
  | setSpeed =>
    exact h.take (fun v => { p with speed := v })
      (fun temp => { dev with speed := temp }) (fun _ => ⟨rfl, h.mode, h.message⟩) arg
  | getSpeed => exact h.give h.speed
  | setMode =>
    exact h.take (fun v => { p with mode := v })
      (fun temp => { dev with mode := temp }) (fun _ => ⟨h.speed, rfl, h.message⟩) arg
  | getMode => exact h.give h.mode
  | reset => exact ⟨⟨rfl, rfl, holds_empty⟩, rfl⟩
  | getVersion => exact h.give rfl

/-- Any other number is turned down. -/
theorem devIoctl_unknown (h : ∀ c : Command, cmd ≠ c.number) :
    devIoctl dev f cmd arg = (dev, ⟨-ENOTTY, none⟩) := by
  have hset : cmd ≠ ioctlSetSpeed := h .setSpeed
  have hget : cmd ≠ ioctlGetSpeed := h .getSpeed
  have hset' : cmd ≠ ioctlSetMode := h .setMode
  have hget' : cmd ≠ ioctlGetMode := h .getMode
  have hreset : cmd ≠ ioctlReset := h .reset
  have hversion : cmd ≠ ioctlGetVersion := h .getVersion
  unfold devIoctl
  rw [if_neg hset, if_neg hget, if_neg hset', if_neg hget', if_neg hreset, if_neg hversion, ite_self]

theorem PanelShown.ioctl (h : PanelShown p dev) :
    Beside (p.ioctl f cmd arg) (devIoctl dev f cmd arg) := by
  unfold Panel.ioctl
  split
  · rename_i c hc
    rw [← Command.number_of_ofNumber hc]
    exact h.perform c
  · rename_i hnone
    rw [devIoctl_unknown (Command.number_ne hnone)]
    exact ⟨h, rfl⟩

/-- One call that the VFS lets through. -/
theorem panel_shown (h : PanelShown p dev) {c : Call} (hc : c.admitted = true) :
    PanelShown (panel p c).1 (device dev c).1 ∧ (device dev c).2 = (panel p c).2 := by
  cases c with
  | read len offset f =>
    have hread := CharDevIoctl.shows.read f h.message hc
    exact ⟨h, congrArg Answer.read hread⟩
  | write data f =>
    obtain ⟨hmsg, hret⟩ := CharDevIoctl.shows.write f h.message (of_decide_eq_true hc)
    exact ⟨⟨h.speed, h.mode, hmsg⟩, congrArg Answer.wrote hret⟩
  | ioctl cmd arg f =>
    obtain ⟨hshown, hreply⟩ := h.ioctl
    exact ⟨hshown, congrArg Answer.reply hreply⟩

end Ldd.Ioctl

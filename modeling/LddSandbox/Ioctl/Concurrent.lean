import LddSandbox.Ioctl.Panel
import LddSandbox.Message.Contained
import LddSandbox.Schemes.Commits

/-! `dev_ioctl` of `04-char-dev-ioctl` beside itself: `unlocked_ioctl` runs without a lock, in any
    number of processes at once, and beside `dev_read` and `dev_write`.

        SET:     take (temp, its range) ─▶ store        the register is stored once, checked before
        GET:     give                                   the register is loaded once
        RESET:   speed ─▶ mode ─▶ storeSize ─▶ clear    four stores, others may come in between

    Each `SET` and `GET` acts on its register in one step, so in any interleaving the registers are
    those of a device that serves one ioctl at a time, with a `RESET` cut into its two stores
    (`registers_linear`). -/

namespace Ldd.Ioctl.Concurrent
open Ldd.Schemes Ldd.Kernel Ldd.Message Ldd.Message.CharDevIoctl

inductive Reg | speed | mode
  deriving DecidableEq, Repr

namespace Reg

/-- The command that stores the register, and the greatest value that it takes. -/
def set : Reg → BitVec 32
  | speed => ioctlSetSpeed
  | mode => ioctlSetMode

def max : Reg → ℤ
  | speed => 1000
  | mode => 3

end Reg

/-- The commands that give a register, or the version. -/
def get : Option Reg → BitVec 32
  | some .speed => ioctlGetSpeed
  | some .mode => ioctlGetMode
  | none => ioctlGetVersion

/-- What the calls share of the device. -/
structure Shared where
  message : Race.Shared
  speed : ℤ
  mode : ℤ

namespace Shared
variable (s : Shared)

def load : Reg → ℤ
  | .speed => s.speed
  | .mode => s.mode

/-- What a command gives. -/
def value (r : Option Reg) : ℤ := r.elim driverVersion s.load

def store (v : ℤ) : Reg → Shared
  | .speed => { s with speed := v }
  | .mode => { s with mode := v }

end Shared

/-- Where a process is: outside the driver, in a read, in a write or in a reset, or in another
    ioctl; `f` is how the copy of its `int` ended. -/
inductive Pc
  | message (k : Race.Pc)
  | dispatch (cmd arg : BitVec 32)
  | take (r : Reg) (arg : BitVec 32)
  | store (r : Reg) (arg : BitVec 32) (f : Fault)
  | give (r : Option Reg) (arg : BitVec 32)

/-- What the environment decides: how a copy ends, and the call an idle process makes. -/
structure Choice where
  message : Race.Choice := {}
  ioctl : Option (BitVec 32 × BitVec 32) := none

instance : Inhabited Choice := ⟨{}⟩

/-- What a step shows: a step of a read, a write or a reset, the call of an ioctl, a register that
    a reset clears, or what an ioctl gives. -/
inductive Act
  | message (a : Race.Act)
  | tau
  | call (cmd arg : BitVec 32)
  | clears (r : Reg)
  | reply (cmd arg : BitVec 32) (f : Fault) (r : Reply)

/-- The process is outside the driver. -/
def idle : Pc := .message .idle

/-- The switch of `dev_ioctl`. -/
def dispatch (s : Shared) (f : Fault) (cmd arg : BitVec 32) : Shared × Pc × Act :=
  if iocType cmd ≠ BitVec.ofNat 32 ioctlMagic then
    (s, idle, .reply cmd arg f ⟨-ENOTTY, none⟩)
  else if cmd = ioctlSetSpeed then (s, .take .speed arg, .tau)
  else if cmd = ioctlGetSpeed then (s, .give (some .speed) arg, .tau)
  else if cmd = ioctlSetMode then (s, .take .mode arg, .tau)
  else if cmd = ioctlGetMode then (s, .give (some .mode) arg, .tau)
  else if cmd = ioctlReset then (s, .message (.reset .speed), .tau)
  else if cmd = ioctlGetVersion then (s, .give none arg, .tau)
  else (s, idle, .reply cmd arg f ⟨-ENOTTY, none⟩)

/-- `copy_from_user(&temp, ..)` and the check of `temp`. -/
def take (s : Shared) (f : Fault) (r : Reg) (arg : BitVec 32) : Shared × Pc × Act :=
  if f.uncopied sizeofInt ≠ 0 then (s, idle, .reply r.set arg f ⟨-EFAULT, none⟩)
  else if arg.toInt < 0 ∨ arg.toInt > r.max then (s, idle, .reply r.set arg f ⟨-EINVAL, none⟩)
  else (s, .store r arg f, .tau)

/-- `copy_to_user(.., &dev->speed, ..)`, of the mode, or of the version. -/
def give (s : Shared) (f : Fault) (r : Option Reg) (arg : BitVec 32) : Shared × Pc × Act :=
  if f.uncopied sizeofInt ≠ 0 then (s, idle, .reply (get r) arg f ⟨-EFAULT, none⟩)
  else (s, idle, .reply (get r) arg f ⟨0, some (s.value r)⟩)

/-- A step on the message. -/
def lift {ι : Type} (p : ι) (g : Race.Choice) (s : Shared) (k : Race.Pc) :
    Option (Shared × Pc × Act) :=
  ((Race.fops ι .charDevIoctl).next p g s.message k).map fun x =>
    ({ s with message := x.1 }, .message x.2.1, .message x.2.2)

/-- A step of a read, a write or a reset, which is begun by `dispatch` alone; a reset clears the
    registers at its first two points. -/
def message {ι : Type} (p : ι) (g : Race.Choice) (s : Shared) :
    Race.Pc → Option (Shared × Pc × Act)
  | .idle => if g.call = .reset then none else lift p g s .idle
  | .reset .speed => some (s.store 0 .speed, .message (.reset .mode), .clears .speed)
  | .reset .mode => some (s.store 0 .mode, .message (.reset .storeSize), .clears .mode)
  | k => lift p g s k

/-- The driver as a program of its processes. -/
def fops (ι : Type) : Program ι Shared Pc Choice Act where
  next p g s
    | .message .idle => match g.ioctl with
      | some (cmd, arg) => some (s, .dispatch cmd arg, .call cmd arg)
      | none => message p g.message s .idle
    | .message k => message p g.message s k
    | .dispatch cmd arg => some (dispatch s g.message.fault cmd arg)
    | .take r arg => some (take s g.message.fault r arg)
    | .store r arg f => some (s.store arg.toInt r, idle, .reply r.set arg f ⟨0, none⟩)
    | .give r arg => some (give s g.message.fault r arg)
  hear _ k := k

/-- The device as `chardev_init` leaves it, every process outside the driver. -/
def loaded (ι : Type) : Conf ι Shared Pc :=
  ⟨⟨Race.Driver.init .charDevIoctl, CharDevIoctl.init.speed, CharDevIoctl.init.mode⟩, fun _ => idle⟩

/-! ### One ioctl at a time -/

/-- What is done to the registers: an ioctl, or one of the two stores of a `RESET`. -/
inductive Op
  | ioctl (cmd arg : BitVec 32) (f : Fault)
  | clear (r : Reg)

/-- The registers of a device that serves one ioctl at a time. -/
def registers : Machine (ℤ × ℤ) Op (Option Reply)
  | (speed, mode), .ioctl cmd arg f =>
    let (dev, r) := devIoctl ⟨speed, mode, fun _ => 0, 0⟩ f cmd arg
    ((dev.speed, dev.mode), some r)
  | (_, mode), .clear .speed => ((0, mode), none)
  | (speed, _), .clear .mode => ((speed, 0), none)

/-- The step at which an ioctl acts on the registers. -/
def commit : Act → Option (Op × Option Reply)
  | .reply cmd arg f r => some (.ioctl cmd arg f, some r)
  | .clears r => some (.clear r, none)
  | _ => none

/-- The registers of what is shared. -/
def Shared.registers (s : Shared) : ℤ × ℤ := (s.speed, s.mode)

/-- A value that is about to be stored was copied and checked. -/
def Pc.Checked : Pc → Prop
  | .store r arg f => f.uncopied sizeofInt = 0 ∧ ¬ (arg.toInt < 0 ∨ arg.toInt > r.max)
  | _ => True

/-- What a step leaves: a checked point, and its commit done to the registers. -/
def Served (s : Shared) (x : Shared × Pc × Act) : Prop :=
  x.2.1.Checked ∧ Commits registers s.registers x.1.registers (commit x.2.2)

variable {ι : Type} {p : ι} {g : Choice} {s s' : Shared} {k k' : Pc} {e : Act}
variable {f : Fault} {cmd arg : BitVec 32} {r : Reg}

/-- A command that is turned down leaves the registers. -/
theorem served_refused {errno : ℤ} (h : ∀ dev, devIoctl dev f cmd arg = (dev, ⟨-errno, none⟩)) :
    Served s (s, idle, .reply cmd arg f ⟨-errno, none⟩) := by
  refine ⟨trivial, ?_⟩
  show registers s.registers (.ioctl cmd arg f) = _
  simp only [registers, Shared.registers, h]

theorem served_dispatch : Served s (dispatch s f cmd arg) := by
  unfold dispatch
  split
  · rename_i hmagic
    exact served_refused fun dev => if_pos hmagic
  iterate 6 (split; · exact ⟨trivial, rfl⟩)
  rename_i hset hget hset' hget' hreset hversion
  refine served_refused fun dev => devIoctl_unknown fun c => ?_
  cases c <;> assumption

theorem devIoctl_set (dev : MyioctlDev) : devIoctl dev f r.set arg = takeInt dev f r.max
    (fun temp => match r with
      | .speed => { dev with speed := temp }
      | .mode => { dev with mode := temp }) arg := by cases r <;> rfl

theorem served_take : Served s (take s f r arg) := by
  unfold take
  split
  · rename_i hf
    refine served_refused fun dev => ?_
    rw [devIoctl_set]
    exact if_pos hf
  · rename_i hf
    split
    · rename_i hrange
      refine served_refused fun dev => ?_
      rw [devIoctl_set, takeInt, if_neg hf]
      exact if_pos hrange
    · rename_i hrange
      exact ⟨⟨not_not.mp hf, hrange⟩, rfl⟩

theorem served_store (h : (Pc.store r arg f).Checked) :
    Served s (s.store arg.toInt r, idle, .reply r.set arg f ⟨0, none⟩) := by
  obtain ⟨hf, hrange⟩ := h
  refine ⟨trivial, ?_⟩
  show registers s.registers (.ioctl r.set arg f) = _
  have htake : ∀ dev store, takeInt dev f r.max store arg = (store arg.toInt, ⟨0, none⟩) := by
    intro dev store
    rw [takeInt, if_neg (not_not.mpr hf)]
    exact if_neg hrange
  simp only [registers, Shared.registers, devIoctl_set, htake]
  cases r <;> rfl

theorem served_give {r : Option Reg} : Served s (give s f r arg) := by
  have hget : ∀ dev : MyioctlDev, devIoctl dev f (get r) arg = giveInt dev f (match r with
      | some .speed => dev.speed
      | some .mode => dev.mode
      | none => driverVersion) := by
    intro dev
    rcases r with _ | _ | _ <;> rfl
  unfold give
  split
  · rename_i hf
    refine served_refused fun dev => ?_
    rw [hget]
    exact if_pos hf
  · rename_i hf
    refine ⟨trivial, ?_⟩
    show registers s.registers (.ioctl (get r) arg f) = _
    simp only [registers, Shared.registers, hget, giveInt, if_neg hf]
    rcases r with _ | _ | _ <;> rfl

theorem served_lift {km : Race.Pc} {x : Shared × Pc × Act} (h : lift p g.message s km = some x) :
    Served s x := by
  obtain ⟨y, -, rfl⟩ := Option.map_eq_some_iff.mp h
  exact ⟨trivial, rfl⟩

/-- A step of a read or a write leaves the registers, and a reset clears them. -/
theorem served_message {km : Race.Pc} {x : Shared × Pc × Act}
    (h : message p g.message s km = some x) : Served s x := by
  cases km with
  | idle =>
    simp only [message, Option.ite_none_left_eq_some] at h
    exact served_lift h.2
  | reset k =>
    cases k with
    | speed => cases h; exact ⟨trivial, rfl⟩
    | mode => cases h; exact ⟨trivial, rfl⟩
    | _ => exact served_lift (p := p) (g := g) h
  | _ => exact served_lift (p := p) (g := g) h

/-- Every step. -/
theorem served_next (hk : k.Checked) (h : (fops ι).next p g s k = some (s', k', e)) :
    Served s (s', k', e) := by
  cases k with
  | message km =>
    have hmsg : message p g.message s km = some (s', k', e) ∨
        ∃ cmd arg, (s', k', e) = (s, .dispatch cmd arg, .call cmd arg) := by
      cases km with
      | idle =>
        simp only [fops] at h
        split at h
        · exact .inr ⟨_, _, (Option.some.inj h).symm⟩
        · exact .inl h
      | _ => exact .inl h
    rcases hmsg with hmsg | ⟨cmd, arg, heq⟩
    · exact served_message hmsg
    · cases heq
      exact ⟨trivial, rfl⟩
  | dispatch cmd arg => exact Option.some.inj h ▸ served_dispatch
  | take r arg => exact Option.some.inj h ▸ served_take
  | store r arg f => exact Option.some.inj h ▸ served_store hk
  | give r arg => exact Option.some.inj h ▸ served_give

/-! ### The ranges -/

/-- The registers are in their ranges. -/
def Ranged (x : ℤ × ℤ) : Prop := (0 ≤ x.1 ∧ x.1 ≤ 1000) ∧ 0 ≤ x.2 ∧ x.2 ≤ 3

theorem registers_ranged : registers.Preserves Ranged := by
  rintro ⟨speed, mode⟩ op h
  cases op with
  | ioctl cmd arg f =>
    have hsize : (0 : ℤ) ≤ 0 ∧ (0 : ℤ) ≤ (bufLen - 1 : ℕ) := by decide
    have hdev : InRange ⟨speed, mode, fun _ => 0, 0⟩ := ⟨h.1, h.2, hsize⟩
    have hnext := inRange_ioctl hdev f cmd arg
    exact ⟨hnext.speed, hnext.mode⟩
  | clear r =>
    cases r with
    | speed => exact ⟨(by decide : (0 : ℤ) ≤ 0 ∧ (0 : ℤ) ≤ 1000), h.2⟩
    | mode => exact ⟨h.1, (by decide : (0 : ℤ) ≤ 0 ∧ (0 : ℤ) ≤ 3)⟩

/-! ### The message

Seen without its registers, the driver is the one of reads, writes and resets. -/

/-- A process in an ioctl other than a reset is outside, as far as the message goes. -/
def Pc.onMessage : Pc → Race.Pc
  | .message k => k
  | _ => .idle

def onMessage (c : Conf ι Shared Pc) : Conf ι Race.Shared Race.Pc :=
  ⟨c.shared.message, fun r => (c.pc r).onMessage⟩

/-- What a step does to the message: nothing, or what a step of the other program does. -/
def Moves (p : ι) (s : Shared) (k : Pc) (x : Shared × Pc × Act) : Prop :=
  (x.1.message = s.message ∧ x.2.1.onMessage = k.onMessage) ∨
    ∃ g a, (Race.fops ι .charDevIoctl).next p g s.message k.onMessage =
      some (x.1.message, x.2.1.onMessage, a)

theorem moves_lift {km : Race.Pc} {x : Shared × Pc × Act} (h : lift p g.message s km = some x) :
    Moves p s (.message km) x := by
  obtain ⟨y, hy, rfl⟩ := Option.map_eq_some_iff.mp h
  exact .inr ⟨_, _, hy⟩

theorem moves_message {km : Race.Pc} {x : Shared × Pc × Act}
    (h : message p g.message s km = some x) : Moves p s (.message km) x := by
  cases km with
  | idle =>
    simp only [message, Option.ite_none_left_eq_some] at h
    exact moves_lift h.2
  | reset k =>
    cases k with
    | speed => cases h; exact .inr ⟨{}, _, rfl⟩
    | mode => cases h; exact .inr ⟨{}, _, rfl⟩
    | _ => exact moves_lift (g := g) h
  | _ => exact moves_lift (g := g) h

theorem moves_dispatch : Moves p s (.dispatch cmd arg) (dispatch s f cmd arg) := by
  unfold dispatch
  iterate 5 (split; · exact .inl ⟨rfl, rfl⟩)
  split
  · -- a reset is begun
    exact .inr ⟨{ call := .reset }, _, rfl⟩
  · split <;> exact .inl ⟨rfl, rfl⟩

theorem moves_next (h : (fops ι).next p g s k = some (s', k', e)) : Moves p s k (s', k', e) := by
  cases k with
  | message km =>
    have hmsg : message p g.message s km = some (s', k', e) ∨
        km = .idle ∧ ∃ cmd arg, (s', k', e) = (s, .dispatch cmd arg, .call cmd arg) := by
      cases km with
      | idle =>
        simp only [fops] at h
        split at h
        · exact .inr ⟨rfl, _, _, (Option.some.inj h).symm⟩
        · exact .inl h
      | _ => exact .inl h
    rcases hmsg with hmsg | ⟨rfl, cmd, arg, heq⟩
    · exact moves_message hmsg
    · cases heq
      exact .inl ⟨rfl, rfl⟩
  | dispatch cmd arg => exact Option.some.inj h ▸ moves_dispatch
  | take r arg =>
    rw [← Option.some.inj h]
    unfold take
    split
    · exact .inl ⟨rfl, rfl⟩
    · split <;> exact .inl ⟨rfl, rfl⟩
  | store r arg f =>
    cases h
    exact .inl ⟨by cases r <;> rfl, rfl⟩
  | give r arg =>
    rw [← Option.some.inj h]
    unfold give
    split <;> exact .inl ⟨rfl, rfl⟩

variable [DecidableEq ι] {tr : List (ι × Act)} {c : Conf ι Shared Pc}

/-- Every run of the driver is one of its reads, writes and resets. -/
theorem onMessage_run (hrun : (fops ι).Run anyStep (loaded ι) tr c) :
    ∃ tr', (Race.fops ι .charDevIoctl).Run anyStep (Race.loaded ι .charDevIoctl) tr'
      (onMessage c) := by
  induction hrun with
  | start => exact ⟨[], .start⟩
  | @step tr c p g e c' _ _ hf ih =>
    obtain ⟨tr', hrun'⟩ := ih
    obtain ⟨hn, hothers⟩ := Program.fire_spec hf
    have hrest : ∀ r, r ≠ p → (c'.pc r).onMessage = (c.pc r).onMessage := fun r hr =>
      congrArg Pc.onMessage (hothers r hr)
    rcases moves_next hn with ⟨hmsg, hpc⟩ | ⟨g', a, hnext⟩
    · have hsame : onMessage c' = onMessage c := by
        refine congrArg₂ Conf.mk hmsg ?_
        funext r
        rcases eq_or_ne r p with rfl | hr
        · exact hpc
        · exact hrest r hr
      exact ⟨tr', hsame ▸ hrun'⟩
    · have hfire : (Race.fops ι .charDevIoctl).fire p g' (onMessage c) = some (a, onMessage c') := by
        simp only [Program.fire, onMessage, hnext, Option.map_some, Option.some.injEq,
          Prod.mk.injEq, Conf.mk.injEq, true_and]
        funext r
        split
        · rename_i hr
          rw [hr]
        · rename_i hr
          exact (hrest r hr).symm
      exact ⟨_, hrun'.step trivial hfire⟩

/-! ### Every run -/

/-- LINEAR REGISTERS: in every interleaving of ioctls, reads and writes, with any commands, arguments
    and faults, the ioctls reply, and leave the registers, as if each acted at once where it replies
    and a `RESET` at its two stores; the registers and the size are in their ranges in every state,
    and no byte behind the buffer is ever changed. -/
theorem registers_linear (ι : Type) [DecidableEq ι] (tr : List (ι × Act)) (c : Conf ι Shared Pc)
    (hrun : (fops ι).Run anyStep (loaded ι) tr c) :
    registers.run (100, 0) ((commits commit tr).map Prod.fst) =
        (c.shared.registers, (commits commit tr).map Prod.snd) ∧
      Ranged c.shared.registers ∧ Race.Fits c.shared.message.bufferSize ∧
      Race.Untouched CharDevIoctl.init.buffer c.shared.message := by
  have hlin : registers.run (100, 0) ((commits commit tr).map Prod.fst) =
      (c.shared.registers, (commits commit tr).map Prod.snd) :=
    hrun.linear Shared.registers commit (fun _ => trivial)
      (fun _ _ _ _ _ _ _ hk hn => served_next hk hn) (fun _ _ hk => hk)
  have hstart : Ranged (100, 0) := ⟨by decide, by decide⟩
  have hranged := registers_ranged.run hstart ((commits commit tr).map Prod.fst)
  rw [hlin] at hranged
  obtain ⟨tr', hrun'⟩ := onMessage_run hrun
  exact ⟨hlin, hranged, Race.writes_inside .charDevIoctl tr' (onMessage c) hrun'⟩

/-- Process `true` sets the mode to 2 and gets half through a reset; process `false` asks for both
    registers. -/
def resetTorn : List (Bool × Choice) :=
  calls true { ioctl := some (ioctlSetMode, 2) } 3 ++
  calls true { ioctl := some (ioctlReset, 0) } 2 ++
  calls false { ioctl := some (ioctlGetSpeed, 0) } 2 ++
  calls false { ioctl := some (ioctlGetMode, 0) } 2

theorem resetTorn_runs : ((fops Bool).exec anyway resetTorn (loaded Bool)).isSome = true := by
  decide +kernel

/-- The speed is cleared already, the mode is not. -/
theorem registers_linear_resetTorn :
    let x := ((fops Bool).exec anyway resetTorn (loaded Bool)).get resetTorn_runs
    (commits commit x.1).map Prod.snd =
        [some ⟨0, none⟩, none, some ⟨0, some 0⟩, some ⟨0, some 2⟩] ∧
      registers.run (100, 0) ((commits commit x.1).map Prod.fst) =
        ((0, 2), (commits commit x.1).map Prod.snd) :=
  ⟨by decide +kernel,
    (registers_linear Bool _ _ (Program.Run.of_exec anyway_any resetTorn_runs)).1.trans
      (Prod.ext (by decide +kernel) rfl)⟩

end Ldd.Ioctl.Concurrent

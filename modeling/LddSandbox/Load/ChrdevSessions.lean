import LddSandbox.Kernel.Static
import LddSandbox.Load.Simple
import LddSandbox.Message.Isolation

/-! The modules of `02-char-device-driver` and `03-char-dev-multibuf` in use: loaded, called through
    files that are opened in the session, and unloaded, again and again. Their messages are static
    data, so each load finds them empty.

        02:   one message, and an offset for each open file
        03:   sixteen messages, one for each minor below DEV_MAX, and -ENODEV for every other -/

namespace Ldd.Load.Chrdev
open Ldd.Schemes Ldd.Kernel Ldd.Message Script Ledger ChrdevResource

/-! ### The minors of `03` -/

section Minors
open CharDevMultibuf

/-- Sixteen message devices, side by side. -/
def sixteen : Machine (Fin devMax → Msg bufLen) Call Answer
  | t, .read minor len offset f =>
    if admits offset len then
      if h : minor < devMax then (t, .read ((t ⟨minor, h⟩).read len offset f))
      else (t, .read ⟨-ENODEV, offset, []⟩)
    else (t, .refused)
  | t, .write minor offset data f =>
    if admits offset data.length then
      if h : minor < devMax then
        let (m, ret) := (t ⟨minor, h⟩).write data f
        (Function.update t ⟨minor, h⟩ m, .wrote ret)
      else (t, .wrote (-ENODEV))
    else (t, .refused)

/-- Each row holds the message of its minor. -/
def RowsHold (s : State) (t : Fin devMax → Msg bufLen) : Prop :=
  ∀ minor : Fin devMax, Holds (t minor) s.message (minor * bufLen) (s.messageSize minor)

theorem rowsHold_init : RowsHold CharDevMultibuf.init fun _ => Msg.empty bufLen :=
  fun _ => holds_empty

/-- A write to a minor: its row holds the new message, the others what they held. -/
theorem RowsHold.write {s : State} {t : Fin devMax → Msg bufLen} (h : RowsHold s t)
    (minor : Fin devMax) {data : List UInt8} (f : Fault) (hlen : data.length ≤ maxRwCount) :
    RowsHold (devWrite minor s data f).1 (Function.update t minor ((t minor).write data f).1) ∧
      (devWrite minor s data f).2 = ((t minor).write data f).2 := by
  obtain ⟨hm, hret⟩ := (shows minor).write f (h minor) hlen
  refine ⟨fun j => ?_, hret⟩
  rcases eq_or_ne j minor with rfl | hj
  · rw [Function.update_self]
    exact hm
  · have hne : (j : ℕ) ≠ minor := fun heq => hj (Fin.ext heq)
    obtain ⟨hsize, hrow⟩ := devWrite_row s data f hne
    rw [Function.update_of_ne hj, hsize]
    exact holds_row (h j) hrow

theorem minors_sixteen : minors.Simulation sixteen RowsHold := by
  intro s t c h
  cases c with
  | read minor len offset f =>
    simp only [minors, sixteen]
    split
    · rename_i ha
      split
      · rename_i hlt
        exact ⟨h, congrArg Answer.read ((shows ⟨minor, hlt⟩).read f (h ⟨minor, hlt⟩) ha)⟩
      · rename_i hge
        rw [(no_device (Nat.le_of_not_lt hge) s len offset [] f).1]
        exact ⟨h, rfl⟩
    · exact ⟨h, rfl⟩
  | write minor offset data f =>
    simp only [minors, sixteen]
    split
    · rename_i ha
      split
      · rename_i hlt
        obtain ⟨hrows, hret⟩ := h.write ⟨minor, hlt⟩ f (admits_len ha)
        exact ⟨hrows, congrArg Answer.wrote hret⟩
      · rename_i hge
        rw [(no_device (Nat.le_of_not_lt hge) s 0 0 data f).2]
        exact ⟨h, rfl⟩
    · exact ⟨h, rfl⟩

end Minors

/-! ### Sessions -/

/-- The module of `02`, with `message`, `message_size` and the offsets of the open files. -/
def deviceModule (φ : Type) := chrdevModule.withData
  ((CharDeviceDriver.init, fun _ => 0) : CharDeviceDriver.State × (φ → ℤ))

/-- The module of `03`, with `message` and `message_size`. -/
def multibufModule := chrdevModule.withData CharDevMultibuf.init

/-- Sessions of a module: it answers as a service does, every use of a resource was allowed, and
    nothing is left when it is not loaded. -/
def Serves {δ τ κ ο : Type} (m : Loadable ChrdevResource (ℤ × δ) (Except Errno Major))
    (D : Machine δ κ ο) (t₀ : τ) (N : Machine τ κ ο) : Prop :=
  ∀ mem asks,
    let r := (m.inUse (serveData chrdev D)).run (.boot mem) asks
    r.2 = ((service (ℤ × δ) m.fails (fun _ => t₀) N).run none asks).2 ∧
      Sound m.needs r.1.world.past ∧ (r.1.loaded = false → live r.1.world.past = [])

theorem serves_of_simulation {δ τ κ ο : Type} {image : δ} {D : Machine δ κ ο} {t₀ : τ}
    {N : Machine τ κ ο} {R : δ → τ → Prop} (hstart : R image t₀) (hsim : D.Simulation N R) :
    Serves (chrdevModule.withData image) D t₀ N := by
  intro mem asks
  have hpart : ∀ w : World ChrdevResource ℤ, held w → chrdev w.mem ∈ live w.past := by
    intro w hheld
    have hlive : live w.past = [chrdev w.mem] := hheld
    rw [hlive]
    exact List.mem_singleton_self _
  exact (chrdevModule_unwinds.offers hpart (fun _ hheld => hheld) hstart hsim).sessions mem asks

/-- SESSIONS: over every sequence of loads, whether the registration fails or not, unloads and
    calls, `02` is loaded and answers as one message device with its open files, and `03` as sixteen
    message devices that do not touch each other and no device at any other minor, all empty at
    every load; every use of a resource was allowed, and nothing is left by a module not loaded. -/
theorem chrdev_sessions (φ : Type) [DecidableEq φ] :
    Serves (deviceModule φ) (files φ CharDeviceDriver.ops)
        (Msg.empty CharDeviceDriver.bufLen, fun _ => 0)
        (files φ (Msg.ops CharDeviceDriver.bufLen)) ∧
      Serves multibufModule CharDevMultibuf.minors
        (fun _ => Msg.empty CharDevMultibuf.bufLen) sixteen :=
  ⟨serves_of_simulation ⟨holds_empty, rfl⟩ CharDeviceDriver.shows.simulation,
    serves_of_simulation rowsHold_init minors_sixteen⟩

end Ldd.Load.Chrdev

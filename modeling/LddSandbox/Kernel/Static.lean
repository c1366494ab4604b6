import LddSandbox.Kernel.Service

/-! Static data: the variables of a module that its init function leaves alone. `insmod` lays them
    out with their initial values before it runs init, so a device that lies in them is fresh in
    every session.

        load:   data = image ▶ init                      call:   data = call data             -/

namespace Ldd.Kernel
open Ldd.Schemes Ledger Script

variable {ρ σ δ τ α ε κ ο : Type}

/-- The world without the data. -/
def withoutData (w : World ρ (σ × δ)) : World ρ σ := ⟨w.past, w.mem.1, w.freed.1⟩

/-- A script beside the data. -/
def beside (x : Script ρ σ α) : Script ρ (σ × δ) α := fun w =>
  let (a, w') := x (withoutData w)
  (a, ⟨w'.past, (w'.mem, w.mem.2), (w'.freed, w.freed.2)⟩)

/-- The module with its data. -/
def Loadable.withData (m : Loadable ρ σ ε) (image : δ) : Loadable ρ (σ × δ) ε where
  needs := m.needs
  init calls := do
    update fun mem => (mem.1, image)
    beside (m.init calls)
  exit := beside m.exit
  fails := m.fails

/-- A call on the device in the data, by way of the resource that leads to it. -/
def serveData (part : σ → ρ) (D : Machine δ κ ο) (c : κ) : Script ρ (σ × δ) ο := do
  let mem ← look
  access (part mem.1)
  update fun mem => (mem.1, (D mem.2 c).1)
  return (D mem.2 c).2

variable [DecidableEq ρ] {m : Loadable ρ σ ε} {slips : ε → Bool} {held : World ρ σ → Prop}

/-- The data does not matter to how the module unwinds. -/
theorem Loadable.Unwinds.withData (h : m.Unwinds slips held) (image : δ) :
    (m.withData image).Unwinds slips fun w => held (withoutData w) where
  loads calls w hidle hsound hf := h.loads calls (withoutData w) hidle hsound hf
  rolls_back calls w hidle hsound hf hs := h.rolls_back calls (withoutData w) hidle hsound hf hs
  slips calls w hidle hs := h.slips calls (withoutData w) hidle hs
  unloads w freed hsound hheld := h.unloads (withoutData w) freed.1 hsound hheld

/-- A module that unwinds offers what the device in its data shows. -/
theorem Loadable.Unwinds.offers (h : m.Unwinds slips held) {part : σ → ρ} {D : Machine δ κ ο}
    {N : Machine τ κ ο} {R : δ → τ → Prop} {image : δ} {t₀ : τ}
    (hpart : ∀ w, held w → part w.mem ∈ live w.past)
    (hused : ∀ w, held w → held (w.use (.access (part w.mem))))
    (hstart : R image t₀) (hsim : D.Simulation N R) :
    Offers (m.withData image) slips (fun w => held (withoutData w)) (serveData part D)
      (fun _ => t₀) N fun mem t => R mem.2 t where
  unwinds := h.withData image
  fresh _ _ _ _ _ := hstart
  serves c w t hheld hsound hshown := by
    obtain ⟨hnext, hout⟩ := hsim w.mem.2 t c hshown
    exact ⟨hused (withoutData w) hheld, ⟨hpart (withoutData w) hheld, hsound⟩, hnext, hout⟩

end Ldd.Kernel

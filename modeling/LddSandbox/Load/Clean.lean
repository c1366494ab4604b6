import LddSandbox.Load.CharDev
import LddSandbox.Load.RamDisk

/-! Loads and unloads of the three modules that unwind by hand (06, 07, 08), in any order and with
    any calls failing. Each module has one undo list that reads what it freed; a sequence is clean
    exactly if it never gets there. -/

namespace Ldd.Load
open Ldd.Kernel

/-- CLEAN LOADS: after every attempt all uses of resources were allowed, nothing is left unless the
    module is loaded, and a failed init returned a negative errno, exactly if no init that ran had
    `device_create` (06, 07), or `blk_mq_alloc_disk` (08), as the first call to fail. -/
theorem load_clean (ι : Type) :
    (∀ mem attempts, (blockingModule ι).AllClean mem attempts ↔
      (blockingModule ι).AllAvoid CharCalls.deviceCreateFails mem attempts) ∧
    (∀ mem attempts, (pollModule ι).AllClean mem attempts ↔
      (pollModule ι).AllAvoid CharCalls.deviceCreateFails mem attempts) ∧
    (∀ mem attempts, ramdiskModule.AllClean mem attempts ↔
      ramdiskModule.AllAvoid DiskCalls.allocDiskFails mem attempts) :=
  ⟨fun mem attempts => Loadable.clean_iff (charModule_unwinds ι _ _) mem attempts,
    fun mem attempts => Loadable.clean_iff (charModule_unwinds ι _ _) mem attempts,
    fun mem attempts => Loadable.clean_iff ramdiskModule_unwinds mem attempts⟩

/-- `device_create` finds no memory. -/
def noNode : CharCalls :=
  ⟨.ok (), .ok someObject, some someObject, some someObject, .ok (), .error enomem⟩

/-- `blk_mq_alloc_disk` finds no memory. -/
def noDisk : DiskCalls :=
  ⟨some someObject, some someObject, fun _ => 0, .ok ⟨254, by decide⟩, .ok (), .error enomem,
    .ok ()⟩

/-- One load that runs out of memory at that call. -/
theorem load_not_clean :
    ¬ (blockingModule ℕ).AllClean .zeroed [.load noNode .zeroed] ∧
    ¬ (pollModule ℕ).AllClean .zeroed [.load noNode .zeroed] ∧
    ¬ ramdiskModule.AllClean .zeroed [.load noDisk .zeroed] := by
  have hnode : noNode.deviceCreateFails = true := rfl
  have hdisk : noDisk.allocDiskFails = true := rfl
  refine ⟨?_, ?_, ?_⟩
  · rintro ⟨hclean, -⟩
    exact chardevInit_slips rfl hnode hclean.sound
  · rintro ⟨hclean, -⟩
    exact chardevInit_slips rfl hnode hclean.sound
  · rintro ⟨hclean, -⟩
    exact myramdiskInit_slips rfl hdisk hclean.sound

end Ldd.Load

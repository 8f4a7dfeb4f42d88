import Detours.HookLib.NearRedirection
import Detours.HookLib.FarRedirection

namespace Detours.HookLib

open Detours.Bytes Detours.Decoding Detours.Machine Detours.Zydis

variable {path : Path} {zydis : Api} {environment : Environment 64} {lib : HookLib 64}
  {originalFunction targetFunction trampoline : BitVec 64} {size : Nat}

variable (path zydis environment lib originalFunction targetFunction trampoline) in
theorem hooked_allocations :
    (hooked path zydis environment lib originalFunction targetFunction trampoline).allocations =
      ⟨trampoline, path.blockSize⟩ :: lib.allocations := by
  cases path <;> rfl

variable (path zydis environment lib originalFunction targetFunction trampoline) in
theorem hooked_activeHooks_patchedSize :
    (hooked path zydis environment lib originalFunction targetFunction trampoline).activeHooks =
      lib.activeHooks.insert originalFunction
        { trampoline
          originalBytes := (hooked path zydis environment lib originalFunction targetFunction
            trampoline).memory.read trampoline
              (patchedSize path zydis environment lib originalFunction trampoline) } := by
  cases path <;> rfl

section Installed

variable (installation : Installation path zydis lib originalFunction trampoline size)

include installation

variable (environment targetFunction)

theorem hooked_activeHooks :
    (hooked path zydis environment lib originalFunction targetFunction trampoline).activeHooks =
      lib.activeHooks.insert originalFunction
        { trampoline
          originalBytes := (hooked path zydis environment lib originalFunction targetFunction
            trampoline).memory.read trampoline size } := by
  rw [hooked_activeHooks_patchedSize, installation.measured_withBlock]

/-- All stores of a call are in the stolen bytes and in the new block. -/
theorem hooked_changesOnly (inside : zydis.DisplacementInside .long64) :
    Memory.ChangesOnly (span originalFunction size ∪ span trampoline path.blockSize) lib.memory
      (hooked path zydis environment lib originalFunction targetFunction trampoline).memory := by
  cases path with
  | near => exact hooked_near_changesOnly _ _ installation inside
  | far => exact hooked_far_changesOnly _ _ installation

theorem Installation.pos : 0 < size := by
  have covers := installation.covers
  cases path <;> simp only [Path.neededSize] at covers <;> omega

theorem Installation.ne : originalFunction ≠ trampoline := by
  rintro rfl
  exact Set.disjoint_left.mp installation.fresh (base_mem_span installation.pos)
    (base_mem_span path.blockSize_pos)

end Installed

end Detours.HookLib

import Detours.HookLib.Near
import Detours.TrampolineBuilder.Layout

namespace Detours

open Detours.Bytes Detours.Decoding Detours.Machine Detours.Zydis

namespace HookLib

variable {zydis : Api} {environment : Environment 64} {lib : HookLib 64} {memory : Memory 64}
  {originalFunction targetFunction trampoline : BitVec 64} {size : Nat}

theorem farJump_eq (target : BitVec 64) :
    farJump target = jumpQword 0 ++ littleEndian 8 target.toNat := by
  simp [farJump, Memory.overwrite, jumpQword, littleEndian]

@[simp] theorem farJump_length (target : BitVec 64) : (farJump target).length = 14 := by
  simp [farJump_eq]

/-- The two stores of the far patch as one: the fill runs over the jump. -/
def farPatchBytes (trampoline : BitVec 64) (size : Nat) : List Byte :=
  List.replicate (size - 14) 0x90 ++ (farJump (trampoline + 0x58)).drop (size - 14)

theorem farPatchBytes_length (trampoline : BitVec 64) (covers : 14 ≤ size) (small : size ≤ 28) :
    (farPatchBytes trampoline size).length = 14 := by
  simp only [farPatchBytes, List.length_append, List.length_replicate, List.length_drop,
    farJump_length]
  omega

theorem farPatch_eq (covers : 14 ≤ size) (small : size ≤ 28) :
    farPatch originalFunction (trampoline + 0x58) size memory =
      memory.write originalFunction (farPatchBytes trampoline size) := by
  rw [farPatch, fillLength_eq covers (by omega), Memory.fill_eq_write]
  have overlaid := Memory.write_overwrite memory originalFunction (farJump (trampoline + 0x58)) 0
    (List.replicate (size - 14) 0x90)
    (by simp only [List.length_replicate, farJump_length]; omega)
    (by rw [farJump_length]; decide)
  rw [BitVec.add_zero] at overlaid
  rw [overlaid]
  simp [Memory.overwrite, farPatchBytes]

def farBlock (zydis : Api) (environment : Environment 64) (lib : HookLib 64)
    (originalFunction targetFunction trampoline : BitVec 64) (size : Nat) : Memory 64 :=
  TrampolineBuilder.built zydis environment.leftover
    (lib.withBlock environment trampoline 0x1000).memory originalFunction size trampoline
    targetFunction

section Hooked

variable (installation : Installation .far zydis lib originalFunction trampoline size)

include installation

theorem Installation.far_size : 14 ≤ size ∧ size ≤ 28 := by
  have covers := installation.covers
  have bound := installation.size_lt
  unfold maxInstructionLength Path.neededSize at bound
  exact ⟨covers, by dsimp only at bound; omega⟩

def Installation.stolenWithBlock (environment : Environment 64)
    (stolen : Stolen zydis lib.memory originalFunction 14 size) :
    Stolen zydis (lib.withBlock environment trampoline 0x1000).memory originalFunction 14 size where
  instructions := stolen.instructions
  bytes := (installation.read_withBlock environment).trans stolen.bytes
  startsBelow := stolen.startsBelow

variable (environment targetFunction)

theorem hooked_far_memory :
    (hooked .far zydis environment lib originalFunction targetFunction trampoline).memory =
      (farBlock zydis environment lib originalFunction targetFunction trampoline size).write
        originalFunction (farPatchBytes trampoline size) := by
  have measured : computeHookSize zydis (lib.withBlock environment trampoline 0x1000).memory
      originalFunction 14 = size :=
    installation.measured_withBlock _
  obtain ⟨covers, small⟩ := installation.far_size
  simp only [hooked, install, Path.blockSize, installFar, recordHook, measured,
    ensureProtection_memory]
  exact farPatch_eq covers small

theorem farBlock_changesOnly :
    Memory.ChangesOnly (span trampoline 0x1000) lib.memory
      (farBlock zydis environment lib originalFunction targetFunction trampoline size) := by
  obtain ⟨stolen⟩ := installation.stolen
  exact Memory.fill_changesOnly.trans (TrampolineBuilder.built_changesOnly _ _ _
    installation.reads (installation.stolenWithBlock environment stolen))

theorem hooked_far_changesOnly :
    Memory.ChangesOnly (span originalFunction size ∪ span trampoline 0x1000) lib.memory
      (hooked .far zydis environment lib originalFunction targetFunction trampoline).memory := by
  obtain ⟨covers, small⟩ := installation.far_size
  rw [hooked_far_memory _ _ installation]
  refine .trans ((farBlock_changesOnly _ _ installation).mono Set.subset_union_right)
    (Memory.write_changesOnly.mono ?_)
  rw [farPatchBytes_length _ covers small]
  exact (span_mono covers).trans Set.subset_union_left

theorem hooked_far_window (offset count : Nat) (room : offset + count ≤ 0x1000) :
    (hooked .far zydis environment lib originalFunction targetFunction trampoline).memory.read
      (trampoline + BitVec.ofNat 64 offset) count =
      (farBlock zydis environment lib originalFunction targetFunction trampoline size).read
        (trampoline + BitVec.ofNat 64 offset) count := by
  obtain ⟨covers, small⟩ := installation.far_size
  rw [hooked_far_memory _ _ installation]
  apply Memory.write_changesOnly.read_eq (by omega)
  rw [farPatchBytes_length _ covers small]
  exact installation.fresh.symm.mono (span_add_subset _ room (by decide)) (span_mono covers)

theorem hooked_far_patch :
    (hooked .far zydis environment lib originalFunction targetFunction trampoline).memory.read
      originalFunction size =
      farPatchBytes trampoline size ++ (lib.memory.read originalFunction size).drop 14 := by
  obtain ⟨covers, small⟩ := installation.far_size
  have length := farPatchBytes_length trampoline covers small
  have split : size = 14 + (size - 14) := by omega
  have behind : Disjoint (span (originalFunction + BitVec.ofNat 64 14) (size - 14))
      (span originalFunction 14) := by
    exact (span_disjoint_add _ (Nat.le_refl _) (by omega)).symm
  have outside : Disjoint (span (originalFunction + BitVec.ofNat 64 14) (size - 14))
      (span trampoline 0x1000) :=
    installation.fresh.mono_left (span_add_subset _ (by omega) (by omega))
  rw [hooked_far_memory _ _ installation, Memory.drop_read covers]
  conv_lhs => arg 3; rw [split]
  rw [Memory.read_add]
  congr 1
  · exact Memory.read_write_of_length _ _ length (by decide)
  · rw [Memory.write_changesOnly.read_eq (by omega) (by rw [length]; exact behind)]
    exact (farBlock_changesOnly _ _ installation).read_eq (by omega) outside

end Hooked

end HookLib

end Detours

import Detours.HookLib.Paths

namespace Detours

open Detours.Bytes Detours.Decoding Detours.Machine Detours.Zydis

theorem fillLength_eq {w size length : Nat} (covers : length ≤ size) (small : size < 2 ^ w) :
    HookLib.fillLength w size length = size - length := by
  have around : 2 ^ w - length + size = size - length + 2 ^ w := by omega
  rw [HookLib.fillLength, BitVec.toNat_sub, BitVec.toNat_ofNat, BitVec.toNat_ofNat,
    Nat.mod_eq_of_lt small, Nat.mod_eq_of_lt (a := length) (by omega), around,
    Nat.add_mod_right, Nat.mod_eq_of_lt (by omega)]

namespace HookLib

def nearPatchBytes (originalFunction trampoline : BitVec 64) (size : Nat) : List Byte :=
  jumpRel32 ((trampoline + BitVec.ofNat 64 size + 5 - (originalFunction + 5)).setWidth 32) ++
    List.replicate (size - 5) 0x90

def nearJumps (originalFunction trampoline : BitVec 64) (size : Nat) : List Byte :=
  let stolen := BitVec.ofNat 64 size
  jumpRel32 ((originalFunction + stolen - (trampoline + stolen + 5)).setWidth 32) ++
    jumpQword ((trampoline + 0x50 - (trampoline + stolen + 5 + 6)).setWidth 32)

variable {zydis : Api} {environment : Environment 64} {lib : HookLib 64} {memory : Memory 64}
  {originalFunction targetFunction trampoline : BitVec 64} {size : Nat}

theorem nearPatchBytes_length (originalFunction trampoline : BitVec 64) (covers : 5 ≤ size) :
    (nearPatchBytes originalFunction trampoline size).length = size := by
  simp only [nearPatchBytes, List.length_append, jumpRel32_length, List.length_replicate]
  omega

@[simp] theorem nearJumps_length (originalFunction trampoline : BitVec 64) (size : Nat) :
    (nearJumps originalFunction trampoline size).length = 11 := by
  simp [nearJumps]

theorem nearPatch_eq (covers : 5 ≤ size) (small : size < 32) :
    nearPatch originalFunction trampoline size memory =
      memory.write originalFunction (nearPatchBytes originalFunction trampoline size) := by
  rw [nearPatch, placeJump, storeJump_eq (by decide), fillLength_eq covers (by omega),
    Memory.fill_eq_write, nearPatchBytes]
  exact Memory.write_append _ (by simp only [jumpRel32_length, List.length_replicate]; omega)

theorem nearTrampoline_eq (small : size < 32) :
    nearTrampoline memory originalFunction targetFunction trampoline size =
      (memory.write trampoline (memory.read originalFunction size ++
        nearJumps originalFunction trampoline size)).write (trampoline + 0x50)
        (littleEndian 8 targetFunction.toNat) := by
  have back : memory.write trampoline (memory.read originalFunction size ++
        nearJumps originalFunction trampoline size) =
      ((memory.write trampoline (memory.read originalFunction size)).write
        (trampoline + BitVec.ofNat 64 size) (nearJumps originalFunction trampoline size)) := by
    rw [← Memory.write_append _ (by simp only [Memory.read_length, nearJumps_length]; omega),
      Memory.read_length]
  rw [back, nearTrampoline, placeJump, placeQwordJump, storeJump_eq (by decide),
    storeQwordJump_eq, nearJumps, ← Memory.write_append _ (by simp), jumpRel32_length]
  rfl

section Hooked

variable (installation : Installation .near zydis lib originalFunction trampoline size)

include installation

variable (environment targetFunction)

theorem hooked_near_memory :
    (hooked .near zydis environment lib originalFunction targetFunction trampoline).memory =
      (relocate zydis (nearTrampoline (lib.withBlock environment trampoline 0x500).memory
        originalFunction targetFunction trampoline size) trampoline originalFunction size).1.write
          originalFunction (nearPatchBytes originalFunction trampoline size) := by
  have measured : computeHookSize zydis (lib.withBlock environment trampoline 0x500).memory
      originalFunction 5 = size :=
    installation.measured_withBlock _
  simp only [hooked, install, Path.blockSize, installNear, recordHook, measured,
    ensureProtection_memory]
  rw [nearPatch_eq installation.covers installation.small]

theorem hooked_near_patch :
    (hooked .near zydis environment lib originalFunction targetFunction trampoline).memory.read
      originalFunction size = nearPatchBytes originalFunction trampoline size := by
  have small := installation.small
  have length := nearPatchBytes_length originalFunction trampoline installation.covers
  rw [hooked_near_memory _ _ installation]
  exact Memory.read_write_of_length _ _ length (by omega)

theorem hooked_near_window (offset count : Nat) (room : offset + count ≤ 0x500) :
    (hooked .near zydis environment lib originalFunction targetFunction trampoline).memory.read
      (trampoline + BitVec.ofNat 64 offset) count =
      (relocate zydis (nearTrampoline (lib.withBlock environment trampoline 0x500).memory
        originalFunction targetFunction trampoline size) trampoline originalFunction size).1.read
          (trampoline + BitVec.ofNat 64 offset) count := by
  rw [hooked_near_memory _ _ installation]
  apply Memory.write_changesOnly.read_eq (by omega)
  rw [nearPatchBytes_length _ _ installation.covers]
  exact installation.fresh.symm.mono_left (span_add_subset _ room (by decide))

theorem hooked_near_behind (inside : zydis.DisplacementInside .long64) (offset count : Nat)
    (behind : size ≤ offset) (room : offset + count ≤ 0x500) :
    (hooked .near zydis environment lib originalFunction targetFunction trampoline).memory.read
      (trampoline + BitVec.ofNat 64 offset) count =
      (nearTrampoline (lib.withBlock environment trampoline 0x500).memory
        originalFunction targetFunction trampoline size).read
          (trampoline + BitVec.ofNat 64 offset) count := by
  rw [hooked_near_window _ _ installation _ _ room]
  apply (relocate_changesOnly installation.reads inside (by omega)).read_eq (by omega)
  exact (span_disjoint_add _ behind (by omega)).symm

theorem hooked_near_jumps (inside : zydis.DisplacementInside .long64) :
    (hooked .near zydis environment lib originalFunction targetFunction trampoline).memory.read
      (trampoline + BitVec.ofNat 64 size) 11 = nearJumps originalFunction trampoline size := by
  have small := installation.small
  rw [hooked_near_behind _ _ installation inside _ _ (Nat.le_refl _) (by omega), nearTrampoline_eq small,
    Memory.write_changesOnly.read_eq (by decide)]
  · rw [← Memory.write_append _ (by simp only [Memory.read_length, nearJumps_length]; omega),
      Memory.read_length]
    exact Memory.read_write_of_length _ _ (nearJumps_length _ _ _) (by decide)
  · rw [littleEndian_length]
    exact span_add_disjoint trampoline size 0x50 (by omega) (by decide)

theorem hooked_near_slot (inside : zydis.DisplacementInside .long64) :
    (hooked .near zydis environment lib originalFunction targetFunction trampoline).memory.read
      (trampoline + 0x50) 8 = littleEndian 8 targetFunction.toNat := by
  have small := installation.small
  refine (hooked_near_behind _ _ installation inside 0x50 8 (by omega) (by decide)).trans ?_
  rw [nearTrampoline_eq small]
  exact Memory.read_write_of_length _ _ (littleEndian_length _ _) (by decide)

theorem hooked_near_changesOnly (inside : zydis.DisplacementInside .long64) :
    Memory.ChangesOnly (span originalFunction size ∪ span trampoline 0x500) lib.memory
      (hooked .near zydis environment lib originalFunction targetFunction trampoline).memory := by
  have small := installation.small
  have inFunction := Set.subset_union_left (s := span originalFunction size)
    (t := span trampoline 0x500)
  have inBlock := Set.subset_union_right (s := span originalFunction size)
    (t := span trampoline 0x500)
  rw [hooked_near_memory _ _ installation, nearTrampoline_eq small]
  refine .trans (.trans (.trans (.trans (Memory.fill_changesOnly.mono inBlock)
    (Memory.write_changesOnly.mono ?_)) (Memory.write_changesOnly.mono ?_))
    ((relocate_changesOnly installation.reads inside (by omega)).mono ?_))
    (Memory.write_changesOnly.mono ?_)
  · rw [List.length_append, Memory.read_length, nearJumps_length]
    exact (span_mono (by omega)).trans inBlock
  · rw [littleEndian_length]
    exact (span_add_subset 0x50 (by decide) (by decide)).trans inBlock
  · exact (span_mono (by omega)).trans inBlock
  · rw [nearPatchBytes_length _ _ installation.covers]
    exact inFunction

end Hooked

end HookLib

end Detours

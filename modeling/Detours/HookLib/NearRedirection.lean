import Detours.Bytes.Layout
import Detours.HookLib.Granting
import Detours.HookLib.Near
import Detours.Zydis.Subset

namespace Detours.HookLib

open Detours.Bytes Detours.Decoding Detours.Machine Detours.Zydis

/-- The near block: stolen bytes, jump back, indirect jump and slot. -/
def nearLayout (size : Nat) : List Field := [⟨0, size⟩, ⟨size, 5⟩, ⟨size + 5, 6⟩, ⟨0x50, 8⟩]

theorem nearLayout_inOrder {size : Nat} (small : size < 32) :
    Field.InOrder 0x58 0 (nearLayout size) := by
  simp only [nearLayout, Field.InOrder]
  omega

variable {zydis : Api} {environment : Environment 64} {lib blocked : HookLib 64}
  {memory : Memory 64} {originalFunction targetFunction trampoline : BitVec 64} {size : Nat}

theorem chosenBlock_of_allocated
    (allocated : allocateAround2gb environment lib originalFunction 0x500 =
      some (blocked, some trampoline)) :
    chosenBlock environment originalFunction = some (some (.near, trampoline)) := by
  obtain ⟨found, search, answer⟩ := Option.map_eq_some_iff.mp allocated
  rw [chosenBlock, search]
  cases found with
  | none => simp at answer
  | some address =>
      cases near : environment.virtualAlloc address 0x500 with
      | none => simp [virtualAlloc, near] at answer
      | some base =>
          simp only [virtualAlloc, near, Prod.mk.injEq, Option.some.injEq] at answer
          simp only [Option.map_some, blockFor, Option.bind_some, near, answer.2]

theorem chosenBlock_near_bounds (reserves : environment.ReservesInPlace)
    (lower : 2 ^ 16 ≤ originalFunction.toNat) (upper : originalFunction.toNat < 2 ^ 47)
    (chosen : chosenBlock environment originalFunction = some (some (.near, trampoline))) :
    originalFunction.toNat + 0x500 < trampoline.toNat + 2 ^ 31 ∧
      trampoline.toNat + 0x500 < originalFunction.toNat + 2 ^ 31 := by
  obtain ⟨address, search, allocated⟩ := chosenBlock_near chosen
  obtain ⟨nonzero, aligned, below, above⟩ :=
    searchAround_found reserves.granularity lower upper (by decide) search
  rw [reserves.inPlace nonzero aligned allocated]
  exact ⟨below, above⟩

theorem toNat_add_ofNat (count : Nat) {address : BitVec 64} (room : address.toNat + count < 2 ^ 64) :
    (address + BitVec.ofNat 64 count).toNat = address.toNat + count := by
  rw [BitVec.toNat_add, BitVec.toNat_ofNat, Nat.mod_eq_of_lt (a := count) (by omega),
    Nat.mod_eq_of_lt room]

section Windows

variable (installation : Installation .near zydis lib originalFunction trampoline size)

include installation

variable (environment targetFunction)

theorem hooked_near_read_patch :
    (hooked .near zydis environment lib originalFunction targetFunction trampoline).memory.read
      originalFunction 5 =
      jumpRel32 ((trampoline + BitVec.ofNat 64 size + 5 - (originalFunction + 5)).setWidth 32) := by
  have covers : 5 ≤ size := installation.covers
  rw [← Memory.take_read covers, hooked_near_patch _ _ installation]
  exact List.take_left' (jumpRel32_length _)

theorem hooked_near_read_nops :
    (hooked .near zydis environment lib originalFunction targetFunction trampoline).memory.read
      (originalFunction + 5) (size - 5) = List.replicate (size - 5) 0x90 := by
  have covers : 5 ≤ size := installation.covers
  refine (Memory.drop_read covers).symm.trans ?_
  rw [hooked_near_patch _ _ installation]
  exact List.drop_left' (jumpRel32_length _)

theorem hooked_near_read_jumps (inside : zydis.DisplacementInside .long64) :
    (hooked .near zydis environment lib originalFunction targetFunction trampoline).memory.read
        (trampoline + BitVec.ofNat 64 size) 5 =
      jumpRel32 ((originalFunction + BitVec.ofNat 64 size -
        (trampoline + BitVec.ofNat 64 size + 5)).setWidth 32) ∧
    (hooked .near zydis environment lib originalFunction targetFunction trampoline).memory.read
        (trampoline + BitVec.ofNat 64 size + 5) 6 =
      jumpQword ((trampoline + 0x50 - (trampoline + BitVec.ofNat 64 size + 5 + 6)).setWidth 32) := by
  have jumps := hooked_near_jumps environment targetFunction
    installation inside
  rw [Memory.read_add 5 6] at jumps
  exact List.append_inj jumps (by simp)

end Windows

section Flow

variable (installation : Installation .near zydis lib originalFunction trampoline size)
  (inside : zydis.DisplacementInside .long64)
  (upper : originalFunction.toNat < 2 ^ 47)
  (below : originalFunction.toNat + 0x500 < trampoline.toNat + 2 ^ 31)
  (above : trampoline.toNat + 0x500 < originalFunction.toNat + 2 ^ 31)

include installation upper below above

variable (environment targetFunction)

theorem hooked_near_jumpTarget :
    jumpTarget
        (hooked .near zydis environment lib originalFunction targetFunction trampoline).memory
        originalFunction =
      some (trampoline + BitVec.ofNat 64 size + 5) := by
  have small := installation.small
  have source : (originalFunction + 5).toNat = originalFunction.toNat + 5 :=
    toNat_add_ofNat 5 (by omega)
  have behind : (trampoline + BitVec.ofNat 64 size).toNat = trampoline.toNat + size :=
    toNat_add_ofNat _ (by omega)
  have indirect : (trampoline + BitVec.ofNat 64 size + 5).toNat = trampoline.toNat + size + 5 :=
    (toNat_add_ofNat 5 (by omega)).trans (by rw [behind])
  exact jumpTarget_rel32_to (hooked_near_read_patch _ _ installation)
    (toInt_sub_bounds (by omega) (by omega))

include inside

theorem hooked_near_reaches_target :
    Reaches (hooked .near zydis environment lib originalFunction targetFunction trampoline).memory
      originalFunction targetFunction := by
  have small := installation.small
  have behind : (trampoline + BitVec.ofNat 64 size).toNat = trampoline.toNat + size :=
    toNat_add_ofNat _ (by omega)
  have indirect : (trampoline + BitVec.ofNat 64 size + 5).toNat = trampoline.toNat + size + 5 :=
    (toNat_add_ofNat 5 (by omega)).trans (by rw [behind])
  have next : (trampoline + BitVec.ofNat 64 size + 5 + 6).toNat = trampoline.toNat + size + 11 :=
    (toNat_add_ofNat 6 (by omega)).trans (by rw [indirect])
  have slot : (trampoline + 0x50).toNat = trampoline.toNat + 0x50 :=
    toNat_add_ofNat 0x50 (by omega)
  have toBlock := hooked_near_jumpTarget environment targetFunction installation upper below above
  have toTarget := jumpTarget_qword_to
    (hooked_near_read_jumps environment targetFunction
      installation inside).2
    (toInt_sub_bounds (by omega) (by omega))
  rw [read64_eq _ (hooked_near_slot _ _ installation inside)] at toTarget
  exact .trans (.step (step_of_jumpTarget toBlock)) (.step (step_of_jumpTarget toTarget))

theorem hooked_near_reaches_rest :
    Reaches (hooked .near zydis environment lib originalFunction targetFunction trampoline).memory
      (trampoline + BitVec.ofNat 64 size) (originalFunction + BitVec.ofNat 64 size) := by
  have small := installation.small
  have behind : (trampoline + BitVec.ofNat 64 size).toNat = trampoline.toNat + size :=
    toNat_add_ofNat _ (by omega)
  have next : (trampoline + BitVec.ofNat 64 size + 5).toNat = trampoline.toNat + size + 5 :=
    (toNat_add_ofNat 5 (by omega)).trans (by rw [behind])
  have rest : (originalFunction + BitVec.ofNat 64 size).toNat = originalFunction.toNat + size :=
    toNat_add_ofNat _ (by omega)
  exact .step (step_of_jumpTarget (jumpTarget_rel32_to
    (hooked_near_read_jumps _ _ installation inside).1 (toInt_sub_bounds (by omega) (by omega))))

end Flow

/-- A hook on the near path redirects the function and lets the trampoline return to
the rest of it, and touches nothing but the stolen bytes and its block. -/
theorem applyHookX64_near_redirects (reads : zydis.ReadsInstruction .long64)
    (inside : zydis.DisplacementInside .long64) (reserves : environment.ReservesInPlace)
    (lower : 2 ^ 16 ≤ originalFunction.toNat) (upper : originalFunction.toNat < 2 ^ 47)
    (decodes : PrefixDecodes zydis lib.memory originalFunction 5)
    (measured : computeHookSize zydis lib.memory originalFunction 5 = size)
    (allocated : allocateAround2gb environment lib originalFunction 0x500 =
      some (blocked, some trampoline))
    (fresh : Disjoint (span originalFunction size) (span trampoline 0x500)) :
    ∃ after,
      applyHookX64 zydis environment lib originalFunction targetFunction =
        some (after, some trampoline) ∧
      Reaches after.memory originalFunction targetFunction ∧
      Reaches after.memory (trampoline + BitVec.ofNat 64 size)
        (originalFunction + BitVec.ofNat 64 size) ∧
      after.memory.read (originalFunction + 5) (size - 5) = List.replicate (size - 5) 0x90 ∧
      Memory.ChangesOnly (span originalFunction size ∪ span trampoline 0x500) lib.memory
        after.memory ∧
      ((nearLayout size).map (Field.region trampoline)).Pairwise Disjoint ∧
      ∀ memory, Memory.ChangesOnly (span trampoline size) memory
        (relocate zydis memory trampoline originalFunction size).1 := by
  have chosen := chosenBlock_of_allocated allocated
  obtain ⟨below, above⟩ := chosenBlock_near_bounds reserves lower upper chosen
  have installation : Installation .near zydis lib originalFunction trampoline size :=
    ⟨reads, decodes, measured, fresh⟩
  have small := installation.small
  exact ⟨_, applyHookX64_of_chosenBlock _ _ _ chosen,
    hooked_near_reaches_target _ _ installation inside upper below above,
    hooked_near_reaches_rest _ _ installation inside upper below above,
    hooked_near_read_nops _ _ installation,
    hooked_near_changesOnly _ _ installation inside,
    (nearLayout_inOrder small).pairwise_disjoint (by decide),
    fun _ => relocate_changesOnly reads inside (by omega)⟩

/-- `NOP; MOV EAX, 7`: the sixth stolen byte becomes a `NOP`. -/
theorem applyHookX64_near_redirects_mov :
    let lib := HookLib.holding 0x140001000 [0x90, 0xB8, 7, 0, 0, 0, 0xC3]
    ∃ after,
      applyHookX64 subset (.granting true 0) lib 0x140001000 0x7FFF00000000 =
        some (after, some 0x140010000) ∧
      Reaches after.memory 0x140001000 0x7FFF00000000 ∧
      Reaches after.memory 0x140010006 0x140001006 ∧
      after.memory.read 0x140001005 1 = [0x90] := by
  intro lib
  have measured : computeHookSize subset lib.memory 0x140001000 5 = 6 := by decide +kernel
  have decodes : PrefixDecodes subset lib.memory 0x140001000 5 :=
    computeHookSize_reaches.mp (by rw [measured]; decide)
  obtain ⟨after, applied, target, rest, nops, _⟩ := applyHookX64_near_redirects
    Subset.readsInstruction Subset.displacementInside granting_reservesInPlace (by decide)
    (by decide) decodes measured (allocateAround2gb_granting (by decide))
    (span_disjoint (by decide) (by decide))
  exact ⟨after, applied, target, rest, nops⟩

end Detours.HookLib

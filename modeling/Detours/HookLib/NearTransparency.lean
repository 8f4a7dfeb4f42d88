import Detours.HookLib.Relocations
import Detours.Machine.Transparency
import Detours.TrampolineBuilder.MemoryMeaning
import Detours.Zydis.Sequential

namespace Detours

open Detours.Bytes Detours.Decoding Detours.Machine Detours.Zydis

section Relocated

variable {σ : Type} {zydis : Api} {processor : Processor 64 σ (zydis.decoder .long64)}
  {address other delta : BitVec 64} {instruction : zydis.Instruction .long64}

theorem relocatedBytes_samePlace (executes : Executes processor)
    (inside : zydis.DisplacementInside .long64) (fields : zydis.RelativeDisplacement .long64)
    (relocates : zydis.RelocatesDisplacement .long64)
    (fits : instruction.item.hasDisplacement = true →
      Api.FitsField 32 (instruction.item.info.disp.value + delta))
    (distance : address = other + delta) :
    ∃ copy : zydis.Instruction .long64,
      copy.bytes = relocatedBytes delta instruction.item.info instruction.bytes ∧
      SamePlace processor instruction.item copy.item
        (address + BitVec.ofNat 64 instruction.bytes.length)
        (other + BitVec.ofNat 64 copy.bytes.length) := by
  obtain ⟨copy, bytes, same, moved⟩ :=
    relocatedBytes_decodes inside fields relocates delta instruction
  have length : copy.bytes.length = instruction.bytes.length := by
    rw [bytes, relocatedBytes_length delta inside]
  refine ⟨copy, bytes, ?_⟩
  cases operand : instruction.item.hasDisplacement with
  | false =>
      rw [same operand]
      exact executes.anywhere instruction operand _ _
  | true =>
      have taken : displacement ((newDisplacement instruction.item.info.disp delta).setWidth 32) =
          instruction.item.info.disp.value + delta := by
        change displacement ((instruction.item.info.disp.value + delta.setWidth 64).setWidth 32) = _
        rw [BitVec.setWidth_eq]
        exact (displacement_setWidth_iff _).mpr (fits operand)
      rw [moved operand]
      refine executes.displaced instruction operand ?_
      rw [taken, length, distance]
      ac_rfl

theorem relocateBlock_replaced (rubbish : zydis.Instruction .long64 → σ → Set (BitVec 64))
    (code : Set (BitVec 64)) (executes : Executes processor)
    (inside : zydis.DisplacementInside .long64) (fields : zydis.RelativeDisplacement .long64)
    (relocates : zydis.RelocatesDisplacement .long64)
    (instructions : List (zydis.Instruction .long64))
    (fits : ∀ instruction ∈ instructions, instruction.item.hasDisplacement = true →
      Api.FitsField 32 (instruction.item.info.disp.value + delta))
    (distance : address = other + delta) :
    ∃ copies : List (zydis.Instruction .long64),
      (relocateBlock delta instructions).1 = blockBytes copies ∧
      Replaced processor rubbish code address other instructions copies := by
  induction instructions generalizing address other with
  | nil => exact ⟨[], rfl, .nil _ _⟩
  | cons instruction rest ih =>
      rw [List.forall_mem_cons] at fits
      obtain ⟨copy, bytes, same⟩ :=
        relocatedBytes_samePlace executes inside fields relocates fits.1 distance
      have length : copy.bytes.length = instruction.bytes.length := by
        rw [bytes, relocatedBytes_length delta inside]
      have onward : address + BitVec.ofNat 64 instruction.bytes.length =
          other + BitVec.ofNat 64 (blockBytes [copy]).length + delta := by
        rw [blockBytes_singleton, distance, length]
        ac_rfl
      obtain ⟨copies, others, replaced⟩ := ih fits.2 onward
      refine ⟨[copy] ++ copies, ?_, .cons (same.replaces rubbish) replaced⟩
      rw [relocateBlock, if_neg (narrow_of_fields fields instruction), blockBytes_append,
        blockBytes_singleton, bytes, others]

end Relocated

theorem absDelta_le {original trampoline : BitVec 64}
    (below : original.toNat ≤ trampoline.toNat + 2 ^ 31)
    (above : trampoline.toNat ≤ original.toNat + 2 ^ 31) :
    absDelta original trampoline ≤ 2 ^ 31 := by
  have originalSmall := original.isLt
  have trampolineSmall := trampoline.isLt
  rw [absDelta, BitVec.signExtend_eq, BitVec.signExtend_eq, BitVec.toInt_eq_toNat_bmod,
    BitVec.toNat_sub, Int.bmod_def]
  omega

namespace HookLib

variable {σ : Type} {zydis : Api} {processor : Processor 64 σ (zydis.decoder .long64)}
  {environment : Environment 64} {lib blocked : HookLib 64} {memory other : Memory 64}
  {originalFunction targetFunction trampoline : BitVec 64} {size : Nat}

structure NearHook (memory : Memory 64) (originalFunction targetFunction trampoline : BitVec 64)
    (size : Nat) : Prop where
  patch : memory.read originalFunction 5 =
    jumpRel32 ((trampoline + BitVec.ofNat 64 size + 5 - (originalFunction + 5)).setWidth 32)
  back : memory.read (trampoline + BitVec.ofNat 64 size) 5 =
    jumpRel32 ((originalFunction + BitVec.ofNat 64 size -
      (trampoline + BitVec.ofNat 64 size + 5)).setWidth 32)
  indirect : memory.read (trampoline + BitVec.ofNat 64 size + 5) 6 =
    jumpQword ((trampoline + 0x50 - (trampoline + BitVec.ofNat 64 size + 5 + 6)).setWidth 32)
  slot : memory.read (trampoline + 0x50) 8 = littleEndian 8 targetFunction.toNat

theorem NearHook.congr (hook : NearHook memory originalFunction targetFunction trampoline size)
    (covers : 5 ≤ size) (small : size < 32)
    (same : ∀ address ∈ hookCode .near originalFunction trampoline size,
      other address = memory address) :
    NearHook other originalFunction targetFunction trampoline size := by
  have window (offset count : Nat) (room : offset + count ≤ 0x500) :
      other.read (trampoline + BitVec.ofNat 64 offset) count =
        memory.read (trampoline + BitVec.ofNat 64 offset) count :=
    Memory.read_window_of_agree (by decide) (fun address inside => same address (.inr inside))
      offset count room
  have next : trampoline + BitVec.ofNat 64 size + 5 = trampoline + BitVec.ofNat 64 (size + 5) := by
    rw [BitVec.ofNat_add, ← BitVec.add_assoc]
    rfl
  refine ⟨?_, ?_, ?_, ?_⟩
  · rw [← hook.patch]
    exact Memory.read_eq_of_agree (by decide) fun address inside =>
      same address (.inl (span_mono covers inside))
  · rw [window size 5 (by omega), hook.back]
  · rw [next, window (size + 5) 6 (by omega), ← next, hook.indirect]
  · exact (window 0x50 8 (by decide)).trans hook.slot

section Jumps

variable (hook : NearHook memory originalFunction targetFunction trampoline size)
  (small : size < 32) (upper : originalFunction.toNat < 2 ^ 47)
  (below : originalFunction.toNat + 0x500 < trampoline.toNat + 2 ^ 31)
  (above : trampoline.toNat + 0x500 < originalFunction.toNat + 2 ^ 31)

include hook small upper below above

theorem NearHook.jumps :
    jumpTarget memory originalFunction = some (trampoline + BitVec.ofNat 64 size + 5) ∧
    jumpTarget memory (trampoline + BitVec.ofNat 64 size + 5) = some targetFunction ∧
    jumpTarget memory (trampoline + BitVec.ofNat 64 size) =
      some (originalFunction + BitVec.ofNat 64 size) := by
  have source : (originalFunction + 5).toNat = originalFunction.toNat + 5 :=
    toNat_add_ofNat 5 (by omega)
  have behind : (trampoline + BitVec.ofNat 64 size).toNat = trampoline.toNat + size :=
    toNat_add_ofNat _ (by omega)
  have indirect : (trampoline + BitVec.ofNat 64 size + 5).toNat = trampoline.toNat + size + 5 :=
    (toNat_add_ofNat 5 (by omega)).trans (by rw [behind])
  have next : (trampoline + BitVec.ofNat 64 size + 5 + 6).toNat = trampoline.toNat + size + 11 :=
    (toNat_add_ofNat 6 (by omega)).trans (by rw [indirect])
  have slot : (trampoline + 0x50).toNat = trampoline.toNat + 0x50 :=
    toNat_add_ofNat 0x50 (by omega)
  have rest : (originalFunction + BitVec.ofNat 64 size).toNat = originalFunction.toNat + size :=
    toNat_add_ofNat _ (by omega)
  have toTarget := jumpTarget_qword_to hook.indirect (toInt_sub_bounds (by omega) (by omega))
  rw [read64_eq _ hook.slot] at toTarget
  exact ⟨jumpTarget_rel32_to hook.patch (toInt_sub_bounds (by omega) (by omega)), toTarget,
    jumpTarget_rel32_to hook.back (toInt_sub_bounds (by omega) (by omega))⟩

end Jumps

theorem hooked_near_hook (environment : Environment 64) (targetFunction : BitVec 64)
    (installation : Installation .near zydis lib originalFunction trampoline size)
    (inside : zydis.DisplacementInside .long64) :
    NearHook (hooked .near zydis environment lib originalFunction targetFunction
      trampoline).memory originalFunction targetFunction trampoline size where
  patch := hooked_near_read_patch _ _ installation
  back := (hooked_near_read_jumps _ _ installation inside).1
  indirect := (hooked_near_read_jumps _ _ installation inside).2
  slot := hooked_near_slot _ _ installation inside

theorem hooked_near_transparent (environment : Environment 64) (targetFunction : BitVec 64)
    (rubbish : zydis.Instruction .long64 → σ → Set (BitVec 64)) (executes : Executes processor)
    (installation : Installation .near zydis lib originalFunction trampoline size)
    (inside : zydis.DisplacementInside .long64) (fields : zydis.RelativeDisplacement .long64)
    (relocates : zydis.RelocatesDisplacement .long64)
    (upper : originalFunction.toNat < 2 ^ 47)
    (below : originalFunction.toNat + 0x500 < trampoline.toNat + 2 ^ 31)
    (above : trampoline.toNat + 0x500 < originalFunction.toNat + 2 ^ 31)
    (stolen : Stolen zydis lib.memory originalFunction 5 size)
    (fits : ∀ instruction ∈ stolen.instructions, instruction.item.hasDisplacement = true →
      Api.FitsField 32 (instruction.item.info.disp.value + (originalFunction - trampoline))) :
    Transparent processor rubbish (hookCode .near originalFunction trampoline size)
      (hooked .near zydis environment lib originalFunction targetFunction trampoline).memory
      originalFunction targetFunction trampoline stolen.instructions := by
  have small := installation.small
  have covers : 5 ≤ size := installation.covers
  have hook := hooked_near_hook environment targetFunction installation inside
  have copy : (hooked .near zydis environment lib originalFunction targetFunction
      trampoline).memory.read trampoline size =
      (relocateBlock (originalFunction - trampoline) stolen.instructions).1 :=
    hooked_near_saved_relocated installation stolen inside (absDelta_le (by omega) (by omega))
  have length : (relocateBlock (originalFunction - trampoline) stolen.instructions).1.length =
      size := by
    rw [relocateBlock_length _ inside, stolen.length_eq]
  have jumps (state : State 64 σ)
      (there : ∀ address ∈ hookCode .near originalFunction trampoline size, state.memory address =
        (hooked .near zydis environment lib originalFunction targetFunction
          trampoline).memory address) :=
    (hook.congr covers small there).jumps small upper below above
  refine transparent_of_replaced installation.reads.selfDelimiting (fun code => ?_)
    (by rw [length, copy]) ?_ ?_ ?_ (by omega) ?_ ?_
  · obtain ⟨copies, bytes, replaced⟩ := relocateBlock_replaced rubbish code executes inside fields
      relocates stolen.instructions fits (add_sub_cancel trampoline originalFunction).symm
    exact ⟨copies, bytes.symm, replaced⟩
  · rw [stolen.length_eq]
    exact Set.subset_union_left
  · rw [length]
    have room : size ≤ 0x500 := by omega
    exact (span_mono room).trans Set.subset_union_right
  · rw [stolen.length_eq]
    omega
  · intro state there
    obtain ⟨patch, indirect, _⟩ := jumps state there
    rw [← executes.jump] at patch indirect
    exact (Processor.Runs.jump patch).trans (Processor.Runs.jump indirect)
  · intro state there
    obtain ⟨_, _, back⟩ := jumps state there
    rw [← executes.jump] at back
    rw [length, stolen.length_eq]
    exact Processor.Runs.jump back

/-- A near hook is transparent, if every displacement among the stolen instructions can take up
the distance to the trampoline. -/
theorem applyHookX64_near_transparent (executes : Executes processor)
    (reads : zydis.ReadsInstruction .long64) (inside : zydis.DisplacementInside .long64)
    (fields : zydis.RelativeDisplacement .long64) (relocates : zydis.RelocatesDisplacement .long64)
    (reserves : environment.ReservesInPlace)
    (lower : 2 ^ 16 ≤ originalFunction.toNat) (upper : originalFunction.toNat < 2 ^ 47)
    (decodes : PrefixDecodes zydis lib.memory originalFunction 5)
    (measured : computeHookSize zydis lib.memory originalFunction 5 = size)
    (allocated : allocateAround2gb environment lib originalFunction 0x500 =
      some (blocked, some trampoline))
    (fresh : Disjoint (span originalFunction size) (span trampoline 0x500))
    (stolen : Stolen zydis lib.memory originalFunction 5 size)
    (fits : ∀ instruction ∈ stolen.instructions, instruction.item.hasDisplacement = true →
      Api.FitsField 32 (instruction.item.info.disp.value + (originalFunction - trampoline))) :
    ∃ after,
      applyHookX64 zydis environment lib originalFunction targetFunction =
        some (after, some trampoline) ∧
      Transparent processor (fun _ _ => ∅) (hookCode .near originalFunction trampoline size)
        after.memory originalFunction targetFunction trampoline stolen.instructions := by
  have chosen := chosenBlock_of_allocated allocated
  obtain ⟨below, above⟩ := chosenBlock_near_bounds reserves lower upper chosen
  exact ⟨_, applyHookX64_of_chosenBlock _ _ _ chosen,
    hooked_near_transparent environment targetFunction _ executes ⟨reads, decodes, measured, fresh⟩
      inside fields relocates upper below above stolen fits⟩

theorem applyHookX64_near_transparent_mov :
    let mov : subset.Instruction .long64 := Subset.Form.movRaxRip.instruction [0x10, 0, 0, 0] rfl
    let lib := HookLib.holding 0x140001000 (blockBytes [mov])
    let processor := sequentialProcessor TrampolineBuilder.copies (· != Mnemonic.jmp)
      Subset.readsInstruction Subset.jumpOpcodes rfl
    let code := hookCode .near 0x140001000 0x140010000 7
    (∃ before hiddenAfter final, before.memory = lib.memory ∧
      Unaware processor (fun _ _ => ∅) code code 0x140001000 [mov] before hiddenAfter final) ∧
    ∃ after,
      applyHookX64 subset (.granting true 0) lib 0x140001000 0x150000000 =
        some (after, some 0x140010000) ∧
      Transparent processor (fun _ _ => ∅) code after.memory 0x140001000 0x150000000 0x140010000
        [mov] := by
  intro mov lib processor code
  have measured : computeHookSize subset lib.memory 0x140001000 5 = 7 := by decide +kernel
  have decodes : PrefixDecodes subset lib.memory 0x140001000 5 :=
    computeHookSize_reaches.mp (by rw [measured]; decide)
  refine ⟨?_, applyHookX64_near_transparent
    (sequentialProcessor_executes _ Subset.readsInstruction Subset.jumpOpcodes rfl
      Subset.ripOperands)
    Subset.readsInstruction Subset.displacementInside Subset.relativeDisplacement
    Subset.relocatesDisplacement granting_reservesInPlace (by decide) (by decide) decodes measured
    (allocateAround2gb_granting (by decide)) (span_disjoint (by decide) (by decide))
    (Stolen.ofHolding 0x140001000 [mov] (by decide) (by decide)) ?_⟩
  · let core : Core Unit := ⟨fun _ => 0, fun _ => 0, ()⟩
    have places : mov.item.operandPlaces subset 0x140001007 =
        [.register ⟨0, .qword⟩, .memory 0x140001017 64] := by decide +kernel
    refine ⟨⟨core, lib.memory⟩, _, _, rfl, .cons rfl ?_ ?_ (Set.empty_disjoint _) (.nil _ _ _)⟩
    · exact Disjoint.mono_left (load_writes rfl places core _).le (Set.empty_disjoint _)
    · refine Disjoint.mono_left (load_reads rfl places core) ?_
      rw [Set.union_empty]
      exact Set.disjoint_union_right.mpr ⟨span_disjoint (by decide) (by decide),
        span_disjoint (by decide) (by decide)⟩
  · intro instruction member _
    obtain rfl := List.mem_singleton.mp member
    decide +kernel

end HookLib

end Detours

import Detours.HookLib.FarRedirection
import Detours.Machine.Transparency
import Detours.TrampolineBuilder.Replacement

namespace Detours.HookLib

open Detours.Bytes Detours.Decoding Detours.Machine Detours.Zydis

variable {Flags : Type} {zydis : Api} {semantics : Semantics Flags} {sequential : Mnemonic → Bool}
  {environment : Environment 64} {lib : HookLib 64} {memory other : Memory 64}
  {originalFunction targetFunction trampoline address target : BitVec 64}

theorem jumpTarget_farJump (stored : memory.read address 14 = farJump target) :
    jumpTarget memory address = some target := by
  rw [farJump_eq, Memory.read_add 6 8] at stored
  obtain ⟨opcode, pointer⟩ := List.append_inj stored (by simp)
  rw [jumpTarget_jumpQword opcode, show displacement 0 = 0 from rfl, add_zero,
    read64_eq (address + 6) pointer]

theorem jumpTarget_of_rel32 (opcode : memory address = 0xE9)
    (same : ∀ byte ∈ span address 5, other byte = memory byte) :
    jumpTarget other address = jumpTarget memory address := by
  apply jumpTarget_congr
  rwa [jumpBytes, if_pos opcode]

section Far

variable (installation : Installation .far zydis lib originalFunction trampoline 14)

include installation

variable (environment targetFunction)

theorem hooked_far_block
    (there : ∀ address ∈ hookCode .far originalFunction trampoline 14, memory address =
      (hooked .far zydis environment lib originalFunction targetFunction trampoline).memory
        address) :
    ∀ address ∈ span trampoline 0x1000, memory address =
      farBlock zydis environment lib originalFunction targetFunction trampoline 14 address := by
  intro address inside
  rw [there address (.inr inside), hooked_far_memory _ _ installation]
  apply Memory.write_changesOnly
  rw [farPatchBytes_length _ (by decide) (by decide)]
  exact Set.disjoint_right.mp installation.fresh inside

variable (stolen : Stolen zydis lib.memory originalFunction 14 14)

include stolen

theorem hooked_far_jumps (memory : Memory 64)
    (short : (TrampolineBuilder.emittedCode zydis environment.leftover
      (lib.withBlock environment trampoline 0x1000).memory originalFunction 14 trampoline
      targetFunction).length + 5 ≤ 0x50)
    (there : ∀ address ∈ hookCode .far originalFunction trampoline 14, memory address =
      (hooked .far zydis environment lib originalFunction targetFunction trampoline).memory
        address) :
    jumpTarget memory originalFunction = some (trampoline + 0x58) ∧
    jumpTarget memory (trampoline + 0x58) = some targetFunction ∧
    jumpTarget memory (trampoline + BitVec.ofNat 64 (TrampolineBuilder.emittedCode zydis
        environment.leftover (lib.withBlock environment trampoline 0x1000).memory originalFunction
        14 trampoline targetFunction).length) = some (trampoline + 0x50) ∧
    jumpTarget memory (trampoline + 0x50) = some (originalFunction + 14) := by
  have withBlock := installation.stolenWithBlock environment stolen
  have reads := installation.reads
  have block := hooked_far_block environment targetFunction installation there
  have few := TrampolineBuilder.placedAddresses_length_le environment.leftover trampoline
    targetFunction reads withBlock
  have changes : Memory.ChangesOnly (span trampoline 0x1000)ᶜ
      (farBlock zydis environment lib originalFunction targetFunction trampoline 14) memory :=
    fun address outside => block address (Set.notMem_compl_iff.mp outside)
  have tables := (TrampolineBuilder.built_tables environment.leftover trampoline targetFunction
    reads withBlock short).frame (by omega) changes
    (Set.disjoint_compl_right_iff_subset.mpr (span_add_subset 0x50 (by decide) (by decide)))
  have entry (index : Nat) {target : BitVec 64}
      (placed : (TrampolineBuilder.placedAddresses zydis environment.leftover
        (lib.withBlock environment trampoline 0x1000).memory originalFunction 14 trampoline
        targetFunction)[index]? = some target) := tables.jumpTarget_entry placed
  have patch := (hooked_far_patch_iff environment targetFunction installation).mpr rfl
  have code := TrampolineBuilder.built_read_code environment.leftover trampoline targetFunction
    reads withBlock
  have back := TrampolineBuilder.built_jump_back environment.leftover trampoline targetFunction
    reads withBlock short
  refine ⟨jumpTarget_farJump ?_, entry 1 rfl, ?_,
    entry 0 rfl⟩
  · refine Eq.trans (Memory.read_eq_of_agree (by decide) fun address inside =>
      there address (.inl inside)) (patch.trans ?_)
    simp
  · rw [← back]
    rw [Memory.read_add, TrampolineBuilder.closedCode] at code
    have jump := (List.append_inj code (by simp)).2
    refine jumpTarget_of_rel32 (List.cons.inj jump).1 fun byte inside => block byte ?_
    exact span_add_subset _ (by omega) (by decide) inside

variable {reads : zydis.ReadsInstruction .long64} {opcodes : zydis.JumpOpcodes}
  {jmp : sequential Mnemonic.jmp = false}

theorem hooked_far_transparent (lengths : zydis.EncodedLengths) (operands : zydis.RipOperands)
    (fills : zydis.FillsRequest) (means : zydis.EncodesMeaning)
    (encodesPlain : zydis.EncodesPlain) (surrounds : TrampolineBuilder.Surrounds sequential)
    (succeeds : TrampolineBuilder.BuildSucceeds zydis environment.leftover
      (lib.withBlock environment trampoline 0x1000).memory originalFunction 14 trampoline
      targetFunction)
    (rewritable : TrampolineBuilder.Rewritable zydis semantics environment.leftover
      originalFunction stolen.instructions) :
    Transparent (sequentialProcessor semantics sequential reads opcodes jmp)
      TrampolineBuilder.saveSlot (hookCode .far originalFunction trampoline 14)
      (hooked .far zydis environment lib originalFunction targetFunction trampoline).memory
      originalFunction targetFunction trampoline stolen.instructions := by
  have withBlock := installation.stolenWithBlock environment stolen
  have short := TrampolineBuilder.emittedCode_short environment.leftover trampoline targetFunction
    reads withBlock lengths succeeds
  have jumps (state : State 64 (Core Flags)) :=
    hooked_far_jumps environment targetFunction installation stolen state.memory short
  have code := TrampolineBuilder.built_read_code environment.leftover trampoline targetFunction
    reads withBlock
  have collected := TrampolineBuilder.collected_eq environment.leftover trampoline reads
    (installation.stolenWithBlock environment stolen)
  unfold TrampolineBuilder.BuildSucceeds at succeeds
  rw [collected] at succeeds
  have window := hooked_far_window environment targetFunction installation 0
    (TrampolineBuilder.emittedCode zydis environment.leftover
      (lib.withBlock environment trampoline 0x1000).memory originalFunction 14 trampoline
      targetFunction).length (by omega)
  rw [BitVec.add_zero] at window
  rw [Memory.read_add, TrampolineBuilder.closedCode] at code
  refine transparent_of_replaced reads.selfDelimiting (fun code => ?_)
    (window.trans (List.append_inj code (by simp)).1) ?_ ?_ ?_ (by omega) ?_ ?_
  · obtain ⟨copies, bytes, replaced⟩ := TrampolineBuilder.rewriteAll_replaced reads opcodes jmp
      operands fills means encodesPlain surrounds code rewritable succeeds trampoline
    refine ⟨copies, ?_, replaced⟩
    rw [TrampolineBuilder.emittedCode, TrampolineBuilder.emittedAfter_eq, collected, ← bytes]
    rfl
  · rw [stolen.length_eq]
    exact Set.subset_union_left
  · have room : (TrampolineBuilder.emittedCode zydis environment.leftover
        (lib.withBlock environment trampoline 0x1000).memory originalFunction 14 trampoline
        targetFunction).length ≤ 0x1000 := by omega
    exact (span_mono room).trans Set.subset_union_right
  · rw [stolen.length_eq]
    decide
  · intro state there
    obtain ⟨patch, entry, _, _⟩ := jumps state there
    exact (Processor.Runs.jump patch).trans (Processor.Runs.jump entry)
  · intro state there
    obtain ⟨_, _, back, rest⟩ := jumps state there
    rw [stolen.length_eq]
    exact (Processor.Runs.jump back).trans (Processor.Runs.jump rest)

end Far

end Detours.HookLib

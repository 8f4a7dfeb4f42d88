import Detours.TrampolineBuilder.Layout

namespace Detours

open Detours.Bytes Detours.Decoding Detours.Machine Detours.Zydis

namespace TrampolineBuilder

section Definitions

variable (zydis : Api) (leftover : BitVec 64 → Leftover) (memory : Memory 64)
  (originalAddress : BitVec 64) (size : Nat) (cave hookFunction : BitVec 64)
  (front : List (zydis.Instruction .long64)) (instruction : zydis.Instruction .long64)

/-- The loop of `build` in front of an instruction of the prefix. -/
def before : List Byte × RewriteState :=
  emittedAfter zydis leftover memory originalAddress size cave hookFunction
    (annotateBlock leftover originalAddress front)

def addressOf : BitVec 64 := originalAddress + BitVec.ofNat 64 (blockBytes front).length

def emittedAddress : BitVec 64 :=
  cave + BitVec.ofNat 64
    (before zydis leftover memory originalAddress size cave hookFunction front).1.length

def emittedFor : List Byte :=
  (rewriteInstruction zydis leftover
    (annotated leftover (addressOf zydis originalAddress front) instruction.item)
    (before zydis leftover memory originalAddress size cave hookFunction front).2).1

/-- The jump table entry made for it, if one is made. -/
def entryIndex : Nat := 2 + ((annotateBlock leftover originalAddress front).flatMap relocations).length

end Definitions

variable {zydis : Api} {leftover : BitVec 64 → Leftover} {memory : Memory 64}
  {originalAddress cave hookFunction : BitVec 64} {size : Nat}
  {front rest : List (zydis.Instruction .long64)} {instruction : zydis.Instruction .long64}

/-- The purpose of the branch rewriting: the emitted branch, when taken, arrives at the
target of the original through the entry and the slot made for it. -/
def KeepsTarget (zydis : Api) (leftover : BitVec 64 → Leftover) (memory : Memory 64)
    (originalAddress : BitVec 64) (size : Nat) (cave hookFunction : BitVec 64)
    (front : List (zydis.Instruction .long64)) (instruction : zydis.Instruction .long64) : Prop :=
  let after := built zydis leftover memory originalAddress size cave hookFunction
  let address := emittedAddress zydis leftover memory originalAddress size cave hookFunction front
  let entry := cave + BitVec.ofNat 64 (0x50 + 8 * entryIndex zydis leftover originalAddress front)
  ∃ copy,
    zydis.decode .long64 (after.read address (emittedFor zydis leftover memory originalAddress size
      cave hookFunction front instruction).length) = some copy ∧
    copy.info.imm.isRelative ∧
    copy.branchTarget address = entry ∧
    jumpTarget after entry =
      some (instruction.item.branchTarget (addressOf zydis originalAddress front))

section Branch

variable (reads : zydis.ReadsInstruction .long64)
  (stolen : Stolen zydis memory originalAddress 14 size)
  (split : stolen.instructions = front ++ instruction :: rest)

include reads split

theorem collected_split :
    collected zydis leftover memory originalAddress size cave =
      annotateBlock leftover originalAddress front ++
        annotated leftover (addressOf zydis originalAddress front) instruction.item ::
          annotateBlock leftover (addressOf zydis originalAddress front +
            BitVec.ofNat 64 instruction.bytes.length) rest := by
  rw [collected_eq _ _ reads stolen, split, annotateBlock_append]
  rfl

variable (leftover cave hookFunction) in
theorem emittedCode_split :
    ∃ others, emittedCode zydis leftover memory originalAddress size cave hookFunction =
      (before zydis leftover memory originalAddress size cave hookFunction front).1 ++
        emittedFor zydis leftover memory originalAddress size cave hookFunction front instruction ++
          others := by
  rw [emittedCode, emittedAfter_eq, collected_split reads stolen split, rewriteAll_append, before,
    emittedFor, before, emittedAfter_eq]
  simp only [rewriteAll, List.append_assoc]
  exact ⟨_, rfl⟩

variable (leftover cave hookFunction) in
theorem built_read_emittedFor :
    (built zydis leftover memory originalAddress size cave hookFunction).read
      (emittedAddress zydis leftover memory originalAddress size cave hookFunction front)
      (emittedFor zydis leftover memory originalAddress size cave hookFunction front
        instruction).length =
      emittedFor zydis leftover memory originalAddress size cave hookFunction front instruction := by
  have short := emittedCode_length_le leftover cave hookFunction reads stolen
  obtain ⟨others, code⟩ := emittedCode_split leftover cave hookFunction reads stolen split
  have room : (closedCode cave
      (emittedCode zydis leftover memory originalAddress size cave hookFunction)).length ≤
      2 ^ 64 := by
    rw [closedCode_length]
    omega
  rw [built_eq _ _ _ reads stolen, emittedAddress]
  rw [closedCode] at room ⊢
  generalize jumpRel32 _ = jump at room ⊢
  rw [code, List.append_assoc] at room ⊢
  exact Memory.read_write_middle _ _ _ _ _ room

theorem placedAddresses_entryIndex {target : BitVec 64}
    (branch : relocations (annotated leftover (addressOf zydis originalAddress front)
      instruction.item) = [target]) :
    (placedAddresses zydis leftover memory originalAddress size cave hookFunction)[
      entryIndex zydis leftover originalAddress front]? = some target := by
  have position : entryIndex zydis leftover originalAddress front =
      ([originalAddress + BitVec.ofNat 64 size, hookFunction] ++
        (annotateBlock leftover originalAddress front).flatMap relocations).length := by
    rw [entryIndex, List.length_append]
    rfl
  rw [placedAddresses, collected_split reads stolen split, List.flatMap_append, List.flatMap_cons,
    branch, ← List.append_assoc, position, List.getElem?_append_right (Nat.le_refl _), Nat.sub_self]
  rfl

/-- The state in front of the instruction: the running address is where its code will
stand, and the next free entry is the one it will get. -/
theorem before_state (succeeds : BuildSucceeds zydis leftover memory originalAddress size cave
    hookFunction) :
    (before zydis leftover memory originalAddress size cave hookFunction front).2.runtimeAddress =
      emittedAddress zydis leftover memory originalAddress size cave hookFunction front ∧
    (before zydis leftover memory originalAddress size cave
      hookFunction front).2.builder.jumpTableAddress =
      cave + BitVec.ofNat 64 (0x50 + 8 * entryIndex zydis leftover originalAddress front) ∧
    CallsSucceed zydis
      (annotated leftover (addressOf zydis originalAddress front) instruction.item)
      (before zydis leftover memory originalAddress size cave hookFunction front).2 := by
  have few := stolen_length_le reads stolen
  rw [split, List.length_append] at few
  unfold BuildSucceeds at succeeds
  rw [collected_split reads stolen split, runSucceeds_append] at succeeds
  have start : StateTables cave [originalAddress + BitVec.ofNat 64 size, hookFunction]
      (buildStart zydis leftover memory originalAddress size cave hookFunction) :=
    buildStart_tables
  have tables := (rewriteAll_tables zydis leftover
    (annotateBlock leftover originalAddress front) start
    (by simp only [List.length_cons, List.length_nil, annotateBlock_length]; omega)).1
  rw [before, emittedAfter_eq, emittedAddress, before, emittedAfter_eq]
  refine ⟨rewriteAll_runtimeAddress succeeds.1, ?_, succeeds.2.1⟩
  rw [tables.jumpTableAddress, entryIndex, List.length_append]
  rfl

section Direct

variable (lengths : zydis.EncodedLengths) (branches : zydis.DirectBranches)
  (direct : instruction.item.info.imm.isRelative = true)
  (succeeds : BuildSucceeds zydis leftover memory originalAddress size cave hookFunction)

include lengths branches direct succeeds

theorem rewritesBranch_of_direct : rewritesBranch instruction.item.info = true := by
  obtain ⟨relative, noMemory⟩ := branches.operand instruction.decode_bytes direct
  by_contra other
  have memory : rewritesMemory instruction.item.info = true := by
    simp [rewritesMemory, relative, Bool.eq_false_of_not_eq_true other]
  exact noMemory (hasMemoryOperand_of_succeeds lengths instruction.decode_bytes memory
    (before_state reads stolen split succeeds).2.2)

theorem emittedFor_direct :
    relocations (annotated leftover (addressOf zydis originalAddress front) instruction.item) = [0] ∧
    ∃ copy,
      zydis.decode .long64 (emittedFor zydis leftover memory originalAddress size cave hookFunction
        front instruction) = some copy ∧
      copy.info.length = (emittedFor zydis leftover memory originalAddress size cave hookFunction
        front instruction).length ∧
      copy.info.imm.isRelative ∧
      copy.info.imm.value =
        cave + BitVec.ofNat 64 (0x50 + 8 * entryIndex zydis leftover originalAddress front) -
          (emittedAddress zydis leftover memory originalAddress size cave hookFunction front +
            BitVec.ofNat 64 instruction.bytes.length) := by
  have found := instruction.decode_bytes
  have width : instruction.bytes.length = instruction.item.info.length := instruction.exact
  have branch := rewritesBranch_of_direct reads stolen split lengths branches direct succeeds
  obtain ⟨relative, noMemory⟩ := branches.operand found direct
  obtain ⟨runtime, table, calls⟩ := before_state reads stolen split succeeds
  have zero : (annotated leftover (addressOf zydis originalAddress front)
      instruction.item).absoluteAddress = 0 :=
    (AnnotatedInstruction.create_of_no_memory noMemory).1
  refine ⟨by simp [relocations, relative, branch, zero], ?_⟩
  have isRelative : (annotated leftover (addressOf zydis originalAddress front)
      instruction.item).isRelative = true := by rw [annotated_isRelative, relative]
  have isBranch : rewritesBranch (annotated leftover (addressOf zydis originalAddress front)
      instruction.item).instruction = true := by rw [annotated_instruction, branch]
  unfold CallsSucceed at calls
  rw [encoderCalls_branch isRelative isBranch, List.forall_mem_singleton, zero] at calls
  obtain ⟨encoded, success⟩ := Option.isSome_iff_exists.mp calls
  have code : emittedFor zydis leftover memory originalAddress size cave hookFunction front
      instruction = encoded.bytes := by
    rw [emittedFor, rewriteInstruction_branch isRelative isBranch, zero, success]
    rfl
  obtain ⟨copy, decoded, length, relativeCopy, value⟩ := branches.reencoded found direct
    (annotated_isRequestOf _ _ lengths found) success
  refine ⟨copy, by rw [code, decoded], by rw [code, length], relativeCopy, ?_⟩
  have next : ((before zydis leftover memory originalAddress size cave hookFunction
      front).2.placeRelocation 0).builder.jumpTableAddress - 8 =
      (before zydis leftover memory originalAddress size cave hookFunction
        front).2.builder.jumpTableAddress :=
    add_sub_cancel_right _ _
  have sameRuntime : ((before zydis leftover memory originalAddress size cave hookFunction
      front).2.placeRelocation 0).runtimeAddress =
      (before zydis leftover memory originalAddress size cave hookFunction front).2.runtimeAddress :=
    rfl
  rw [value, next, sameRuntime, table, runtime, annotated_instruction, width]

theorem built_jumpTarget_direct :
    jumpTarget (built zydis leftover memory originalAddress size cave hookFunction)
      (cave + BitVec.ofNat 64 (0x50 + 8 * entryIndex zydis leftover originalAddress front)) =
      some 0 := by
  have relocated :=
    (emittedFor_direct reads stolen split lengths branches direct succeeds).1
  have short := emittedCode_short _ _ _ reads stolen lengths succeeds
  exact (built_tables _ _ _ reads stolen short).jumpTarget_entry
    (placedAddresses_entryIndex reads stolen split relocated)

end Direct

/-- When all encodings succeed, a direct branch of the prefix keeps its target exactly
when the encoder gives it its original length and that target is address zero: no
immediate is ever taken over into the address table. -/
theorem build_keepsTarget_iff (lengths : zydis.EncodedLengths) (branches : zydis.DirectBranches)
    (direct : instruction.item.info.imm.isRelative = true)
    (succeeds : BuildSucceeds zydis leftover memory originalAddress size cave hookFunction) :
    KeepsTarget zydis leftover memory originalAddress size cave hookFunction front instruction ↔
      (emittedFor zydis leftover memory originalAddress size cave hookFunction front
        instruction).length = instruction.bytes.length ∧
      instruction.item.branchTarget (addressOf zydis originalAddress front) = 0 := by
  obtain ⟨_, copy, decoded, length, relative, value⟩ :=
    emittedFor_direct reads stolen split lengths branches direct succeeds
  have toZero := built_jumpTarget_direct reads stolen split lengths branches direct succeeds
  have bytes := built_read_emittedFor leftover cave hookFunction reads stolen split
  unfold KeepsTarget
  simp only [bytes, decoded, toZero, Option.some.injEq, exists_eq_left', relative, true_and]
  -- the displacement is counted from the original length, the copy's from its own
  rw [← length, Decoded.branchTarget_eq_iff (Api.Instruction.length_le instruction) value]
  exact and_congr Iff.rfl eq_comm

end Branch

/-- A jump to address zero is the kind of branch that keeps its target. -/
theorem build_keepsTarget_null :
    let jump : subset.Instruction .long64 := Subset.Form.jmp.instruction [0xFB, 0xFF, 0xFE, 0xFF] rfl
    let nop : subset.Instruction .long64 := Subset.Form.nop.instruction [] rfl
    let lib := HookLib.holding 0x10000 (blockBytes (jump :: List.replicate 9 nop))
    KeepsTarget subset (Environment.granting false (0 : BitVec 64)).leftover lib.memory 0x10000 14
      0x20000000000 0x150000000 [] jump := by
  intro jump nop lib
  have succeeds : BuildSucceeds subset (Environment.granting false (0 : BitVec 64)).leftover
      lib.memory 0x10000 14 0x20000000000 0x150000000 := by decide +kernel
  exact (build_keepsTarget_iff Subset.readsInstruction
    (Stolen.ofHolding 0x10000 (jump :: List.replicate 9 nop) (by decide) (by decide)) rfl
    Subset.encodedLengths Subset.directBranches rfl succeeds).mpr
    ⟨by decide +kernel, by decide +kernel⟩

/-- `JMP +0x10` becomes a jump to address zero. -/
theorem build_loses_target :
    let jump : subset.Instruction .long64 := Subset.Form.jmp.instruction [0x10, 0, 0, 0] rfl
    let nop : subset.Instruction .long64 := Subset.Form.nop.instruction [] rfl
    let lib := HookLib.holding 0x140001000 (blockBytes (jump :: List.replicate 9 nop))
    let leftover := (Environment.granting false (0 : BitVec 64)).leftover
    computeHookSize subset lib.memory 0x140001000 14 = 14 ∧
    BuildSucceeds subset leftover lib.memory 0x140001000 14 0x20000000000 0x150000000 ∧
    jump.item.info.imm.isRelative ∧
    ¬KeepsTarget subset leftover lib.memory 0x140001000 14 0x20000000000 0x150000000 [] jump := by
  intro jump nop lib leftover
  have measured : computeHookSize subset lib.memory 0x140001000 14 = 14 := by decide +kernel
  have succeeds : BuildSucceeds subset leftover lib.memory 0x140001000 14 0x20000000000
      0x150000000 := by decide +kernel
  have split : jump :: List.replicate 9 nop = [] ++ jump :: List.replicate 9 nop := rfl
  have direct : jump.item.info.imm.isRelative = true := rfl
  have toZero := built_jumpTarget_direct Subset.readsInstruction
    (Stolen.ofHolding 0x140001000 (jump :: List.replicate 9 nop) (by decide) (by decide)) split
    Subset.encodedLengths Subset.directBranches direct succeeds
  refine ⟨measured, succeeds, direct, ?_⟩
  intro keeps
  obtain ⟨_, _, _, _, target⟩ := keeps
  have zero := toZero.symm.trans target
  exact absurd zero (by decide +kernel)

end TrampolineBuilder

end Detours

import Detours.HookLib.ComputeHookSize
import Detours.TrampolineBuilder.Emit
import Detours.TrampolineBuilder.Laws

namespace Detours

open Detours.Bytes Detours.Decoding Detours.Machine Detours.Zydis

namespace TrampolineBuilder

variable {zydis : Api} {leftover : BitVec 64 → Leftover} {state : RewriteState}
  {address : BitVec 64} {decoded : Decoded}

theorem operationRequest_eq (zydis : Api) (instruction : AnnotatedInstruction) (unusedReg : Register) :
    let request := (zydis.toEncoderRequest instruction.instruction instruction.operands
      instruction.instruction.operandCountVisible).1
    operationRequest zydis instruction unusedReg =
      substituteRegister request instruction.relativeOperandId
        (fitRegister zydis unusedReg
          (request.operands.getD (if instruction.relativeOperandId = 0 then 1 else 0) default).reg) := by
  intro request
  have different : instruction.relativeOperandId ≠
      if instruction.relativeOperandId = 0 then 1 else 0 := by
    split <;> omega
  unfold operationRequest
  dsimp only
  rw [EncoderRequest.modifyOperand_getD_of_ne _ _ different, substituteRegister,
    EncoderRequest.modifyOperand, EncoderRequest.modifyOperand, EncoderRequest.modifyOperand,
    List.modify_modify_eq]
  rfl

theorem usedRegisters_length_le (instruction : DecodedInstruction)
    (operands : List DecodedOperand) :
    (usedRegisters instruction operands).length ≤ operands.length := by
  refine Nat.le_trans (List.length_filterMap_le _ _) ?_
  rw [List.length_take]
  exact Nat.min_le_right _ _

/-- Ten operands cannot use all fifteen candidates. -/
theorem instructionGetUnusedRegister_mem (instruction : DecodedInstruction)
    (operands : List DecodedOperand) (few : operands.length ≤ maxOperandCount) :
    instructionGetUnusedRegister instruction operands ∈ scratchRegisters := by
  unfold instructionGetUnusedRegister
  cases found : scratchRegisters.find?
      fun reg => !(usedRegisters instruction operands).contains reg with
  | some reg => exact List.mem_of_find?_eq_some found
  | none =>
      have all_used : scratchRegisters ⊆ usedRegisters instruction operands := by
        intro reg candidate
        simpa using List.find?_eq_none.mp found reg candidate
      have distinct : scratchRegisters.Nodup := by decide
      have enough := (distinct.subperm all_used).length_le
      have used := usedRegisters_length_le instruction operands
      have candidates : scratchRegisters.length = 15 := by decide
      unfold maxOperandCount at few
      omega

theorem encodedBytes_length_le_of {outcome : Option Encoded} {bound : Nat}
    (short : ∀ encoded, outcome = some encoded → encoded.bytes.length ≤ bound) :
    (encodedBytes outcome).length ≤ bound := by
  cases outcome with
  | none => exact Nat.zero_le _
  | some encoded => exact short encoded rfl

/-- The instructions whose code `PUSH`, `MOV` and `POP` surround. -/
def rewritesMemory (instruction : DecodedInstruction) : Bool :=
  instruction.isRelative && !rewritesBranch instruction

section Instruction

variable {buffer : List Byte} (lengths : zydis.EncodedLengths)
  (found : zydis.decode .long64 buffer = some decoded)

include lengths found

theorem annotated_operands :
    (annotated leftover address decoded).operands.length = maxOperandCount ∧
      AnnotatedInstruction.SameVisible decoded.info (annotated leftover address decoded).operands
        decoded.operands := by
  have room : decoded.info.operandCountVisible ≤ (leftover address).operands.length := by
    rw [(leftover address).operands_length]
    exact lengths.operandCount found
  exact ⟨(AnnotatedInstruction.create_operands_length room).trans (leftover address).operands_length,
    AnnotatedInstruction.create_sameVisible room⟩

variable (leftover address) in
theorem annotated_isRequestOf :
    IsRequestOf zydis decoded (zydis.toEncoderRequest (annotated leftover address decoded).instruction
      (annotated leftover address decoded).operands
      (annotated leftover address decoded).instruction.operandCountVisible).1 := by
  rw [annotated_instruction]
  exact isRequestOf_annotated _ _ (lengths.operandCount found)

theorem reencode_length_le :
    (encodedBytes (reencode zydis (annotated leftover address decoded).instruction
      (annotated leftover address decoded).operands)).length ≤ decoded.info.length := by
  have request := annotated_isRequestOf leftover address lengths found
  apply encodedBytes_length_le_of
  intro encoded success
  unfold reencode at success
  split at success
  · cases success
  · rename_i result
    rw [result] at request
    exact lengths.reencoded found request success

theorem hasMemoryOperand_of_succeeds
    (memory : rewritesMemory decoded.info = true)
    (succeeds : CallsSucceed zydis (annotated leftover address decoded) state) :
    decoded.HasMemoryOperand := by
  by_contra none
  obtain ⟨relative, branch⟩ : decoded.info.isRelative = true ∧ rewritesBranch decoded.info = false := by
    simpa [rewritesMemory] using memory
  unfold CallsSucceed at succeeds
  rw [encoderCalls_memory (by rw [annotated_isRelative, relative])
    (by rw [annotated_instruction, branch])] at succeeds
  have success := succeeds _ (List.mem_cons_of_mem _ (List.mem_cons_of_mem _ List.mem_cons_self))
  have operandId : (annotated leftover address decoded).relativeOperandId = 0 :=
    (AnnotatedInstruction.create_of_no_memory none).2
  rw [operationRequest_eq, operandId,
    lengths.refused found relative branch none (annotated_isRequestOf _ _ lengths found)] at success
  cases success

variable (leftover state address) in
/-- The code of one instruction: no longer than the instruction, or with fourteen
bytes around an instruction of at least six. -/
theorem rewriteInstruction_length_bound
    (operand : rewritesMemory decoded.info = true → decoded.HasMemoryOperand) :
    (rewriteInstruction zydis leftover (annotated leftover address decoded) state).1.length ≤
      decoded.info.length + (if rewritesMemory decoded.info then 14 else 0) := by
  have request := annotated_isRequestOf leftover address lengths found
  cases relative : decoded.info.isRelative with
  | false =>
      rw [rewriteInstruction_plain (by rw [annotated_isRelative, relative])]
      exact Nat.le_trans (reencode_length_le lengths found) (Nat.le_add_right _ _)
  | true =>
      cases branch : rewritesBranch decoded.info with
      | true =>
          rw [rewriteInstruction_branch (by rw [annotated_isRelative, relative])
            (by rw [annotated_instruction, branch])]
          refine Nat.le_trans (encodedBytes_length_le_of fun encoded success => ?_)
            (Nat.le_add_right _ _)
          exact lengths.branch found relative branch request success
      | false =>
          have memory : rewritesMemory decoded.info = true := by
            simp [rewritesMemory, relative, branch]
          obtain ⟨index, base, other, disp, visible, value, operandId, _⟩ :=
            AnnotatedInstruction.create_of_memory (leftover address).operands address (operand memory)
          have scratch := instructionGetUnusedRegister_mem
            (annotated leftover address decoded).instruction
            (annotated leftover address decoded).operands
            (Nat.le_of_eq (annotated_operands lengths found).1)
          rw [rewriteInstruction_memory (by rw [annotated_isRelative, relative])
            (by rw [annotated_instruction, branch]), if_pos memory]
          generalize instructionGetUnusedRegister (annotated leftover address decoded).instruction
            (annotated leftover address decoded).operands = unusedReg at scratch ⊢
          have push := encodedBytes_length_le_of fun _ => lengths.push scratch
          have mov : (encodedBytes (zydis.encodeInstruction (ZydisUtils.movRegMemRequest unusedReg
              (annotated leftover address decoded).absoluteAddress))).length ≤ _ :=
            encodedBytes_length_le_of fun _ => lengths.mov scratch
          have pop := encodedBytes_length_le_of fun _ => lengths.pop scratch
          have operation : (encodedBytes (zydis.encodeInstruction
              (operationRequest zydis (annotated leftover address decoded) unusedReg))).length ≤
              decoded.info.length := by
            rw [operationRequest_eq, show (annotated leftover address decoded).relativeOperandId = _
              from operandId]
            exact encodedBytes_length_le_of fun encoded =>
              lengths.substituted found relative visible value request
          simp only [List.length_append]
          omega

end Instruction

section Run

def inMemoryForm (instruction : zydis.Instruction .long64) : Bool :=
  rewritesMemory instruction.item.info

/-- Every stolen instruction in the memory form has a memory operand. -/
def MemoryForms (instructions : List (zydis.Instruction .long64)) : Prop :=
  ∀ instruction ∈ instructions, inMemoryForm instruction → instruction.item.HasMemoryOperand

theorem memoryForms_of_succeeds (lengths : zydis.EncodedLengths)
    (instructions : List (zydis.Instruction .long64))
    (succeeds : RunSucceeds zydis leftover state (annotateBlock leftover address instructions)) :
    MemoryForms instructions := by
  induction instructions generalizing address state with
  | nil => exact fun _ member => by cases member
  | cons instruction rest ih =>
      intro other member memory
      rcases List.mem_cons.mp member with rfl | later
      · exact hasMemoryOperand_of_succeeds lengths other.decoded memory succeeds.1
      · exact ih succeeds.2 other later memory

theorem rewriteAll_length_bound (leftover : BitVec 64 → Leftover) (address : BitVec 64)
    (state : RewriteState) (lengths : zydis.EncodedLengths)
    (instructions : List (zydis.Instruction .long64)) (forms : MemoryForms instructions) :
    (rewriteAll zydis leftover state (annotateBlock leftover address instructions)).1.length ≤
      (blockBytes instructions).length +
        14 * instructions.countP inMemoryForm := by
  induction instructions generalizing address state with
  | nil => simp [annotateBlock, rewriteAll]
  | cons instruction rest ih =>
      have width : instruction.bytes.length = instruction.item.info.length := instruction.exact
      have own := rewriteInstruction_length_bound leftover state address lengths
        instruction.decoded (forms instruction List.mem_cons_self)
      have others := ih (address + BitVec.ofNat 64 instruction.bytes.length)
        (rewriteInstruction zydis leftover (annotated leftover address instruction.item) state).2
        (fun other member => forms other (List.mem_cons_of_mem _ member))
      simp only [annotateBlock, rewriteAll, List.length_append, blockBytes_cons, List.countP_cons]
      rw [← width] at own
      change _ ≤ _ + if inMemoryForm instruction then 14 else 0 at own
      split at own
      · rename_i memory
        rw [if_pos memory]
        omega
      · rename_i plain
        rw [if_neg plain]
        omega

theorem rewriteAll_length_le_of_stolen (leftover : BitVec 64 → Leftover) (address : BitVec 64)
    (state : RewriteState) (lengths : zydis.EncodedLengths) {memory : Memory 64}
    {original : BitVec 64} {size : Nat}
    (stolen : Stolen zydis memory original 14 size) (forms : MemoryForms stolen.instructions) :
    (rewriteAll zydis leftover state
      (annotateBlock leftover address stolen.instructions)).1.length + 5 ≤ 0x50 := by
  have code := rewriteAll_length_bound leftover address state lengths stolen.instructions forms
  have few := stolen.startsBelow.countP_mul_lt 6 inMemoryForm (by decide)
    (fun instruction member memory => by
      have relative : instruction.item.info.isRelative = true := by
        simp only [inMemoryForm, rewritesMemory, Bool.and_eq_true] at memory
        exact memory.1
      rw [instruction.exact]
      exact lengths.memoryOperand instruction.decoded relative (forms instruction member memory))
  have size := stolen.size_lt
  rw [stolen.length_eq] at code
  unfold maxInstructionLength at size
  omega

end Run

end TrampolineBuilder

end Detours

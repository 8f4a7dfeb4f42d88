import Detours.TrampolineBuilder.Annotate
import Detours.TrampolineBuilder.Tables

namespace Detours.TrampolineBuilder

open Detours.Bytes Detours.Decoding Detours.Machine Detours.Zydis

variable {zydis : Api} {leftover : BitVec 64 → Leftover} {instruction : AnnotatedInstruction}
  {instructions front rest : List AnnotatedInstruction} {state : RewriteState}
  {cave : BitVec 64} {placed : List (BitVec 64)}

/-- The test that sends a relative instruction to the branch rewriting. -/
def rewritesBranch (instruction : DecodedInstruction) : Bool :=
  ZydisUtils.isJump instruction.mnemonic || instruction.mnemonic == Mnemonic.call

/-- The plain re-encoding: two Zydis calls of which either may fail. -/
def reencode (zydis : Api) (raw : DecodedInstruction) (operands : List DecodedOperand) :
    Option Encoded :=
  match zydis.toEncoderRequest raw operands raw.operandCountVisible with
  | (_, false) => none
  | (request, true) => zydis.encodeInstruction request

/-- The outcomes of the encoder calls for one instruction, in the order of its code. -/
def encoderCalls (zydis : Api) (instruction : AnnotatedInstruction) (state : RewriteState) :
    List (Option Encoded) :=
  let raw := instruction.instruction
  if !instruction.isRelative then [reencode zydis raw instruction.operands]
  else if rewritesBranch raw then
    [zydis.encodeInstruction
      (branchRequest zydis instruction (state.placeRelocation instruction.absoluteAddress))]
  else
    let unusedReg := instructionGetUnusedRegister raw instruction.operands
    [zydis.encodeInstruction (ZydisUtils.pushRequest unusedReg),
      zydis.encodeInstruction (ZydisUtils.movRegMemRequest unusedReg instruction.absoluteAddress),
      zydis.encodeInstruction (operationRequest zydis instruction unusedReg),
      zydis.encodeInstruction (ZydisUtils.popRequest unusedReg)]

def encodedBytes : Option Encoded → List Byte
  | none => []
  | some encoded => encoded.bytes

/-- The size the caller keeps: that of the new bytes, or the old one when the call failed. -/
def encodedSize (outcome : Option Encoded) (size : Nat) : Nat :=
  match outcome with
  | none => size
  | some encoded => encoded.bytes.length

def relocations (instruction : AnnotatedInstruction) : List (BitVec 64) :=
  if instruction.isRelative && rewritesBranch instruction.instruction then
    [instruction.absoluteAddress]
  else []

def CallsSucceed (zydis : Api) (instruction : AnnotatedInstruction) (state : RewriteState) : Prop :=
  ∀ outcome ∈ encoderCalls zydis instruction state, outcome.isSome

instance (zydis : Api) (instruction : AnnotatedInstruction) (state : RewriteState) :
    Decidable (CallsSucceed zydis instruction state) :=
  inferInstanceAs (Decidable (∀ outcome ∈ encoderCalls zydis instruction state, outcome.isSome))

theorem encode_eq (request : EncoderRequest) (size : Nat) :
    ZydisUtils.encode zydis request size =
      (encodedBytes (zydis.encodeInstruction request),
        encodedSize (zydis.encodeInstruction request) size) := by
  unfold ZydisUtils.encode
  cases zydis.encodeInstruction request <;> rfl

theorem encodeDecoded_eq (raw : DecodedInstruction) (operands : List DecodedOperand) (size : Nat) :
    ZydisUtils.encodeDecoded zydis raw operands size =
      (encodedBytes (reencode zydis raw operands),
        encodedSize (reencode zydis raw operands) size) := by
  unfold ZydisUtils.encodeDecoded reencode
  rcases zydis.toEncoderRequest raw operands raw.operandCountVisible with ⟨request, _ | _⟩
  · rfl
  · exact encode_eq request size

theorem size_of_isSome {outcome : Option Encoded} (success : outcome.isSome) (size : Nat) :
    encodedSize outcome size = (encodedBytes outcome).length := by
  obtain ⟨encoded, rfl⟩ := Option.isSome_iff_exists.mp success
  rfl

theorem encodedBytes_length_le (outcome : Option Encoded) :
    (encodedBytes outcome).length ≤ maxInstructionLength := by
  cases outcome with
  | none => exact Nat.zero_le _
  | some encoded => exact encoded.length_le

theorem encodedBytes_ne_nil {outcome : Option Encoded} (success : outcome.isSome) :
    encodedBytes outcome ≠ [] := by
  obtain ⟨encoded, rfl⟩ := Option.isSome_iff_exists.mp success
  exact List.ne_nil_of_length_pos encoded.length_pos

section Cases

variable (relative : instruction.isRelative = true)

theorem rewriteInstruction_plain (plain : instruction.isRelative = false) :
    rewriteInstruction zydis leftover instruction state =
      (encodedBytes (reencode zydis instruction.instruction instruction.operands),
        state.advance
          (encodedSize (reencode zydis instruction.instruction instruction.operands) 0)) := by
  simp only [rewriteInstruction, plain, Bool.not_false, if_true, encodeDecoded_eq]

theorem encoderCalls_plain (plain : instruction.isRelative = false) :
    encoderCalls zydis instruction state =
      [reencode zydis instruction.instruction instruction.operands] := by
  simp only [encoderCalls, plain, Bool.not_false, if_true]

include relative

theorem rewriteInstruction_branch (branch : rewritesBranch instruction.instruction = true) :
    rewriteInstruction zydis leftover instruction state =
      (encodedBytes (zydis.encodeInstruction
          (branchRequest zydis instruction (state.placeRelocation instruction.absoluteAddress))),
        (state.placeRelocation instruction.absoluteAddress).advance
          (encodedSize (zydis.encodeInstruction
            (branchRequest zydis instruction (state.placeRelocation instruction.absoluteAddress)))
            (leftover state.runtimeAddress).size)) := by
  unfold rewritesBranch at branch
  simp only [rewriteInstruction, relative, branch, Bool.not_true, Bool.false_eq_true, if_false,
    if_true, encode_eq]
  rfl

theorem encoderCalls_branch (branch : rewritesBranch instruction.instruction = true) :
    encoderCalls zydis instruction state =
      [zydis.encodeInstruction
        (branchRequest zydis instruction (state.placeRelocation instruction.absoluteAddress))] := by
  simp only [encoderCalls, relative, branch, Bool.not_true, Bool.false_eq_true, if_false, if_true]

theorem rewriteInstruction_memory (memory : rewritesBranch instruction.instruction = false) :
    let unusedReg := instructionGetUnusedRegister instruction.instruction instruction.operands
    let push := zydis.encodeInstruction (ZydisUtils.pushRequest unusedReg)
    let mov := zydis.encodeInstruction
      (ZydisUtils.movRegMemRequest unusedReg instruction.absoluteAddress)
    let operation := zydis.encodeInstruction (operationRequest zydis instruction unusedReg)
    let pop := zydis.encodeInstruction (ZydisUtils.popRequest unusedReg)
    let pushSize := encodedSize push 0
    let movSize := encodedSize mov pushSize
    let operationSize := encodedSize operation movSize
    rewriteInstruction zydis leftover instruction state =
      (encodedBytes push ++ encodedBytes mov ++ encodedBytes operation ++ encodedBytes pop,
        (((state.advance pushSize).advance movSize).advance operationSize).advance
          (encodedSize pop operationSize)) := by
  unfold rewritesBranch at memory
  simp only [rewriteInstruction, relative, memory, Bool.not_true, Bool.false_eq_true, if_false,
    ZydisUtils.encodePushReg, ZydisUtils.encodeMovRegMem, ZydisUtils.encodePopReg, encode_eq]

theorem encoderCalls_memory (memory : rewritesBranch instruction.instruction = false) :
    let unusedReg := instructionGetUnusedRegister instruction.instruction instruction.operands
    encoderCalls zydis instruction state =
      [zydis.encodeInstruction (ZydisUtils.pushRequest unusedReg),
        zydis.encodeInstruction (ZydisUtils.movRegMemRequest unusedReg instruction.absoluteAddress),
        zydis.encodeInstruction (operationRequest zydis instruction unusedReg),
        zydis.encodeInstruction (ZydisUtils.popRequest unusedReg)] := by
  simp only [encoderCalls, relative, memory, Bool.not_true, Bool.false_eq_true, if_false]

end Cases

section Instruction

theorem rewriteInstruction_bytes :
    (rewriteInstruction zydis leftover instruction state).1 =
      (encoderCalls zydis instruction state).flatMap encodedBytes := by
  cases relative : instruction.isRelative with
  | false => simp [rewriteInstruction_plain relative, encoderCalls_plain relative]
  | true =>
      cases branch : rewritesBranch instruction.instruction with
      | true =>
          simp [rewriteInstruction_branch relative branch, encoderCalls_branch relative branch]
      | false =>
          simp [rewriteInstruction_memory relative branch, encoderCalls_memory relative branch]

theorem rewriteInstruction_placed (zydis : Api) (leftover : BitVec 64 → Leftover)
    (instruction : AnnotatedInstruction) (state : RewriteState) :
    (rewriteInstruction zydis leftover instruction state).2.builder =
      ((relocations instruction).foldl RewriteState.placeRelocation state).builder ∧
    (rewriteInstruction zydis leftover instruction state).2.memory =
      ((relocations instruction).foldl RewriteState.placeRelocation state).memory := by
  unfold relocations
  cases relative : instruction.isRelative with
  | false =>
      rw [rewriteInstruction_plain relative]
      exact ⟨rfl, rfl⟩
  | true =>
      cases branch : rewritesBranch instruction.instruction with
      | true =>
          rw [rewriteInstruction_branch relative branch]
          exact ⟨rfl, rfl⟩
      | false =>
          rw [rewriteInstruction_memory relative branch]
          exact ⟨rfl, rfl⟩

/-- The running address keeps up with the emitted bytes while no call fails. -/
theorem rewriteInstruction_runtimeAddress (leftover : BitVec 64 → Leftover)
    (succeeds : CallsSucceed zydis instruction state) :
    (rewriteInstruction zydis leftover instruction state).2.runtimeAddress =
      state.runtimeAddress +
        BitVec.ofNat 64 (rewriteInstruction zydis leftover instruction state).1.length := by
  unfold CallsSucceed at succeeds
  cases relative : instruction.isRelative with
  | false =>
      rw [encoderCalls_plain relative, List.forall_mem_singleton] at succeeds
      rw [rewriteInstruction_plain relative, size_of_isSome succeeds]
      rfl
  | true =>
      cases branch : rewritesBranch instruction.instruction with
      | true =>
          rw [encoderCalls_branch relative branch, List.forall_mem_singleton] at succeeds
          rw [rewriteInstruction_branch relative branch, size_of_isSome succeeds]
          rfl
      | false =>
          simp only [encoderCalls_memory relative branch, List.forall_mem_cons, List.not_mem_nil,
            false_implies, implies_true, and_true] at succeeds
          obtain ⟨push, mov, operation, pop⟩ := succeeds
          simp only [rewriteInstruction_memory relative branch, size_of_isSome push,
            size_of_isSome mov, size_of_isSome operation, size_of_isSome pop,
            RewriteState.advance, List.length_append, BitVec.ofNat_add, BitVec.add_assoc]

theorem encoderCalls_length (zydis : Api) (instruction : AnnotatedInstruction)
    (state : RewriteState) : 0 < (encoderCalls zydis instruction state).length ∧
    (encoderCalls zydis instruction state).length ≤ 4 := by
  cases relative : instruction.isRelative with
  | false => simp [encoderCalls_plain relative]
  | true =>
      cases branch : rewritesBranch instruction.instruction with
      | true => simp [encoderCalls_branch relative branch]
      | false => simp [encoderCalls_memory relative branch]

theorem flatMap_encodedBytes_length_le (outcomes : List (Option Encoded)) :
    (outcomes.flatMap encodedBytes).length ≤ maxInstructionLength * outcomes.length := by
  induction outcomes with
  | nil => simp
  | cons outcome rest ih =>
      have own := encodedBytes_length_le outcome
      simp only [List.flatMap_cons, List.length_append, List.length_cons]
      rw [Nat.mul_succ]
      omega

theorem rewriteInstruction_length_le (zydis : Api) (leftover : BitVec 64 → Leftover)
    (instruction : AnnotatedInstruction) (state : RewriteState) :
    (rewriteInstruction zydis leftover instruction state).1.length ≤ 60 := by
  have calls := (encoderCalls_length zydis instruction state).2
  have bytes := flatMap_encodedBytes_length_le (encoderCalls zydis instruction state)
  rw [rewriteInstruction_bytes]
  unfold maxInstructionLength at bytes
  omega

theorem rewriteInstruction_ne_nil (succeeds : CallsSucceed zydis instruction state) :
    (rewriteInstruction zydis leftover instruction state).1 ≠ [] := by
  rw [rewriteInstruction_bytes]
  obtain ⟨first, others, calls⟩ := List.exists_cons_of_length_pos
    (encoderCalls_length zydis instruction state).1
  rw [calls, List.flatMap_cons]
  have success : first.isSome := succeeds first (by rw [calls]; exact List.mem_cons_self)
  exact List.append_ne_nil_of_left_ne_nil (encodedBytes_ne_nil success) _

theorem relocations_length_le (instruction : AnnotatedInstruction) :
    (relocations instruction).length ≤ 1 := by
  unfold relocations
  split <;> simp

end Instruction

end Detours.TrampolineBuilder

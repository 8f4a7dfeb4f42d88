import Detours.TrampolineBuilder.Rewrite

namespace Detours

open Detours.Bytes Detours.Decoding Detours.Machine Detours.Zydis

namespace TrampolineBuilder

def substituteRegister (request : EncoderRequest) (index : Nat) (reg : Register) :
    EncoderRequest :=
  request.modifyOperand index fun operand => { operand with type := .register, reg }

def substituteImmediate (request : EncoderRequest) (imm : BitVec 64) : EncoderRequest :=
  request.modifyOperand 0 fun operand => { operand with type := .immediate, imm }

/-- The request of an instruction over any array that holds its visible operands. -/
def IsRequestOf (zydis : Api) (decoded : Decoded) (request : EncoderRequest) : Prop :=
  ∃ operands, AnnotatedInstruction.SameVisible decoded.info operands decoded.operands ∧
    request = (zydis.toEncoderRequest decoded.info operands decoded.info.operandCountVisible).1

theorem isRequestOf_annotated {zydis : Api} {decoded : Decoded} (leftover : BitVec 64 → Leftover)
    (address : BitVec 64) (few : decoded.info.operandCountVisible ≤ maxOperandCount) :
    IsRequestOf zydis decoded (zydis.toEncoderRequest decoded.info
      (annotated leftover address decoded).operands decoded.info.operandCountVisible).1 := by
  have room : decoded.info.operandCountVisible ≤ (leftover address).operands.length := by
    rw [(leftover address).operands_length]
    exact few
  exact ⟨_, AnnotatedInstruction.create_sameVisible room, rfl⟩

end TrampolineBuilder

open TrampolineBuilder

/-- What Zydis documents of instruction lengths, for the requests the library makes. -/
structure Zydis.Api.EncodedLengths (zydis : Api) : Prop where
  operandCount : ∀ {buffer decoded}, zydis.decode .long64 buffer = some decoded →
    decoded.info.operandCountVisible ≤ maxOperandCount
  push : ∀ {reg encoded}, reg ∈ scratchRegisters →
    zydis.encodeInstruction (ZydisUtils.pushRequest reg) = some encoded →
    encoded.bytes.length ≤ 2
  pop : ∀ {reg encoded}, reg ∈ scratchRegisters →
    zydis.encodeInstruction (ZydisUtils.popRequest reg) = some encoded → encoded.bytes.length ≤ 2
  mov : ∀ {reg address encoded}, reg ∈ scratchRegisters →
    zydis.encodeInstruction (ZydisUtils.movRegMemRequest reg address) = some encoded →
    encoded.bytes.length ≤ 10
  /-- Re-encoding gives at most the original length. -/
  reencoded : ∀ {buffer decoded request encoded}, zydis.decode .long64 buffer = some decoded →
    IsRequestOf zydis decoded request → zydis.encodeInstruction request = some encoded →
    encoded.bytes.length ≤ decoded.info.length
  branch : ∀ {buffer decoded request imm encoded}, zydis.decode .long64 buffer = some decoded →
    decoded.info.isRelative → rewritesBranch decoded.info → IsRequestOf zydis decoded request →
    zydis.encodeInstruction (substituteImmediate request imm) = some encoded →
    encoded.bytes.length ≤ decoded.info.length
  substituted : ∀ {buffer decoded request index base other disp reg encoded},
    zydis.decode .long64 buffer = some decoded → decoded.info.isRelative →
    index < decoded.info.operandCountVisible →
    (decoded.operands.getD index default).value = .memory base other disp →
    IsRequestOf zydis decoded request →
    zydis.encodeInstruction
      (substituteRegister request (decoded.operands.getD index default).id reg) = some encoded →
    encoded.bytes.length ≤ decoded.info.length
  /-- Opcode, ModRM and a 32-bit displacement. -/
  memoryOperand : ∀ {buffer decoded}, zydis.decode .long64 buffer = some decoded →
    decoded.info.isRelative → decoded.HasMemoryOperand → 6 ≤ decoded.info.length
  /-- `LOOP` and its like have no form with a register. -/
  refused : ∀ {buffer decoded request reg}, zydis.decode .long64 buffer = some decoded →
    decoded.info.isRelative → rewritesBranch decoded.info = false → ¬decoded.HasMemoryOperand →
    IsRequestOf zydis decoded request →
    zydis.encodeInstruction (substituteRegister request 0 reg) = none

/-- The register an operand gives its request: the request is zeroed before it is filled. -/
def Zydis.DecodedOperand.registerValue (operand : DecodedOperand) : Register :=
  match operand.value with
  | .register value => value
  | _ => Register.none

/-- What Zydis documents of the operands of a request. -/
structure Zydis.Api.FillsRequest (zydis : Api) : Prop where
  visible : ∀ {buffer decoded}, zydis.decode .long64 buffer = some decoded →
    decoded.info.operandCountVisible ≤ encoderMaxOperands
  id : ∀ {buffer decoded index}, zydis.decode .long64 buffer = some decoded →
    index < decoded.info.operandCountVisible → (decoded.operands.getD index default).id = index
  size : ∀ {buffer decoded request}, zydis.decode .long64 buffer = some decoded →
    IsRequestOf zydis decoded request → request.operands.length = encoderMaxOperands
  reg : ∀ {buffer decoded request index}, zydis.decode .long64 buffer = some decoded →
    IsRequestOf zydis decoded request →
    (request.operands.getD index default).reg =
      if index < decoded.info.operandCountVisible then
        (decoded.operands.getD index default).registerValue
      else Register.none
  none : zydis.registerWidth Register.none = 0

structure Zydis.Api.DirectBranches (zydis : Api) : Prop where
  operand : ∀ {buffer decoded}, zydis.decode .long64 buffer = some decoded →
    decoded.info.imm.isRelative → decoded.info.isRelative ∧ ¬decoded.HasMemoryOperand
  /-- Re-encoding keeps the mnemonic: the result is such a branch with the new value. -/
  reencoded : ∀ {buffer decoded request value encoded},
    zydis.decode .long64 buffer = some decoded → decoded.info.imm.isRelative →
    IsRequestOf zydis decoded request →
    zydis.encodeInstruction (substituteImmediate request value) = some encoded →
    ∃ copy, zydis.decode .long64 encoded.bytes = some copy ∧
      copy.info.length = encoded.bytes.length ∧ copy.info.imm.isRelative ∧
      copy.info.imm.value = value

/-- What Zydis documents of a branch with an immediate in place of its operand: the mnemonic
and the width of a direct branch are kept, and a value that does not fit it is refused.
`lengthOf` is the length of the encoding it chooses. -/
structure Zydis.Api.EncodesBranches (zydis : Api) (lengthOf : Decoded → BitVec 64 → Nat) :
    Prop where
  operandCount : ∀ {buffer decoded}, zydis.decode .long64 buffer = some decoded →
    decoded.info.operandCountVisible ≤ maxOperandCount
  reencoded : ∀ {buffer decoded request value encoded},
    zydis.decode .long64 buffer = some decoded → decoded.info.isRelative →
    rewritesBranch decoded.info → IsRequestOf zydis decoded request →
    zydis.encodeInstruction (substituteImmediate request value) = some encoded →
    encoded.bytes.length = lengthOf decoded value ∧
    ∃ copy, zydis.decode .long64 encoded.bytes = some copy ∧
      copy.info.length = encoded.bytes.length ∧ copy.info.mnemonic = decoded.info.mnemonic ∧
      copy.info.imm.isRelative ∧ copy.info.imm.value = value
  shorter : ∀ {buffer decoded}, zydis.decode .long64 buffer = some decoded →
    decoded.info.isRelative → rewritesBranch decoded.info →
    ∀ value, lengthOf decoded value ≤ decoded.info.length
  width : ∀ {buffer decoded request value}, zydis.decode .long64 buffer = some decoded →
    rewritesBranch decoded.info → decoded.info.imm.isRelative → IsRequestOf zydis decoded request →
    ((zydis.encodeInstruction (substituteImmediate request value)).isSome ↔
      Api.FitsField decoded.info.imm.size value)

def Zydis.EncoderOperand.Describes (requested : EncoderOperand) (operand : DecodedOperand) : Prop :=
  match requested.type with
  | .unused => operand.value = .unused
  | .register => operand.value = .register requested.reg
  | .memory =>
      operand.value = .memory requested.memBase requested.memIndex requested.memDisplacement ∧
        operand.size = 8 * requested.memSize
  | .pointer => ∃ segment offset, operand.value = .pointer segment offset
  | .immediate => ∃ isRelative, operand.value = .immediate isRelative requested.imm

/-- The bytes decode to the instruction that the request describes. -/
def Zydis.Api.Means (zydis : Api) (request : EncoderRequest) (encoded : Encoded) : Prop :=
  ∃ copy, zydis.decode .long64 encoded.bytes = some copy ∧
    copy.info.length = encoded.bytes.length ∧ copy.info.mnemonic = request.mnemonic ∧
    copy.info.operandCountVisible = request.operandCount ∧
    ∀ index, index < request.operandCount →
      (request.operands.getD index default).Describes (copy.operands.getD index default)

/-- A successful encoding means what its request says, for the requests made for an
instruction with a memory operand. -/
structure Zydis.Api.EncodesMeaning (zydis : Api) : Prop where
  filled : ∀ {buffer decoded request}, zydis.decode .long64 buffer = some decoded →
    IsRequestOf zydis decoded request →
    request.mnemonic = decoded.info.mnemonic ∧
    request.operandCount = decoded.info.operandCountVisible ∧
    ∀ index, index < decoded.info.operandCountVisible →
      (request.operands.getD index default).Describes (decoded.operands.getD index default)
  push : ∀ {reg encoded}, reg ∈ scratchRegisters →
    zydis.encodeInstruction (ZydisUtils.pushRequest reg) = some encoded →
    zydis.Means (ZydisUtils.pushRequest reg) encoded
  pop : ∀ {reg encoded}, reg ∈ scratchRegisters →
    zydis.encodeInstruction (ZydisUtils.popRequest reg) = some encoded →
    zydis.Means (ZydisUtils.popRequest reg) encoded
  mov : ∀ {reg address encoded}, reg ∈ scratchRegisters →
    zydis.encodeInstruction (ZydisUtils.movRegMemRequest reg address) = some encoded →
    zydis.Means (ZydisUtils.movRegMemRequest reg address) encoded
  substituted : ∀ {buffer decoded request index reg encoded},
    zydis.decode .long64 buffer = some decoded → decoded.info.isRelative →
    rewritesBranch decoded.info = false → index < decoded.info.operandCountVisible →
    IsRequestOf zydis decoded request →
    zydis.encodeInstruction (substituteRegister request index reg) = some encoded →
    zydis.Means (substituteRegister request index reg) encoded

/-- What the encoder produces decodes again, as one instruction; a `PUSH` of a register
is not relative. -/
structure Zydis.Api.DecodesBack (zydis : Api) : Prop where
  whole : ∀ {request encoded}, zydis.encodeInstruction request = some encoded →
    ∃ copy, zydis.decode .long64 encoded.bytes = some copy ∧
      copy.info.length = encoded.bytes.length
  push : ∀ {reg encoded copy},
    zydis.encodeInstruction (ZydisUtils.pushRequest reg) = some encoded →
    zydis.decode .long64 encoded.bytes = some copy → copy.info.isRelative = false

end Detours

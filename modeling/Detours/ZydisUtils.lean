import Detours.Zydis.Types

namespace Detours.ZydisUtils

open Detours.Bytes Detours.Zydis

/-! `ZydisUtils`. An encoder failure is reported as an empty byte list, and `size`
keeps the value the caller passed in. -/

def isJump (mnemonic : Mnemonic) : Bool := mnemonic ≤ Mnemonic.jz && mnemonic ≥ Mnemonic.jb

def encode (zydis : Api) (request : EncoderRequest) (size : Nat) : List Byte × Nat :=
  match zydis.encodeInstruction request with
  | none => ([], size)
  | some encoded => (encoded.bytes, encoded.bytes.length)

def encodeDecoded (zydis : Api) (instruction : DecodedInstruction)
    (operands : List DecodedOperand) (size : Nat) : List Byte × Nat :=
  match zydis.toEncoderRequest instruction operands instruction.operandCountVisible with
  | (_, false) => ([], size)
  | (request, true) => encode zydis request size

def pushRequest (reg : Register) : EncoderRequest :=
  { EncoderRequest.zero with mnemonic := Mnemonic.push, machineMode := .long64, operandCount := 1 }
    |>.modifyOperand 0 (fun operand => { operand with type := .register, reg })

def popRequest (reg : Register) : EncoderRequest :=
  { EncoderRequest.zero with mnemonic := Mnemonic.pop, machineMode := .long64, operandCount := 1 }
    |>.modifyOperand 0 (fun operand => { operand with type := .register, reg })

def movRegMemRequest (reg : Register) (memoryAddress : BitVec 64) : EncoderRequest :=
  { EncoderRequest.zero with mnemonic := Mnemonic.mov, machineMode := .long64, operandCount := 2 }
    |>.modifyOperand 0 (fun operand => { operand with type := .register, reg })
    |>.modifyOperand 1 (fun operand =>
      { operand with type := .memory, memBase := Register.none, memDisplacement := memoryAddress,
                     memSize := 8 })

def encodePushReg (zydis : Api) (reg : Register) (size : Nat) : List Byte × Nat :=
  encode zydis (pushRequest reg) size

def encodePopReg (zydis : Api) (reg : Register) (size : Nat) : List Byte × Nat :=
  encode zydis (popRequest reg) size

def encodeMovRegMem (zydis : Api) (reg : Register) (memoryAddress : BitVec 64) (size : Nat) :
    List Byte × Nat :=
  encode zydis (movRegMemRequest reg memoryAddress) size

end Detours.ZydisUtils

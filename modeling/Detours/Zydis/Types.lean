import Detours.Bytes.Endian

namespace Detours.Zydis

open Detours.Bytes

/-! The part of the Zydis interface the library uses. Enumerations whose numeric
values the code computes with (`ZydisRegister`, `ZydisMnemonic`) are their ordinals. -/

inductive MachineMode where
  | long64
  | legacy32
deriving Repr, DecidableEq

abbrev Mnemonic := Nat

namespace Mnemonic

def call : Mnemonic := 67
def inc : Mnemonic := 277
def jb : Mnemonic := 299
def jmp : Mnemonic := 307
def jz : Mnemonic := 320
def loop : Mnemonic := 408
def mov : Mnemonic := 432
def nop : Mnemonic := 483
def pop : Mnemonic := 603
def push : Mnemonic := 657

end Mnemonic

/-- `ZydisRegister`: the sixteen 64-bit general purpose registers follow their
32-bit, 16-bit and 8-bit parts. -/
abbrev Register := Nat

namespace Register

def none : Register := 0
def ax : Register := 21
def eax : Register := 37
def rax : Register := 53
def rcx : Register := 54
def rdx : Register := 55
def rbx : Register := 56
def rsp : Register := 57
def rbp : Register := 58
def rsi : Register := 59
def rdi : Register := 60
def r8 : Register := 61
def r9 : Register := 62
def r10 : Register := 63
def r11 : Register := 64
def r12 : Register := 65
def r13 : Register := 66
def r14 : Register := 67
def r15 : Register := 68
def rip : Register := 197
def maxValue : Register := 265

end Register

/-- The operand union of `ZydisDecodedOperand`, with the type tag that selects it. `mem.segment` is
left out: the library never reads it, and the request of an `FS` or `GS` form keeps its prefix,
with which the encoder refuses the register that takes the place of the operand. -/
inductive OperandValue where
  | unused
  | register (value : Register)
  | memory (base index : Register) (disp : BitVec 64)
  | pointer (segment : BitVec 16) (offset : BitVec 32)
  | immediate (isRelative : Bool) (value : BitVec 64)
deriving Repr, DecidableEq

structure DecodedOperand where
  id : Nat
  size : Nat
  value : OperandValue
deriving Repr, DecidableEq

instance : Inhabited DecodedOperand := ⟨⟨0, 0, .unused⟩⟩

/-- `raw.disp`: size in bits, offset in bytes from the start of the instruction. -/
structure RawDisp where
  value : BitVec 64
  size : Nat
  offset : Nat
deriving Repr, DecidableEq

structure RawImm where
  isRelative : Bool
  value : BitVec 64
  size : Nat
  offset : Nat
deriving Repr, DecidableEq

def maxInstructionLength : Nat := 15
def maxOperandCount : Nat := 10

/-- `ZydisDecodedInstruction`. An instruction takes between 1 and 15 bytes. -/
structure DecodedInstruction where
  mnemonic : Mnemonic
  length : Nat
  operandCount : Nat
  operandCountVisible : Nat
  attributes : BitVec 64
  disp : RawDisp
  imm : RawImm
  length_pos : 0 < length
  length_le : length ≤ maxInstructionLength
deriving Repr, DecidableEq

def attribIsRelative : BitVec 64 := 1 <<< 7

def DecodedInstruction.isRelative (instruction : DecodedInstruction) : Bool :=
  instruction.attributes &&& attribIsRelative != 0

/-- What a successful decode fills in: the instruction and its operand array. -/
structure Decoded where
  info : DecodedInstruction
  operands : List DecodedOperand
deriving Repr, DecidableEq

inductive OperandType where
  | unused
  | register
  | memory
  | pointer
  | immediate
deriving Repr, DecidableEq

/-- `ZydisEncoderOperand`, a plain structure: retagging an operand keeps the
other members. -/
structure EncoderOperand where
  type : OperandType
  reg : Register
  memBase : Register
  memIndex : Register
  memDisplacement : BitVec 64
  memSize : Nat
  imm : BitVec 64
deriving Repr, DecidableEq

def EncoderOperand.zero : EncoderOperand :=
  { type := .unused, reg := Register.none, memBase := Register.none, memIndex := Register.none,
    memDisplacement := 0, memSize := 0, imm := 0 }

instance : Inhabited EncoderOperand := ⟨EncoderOperand.zero⟩

/-- `ZydisEncoderRequest`. The members the code never touches are carried along
because the encoder reads them. -/
structure EncoderRequest where
  machineMode : MachineMode
  mnemonic : Mnemonic
  prefixes : BitVec 64
  allowedEncodings : Nat
  branchType : Nat
  branchWidth : Nat
  addressSizeHint : Nat
  operandSizeHint : Nat
  vectorFeatures : List Nat
  operandCount : Nat
  operands : List EncoderOperand
deriving Repr, DecidableEq

def encoderMaxOperands : Nat := 5

/-- A request after `memset(&req, 0, sizeof(req))`. The zero machine mode is
`ZYDIS_MACHINE_MODE_LONG_64`. -/
def EncoderRequest.zero : EncoderRequest :=
  { machineMode := .long64, mnemonic := 0, prefixes := 0, allowedEncodings := 0, branchType := 0,
    branchWidth := 0, addressSizeHint := 0, operandSizeHint := 0, vectorFeatures := [],
    operandCount := 0, operands := List.replicate encoderMaxOperands EncoderOperand.zero }

def EncoderRequest.modifyOperand (request : EncoderRequest) (index : Nat)
    (change : EncoderOperand → EncoderOperand) : EncoderRequest :=
  { request with operands := request.operands.modify index change }

theorem EncoderRequest.modifyOperand_getD (request : EncoderRequest) (index : Nat)
    (change : EncoderOperand → EncoderOperand) (inside : index < request.operands.length) :
    (request.modifyOperand index change).operands.getD index default =
      change (request.operands.getD index default) := by
  rw [modifyOperand, List.getD_eq_getElem?_getD, List.getElem?_modify_eq,
    List.getD_eq_getElem?_getD, List.getElem?_eq_getElem inside]
  rfl

theorem EncoderRequest.modifyOperand_getD_of_ne (request : EncoderRequest) {index other : Nat}
    (change : EncoderOperand → EncoderOperand) (different : index ≠ other) :
    (request.modifyOperand index change).operands.getD other default =
      request.operands.getD other default := by
  rw [List.getD_eq_getElem?_getD, List.getD_eq_getElem?_getD]
  exact congrArg (Option.getD · default) (List.getElem?_modify_ne _ _ different)

/-- The bytes of one successfully encoded instruction: the encoder fills a buffer
of `ZYDIS_MAX_INSTRUCTION_LENGTH` bytes. -/
structure Encoded where
  bytes : List Byte
  length_pos : 0 < bytes.length
  length_le : bytes.length ≤ maxInstructionLength
deriving Repr, DecidableEq

/-- The Zydis functions the code calls. The decoder stands for both
`ZydisDecoderDecodeFull` and `ZydisDisassembleIntel`, which decodes and then formats. -/
structure Api where
  decode : MachineMode → List Byte → Option Decoded
  toEncoderRequest : DecodedInstruction → List DecodedOperand → Nat → EncoderRequest × Bool
  encodeInstruction : EncoderRequest → Option Encoded
  registerWidth : Register → Nat

end Detours.Zydis

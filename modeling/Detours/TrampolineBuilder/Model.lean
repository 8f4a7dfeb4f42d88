import Detours.Patch
import Detours.HookLib.State
import Detours.ZydisUtils
import Detours.AnnotatedInstruction

namespace Detours

open Detours.Bytes Detours.Zydis

/-! `TrampolineBuilder`: the trampoline of the far path. The cave holds the rewritten
code at its start, the jump table at `+0x50` and the address table at `+0x100`. -/

structure TrampolineBuilder where
  annotatedInstructions : List AnnotatedInstruction
  caveAddress : BitVec 64
  jumpTableAddress : BitVec 64
  addressTableAddress : BitVec 64

namespace TrampolineBuilder

def placeJump (memory : Memory 64) (source target : BitVec 64) : Memory 64 :=
  storeJump memory source target

def placeQwordJump (memory : Memory 64) (source target : BitVec 64) : Memory 64 :=
  storeQwordJump memory source target

def getJumpBackPtr (builder : TrampolineBuilder) : BitVec 64 := builder.caveAddress + 0x50

def getJumpToHookPtr (builder : TrampolineBuilder) : BitVec 64 := builder.caveAddress + 0x58

/-- A new address table slot, and a new jump table entry that jumps through it. -/
def placeRelocation (builder : TrampolineBuilder) (memory : Memory 64) (target : BitVec 64) :
    TrampolineBuilder × Memory 64 :=
  let memory := memory.write builder.addressTableAddress (littleEndian 8 target.toNat)
  let memory := placeQwordJump memory builder.jumpTableAddress builder.addressTableAddress
  ({ builder with
      jumpTableAddress := builder.jumpTableAddress + 8
      addressTableAddress := builder.addressTableAddress + 8 },
    memory)

/-- The loop of `build_annotated_instructions`: the window shrinks with the offset. -/
def buildAnnotatedLoop (zydis : Api) (leftover : BitVec 64 → Leftover) (memory : Memory 64)
    (address : BitVec 64) (bufferSize : Nat) : Nat → Nat → List AnnotatedInstruction
  | 0, _ => []
  | fuel + 1, offset =>
      let current := address + BitVec.ofNat 64 offset
      match zydis.decode .long64 (memory.read current (bufferSize - offset)) with
      | none => []
      | some decoded =>
          if offset < bufferSize then
            AnnotatedInstruction.create (leftover current).operands current decoded ::
              buildAnnotatedLoop zydis leftover memory address bufferSize fuel
                (offset + decoded.info.length)
          else []

def buildAnnotatedInstructions (zydis : Api) (leftover : BitVec 64 → Leftover) (memory : Memory 64)
    (address : BitVec 64) (bufferSize : Nat) : List AnnotatedInstruction :=
  buildAnnotatedLoop zydis leftover memory address bufferSize (bufferSize + 1) 0

/-- Both tables start empty; entry 0 leads back to the original code. -/
def initializeTables (builder : TrampolineBuilder) (memory : Memory 64)
    (originalAddress : BitVec 64) (stolenSize : Nat) : TrampolineBuilder × Memory 64 :=
  placeRelocation
    { builder with
      jumpTableAddress := builder.caveAddress + 0x50
      addressTableAddress := builder.caveAddress + 0x100 }
    memory (originalAddress + BitVec.ofNat 64 stolenSize)

def create (zydis : Api) (leftover : BitVec 64 → Leftover) (memory : Memory 64)
    (originalAddress : BitVec 64) (stolenSize : Nat) (caveAddress : BitVec 64) :
    TrampolineBuilder × Memory 64 :=
  initializeTables
    { annotatedInstructions :=
        buildAnnotatedInstructions zydis leftover memory originalAddress stolenSize
      caveAddress
      jumpTableAddress := 0
      addressTableAddress := 0 }
    memory originalAddress stolenSize

/-- The part of a 64-bit register that has the width of `otherReg`. -/
def fitRegister (zydis : Api) (reg otherReg : Register) : Register :=
  let widthOther := zydis.registerWidth otherReg
  if widthOther = 32 then reg - 16
  else if widthOther = 16 then reg - 32
  else if widthOther = 8 then reg - 48
  else reg

/-- The candidates in the order of `std::set`, by enumerator. -/
def scratchRegisters : List Register :=
  [Register.rax, Register.rcx, Register.rdx, Register.rbx, Register.rbp, Register.rsi,
    Register.rdi, Register.r8, Register.r9, Register.r10, Register.r11, Register.r12,
    Register.r13, Register.r14, Register.r15]

def usedRegisters (instruction : DecodedInstruction) (operands : List DecodedOperand) :
    List Register :=
  (operands.take instruction.operandCount).filterMap fun operand =>
    match operand.value with
    | .register value => some value
    | _ => none

def instructionGetUnusedRegister (instruction : DecodedInstruction)
    (operands : List DecodedOperand) : Register :=
  (scratchRegisters.find? fun reg => !(usedRegisters instruction operands).contains reg).getD
    Register.maxValue

/-- What `rewrite_instruction` changes besides its result. -/
structure RewriteState where
  builder : TrampolineBuilder
  memory : Memory 64
  runtimeAddress : BitVec 64

def RewriteState.advance (state : RewriteState) (size : Nat) : RewriteState :=
  { state with runtimeAddress := state.runtimeAddress + BitVec.ofNat 64 size }

def RewriteState.placeRelocation (state : RewriteState) (target : BitVec 64) : RewriteState :=
  { state with
    builder := (state.builder.placeRelocation state.memory target).1
    memory := (state.builder.placeRelocation state.memory target).2 }

/-- The request for the rewritten JCC/CALL: a jump to the newest jump table entry. -/
def branchRequest (zydis : Api) (instruction : AnnotatedInstruction) (state : RewriteState) :
    EncoderRequest :=
  let raw := instruction.instruction
  let target := state.builder.jumpTableAddress - 8
  (zydis.toEncoderRequest raw instruction.operands raw.operandCountVisible).1.modifyOperand 0
    fun operand =>
      { operand with
        type := .immediate
        imm := target - (state.runtimeAddress + BitVec.ofNat 64 raw.length) }

def operationRequest (zydis : Api) (instruction : AnnotatedInstruction) (unusedReg : Register) :
    EncoderRequest :=
  let raw := instruction.instruction
  let relativeOpId := instruction.relativeOperandId
  let otherOpId := if relativeOpId = 0 then 1 else 0
  let request :=
    (zydis.toEncoderRequest raw instruction.operands raw.operandCountVisible).1.modifyOperand
      relativeOpId fun operand => { operand with type := .register }
  request.modifyOperand relativeOpId fun operand =>
    { operand with
      reg := fitRegister zydis unusedReg (request.operands.getD otherOpId default).reg }

def rewriteInstruction (zydis : Api) (leftover : BitVec 64 → Leftover)
    (instruction : AnnotatedInstruction) (state : RewriteState) : List Byte × RewriteState :=
  let raw := instruction.instruction
  if !instruction.isRelative then
    let (bytes, size) := ZydisUtils.encodeDecoded zydis raw instruction.operands 0
    (bytes, state.advance size)
  else if ZydisUtils.isJump raw.mnemonic || raw.mnemonic == Mnemonic.call then
    let state := state.placeRelocation instruction.absoluteAddress
    -- `size` is read uninitialised when this encoding fails
    let (bytes, size) := ZydisUtils.encode zydis (branchRequest zydis instruction state)
      (leftover state.runtimeAddress).size
    (bytes, state.advance size)
  else
    let unusedReg := instructionGetUnusedRegister raw instruction.operands
    let (push, pushSize) := ZydisUtils.encodePushReg zydis unusedReg 0
    let (mov, movSize) :=
      ZydisUtils.encodeMovRegMem zydis unusedReg instruction.absoluteAddress pushSize
    let (operation, operationSize) :=
      ZydisUtils.encode zydis (operationRequest zydis instruction unusedReg) movSize
    let (pop, popSize) := ZydisUtils.encodePopReg zydis unusedReg operationSize
    (push ++ mov ++ operation ++ pop,
      (((state.advance pushSize).advance movSize).advance operationSize).advance popSize)

def emitInstruction (zydis : Api) (leftover : BitVec 64 → Leftover)
    (emitted : List Byte × RewriteState) (instruction : AnnotatedInstruction) :
    List Byte × RewriteState :=
  let (bytes, state) := rewriteInstruction zydis leftover instruction emitted.2
  (emitted.1 ++ bytes, state)

/-- The loop of `build`, after the jump table entry for the hook function is made. -/
def emitInstructions (zydis : Api) (leftover : BitVec 64 → Leftover) (builder : TrampolineBuilder)
    (memory : Memory 64) (hookFunction : BitVec 64) (instructions : List AnnotatedInstruction) :
    List Byte × RewriteState :=
  let start : RewriteState := { builder, memory, runtimeAddress := builder.caveAddress }
  instructions.foldl (emitInstruction zydis leftover) ([], start.placeRelocation hookFunction)

/-- The code goes over the start of the cave when both tables are in place. -/
def build (zydis : Api) (leftover : BitVec 64 → Leftover) (builder : TrampolineBuilder)
    (memory : Memory 64) (hookFunction : BitVec 64) : Memory 64 :=
  let (bytes, state) :=
    emitInstructions zydis leftover builder memory hookFunction builder.annotatedInstructions
  let memory := state.memory.write builder.caveAddress bytes
  placeJump memory (builder.caveAddress + BitVec.ofNat 64 bytes.length) builder.getJumpBackPtr

end TrampolineBuilder

end Detours

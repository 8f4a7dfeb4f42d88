import Detours.Machine.Cpu
import Detours.Zydis.Laws

namespace Detours.Zydis

open Detours.Bytes Detours.Decoding Detours.Machine

/-- An instruction set in which `MOV` copies its second operand. -/
structure Semantics (Flags : Type) where
  operation : Mnemonic → Operation Flags
  mov : ∀ widths values flags,
    operation Mnemonic.mov widths values flags = ([some (values.getD 1 0), none], flags)

variable {Flags : Type}

/-- Where an operand of an instruction that ends at `next` is. Memory is addressed
absolutely or relative to the instruction pointer, in a segment whose base is zero. -/
def DecodedOperand.location (zydis : Api) (next : BitVec 64) (operand : DecodedOperand) :
    Option Location :=
  match operand.value with
  | .register reg =>
      match Register.part? reg with
      | some part => some (.register part)
      | none => some (.other reg (zydis.registerWidth reg))
  | .memory base index disp =>
      if index ≠ Register.none then none
      else if base = Register.rip then some (.memory (next + disp) operand.size)
      else if base = Register.none then some (.memory disp operand.size)
      else none
  | .immediate _ value => some (.constant value.toNat)
  | _ => none

def Decoded.locations (zydis : Api) (address : BitVec 64) (decoded : Decoded) :
    List (Option Location) :=
  (List.range decoded.info.operandCountVisible).map fun index =>
    (decoded.operands.getD index default).location zydis
      (address + BitVec.ofNat 64 decoded.info.length)

def Mnemonic.isOperation (mnemonic : Mnemonic) : Bool :=
  mnemonic != Mnemonic.push && mnemonic != Mnemonic.pop

def execute (zydis : Api) (semantics : Semantics Flags) (address : BitVec 64) (decoded : Decoded)
    (cpu : Cpu Flags) : Option (Cpu Flags) :=
  if (decoded.locations zydis address).all Option.isSome then
    let places := (decoded.locations zydis address).filterMap id
    if decoded.info.mnemonic = Mnemonic.push then
      match places with
      | [source] => some (cpu.push (BitVec.ofNat 64 (cpu.read source)))
      | _ => none
    else if decoded.info.mnemonic = Mnemonic.pop then
      match places with
      | [.register ⟨index, .qword⟩] => some (cpu.pop index)
      | _ => none
    else some (cpu.apply (semantics.operation decoded.info.mnemonic) places)
  else none

def run (zydis : Api) (semantics : Semantics Flags) (address : BitVec 64) (code : List Byte)
    (cpu : Cpu Flags) : Option (Cpu Flags) :=
  if code = [] then some cpu
  else
    match zydis.decode .long64 code with
    | none => none
    | some decoded =>
        match execute zydis semantics address decoded cpu with
        | none => none
        | some next =>
            run zydis semantics (address + BitVec.ofNat 64 decoded.info.length)
              (code.drop decoded.info.length) next
termination_by code.length
decreasing_by
  have positive := decoded.info.length_pos
  have present : 0 < code.length := List.length_pos_of_ne_nil ‹_›
  rw [List.length_drop]
  omega

section Execute

variable {zydis : Api} {semantics : Semantics Flags} {address : BitVec 64} {decoded : Decoded}
  {cpu next : Cpu Flags} {places : List Location}

theorem execute_operation (located : decoded.locations zydis address = places.map some)
    (operation : decoded.info.mnemonic.isOperation) :
    execute zydis semantics address decoded cpu =
      some (cpu.apply (semantics.operation decoded.info.mnemonic) places) := by
  obtain ⟨push, pop⟩ : decoded.info.mnemonic ≠ Mnemonic.push ∧
      decoded.info.mnemonic ≠ Mnemonic.pop := by
    simpa [Mnemonic.isOperation] using operation
  rw [execute, located, if_pos (by simp), if_neg push, if_neg pop]
  simp

theorem execute_push {source : Location} (located : decoded.locations zydis address = [some source])
    (push : decoded.info.mnemonic = Mnemonic.push) :
    execute zydis semantics address decoded cpu =
      some (cpu.push (BitVec.ofNat 64 (cpu.read source))) := by
  rw [execute, located, if_pos (by simp), if_pos push]
  rfl

theorem execute_pop {index : Fin 16}
    (located : decoded.locations zydis address = [some (.register ⟨index, .qword⟩)])
    (pop : decoded.info.mnemonic = Mnemonic.pop) :
    execute zydis semantics address decoded cpu = some (cpu.pop index) := by
  rw [execute, located, if_pos (by simp), if_neg (by rw [pop]; decide), if_pos pop]
  rfl

theorem run_nil (address : BitVec 64) (cpu : Cpu Flags) :
    run zydis semantics address [] cpu = some cpu := by
  rw [run, if_pos rfl]

theorem run_append (reads : zydis.ReadsInstruction .long64) (instruction : zydis.Instruction .long64)
    (rest : List Byte)
    (executed : execute zydis semantics address instruction.item cpu = some next) :
    run zydis semantics address (instruction.bytes ++ rest) cpu =
      run zydis semantics (address + BitVec.ofNat 64 instruction.bytes.length) rest next := by
  have width : instruction.bytes.length = instruction.item.info.length := instruction.exact
  have found : zydis.decode .long64 (instruction.bytes ++ rest) = some instruction.item :=
    instruction.decode_append reads.selfDelimiting rest
  have present : instruction.bytes ++ rest ≠ [] :=
    List.append_ne_nil_of_left_ne_nil
      (List.ne_nil_of_length_pos (instruction.length_pos reads.selfDelimiting)) _
  rw [run, if_neg present]
  simp only [found, executed]
  rw [← width, List.drop_left]

end Execute

end Detours.Zydis

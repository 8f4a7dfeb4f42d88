import Detours.Machine.Processor
import Detours.Zydis.Subset
import Detours.Machine.Jump

namespace Detours.Zydis

open Detours.Bytes Detours.Decoding Detours.Machine

def DecodedOperand.withDisplacement (value : BitVec 64) (operand : DecodedOperand) :
    DecodedOperand :=
  match operand.value with
  | .memory base index _ =>
      if base = Register.rip then { operand with value := .memory base index value } else operand
  | _ => operand

def Decoded.withDisplacement (decoded : Decoded) (value : BitVec 64) : Decoded where
  info := { decoded.info with disp := { decoded.info.disp with value } }
  operands := decoded.operands.map (·.withDisplacement value)

namespace Api

/-- Another value in the displacement field gives the same instruction with that value. -/
def RelocatesDisplacement (zydis : Api) (mode : MachineMode) : Prop :=
  ∀ {buffer decoded}, zydis.decode mode buffer = some decoded → decoded.hasDisplacement →
    ∀ value : BitVec 32, zydis.decode mode
      (Memory.overwrite buffer decoded.info.disp.offset (littleEndian 4 value.toNat)) =
        some (decoded.withDisplacement (displacement value))

end Api

/-- A processor whose instructions depend on their place as Zydis documents: without a
displacement relative to the instruction pointer not at all, and with one only in the address
that it gives. -/
structure Executes {zydis : Api} {σ : Type}
    (processor : Processor 64 σ (zydis.decoder .long64)) : Prop where
  jump : processor.jump = jumpTarget
  anywhere : ∀ instruction : zydis.Instruction .long64, instruction.item.hasDisplacement = false →
    ∀ next later, SamePlace processor instruction.item instruction.item next later
  displaced : ∀ instruction : zydis.Instruction .long64, instruction.item.hasDisplacement = true →
    ∀ {next later value}, later + value = next + instruction.item.info.disp.value →
      SamePlace processor instruction.item (instruction.item.withDisplacement value) next later

namespace Subset

variable {form : Form} {field : List Byte}

theorem Form.decoded_withDisplacement (memory : form.ripRelative = true) (value : BitVec 32) :
    (form.decoded field).withDisplacement (displacement value) =
      form.decoded (littleEndian 4 value.toNat) := by
  have small := value.isLt
  have stored : form.value (littleEndian 4 value.toNat) = displacement value := by
    rw [Form.value_of_ripRelative memory, ofLittleEndian_littleEndian, Nat.mod_eq_of_lt (by omega),
      BitVec.ofNat_toNat, BitVec.setWidth_eq, displacement]
  unfold Decoded.withDisplacement Form.decoded
  rw [stored]
  generalize displacement value = new
  generalize form.value field = old
  cases form <;> first | rfl | cases memory

theorem relocatesDisplacement : subset.RelocatesDisplacement .long64 := by
  intro buffer decoded found operand value
  obtain ⟨form, old, rest, width, rfl, rfl⟩ := decode_cases found
  rw [Form.decoded_hasDisplacement] at operand
  have memory : form.ripRelative = true := by
    revert operand
    cases form <;> decide
  have shape : (form.decoded old).info.disp = ⟨form.value old, 32, form.opcode.length⟩ :=
    Form.disp_of_ripRelative memory _
  have four := Form.fieldSize_of_ripRelative memory
  have same : (littleEndian 4 value.toNat).length = old.length := by
    rw [littleEndian_length, width, four]
  rw [shape, Form.decoded_withDisplacement memory]
  dsimp only
  rw [Memory.overwrite, List.append_assoc form.opcode, List.take_left,
    ← List.drop_drop, List.drop_left, same, List.drop_left]
  exact decode_form _ rest (same.trans width)

end Subset

end Detours.Zydis

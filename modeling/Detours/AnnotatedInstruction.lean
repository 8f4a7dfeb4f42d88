import Detours.Zydis.Types

namespace Detours

open Detours.Zydis

/-- `AnnotatedInstruction`. The operand array has ten elements, of which the
constructor writes the visible ones. -/
structure AnnotatedInstruction where
  instruction : DecodedInstruction
  operands : List DecodedOperand
  isRelative : Bool
  relativeOperandId : Nat
  absoluteAddress : BitVec 64
deriving Repr, DecidableEq

def AnnotatedInstruction.copyOperand (instructionAddress : BitVec 64) (decoded : Decoded)
    (annotated : AnnotatedInstruction) (index : Nat) : AnnotatedInstruction :=
  let operand := decoded.operands.getD index default
  let annotated := { annotated with operands := annotated.operands.set index operand }
  match operand.value with
  | .memory _ _ disp =>
      { annotated with
        relativeOperandId := operand.id
        absoluteAddress :=
          instructionAddress + BitVec.ofNat 64 annotated.instruction.length + disp }
  | _ => annotated

/-- The constructor. `leftover` is what the operand array held before. -/
def AnnotatedInstruction.create (leftover : List DecodedOperand) (instructionAddress : BitVec 64)
    (decoded : Decoded) : AnnotatedInstruction :=
  (List.range decoded.info.operandCountVisible).foldl
    (AnnotatedInstruction.copyOperand instructionAddress decoded)
    { instruction := decoded.info
      operands := leftover
      isRelative := decoded.info.isRelative
      relativeOperandId := 0
      absoluteAddress := 0 }

namespace AnnotatedInstruction

variable {leftover : List DecodedOperand} {address : BitVec 64} {decoded : Decoded}
  {annotated : AnnotatedInstruction} {index : Nat}

@[simp] theorem copyOperand_instruction :
    (annotated.copyOperand address decoded index).instruction = annotated.instruction := by
  unfold copyOperand
  dsimp only
  split <;> rfl

@[simp] theorem copyOperand_isRelative :
    (annotated.copyOperand address decoded index).isRelative = annotated.isRelative := by
  unfold copyOperand
  dsimp only
  split <;> rfl

@[simp] theorem create_instruction : (create leftover address decoded).instruction = decoded.info := by
  unfold create
  generalize List.range decoded.info.operandCountVisible = indices
  exact List.foldlRecOn
    (motive := fun annotated : AnnotatedInstruction => annotated.instruction = decoded.info)
    indices _ rfl (fun _ same _ _ => by rw [copyOperand_instruction, same])

@[simp] theorem create_isRelative :
    (create leftover address decoded).isRelative = decoded.info.isRelative := by
  unfold create
  generalize List.range decoded.info.operandCountVisible = indices
  exact List.foldlRecOn
    (motive := fun annotated : AnnotatedInstruction => annotated.isRelative = decoded.info.isRelative)
    indices _ rfl (fun _ same _ _ => by rw [copyOperand_isRelative, same])

end AnnotatedInstruction

end Detours

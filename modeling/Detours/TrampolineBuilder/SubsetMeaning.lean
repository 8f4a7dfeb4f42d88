import Detours.TrampolineBuilder.Subset
import Detours.Zydis.Registers

namespace Detours.Zydis.Subset

open Detours.Bytes Detours.TrampolineBuilder

variable {form encodedForm : Form} {buffer field : List Byte} {decoded : Decoded}
  {request : EncoderRequest} {value : BitVec 64} {encoded : Encoded} {index : Nat} {reg : Register}
  {operand : DecodedOperand} {requested : EncoderOperand}

theorem registerWidths : subset.RegisterWidths := by
  intro reg part isPart
  have all : ∀ reg < 69, ∀ part ∈ Register.part? reg, registerWidth reg = part.slice.width := by
    decide
  by_cases small : reg < 69
  · exact all reg small part isPart
  · simp only [Register.part?] at isPart
    repeat' split at isPart
    all_goals first
    | cases isPart; done
    | exact absurd (Nat.lt_of_le_of_lt (And.right ‹_ ∧ _›) (by decide)) small

theorem means_of_encoded (mnemonic : form.mnemonic = request.mnemonic)
    (count : request.operandCount = (form.operandValues 0).length)
    (describes : ∀ index, index < request.operandCount →
      (request.operands.getD index default).Describes
        ((form.decoded (littleEndian form.fieldSize value.toNat)).operands.getD index default)) :
    subset.Means request (form.encoded value) :=
  ⟨_, decode_encoded, by rw [Form.encoded_length, Form.decoded_length],
    mnemonic, count.symm, describes⟩

theorem describes_encoderOperand {operand : DecodedOperand} (whole : operand.size % 8 = 0)
    (direct : ∀ segment offset, operand.value ≠ .pointer segment offset) :
    (encoderOperand operand).Describes operand := by
  unfold encoderOperand
  split
  · assumption
  · exact absurd (by assumption) (direct _ _)
  · assumption
  · exact ⟨by assumption, by change _ = 8 * (_ / 8); omega⟩
  · exact ⟨_, by assumption⟩

theorem describes_of_isRegister {operand : EncoderOperand} {reg : Register}
    {decodedOperand : DecodedOperand} (isReg : isRegister operand reg)
    (same : decodedOperand.value = .register reg) : operand.Describes decodedOperand := by
  obtain ⟨type, named⟩ : operand.type = .register ∧ operand.reg = reg := by
    simpa [isRegister] using isReg
  unfold EncoderOperand.Describes
  rw [type, named]
  exact same

theorem operandCount_of_isRequestOf (made : IsRequestOf subset (form.decoded field) request) :
    request.operandCount = (form.operandValues 0).length := by
  obtain ⟨_, _, rfl⟩ := made
  rfl

theorem Form.size_getD (visible : index < (form.operandValues 0).length) :
    ((form.decoded field).operands.getD index default).size = form.operandSize := by
  have same : (form.operandValues (form.value field)).length = (form.operandValues 0).length := by
    cases form <;> rfl
  change ((form.visibleOperands _).getD index default).size = _
  rw [Form.visibleOperands, List.getD_eq_getElem?_getD, List.getElem?_mapIdx,
    List.getElem?_eq_getElem (by rw [same]; exact visible)]
  rfl

theorem Form.describes_getD (visible : index < (form.operandValues 0).length) :
    (encoderOperand ((form.decoded field).operands.getD index default)).Describes
      ((form.decoded field).operands.getD index default) := by
  have few : (form.operandValues 0).length ≤ 2 := Form.visible_le
  apply describes_encoderOperand
  · rw [Form.size_getD visible]
    cases form <;> rfl
  · intro segment offset pointer
    obtain _ | _ | index := index
    · cases form <;> cases pointer
    · cases form <;> cases pointer
    · omega

theorem substituted_other (reg : Register) (memory : form.ripRelative = true)
    (several : form.mnemonic = Mnemonic.mov)
    (made : IsRequestOf subset (form.decoded field) request) :
    let second := (substituteRegister request index reg).operands.getD 1 default
    second.type ≠ .immediate ∧ (second.type = .memory → second.memBase ≠ Register.none) := by
  obtain ⟨_, length, operands⟩ := isRequestOf made
  intro second
  by_cases last : index = 1
  · have register : second.type = .register := by
      change ((substituteRegister request index reg).operands.getD 1 default).type = _
      rw [last, substituteRegister,
        EncoderRequest.modifyOperand_getD _ _ _ (by rw [length]; decide)]
    rw [register]
    exact ⟨fun same => (by cases same), fun same => by cases same⟩
  · have kept : second = request.operands.getD 1 default :=
      EncoderRequest.modifyOperand_getD_of_ne _ _ last
    rw [kept]
    cases form
    case movRaxRip | movEaxRip | movRcxRip =>
      rw [operands 1 (by decide)]
      exact ⟨fun same => (by cases same), fun _ same => by cases same⟩
    case movRipRcx =>
      rw [operands 1 (by decide)]
      exact ⟨fun same => (by cases same), fun same => by cases same⟩
    all_goals first | (cases memory; done) | cases several

theorem encodesMeaning : subset.EncodesMeaning where
  filled := by
    intro buffer decoded request found made
    obtain ⟨form, field, rest, width, rfl, rfl⟩ := decode_cases found
    obtain ⟨mnemonic, _, operands⟩ := isRequestOf made
    refine ⟨mnemonic, operandCount_of_isRequestOf made, fun index visible => ?_⟩
    rw [operands index visible]
    exact Form.describes_getD visible
  push := by
    intro reg encoded _ success
    obtain ⟨form, value, mnemonic, accepts, rfl⟩ := encodeInstruction_cases success
    obtain rfl : form = .pushRax := Form.eq_of_mnemonic mnemonic (by decide)
      (Form.encodable_of_accepts accepts) rfl
    refine means_of_encoded mnemonic rfl fun index inside => ?_
    obtain rfl : index = 0 := Nat.lt_one_iff.mp inside
    exact describes_of_isRegister accepts rfl
  pop := by
    intro reg encoded _ success
    obtain ⟨form, value, mnemonic, accepts, rfl⟩ := encodeInstruction_cases success
    obtain rfl : form = .popRax := Form.eq_of_mnemonic mnemonic (by decide)
      (Form.encodable_of_accepts accepts) rfl
    refine means_of_encoded mnemonic rfl fun index inside => ?_
    obtain rfl : index = 0 := Nat.lt_one_iff.mp inside
    exact describes_of_isRegister accepts rfl
  mov := by
    intro reg address encoded _ success
    obtain ⟨form, value, mnemonic, accepts, rfl⟩ := encodeInstruction_cases success
    cases form
    case movRaxAbs =>
      obtain ⟨register, _, _, _, fits, stored⟩ := accepts
      refine means_of_encoded mnemonic rfl fun index inside => ?_
      have two : index < 2 := inside
      obtain _ | _ | index := index
      · exact describes_of_isRegister register rfl
      · refine ⟨?_, rfl⟩
        change OperandValue.memory _ _ _ = OperandValue.memory _ _ _
        rw [← stored]
        exact congrArg _ (value_littleEndian fits)
      · omega
    case movEax | movRcxRax | movRaxRcx => cases accepts.2
    all_goals first | exact accepts.elim | cases mnemonic
  substituted := by
    intro buffer decoded request index reg encoded found relative plain visible made success
    obtain ⟨form, field, rest, width, rfl, rfl⟩ := decode_cases found
    obtain ⟨encodedForm, value, mnemonic, accepts, rfl⟩ := encodeInstruction_cases success
    have same : encodedForm.mnemonic = form.mnemonic := mnemonic.trans (isRequestOf made).1
    rw [Form.decoded_isRelative] at relative
    have encodable := Form.encodable_of_accepts accepts
    have count := operandCount_of_isRequestOf made
    by_cases several : form.mnemonic = Mnemonic.mov
    · have memory : form.ripRelative = true := by
        revert several relative
        cases form <;> decide
      have two : (form.operandValues 0).length = 2 := by
        revert several memory
        cases form <;> decide
      obtain ⟨notImmediate, notAbsolute⟩ := substituted_other reg memory several made
      cases encodedForm
      case movRcxRax | movRaxRcx =>
        refine means_of_encoded mnemonic (count.trans two) fun position inside => ?_
        have few : position < 2 := Nat.lt_of_lt_of_eq inside (count.trans two)
        obtain _ | _ | position := position
        · exact describes_of_isRegister accepts.1 rfl
        · exact describes_of_isRegister accepts.2 rfl
        · omega
      case movEax => exact absurd accepts.2 notImmediate
      case movRaxAbs => exact absurd accepts.2.2.1 (notAbsolute accepts.2.1)
      all_goals first | exact accepts.elim | cases same.trans several
    · cases form
      case jzShort | jmp | call | callRip => cases plain
      case loop | incRip =>
        cases encodedForm <;> first | (cases encodable; done) | cases same
      all_goals first | (cases relative; done) | exact absurd rfl several

end Detours.Zydis.Subset

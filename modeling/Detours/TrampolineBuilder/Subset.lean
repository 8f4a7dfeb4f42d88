import Detours.Zydis.Subset
import Detours.TrampolineBuilder.Laws

namespace Detours.Zydis.Subset

open Detours.Bytes Detours.TrampolineBuilder

variable {form encodedForm : Form} {buffer field : List Byte} {decoded : Decoded}
  {request : EncoderRequest} {value : BitVec 64} {encoded : Encoded} {index : Nat}

/-- What a request must hold for the form it is encoded as. -/
def Form.Accepts (form : Form) (request : EncoderRequest) (value : BitVec 64) : Prop :=
  let first := request.operands.getD 0 default
  let second := request.operands.getD 1 default
  match form with
  | nop => True
  | pushRax | popRax => isRegister first Register.rax
  | jmp | call => first.type = .immediate ∧ fits32 value ∧ value = first.imm
  | jzShort => first.type = .immediate ∧ fits8 value ∧ value = first.imm
  | movEax => isRegister first Register.eax ∧ second.type = .immediate
  | movRaxAbs =>
      isRegister first Register.rax ∧ second.type = .memory ∧ second.memBase = Register.none ∧
        second.memIndex = Register.none ∧ fits32 value ∧ value = second.memDisplacement
  | movRcxRax => isRegister first Register.rcx ∧ isRegister second Register.rax
  | movRaxRcx => isRegister first Register.rax ∧ isRegister second Register.rcx
  | loop | movRaxRip | callRip | movEaxRip | movRcxRip | movRipRcx | incRip => False

theorem encodeForm_spec (success : encodeForm request = some (form, value)) :
    form.mnemonic = request.mnemonic ∧ form.Accepts request value := by
  unfold encodeForm at success
  dsimp only at success
  repeat' split at success
  all_goals first | cases success; done | rename_i accepted
  all_goals
    obtain ⟨rfl, rfl⟩ : _ ∧ _ := Prod.mk.inj (Option.some.inj success)
    refine ⟨Eq.symm (by assumption), ?_⟩
    first
    | exact trivial
    | exact accepted
    | exact ⟨accepted.1, accepted.2, rfl⟩
    | exact ⟨accepted.1, accepted.2.1⟩
    | exact ⟨accepted.1, accepted.2.1, accepted.2.2.1, accepted.2.2.2.1, accepted.2.2.2.2, rfl⟩

theorem encodeInstruction_cases (success : subset.encodeInstruction request = some encoded) :
    ∃ form value, Form.mnemonic form = request.mnemonic ∧ form.Accepts request value ∧
      encoded = form.encoded value := by
  obtain ⟨⟨form, value⟩, made, rfl⟩ := Option.map_eq_some_iff.mp success
  obtain ⟨mnemonic, accepts⟩ := encodeForm_spec made
  exact ⟨form, value, mnemonic, accepts, rfl⟩

@[simp] theorem Form.encoded_length : (form.encoded value).bytes.length = form.length := by
  rw [Form.encoded, List.length_append, littleEndian_length, Form.length]

theorem decode_encoded :
    subset.decode .long64 (form.encoded value).bytes =
      some (form.decoded (littleEndian form.fieldSize value.toNat)) := by
  have found := decode_form form []
    (littleEndian_length form.fieldSize value.toNat)
  rwa [List.append_nil] at found

theorem Form.visible_le : (form.operandValues 0).length ≤ 2 := by
  cases form <;> decide

theorem isRequestOf_getD (made : IsRequestOf subset (form.decoded field) request) (index : Nat) :
    request.operands.getD index default =
      if index < (form.operandValues 0).length then
        encoderOperand ((form.decoded field).operands.getD index default)
      else EncoderOperand.zero := by
  obtain ⟨operands, same, rfl⟩ := made
  change ((List.range encoderMaxOperands).map fun index =>
    if index < (form.operandValues 0).length then encoderOperand (operands.getD index default)
    else EncoderOperand.zero).getD index default = _
  rw [List.getD_eq_getElem?_getD, List.getElem?_map]
  by_cases visible : index < (form.operandValues 0).length
  · have room : index < encoderMaxOperands :=
      Nat.lt_of_lt_of_le visible (Nat.le_trans Form.visible_le (by decide))
    rw [List.getElem?_range room, if_pos visible, ← same index visible]
    exact if_pos visible
  · rw [if_neg visible]
    by_cases room : index < encoderMaxOperands
    · rw [List.getElem?_range room]
      exact if_neg visible
    · rw [List.getElem?_eq_none (by rw [List.length_range]; omega)]
      rfl

theorem isRequestOf (made : IsRequestOf subset (form.decoded field) request) :
    request.mnemonic = form.mnemonic ∧ request.operands.length = encoderMaxOperands ∧
    ∀ index, index < (form.operandValues 0).length →
      request.operands.getD index default =
        encoderOperand ((form.decoded field).operands.getD index default) := by
  have filled := isRequestOf_getD made
  obtain ⟨operands, same, rfl⟩ := made
  refine ⟨rfl, by simp [subset, toEncoderRequest], fun index visible => ?_⟩
  rw [filled index, if_pos visible]

/-- What the encoder makes has neither a memory operand relative to the instruction
pointer nor the mnemonic `LOOP`. -/
def Form.encodable (form : Form) : Bool := !form.ripRelative && form != loop

theorem Form.encodable_of_accepts (accepts : form.Accepts request value) : form.encodable := by
  cases form <;> first | rfl | exact accepts.elim

theorem Form.eq_of_mnemonic (same : encodedForm.mnemonic = form.mnemonic)
    (single : form.mnemonic ≠ Mnemonic.mov) (encodable : encodedForm.encodable)
    (direct : form.ripRelative = false) : encodedForm = form := by
  have all : ∀ encodedForm ∈ Form.all, ∀ form ∈ Form.all,
      encodedForm.mnemonic = form.mnemonic → form.mnemonic ≠ Mnemonic.mov →
      encodedForm.encodable → form.ripRelative = false → encodedForm = form := by decide +kernel
  exact all _ encodedForm.mem_all _ form.mem_all same single encodable direct

theorem Form.length_le_of_mnemonic (same : encodedForm.mnemonic = form.mnemonic)
    (single : form.mnemonic ≠ Mnemonic.mov) (encodable : encodedForm.encodable) :
    encodedForm.length ≤ form.length := by
  have all : ∀ encodedForm ∈ Form.all, ∀ form ∈ Form.all,
      encodedForm.mnemonic = form.mnemonic → form.mnemonic ≠ Mnemonic.mov →
      encodedForm.encodable → encodedForm.length ≤ form.length := by decide +kernel
  exact all _ encodedForm.mem_all _ form.mem_all same single encodable

def Form.memoryIndex : Form → Nat
  | callRip | movRipRcx | incRip => 0
  | _ => 1

theorem Form.memoryIndex_eq {base other : Register} {disp : BitVec 64}
    (visible : index < (form.decoded field).info.operandCountVisible)
    (operand : ((form.decoded field).operands.getD index default).value = .memory base other disp) :
    (form.ripRelative = true ∨ form = .movRaxAbs) ∧ index = form.memoryIndex := by
  have below : index < (form.operandValues 0).length := visible
  have few : (form.operandValues 0).length ≤ 2 := Form.visible_le
  clear visible
  obtain _ | _ | index := index
  · cases form <;> first | (cases operand; done) | exact ⟨.inl rfl, rfl⟩
  · cases form <;> first | (cases operand; done) | exact ⟨.inl rfl, rfl⟩ | exact ⟨.inr rfl, rfl⟩
  · omega

theorem hasMemoryOperand_cases (memory : (form.decoded field).HasMemoryOperand) :
    form.ripRelative = true ∨ form = .movRaxAbs := by
  obtain ⟨index, visible, base, other, disp, operand⟩ := memory
  exact (Form.memoryIndex_eq visible operand).1

theorem Form.decoded_id (visible : index < (form.decoded field).info.operandCountVisible) :
    ((form.decoded field).operands.getD index default).id = index := by
  have same : (form.operandValues (form.value field)).length = (form.operandValues 0).length := by
    cases form <;> rfl
  have below : index < (form.operandValues (form.value field)).length := by
    rw [same]
    exact visible
  change ((form.visibleOperands _).getD index default).id = index
  rw [Form.visibleOperands, List.getD_eq_getElem?_getD, List.getElem?_mapIdx,
    List.getElem?_eq_getElem below]
  rfl

theorem substituted_second (reg : Register) (memory : form.ripRelative = true)
    (several : form.mnemonic = Mnemonic.mov) (made : IsRequestOf subset (form.decoded field) request) :
    ((substituteRegister request form.memoryIndex reg).operands.getD 1 default).type =
      .register := by
  obtain ⟨_, length, operands⟩ := isRequestOf made
  cases form
  case movRaxRip | movEaxRip | movRcxRip =>
    change ((substituteRegister request 1 reg).operands.getD 1 default).type = _
    rw [substituteRegister, EncoderRequest.modifyOperand_getD _ _ _ (by rw [length]; decide)]
  case movRipRcx =>
    change ((substituteRegister request 0 reg).operands.getD 1 default).type = _
    rw [substituteRegister, EncoderRequest.modifyOperand_getD_of_ne _ _ (by decide),
      operands 1 (by decide)]
    rfl
  all_goals first | (cases memory; done) | cases several

theorem reencoded_length_le (made : IsRequestOf subset (form.decoded field) request)
    (same : encodedForm.mnemonic = form.mnemonic) (accepts : encodedForm.Accepts request value)
    (several : form.mnemonic = Mnemonic.mov) : encodedForm.length ≤ form.length := by
  obtain ⟨_, _, operands⟩ := isRequestOf made
  cases encodedForm
  case movRcxRax | movRaxRcx =>
    revert several
    cases form <;> decide
  case movEax =>
    have immediate := accepts.2
    cases form
    case movRcxRax | movRaxRcx =>
      rw [operands 1 (by decide)] at immediate
      cases immediate
    all_goals first | decide | cases several
  case movRaxAbs =>
    obtain ⟨_, type, base, _⟩ := accepts
    cases form
    case movRaxAbs => exact Nat.le_refl _
    case movEax | movRipRcx | movRcxRax | movRaxRcx =>
      rw [operands 1 (by decide)] at type
      cases type
    case movRaxRip | movEaxRip | movRcxRip =>
      rw [operands 1 (by decide)] at base
      cases base
    all_goals cases several
  all_goals first | exact accepts.elim | cases same.trans several

theorem substituted_length_le {reg : Register}
    (made : IsRequestOf subset (form.decoded field) request)
    (same : encodedForm.mnemonic = form.mnemonic)
    (accepts : encodedForm.Accepts (substituteRegister request form.memoryIndex reg) value)
    (memory : form.ripRelative = true) (several : form.mnemonic = Mnemonic.mov) :
    encodedForm.length ≤ form.length := by
  have second := substituted_second reg memory several made
  have long : 3 ≤ form.length := by
    revert several
    cases form <;> decide
  cases encodedForm
  case movRcxRax | movRaxRcx => exact long
  case movEax => cases second.symm.trans accepts.2
  case movRaxAbs => cases second.symm.trans accepts.2.1
  all_goals first | exact accepts.elim | cases same.trans several

theorem encodedLengths : subset.EncodedLengths where
  operandCount := by
    intro buffer decoded found
    obtain ⟨form, field, rest, width, rfl, rfl⟩ := decode_cases found
    exact Nat.le_trans Form.visible_le (by decide)
  push := by
    intro reg encoded _ success
    obtain ⟨form, value, mnemonic, _, rfl⟩ := encodeInstruction_cases success
    rw [Form.encoded_length]
    cases form <;> first | decide | cases mnemonic
  pop := by
    intro reg encoded _ success
    obtain ⟨form, value, mnemonic, _, rfl⟩ := encodeInstruction_cases success
    rw [Form.encoded_length]
    cases form <;> first | decide | cases mnemonic
  mov := by
    intro reg address encoded _ success
    obtain ⟨form, value, _, _, rfl⟩ := encodeInstruction_cases success
    rw [Form.encoded_length]
    cases form <;> decide
  reencoded := by
    intro buffer decoded request encoded found made success
    obtain ⟨form, field, rest, width, rfl, rfl⟩ := decode_cases found
    obtain ⟨encodedForm, value, mnemonic, accepts, rfl⟩ := encodeInstruction_cases success
    rw [Form.encoded_length, Form.decoded_length]
    have same : encodedForm.mnemonic = form.mnemonic := mnemonic.trans (isRequestOf made).1
    by_cases several : form.mnemonic = Mnemonic.mov
    · exact reencoded_length_le made same accepts several
    · exact Form.length_le_of_mnemonic same several (Form.encodable_of_accepts accepts)
  branch := by
    intro buffer decoded request imm encoded found relative branch made success
    obtain ⟨form, field, rest, width, rfl, rfl⟩ := decode_cases found
    obtain ⟨encodedForm, value, mnemonic, accepts, rfl⟩ := encodeInstruction_cases success
    have single : form.mnemonic ≠ Mnemonic.mov := by
      intro several
      change (ZydisUtils.isJump form.mnemonic || form.mnemonic == Mnemonic.call) = true at branch
      rw [several] at branch
      revert branch
      decide
    rw [Form.encoded_length, Form.decoded_length]
    exact Form.length_le_of_mnemonic (mnemonic.trans (isRequestOf made).1) single
      (Form.encodable_of_accepts accepts)
  substituted := by
    intro buffer decoded request index base other disp reg encoded found relative visible operand
      made success
    obtain ⟨form, field, rest, width, rfl, rfl⟩ := decode_cases found
    obtain ⟨encodedForm, value, mnemonic, accepts, rfl⟩ := encodeInstruction_cases success
    have same : encodedForm.mnemonic = form.mnemonic := mnemonic.trans (isRequestOf made).1
    obtain ⟨memory, position⟩ := Form.memoryIndex_eq visible operand
    have id : ((form.decoded field).operands.getD index default).id = index :=
      Form.decoded_id visible
    rw [Form.decoded_isRelative] at relative
    rw [Form.encoded_length, Form.decoded_length]
    by_cases several : form.mnemonic = Mnemonic.mov
    · rcases memory with memory | rfl
      · rw [id, position] at accepts
        exact substituted_length_le made same accepts memory several
      · cases relative
    · exact Form.length_le_of_mnemonic same several (Form.encodable_of_accepts accepts)
  memoryOperand := by
    intro buffer decoded found relative memory
    obtain ⟨form, field, rest, width, rfl, rfl⟩ := decode_cases found
    rw [Form.decoded_length]
    rcases hasMemoryOperand_cases memory with memory | rfl
    · revert memory
      cases form <;> decide
    · decide
  refused := by
    intro buffer decoded request reg found relative branch noMemory made
    obtain ⟨form, field, rest, width, rfl, rfl⟩ := decode_cases found
    rw [Form.decoded_isRelative] at relative
    by_contra some
    obtain ⟨encoded, success⟩ := Option.ne_none_iff_exists'.mp some
    obtain ⟨encodedForm, value, mnemonic, accepts, rfl⟩ := encodeInstruction_cases success
    have same : encodedForm.mnemonic = form.mnemonic := mnemonic.trans (isRequestOf made).1
    have encodable := Form.encodable_of_accepts accepts
    cases form
    case loop =>
      obtain rfl := Form.eq_of_mnemonic same (by decide) encodable rfl
      cases encodable
    case movRaxRip | movEaxRip | movRcxRip => exact noMemory ⟨1, Nat.lt_succ_self 1, _, _, _, rfl⟩
    case callRip | movRipRcx | incRip => exact noMemory ⟨0, Nat.succ_pos _, _, _, _, rfl⟩
    case jmp | call | jzShort => cases branch
    all_goals cases relative

theorem value_littleEndian (fits : fits32 value) :
    (BitVec.ofNat 32 (ofLittleEndian (littleEndian 4 value.toNat))).signExtend 64 = value := by
  have same : BitVec.ofNat 32 (ofLittleEndian (littleEndian 4 value.toNat)) = value.setWidth 32 := by
    apply BitVec.eq_of_toNat_eq
    rw [ofLittleEndian_littleEndian, BitVec.toNat_ofNat, BitVec.toNat_setWidth]
    exact Nat.mod_mod_of_dvd _ (by decide)
  rw [same]
  exact eq_of_beq fits

theorem value_littleEndian_byte (fits : fits8 value) :
    (BitVec.ofNat 8 (ofLittleEndian (littleEndian 1 value.toNat))).signExtend 64 = value := by
  have same : BitVec.ofNat 8 (ofLittleEndian (littleEndian 1 value.toNat)) = value.setWidth 8 := by
    apply BitVec.eq_of_toNat_eq
    rw [ofLittleEndian_littleEndian, BitVec.toNat_ofNat, BitVec.toNat_setWidth]
    exact Nat.mod_mod_of_dvd _ (by decide)
  rw [same]
  exact eq_of_beq fits

theorem Form.imm_of_accepts (branch : form.branch = true) (accepts : form.Accepts request value) :
    (form.decoded (littleEndian form.fieldSize value.toNat)).info.imm.isRelative = true ∧
    (form.decoded (littleEndian form.fieldSize value.toNat)).info.imm.value =
      (request.operands.getD 0 default).imm := by
  cases form
  case jmp | call =>
    obtain ⟨_, fits, taken⟩ := accepts
    exact ⟨rfl, (value_littleEndian fits).trans taken⟩
  case jzShort =>
    obtain ⟨_, fits, taken⟩ := accepts
    exact ⟨rfl, (value_littleEndian_byte fits).trans taken⟩
  case loop => exact accepts.elim
  all_goals cases branch

theorem substituteImmediate_first (value : BitVec 64)
    (made : IsRequestOf subset (form.decoded field) request) :
    (substituteImmediate request value).mnemonic = form.mnemonic ∧
    ((substituteImmediate request value).operands.getD 0 default).type = .immediate ∧
      ((substituteImmediate request value).operands.getD 0 default).imm = value := by
  obtain ⟨same, length, _⟩ := isRequestOf made
  rw [substituteImmediate,
    EncoderRequest.modifyOperand_getD request 0 _ (by rw [length]; decide)]
  exact ⟨same, rfl, rfl⟩

theorem directBranches : subset.DirectBranches where
  operand := by
    intro buffer decoded found direct
    obtain ⟨form, field, rest, width, rfl, rfl⟩ := decode_cases found
    rw [Form.decoded_isRelative]
    refine ⟨?_, fun memory => ?_⟩
    · cases form <;> first | rfl | cases direct
    · rcases hasMemoryOperand_cases memory with memory | rfl
      · cases form <;> first | (cases direct; done) | cases memory
      · cases direct
  reencoded := by
    intro buffer decoded request value encoded found direct made success
    obtain ⟨form, field, rest, width, rfl, rfl⟩ := decode_cases found
    obtain ⟨encodedForm, stored, mnemonic, accepts, rfl⟩ := encodeInstruction_cases success
    obtain ⟨same, _, imm⟩ := substituteImmediate_first value made
    rw [same] at mnemonic
    have single : form.mnemonic ≠ Mnemonic.mov ∧ form.ripRelative = false ∧ form.branch = true := by
      cases form <;> first | decide | cases direct
    obtain rfl := Form.eq_of_mnemonic mnemonic single.1 (Form.encodable_of_accepts accepts)
      single.2.1
    rw [← imm]
    exact ⟨_, decode_encoded, by rw [Form.encoded_length, Form.decoded_length],
      Form.imm_of_accepts single.2.2 accepts⟩

theorem decodesBack : subset.DecodesBack where
  whole := by
    intro request encoded success
    obtain ⟨form, value, _, _, rfl⟩ := encodeInstruction_cases success
    exact ⟨_, decode_encoded, by rw [Form.encoded_length, Form.decoded_length]⟩
  push := by
    intro reg encoded copy success decoded
    obtain ⟨form, value, mnemonic, accepts, rfl⟩ := encodeInstruction_cases success
    obtain rfl : form = .pushRax := Form.eq_of_mnemonic mnemonic (by decide)
      (Form.encodable_of_accepts accepts) rfl
    rw [decode_encoded, Option.some.injEq] at decoded
    rw [← decoded, Form.decoded_isRelative]
    rfl

theorem signExtend_setWidth_iff {bits : Nat} (width : bits = 8 ∨ bits = 32) :
    (value.setWidth bits).signExtend 64 = value ↔ Api.FitsField bits value := by
  have extended : ((value.setWidth bits).signExtend 64).toInt = (value.setWidth bits).toInt :=
    BitVec.toInt_signExtend_of_le (by omega)
  constructor
  · intro same
    rw [same] at extended
    rw [Api.FitsField, extended]
    exact ⟨BitVec.le_toInt _, BitVec.toInt_lt⟩
  · intro fits
    apply BitVec.eq_of_toInt_eq
    rw [extended]
    have small := value.isLt
    unfold Api.FitsField at fits
    rw [BitVec.toInt_eq_toNat_bmod, Int.bmod_def] at fits
    rw [BitVec.toInt_setWidth, BitVec.toInt_eq_toNat_bmod, Int.bmod_def, Int.bmod_def]
    rcases width with rfl | rfl <;> omega

theorem fits32_iff : fits32 value ↔ Api.FitsField 32 value := by
  rw [fits32, beq_iff_eq, signExtend_setWidth_iff (.inr rfl)]

theorem fits8_iff : fits8 value ↔ Api.FitsField 8 value := by
  rw [fits8, beq_iff_eq, signExtend_setWidth_iff (.inl rfl)]

/-- The length in which the encoder gives a branch with an immediate back. -/
def branchLength (decoded : Decoded) (_ : BitVec 64) : Nat :=
  if decoded.info.mnemonic = Mnemonic.call then 5 else decoded.info.length

theorem Form.branch_of_encoded (value : BitVec 64) (same : encodedForm.mnemonic = form.mnemonic)
    (encodable : encodedForm.encodable) (relative : form.relative = true)
    (rewritten : rewritesBranch (form.decoded field).info = true) :
    encodedForm.branch = true ∧
      encodedForm.length = branchLength (form.decoded field) value := by
  have all : ∀ encodedForm ∈ Form.all, ∀ form ∈ Form.all,
      encodedForm.mnemonic = form.mnemonic → encodedForm.encodable → form.relative = true →
      (ZydisUtils.isJump form.mnemonic || form.mnemonic == Mnemonic.call) = true →
      encodedForm.branch = true ∧
        encodedForm.length = if form.mnemonic = Mnemonic.call then 5 else form.length := by
    decide +kernel
  exact all _ encodedForm.mem_all _ form.mem_all same encodable relative rewritten

theorem encodesBranches : subset.EncodesBranches branchLength where
  operandCount := encodedLengths.operandCount
  reencoded := by
    intro buffer decoded request value encoded found relative branch made success
    obtain ⟨form, field, rest, width, rfl, rfl⟩ := decode_cases found
    obtain ⟨encodedForm, stored, mnemonic, accepts, rfl⟩ := encodeInstruction_cases success
    obtain ⟨same, _, imm⟩ := substituteImmediate_first value made
    rw [same] at mnemonic
    rw [Form.decoded_isRelative] at relative
    obtain ⟨direct, length⟩ := Form.branch_of_encoded value mnemonic
      (Form.encodable_of_accepts accepts) relative branch
    obtain ⟨relativeCopy, stored⟩ := Form.imm_of_accepts direct accepts
    rw [imm] at stored
    refine ⟨by rw [Form.encoded_length, length], _, decode_encoded,
      by rw [Form.encoded_length, Form.decoded_length], mnemonic, relativeCopy, stored⟩
  shorter := by
    intro buffer decoded found relative branch value
    obtain ⟨form, field, rest, width, rfl, rfl⟩ := decode_cases found
    change (if form.mnemonic = Mnemonic.call then 5 else form.length) ≤ form.length
    cases form <;> decide
  width := by
    intro buffer decoded request value found branch direct made
    obtain ⟨form, field, rest, width, rfl, rfl⟩ := decode_cases found
    obtain ⟨mnemonic, type, imm⟩ := substituteImmediate_first value made
    change ((encodeForm _).map _).isSome ↔ _
    rw [Option.isSome_map]
    unfold encodeForm
    dsimp only
    rw [mnemonic, type, imm]
    cases form
    case jmp | call =>
      change (if .immediate = OperandType.immediate ∧ fits32 value then some (_, value)
        else none).isSome ↔ Api.FitsField 32 value
      rw [← fits32_iff]
      simp
    case jzShort =>
      change (if .immediate = OperandType.immediate ∧ fits8 value then some (_, value)
        else none).isSome ↔ Api.FitsField 8 value
      rw [← fits8_iff]
      simp
    case loop => cases branch
    all_goals cases direct

theorem fillsRequest : subset.FillsRequest where
  visible := by
    intro buffer decoded found
    obtain ⟨form, field, rest, width, rfl, rfl⟩ := decode_cases found
    exact Nat.le_trans Form.visible_le (by decide)
  id := by
    intro buffer decoded index found visible
    obtain ⟨form, field, rest, width, rfl, rfl⟩ := decode_cases found
    exact Form.decoded_id visible
  size := by
    intro buffer decoded request found made
    obtain ⟨form, field, rest, width, rfl, rfl⟩ := decode_cases found
    exact (isRequestOf made).2.1
  reg := by
    intro buffer decoded request index found made
    obtain ⟨form, field, rest, width, rfl, rfl⟩ := decode_cases found
    rw [isRequestOf_getD made]
    change EncoderOperand.reg (if index < (form.operandValues 0).length then _ else _) =
      if index < (form.operandValues 0).length then _ else _
    split
    · unfold encoderOperand DecodedOperand.registerValue
      cases ((form.decoded field).operands.getD index default).value <;> rfl
    · rfl
  none := rfl

end Detours.Zydis.Subset

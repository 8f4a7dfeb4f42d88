import Detours.Zydis.Laws

namespace Detours.Zydis.Subset

open Detours.Bytes Detours.Decoding

/-! A part of Zydis in executable form: a few instructions of 64-bit mode, each an
opcode followed by one little-endian field. It shows that the laws can hold together. -/

inductive Form where
  | nop
  | pushRax
  | popRax
  | jmp
  | call
  | loop
  | movEax
  | movRaxRip
  | movRaxAbs
  | jzShort
  | callRip
  | movEaxRip
  | movRcxRip
  | movRipRcx
  | movRcxRax
  | movRaxRcx
  | incRip
deriving Repr, DecidableEq

namespace Form

def all : List Form :=
  [nop, pushRax, popRax, jmp, call, loop, movEax, movRaxRip, movRaxAbs, jzShort, callRip,
    movEaxRip, movRcxRip, movRipRcx, movRcxRax, movRaxRcx, incRip]

def opcode : Form → List Byte
  | nop => [0x90]
  | pushRax => [0x50]
  | popRax => [0x58]
  | jmp => [0xE9]
  | call => [0xE8]
  | loop => [0xE2]
  | movEax => [0xB8]
  | movRaxRip => [0x48, 0x8B, 0x05]
  | movRaxAbs => [0x48, 0x8B, 0x04, 0x25]
  | jzShort => [0x74]
  | callRip => [0xFF, 0x15]
  | movEaxRip => [0x8B, 0x05]
  | movRcxRip => [0x48, 0x8B, 0x0D]
  | movRipRcx => [0x48, 0x89, 0x0D]
  | movRcxRax => [0x48, 0x89, 0xC1]
  | movRaxRcx => [0x48, 0x89, 0xC8]
  | incRip => [0xFF, 0x05]

def fieldSize : Form → Nat
  | nop | pushRax | popRax | movRcxRax | movRaxRcx => 0
  | loop | jzShort => 1
  | jmp | call | movEax | movRaxRip | movRaxAbs | callRip | movEaxRip | movRcxRip | movRipRcx
  | incRip => 4

def length (form : Form) : Nat := form.opcode.length + form.fieldSize

def mnemonic : Form → Mnemonic
  | nop => Mnemonic.nop
  | pushRax => Mnemonic.push
  | popRax => Mnemonic.pop
  | jmp => Mnemonic.jmp
  | call | callRip => Mnemonic.call
  | loop => Mnemonic.loop
  | jzShort => Mnemonic.jz
  | incRip => Mnemonic.inc
  | movEax | movRaxRip | movRaxAbs | movEaxRip | movRcxRip | movRipRcx | movRcxRax
  | movRaxRcx => Mnemonic.mov

def branch : Form → Bool
  | jmp | call | loop | jzShort => true
  | _ => false

def ripRelative : Form → Bool
  | movRaxRip | callRip | movEaxRip | movRcxRip | movRipRcx | incRip => true
  | _ => false

def relative (form : Form) : Bool := form.branch || form.ripRelative

/-- The field's value: `MOV EAX` zero-extends, the others sign-extend. -/
def value (form : Form) (field : List Byte) : BitVec 64 :=
  let bits := ofLittleEndian field
  match form with
  | movEax => BitVec.ofNat 64 bits
  | loop | jzShort => (BitVec.ofNat 8 bits).signExtend 64
  | _ => (BitVec.ofNat 32 bits).signExtend 64

def operandValues (form : Form) (value : BitVec 64) : List OperandValue :=
  match form with
  | nop => []
  | pushRax | popRax => [.register Register.rax]
  | jmp | call | loop | jzShort => [.immediate true value]
  | movEax => [.register Register.eax, .immediate false value]
  | movRaxRip => [.register Register.rax, .memory Register.rip Register.none value]
  | movRaxAbs => [.register Register.rax, .memory Register.none Register.none value]
  | callRip | incRip => [.memory Register.rip Register.none value]
  | movEaxRip => [.register Register.eax, .memory Register.rip Register.none value]
  | movRcxRip => [.register Register.rcx, .memory Register.rip Register.none value]
  | movRipRcx => [.memory Register.rip Register.none value, .register Register.rcx]
  | movRcxRax => [.register Register.rcx, .register Register.rax]
  | movRaxRcx => [.register Register.rax, .register Register.rcx]

def hiddenOperands : Form → Nat
  | pushRax | popRax | loop | jzShort => 2
  | jmp | incRip => 1
  | call | callRip => 3
  | _ => 0

def operandSize : Form → Nat
  | movEax | movEaxRip | incRip => 32
  | _ => 64

def visibleOperands (form : Form) (value : BitVec 64) : List DecodedOperand :=
  (form.operandValues value).mapIdx fun id value => ⟨id, form.operandSize, value⟩

def disp (form : Form) (value : BitVec 64) : RawDisp :=
  match form with
  | movRaxRip | movRaxAbs | callRip | movEaxRip | movRcxRip | movRipRcx | incRip =>
      { value, size := 32, offset := form.opcode.length }
  | _ => { value := 0, size := 0, offset := 0 }

def imm (form : Form) (value : BitVec 64) : RawImm :=
  match form with
  | jmp | call | loop | jzShort | movEax =>
      { isRelative := form.branch, value, size := 8 * form.fieldSize, offset := 1 }
  | _ => { isRelative := false, value := 0, size := 0, offset := 0 }

def decoded (form : Form) (field : List Byte) : Decoded where
  info :=
    { mnemonic := form.mnemonic
      length := form.length
      operandCount := (form.operandValues 0).length + form.hiddenOperands
      operandCountVisible := (form.operandValues 0).length
      attributes := if form.relative then attribIsRelative else 0
      disp := form.disp (form.value field)
      imm := form.imm (form.value field)
      length_pos := by cases form <;> decide
      length_le := by cases form <;> decide }
  operands := form.visibleOperands (form.value field)

def read (form : Form) (buffer : List Byte) : Option Decoded :=
  let field := (buffer.drop form.opcode.length).take form.fieldSize
  if buffer.take form.opcode.length = form.opcode ∧ field.length = form.fieldSize then
    some (form.decoded field)
  else none

end Form

def decode (buffer : List Byte) : Option Decoded :=
  Form.all.findSome? fun form => form.read buffer

section Decode

variable {form other : Form} {buffer field rest : List Byte} {decoded : Decoded}

theorem Form.mem_all (form : Form) : form ∈ Form.all := by
  cases form <;> decide

theorem Form.eq_of_opcode_prefix (begins : form.opcode <+: other.opcode) : form = other := by
  revert begins
  cases form <;> cases other <;> decide

theorem Form.read_eq_some :
    form.read buffer = some decoded ↔
      ∃ field rest, field.length = form.fieldSize ∧ buffer = form.opcode ++ field ++ rest ∧
        decoded = form.decoded field := by
  unfold Form.read
  constructor
  · intro found
    dsimp only at found
    split at found
    · rename_i matched
      refine ⟨_, (buffer.drop form.opcode.length).drop form.fieldSize, matched.2, ?_,
        (Option.some.inj found).symm⟩
      rw [List.append_assoc, List.take_append_drop]
      conv_rhs => arg 1; rw [← matched.1]
      exact (List.take_append_drop _ _).symm
    · cases found
  · rintro ⟨field, rest, width, rfl, rfl⟩
    rw [List.append_assoc, List.take_left, List.drop_left, ← width, List.take_left]
    exact if_pos ⟨rfl, rfl⟩

theorem Form.eq_of_read (found : (form.read buffer).isSome) (also : (other.read buffer).isSome) :
    form = other := by
  obtain ⟨_, found⟩ := Option.isSome_iff_exists.mp found
  obtain ⟨_, also⟩ := Option.isSome_iff_exists.mp also
  obtain ⟨field, rest, _, rfl, _⟩ := Form.read_eq_some.mp found
  obtain ⟨otherField, otherRest, _, same, _⟩ := Form.read_eq_some.mp also
  rw [List.append_assoc, List.append_assoc] at same
  have first : form.opcode <+: form.opcode ++ (field ++ rest) := List.prefix_append _ _
  have second : other.opcode <+: form.opcode ++ (field ++ rest) := same ▸ List.prefix_append _ _
  rcases Nat.le_total form.opcode.length other.opcode.length with shorter | longer
  · exact Form.eq_of_opcode_prefix (List.prefix_of_prefix_length_le first second shorter)
  · exact (Form.eq_of_opcode_prefix (List.prefix_of_prefix_length_le second first longer)).symm

theorem decode_eq_some :
    decode buffer = some decoded ↔ ∃ form : Form, form.read buffer = some decoded := by
  unfold decode
  constructor
  · intro found
    obtain ⟨form, _, read⟩ := List.exists_of_findSome?_eq_some found
    exact ⟨form, read⟩
  · rintro ⟨form, read⟩
    cases found : Form.all.findSome? fun form => form.read buffer with
    | none =>
        rw [List.findSome?_eq_none_iff] at found
        rw [found form form.mem_all] at read
        cases read
    | some first =>
        obtain ⟨other, _, otherRead⟩ := List.exists_of_findSome?_eq_some found
        obtain rfl := Form.eq_of_read (Option.isSome_of_eq_some read)
          (Option.isSome_of_eq_some otherRead)
        rw [← read, otherRead]

theorem decode_form (form : Form) (rest : List Byte) (width : field.length = form.fieldSize) :
    decode (form.opcode ++ field ++ rest) = some (form.decoded field) :=
  decode_eq_some.mpr ⟨form, Form.read_eq_some.mpr ⟨field, rest, width, rfl, rfl⟩⟩

theorem decode_cases (found : decode buffer = some decoded) :
    ∃ form field rest, field.length = form.fieldSize ∧ buffer = form.opcode ++ field ++ rest ∧
      decoded = Form.decoded form field := by
  obtain ⟨form, read⟩ := decode_eq_some.mp found
  exact ⟨form, Form.read_eq_some.mp read⟩

end Decode

def encoderOperand (operand : DecodedOperand) : EncoderOperand :=
  match operand.value with
  | .unused | .pointer _ _ => EncoderOperand.zero
  | .register reg => { EncoderOperand.zero with type := .register, reg }
  | .memory base index disp =>
      { EncoderOperand.zero with
        type := .memory
        memBase := base
        memIndex := index
        memDisplacement := disp
        memSize := operand.size / 8 }
  | .immediate _ imm => { EncoderOperand.zero with type := .immediate, imm }

def toEncoderRequest (info : DecodedInstruction) (operands : List DecodedOperand) (count : Nat) :
    EncoderRequest × Bool :=
  ({ EncoderRequest.zero with
      mnemonic := info.mnemonic
      operandCount := count
      operands := (List.range encoderMaxOperands).map fun index =>
        if index < count then encoderOperand (operands.getD index default) else EncoderOperand.zero },
    count ≤ encoderMaxOperands)

def fits32 (value : BitVec 64) : Bool := (value.setWidth 32).signExtend 64 == value

def isRegister (operand : EncoderOperand) (reg : Register) : Bool :=
  operand.type == .register && operand.reg == reg

def fits8 (value : BitVec 64) : Bool := (value.setWidth 8).signExtend 64 == value

/-- The form that encodes a request, with the value of its field. -/
def encodeForm (request : EncoderRequest) : Option (Form × BitVec 64) :=
  let first := request.operands.getD 0 default
  let second := request.operands.getD 1 default
  if request.mnemonic = Mnemonic.nop then
    if request.operandCount = 0 then some (.nop, 0) else none
  else if request.mnemonic = Mnemonic.push then
    if isRegister first Register.rax then some (.pushRax, 0) else none
  else if request.mnemonic = Mnemonic.pop then
    if isRegister first Register.rax then some (.popRax, 0) else none
  else if request.mnemonic = Mnemonic.jmp then
    if first.type = .immediate ∧ fits32 first.imm then some (.jmp, first.imm) else none
  else if request.mnemonic = Mnemonic.call then
    if first.type = .immediate ∧ fits32 first.imm then some (.call, first.imm) else none
  else if request.mnemonic = Mnemonic.mov then
    if isRegister first Register.eax ∧ second.type = .immediate ∧ second.imm.toNat < 2 ^ 32 then
      some (.movEax, second.imm)
    else if isRegister first Register.rax ∧ second.type = .memory ∧
        second.memBase = Register.none ∧ second.memIndex = Register.none ∧
        fits32 second.memDisplacement then
      some (.movRaxAbs, second.memDisplacement)
    else if isRegister first Register.rcx ∧ isRegister second Register.rax then
      some (.movRcxRax, 0)
    else if isRegister first Register.rax ∧ isRegister second Register.rcx then
      some (.movRaxRcx, 0)
    else none
  else if request.mnemonic = Mnemonic.jz then
    if first.type = .immediate ∧ fits8 first.imm then some (.jzShort, first.imm) else none
  else none

def Form.encoded (form : Form) (value : BitVec 64) : Encoded where
  bytes := form.opcode ++ littleEndian form.fieldSize value.toNat
  length_pos := by
    rw [List.length_append, littleEndian_length]
    cases form <;> decide
  length_le := by
    rw [List.length_append, littleEndian_length]
    cases form <;> decide

def registerWidth (reg : Register) : Nat :=
  if Register.rax ≤ reg ∧ reg ≤ Register.r15 then 64
  else if Register.eax ≤ reg ∧ reg < Register.rax then 32
  else if Register.ax ≤ reg ∧ reg < Register.eax then 16
  else if Register.none < reg ∧ reg < Register.ax then 8
  else 0

end Detours.Zydis.Subset

namespace Detours.Zydis

def subset : Api where
  decode
    | .long64, buffer => Subset.decode buffer
    | .legacy32, _ => none
  toEncoderRequest := Subset.toEncoderRequest
  encodeInstruction := fun request =>
    (Subset.encodeForm request).map fun encoded => encoded.1.encoded encoded.2
  registerWidth := Subset.registerWidth

namespace Subset

open Detours.Bytes

variable {form : Form} {buffer field : List Byte} {decoded : Decoded}

@[simp] theorem Form.decoded_length : (form.decoded field).info.length = form.length := rfl

@[simp] theorem Form.decoded_isRelative : (form.decoded field).info.isRelative = form.relative := by
  change ((if form.relative then attribIsRelative else 0) &&& attribIsRelative != 0) = _
  cases form.relative <;> decide

theorem readsInstruction : subset.ReadsInstruction .long64 where
  bounded := by
    intro buffer decoded found
    obtain ⟨form, field, rest, width, rfl, rfl⟩ := decode_cases found
    rw [Form.decoded_length, Form.length, List.length_append, List.length_append]
    omega
  prefixOnly := by
    intro buffer decoded found rest
    obtain ⟨form, field, others, width, rfl, rfl⟩ := decode_cases found
    rw [Form.decoded_length, List.take_left' (by rw [List.length_append, Form.length, width])]
    exact decode_form _ _ width

def Form.instruction (form : Form) (field : List Byte) (width : field.length = form.fieldSize) :
    subset.Instruction .long64 where
  item := form.decoded field
  bytes := form.opcode ++ field
  exact := by
    rw [List.length_append, width]
    rfl
  decoded := by
    have found := decode_form form [] width
    rwa [List.append_nil] at found

theorem displacementInside : subset.DisplacementInside .long64 := by
  intro buffer decoded found _
  obtain ⟨form, field, rest, width, rfl, rfl⟩ := decode_cases found
  cases form <;> simp [Form.decoded, Form.disp, Form.length, Form.opcode, Form.fieldSize]

theorem toNat_signExtend_mod (value : BitVec 32) :
    (value.signExtend 64).toNat % 2 ^ 32 = value.toNat := by
  have small := value.isLt
  rw [BitVec.toNat_signExtend]
  simp
  split <;> omega

theorem Form.fieldSize_of_ripRelative (memory : form.ripRelative = true) : form.fieldSize = 4 := by
  cases form <;> first | rfl | cases memory

theorem Form.disp_of_ripRelative (memory : form.ripRelative = true) (value : BitVec 64) :
    form.disp value = ⟨value, 32, form.opcode.length⟩ := by
  cases form <;> first | rfl | cases memory

theorem Form.value_of_ripRelative (memory : form.ripRelative = true) (field : List Byte) :
    form.value field = (BitVec.ofNat 32 (ofLittleEndian field)).signExtend 64 := by
  cases form <;> first | rfl | cases memory

theorem Form.disp_field (memory : form.ripRelative = true) (width : field.length = form.fieldSize)
    (rest : List Byte) :
    (form.decoded field).info.disp.size = 32 ∧
      ((form.opcode ++ field ++ rest).drop (form.decoded field).info.disp.offset).take 4 =
        littleEndian 4 (form.decoded field).info.disp.value.toNat := by
  have shape : (form.decoded field).info.disp = ⟨form.value field, 32, form.opcode.length⟩ :=
    Form.disp_of_ripRelative memory _
  rw [Form.fieldSize_of_ripRelative memory] at width
  rw [shape, Form.value_of_ripRelative memory]
  refine ⟨rfl, ?_⟩
  dsimp only
  have bytes := littleEndian_ofLittleEndian field
  rw [width] at bytes
  have window : ((form.opcode ++ field ++ rest).drop form.opcode.length).take 4 = field := by
    rw [List.append_assoc, List.drop_left, ← width, List.take_left]
  rw [window]
  refine bytes.symm.trans (littleEndian_inj.mpr ?_)
  change _ = ((BitVec.ofNat 32 (ofLittleEndian field)).signExtend 64).toNat % 2 ^ 32
  rw [toNat_signExtend_mod, BitVec.toNat_ofNat]
  rfl

theorem relativeDisplacement : subset.RelativeDisplacement .long64 := by
  intro buffer decoded found relative
  obtain ⟨form, field, rest, width, rfl, rfl⟩ := decode_cases found
  rw [Form.decoded_isRelative, Form.relative, Bool.or_eq_true] at relative
  rcases relative with branch | memory
  · left
    cases form <;> first | rfl | cases branch
  · exact .inr (Form.disp_field memory width rest)

theorem Form.decoded_hasDisplacement :
    (form.decoded field).hasDisplacement = (form.relative && (form.disp 0).size == 32) := by
  have size (value : BitVec 64) : (form.disp value).size = (form.disp 0).size := by
    cases form <;> rfl
  rw [Decoded.hasDisplacement, Form.decoded_isRelative, ← size (form.value field)]
  rfl

theorem lengthIgnoresDisplacement : subset.LengthIgnoresDisplacement .long64 := by
  intro buffer decoded found operand field four
  obtain ⟨form, old, rest, width, rfl, rfl⟩ := decode_cases found
  rw [Form.decoded_hasDisplacement] at operand
  have memory : form.ripRelative = true := by
    revert operand
    cases form <;> decide
  have shape : (form.decoded old).info.disp = ⟨form.value old, 32, form.opcode.length⟩ :=
    Form.disp_of_ripRelative memory _
  have same : field.length = old.length := by
    rw [four, width, Form.fieldSize_of_ripRelative memory]
  refine ⟨form.decoded field, ?_, Form.decoded_length.trans Form.decoded_length.symm⟩
  rw [shape]
  dsimp only
  rw [Memory.overwrite, List.append_assoc form.opcode, List.take_left,
    ← List.drop_drop, List.drop_left, same, List.drop_left]
  exact decode_form _ rest (same.trans width)

theorem fitsField_signExtend {bits : Nat} (small : bits ≤ 64) (value : BitVec bits) :
    Api.FitsField bits ((value.signExtend 64).setWidth 64) := by
  rw [BitVec.setWidth_eq, Api.FitsField, BitVec.toInt_signExtend_of_le small]
  exact ⟨BitVec.le_toInt value, BitVec.toInt_lt⟩

theorem relativeImmediate : subset.RelativeImmediate .long64 64 := by
  intro buffer decoded found relative
  obtain ⟨form, field, rest, width, rfl, rfl⟩ := decode_cases found
  cases form
  case jmp | call =>
    exact ⟨rfl, fitsField_signExtend (by decide) (BitVec.ofNat 32 (ofLittleEndian field))⟩
  case loop | jzShort =>
    exact ⟨rfl, fitsField_signExtend (by decide) (BitVec.ofNat 8 (ofLittleEndian field))⟩
  all_goals cases relative

end Subset

end Detours.Zydis

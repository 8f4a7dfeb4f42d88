import Detours.Zydis.Subset

namespace Detours.Zydis.OneByte

open Detours.Bytes Detours.Decoding

inductive Form where
  | nop
  | push
  | movImmediate
  | movAddress
  | jmp
deriving Repr, DecidableEq

namespace Form

def all : List Form := [nop, push, movImmediate, movAddress, jmp]

def opcode : Form → Byte
  | nop => 0x90
  | push => 0x50
  | movImmediate => 0xB8
  | movAddress => 0xA1
  | jmp => 0xE9

def addressSize : MachineMode → Nat
  | .long64 => 8
  | .legacy32 => 4

def fieldSize (mode : MachineMode) : Form → Nat
  | nop | push => 0
  | movImmediate | jmp => 4
  | movAddress => addressSize mode

def mnemonic : Form → Mnemonic
  | nop => Mnemonic.nop
  | push => Mnemonic.push
  | movImmediate | movAddress => Mnemonic.mov
  | jmp => Mnemonic.jmp

/-- The field's value: an immediate is zero-extended, a distance or an address sign-extended. -/
def value (mode : MachineMode) (form : Form) (field : List Byte) : BitVec 64 :=
  let bits := ofLittleEndian field
  match mode, form with
  | .long64, movAddress => BitVec.ofNat 64 bits
  | _, movImmediate => BitVec.ofNat 64 bits
  | _, _ => (BitVec.ofNat 32 bits).signExtend 64

def operandValues (mode : MachineMode) (form : Form) (value : BitVec 64) :
    List (Nat × OperandValue) :=
  match form with
  | nop => []
  | push =>
      match mode with
      | .long64 => [(64, .register Register.rax)]
      | .legacy32 => [(32, .register Register.eax)]
  | movImmediate => [(32, .register Register.eax), (32, .immediate false value)]
  | movAddress =>
      [(32, .register Register.eax), (32, .memory Register.none Register.none value)]
  | jmp => [(8 * addressSize mode, .immediate true value)]

def hiddenOperands : Form → Nat
  | push => 2
  | jmp => 1
  | nop | movImmediate | movAddress => 0

def disp (mode : MachineMode) (form : Form) (value : BitVec 64) : RawDisp :=
  match form with
  | movAddress => { value, size := 8 * addressSize mode, offset := 1 }
  | _ => { value := 0, size := 0, offset := 0 }

def imm (form : Form) (value : BitVec 64) : RawImm :=
  match form with
  | movImmediate | jmp => { isRelative := form = jmp, value, size := 32, offset := 1 }
  | _ => { isRelative := false, value := 0, size := 0, offset := 0 }

def decoded (mode : MachineMode) (form : Form) (field : List Byte) : Decoded where
  info :=
    { mnemonic := form.mnemonic
      length := 1 + form.fieldSize mode
      operandCount := (form.operandValues mode 0).length + form.hiddenOperands
      operandCountVisible := (form.operandValues mode 0).length
      attributes := if form = jmp then attribIsRelative else 0
      disp := form.disp mode (form.value mode field)
      imm := form.imm (form.value mode field)
      length_pos := by omega
      length_le := by cases form <;> cases mode <;> decide }
  operands := (form.operandValues mode (form.value mode field)).mapIdx fun id operand =>
    ⟨id, operand.1, operand.2⟩

def ofOpcode (opcode : Byte) : Option Form := all.find? (·.opcode == opcode)

theorem ofOpcode_opcode (form : Form) : ofOpcode form.opcode = some form := by
  cases form <;> decide

theorem opcode_of_ofOpcode {form : Form} {opcode : Byte} (found : ofOpcode opcode = some form) :
    form.opcode = opcode := by
  have matched := List.find?_some found
  exact eq_of_beq matched

end Form

def decode (mode : MachineMode) : List Byte → Option Decoded
  | [] => none
  | opcode :: rest =>
      (Form.ofOpcode opcode).bind fun form =>
        let field := rest.take (form.fieldSize mode)
        if field.length = form.fieldSize mode then some (form.decoded mode field) else none

section Decode

variable {mode : MachineMode} {form : Form} {buffer field : List Byte} {found : Decoded}

theorem decode_form (form : Form) (rest : List Byte) (width : field.length = form.fieldSize mode) :
    decode mode (form.opcode :: (field ++ rest)) = some (form.decoded mode field) := by
  rw [decode, Form.ofOpcode_opcode, Option.bind_some, ← width, List.take_left, if_pos rfl]

theorem decode_cases (decodes : decode mode buffer = some found) :
    ∃ form field rest, field.length = Form.fieldSize mode form ∧
      buffer = form.opcode :: (field ++ rest) ∧ found = Form.decoded mode form field := by
  cases buffer with
  | nil => cases decodes
  | cons opcode rest =>
      rw [decode, Option.bind_eq_some_iff] at decodes
      obtain ⟨form, known, fits⟩ := decodes
      dsimp only at fits
      split at fits
      · rename_i width
        refine ⟨form, _, rest.drop (form.fieldSize mode), width, ?_, (Option.some.inj fits).symm⟩
        rw [List.take_append_drop, Form.opcode_of_ofOpcode known]
      · cases fits

end Decode

end Detours.Zydis.OneByte

namespace Detours.Zydis

def oneByte : Api := { subset with decode := OneByte.decode }

namespace OneByte

open Detours.Bytes

variable {mode : MachineMode} {form : Form} {field : List Byte}

theorem Form.decoded_isRelative :
    (form.decoded mode field).info.isRelative = decide (form = .jmp) := by
  change ((if form = .jmp then attribIsRelative else 0) &&& attribIsRelative != 0) = _
  by_cases jump : form = .jmp
  · rw [if_pos jump, decide_eq_true jump]
    decide
  · rw [if_neg jump, decide_eq_false jump]
    decide

theorem readsInstruction (mode : MachineMode) : oneByte.ReadsInstruction mode where
  bounded := by
    intro buffer decoded found
    obtain ⟨form, field, rest, width, rfl, rfl⟩ := decode_cases found
    change 1 + form.fieldSize mode ≤ _
    rw [List.length_cons, List.length_append]
    omega
  prefixOnly := by
    intro buffer decoded found rest
    obtain ⟨form, field, others, width, rfl, rfl⟩ := decode_cases found
    change decode mode ((form.opcode :: (field ++ others)).take (1 + form.fieldSize mode) ++ rest) = _
    rw [Nat.add_comm, List.take_succ_cons, ← width, List.take_left]
    exact decode_form _ _ width

def Form.instruction (mode : MachineMode) (form : Form) (field : List Byte)
    (width : field.length = form.fieldSize mode) : oneByte.Instruction mode where
  item := form.decoded mode field
  bytes := form.opcode :: field
  exact := by
    rw [List.length_cons, width, Nat.add_comm]
    rfl
  decoded := by
    have found := decode_form form [] width
    rwa [List.append_nil] at found

theorem disp_size_of_relative {buffer : List Byte} {decoded : Decoded}
    (found : oneByte.decode mode buffer = some decoded) (relative : decoded.info.isRelative = true) :
    decoded.info.disp = { value := 0, size := 0, offset := 0 } := by
  obtain ⟨form, field, rest, width, rfl, rfl⟩ := decode_cases found
  rw [Form.decoded_isRelative, decide_eq_true_eq] at relative
  subst relative
  rfl

theorem displacementInside (mode : MachineMode) : oneByte.DisplacementInside mode := by
  intro buffer decoded found relative
  rw [disp_size_of_relative found relative]
  exact Nat.zero_le _

theorem relativeDisplacement (mode : MachineMode) : oneByte.RelativeDisplacement mode := by
  intro buffer decoded found relative
  exact .inl (congrArg RawDisp.size (disp_size_of_relative found relative))

end OneByte

end Detours.Zydis

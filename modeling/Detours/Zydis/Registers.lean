import Detours.Zydis.Types
import Mathlib.Data.Nat.Basic

namespace Detours.Zydis

inductive Slice where
  | byte
  | highByte
  | word
  | dword
  | qword
deriving Repr, DecidableEq

namespace Slice

def width : Slice → Nat
  | byte | highByte => 8
  | word => 16
  | dword => 32
  | qword => 64

def offset : Slice → Nat
  | highByte => 8
  | _ => 0

end Slice

structure Part where
  index : Fin 16
  slice : Slice
deriving Repr, DecidableEq

namespace Register

/-- The register an enumerator stands for. The 8-bit section has the four high bytes
between `BL` and `SPL`. -/
def part? (reg : Register) : Option Part :=
  if 53 ≤ reg ∧ reg ≤ 68 then some ⟨Fin.ofNat 16 (reg - 53), .qword⟩
  else if 37 ≤ reg ∧ reg ≤ 52 then some ⟨Fin.ofNat 16 (reg - 37), .dword⟩
  else if 21 ≤ reg ∧ reg ≤ 36 then some ⟨Fin.ofNat 16 (reg - 21), .word⟩
  else if 9 ≤ reg ∧ reg ≤ 20 then some ⟨Fin.ofNat 16 (reg - 5), .byte⟩
  else if 5 ≤ reg ∧ reg ≤ 8 then some ⟨Fin.ofNat 16 (reg - 5), .highByte⟩
  else if 1 ≤ reg ∧ reg ≤ 4 then some ⟨Fin.ofNat 16 (reg - 1), .byte⟩
  else Option.none

def whole? (reg : Register) : Option (Fin 16) := (part? reg).map Part.index

/-- Both name parts of one register, so that writing one may change the other. -/
def Overlaps (left right : Register) : Prop := (whole? left).isSome ∧ whole? left = whole? right

instance (left right : Register) : Decidable (Overlaps left right) :=
  inferInstanceAs (Decidable (_ ∧ _))

/-- `reg` is the low `width` bits of the 64-bit register `scratch`. -/
def IsLowPart (width : Nat) (scratch reg : Register) : Prop :=
  ∃ index slice, part? scratch = some ⟨index, .qword⟩ ∧ part? reg = some ⟨index, slice⟩ ∧
    slice.width = width ∧ slice.offset = 0

theorem isLowPart_iff {width : Nat} {scratch reg : Register} {index : Fin 16} {slice : Slice}
    (whole : part? scratch = some ⟨index, .qword⟩) (part : part? reg = some ⟨index, slice⟩) :
    IsLowPart width scratch reg ↔ slice.width = width ∧ slice.offset = 0 := by
  unfold IsLowPart
  rw [whole, part]
  constructor
  · intro low
    obtain ⟨other, found, _, same, width, offset⟩ := low
    obtain ⟨rfl, rfl⟩ : index = other ∧ slice = found := by simpa using same
    exact ⟨width, offset⟩
  · intro low
    exact ⟨index, slice, rfl, rfl, low⟩

end Register

def Api.RegisterWidths (zydis : Api) : Prop :=
  ∀ reg part, Register.part? reg = some part → zydis.registerWidth reg = part.slice.width

def DecodedOperand.registers (operand : DecodedOperand) : List Register :=
  match operand.value with
  | .register value => [value]
  | .memory base index _ => [base, index]
  | _ => []

/-- Some part of the register is an operand, visible or hidden, or part of an address. -/
def Decoded.Touches (decoded : Decoded) (reg : Register) : Prop :=
  ∃ index, index < decoded.info.operandCount ∧
    ∃ named ∈ (decoded.operands.getD index default).registers, Register.Overlaps reg named

instance (decoded : Decoded) (reg : Register) : Decidable (decoded.Touches reg) :=
  inferInstanceAs (Decidable (∃ index, index < _ ∧ _))

end Detours.Zydis

import Detours.HookLib.Granting
import Detours.TrampolineBuilder.Lengths
import Detours.TrampolineBuilder.Subset
import Detours.Zydis.Registers
import Mathlib.Data.List.Nodup

namespace Detours

open Detours.Bytes Detours.Zydis

namespace AnnotatedInstruction

variable {leftover : List DecodedOperand} {address : BitVec 64} {decoded : Decoded}
  {annotated : AnnotatedInstruction}

theorem create_behind (address : BitVec 64) {position : Nat}
    (behind : decoded.info.operandCountVisible ≤ position) :
    (create leftover address decoded).operands.getD position default =
      leftover.getD position default := by
  unfold create
  refine List.foldlRecOn (motive := fun annotated : AnnotatedInstruction =>
    annotated.operands.getD position default = leftover.getD position default) _ _ rfl ?_
  intro annotated same index visible
  have below : index < decoded.info.operandCountVisible := List.mem_range.mp visible
  rw [copyOperand_operands, List.getD_eq_getElem?_getD, List.getElem?_set_ne (by omega),
    ← List.getD_eq_getElem?_getD, same]

end AnnotatedInstruction

namespace TrampolineBuilder

variable {leftover : List DecodedOperand} {address : BitVec 64} {decoded : Decoded}
  {reg : Register} {instruction : DecodedInstruction} {operands : List DecodedOperand}

/-- The scan reads the register as an operand: a visible one, or what the array happens to
hold in place of a hidden one. -/
def Scanned (leftover : List DecodedOperand) (decoded : Decoded) (reg : Register) : Prop :=
  (∃ index, index < decoded.info.operandCountVisible ∧
    (decoded.operands.getD index default).value = .register reg) ∨
  ∃ index, index < decoded.info.operandCount ∧ decoded.info.operandCountVisible ≤ index ∧
    (leftover.getD index default).value = .register reg

instance (leftover : List DecodedOperand) (decoded : Decoded) (reg : Register) :
    Decidable (Scanned leftover decoded reg) :=
  inferInstanceAs (Decidable ((∃ index, index < _ ∧ _) ∨ ∃ index, index < _ ∧ _))

theorem mem_usedRegisters :
    reg ∈ usedRegisters instruction operands ↔
      ∃ index, index < instruction.operandCount ∧
        (operands.getD index default).value = .register reg := by
  unfold usedRegisters
  rw [List.mem_filterMap]
  constructor
  · intro found
    obtain ⟨operand, member, value⟩ := found
    obtain ⟨index, position⟩ := List.mem_iff_getElem?.mp member
    rw [List.getElem?_take] at position
    split at position
    · rename_i below
      refine ⟨index, below, ?_⟩
      rw [List.getD_eq_getElem?_getD, position, Option.getD_some]
      split at value
      · rename_i register
        rw [register, Option.some.inj value]
      · cases value
    · cases position
  · intro found
    obtain ⟨index, below, value⟩ := found
    cases position : operands[index]? with
    | none =>
        rw [List.getD_eq_getElem?_getD, position] at value
        cases value
    | some operand =>
        rw [List.getD_eq_getElem?_getD, position, Option.getD_some] at value
        refine ⟨operand, List.mem_iff_getElem?.mpr ⟨index, ?_⟩, ?_⟩
        · rw [List.getElem?_take, if_pos below, position]
        · rw [value]

theorem mem_usedRegisters_create (fewer : decoded.info.operandCountVisible ≤ decoded.info.operandCount)
    (room : decoded.info.operandCountVisible ≤ leftover.length) :
    reg ∈ usedRegisters decoded.info (AnnotatedInstruction.create leftover address decoded).operands ↔
      Scanned leftover decoded reg := by
  rw [mem_usedRegisters]
  have visible : AnnotatedInstruction.SameVisible decoded.info
      (AnnotatedInstruction.create leftover address decoded).operands decoded.operands :=
    AnnotatedInstruction.create_sameVisible room
  constructor
  · intro found
    obtain ⟨index, below, value⟩ := found
    by_cases front : index < decoded.info.operandCountVisible
    · exact .inl ⟨index, front, by rw [← visible index front, value]⟩
    · have behind := Nat.le_of_not_lt front
      exact .inr ⟨index, below, behind,
        by rw [← AnnotatedInstruction.create_behind address behind, value]⟩
  · intro scanned
    rcases scanned with ⟨index, front, value⟩ | ⟨index, below, behind, value⟩
    · exact ⟨index, Nat.lt_of_lt_of_le front fewer, by rw [visible index front, value]⟩
    · exact ⟨index, below, by rw [AnnotatedInstruction.create_behind address behind, value]⟩

theorem scratchRegisters_sorted : scratchRegisters.Pairwise (· < ·) := by decide

theorem exists_unused (operands : List DecodedOperand)
    (few : instruction.operandCount ≤ maxOperandCount) :
    ∃ reg ∈ scratchRegisters, reg ∉ usedRegisters instruction operands := by
  by_contra all
  push Not at all
  have nodup : scratchRegisters.Nodup := by decide
  have fits := (List.subperm_of_subset nodup all).length_le
  have used : (usedRegisters instruction operands).length ≤ instruction.operandCount :=
    (List.length_filterMap_le _ _).trans (List.length_take_le _ _)
  have candidates : scratchRegisters.length = 15 := rfl
  unfold maxOperandCount at few
  omega

/-- The scan settles on the first candidate that it does not read. -/
theorem unusedRegister_spec (operands : List DecodedOperand)
    (few : instruction.operandCount ≤ maxOperandCount) :
    let unused := instructionGetUnusedRegister instruction operands
    unused ∈ scratchRegisters ∧ unused ∉ usedRegisters instruction operands ∧
      ∀ earlier ∈ scratchRegisters, earlier < unused →
        earlier ∈ usedRegisters instruction operands := by
  intro unused
  obtain ⟨reg, candidate, free⟩ := exists_unused operands few
  cases found : scratchRegisters.find?
      fun reg => !(usedRegisters instruction operands).contains reg with
  | none =>
      have scanned := List.find?_eq_none.mp found reg candidate
      simp [free] at scanned
  | some first =>
      have settled : unused = first := by
        change (scratchRegisters.find? _).getD _ = _
        rw [found, Option.getD_some]
      rw [settled]
      obtain ⟨notUsed, front, rest, split, before⟩ := List.find?_eq_some_iff_append.mp found
      refine ⟨by rw [split]; simp, by simpa using notUsed, ?_⟩
      intro earlier member smaller
      have sorted := scratchRegisters_sorted
      rw [split, List.pairwise_append, List.pairwise_cons] at sorted
      rw [split, List.mem_append, List.mem_cons] at member
      rcases member with inFront | same | inRest
      · simpa using before earlier inFront
      · exact absurd smaller (by rw [same]; exact Nat.lt_irrefl _)
      · exact absurd smaller (Nat.lt_asymm (sorted.2.1.1 earlier inRest))

/-- What the memory rewriting needs of its scratch register. -/
structure ScratchFree (decoded : Decoded) (reg : Register) : Prop where
  candidate : reg ∈ scratchRegisters
  valid : reg ≠ Register.maxValue
  untouched : ¬decoded.Touches reg

/-- The scan compares whole enumerators of the operands it sees. Its result is free exactly
when every candidate in use is one of these, or comes behind a candidate that is not. -/
theorem unusedRegister_scratchFree_iff (leftover : List DecodedOperand) (address : BitVec 64)
    (size : leftover.length = maxOperandCount)
    (fewer : decoded.info.operandCountVisible ≤ decoded.info.operandCount)
    (few : decoded.info.operandCount ≤ maxOperandCount) :
    let annotated := AnnotatedInstruction.create leftover address decoded
    let unused := instructionGetUnusedRegister annotated.instruction annotated.operands
    (unused ∈ scratchRegisters ∧ unused ≠ Register.maxValue) ∧
    (ScratchFree decoded unused ↔
      ∀ reg ∈ scratchRegisters, decoded.Touches reg →
        Scanned leftover decoded reg ∨
        ∃ earlier ∈ scratchRegisters, earlier < reg ∧ ¬Scanned leftover decoded earlier) := by
  intro annotated unused
  have info : annotated.instruction = decoded.info := AnnotatedInstruction.create_instruction
  have scanned (reg : Register) :
      reg ∈ usedRegisters annotated.instruction annotated.operands ↔
        Scanned leftover decoded reg := by
    rw [info]
    exact mem_usedRegisters_create fewer (by omega)
  have spec := unusedRegister_spec annotated.operands
    (show annotated.instruction.operandCount ≤ maxOperandCount by rw [info]; exact few)
  simp only [scanned] at spec
  obtain ⟨candidate, free, before⟩ := spec
  have valid : unused ≠ Register.maxValue := by
    have all : ∀ reg ∈ scratchRegisters, reg ≠ Register.maxValue := by decide
    exact all unused candidate
  refine ⟨⟨candidate, valid⟩, ?_, ?_⟩
  · intro isFree reg member touched
    by_cases seen : Scanned leftover decoded reg
    · exact .inl seen
    · have different : unused ≠ reg := fun same => isFree.untouched (same ▸ touched)
      rcases Nat.lt_or_gt_of_ne different with smaller | larger
      · exact .inr ⟨unused, candidate, smaller, free⟩
      · exact absurd (before reg member larger) seen
  · intro condition
    refine ⟨candidate, valid, fun touched => ?_⟩
    rcases condition unused candidate touched with seen | ⟨earlier, member, smaller, unseen⟩
    · exact free seen
    · exact unseen (before earlier member smaller)

theorem unusedRegister_scratchFree_mov :
    let mov : subset.Instruction .long64 := Subset.Form.movRaxRip.instruction [0x10, 0, 0, 0] rfl
    let annotated :=
      AnnotatedInstruction.create (List.replicate maxOperandCount default) 0x140001000 mov.item
    ScratchFree mov.item (instructionGetUnusedRegister annotated.instruction annotated.operands) := by
  intro mov annotated
  exact (unusedRegister_scratchFree_iff (List.replicate maxOperandCount default) 0x140001000 rfl
    (by decide) (by decide)).2.mpr (by decide +kernel)

/-- `MOV EAX, [RIP + 0x10]` gets `RAX` for its scratch register. -/
theorem unusedRegister_not_scratchFree :
    let mov : subset.Instruction .long64 := Subset.Form.movEaxRip.instruction [0x10, 0, 0, 0] rfl
    let annotated :=
      AnnotatedInstruction.create (List.replicate maxOperandCount default) 0x140001000 mov.item
    let unused := instructionGetUnusedRegister annotated.instruction annotated.operands
    mov.item.info.isRelative ∧ rewritesBranch mov.item.info = false ∧
      mov.item.info.operandCount ≤ maxOperandCount ∧ unused = Register.rax ∧
      ¬ScratchFree mov.item unused := by
  intro mov annotated unused
  have settled : unused = Register.rax := by decide +kernel
  refine ⟨by decide, by decide, by decide, settled, fun free => ?_⟩
  rw [settled] at free
  exact free.untouched (by decide +kernel)

/-- The parts of a candidate that lie below it by the constants of `fit_register`. In the
8-bit section the first four are the high bytes. -/
theorem scratchRegisters_part {scratch : Register} (candidate : scratch ∈ scratchRegisters) :
    ∃ index, Register.part? scratch = some ⟨index, .qword⟩ ∧
      Register.part? (scratch - 16) = some ⟨index, .dword⟩ ∧
      Register.part? (scratch - 32) = some ⟨index, .word⟩ ∧
      Register.part? (scratch - 48) =
        some ⟨index, if Register.rbx < scratch then .byte else .highByte⟩ := by
  have all : ∀ scratch ∈ scratchRegisters, ∃ index, Register.part? scratch = some ⟨index, .qword⟩ ∧
      Register.part? (scratch - 16) = some ⟨index, .dword⟩ ∧
      Register.part? (scratch - 32) = some ⟨index, .word⟩ ∧
      Register.part? (scratch - 48) =
        some ⟨index, if Register.rbx < scratch then .byte else .highByte⟩ := by decide
  exact all scratch candidate

theorem scratchRegisters_part_ne {scratch : Register} {index : Fin 16}
    (candidate : scratch ∈ scratchRegisters)
    (whole : Register.part? scratch = some ⟨index, .qword⟩) : index ≠ 4 := by
  have all : ∀ scratch ∈ scratchRegisters, Register.part? scratch ≠ some ⟨4, .qword⟩ := by decide
  intro same
  exact all scratch candidate (same ▸ whole)

def FitsWidth (width otherWidth : Nat) (scratch : Register) : Prop :=
  (width = 64 ∧ otherWidth ∉ [8, 16, 32]) ∨
  (width ∈ [16, 32] ∧ otherWidth = width) ∨
  (width = 8 ∧ otherWidth = 8 ∧ Register.rbx < scratch)

instance (width otherWidth : Nat) (scratch : Register) :
    Decidable (FitsWidth width otherWidth scratch) :=
  inferInstanceAs (Decidable (_ ∨ _ ∨ _))

theorem fitRegister_part (zydis : Api) {scratch : Register} (other : Register) {index : Fin 16}
    (candidate : scratch ∈ scratchRegisters)
    (isWhole : Register.part? scratch = some ⟨index, .qword⟩) :
    ∃ slice, Register.part? (fitRegister zydis scratch other) = some ⟨index, slice⟩ := by
  obtain ⟨found, whole, dword, word, byte⟩ := scratchRegisters_part candidate
  obtain rfl : index = found := congrArg Part.index (Option.some.inj (isWhole.symm.trans whole))
  unfold fitRegister
  dsimp only
  split
  · exact ⟨_, dword⟩
  · split
    · exact ⟨_, word⟩
    · split
      · exact ⟨_, byte⟩
      · exact ⟨_, whole⟩

theorem fitRegister_isLowPart_iff {zydis : Api} {scratch other : Register} {width : Nat}
    (candidate : scratch ∈ scratchRegisters) :
    Register.IsLowPart width scratch (fitRegister zydis scratch other) ↔
      FitsWidth width (zydis.registerWidth other) scratch := by
  obtain ⟨index, whole, dword, word, byte⟩ := scratchRegisters_part candidate
  unfold fitRegister FitsWidth
  generalize zydis.registerWidth other = otherWidth
  dsimp only
  simp only [List.mem_cons, List.not_mem_nil, or_false]
  split
  · rw [Register.isLowPart_iff whole dword]
    change 32 = width ∧ 0 = 0 ↔ _
    omega
  · split
    · rw [Register.isLowPart_iff whole word]
      change 16 = width ∧ 0 = 0 ↔ _
      omega
    · split
      · rw [Register.isLowPart_iff whole byte]
        by_cases low : Register.rbx < scratch
        · rw [if_pos low]
          change 8 = width ∧ 0 = 0 ↔ _
          simp only [low, and_true]
          omega
        · rw [if_neg low]
          change 8 = width ∧ 8 = 0 ↔ _
          simp only [low, and_false, or_false]
          omega
      · rw [Register.isLowPart_iff whole whole]
        change 64 = width ∧ 0 = 0 ↔ _
        omega

/-- The register of a visible operand; the request has none anywhere else. -/
def visibleRegister (decoded : Decoded) (index : Nat) : Register :=
  if index < decoded.info.operandCountVisible then
    (decoded.operands.getD index default).registerValue
  else Register.none

section Substituted

variable {zydis : Api} {leftover : BitVec 64 → Leftover} {buffer : List Byte} {index : Nat}
  {base other : Register} {disp : BitVec 64}

theorem annotated_request (fills : zydis.FillsRequest) (leftover : BitVec 64 → Leftover)
    (address : BitVec 64) (found : zydis.decode .long64 buffer = some decoded) :
    IsRequestOf zydis decoded (zydis.toEncoderRequest decoded.info
      (annotated leftover address decoded).operands decoded.info.operandCountVisible).1 :=
  isRequestOf_annotated _ _ ((fills.visible found).trans (by decide))

theorem operationRequest_substituted (fills : zydis.FillsRequest)
    (leftover : BitVec 64 → Leftover) (address : BitVec 64) (scratch : Register)
    (found : zydis.decode .long64 buffer = some decoded)
    (visible : index < decoded.info.operandCountVisible)
    (memory : (decoded.operands.getD index default).value = .memory base other disp)
    (only : ∀ position, position < decoded.info.operandCountVisible → position ≠ index →
      ∀ base other disp, (decoded.operands.getD position default).value ≠ .memory base other disp) :
    operationRequest zydis (annotated leftover address decoded) scratch =
      substituteRegister (zydis.toEncoderRequest decoded.info
        (annotated leftover address decoded).operands decoded.info.operandCountVisible).1 index
        (fitRegister zydis scratch (visibleRegister decoded (if index = 0 then 1 else 0))) := by
  have position : (annotated leftover address decoded).relativeOperandId = index :=
    (annotated_of_memory visible memory only).1.trans (fills.id found visible)
  rw [operationRequest_eq, position, annotated_instruction,
    fills.reg found (annotated_request fills leftover address found)]
  rfl

/-- The width comes from the neighbour of the memory operand: the register put in its place
is the low part of the scratch register exactly when that width is the operand's, and an
8-bit part is not one of the four high bytes. -/
theorem operationRequest_fitsWidth_iff {scratch : Register} (fills : zydis.FillsRequest)
    (leftover : BitVec 64 → Leftover) (address : BitVec 64)
    (found : zydis.decode .long64 buffer = some decoded)
    (visible : index < decoded.info.operandCountVisible)
    (memory : (decoded.operands.getD index default).value =
      .memory Register.rip Register.none disp)
    (only : ∀ position, position < decoded.info.operandCountVisible → position ≠ index →
      ∀ base other disp, (decoded.operands.getD position default).value ≠ .memory base other disp)
    (candidate : scratch ∈ scratchRegisters) :
    let request := operationRequest zydis (annotated leftover address decoded) scratch
    let substituted := request.operands.getD index default
    let neighbour := visibleRegister decoded (if index = 0 then 1 else 0)
    substituted.type = .register ∧
    (Register.IsLowPart (decoded.operands.getD index default).size scratch substituted.reg ↔
      FitsWidth (decoded.operands.getD index default).size (zydis.registerWidth neighbour)
        scratch) := by
  intro request substituted neighbour
  have size := fills.size found (annotated_request fills leftover address found)
  have made : substituted = { (zydis.toEncoderRequest decoded.info
      (annotated leftover address decoded).operands
      decoded.info.operandCountVisible).1.operands.getD index default with
      type := .register, reg := fitRegister zydis scratch neighbour } := by
    change (operationRequest zydis _ scratch).operands.getD index default = _
    rw [operationRequest_substituted fills leftover address scratch found visible memory only,
      substituteRegister, EncoderRequest.modifyOperand_getD _ _ _ (by
        rw [size]
        exact Nat.lt_of_lt_of_le visible (fills.visible found))]
  rw [made]
  exact ⟨rfl, fitRegister_isLowPart_iff candidate⟩

end Substituted

theorem operationRequest_fitsWidth_mov :
    let mov : subset.Instruction .long64 := Subset.Form.movRcxRip.instruction [0x10, 0, 0, 0] rfl
    let leftover := (Environment.granting false (0 : BitVec 64)).leftover
    let request := operationRequest subset (annotated leftover 0x140001000 mov.item) Register.rax
    Register.IsLowPart 64 Register.rax (request.operands.getD 1 default).reg := by
  intro mov leftover request
  have only : ∀ position, position < mov.item.info.operandCountVisible → position ≠ 1 →
      ∀ base other disp,
        (mov.item.operands.getD position default).value ≠ .memory base other disp :=
    fun _ inside different _ _ _ operand =>
      different (Subset.Form.memoryIndex_eq inside operand).2
  exact (operationRequest_fitsWidth_iff Subset.fillsRequest leftover 0x140001000 mov.decode_bytes
    (by decide) rfl only (by decide)).2.mpr (by decide +kernel)

/-- `INC DWORD [RIP + 0x10]` becomes an operation on all of `RAX`. -/
theorem operationRequest_not_fitsWidth :
    let inc : subset.Instruction .long64 := Subset.Form.incRip.instruction [0x10, 0, 0, 0] rfl
    let leftover := (Environment.granting false (0 : BitVec 64)).leftover
    let request := operationRequest subset (annotated leftover 0x140001000 inc.item) Register.rax
    inc.item.info.isRelative ∧ rewritesBranch inc.item.info = false ∧
      (inc.item.operands.getD 0 default).size = 32 ∧
      (request.operands.getD 0 default).reg = Register.rax ∧
      ¬Register.IsLowPart 32 Register.rax (request.operands.getD 0 default).reg := by
  intro inc leftover request
  have substituted : (request.operands.getD 0 default).reg = Register.rax := by decide +kernel
  refine ⟨by decide, by decide, rfl, substituted, ?_⟩
  rw [substituted]
  exact fun low => absurd ((Register.isLowPart_iff rfl rfl).mp low).1 (by decide)

end TrampolineBuilder

end Detours

import Detours.Decoding.Scan
import Detours.TrampolineBuilder.Model
import Detours.Zydis.Laws

namespace Detours

open Detours.Bytes Detours.Decoding Detours.Zydis

namespace AnnotatedInstruction

variable {leftover : List DecodedOperand} {address : BitVec 64} {decoded : Decoded}
  {annotated : AnnotatedInstruction} {index : Nat}

theorem copyOperand_operands :
    (annotated.copyOperand address decoded index).operands =
      annotated.operands.set index (decoded.operands.getD index default) := by
  unfold copyOperand
  dsimp only
  split <;> rfl

theorem copyOperands_getD {count : Nat} (room : count ≤ annotated.operands.length) :
    ((List.range count).foldl (copyOperand address decoded) annotated).operands.length =
      annotated.operands.length ∧
    ∀ position, position < count →
      ((List.range count).foldl (copyOperand address decoded) annotated).operands.getD position
        default = decoded.operands.getD position default := by
  induction count with
  | zero => exact ⟨rfl, fun _ impossible => absurd impossible (Nat.not_lt_zero _)⟩
  | succ count ih =>
      obtain ⟨length, copied⟩ := ih (by omega)
      rw [List.range_succ, List.foldl_append, List.foldl_cons, List.foldl_nil, copyOperand_operands,
        List.length_set]
      refine ⟨length, fun position below => ?_⟩
      by_cases last : position = count
      · subst position
        rw [List.getD_eq_getElem?_getD, List.getElem?_set_self (by omega), Option.getD_some]
      · rw [List.getD_eq_getElem?_getD, List.getElem?_set_ne (by omega),
          ← List.getD_eq_getElem?_getD]
        exact copied position (by omega)

def SameVisible (info : DecodedInstruction) (left right : List DecodedOperand) : Prop :=
  ∀ index, index < info.operandCountVisible → left.getD index default = right.getD index default

theorem create_operands_length (room : decoded.info.operandCountVisible ≤ leftover.length) :
    (create leftover address decoded).operands.length = leftover.length :=
  (copyOperands_getD room).1

theorem create_sameVisible (room : decoded.info.operandCountVisible ≤ leftover.length) :
    SameVisible decoded.info (create leftover address decoded).operands decoded.operands :=
  (copyOperands_getD room).2

theorem copyOperand_absoluteAddress (address : BitVec 64) (annotated : AnnotatedInstruction)
    (other : ∀ base index' disp,
      (decoded.operands.getD index default).value ≠ .memory base index' disp) :
    (annotated.copyOperand address decoded index).absoluteAddress = annotated.absoluteAddress ∧
      (annotated.copyOperand address decoded index).relativeOperandId =
        annotated.relativeOperandId := by
  unfold copyOperand
  dsimp only
  split
  · rename_i base index' disp memory
    exact absurd memory (other base index' disp)
  · exact ⟨rfl, rfl⟩

theorem copyOperand_memory {base other : Register} {disp : BitVec 64}
    (memory : (decoded.operands.getD index default).value = .memory base other disp) :
    (annotated.copyOperand address decoded index).relativeOperandId =
        (decoded.operands.getD index default).id ∧
      (annotated.copyOperand address decoded index).absoluteAddress =
        address + BitVec.ofNat 64 annotated.instruction.length + disp := by
  unfold copyOperand
  dsimp only
  rw [memory]
  exact ⟨rfl, rfl⟩

end AnnotatedInstruction

def Zydis.Decoded.HasMemoryOperand (decoded : Decoded) : Prop :=
  ∃ index, index < decoded.info.operandCountVisible ∧
    ∃ base index' disp, (decoded.operands.getD index default).value = .memory base index' disp

namespace AnnotatedInstruction

/-- Without a memory operand the constructor leaves the address and the operand id zero. -/
theorem create_of_no_memory {leftover : List DecodedOperand} {address : BitVec 64}
    {decoded : Decoded} (none : ¬decoded.HasMemoryOperand) :
    (create leftover address decoded).absoluteAddress = 0 ∧
      (create leftover address decoded).relativeOperandId = 0 := by
  unfold create
  refine List.foldlRecOn (motive := fun annotated : AnnotatedInstruction =>
    annotated.absoluteAddress = 0 ∧ annotated.relativeOperandId = 0) _ _ ⟨rfl, rfl⟩ ?_
  intro annotated zero index visible
  have other : ∀ base index' disp,
      (decoded.operands.getD index default).value ≠ .memory base index' disp :=
    fun base index' disp found => none ⟨index, List.mem_range.mp visible, base, index', disp, found⟩
  obtain ⟨address, operand⟩ := copyOperand_absoluteAddress address annotated other
  rw [address, operand]
  exact zero

/-- The last visible memory operand decides the operand id and the address. -/
theorem copyOperands_memory (address : BitVec 64) (annotated : AnnotatedInstruction)
    {decoded : Decoded} {count index : Nat} {base other : Register} {disp : BitVec 64}
    (below : index < count)
    (memory : (decoded.operands.getD index default).value = .memory base other disp)
    (last : ∀ later, index < later → later < count → ∀ base other disp,
      (decoded.operands.getD later default).value ≠ .memory base other disp) :
    ((List.range count).foldl (copyOperand address decoded) annotated).relativeOperandId =
      (decoded.operands.getD index default).id ∧
    ((List.range count).foldl (copyOperand address decoded) annotated).absoluteAddress =
      address + BitVec.ofNat 64 annotated.instruction.length + disp := by
  induction count with
  | zero => omega
  | succ count ih =>
      have instruction : ((List.range count).foldl (copyOperand address decoded)
          annotated).instruction = annotated.instruction :=
        List.foldlRecOn (motive := fun reached : AnnotatedInstruction =>
          reached.instruction = annotated.instruction) _ _ rfl
          (fun _ same _ _ => by rw [copyOperand_instruction, same])
      rw [List.range_succ, List.foldl_append, List.foldl_cons, List.foldl_nil]
      by_cases final : index = count
      · subst index
        rw [← instruction]
        exact copyOperand_memory memory
      · obtain ⟨address, operand⟩ := copyOperand_absoluteAddress address
          ((List.range count).foldl (copyOperand address decoded) annotated)
          (last count (by omega) (Nat.lt_succ_self _))
        rw [address, operand]
        exact ih (by omega) (fun later above inside => last later above (by omega))

theorem exists_last_memory {decoded : Decoded} {count : Nat}
    (some_memory : ∃ index, index < count ∧ ∃ base other disp,
      (decoded.operands.getD index default).value = .memory base other disp) :
    ∃ index, index < count ∧
      (∃ base other disp, (decoded.operands.getD index default).value = .memory base other disp) ∧
      ∀ later, index < later → later < count → ∀ base other disp,
        (decoded.operands.getD later default).value ≠ .memory base other disp := by
  induction count with
  | zero => simp at some_memory
  | succ count ih =>
      by_cases final : ∃ base other disp,
          (decoded.operands.getD count default).value = .memory base other disp
      · exact ⟨count, Nat.lt_succ_self _, final, fun later above below => by omega⟩
      · obtain ⟨index, below, memory⟩ := some_memory
        have earlier : index < count := by
          refine Nat.lt_of_le_of_ne (by omega) fun same => final ?_
          rwa [← same]
        obtain ⟨found, inside, isMemory, last⟩ := ih ⟨index, earlier, memory⟩
        refine ⟨found, by omega, isMemory, fun later above below base other disp => ?_⟩
        by_cases at_end : later = count
        · exact fun value => final ⟨base, other, disp, at_end ▸ value⟩
        · exact last later above (by omega) base other disp

theorem create_of_memory (leftover : List DecodedOperand) (address : BitVec 64)
    {decoded : Decoded} (memory : decoded.HasMemoryOperand) :
    ∃ index base other disp, index < decoded.info.operandCountVisible ∧
      (decoded.operands.getD index default).value = .memory base other disp ∧
      (create leftover address decoded).relativeOperandId =
        (decoded.operands.getD index default).id ∧
      (create leftover address decoded).absoluteAddress =
        address + BitVec.ofNat 64 decoded.info.length + disp := by
  obtain ⟨index, below, ⟨base, other, disp, value⟩, last⟩ := exists_last_memory memory
  obtain ⟨operand, address⟩ := copyOperands_memory address
    ⟨decoded.info, leftover, decoded.info.isRelative, 0, 0⟩ below value last
  exact ⟨index, base, other, disp, below, value, operand, address⟩

end AnnotatedInstruction

namespace TrampolineBuilder

variable {zydis : Api} {leftover : BitVec 64 → Leftover} {memory : Memory 64}
  {address : BitVec 64} {size fuel offset : Nat}

def annotated (leftover : BitVec 64 → Leftover) (address : BitVec 64) (decoded : Decoded) :
    AnnotatedInstruction :=
  AnnotatedInstruction.create (leftover address).operands address decoded

@[simp] theorem annotated_instruction (decoded : Decoded) :
    (annotated leftover address decoded).instruction = decoded.info :=
  AnnotatedInstruction.create_instruction

@[simp] theorem annotated_isRelative (decoded : Decoded) :
    (annotated leftover address decoded).isRelative = decoded.info.isRelative :=
  AnnotatedInstruction.create_isRelative

theorem annotated_of_memory {decoded : Decoded} {index : Nat} {base other : Register}
    {disp : BitVec 64}
    (visible : index < decoded.info.operandCountVisible)
    (memory : (decoded.operands.getD index default).value = .memory base other disp)
    (only : ∀ position, position < decoded.info.operandCountVisible → position ≠ index →
      ∀ base other disp, (decoded.operands.getD position default).value ≠ .memory base other disp) :
    (annotated leftover address decoded).relativeOperandId =
      (decoded.operands.getD index default).id ∧
    (annotated leftover address decoded).absoluteAddress =
      address + BitVec.ofNat 64 decoded.info.length + disp :=
  AnnotatedInstruction.copyOperands_memory address _ visible memory
    fun later above below => only later below (Nat.ne_of_gt above)

def annotateBlock (leftover : BitVec 64 → Leftover) :
    BitVec 64 → List (zydis.Instruction .long64) → List AnnotatedInstruction
  | _, [] => []
  | address, instruction :: rest =>
      annotated leftover address instruction.item ::
        annotateBlock leftover (address + BitVec.ofNat 64 instruction.bytes.length) rest

theorem annotateBlock_eq_map (leftover : BitVec 64 → Leftover) (address : BitVec 64)
    (start : Nat) (instructions : List (zydis.Instruction .long64)) :
    annotateBlock leftover (address + BitVec.ofNat 64 start) instructions =
      (located start instructions).map fun met =>
        annotated leftover (address + BitVec.ofNat 64 met.1) met.2 := by
  induction instructions generalizing start with
  | nil => rfl
  | cons instruction rest ih =>
      rw [annotateBlock, located, List.map_cons, ← ih, BitVec.ofNat_add, BitVec.add_assoc]

def annotateWindow (memory : Memory 64) (address : BitVec 64) (bufferSize offset : Nat) : List Byte :=
  memory.read (address + BitVec.ofNat 64 offset) (bufferSize - offset)

theorem buildAnnotatedLoop_eq_scan :
    buildAnnotatedLoop zydis leftover memory address size fuel offset =
      (scan (zydis.decoder .long64) (annotateWindow memory address size) size fuel offset).map
        fun met => annotated leftover (address + BitVec.ofNat 64 met.1) met.2 := by
  induction fuel generalizing offset with
  | zero => rfl
  | succ fuel ih =>
      simp only [buildAnnotatedLoop, scan, Api.decoder, annotateWindow]
      cases zydis.decode .long64
          (memory.read (address + BitVec.ofNat 64 offset) (size - offset)) with
      | none => rfl
      | some decoded =>
          dsimp only
          by_cases opened : offset < size
          · rw [if_pos opened, if_neg (Nat.not_le.mpr opened), ih]
            rfl
          · rw [if_neg opened, if_pos (Nat.le_of_not_lt opened)]
            rfl

/-- The first pass annotates every stolen instruction, in order. -/
theorem buildAnnotatedInstructions_block (reads : zydis.ReadsInstruction .long64)
    (instructions : List (zydis.Instruction .long64))
    (content : memory.read address size = blockBytes instructions) :
    buildAnnotatedInstructions zydis leftover memory address size =
      annotateBlock leftover address instructions := by
  have length : (blockBytes instructions).length = size := by rw [← content, Memory.read_length]
  subst length
  have met : scan (zydis.decoder .long64)
      (annotateWindow memory address (blockBytes instructions).length)
      (blockBytes instructions).length ((blockBytes instructions).length + 1) 0 =
      located 0 instructions := by
    refine scan_located ?_ (fun instruction _ => instruction.length_pos reads.selfDelimiting)
      (by omega) (by omega)
    intro front instruction rest split
    have positive := instruction.length_pos reads.selfDelimiting
    subst split
    have total := congrArg List.length (blockBytes_append front (instruction :: rest))
    rw [List.length_append, blockBytes_cons, List.length_append] at total
    rw [Nat.zero_add]
    exact ⟨by omega, Api.decode_window reads content (by omega)⟩
  rw [buildAnnotatedInstructions, buildAnnotatedLoop_eq_scan, met, ← annotateBlock_eq_map,
    BitVec.add_zero]

theorem annotateBlock_append (front rest : List (zydis.Instruction .long64)) :
    annotateBlock leftover address (front ++ rest) =
      annotateBlock leftover address front ++
        annotateBlock leftover (address + BitVec.ofNat 64 (blockBytes front).length) rest := by
  induction front generalizing address with
  | nil => simp [annotateBlock]
  | cons instruction front ih =>
      simp only [List.cons_append, annotateBlock, ih, blockBytes_cons, List.length_append,
        BitVec.ofNat_add, BitVec.add_assoc]

theorem annotateBlock_length (instructions : List (zydis.Instruction .long64)) :
    (annotateBlock leftover address instructions).length = instructions.length := by
  induction instructions generalizing address with
  | nil => rfl
  | cons instruction rest ih => simp only [annotateBlock, List.length_cons, ih]

end TrampolineBuilder

end Detours

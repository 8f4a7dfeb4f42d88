import Detours.TrampolineBuilder.MemoryOperands
import Detours.TrampolineBuilder.SubsetMeaning

namespace Detours.TrampolineBuilder

open Detours.Bytes Detours.Decoding Detours.Machine Detours.Zydis

def stackSlot {Flags : Type} (cpu : Cpu Flags) : Set (BitVec 64) :=
  span (cpu.registers stackPointer - 8) 8

/-- The operation finds the operand's value in the register put in place of it, and the
other operands as they were. -/
structure Faithful {Flags : Type} (zydis : Api) (leftover : BitVec 64 → Leftover)
    (address : BitVec 64) (decoded : Decoded) (index : Nat) (cpu : Cpu Flags) : Prop where
  lowPart : Register.IsLowPart (decoded.operands.getD index default).size
    (scratchOf leftover address decoded) (fittedOf zydis leftover address decoded index)
  apart : ∀ position, position < decoded.info.operandCountVisible → position ≠ index →
    ∀ reg, (decoded.operands.getD position default).value = .register reg →
      ¬Register.Overlaps (scratchOf leftover address decoded) reg ∧
        ¬Register.Overlaps Register.rsp reg
  slot : Disjoint (span (annotated leftover address decoded).absoluteAddress
    ((decoded.operands.getD index default).size / 8)) (stackSlot cpu)

variable {Flags : Type} {zydis : Api} {leftover : BitVec 64 → Leftover} {address disp : BitVec 64}
  {decoded : Decoded} {index width : Nat} {cpu : Cpu Flags} {whole : Fin 16} {slice : Slice}
  {scratch reg : Register}

theorem index_ne_of_not_overlaps {part : Part} (isWhole : Register.part? scratch =
    some ⟨whole, .qword⟩) (isPart : Register.part? reg = some part)
    (apart : ¬Register.Overlaps scratch reg) : part.index ≠ whole := by
  intro same
  apply apart
  rw [Register.Overlaps, Register.whole?, Register.whole?, isWhole, isPart]
  exact ⟨rfl, congrArg some same.symm⟩

theorem place_avoids (rip : RipOperand decoded index width disp)
    (isWhole : Register.part? (scratchOf leftover address decoded) = some ⟨whole, .qword⟩)
    (faithful : Faithful zydis leftover address decoded index cpu) {position : Nat}
    (inside : position < decoded.info.operandCountVisible) (different : position ≠ index) :
    (decoded.place zydis address position).Avoids whole := by
  rcases rip.others position inside different with ⟨reg, value⟩ | ⟨isRelative, imm, value⟩
  · obtain ⟨scratchApart, stackApart⟩ := faithful.apart position inside different reg value
    cases isPart : Register.part? reg with
    | none =>
        simp only [Decoded.place, DecodedOperand.location, value, isPart]
        trivial
    | some part =>
        simp only [Decoded.place, DecodedOperand.location, value, isPart]
        exact ⟨index_ne_of_not_overlaps isWhole isPart scratchApart,
          index_ne_of_not_overlaps (rfl : Register.part? Register.rsp = _) isPart stackApart⟩
  · simp only [Decoded.place, DecodedOperand.location, value]
    trivial

theorem push_read (apart : Disjoint (span address width) (stackSlot cpu)) (small : width ≤ 2 ^ 64)
    (value : BitVec 64) :
    (cpu.push value).memory.read address width = cpu.memory.read address width := by
  change (Memory.write _ _ _).read _ _ = _
  exact (Memory.write_changesOnly_of_length (littleEndian_length _ _)).read_eq small apart

section Faithful

variable (rip : RipOperand decoded index width disp)
  (isWhole : Register.part? (scratchOf leftover address decoded) = some ⟨whole, .qword⟩)
  (isPart : Register.part? (fittedOf zydis leftover address decoded index) = some ⟨whole, slice⟩)
  (faithful : Faithful zydis leftover address decoded index cpu)

include rip isWhole isPart faithful

theorem slice_of_faithful : slice.width = width ∧ slice.offset = 0 := by
  have low := faithful.lowPart
  rwa [rip.size, Register.isLowPart_iff isWhole isPart] at low

theorem substituted_of_faithful :
    List.Forall₂ (Substituted whole) (decoded.places zydis address)
      (substitutedPlaces zydis address decoded index ⟨whole, slice⟩) := by
  unfold Decoded.places substitutedPlaces
  rw [List.forall₂_map_left_iff, List.forall₂_map_right_iff, List.forall₂_same]
  intro position member
  have inside := List.mem_range.mp member
  by_cases same : position = index
  · subst same
    rw [Function.update_self, rip.place_index]
    exact .memory
  · rw [Function.update_of_ne same]
    exact .same (place_avoids rip isWhole faithful inside same)

theorem widths_of_faithful :
    (substitutedPlaces zydis address decoded index ⟨whole, slice⟩).map Location.width =
      (decoded.places zydis address).map Location.width := by
  unfold Decoded.places substitutedPlaces
  rw [List.map_map, List.map_map]
  refine List.map_congr_left fun position _ => ?_
  by_cases same : position = index
  · subst same
    rw [Function.comp_apply, Function.comp_apply, Function.update_self, rip.place_index,
      Location.width, Location.width, (slice_of_faithful rip isWhole isPart faithful).1]
  · rw [Function.comp_apply, Function.comp_apply, Function.update_of_ne same]

theorem values_of_faithful :
    let target := (annotated leftover address decoded).absoluteAddress
    let loaded := ofLittleEndian ((cpu.push (cpu.registers whole)).memory.read target 8)
    (substitutedPlaces zydis address decoded index ⟨whole, slice⟩).map
        (cpu.prepared whole loaded).read =
      (decoded.places zydis address).map cpu.read := by
  intro target loaded
  obtain ⟨sliceWidth, low⟩ := slice_of_faithful rip isWhole isPart faithful
  have located : target = address + BitVec.ofNat 64 decoded.info.length + disp :=
    (annotated_of_memory rip.visible rip.memory rip.only).2
  unfold Decoded.places substitutedPlaces
  rw [List.map_map, List.map_map]
  refine List.map_congr_left fun position member => ?_
  have inside := List.mem_range.mp member
  rw [Function.comp_apply, Function.comp_apply]
  by_cases same : position = index
  · subst same
    have small : slice.width / 8 ≤ 2 ^ 64 := by cases slice <;> decide
    have apart := faithful.slot
    rw [rip.size, ← sliceWidth] at apart
    rw [Function.update_self, rip.place_index, ← located, read_prepared low,
      push_read apart small, sliceWidth]
    rfl
  · rw [Function.update_of_ne same]
    exact (agree_prepared cpu whole loaded).read_eq (place_avoids rip isWhole faithful inside same)

theorem surrounded_of_faithful (different : whole ≠ stackPointer) (operation : Operation Flags) :
    let after := cpu.surrounded whole (annotated leftover address decoded).absoluteAddress
      operation (substitutedPlaces zydis address decoded index ⟨whole, slice⟩)
    let meant := cpu.apply operation (decoded.places zydis address)
    after.registers = meant.registers ∧ after.others = meant.others ∧ after.flags = meant.flags ∧
      after.memory = (cpu.push (cpu.registers whole)).memory :=
  pop_apply_prepared different (substituted_of_faithful rip isWhole isPart faithful)
    (widths_of_faithful rip isWhole isPart faithful)
    (values_of_faithful rip isWhole isPart faithful) operation

end Faithful

section Memory

variable {operation : Operation Flags}

theorem places_index (rip : RipOperand decoded index width disp) :
    (decoded.places zydis address)[index]? =
      some (.memory (annotated leftover address decoded).absoluteAddress width) := by
  rw [Decoded.places, List.getElem?_map, List.getElem?_range rip.visible, Option.map_some,
    rip.place_index, (annotated_of_memory rip.visible rip.memory rip.only).2]

theorem place_not_memory (rip : RipOperand decoded index width disp) {position : Nat}
    (inside : position < decoded.info.operandCountVisible) (different : position ≠ index) :
    ¬(decoded.place zydis address position).IsMemory := by
  obtain ⟨place, outside, located⟩ : ∃ place : Location, ¬place.IsMemory ∧ ∀ next,
      (decoded.operands.getD position default).location zydis next = some place :=
    location_of_others (rip.others position inside different)
  rwa [Decoded.place, located]

theorem apply_places_memory (leftover : BitVec 64 → Leftover)
    (rip : RipOperand decoded index width disp) :
    (cpu.apply operation (decoded.places zydis address)).memory =
      (cpu.store (.memory (annotated leftover address decoded).absoluteAddress width,
        cpu.result operation (decoded.places zydis address) index)).memory := by
  refine cpu.apply_memory operation (places_index rip) fun other place found different => ?_
  rw [Decoded.places, List.getElem?_map, Option.map_eq_some_iff] at found
  obtain ⟨position, ranged, rfl⟩ := found
  obtain ⟨inside, value⟩ := List.getElem?_eq_some_iff.mp ranged
  rw [List.getElem_range] at value
  subst value
  rw [List.length_range] at inside
  exact place_not_memory rip inside different

theorem surrounded_memory (rip : RipOperand decoded index width disp) (part : Part)
    (target : BitVec 64) :
    (cpu.surrounded part.index target operation
      (substitutedPlaces zydis address decoded index part)).memory =
      (cpu.push (cpu.registers part.index)).memory := by
  refine foldl_store_memory (fun place member => ?_) _
  obtain ⟨position, ranged, rfl⟩ := List.mem_map.mp member
  by_cases same : position = index
  · rw [same, Function.update_self]
    exact id
  · rw [Function.update_of_ne same]
    exact place_not_memory rip (List.mem_range.mp ranged) same

end Memory

/-- A relative instruction, no branch, that reads its memory operand and whose other operand
is a register of the same width. -/
structure MemoryRead (semantics : Semantics Flags) (decoded : Decoded) (index width : Nat)
    (disp : BitVec 64) (reg : Register) : Prop where
  relative : decoded.info.isRelative = true
  noBranch : rewritesBranch decoded.info = false
  operation : decoded.info.mnemonic.isOperation
  two : decoded.info.operandCountVisible = 2
  inside : index < 2
  memory : (decoded.operands.getD index default).value = .memory Register.rip Register.none disp
  size : (decoded.operands.getD index default).size = width
  register : (decoded.operands.getD (1 - index) default).value = .register reg
  sized : width ∈ [16, 32, 64]
  sameWidth : (Register.part? reg).map (fun part => part.slice.width) = some width
  stackApart : ¬Register.Overlaps Register.rsp reg
  readOnly : ∀ widths values flags,
    (semantics.operation decoded.info.mnemonic widths values flags).1.getD index none = none

namespace MemoryRead

variable {semantics : Semantics Flags}

theorem others (read : MemoryRead semantics decoded index width disp reg) {position : Nat}
    (inside : position < decoded.info.operandCountVisible) (different : position ≠ index) :
    (decoded.operands.getD position default).value = .register reg := by
  have two := read.two
  have first := read.inside
  obtain rfl : position = 1 - index := by omega
  exact read.register

theorem ripOperand (read : MemoryRead semantics decoded index width disp reg) :
    RipOperand decoded index width disp where
  visible := read.two ▸ read.inside
  memory := read.memory
  size := read.size
  others := fun _ inside different => .inl ⟨reg, read.others inside different⟩

theorem lowPart (read : MemoryRead semantics decoded index width disp reg)
    (widths : zydis.RegisterWidths)
    (candidate : scratchOf leftover address decoded ∈ scratchRegisters) :
    Register.IsLowPart (decoded.operands.getD index default).size
      (scratchOf leftover address decoded) (fittedOf zydis leftover address decoded index) := by
  obtain ⟨part, isPart, sameWidth⟩ := Option.map_eq_some_iff.mp read.sameWidth
  have first := read.inside
  have position : (if index = 0 then 1 else 0) = 1 - index := by
    split <;> omega
  have neighbour : visibleRegister decoded (1 - index) = reg := by
    rw [visibleRegister, if_pos (by rw [read.two]; omega), DecodedOperand.registerValue,
      read.register]
  rw [read.size, fittedOf, position, neighbour, fitRegister_isLowPart_iff candidate,
    widths reg part isPart, sameWidth]
  have sized := read.sized
  simp only [List.mem_cons, List.not_mem_nil, or_false] at sized
  rcases sized with rfl | rfl | rfl
  · exact .inr (.inl (by decide))
  · exact .inr (.inl (by decide))
  · exact .inl (by decide)

theorem faithful (read : MemoryRead semantics decoded index width disp reg)
    (widths : zydis.RegisterWidths)
    (candidate : scratchOf leftover address decoded ∈ scratchRegisters)
    (scratchApart : ¬Register.Overlaps (scratchOf leftover address decoded) reg)
    (slot : Disjoint (span (annotated leftover address decoded).absoluteAddress (width / 8))
      (stackSlot cpu)) :
    Faithful zydis leftover address decoded index cpu where
  lowPart := read.lowPart widths candidate
  apart := by
    intro position inside different named value
    obtain rfl : named = reg :=
      OperandValue.register.inj (value.symm.trans (read.others inside different))
    exact ⟨scratchApart, read.stackApart⟩
  slot := by rwa [read.size]

end MemoryRead

section Rewritten

variable {semantics : Semantics Flags} {instruction : zydis.Instruction .long64}
  {state : RewriteState}

/-- The code emitted for an instruction that reads memory does what the instruction does, but
for the bytes that `PUSH` writes. -/
theorem rewriteInstruction_preservesReads (reads : zydis.ReadsInstruction .long64)
    (fills : zydis.FillsRequest) (means : zydis.EncodesMeaning) (widths : zydis.RegisterWidths)
    (read : MemoryRead semantics instruction.item index width disp reg)
    (scratchApart : ¬Register.Overlaps (scratchOf leftover address instruction.item) reg)
    (calls : CallsSucceed zydis (annotated leftover address instruction.item) state)
    (runtime : BitVec 64) (cpu : Cpu Flags)
    (slot : Disjoint
      (span (annotated leftover address instruction.item).absoluteAddress (width / 8))
      (stackSlot cpu)) :
    ∃ original rewritten,
      run zydis semantics address instruction.bytes cpu = some original ∧
      run zydis semantics runtime (rewriteInstruction zydis leftover
        (annotated leftover address instruction.item) state).1 cpu = some rewritten ∧
      rewritten.registers = original.registers ∧ rewritten.others = original.others ∧
      rewritten.flags = original.flags ∧
      Memory.ChangesOnly (stackSlot cpu) original.memory rewritten.memory := by
  have rip := read.ripOperand
  have found := instruction.decode_bytes
  obtain ⟨whole, slice, different, isWhole, isPart⟩ :=
    exists_parts leftover address fills found index
  have faithful := read.faithful widths (scratchOf_mem leftover address fills found) scratchApart slot
  obtain ⟨registers, others, flags, memory⟩ := surrounded_of_faithful rip isWhole isPart faithful
    different (semantics.operation instruction.item.info.mnemonic)
  refine ⟨_, _, run_original reads rip read.operation address cpu,
    run_rewritten reads rip read.operation fills means read.relative read.noBranch calls isWhole
      isPart runtime cpu, registers, others, flags, ?_⟩
  have unwritten : cpu.result (semantics.operation instruction.item.info.mnemonic)
      (instruction.item.places zydis address) index = none := read.readOnly _ _ _
  rw [memory, apply_places_memory leftover rip, unwritten]
  exact Memory.write_changesOnly_of_length (littleEndian_length _ _)

end Rewritten

/-- Every operation copies its second operand into the first. -/
def copies : Semantics Unit where
  operation := fun _ _ values flags => ([some (values.getD 1 0), none], flags)
  mov := fun _ _ _ => rfl

theorem rewriteInstruction_preservesReads_mov :
    let mov : subset.Instruction .long64 := Subset.Form.movRcxRip.instruction [0x10, 0, 0, 0] rfl
    let leftover := (Environment.granting false (0 : BitVec 64)).leftover
    let cpu : Cpu Unit := ⟨fun _ => 0x200000, fun _ => 0, (), fun _ => 0x2A⟩
    let state : RewriteState :=
      ⟨⟨[], 0x500000, 0x500050, 0x500100⟩, fun _ => 0x2A, 0x500000⟩
    ∃ original rewritten,
      run subset copies 0x400000 mov.bytes cpu = some original ∧
      run subset copies 0x500000 (rewriteInstruction subset leftover
        (annotated leftover 0x400000 mov.item) state).1 cpu = some rewritten ∧
      rewritten.registers = original.registers ∧ rewritten.others = original.others ∧
      rewritten.flags = original.flags ∧
      Memory.ChangesOnly (stackSlot cpu) original.memory rewritten.memory := by
  intro mov leftover cpu state
  have read : MemoryRead copies mov.item 1 64 0x10 Register.rcx :=
    { relative := by decide
      noBranch := by decide
      operation := by decide
      two := rfl
      inside := by decide
      memory := by decide +kernel
      size := by decide +kernel
      register := by decide +kernel
      sized := by decide
      sameWidth := by decide
      stackApart := by decide
      readOnly := fun _ _ _ => rfl }
  have scratch : scratchOf leftover 0x400000 mov.item = Register.rax := by decide +kernel
  exact rewriteInstruction_preservesReads Subset.readsInstruction Subset.fillsRequest
    Subset.encodesMeaning Subset.registerWidths read (by rw [scratch]; decide)
    (by decide +kernel) 0x500000 cpu
    (span_disjoint (by decide +kernel) (by decide +kernel))

end Detours.TrampolineBuilder

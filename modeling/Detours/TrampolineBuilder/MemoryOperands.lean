import Detours.TrampolineBuilder.ScratchRegister
import Detours.Zydis.Execution

namespace Detours

open Detours.Bytes Detours.Decoding Detours.Machine Detours.Zydis

def Zydis.Decoded.place (zydis : Api) (address : BitVec 64) (decoded : Decoded) (index : Nat) :
    Location :=
  ((decoded.operands.getD index default).location zydis
    (address + BitVec.ofNat 64 decoded.info.length)).getD (.constant 0)

def Zydis.Decoded.places (zydis : Api) (address : BitVec 64) (decoded : Decoded) : List Location :=
  (List.range decoded.info.operandCountVisible).map (decoded.place zydis address)

namespace TrampolineBuilder

/-- One visible operand is memory of `width` bits relative to the instruction pointer, and
the others are registers and immediates. -/
structure RipOperand (decoded : Decoded) (index width : Nat) (disp : BitVec 64) : Prop where
  visible : index < decoded.info.operandCountVisible
  memory : (decoded.operands.getD index default).value = .memory Register.rip Register.none disp
  size : (decoded.operands.getD index default).size = width
  others : ∀ position, position < decoded.info.operandCountVisible → position ≠ index →
    (∃ reg, (decoded.operands.getD position default).value = .register reg) ∨
    ∃ isRelative value, (decoded.operands.getD position default).value = .immediate isRelative value

variable {zydis : Api} {address next : BitVec 64} {decoded copy : Decoded}
  {operand other : DecodedOperand} {requested : EncoderOperand} {request : EncoderRequest}
  {encoded : Encoded} {index width : Nat} {disp : BitVec 64}

theorem RipOperand.only (rip : RipOperand decoded index width disp) (position : Nat)
    (inside : position < decoded.info.operandCountVisible) (different : position ≠ index)
    (base other : Register) (offset : BitVec 64) :
    (decoded.operands.getD position default).value ≠ .memory base other offset := by
  intro memory
  rcases rip.others position inside different with ⟨reg, value⟩ | ⟨isRelative, imm, value⟩
  · cases memory.symm.trans value
  · cases memory.symm.trans value

theorem RipOperand.place_index (rip : RipOperand decoded index width disp) :
    decoded.place zydis address index =
      .memory (address + BitVec.ofNat 64 decoded.info.length + disp) width := by
  rw [Decoded.place, DecodedOperand.location, rip.memory, rip.size]
  rfl

theorem location_of_others
    (plain : (∃ reg, operand.value = .register reg) ∨
      ∃ isRelative value, operand.value = .immediate isRelative value) :
    ∃ place, ¬place.IsMemory ∧ ∀ next, operand.location zydis next = some place := by
  rcases plain with ⟨reg, value⟩ | ⟨isRelative, imm, value⟩
  · cases part : Register.part? reg with
    | some found =>
        exact ⟨.register found, id, fun next => by
          simp only [DecodedOperand.location, value, part]⟩
    | none =>
        exact ⟨.other reg (zydis.registerWidth reg), id, fun next => by
          simp only [DecodedOperand.location, value, part]⟩
  · exact ⟨.constant imm.toNat, id, fun next => by simp only [DecodedOperand.location, value]⟩

theorem location_congr (describes : requested.Describes operand) (also : requested.Describes other)
    (plain : (∃ reg, operand.value = .register reg) ∨
      ∃ isRelative value, operand.value = .immediate isRelative value)
    (next later : BitVec 64) :
    other.location zydis later = operand.location zydis next := by
  unfold EncoderOperand.Describes at describes also
  cases type : requested.type with
  | register =>
      rw [type] at describes also
      simp only at describes also
      rw [DecodedOperand.location, DecodedOperand.location, describes, also]
  | immediate =>
      rw [type] at describes also
      obtain ⟨_, describes⟩ := describes
      obtain ⟨_, also⟩ := also
      rw [DecodedOperand.location, DecodedOperand.location, describes, also]
  | unused =>
      rw [type] at describes
      rcases plain with ⟨reg, value⟩ | ⟨isRelative, imm, value⟩ <;> cases value.symm.trans describes
  | memory =>
      rw [type] at describes
      rcases plain with ⟨reg, value⟩ | ⟨isRelative, imm, value⟩ <;>
        cases value.symm.trans describes.1
  | pointer =>
      rw [type] at describes
      obtain ⟨segment, offset, describes⟩ := describes
      rcases plain with ⟨reg, value⟩ | ⟨isRelative, imm, value⟩ <;> cases value.symm.trans describes

theorem RipOperand.location_eq (rip : RipOperand decoded index width disp) (position : Nat)
    (inside : position < decoded.info.operandCountVisible) :
    (decoded.operands.getD position default).location zydis
        (address + BitVec.ofNat 64 decoded.info.length) =
      some (decoded.place zydis address position) := by
  by_cases same : position = index
  · subst same
    rw [rip.place_index, DecodedOperand.location, rip.memory, rip.size]
    rfl
  · obtain ⟨place, _, located⟩ := location_of_others (rip.others position inside same)
    rw [Decoded.place, located]
    rfl

theorem RipOperand.locations_eq (rip : RipOperand decoded index width disp) :
    decoded.locations zydis address = (decoded.places zydis address).map some := by
  unfold Decoded.locations Decoded.places
  rw [List.map_map]
  exact List.map_congr_left fun position member =>
    rip.location_eq position (List.mem_range.mp member)

def substitutedPlaces (zydis : Api) (address : BitVec 64) (decoded : Decoded) (index : Nat)
    (part : Part) : List Location :=
  (List.range decoded.info.operandCountVisible).map
    (Function.update (decoded.place zydis address) index (.register part))

theorem RipOperand.copy_locations {reg : Register} {part : Part}
    (rip : RipOperand decoded index width disp) (room : index < request.operands.length)
    (describes : ∀ position, position < decoded.info.operandCountVisible →
      (request.operands.getD position default).Describes (decoded.operands.getD position default))
    (count : copy.info.operandCountVisible = decoded.info.operandCountVisible)
    (means : ∀ position, position < decoded.info.operandCountVisible →
      ((substituteRegister request index reg).operands.getD position default).Describes
        (copy.operands.getD position default))
    (isPart : Register.part? reg = some part) (later : BitVec 64) :
    copy.locations zydis later = (substitutedPlaces zydis address decoded index part).map some := by
  unfold Decoded.locations substitutedPlaces
  rw [List.map_map, count]
  refine List.map_congr_left fun position member => ?_
  have inside := List.mem_range.mp member
  have meant := means position inside
  by_cases same : position = index
  · subst same
    rw [substituteRegister, EncoderRequest.modifyOperand_getD _ _ _ room] at meant
    have value : (copy.operands.getD position default).value = .register reg := meant
    simp only [DecodedOperand.location, value, isPart, Function.comp_apply, Function.update_self]
  · rw [substituteRegister, EncoderRequest.modifyOperand_getD_of_ne _ _ (Ne.symm same)] at meant
    rw [Function.comp_apply, Function.update_of_ne same, ← rip.location_eq position inside]
    exact location_congr (describes position inside) meant (rip.others position inside same) _ _

theorem exists_instruction (means : zydis.Means request encoded) :
    ∃ instruction : zydis.Instruction .long64, instruction.bytes = encoded.bytes ∧
      instruction.item.info.mnemonic = request.mnemonic ∧
      instruction.item.info.operandCountVisible = request.operandCount ∧
      ∀ index, index < request.operandCount →
        (request.operands.getD index default).Describes
          (instruction.item.operands.getD index default) := by
  obtain ⟨copy, decoded, length, mnemonic, count, operands⟩ := means
  exact ⟨⟨copy, encoded.bytes, length.symm, decoded⟩, rfl, mnemonic, count, operands⟩

/-- The instruction is `mnemonic` on these operands, wherever it stands. -/
structure Performs (instruction : zydis.Instruction .long64) (mnemonic : Mnemonic)
    (places : List Location) : Prop where
  mnemonic : instruction.item.info.mnemonic = mnemonic
  located : ∀ address, instruction.item.locations zydis address = places.map some

section Surrounding

variable {Flags : Type} {semantics : Semantics Flags} {cpu : Cpu Flags} {scratch : Register}
  {whole : Fin 16} {reg : Register} {target : BitVec 64} {rest : List Byte}

theorem location_register {part : Part} (value : operand.value = .register reg)
    (isPart : Register.part? reg = some part) (next : BitVec 64) :
    operand.location zydis next = some (.register part) := by
  simp only [DecodedOperand.location, value, isPart]

theorem locations_register {part : Part} (count : decoded.info.operandCountVisible = 1)
    (value : (decoded.operands.getD 0 default).value = .register reg)
    (isPart : Register.part? reg = some part) (address : BitVec 64) :
    decoded.locations zydis address = [some (.register part)] := by
  rw [Decoded.locations, count]
  exact congrArg (fun place => [place]) (location_register value isPart _)

variable (isWhole : Register.part? scratch = some ⟨whole, .qword⟩)

include isWhole

theorem push_performs (means : zydis.Means (ZydisUtils.pushRequest scratch) encoded) :
    ∃ push : zydis.Instruction .long64, push.bytes = encoded.bytes ∧
      Performs push Mnemonic.push [.register ⟨whole, .qword⟩] := by
  obtain ⟨push, bytes, mnemonic, count, operands⟩ := exists_instruction means
  exact ⟨push, bytes, mnemonic, locations_register count (operands 0 Nat.one_pos) isWhole⟩

theorem pop_performs (means : zydis.Means (ZydisUtils.popRequest scratch) encoded) :
    ∃ pop : zydis.Instruction .long64, pop.bytes = encoded.bytes ∧
      Performs pop Mnemonic.pop [.register ⟨whole, .qword⟩] := by
  obtain ⟨pop, bytes, mnemonic, count, operands⟩ := exists_instruction means
  exact ⟨pop, bytes, mnemonic, locations_register count (operands 0 Nat.one_pos) isWhole⟩

theorem mov_performs (means : zydis.Means (ZydisUtils.movRegMemRequest scratch target) encoded) :
    ∃ mov : zydis.Instruction .long64, mov.bytes = encoded.bytes ∧
      Performs mov Mnemonic.mov [.register ⟨whole, .qword⟩, .memory target 64] := by
  obtain ⟨mov, bytes, mnemonic, count, operands⟩ := exists_instruction means
  refine ⟨mov, bytes, mnemonic, fun address => ?_⟩
  have first : (mov.item.operands.getD 0 default).location zydis
      (address + BitVec.ofNat 64 mov.item.info.length) = some (.register ⟨whole, .qword⟩) :=
    location_register (operands 0 Nat.two_pos) isWhole _
  have second : (mov.item.operands.getD 1 default).location zydis
      (address + BitVec.ofNat 64 mov.item.info.length) = some (.memory target 64) := by
    have meant := operands 1 Nat.one_lt_two
    obtain ⟨value, size⟩ : (mov.item.operands.getD 1 default).value =
        .memory Register.none Register.none target ∧
        (mov.item.operands.getD 1 default).size = 64 := meant
    simp only [DecodedOperand.location, value, size]
    rfl
  rw [Decoded.locations, count]
  exact congrArg₂ (fun first second => [first, second]) first second

variable (reads : zydis.ReadsInstruction .long64)

include reads

theorem run_push (means : zydis.Means (ZydisUtils.pushRequest scratch) encoded)
    (rest : List Byte) (cpu : Cpu Flags) :
    run zydis semantics address (encoded.bytes ++ rest) cpu =
      run zydis semantics (address + BitVec.ofNat 64 encoded.bytes.length) rest
        (cpu.push (cpu.registers whole)) := by
  obtain ⟨push, bytes, performs⟩ := push_performs isWhole means
  have executed : execute zydis semantics address push.item cpu =
      some (cpu.push (cpu.registers whole)) := by
    rw [execute_push (performs.located address) performs.mnemonic, Cpu.read_qword,
      BitVec.ofNat_toNat, BitVec.setWidth_eq]
  rw [← bytes, run_append reads push rest executed]

theorem run_pop (means : zydis.Means (ZydisUtils.popRequest scratch) encoded)
    (cpu : Cpu Flags) :
    run zydis semantics address encoded.bytes cpu = some (cpu.pop whole) := by
  obtain ⟨pop, bytes, performs⟩ := pop_performs isWhole means
  have executed : execute zydis semantics address pop.item cpu = some (cpu.pop whole) :=
    execute_pop (performs.located address) performs.mnemonic
  rw [← bytes, ← List.append_nil pop.bytes, run_append reads pop [] executed, run_nil]

theorem run_mov (means : zydis.Means (ZydisUtils.movRegMemRequest scratch target) encoded)
    (rest : List Byte) (cpu : Cpu Flags) :
    run zydis semantics address (encoded.bytes ++ rest) cpu =
      run zydis semantics (address + BitVec.ofNat 64 encoded.bytes.length) rest
        (cpu.write (.register ⟨whole, .qword⟩) (ofLittleEndian (cpu.memory.read target 8))) := by
  obtain ⟨mov, bytes, performs⟩ := mov_performs isWhole means
  have executed : execute zydis semantics address mov.item cpu =
      some (cpu.write (.register ⟨whole, .qword⟩) (ofLittleEndian (cpu.memory.read target 8))) := by
    rw [execute_operation (performs.located address) (by rw [performs.mnemonic]; rfl),
      performs.mnemonic]
    rw [Cpu.apply, semantics.mov]
    rfl
  rw [← bytes, run_append reads mov rest executed]

end Surrounding

/-- The register that the rewriting of an instruction saves and uses. -/
def scratchOf (leftover : BitVec 64 → Leftover) (address : BitVec 64) (decoded : Decoded) :
    Register :=
  instructionGetUnusedRegister (annotated leftover address decoded).instruction
    (annotated leftover address decoded).operands

/-- The register it puts in place of the memory operand. -/
def fittedOf (zydis : Api) (leftover : BitVec 64 → Leftover) (address : BitVec 64)
    (decoded : Decoded) (index : Nat) : Register :=
  fitRegister zydis (scratchOf leftover address decoded)
    (visibleRegister decoded (if index = 0 then 1 else 0))

section Rewritten

variable {Flags : Type} {leftover : BitVec 64 → Leftover} {state : RewriteState}
  {instruction : zydis.Instruction .long64}

theorem scratchOf_mem (leftover : BitVec 64 → Leftover) (address : BitVec 64)
    (fills : zydis.FillsRequest) {buffer : List Byte}
    (found : zydis.decode .long64 buffer = some decoded) :
    scratchOf leftover address decoded ∈ scratchRegisters := by
  have room : decoded.info.operandCountVisible ≤ (leftover address).operands.length := by
    rw [(leftover address).operands_length]
    exact (fills.visible found).trans (by decide)
  apply instructionGetUnusedRegister_mem
  rw [annotated, AnnotatedInstruction.create_operands_length room, (leftover address).operands_length]

theorem exists_parts (leftover : BitVec 64 → Leftover) (address : BitVec 64)
    (fills : zydis.FillsRequest) {buffer : List Byte}
    (found : zydis.decode .long64 buffer = some decoded) (index : Nat) :
    ∃ whole slice, whole ≠ stackPointer ∧
      Register.part? (scratchOf leftover address decoded) = some ⟨whole, .qword⟩ ∧
      Register.part? (fittedOf zydis leftover address decoded index) = some ⟨whole, slice⟩ := by
  have candidate := scratchOf_mem leftover address fills found
  obtain ⟨whole, isWhole, _⟩ := scratchRegisters_part candidate
  obtain ⟨slice, isPart⟩ := fitRegister_part zydis
    (visibleRegister decoded (if index = 0 then 1 else 0)) candidate isWhole
  exact ⟨whole, slice, scratchRegisters_part_ne candidate isWhole, isWhole, isPart⟩

theorem rewriteInstruction_memory_bytes (relative : decoded.info.isRelative = true)
    (memory : rewritesBranch decoded.info = false)
    (calls : CallsSucceed zydis (annotated leftover address decoded) state) :
    ∃ push mov operation pop,
      zydis.encodeInstruction (ZydisUtils.pushRequest (scratchOf leftover address decoded)) =
        some push ∧
      zydis.encodeInstruction (ZydisUtils.movRegMemRequest (scratchOf leftover address decoded)
        (annotated leftover address decoded).absoluteAddress) = some mov ∧
      zydis.encodeInstruction (operationRequest zydis (annotated leftover address decoded)
        (scratchOf leftover address decoded)) = some operation ∧
      zydis.encodeInstruction (ZydisUtils.popRequest (scratchOf leftover address decoded)) =
        some pop ∧
      (rewriteInstruction zydis leftover (annotated leftover address decoded) state).1 =
        push.bytes ++ (mov.bytes ++ (operation.bytes ++ pop.bytes)) := by
  have isRelative : (annotated leftover address decoded).isRelative = true := by
    rw [annotated_isRelative, relative]
  have isMemory : rewritesBranch (annotated leftover address decoded).instruction = false := by
    rw [annotated_instruction, memory]
  unfold CallsSucceed at calls
  simp only [encoderCalls_memory isRelative isMemory, List.forall_mem_cons, List.not_mem_nil,
    false_implies, implies_true, and_true] at calls
  obtain ⟨pushCall, movCall, operationCall, popCall⟩ := calls
  obtain ⟨push, pushed⟩ := Option.isSome_iff_exists.mp pushCall
  obtain ⟨mov, moved⟩ := Option.isSome_iff_exists.mp movCall
  obtain ⟨operation, operated⟩ := Option.isSome_iff_exists.mp operationCall
  obtain ⟨pop, popped⟩ := Option.isSome_iff_exists.mp popCall
  refine ⟨push, mov, operation, pop, pushed, moved, operated, popped, ?_⟩
  simp only [rewriteInstruction_memory isRelative isMemory, pushed, moved, operated, popped,
    encodedBytes, List.append_assoc]

section Run

variable {semantics : Semantics Flags} {whole : Fin 16} {slice : Slice}
  (reads : zydis.ReadsInstruction .long64) (rip : RipOperand instruction.item index width disp)
  (plain : instruction.item.info.mnemonic.isOperation)

include reads rip plain

theorem run_original (address : BitVec 64) (cpu : Cpu Flags) :
    run zydis semantics address instruction.bytes cpu =
      some (cpu.apply (semantics.operation instruction.item.info.mnemonic)
        (instruction.item.places zydis address)) := by
  rw [← List.append_nil instruction.bytes,
    run_append reads instruction [] (execute_operation rip.locations_eq plain), run_nil]

theorem run_rewritten (fills : zydis.FillsRequest) (means : zydis.EncodesMeaning)
    (relative : instruction.item.info.isRelative = true)
    (memory : rewritesBranch instruction.item.info = false)
    (calls : CallsSucceed zydis (annotated leftover address instruction.item) state)
    (isWhole : Register.part? (scratchOf leftover address instruction.item) =
      some ⟨whole, .qword⟩)
    (isPart : Register.part? (fittedOf zydis leftover address instruction.item index) =
      some ⟨whole, slice⟩)
    (runtime : BitVec 64) (cpu : Cpu Flags) :
    run zydis semantics runtime
        (rewriteInstruction zydis leftover (annotated leftover address instruction.item) state).1 cpu =
      some (cpu.surrounded whole (annotated leftover address instruction.item).absoluteAddress
        (semantics.operation instruction.item.info.mnemonic)
        (substitutedPlaces zydis address instruction.item index ⟨whole, slice⟩)) := by
  have found := instruction.decode_bytes
  have candidate := scratchOf_mem leftover address fills found
  have made := annotated_request fills leftover address found
  obtain ⟨mnemonic, count, describes⟩ := means.filled found made
  obtain ⟨push, mov, operation, pop, pushed, moved, operated, popped, code⟩ :=
    rewriteInstruction_memory_bytes relative memory calls
  rw [operationRequest_substituted fills leftover address _ found rip.visible rip.memory
    rip.only] at operated
  obtain ⟨copy, bytes, copyMnemonic, copyCount, copyOperands⟩ :=
    exists_instruction (means.substituted found relative memory rip.visible made operated)
  have room : index < (zydis.toEncoderRequest instruction.item.info
      (annotated leftover address instruction.item).operands
      instruction.item.info.operandCountVisible).1.operands.length := by
    rw [fills.size found made]
    exact Nat.lt_of_lt_of_le rip.visible (fills.visible found)
  have sameMnemonic : copy.item.info.mnemonic = instruction.item.info.mnemonic :=
    copyMnemonic.trans mnemonic
  have located (later : BitVec 64) : copy.item.locations zydis later =
      (substitutedPlaces zydis address instruction.item index ⟨whole, slice⟩).map some :=
    rip.copy_locations room describes (copyCount.trans count)
      (fun position inside => copyOperands position (count.symm ▸ inside)) isPart later
  rw [code, run_push isWhole reads (means.push candidate pushed),
    run_mov isWhole reads (means.mov candidate moved), ← bytes,
    run_append reads copy _ (execute_operation (located _) (by rw [sameMnemonic, plain])),
    run_pop isWhole reads (means.pop candidate popped), sameMnemonic]
  rfl

end Run

end Rewritten

end TrampolineBuilder

end Detours

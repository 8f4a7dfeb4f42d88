import Detours.TrampolineBuilder.MemoryMeaning
import Detours.Zydis.Sequential

namespace Detours

open Detours.Bytes Detours.Decoding Detours.Machine Detours.Zydis

open TrampolineBuilder in
/-- Re-encoding an instruction that is not relative gives an instruction of the same meaning. -/
def Zydis.Api.EncodesPlain (zydis : Api) : Prop :=
  ∀ {buffer decoded request encoded}, zydis.decode .long64 buffer = some decoded →
    decoded.info.isRelative = false → IsRequestOf zydis decoded request →
    zydis.encodeInstruction request = some encoded → zydis.Means request encoded

namespace TrampolineBuilder

variable {Flags : Type} {zydis : Api} {semantics : Semantics Flags} {sequential : Mnemonic → Bool}
  {leftover : BitVec 64 → Leftover} {address other next later : BitVec 64}
  {decoded copy : Decoded} {request : EncoderRequest} {index width : Nat} {disp : BitVec 64}

theorem location_eq_of_describes {requested : EncoderOperand} {left right : DecodedOperand}
    (describes : requested.Describes left) (also : requested.Describes right)
    (noRip : ∀ {index disp}, left.value ≠ .memory Register.rip index disp) :
    right.location zydis later = left.location zydis next := by
  rw [← location_anywhere left next later noRip]
  unfold EncoderOperand.Describes at describes also
  unfold DecodedOperand.location
  cases type : requested.type <;> rw [type] at describes also
  case unused | register => rw [also, describes]
  case memory => rw [also.1, describes.1, also.2, describes.2]
  case pointer =>
    obtain ⟨_, _, describes⟩ := describes
    obtain ⟨_, _, also⟩ := also
    rw [also, describes]
  case immediate =>
    obtain ⟨_, describes⟩ := describes
    obtain ⟨_, also⟩ := also
    rw [also, describes]

section Plain

variable {reads : zydis.ReadsInstruction .long64} {opcodes : zydis.JumpOpcodes}
  {jmp : sequential Mnemonic.jmp = false} {instruction chunk : zydis.Instruction .long64}
  {state : RewriteState} {encoded : Encoded}

theorem samePlace_of_means (operands : zydis.RipOperands) (means : zydis.EncodesMeaning)
    (plain : instruction.item.info.isRelative = false)
    (made : IsRequestOf zydis instruction.item request)
    (meant : zydis.Means request encoded) (next later : BitVec 64) :
    ∃ copy : zydis.Instruction .long64, copy.bytes = encoded.bytes ∧
      SamePlace (sequentialProcessor semantics sequential reads opcodes jmp) instruction.item
        copy.item next later := by
  obtain ⟨mnemonic, count, describes⟩ := means.filled instruction.decoded made
  obtain ⟨copy, bytes, copyMnemonic, copyCount, also⟩ := exists_instruction meant
  refine ⟨copy, bytes, samePlace_of_locations (copyMnemonic.trans mnemonic) ?_⟩
  rw [locations_eq, locations_eq, copyCount, count]
  refine List.map_congr_left fun position member => ?_
  have inside := List.mem_range.mp member
  refine location_eq_of_describes (describes position inside) (also position (count ▸ inside)) ?_
  intro index disp rip
  have relative := (operands instruction.decoded inside rip).1
  rw [Decoded.hasDisplacement, plain] at relative
  cases relative

theorem reencode_isRequestOf (fills : zydis.FillsRequest) (leftover : BitVec 64 → Leftover)
    (address : BitVec 64)
    (success : reencode zydis instruction.item.info
      (annotated leftover address instruction.item).operands = some encoded) :
    ∃ request, IsRequestOf zydis instruction.item request ∧
      zydis.encodeInstruction request = some encoded := by
  have made := annotated_request fills leftover address instruction.decoded
  unfold reencode at success
  split at success
  · cases success
  · rename_i request filled
    rw [filled] at made
    exact ⟨request, made, success⟩

theorem rewriteInstruction_replaces_plain
    (rubbish : zydis.Instruction .long64 → Core Flags → Set (BitVec 64)) (code : Set (BitVec 64))
    (operands : zydis.RipOperands) (fills : zydis.FillsRequest) (means : zydis.EncodesMeaning)
    (encodesPlain : zydis.EncodesPlain) (plain : instruction.item.info.isRelative = false)
    (calls : CallsSucceed zydis (annotated leftover address instruction.item) state)
    (other : BitVec 64) :
    ∃ copy : List (zydis.Instruction .long64),
      (rewriteInstruction zydis leftover (annotated leftover address instruction.item) state).1 =
        blockBytes copy ∧
      Replaces (sequentialProcessor semantics sequential reads opcodes jmp) rubbish code address
        other instruction copy := by
  have notRelative : (annotated leftover address instruction.item).isRelative = false := by
    rw [annotated_isRelative, plain]
  unfold CallsSucceed at calls
  rw [encoderCalls_plain notRelative, List.forall_mem_singleton, annotated_instruction] at calls
  obtain ⟨encoded, success⟩ := Option.isSome_iff_exists.mp calls
  obtain ⟨request, made, encodes⟩ := reencode_isRequestOf fills leftover address success
  obtain ⟨copy, bytes, same⟩ := samePlace_of_means operands means plain made
    (encodesPlain instruction.decoded plain made encodes)
    (address + BitVec.ofNat 64 instruction.bytes.length)
    (other + BitVec.ofNat 64 encoded.bytes.length)
  rw [← bytes] at same
  refine ⟨[copy], ?_, same.replaces rubbish⟩
  rw [rewriteInstruction_plain notRelative, annotated_instruction, success, blockBytes_singleton,
    bytes]
  rfl

end Plain

/-- A relative instruction whose rewriting preserves what it does: it reads its memory operand,
the register put in place of the operand has the operand's width, and no other operand is part
of the scratch register or of the stack pointer. -/
structure PreservedRead (zydis : Api) (semantics : Semantics Flags)
    (leftover : BitVec 64 → Leftover) (address : BitVec 64) (decoded : Decoded)
    (index width : Nat) (disp : BitVec 64) : Prop extends RipOperand decoded index width disp where
  relative : decoded.info.isRelative = true
  noBranch : rewritesBranch decoded.info = false
  operation : decoded.info.mnemonic.isOperation
  lowPart : Register.IsLowPart width (scratchOf leftover address decoded)
    (fittedOf zydis leftover address decoded index)
  apart : ∀ position, position < decoded.info.operandCountVisible → position ≠ index →
    ∀ reg, (decoded.operands.getD position default).value = .register reg →
      ¬Register.Overlaps (scratchOf leftover address decoded) reg ∧
        ¬Register.Overlaps Register.rsp reg
  readOnly : ∀ widths values flags,
    (semantics.operation decoded.info.mnemonic widths values flags).1.getD index none = none

structure Surrounds (sequential : Mnemonic → Bool) : Prop where
  push : sequential Mnemonic.push
  pop : sequential Mnemonic.pop
  mov : sequential Mnemonic.mov

/-- Where a rewritten instruction saves its scratch register. -/
def saveSlot (instruction : zydis.Instruction .long64) (core : Core Flags) : Set (BitVec 64) :=
  if instruction.item.info.isRelative then span (core.registers stackPointer - 8) 8 else ∅

section Memory

variable {reads : zydis.ReadsInstruction .long64} {opcodes : zydis.JumpOpcodes}
  {jmp : sequential Mnemonic.jmp = false} {instruction chunk : zydis.Instruction .long64}
  {state : RewriteState} {encoded : Encoded} {scratch : Register} {whole : Fin 16} {part : Part}
  {code : Set (BitVec 64)} {cpu : Cpu Flags} {target : BitVec 64} {places : List Location}

theorem substitutedPlaces_not_memory (rip : RipOperand decoded index width disp) (part : Part) :
    ∀ place ∈ substitutedPlaces zydis address decoded index part, ¬place.IsMemory := by
  intro place member
  obtain ⟨position, ranged, rfl⟩ := List.mem_map.mp member
  by_cases same : position = index
  · rw [same, Function.update_self]
    exact id
  · rw [Function.update_of_ne same]
    exact place_not_memory rip (List.mem_range.mp ranged) same

section Step

variable {after : State 64 (Core Flags)} {rest : List (zydis.Instruction .long64)}
  {mnemonic : Mnemonic}

theorem passes_push (goesOn : sequential Mnemonic.push)
    (performs : Performs instruction Mnemonic.push [.register ⟨whole, .qword⟩])
    (slot : Disjoint (stackSlot cpu) code)
    (following : Passes (sequentialProcessor semantics sequential reads opcodes jmp) code
      (other + BitVec.ofNat 64 instruction.bytes.length) rest
      (cpu.push (cpu.registers whole)).state after) :
    Passes (sequentialProcessor semantics sequential reads opcodes jmp) code other
      (instruction :: rest) cpu.state after := by
  refine passes_cons (by rwa [performs.mnemonic]) ?_ ?_ following
  · rw [execute_push (performs.located _) performs.mnemonic, Cpu.read_qword, BitVec.ofNat_toNat,
      BitVec.setWidth_eq]
  · rw [sequentialWrites, if_pos performs.mnemonic]
    exact slot

theorem passes_pop (goesOn : sequential Mnemonic.pop)
    (performs : Performs instruction Mnemonic.pop [.register ⟨whole, .qword⟩])
    (following : Passes (sequentialProcessor semantics sequential reads opcodes jmp) code
      (other + BitVec.ofNat 64 instruction.bytes.length) rest (cpu.pop whole).state after) :
    Passes (sequentialProcessor semantics sequential reads opcodes jmp) code other
      (instruction :: rest) cpu.state after := by
  refine passes_cons (by rwa [performs.mnemonic])
    (execute_pop (performs.located _) performs.mnemonic) ?_ following
  rw [sequentialWrites, if_neg (by rw [performs.mnemonic]; decide), if_pos performs.mnemonic]
  exact Set.empty_disjoint _

theorem passes_operation (goesOn : sequential mnemonic) (plain : mnemonic.isOperation)
    (performs : Performs instruction mnemonic places)
    (readOnly : ∀ position base width, places[position]? = some (.memory base width) →
      ∀ widths values flags,
        (semantics.operation mnemonic widths values flags).1.getD position none = none)
    (following : Passes (sequentialProcessor semantics sequential reads opcodes jmp) code
      (other + BitVec.ofNat 64 instruction.bytes.length) rest
      (cpu.apply (semantics.operation mnemonic) places).state after) :
    Passes (sequentialProcessor semantics sequential reads opcodes jmp) code other
      (instruction :: rest) cpu.state after := by
  obtain ⟨push, pop⟩ : mnemonic ≠ Mnemonic.push ∧ mnemonic ≠ Mnemonic.pop := by
    simpa [Mnemonic.isOperation] using plain
  have executed : execute zydis semantics other instruction.item cpu =
      some (cpu.apply (semantics.operation instruction.item.info.mnemonic) places) :=
    execute_operation (performs.located other) (by rwa [performs.mnemonic])
  rw [performs.mnemonic] at executed
  refine passes_cons (by rwa [performs.mnemonic]) executed ?_ following
  rw [sequentialWrites, performs.mnemonic, if_neg push, if_neg pop,
    operandPlaces_eq (performs.located other), writtenBytes_eq_empty readOnly]
  exact Set.empty_disjoint _

end Step

theorem passes_surrounded {push mov operation pop : zydis.Instruction .long64}
    {mnemonic : Mnemonic} (surrounds : Surrounds sequential)
    (pushed : Performs push Mnemonic.push [.register ⟨whole, .qword⟩])
    (moved : Performs mov Mnemonic.mov [.register ⟨whole, .qword⟩, .memory target 64])
    (operated : Performs operation mnemonic places) (goesOn : sequential mnemonic)
    (plain : mnemonic.isOperation) (noMemory : ∀ place ∈ places, ¬place.IsMemory)
    (popped : Performs pop Mnemonic.pop [.register ⟨whole, .qword⟩])
    (slot : Disjoint (stackSlot cpu) code) (other : BitVec 64) :
    Passes (sequentialProcessor semantics sequential reads opcodes jmp) code other
      [push, mov, operation, pop] cpu.state
      (cpu.surrounded whole target (semantics.operation mnemonic) places).state := by
  refine passes_push surrounds.push pushed slot ?_
  refine passes_operation surrounds.mov (by decide) moved (mov_readOnly semantics) ?_
  have loaded : (cpu.push (cpu.registers whole)).apply (semantics.operation Mnemonic.mov)
      [.register ⟨whole, .qword⟩, .memory target 64] =
      cpu.prepared whole
        (ofLittleEndian ((cpu.push (cpu.registers whole)).memory.read target 8)) := by
    rw [Cpu.apply, semantics.mov]
    rfl
  rw [loaded]
  refine passes_operation goesOn plain operated ?_ (passes_pop surrounds.pop popped (.nil _ _))
  intro position base width found
  exact absurd trivial (noMemory _ (List.mem_of_getElem? found))

theorem PreservedRead.faithful
    (preserved : PreservedRead zydis semantics leftover address decoded index width disp)
    (unread : Disjoint (sequentialReads zydis decoded
      (address + BitVec.ofNat 64 decoded.info.length) cpu.core) (stackSlot cpu)) :
    Faithful zydis leftover address decoded index cpu where
  lowPart := by
    rw [preserved.size]
    exact preserved.lowPart
  apart := preserved.apart
  slot := by
    refine unread.mono_left fun byte inside => .inl ?_
    rw [(annotated_of_memory preserved.visible preserved.memory preserved.only).2,
      preserved.size] at inside
    rw [operandPlaces_eq preserved.locations_eq]
    refine ⟨_, width, ?_, inside⟩
    have place : decoded.place zydis address index =
        .memory (address + BitVec.ofNat 64 decoded.info.length + disp) width :=
      preserved.place_index
    exact place ▸ List.mem_map_of_mem (List.mem_range.mpr preserved.visible)

theorem PreservedRead.agree {slice : Slice}
    (preserved : PreservedRead zydis semantics leftover address decoded index width disp)
    (faithful : Faithful zydis leftover address decoded index cpu) (different : whole ≠ stackPointer)
    (isWhole : Register.part? (scratchOf leftover address decoded) = some ⟨whole, .qword⟩)
    (isPart : Register.part? (fittedOf zydis leftover address decoded index) = some ⟨whole, slice⟩) :
    (cpu.apply (semantics.operation decoded.info.mnemonic) (decoded.places zydis address)).state.Agree
      (stackSlot cpu)
      (cpu.surrounded whole (annotated leftover address decoded).absoluteAddress
        (semantics.operation decoded.info.mnemonic)
        (substitutedPlaces zydis address decoded index ⟨whole, slice⟩)).state := by
  have rip := preserved.toRipOperand
  obtain ⟨registers, others, flags, memory⟩ := surrounded_of_faithful rip isWhole isPart faithful
    different (semantics.operation decoded.info.mnemonic)
  have unwritten : cpu.result (semantics.operation decoded.info.mnemonic)
      (decoded.places zydis address) index = none := preserved.readOnly _ _ _
  refine ⟨?_, ?_⟩
  · simp only [Cpu.state, Cpu.core, registers, others, flags]
  · simp only [Cpu.state]
    rw [memory, apply_places_memory leftover rip, unwritten]
    exact Memory.write_changesOnly_of_length (littleEndian_length _ _)

/-- An instruction that reads memory is rewritten to code that does the same, but for the
slot. -/
theorem rewriteInstruction_replaces_memory (fills : zydis.FillsRequest)
    (means : zydis.EncodesMeaning) (surrounds : Surrounds sequential)
    (preserved : PreservedRead zydis semantics leftover address instruction.item index width disp)
    (calls : CallsSucceed zydis (annotated leftover address instruction.item) state)
    (code : Set (BitVec 64)) (other : BitVec 64) :
    ∃ copy : List (zydis.Instruction .long64),
      (rewriteInstruction zydis leftover (annotated leftover address instruction.item) state).1 =
        blockBytes copy ∧
      Replaces (sequentialProcessor semantics sequential reads opcodes jmp) saveSlot code address
        other instruction copy := by
  have rip := preserved.toRipOperand
  have found := instruction.decode_bytes
  have candidate := scratchOf_mem leftover address fills found
  have made := annotated_request fills leftover address found
  obtain ⟨mnemonic, count, describes⟩ := means.filled found made
  obtain ⟨whole, slice, different, isWhole, isPart⟩ :=
    exists_parts leftover address fills found index
  obtain ⟨push, mov, operation, pop, pushed, moved, operated, popped, bytes⟩ :=
    rewriteInstruction_memory_bytes preserved.relative preserved.noBranch calls
  rw [operationRequest_substituted fills leftover address _ found rip.visible rip.memory
    rip.only] at operated
  obtain ⟨pushCopy, pushBytes, pushPerforms⟩ := push_performs isWhole (means.push candidate pushed)
  obtain ⟨movCopy, movBytes, movPerforms⟩ := mov_performs isWhole (means.mov candidate moved)
  obtain ⟨copy, copyBytes, copyMnemonic, copyCount, copyOperands⟩ := exists_instruction
    (means.substituted found preserved.relative preserved.noBranch rip.visible made operated)
  obtain ⟨popCopy, popBytes, popPerforms⟩ := pop_performs isWhole (means.pop candidate popped)
  have room : index < (zydis.toEncoderRequest instruction.item.info
      (annotated leftover address instruction.item).operands
      instruction.item.info.operandCountVisible).1.operands.length := by
    rw [fills.size found made]
    exact Nat.lt_of_lt_of_le rip.visible (fills.visible found)
  have copyPerforms : Performs copy instruction.item.info.mnemonic
      (substitutedPlaces zydis address instruction.item index ⟨whole, slice⟩) :=
    ⟨copyMnemonic.trans mnemonic, rip.copy_locations room describes (copyCount.trans count)
      (fun position inside => copyOperands position (count.symm ▸ inside)) isPart⟩
  refine ⟨[pushCopy, movCopy, copy, popCopy], ?_, ?_⟩
  · simp only [bytes, blockBytes_cons, blockBytes_nil, pushBytes, movBytes, copyBytes, popBytes,
      List.append_nil]
  · intro before after executed _ unread apart
    let cpu : Cpu Flags := before.core.cpu before.memory
    have ends : instruction.bytes.length = instruction.item.info.length := instruction.exact
    have slot : saveSlot instruction before.core = stackSlot cpu := if_pos preserved.relative
    have goesOn := sequential_of_effect executed
    have final : after = (cpu.apply (semantics.operation instruction.item.info.mnemonic)
        (instruction.item.places zydis address)).state := by
      have result := sequentialEffect_state zydis semantics cpu address goesOn
      rw [execute_operation rip.locations_eq preserved.operation, Option.map_some, ← ends] at result
      exact Option.some.inj (executed.symm.trans result)
    rw [slot] at unread apart ⊢
    rw [ends] at unread
    rw [final]
    exact ⟨_, passes_surrounded surrounds pushPerforms movPerforms copyPerforms goesOn
      preserved.operation (substitutedPlaces_not_memory rip _) popPerforms apart other,
      preserved.agree (preserved.faithful unread) different isWhole isPart⟩

end Memory

section Block

variable (reads : zydis.ReadsInstruction .long64) (opcodes : zydis.JumpOpcodes)
  (jmp : sequential Mnemonic.jmp = false) {instructions : List (zydis.Instruction .long64)}
  {state : RewriteState}

/-- None of the instructions is relative, or its rewriting preserves what it does. -/
def Rewritable (zydis : Api) (semantics : Semantics Flags) (leftover : BitVec 64 → Leftover) :
    BitVec 64 → List (zydis.Instruction .long64) → Prop
  | _, [] => True
  | address, instruction :: rest =>
      (instruction.item.info.isRelative = false ∨ ∃ index width disp,
        PreservedRead zydis semantics leftover address instruction.item index width disp) ∧
      Rewritable zydis semantics leftover
        (address + BitVec.ofNat 64 instruction.bytes.length) rest

/-- The loop of `build` emits code that can take the place of the stolen code. -/
theorem rewriteAll_replaced (operands : zydis.RipOperands) (fills : zydis.FillsRequest)
    (means : zydis.EncodesMeaning) (encodesPlain : zydis.EncodesPlain)
    (surrounds : Surrounds sequential) (code : Set (BitVec 64))
    (rewritable : Rewritable zydis semantics leftover address instructions)
    (succeeds : RunSucceeds zydis leftover state (annotateBlock leftover address instructions))
    (other : BitVec 64) :
    ∃ copies : List (zydis.Instruction .long64),
      (rewriteAll zydis leftover state (annotateBlock leftover address instructions)).1 =
        blockBytes copies ∧
      Replaced (sequentialProcessor semantics sequential reads opcodes jmp) saveSlot code address
        other instructions copies := by
  induction instructions generalizing address state other with
  | nil => exact ⟨[], rfl, .nil _ _⟩
  | cons instruction rest ih =>
      obtain ⟨kind, following⟩ := rewritable
      obtain ⟨calls, later⟩ := succeeds
      obtain ⟨copy, bytes, replaces⟩ : ∃ copy : List (zydis.Instruction .long64),
          (rewriteInstruction zydis leftover (annotated leftover address instruction.item) state).1 =
            blockBytes copy ∧
          Replaces (sequentialProcessor semantics sequential reads opcodes jmp) saveSlot code
            address other instruction copy := by
        rcases kind with plain | ⟨index, width, disp, preserved⟩
        · exact rewriteInstruction_replaces_plain saveSlot code operands fills means encodesPlain
            plain calls other
        · exact rewriteInstruction_replaces_memory fills means surrounds preserved calls code other
      obtain ⟨copies, others, replaced⟩ := ih following later
        (other + BitVec.ofNat 64 (blockBytes copy).length)
      refine ⟨copy ++ copies, ?_, .cons replaces replaced⟩
      simp only [annotateBlock, rewriteAll, bytes, others, blockBytes_append]

end Block

end TrampolineBuilder

end Detours

namespace Detours.Zydis.Subset

open Detours.Bytes Detours.TrampolineBuilder

variable {form encodedForm : Form} {field : List Byte} {request : EncoderRequest}
  {value : BitVec 64} {encoded : Encoded}

theorem value_of_encodeForm_movEax (success : encodeForm request = some (.movEax, value)) :
    value = (request.operands.getD 1 default).imm ∧ value.toNat < 2 ^ 32 := by
  unfold encodeForm at success
  dsimp only at success
  repeat' split at success
  all_goals first | cases success; done | rename_i accepted
  cases success
  exact ⟨rfl, accepted.2.2⟩

theorem encodesPlain : subset.EncodesPlain := by
  intro buffer decoded request encoded found plain made success
  obtain ⟨form, field, rest, width, rfl, rfl⟩ := decode_cases found
  obtain ⟨⟨encodedForm, value⟩, chosen, rfl⟩ := Option.map_eq_some_iff.mp success
  obtain ⟨mnemonic, accepts⟩ := encodeForm_spec chosen
  have same : encodedForm.mnemonic = form.mnemonic := mnemonic.trans (isRequestOf made).1
  have encodable := Form.encodable_of_accepts accepts
  have operands := (isRequestOf made).2.2
  have count := operandCount_of_isRequestOf made
  rw [Form.decoded_isRelative] at plain
  cases form
  case nop =>
    obtain rfl := Form.eq_of_mnemonic same (by decide) encodable rfl
    refine means_of_encoded mnemonic count fun index inside => ?_
    rw [count] at inside
    cases inside
  case pushRax | popRax =>
    obtain rfl := Form.eq_of_mnemonic same (by decide) encodable rfl
    refine means_of_encoded mnemonic count fun index inside => ?_
    rw [count] at inside
    obtain rfl : index = 0 := Nat.lt_one_iff.mp inside
    exact describes_of_isRegister accepts rfl
  case movRcxRax | movRaxRcx | movRaxAbs | movEax =>
    have all : ∀ other ∈ Form.all, other.mnemonic = Mnemonic.mov →
        (other.operandValues 0).length = 2 := by decide
    refine means_of_encoded mnemonic (count.trans (all _ encodedForm.mem_all same).symm)
      fun index inside => ?_
    rw [count] at inside
    have two : index < 2 := inside
    cases encodedForm
    case movRcxRax | movRaxRcx =>
      obtain _ | _ | index := index
      · exact describes_of_isRegister accepts.1 rfl
      · exact describes_of_isRegister accepts.2 rfl
      · omega
    case movEax =>
      obtain ⟨stored, small⟩ := value_of_encodeForm_movEax chosen
      obtain _ | _ | index := index
      · exact describes_of_isRegister accepts.1 rfl
      · unfold EncoderOperand.Describes
        rw [accepts.2]
        refine ⟨false, ?_⟩
        change OperandValue.immediate _ _ = _
        rw [← stored]
        refine congrArg _ ?_
        change BitVec.ofNat 64 (ofLittleEndian (littleEndian 4 value.toNat)) = value
        rw [ofLittleEndian_littleEndian, Nat.mod_eq_of_lt (by omega), BitVec.ofNat_toNat,
          BitVec.setWidth_eq]
      · omega
    case movRaxAbs =>
      obtain ⟨register, memory, base, noIndex, fits, stored⟩ := accepts
      have size : (request.operands.getD 1 default).memSize = 8 := by
        rw [operands 1 (by decide)] at memory ⊢
        first | (cases memory; done) | (change 64 / 8 = 8; decide)
      obtain _ | _ | index := index
      · exact describes_of_isRegister register rfl
      · unfold EncoderOperand.Describes
        rw [memory, base, noIndex, size, ← stored]
        refine ⟨?_, rfl⟩
        change OperandValue.memory _ _ _ = OperandValue.memory _ _ _
        exact congrArg _ (value_littleEndian fits)
      · omega
    all_goals first | exact accepts.elim | cases same
  all_goals cases plain

end Detours.Zydis.Subset

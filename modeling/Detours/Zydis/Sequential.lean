import Detours.Machine.Core
import Detours.Zydis.Execution
import Detours.Zydis.Placement

namespace Detours.Zydis

open Detours.Bytes Detours.Decoding Detours.Machine

namespace Api

/-- `E9`, and `FF 25`, are jumps. -/
def JumpOpcodes (zydis : Api) : Prop :=
  ∀ {buffer decoded}, zydis.decode .long64 buffer = some decoded →
    (buffer.head? = some 0xE9 ∨ [0xFF, 0x25] <+: buffer) → decoded.info.mnemonic = Mnemonic.jmp

/-- An operand relative to the instruction pointer has the displacement of its instruction. -/
def RipOperands (zydis : Api) : Prop :=
  ∀ {buffer decoded}, zydis.decode .long64 buffer = some decoded →
    ∀ {position index disp}, position < decoded.info.operandCountVisible →
      (decoded.operands.getD position default).value = .memory Register.rip index disp →
      decoded.hasDisplacement ∧ disp = decoded.info.disp.value

end Api

variable {Flags : Type} {zydis : Api} {semantics : Semantics Flags} {decoded : Decoded}
  {next later : BitVec 64} {sequential : Mnemonic → Bool}

def Decoded.operandPlaces (zydis : Api) (decoded : Decoded) (next : BitVec 64) : List Location :=
  (decoded.locations zydis (next - BitVec.ofNat 64 decoded.info.length)).filterMap id

/-- An instruction in front of `next`, if its mnemonic goes on there. -/
def sequentialEffect (zydis : Api) (semantics : Semantics Flags) (sequential : Mnemonic → Bool)
    (decoded : Decoded) (next : BitVec 64) (state : State 64 (Core Flags)) :
    Option (State 64 (Core Flags)) :=
  if sequential decoded.info.mnemonic then
    (execute zydis semantics (next - BitVec.ofNat 64 decoded.info.length) decoded
      (state.core.cpu state.memory)).map Cpu.state
  else none

def sequentialReads (zydis : Api) (decoded : Decoded) (next : BitVec 64) (core : Core Flags) :
    Set (BitVec 64) :=
  operandBytes (decoded.operandPlaces zydis next) ∪
    if decoded.info.mnemonic = Mnemonic.pop then span (core.registers stackPointer) 8 else ∅

def sequentialWrites (zydis : Api) (semantics : Semantics Flags) (decoded : Decoded)
    (next : BitVec 64) (core : Core Flags) : Set (BitVec 64) :=
  if decoded.info.mnemonic = Mnemonic.push then span (core.registers stackPointer - 8) 8
  else if decoded.info.mnemonic = Mnemonic.pop then ∅
  else writtenBytes (semantics.operation decoded.info.mnemonic) (decoded.operandPlaces zydis next)

section Frame

variable {cpu result : Cpu Flags} {address : BitVec 64} {places : List Location}

theorem execute_cases (placed : (decoded.locations zydis address).filterMap id = places)
    (executed : execute zydis semantics address decoded cpu = some result) :
    (decoded.info.mnemonic = Mnemonic.push ∧ ∃ source, places = [source] ∧
      ∀ cpu : Cpu Flags, execute zydis semantics address decoded cpu =
        some (cpu.push (BitVec.ofNat 64 (cpu.read source)))) ∨
    (decoded.info.mnemonic = Mnemonic.pop ∧ ∃ index, places = [.register ⟨index, .qword⟩] ∧
      ∀ cpu : Cpu Flags, execute zydis semantics address decoded cpu = some (cpu.pop index)) ∨
    (decoded.info.mnemonic ≠ Mnemonic.push ∧ decoded.info.mnemonic ≠ Mnemonic.pop ∧
      ∀ cpu : Cpu Flags, execute zydis semantics address decoded cpu =
        some (cpu.apply (semantics.operation decoded.info.mnemonic) places)) := by
  simp only [execute, placed] at executed ⊢
  split at executed
  · rename_i located
    simp only [if_pos located]
    split at executed
    · rename_i push
      simp only [if_pos push]
      split at executed
      · rename_i source
        exact .inl ⟨push, source, rfl, fun cpu => rfl⟩
      · cases executed
    · rename_i push
      simp only [if_neg push]
      split at executed
      · rename_i pop
        simp only [if_pos pop]
        split at executed
        · rename_i index
          exact .inr (.inl ⟨pop, index, rfl, fun cpu => rfl⟩)
        · cases executed
      · rename_i pop
        exact .inr (.inr ⟨push, pop, fun cpu => if_neg pop⟩)
  · cases executed

theorem sequentialEffect_framed {before after other : State 64 (Core Flags)}
    (executed : sequentialEffect zydis semantics sequential decoded next before = some after)
    (sameCore : other.core = before.core)
    (sameRead : ∀ address ∈ sequentialReads zydis decoded next before.core,
      other.memory address = before.memory address) :
    ∃ result, sequentialEffect zydis semantics sequential decoded next other = some result ∧
      result.core = after.core ∧
      (∀ address ∈ sequentialWrites zydis semantics decoded next before.core,
        result.memory address = after.memory address) ∧
      Memory.ChangesOnly (sequentialWrites zydis semantics decoded next before.core) other.memory
        result.memory := by
  unfold sequentialEffect at executed ⊢
  split at executed
  · rename_i goesOn
    rw [if_pos goesOn]
    obtain ⟨final, done, rfl⟩ := Option.map_eq_some_iff.mp executed
    have core : (other.core.cpu other.memory).core = (before.core.cpu before.memory).core := by
      rw [sameCore]
      rfl
    have same : Cpu.SameIn (sequentialReads zydis decoded next before.core)
        (before.core.cpu before.memory) (other.core.cpu other.memory) := ⟨core, sameRead⟩
    have operands : Cpu.SameIn (operandBytes (decoded.operandPlaces zydis next))
        (before.core.cpu before.memory) (other.core.cpu other.memory) :=
      ⟨core, fun address inside => sameRead address (.inl inside)⟩
    rcases execute_cases (rfl : _ = decoded.operandPlaces zydis next) done with
      ⟨push, source, single, all⟩ | ⟨pop, index, single, all⟩ | ⟨push, pop, all⟩
    · have value := operands.read_eq
        (inRegion_operandBytes (single ▸ List.mem_singleton_self source))
      obtain rfl := Option.some.inj ((all _).symm.trans done)
      obtain ⟨stored, changed⟩ := Cpu.SameIn.push core
        (BitVec.ofNat 64 ((before.core.cpu before.memory).read source))
      refine ⟨_, congrArg (Option.map Cpu.state) (all _), ?_⟩
      rw [value, sequentialWrites, if_pos push]
      exact ⟨stored.core, stored.memory, changed⟩
    · obtain rfl := Option.some.inj ((all _).symm.trans done)
      have popped := same.pop (by
        rw [sequentialReads, if_pos pop]
        exact Set.subset_union_right) index
      refine ⟨_, congrArg (Option.map Cpu.state) (all _), popped.core, fun address written => ?_,
        .refl _ _⟩
      rw [sequentialWrites, if_neg (by rw [pop]; decide), if_pos pop] at written
      exact written.elim
    · obtain rfl := Option.some.inj ((all _).symm.trans done)
      have stored := operands.apply (fun _ => inRegion_operandBytes)
        (semantics.operation decoded.info.mnemonic)
      refine ⟨_, congrArg (Option.map Cpu.state) (all _), stored.core, ?_⟩
      rw [sequentialWrites, if_neg push, if_neg pop]
      exact ⟨fun address written => stored.memory address (writtenBytes_subset _ _ written),
        apply_changesOnly _ _ _⟩
  · cases executed

end Frame

section Effects

variable {cpu : Cpu Flags} {places : List Location}

theorem sequentialEffect_state (zydis : Api) (semantics : Semantics Flags) (cpu : Cpu Flags)
    (address : BitVec 64) (goesOn : sequential decoded.info.mnemonic) :
    sequentialEffect zydis semantics sequential decoded
        (address + BitVec.ofNat 64 decoded.info.length) cpu.state =
      (execute zydis semantics address decoded cpu).map Cpu.state := by
  rw [sequentialEffect, if_pos goesOn, add_sub_cancel_right]
  rfl

theorem sequential_of_effect {before after : State 64 (Core Flags)}
    (executed : sequentialEffect zydis semantics sequential decoded next before = some after) :
    sequential decoded.info.mnemonic := by
  unfold sequentialEffect at executed
  split at executed
  · assumption
  · cases executed

theorem operandPlaces_eq {address : BitVec 64}
    (located : decoded.locations zydis address = places.map some) :
    decoded.operandPlaces zydis (address + BitVec.ofNat 64 decoded.info.length) = places := by
  rw [Decoded.operandPlaces, add_sub_cancel_right, located]
  simp

section Load

variable {part : Part} {target : BitVec 64} {width : Nat}

theorem mov_readOnly (semantics : Semantics Flags) :
    ∀ position base size, [Location.register part, .memory target width][position]? =
        some (.memory base size) →
      ∀ widths values flags,
        (semantics.operation Mnemonic.mov widths values flags).1.getD position none = none := by
  intro position base size found widths values flags
  rw [semantics.mov]
  obtain _ | _ | position := position
  · cases found
  · rfl
  · rfl

variable (mnemonic : decoded.info.mnemonic = Mnemonic.mov)
  (located : decoded.operandPlaces zydis next = [.register part, .memory target width])
  (core : Core Flags)

include mnemonic located

theorem load_reads : sequentialReads zydis decoded next core ⊆ span target (width / 8) := by
  rw [sequentialReads, if_neg (by rw [mnemonic]; decide), Set.union_empty, located]
  exact operandBytes_subset (by simp [InRegion])

theorem load_writes (semantics : Semantics Flags) :
    sequentialWrites zydis semantics decoded next core = ∅ := by
  rw [sequentialWrites, if_neg (by rw [mnemonic]; decide), if_neg (by rw [mnemonic]; decide),
    located, mnemonic, writtenBytes_eq_empty (mov_readOnly semantics)]

end Load

end Effects

theorem jumpTarget_of_sequential (reads : zydis.ReadsInstruction .long64)
    (opcodes : zydis.JumpOpcodes) (jmp : sequential Mnemonic.jmp = false)
    {instruction : zydis.Instruction .long64} (goesOn : sequential instruction.item.info.mnemonic)
    {memory : Memory 64} {address : BitVec 64}
    (loaded : memory.read address instruction.bytes.length = instruction.bytes) :
    jumpTarget memory address = none := by
  have found : zydis.decode .long64 (memory.read address (instruction.bytes.length + 2)) =
      some instruction.item := by
    rw [Memory.read_add, loaded]
    exact instruction.decode_append reads.selfDelimiting _
  obtain ⟨rest, window⟩ : ∃ rest, memory.read address (instruction.bytes.length + 2) =
      memory address :: memory (address + 1) :: rest := ⟨_, rfl⟩
  rw [window] at found
  have noJump (opcode : memory address = 0xE9 ∨ memory address = 0xFF ∧ memory (address + 1) = 0x25) :
      False := by
    have jump : instruction.item.info.mnemonic = Mnemonic.jmp := by
      rcases opcode with direct | ⟨first, second⟩
      · exact opcodes found (.inl (by rw [direct, List.head?_cons]))
      · exact opcodes found (.inr (by rw [first, second]; exact List.prefix_append [_, _] rest))
    rw [jump, jmp] at goesOn
    cases goesOn
  rw [jumpTarget, if_neg (noJump ∘ .inl), if_neg (noJump ∘ .inr)]

/-- The jumps that patches are made of, and the sequential instructions. -/
def sequentialProcessor (semantics : Semantics Flags) (sequential : Mnemonic → Bool)
    (reads : zydis.ReadsInstruction .long64) (opcodes : zydis.JumpOpcodes)
    (jmp : sequential Mnemonic.jmp = false) :
    Processor 64 (Core Flags) (zydis.decoder .long64) where
  window := maxInstructionLength
  jump := jumpTarget
  effect := sequentialEffect zydis semantics sequential
  reads := sequentialReads zydis
  writes := sequentialWrites zydis semantics
  fits := Api.Instruction.length_le
  framed := sequentialEffect_framed
  straight := by
    intro instruction next before after executed memory address loaded
    exact jumpTarget_of_sequential reads opcodes jmp (sequential_of_effect executed) loaded

theorem passes_cons {reads : zydis.ReadsInstruction .long64} {opcodes : zydis.JumpOpcodes}
    {jmp : sequential Mnemonic.jmp = false} {code : Set (BitVec 64)} {address : BitVec 64}
    {instruction : zydis.Instruction .long64} {rest : List (zydis.Instruction .long64)}
    {cpu result : Cpu Flags} {after : State 64 (Core Flags)}
    (goesOn : sequential instruction.item.info.mnemonic)
    (executed : execute zydis semantics address instruction.item cpu = some result)
    (unwritten : Disjoint (sequentialWrites zydis semantics instruction.item
      (address + BitVec.ofNat 64 instruction.item.info.length) cpu.core) code)
    (following : Passes (sequentialProcessor semantics sequential reads opcodes jmp) code
      (address + BitVec.ofNat 64 instruction.bytes.length) rest result.state after) :
    Passes (sequentialProcessor semantics sequential reads opcodes jmp) code address
      (instruction :: rest) cpu.state after := by
  have width : instruction.bytes.length = instruction.item.info.length := instruction.exact
  refine .cons ?_ ?_ following
  · rw [width]
    exact (sequentialEffect_state _ _ _ address goesOn).trans (congrArg (Option.map Cpu.state) executed)
  · rw [width]
    exact unwritten

section Placement

variable {decoded other : Decoded}

theorem samePlace_of_locations {reads : zydis.ReadsInstruction .long64}
    {opcodes : zydis.JumpOpcodes} {jmp : sequential Mnemonic.jmp = false}
    (mnemonic : other.info.mnemonic = decoded.info.mnemonic)
    (located : other.locations zydis (later - BitVec.ofNat 64 other.info.length) =
      decoded.locations zydis (next - BitVec.ofNat 64 decoded.info.length)) :
    SamePlace (sequentialProcessor semantics sequential reads opcodes jmp) decoded other next
      later := by
  have places : other.operandPlaces zydis later = decoded.operandPlaces zydis next :=
    congrArg (List.filterMap id) located
  refine ⟨?_, ?_, ?_⟩
  · funext state
    change sequentialEffect _ _ _ _ _ _ = sequentialEffect _ _ _ _ _ _
    simp only [sequentialEffect, execute, mnemonic, located]
  · funext core
    change sequentialReads _ _ _ _ = sequentialReads _ _ _ _
    rw [sequentialReads, sequentialReads, places, mnemonic]
  · funext core
    change sequentialWrites _ _ _ _ _ = sequentialWrites _ _ _ _ _
    rw [sequentialWrites, sequentialWrites, places, mnemonic]

theorem locations_eq (next : BitVec 64) (decoded : Decoded) :
    decoded.locations zydis (next - BitVec.ofNat 64 decoded.info.length) =
      (List.range decoded.info.operandCountVisible).map fun position =>
        (decoded.operands.getD position default).location zydis next := by
  rw [Decoded.locations, sub_add_cancel]

theorem withDisplacement_getD (value : BitVec 64) (position : Nat) :
    (decoded.withDisplacement value).operands.getD position default =
      (decoded.operands.getD position default).withDisplacement value := by
  rw [Decoded.withDisplacement, List.getD_eq_getElem?_getD, List.getD_eq_getElem?_getD,
    List.getElem?_map]
  cases decoded.operands[position]? <;> rfl

theorem location_withDisplacement {operand : DecodedOperand} {old value : BitVec 64}
    (distance : later + value = next + old)
    (rip : ∀ {index disp}, operand.value = .memory Register.rip index disp → disp = old) :
    (operand.withDisplacement value).location zydis later = operand.location zydis next := by
  cases shape : operand.value with
  | memory base index disp =>
      by_cases isRip : base = Register.rip
      · subst isRip
        obtain rfl := rip shape
        simp only [DecodedOperand.withDisplacement, DecodedOperand.location, shape, if_true,
          distance]
      · simp only [DecodedOperand.withDisplacement, DecodedOperand.location, shape, if_neg isRip]
  | _ => simp only [DecodedOperand.withDisplacement, DecodedOperand.location, shape]

theorem location_anywhere (operand : DecodedOperand) (next later : BitVec 64)
    (noRip : ∀ {index disp}, operand.value ≠ .memory Register.rip index disp) :
    operand.location zydis later = operand.location zydis next := by
  cases shape : operand.value with
  | memory base index disp =>
      have notRip : base ≠ Register.rip := by
        rintro rfl
        exact noRip shape
      simp only [DecodedOperand.location, shape, if_neg notRip]
  | _ => simp only [DecodedOperand.location, shape]

theorem sequentialProcessor_executes (semantics : Semantics Flags)
    (reads : zydis.ReadsInstruction .long64) (opcodes : zydis.JumpOpcodes)
    (jmp : sequential Mnemonic.jmp = false) (operands : zydis.RipOperands) :
    Executes (sequentialProcessor semantics sequential reads opcodes jmp) where
  jump := rfl
  anywhere := by
    intro instruction plain next later
    refine samePlace_of_locations rfl ?_
    rw [locations_eq, locations_eq]
    refine List.map_congr_left fun position member => location_anywhere _ _ _ fun {_ _} shape => ?_
    have relative := (operands instruction.decoded (List.mem_range.mp member) shape).1
    rw [plain] at relative
    cases relative
  displaced := by
    intro instruction _ next later value distance
    refine samePlace_of_locations rfl ?_
    rw [locations_eq, locations_eq]
    refine List.map_congr_left fun position member => ?_
    rw [withDisplacement_getD]
    exact location_withDisplacement distance fun {_ _} shape =>
      (operands instruction.decoded (List.mem_range.mp member) shape).2

end Placement

namespace Subset

theorem jumpOpcodes : subset.JumpOpcodes := by
  intro buffer decoded found opcode
  obtain ⟨form, field, rest, width, rfl, rfl⟩ := decode_cases found
  cases form <;> simp [Form.opcode, Form.decoded, Form.mnemonic] at opcode ⊢

theorem ripOperands : subset.RipOperands := by
  intro buffer decoded found position index disp visible shape
  obtain ⟨form, field, rest, width, rfl, rfl⟩ := decode_cases found
  obtain _ | _ | position := position
  · cases form <;> first
      | (cases shape; done)
      | (cases shape; exact ⟨Form.decoded_hasDisplacement.trans (by decide), rfl⟩)
  · cases form <;> first
      | (cases shape; done)
      | (cases shape; exact ⟨Form.decoded_hasDisplacement.trans (by decide), rfl⟩)
  · have few : (form.operandValues 0).length ≤ 2 := by cases form <;> decide
    have inside : position + 2 < (form.operandValues 0).length := visible
    omega

end Subset

end Detours.Zydis

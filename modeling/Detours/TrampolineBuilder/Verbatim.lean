import Detours.TrampolineBuilder.BranchEntry

namespace Detours

open Detours.Bytes Detours.Decoding Detours.Machine Detours.Zydis

namespace TrampolineBuilder

variable {zydis : Api} {leftover : BitVec 64 → Leftover} {state : RewriteState}
  {address : BitVec 64} {instruction : AnnotatedInstruction}

theorem exists_chunk (decodesBack : zydis.DecodesBack) {request : EncoderRequest}
    {encoded : Encoded} (success : zydis.encodeInstruction request = some encoded) :
    ∃ chunk : zydis.Instruction .long64, chunk.bytes = encoded.bytes := by
  obtain ⟨copy, decoded, length⟩ := decodesBack.whole success
  exact ⟨⟨copy, encoded.bytes, length.symm, decoded⟩, rfl⟩

def Verbatim (zydis : Api) (leftover : BitVec 64 → Leftover) :
    RewriteState → BitVec 64 → List (zydis.Instruction .long64) → Prop
  | _, _, [] => True
  | state, address, instruction :: rest =>
      (rewriteInstruction zydis leftover (annotated leftover address instruction.item) state).1 =
        instruction.bytes ∧
      Verbatim zydis leftover
        (rewriteInstruction zydis leftover (annotated leftover address instruction.item) state).2
        (address + BitVec.ofNat 64 instruction.bytes.length) rest

theorem Verbatim.rewriteAll_eq {instructions : List (zydis.Instruction .long64)}
    (verbatim : Verbatim zydis leftover state address instructions) :
    (rewriteAll zydis leftover state (annotateBlock leftover address instructions)).1 =
      blockBytes instructions := by
  induction instructions generalizing state address with
  | nil => rfl
  | cons instruction rest ih =>
      simp only [annotateBlock, rewriteAll, blockBytes_cons, verbatim.1, ih verbatim.2]

/-- From the end of the instruction at `offset` to its jump table entry, where `branches` others
have one before it and all that is in front of it is as long as it was. -/
def distanceToEntry (offset branches length : Nat) : BitVec 64 :=
  BitVec.ofNat 64 (0x60 + 8 * branches) - BitVec.ofNat 64 (offset + length)

/-- The encoder's answer to the one request for an instruction. A relative one that is not a
branch has four requests. -/
def answer (zydis : Api) (leftover : BitVec 64 → Leftover) (originalAddress : BitVec 64)
    (offset branches : Nat) (decoded : Decoded) : Option Encoded :=
  let raw := decoded.info
  let operands := (annotated leftover (originalAddress + BitVec.ofNat 64 offset) decoded).operands
  if raw.isRelative = false then reencode zydis raw operands
  else if rewritesBranch raw then
    zydis.encodeInstruction (substituteImmediate
      (zydis.toEncoderRequest raw operands raw.operandCountVisible).1
      (distanceToEntry offset branches raw.length))
  else none

/-- The encoder answers with the bytes that each instruction has: those of a branch hold the
distance to its jump table entry already. -/
def Reproduced (zydis : Api) (leftover : BitVec 64 → Leftover) (originalAddress : BitVec 64) :
    Nat → Nat → List (zydis.Instruction .long64) → Prop
  | _, _, [] => True
  | offset, branches, instruction :: rest =>
      (answer zydis leftover originalAddress offset branches instruction.item).map Encoded.bytes =
        some instruction.bytes ∧
      Reproduced zydis leftover originalAddress (offset + instruction.bytes.length)
        (branches + if instruction.item.info.isRelative then 1 else 0) rest

instance decidableReproduced (zydis : Api) (leftover : BitVec 64 → Leftover)
    (originalAddress : BitVec 64) : (offset branches : Nat) →
      (instructions : List (zydis.Instruction .long64)) →
        Decidable (Reproduced zydis leftover originalAddress offset branches instructions)
  | _, _, [] => .isTrue trivial
  | offset, branches, instruction :: rest =>
      have := decidableReproduced zydis leftover originalAddress
        (offset + instruction.bytes.length)
        (branches + if instruction.item.info.isRelative then 1 else 0) rest
      inferInstanceAs (Decidable (_ ∧ _))

/-- The running address and the tables, where all that is in front is as long as it was. -/
structure Located (cave : BitVec 64) (offset branches : Nat) (state : RewriteState) : Prop where
  runtimeAddress : state.runtimeAddress = cave + BitVec.ofNat 64 offset
  jumpTableAddress :
    state.builder.jumpTableAddress = cave + BitVec.ofNat 64 (0x60 + 8 * branches)

theorem buildStart_located (zydis : Api) (leftover : BitVec 64 → Leftover) (memory : Memory 64)
    (originalAddress : BitVec 64) (size : Nat) (cave hookFunction : BitVec 64) :
    Located cave 0 0 (buildStart zydis leftover memory originalAddress size cave hookFunction) where
  runtimeAddress := (BitVec.add_zero cave).symm
  jumpTableAddress := buildStart_tables.jumpTableAddress

section Located

variable {cave originalAddress : BitVec 64} {offset branches : Nat} {decoded : Decoded}
  {encoded : Encoded} (located : Located cave offset branches state)

include located

theorem Located.entryDistance (length : Nat) :
    entryDistance state length = distanceToEntry offset branches length := by
  rw [TrampolineBuilder.entryDistance, located.runtimeAddress, located.jumpTableAddress,
    BitVec.add_assoc, ← BitVec.ofNat_add, add_sub_add_left_eq_sub, distanceToEntry]

variable (zydis leftover originalAddress) (one : decoded.info.isRelative = true →
  rewritesBranch decoded.info = true)

include one

theorem Located.encoderCalls_eq :
    encoderCalls zydis (annotated leftover (originalAddress + BitVec.ofNat 64 offset) decoded)
        state = [answer zydis leftover originalAddress offset branches decoded] := by
  cases relative : decoded.info.isRelative with
  | false =>
      rw [encoderCalls_plain (by rw [annotated_isRelative, relative]), annotated_instruction, answer,
        if_pos relative]
  | true =>
      rw [encoderCalls_branch (by rw [annotated_isRelative, relative])
        (by rw [annotated_instruction, one relative]), branchRequest_placeRelocation,
        located.entryDistance, annotated_instruction, answer, if_neg (by rw [relative]; decide),
        if_pos (one relative)]

theorem Located.next
    (success : answer zydis leftover originalAddress offset branches decoded = some encoded) :
    Located cave (offset + encoded.bytes.length)
      (branches + if decoded.info.isRelative then 1 else 0)
      (rewriteInstruction zydis leftover
        (annotated leftover (originalAddress + BitVec.ofNat 64 offset) decoded) state).2 := by
  have calls := located.encoderCalls_eq zydis leftover originalAddress one
  have succeeds : CallsSucceed zydis
      (annotated leftover (originalAddress + BitVec.ofNat 64 offset) decoded) state := by
    rw [CallsSucceed, calls, List.forall_mem_singleton, success]
    rfl
  have placed := (rewriteInstruction_placed zydis leftover
    (annotated leftover (originalAddress + BitVec.ofNat 64 offset) decoded) state).1
  refine ⟨?_, ?_⟩
  · rw [rewriteInstruction_runtimeAddress leftover succeeds, rewriteInstruction_bytes, calls,
      success, located.runtimeAddress, BitVec.ofNat_add, BitVec.add_assoc]
    simp [encodedBytes]
  · rw [placed, relocations, annotated_isRelative, annotated_instruction]
    cases relative : decoded.info.isRelative with
    | false =>
        exact located.jumpTableAddress
    | true =>
        rw [one relative]
        change state.builder.jumpTableAddress + 8 = _
        rw [located.jumpTableAddress, BitVec.add_assoc, if_pos rfl, Nat.mul_add, ← Nat.add_assoc,
          BitVec.ofNat_add _ (8 * 1)]
        rfl

end Located

theorem Reproduced.verbatim {cave originalAddress : BitVec 64} {offset branches : Nat}
    {instructions : List (zydis.Instruction .long64)} (located : Located cave offset branches state)
    (reproduced : Reproduced zydis leftover originalAddress offset branches instructions) :
    Verbatim zydis leftover state (originalAddress + BitVec.ofNat 64 offset) instructions := by
  induction instructions generalizing state offset branches with
  | nil => trivial
  | cons instruction rest ih =>
      obtain ⟨own, others⟩ := reproduced
      obtain ⟨encoded, success, same⟩ := Option.map_eq_some_iff.mp own
      have one : instruction.item.info.isRelative = true →
          rewritesBranch instruction.item.info = true := by
        intro relative
        by_contra branch
        rw [answer, if_neg (by rw [relative]; decide), if_neg branch] at success
        cases success
      have next := located.next zydis leftover originalAddress one success
      rw [same] at next
      refine ⟨?_, ?_⟩
      · rw [rewriteInstruction_bytes, located.encoderCalls_eq zydis leftover originalAddress one,
          success]
        simpa [encodedBytes] using same
      · rw [BitVec.add_assoc, ← BitVec.ofNat_add]
        exact ih next others

theorem reencode_request {raw : DecodedInstruction} {operands : List DecodedOperand}
    {encoded : Encoded} (success : reencode zydis raw operands = some encoded) :
    ∃ request, zydis.encodeInstruction request = some encoded := by
  unfold reencode at success
  split at success
  · cases success
  · exact ⟨_, success⟩

theorem rewriteInstruction_front (leftover : BitVec 64 → Leftover) (decodesBack : zydis.DecodesBack)
    (succeeds : CallsSucceed zydis instruction state) :
    ∃ (chunk : zydis.Instruction .long64) (others : List Byte),
      (rewriteInstruction zydis leftover instruction state).1 = chunk.bytes ++ others ∧
      (others = [] ∧
          (instruction.isRelative = true → rewritesBranch instruction.instruction = true) ∨
        chunk.item.info.isRelative = false ∧ instruction.isRelative = true) := by
  unfold CallsSucceed at succeeds
  rw [rewriteInstruction_bytes]
  cases relative : instruction.isRelative with
  | false =>
      rw [encoderCalls_plain relative, List.forall_mem_singleton] at succeeds
      obtain ⟨encoded, success⟩ := Option.isSome_iff_exists.mp succeeds
      obtain ⟨request, made⟩ := reencode_request success
      obtain ⟨chunk, bytes⟩ := exists_chunk decodesBack made
      refine ⟨chunk, [], ?_, .inl ⟨rfl, nofun⟩⟩
      rw [encoderCalls_plain relative, success, bytes]
      simp [encodedBytes]
  | true =>
      cases branch : rewritesBranch instruction.instruction with
      | true =>
          rw [encoderCalls_branch relative branch, List.forall_mem_singleton] at succeeds
          obtain ⟨encoded, success⟩ := Option.isSome_iff_exists.mp succeeds
          obtain ⟨chunk, bytes⟩ := exists_chunk decodesBack success
          refine ⟨chunk, [], ?_, .inl ⟨rfl, fun _ => rfl⟩⟩
          rw [encoderCalls_branch relative branch, success, bytes]
          simp [encodedBytes]
      | false =>
          rw [encoderCalls_memory relative branch] at succeeds ⊢
          obtain ⟨encoded, success⟩ := Option.isSome_iff_exists.mp
            (succeeds _ List.mem_cons_self)
          obtain ⟨chunk, bytes⟩ := exists_chunk decodesBack success
          have plain : chunk.item.info.isRelative = false :=
            decodesBack.push success (by rw [← bytes, Api.Instruction.decode_bytes])
          have front : encodedBytes (some encoded) = chunk.bytes := bytes.symm
          rw [List.flatMap_cons, success, front]
          exact ⟨chunk, _, rfl, .inr ⟨plain, rfl⟩⟩

/-- Successful code that begins like the stolen bytes has each instruction reproduced. -/
theorem reproduced_of_prefix {cave originalAddress : BitVec 64} {offset branches : Nat}
    (reads : zydis.ReadsInstruction .long64) (decodesBack : zydis.DecodesBack)
    {instructions : List (zydis.Instruction .long64)} {tail : List Byte}
    (located : Located cave offset branches state)
    (succeeds : RunSucceeds zydis leftover state
      (annotateBlock leftover (originalAddress + BitVec.ofNat 64 offset) instructions))
    (begins : blockBytes instructions <+: (rewriteAll zydis leftover state
      (annotateBlock leftover (originalAddress + BitVec.ofNat 64 offset) instructions)).1 ++ tail) :
    Reproduced zydis leftover originalAddress offset branches instructions := by
  induction instructions generalizing state offset branches with
  | nil => trivial
  | cons instruction rest ih =>
      obtain ⟨suffix, stream⟩ := begins
      obtain ⟨chunk, others, code, form⟩ := rewriteInstruction_front leftover
        decodesBack succeeds.1
      simp only [annotateBlock, rewriteAll, code, blockBytes_cons, List.append_assoc] at stream
      obtain ⟨same, following⟩ := Chunk.append_inj reads.selfDelimiting stream
      rcases form with ⟨rfl, one⟩ | ⟨plain, relative⟩
      · rw [annotated_isRelative, annotated_instruction] at one
        have success := succeeds.1
        rw [CallsSucceed, located.encoderCalls_eq zydis leftover originalAddress one,
          List.forall_mem_singleton] at success
        obtain ⟨encoded, success⟩ := Option.isSome_iff_exists.mp success
        have next := located.next zydis leftover originalAddress one success
        rw [rewriteInstruction_bytes, located.encoderCalls_eq zydis leftover originalAddress one,
          success, ← same] at code
        have own : encoded.bytes = instruction.bytes := by simpa [encodedBytes] using code
        rw [own] at next
        have advanced : originalAddress + BitVec.ofNat 64 (offset + instruction.bytes.length) =
            originalAddress + BitVec.ofNat 64 offset +
              BitVec.ofNat 64 instruction.bytes.length := by
          rw [BitVec.ofNat_add, BitVec.add_assoc]
        refine ⟨Option.map_eq_some_iff.mpr ⟨encoded, success, own⟩, ih next ?_ ⟨suffix, ?_⟩⟩
        · rw [advanced]
          exact succeeds.2
        · rw [advanced]
          exact following
      · rw [annotated_isRelative, same, plain] at relative
        cases relative

end TrampolineBuilder

end Detours

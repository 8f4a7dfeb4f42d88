import Detours.TrampolineBuilder.BranchEntry
import Detours.TrampolineBuilder.Branches

namespace Detours.TrampolineBuilder

open Detours.Bytes Detours.Decoding Detours.Machine Detours.Zydis

section Tables

variable {cave target : BitVec 64} {placed : List (BitVec 64)} {builder : TrampolineBuilder}
  {memory : Memory 64} {index offset : Nat}

theorem jumpTarget_eq_none (near : memory target ≠ 0xE9) (indirect : memory target ≠ 0xFF) :
    jumpTarget memory target = none := by
  rw [jumpTarget, if_neg near, if_neg fun both => indirect both.1]

theorem Tables.entry_byte (tables : Tables cave placed builder memory)
    (found : placed[index]? = some target) (behind : 0 < offset) (inside : offset < 6) :
    memory (cave + BitVec.ofNat 64 (0x50 + 8 * index + offset)) ≠ 0xE9 ∧
      memory (cave + BitVec.ofNat 64 (0x50 + 8 * index + offset)) ≠ 0xFF := by
  have all : ∀ offset < 6, 0 < offset → ∃ byte, (jumpQword entryDisplacement)[offset]? = some byte ∧
      byte ≠ 0xE9 ∧ byte ≠ 0xFF := by decide
  obtain ⟨byte, stored, different⟩ := all offset inside behind
  rw [← tables.entry found, Memory.read_getElem? inside, Option.some.injEq, BitVec.add_assoc,
    ← BitVec.ofNat_add] at stored
  rwa [stored]

/-- The bytes between the entries are zero. -/
def ZeroGaps (cave : BitVec 64) (memory : Memory 64) : Prop :=
  ∀ offset, 0x50 ≤ offset → offset < 0x100 → ¬IsTableOffset offset →
    memory (cave + BitVec.ofNat 64 offset) = 0

/-- Execution in the jump table: at the start of an entry it follows its slot, and
anywhere else it meets no jump. -/
theorem Tables.jumpTarget_position (tables : Tables cave placed builder memory)
    (gaps : ZeroGaps cave memory) (few : placed.length ≤ 22) {position : Nat}
    (inside : position < 8 * placed.length) :
    jumpTarget memory (cave + BitVec.ofNat 64 (0x50 + position)) =
      if position % 8 = 0 then placed[position / 8]? else none := by
  have below : position / 8 < placed.length := by omega
  have found : placed[position / 8]? = some placed[position / 8] := List.getElem?_eq_getElem below
  have split : position = 8 * (position / 8) + position % 8 := (Nat.div_add_mod position 8).symm
  by_cases start : position % 8 = 0
  · rw [if_pos start, found, ← tables.jumpTarget_entry found]
    rw [start, Nat.add_zero] at split
    rw [← split]
  · rw [if_neg start]
    by_cases entry : position % 8 < 6
    · have different := tables.entry_byte found (Nat.pos_of_ne_zero start) entry
      rw [Nat.add_assoc, ← split] at different
      exact jumpTarget_eq_none different.1 different.2
    · have zero := gaps (0x50 + position) (by omega) (by omega) (by unfold IsTableOffset; omega)
      exact jumpTarget_eq_none (by rw [zero]; decide) (by rw [zero]; decide)

/-- Up to 14 bytes in front of an entry, execution meets the target of the entry itself, or
eight bytes earlier the target of the entry before. -/
theorem entryMet_iff {stored : BitVec 64} {missing : Nat} (found : placed[index]? = some target)
    (second : 2 ≤ index) (close : missing < 15) :
    (if (8 * index - missing) % 8 = 0 then placed[(8 * index - missing) / 8]? else none) =
        some stored ↔
      (missing = 0 ∧ stored = target) ∨ (missing = 8 ∧ placed[index - 1]? = some stored) := by
  by_cases kept : missing = 0
  · subst kept
    rw [if_pos (by omega), Nat.sub_zero, Nat.mul_div_cancel_left _ (by decide), found,
      Option.some.injEq, or_iff_left (fun both => absurd both.1 (by decide))]
    exact eq_comm.trans (and_iff_right rfl).symm
  · rw [or_iff_right (fun both => kept both.1)]
    by_cases previous : missing = 8
    · subst previous
      rw [if_pos (by omega), show (8 * index - 8) / 8 = index - 1 by omega]
      exact (and_iff_right rfl).symm
    · -- control meets a displacement or a zero
      rw [if_neg (by omega)]
      constructor
      · intro impossible
        cases impossible
      · intro both
        exact absurd both.1 previous

end Tables

def pointerAddress (address : BitVec 64) (decoded : Decoded) (disp : BitVec 64) : BitVec 64 :=
  address + BitVec.ofNat 64 decoded.info.length + disp

/-- The only operand is in memory, relative to the instruction pointer. -/
structure ThroughPointer (decoded : Decoded) (disp : BitVec 64) : Prop where
  relative : decoded.info.isRelative = true
  branch : rewritesBranch decoded.info = true
  single : decoded.info.operandCountVisible = 1
  memory : (decoded.operands.getD 0 default).value = .memory Register.rip Register.none disp

/-- Executed in memory `now`, the emitted branch transfers control to the 64-bit value
stored at `pointer`, as the original does. -/
def FollowsPointer (zydis : Api) (leftover : BitVec 64 → Leftover) (memory : Memory 64)
    (originalAddress : BitVec 64) (size : Nat) (cave hookFunction : BitVec 64)
    (front : List (zydis.Instruction .long64)) (instruction : zydis.Instruction .long64)
    (pointer : BitVec 64) (now : Memory 64) : Prop :=
  let address := emittedAddress zydis leftover memory originalAddress size cave hookFunction front
  ∃ copy,
    zydis.decode .long64 (now.read address (emittedFor zydis leftover memory originalAddress size
      cave hookFunction front instruction).length) = some copy ∧
    copy.info.imm.isRelative ∧
    jumpTarget now (copy.branchTarget address) = some (read64 now pointer)

variable {zydis : Api} {leftover : BitVec 64 → Leftover} {memory now : Memory 64}
  {originalAddress cave hookFunction disp : BitVec 64} {size : Nat}
  {front rest : List (zydis.Instruction .long64)} {instruction : zydis.Instruction .long64}
  {lengthOf : Decoded → BitVec 64 → Nat}

/-- The slot gets the address of the pointer, not the pointer. -/
theorem ThroughPointer.absoluteAddress {address : BitVec 64} {decoded : Decoded}
    (indirect : ThroughPointer decoded disp) :
    (annotated leftover address decoded).absoluteAddress = pointerAddress address decoded disp :=
  (annotated_of_memory (by rw [indirect.single]; exact Nat.one_pos) indirect.memory
    fun position inside different => absurd inside (by rw [indirect.single]; omega)).2

theorem ThroughPointer.relocations_eq {address : BitVec 64} {decoded : Decoded}
    (indirect : ThroughPointer decoded disp) :
    relocations (annotated leftover address decoded) = [pointerAddress address decoded disp] := by
  rw [relocations, annotated_isRelative, annotated_instruction, indirect.relative, indirect.branch,
    indirect.absoluteAddress]
  rfl

section Built

variable (reads : zydis.ReadsInstruction .long64)
  (stolen : Stolen zydis memory originalAddress 14 size)

include reads stolen

theorem built_zeroGaps
    (zeroed : ∀ address ∈ span cave 0x1000, memory address = 0)
    (short : (emittedCode zydis leftover memory originalAddress size cave hookFunction).length + 5 ≤
      0x50) :
    ZeroGaps cave (built zydis leftover memory originalAddress size cave hookFunction) := by
  intro offset above below gap
  rw [built_eq _ _ _ reads stolen, Memory.write_changesOnly _,
    (emittedAfter_tables _ _ _ reads stolen).2]
  · exact zeroed _ ((add_ofNat_mem_span _ (by omega)).mpr (by omega))
  · intro written
    change IsTableOffset _ at written
    rw [add_ofNat_sub (by omega)] at written
    exact gap written
  · rw [add_ofNat_mem_span _ (by omega), closedCode_length]
    omega

variable (later : Memory.ChangesOnly (Set.compl (span cave 0x1000))
  (built zydis leftover memory originalAddress size cave hookFunction) now)

include later

theorem jumpTarget_later (zeroed : ∀ address ∈ span cave 0x1000, memory address = 0)
    (short : (emittedCode zydis leftover memory originalAddress size cave hookFunction).length + 5 ≤
      0x50) {position : Nat}
    (inside : position <
      8 * (placedAddresses zydis leftover memory originalAddress size cave hookFunction).length) :
    jumpTarget now (cave + BitVec.ofNat 64 (0x50 + position)) =
      if position % 8 = 0 then
        (placedAddresses zydis leftover memory originalAddress size cave hookFunction)[position / 8]?
      else none := by
  have few := placedAddresses_length_le leftover cave hookFunction reads stolen
  have tables := (built_tables _ _ _ reads stolen short).frame (by omega) later
    ((Set.disjoint_compl_right_iff_subset).mpr (span_add_subset 0x50 (by decide) (by decide)))
  refine tables.jumpTarget_position ?_ (by omega) inside
  intro offset above below gap
  have block : cave + BitVec.ofNat 64 offset ∈ span cave 0x1000 :=
    (add_ofNat_mem_span _ (by omega)).mpr (by omega)
  rw [later _ fun outside => outside block]
  exact built_zeroGaps reads stolen zeroed short offset above below gap

theorem read_emittedFor_later (split : stolen.instructions = front ++ instruction :: rest)
    (short : (emittedCode zydis leftover memory originalAddress size cave hookFunction).length + 5 ≤
      0x50) :
    now.read (emittedAddress zydis leftover memory originalAddress size cave hookFunction front)
      (emittedFor zydis leftover memory originalAddress size cave hookFunction front
        instruction).length =
      emittedFor zydis leftover memory originalAddress size cave hookFunction front instruction := by
  obtain ⟨others, code⟩ := emittedCode_split leftover cave hookFunction reads stolen split
  rw [code, List.length_append, List.length_append] at short
  have block : span (emittedAddress zydis leftover memory originalAddress size cave hookFunction
      front) (emittedFor zydis leftover memory originalAddress size cave hookFunction front
        instruction).length ⊆ span cave 0x1000 :=
    span_add_subset _ (by omega) (by decide)
  rw [later.read_eq (by omega) (Set.disjoint_compl_right_iff_subset.mpr block)]
  exact built_read_emittedFor leftover cave hookFunction reads stolen split

end Built

section Branch

variable (reads : zydis.ReadsInstruction .long64)
  (stolen : Stolen zydis memory originalAddress 14 size)
  (split : stolen.instructions = front ++ instruction :: rest)
  (branches : zydis.EncodesBranches lengthOf)
  (indirect : ThroughPointer instruction.item disp)
  (succeeds : BuildSucceeds zydis leftover memory originalAddress size cave hookFunction)

include reads split branches indirect succeeds

theorem emittedFor_indirect :
    ∃ copy,
      zydis.decode .long64 (emittedFor zydis leftover memory originalAddress size cave hookFunction
        front instruction) = some copy ∧
      copy.info.imm.isRelative ∧
      copy.info.length = lengthOf instruction.item copy.info.imm.value ∧
      copy.info.imm.value =
        cave + BitVec.ofNat 64 (0x50 + 8 * entryIndex zydis leftover originalAddress front) -
          (emittedAddress zydis leftover memory originalAddress size cave hookFunction front +
            BitVec.ofNat 64 instruction.bytes.length) := by
  have found := instruction.decode_bytes
  have width : instruction.bytes.length = instruction.item.info.length := instruction.exact
  obtain ⟨runtime, table, calls⟩ := before_state reads stolen split succeeds
  obtain ⟨request, made, bytes, _⟩ := rewriteInstruction_branchRequest leftover
    (before zydis leftover memory originalAddress size cave hookFunction front).2
    (addressOf zydis originalAddress front) branches found indirect.relative indirect.branch
  have emitted : (rewriteInstruction zydis leftover _ _).1 ≠ [] := rewriteInstruction_ne_nil calls
  rw [bytes] at emitted
  cases success : zydis.encodeInstruction (substituteImmediate request (entryDistance
      (before zydis leftover memory originalAddress size cave hookFunction front).2
      instruction.item.info.length)) with
  | none => exact absurd (by rw [success]; rfl) emitted
  | some encoded =>
      obtain ⟨length, copy, decoded, copyLength, _, relativeCopy, value⟩ :=
        branches.reencoded found indirect.relative indirect.branch made success
      refine ⟨copy, ?_, relativeCopy, by rw [copyLength, length, value], ?_⟩
      · rw [emittedFor, bytes, success]
        exact decoded
      · rw [value, entryDistance, table, runtime, width]

end Branch

/-- A branch through a pointer becomes a branch to the pointer itself. In a zeroed block it
follows the pointer only when this leads to the pointer, or when the encoder drops eight
bytes and the entry before, which control then meets, has the same target. -/
theorem build_followsPointer_iff (reads : zydis.ReadsInstruction .long64)
    (stolen : Stolen zydis memory originalAddress 14 size)
    (split : stolen.instructions = front ++ instruction :: rest)
    (lengths : zydis.EncodedLengths) (branches : zydis.EncodesBranches lengthOf)
    (indirect : ThroughPointer instruction.item disp)
    (zeroed : ∀ address ∈ span cave 0x1000, memory address = 0)
    (succeeds : BuildSucceeds zydis leftover memory originalAddress size cave hookFunction)
    (later : Memory.ChangesOnly (Set.compl (span cave 0x1000))
      (built zydis leftover memory originalAddress size cave hookFunction) now) :
    let pointer := pointerAddress (addressOf zydis originalAddress front) instruction.item disp
    let entry := entryIndex zydis leftover originalAddress front
    let length := instruction.item.info.length
    let encoded := lengthOf instruction.item (cave + BitVec.ofNat 64 (0x50 + 8 * entry) -
      (emittedAddress zydis leftover memory originalAddress size cave hookFunction front +
        BitVec.ofNat 64 length))
    FollowsPointer zydis leftover memory originalAddress size cave hookFunction front instruction
        pointer now ↔
      (encoded = length ∧ read64 now pointer = pointer) ∨
      (encoded + 8 = length ∧
        (placedAddresses zydis leftover memory originalAddress size cave hookFunction)[entry - 1]? =
          some (read64 now pointer)) := by
  intro pointer entry length encoded
  have width : instruction.bytes.length = length := instruction.exact
  have found := instruction.decode_bytes
  obtain ⟨copy, decoded, relative, copyLength, value⟩ :=
    emittedFor_indirect reads stolen split branches indirect succeeds
  have short := emittedCode_short _ _ _ reads stolen lengths succeeds
  have bytes := read_emittedFor_later reads stolen later split short
  have placed : (placedAddresses zydis leftover memory originalAddress size cave
      hookFunction)[entry]? = some pointer :=
    placedAddresses_entryIndex reads stolen split indirect.relocations_eq
  have inside := (List.getElem?_eq_some_iff.mp placed).1
  have shorter : copy.info.length ≤ length := by
    rw [copyLength]
    exact branches.shorter found indirect.relative indirect.branch _
  have same : encoded = copy.info.length := by rw [copyLength, value, width]
  obtain ⟨missing, total⟩ := Nat.exists_eq_add_of_le shorter
  have positive := copy.info.length_pos
  have ownShort := instruction.item.info.length_le
  unfold maxInstructionLength at ownShort
  have two : 2 ≤ entry := Nat.le_add_right _ _
  rw [width, total] at value
  have landing : copy.branchTarget (emittedAddress zydis leftover memory originalAddress size cave
      hookFunction front) = cave + BitVec.ofNat 64 (0x50 + (8 * entry - missing)) := by
    have sum : 0x50 + 8 * entry = 0x50 + (8 * entry - missing) + missing := by omega
    rw [Decoded.branchTarget_of_shorter value, sum, BitVec.ofNat_add _ missing, ← add_assoc,
      add_sub_cancel_right]
  have reached := jumpTarget_later reads stolen later zeroed short
    (show 8 * entry - missing < 8 * _ by omega)
  unfold FollowsPointer
  simp only [bytes, decoded, Option.some.injEq, exists_eq_left', relative, true_and]
  rw [landing, reached, same, entryMet_iff placed two (by omega), total]
  exact or_congr (and_congr_left' (by omega)) (and_congr_left' (by omega))

theorem build_followsPointer_call :
    let nop : subset.Instruction .long64 := Subset.Form.nop.instruction [] rfl
    let call : subset.Instruction .long64 := Subset.Form.callRip.instruction [0x10, 0, 0, 0] rfl
    let lib := HookLib.holding 0x140001000 (blockBytes ([nop, call] ++ List.replicate 7 nop))
    let leftover := (Environment.granting false (0 : BitVec 64)).leftover
    ¬FollowsPointer subset leftover lib.memory 0x140001000 14 0x20000000000 0x150000000 [nop] call
      (pointerAddress 0x140001001 call.item 0x10)
      (built subset leftover lib.memory 0x140001000 14 0x20000000000 0x150000000) := by
  intro nop call lib leftover follows
  have succeeds : BuildSucceeds subset leftover lib.memory 0x140001000 14 0x20000000000
      0x150000000 := by decide +kernel
  have apart : Disjoint (span (0x20000000000 : BitVec 64) 0x1000)
      (span 0x140001000 (blockBytes ([nop, call] ++ List.replicate 7 nop)).length) :=
    span_disjoint (by decide +kernel) (by decide +kernel)
  have split : [nop, call] ++ List.replicate 7 nop = [nop] ++ call :: List.replicate 7 nop := rfl
  have indirect : ThroughPointer call.item 0x10 := ⟨by decide, by decide, rfl, rfl⟩
  rcases (build_followsPointer_iff Subset.readsInstruction
    (Stolen.ofHolding 0x140001000 ([nop, call] ++ List.replicate 7 nop) (by decide) (by decide))
    split Subset.encodedLengths Subset.encodesBranches indirect (holding_memory_eq_zero apart)
    succeeds (.refl _ _)).mp follows with kept | dropped
  · exact absurd kept.1 (by decide +kernel)
  · exact absurd dropped.1 (by decide +kernel)

/-- `CALL [RIP + 0x10]` becomes a call to the byte before its entry. -/
theorem build_loses_pointer :
    let call : subset.Instruction .long64 := Subset.Form.callRip.instruction [0x10, 0, 0, 0] rfl
    let nop : subset.Instruction .long64 := Subset.Form.nop.instruction [] rfl
    let lib := HookLib.holding 0x140001000 (blockBytes (call :: List.replicate 8 nop))
    let leftover := (Environment.granting false (0 : BitVec 64)).leftover
    computeHookSize subset lib.memory 0x140001000 14 = 14 ∧
    BuildSucceeds subset leftover lib.memory 0x140001000 14 0x20000000000 0x150000000 ∧
    ThroughPointer call.item 0x10 ∧
    ¬FollowsPointer subset leftover lib.memory 0x140001000 14 0x20000000000 0x150000000 [] call
      (pointerAddress 0x140001000 call.item 0x10)
      (built subset leftover lib.memory 0x140001000 14 0x20000000000 0x150000000) := by
  intro call nop lib leftover
  refine ⟨by decide +kernel, by decide +kernel, ⟨by decide, by decide, rfl, rfl⟩, ?_⟩
  intro follows
  obtain ⟨copy, decoded, _, target⟩ := follows
  -- `E8 5A 00 00 00`: the distance is counted from the end of six bytes
  have emitted : copy = Subset.Form.call.decoded [0x5A, 0, 0, 0] :=
    Option.some.inj (decoded.symm.trans (by decide +kernel))
  rw [emitted] at target
  exact absurd target (by decide +kernel)

end Detours.TrampolineBuilder

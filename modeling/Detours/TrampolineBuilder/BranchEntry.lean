import Detours.TrampolineBuilder.Layout

namespace Detours.TrampolineBuilder

open Detours.Bytes Detours.Decoding Detours.Machine Detours.Zydis

variable {zydis : Api} {leftover : BitVec 64 → Leftover} {state : RewriteState}
  {address : BitVec 64} {decoded : Decoded} {buffer : List Byte}
  {lengthOf : Decoded → BitVec 64 → Nat}

def RewriteState.newestEntry (state : RewriteState) : BitVec 64 := state.builder.jumpTableAddress - 8

/-- The bytes are one direct branch that, at the running address before the turn, goes to
the entry the turn has made. -/
def LandsOnEntry (zydis : Api) (before after : RewriteState) (bytes : List Byte) : Prop :=
  ∃ copy, zydis.decode .long64 bytes = some copy ∧ copy.info.length = bytes.length ∧
    copy.info.imm.isRelative ∧ copy.branchTarget before.runtimeAddress = after.newestEntry

theorem placeRelocation_newestEntry (state : RewriteState) (target : BitVec 64) :
    (state.placeRelocation target).newestEntry = state.builder.jumpTableAddress :=
  add_sub_cancel_right _ _

def entryDistance (state : RewriteState) (length : Nat) : BitVec 64 :=
  state.builder.jumpTableAddress - (state.runtimeAddress + BitVec.ofNat 64 length)

theorem branchRequest_placeRelocation (instruction : AnnotatedInstruction) (state : RewriteState)
    (target : BitVec 64) :
    branchRequest zydis instruction (state.placeRelocation target) =
      substituteImmediate (zydis.toEncoderRequest instruction.instruction instruction.operands
          instruction.instruction.operandCountVisible).1
        (entryDistance state instruction.instruction.length) := by
  have next := placeRelocation_newestEntry state target
  unfold RewriteState.newestEntry at next
  unfold branchRequest
  dsimp only
  rw [next]
  rfl

section Branch

variable (branches : zydis.EncodesBranches lengthOf)
  (found : zydis.decode .long64 buffer = some decoded)
  (relative : decoded.info.isRelative = true)
  (branch : rewritesBranch decoded.info = true)

include branches found relative branch

variable (leftover address state) in
/-- The request of the branch rewriting: the distance from an instruction of the original
length to the new entry, in place of the operand. -/
theorem rewriteInstruction_branchRequest :
    ∃ request, IsRequestOf zydis decoded request ∧
      (rewriteInstruction zydis leftover (annotated leftover address decoded) state).1 =
        encodedBytes (zydis.encodeInstruction
          (substituteImmediate request (entryDistance state decoded.info.length))) ∧
      (rewriteInstruction zydis leftover (annotated leftover address decoded) state).2.newestEntry =
        state.builder.jumpTableAddress := by
  refine ⟨_, isRequestOf_annotated leftover address (branches.operandCount found), ?_, ?_⟩
  · rw [rewriteInstruction_branch (by rw [annotated_isRelative, relative])
      (by rw [annotated_instruction, branch]), branchRequest_placeRelocation, annotated_instruction]
  · rw [rewriteInstruction_branch (by rw [annotated_isRelative, relative])
      (by rw [annotated_instruction, branch])]
    exact placeRelocation_newestEntry state (annotated leftover address decoded).absoluteAddress

end Branch

/-- Whatever was rewritten before, a direct branch lands on its own entry exactly when the
encoder keeps its length and the distance fits its field: no operand is widened. -/
theorem rewriteInstruction_landsOnEntry_iff (branches : zydis.EncodesBranches lengthOf)
    (leftover : BitVec 64 → Leftover) (start : RewriteState) (front : List AnnotatedInstruction)
    (address : BitVec 64) (found : zydis.decode .long64 buffer = some decoded)
    (relative : decoded.info.isRelative = true) (branch : rewritesBranch decoded.info = true)
    (direct : decoded.info.imm.isRelative = true) :
    let before := (rewriteAll zydis leftover start front).2
    let rewritten := rewriteInstruction zydis leftover (annotated leftover address decoded) before
    LandsOnEntry zydis before rewritten.2 rewritten.1 ↔
      Api.FitsField decoded.info.imm.size (entryDistance before decoded.info.length) ∧
      lengthOf decoded (entryDistance before decoded.info.length) = decoded.info.length := by
  intro before rewritten
  obtain ⟨request, made, bytes, entry⟩ := rewriteInstruction_branchRequest leftover before address
    branches found relative branch
  have width : _ ↔ Api.FitsField _ (entryDistance before decoded.info.length) :=
    branches.width found branch direct made
  have lands : LandsOnEntry zydis before rewritten.2 rewritten.1 ↔
      ∃ copy, zydis.decode .long64 (encodedBytes (zydis.encodeInstruction (substituteImmediate
          request (entryDistance before decoded.info.length)))) = some copy ∧
        copy.info.length = (encodedBytes (zydis.encodeInstruction (substituteImmediate request
          (entryDistance before decoded.info.length)))).length ∧
        copy.info.imm.isRelative ∧
        copy.branchTarget before.runtimeAddress = before.builder.jumpTableAddress := by
    rw [LandsOnEntry, bytes, entry]
  rw [lands]
  cases made' : zydis.encodeInstruction (substituteImmediate request
      (entryDistance before decoded.info.length)) with
  | none =>
      rw [made'] at width
      constructor
      · intro lands
        obtain ⟨copy, _, empty, _⟩ := lands
        exact absurd empty (Nat.ne_of_gt copy.info.length_pos)
      · intro condition
        cases width.mpr condition.1
  | some encoded =>
      rw [made'] at width
      obtain ⟨length, copy, decodes, copyLength, _, relativeCopy, value⟩ :=
        branches.reencoded found relative branch made made'
      have fits := width.mp rfl
      simp only [encodedBytes, decodes, Option.some.injEq, exists_eq_left', copyLength,
        relativeCopy, true_and, fits]
      -- the distance is counted from the original length, the target from the copy's
      rw [← length, ← copyLength, Decoded.branchTarget_eq_iff decoded.info.length_le value]

theorem rewriteInstruction_landsOnEntry_jz :
    let jump : subset.Instruction .long64 := Subset.Form.jzShort.instruction [0x10] rfl
    let leftover := (Environment.granting false (0 : BitVec 64)).leftover
    let lib := HookLib.holding 0x140001000 (blockBytes (List.replicate 7 jump))
    let start := buildStart subset leftover lib.memory 0x140001000 14 0x20000000000 0x150000000
    let rewritten := rewriteInstruction subset leftover (annotated leftover 0x140001000 jump.item) start
    LandsOnEntry subset start rewritten.2 rewritten.1 := by
  intro jump leftover lib start rewritten
  exact (rewriteInstruction_landsOnEntry_iff Subset.encodesBranches leftover start [] 0x140001000
    jump.decode_bytes (by decide) (by decide) rfl).mpr ⟨by decide +kernel, by decide +kernel⟩

/-- Of seven short jumps the last one does not reach its entry: the encoder refuses it, and
it is dropped. -/
theorem rewriteInstruction_drops_jz :
    let jump : subset.Instruction .long64 := Subset.Form.jzShort.instruction [0x10] rfl
    let leftover := (Environment.granting false (0 : BitVec 64)).leftover
    let lib := HookLib.holding 0x140001000 (blockBytes (List.replicate 7 jump))
    let start := buildStart subset leftover lib.memory 0x140001000 14 0x20000000000 0x150000000
    let front := annotateBlock leftover 0x140001000 (List.replicate 6 jump)
    let before := (rewriteAll subset leftover start front).2
    let rewritten := rewriteInstruction subset leftover (annotated leftover 0x14000100C jump.item) before
    computeHookSize subset lib.memory 0x140001000 14 = 14 ∧ rewritesBranch jump.item.info ∧
      jump.item.info.imm.isRelative ∧ rewritten.1 = [] ∧
      ¬LandsOnEntry subset before rewritten.2 rewritten.1 := by
  intro jump leftover lib start front before rewritten
  have dropped : rewritten.1 = [] := by decide +kernel
  refine ⟨by decide +kernel, by decide, rfl, dropped, ?_⟩
  rw [dropped]
  intro lands
  obtain ⟨copy, _, empty, _⟩ := lands
  exact absurd empty (Nat.ne_of_gt copy.info.length_pos)

end Detours.TrampolineBuilder

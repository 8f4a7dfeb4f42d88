import Detours.HookLib.Granting
import Detours.HookLib.Relocate
import Detours.Machine.Jump
import Detours.Patch
import Detours.Zydis.Subset

namespace Detours

open Detours.Bytes Detours.Decoding Detours.Machine Detours.Zydis

variable {w : Nat} {zydis : Api} {mode : MachineMode} {memory : Memory w}
  {trampolineBase originalBase delta : BitVec w} {size fuel offset index : Nat}
  {result : Memory w × Bool} {front rest instructions : List (zydis.Instruction mode)}
  {instruction : zydis.Instruction mode}

/-- The loop of `relocate` as a relation between its state and its result: a derivation is
a run that ends. -/
inductive RelocateRun (zydis : Api) (mode : MachineMode) (trampolineBase delta : BitVec w)
    (size : Nat) : Memory w → Nat → Memory w × Bool → Prop where
  | undecoded {memory : Memory w} {offset : Nat}
      (failed : zydis.decode mode (memory.read (trampolineBase + BitVec.ofNat w offset)
        (size - offset)) = none) :
      RelocateRun zydis mode trampolineBase delta size memory offset (memory, true)
  | finished {memory : Memory w} {offset : Nat} (ended : size ≤ offset) :
      RelocateRun zydis mode trampolineBase delta size memory offset (memory, true)
  | refused {memory : Memory w} {offset : Nat} {decoded : Decoded} (opened : offset < size)
      (found : zydis.decode mode (memory.read (trampolineBase + BitVec.ofNat w offset)
        (size - offset)) = some decoded)
      (relative : decoded.info.isRelative = true) (wide : 32 < decoded.info.disp.size) :
      RelocateRun zydis mode trampolineBase delta size memory offset (memory, false)
  | relocated {memory : Memory w} {offset : Nat} {decoded : Decoded} {result : Memory w × Bool}
      (opened : offset < size)
      (found : zydis.decode mode (memory.read (trampolineBase + BitVec.ofNat w offset)
        (size - offset)) = some decoded)
      (relative : decoded.info.isRelative = true) (narrow : ¬32 < decoded.info.disp.size)
      (rest : RelocateRun zydis mode trampolineBase delta size
        (storeDisplacement memory (trampolineBase + BitVec.ofNat w offset) decoded.info.disp delta)
        (offset + decoded.info.length) result) :
      RelocateRun zydis mode trampolineBase delta size memory offset result
  | kept {memory : Memory w} {offset : Nat} {decoded : Decoded} {result : Memory w × Bool}
      (opened : offset < size)
      (found : zydis.decode mode (memory.read (trampolineBase + BitVec.ofNat w offset)
        (size - offset)) = some decoded)
      (plain : decoded.info.isRelative = false)
      (rest : RelocateRun zydis mode trampolineBase delta size memory
        (offset + decoded.info.length) result) :
      RelocateRun zydis mode trampolineBase delta size memory offset result

/-- The loop ends for every content of the buffer: each turn consumes an instruction. -/
theorem relocateLoop_run (enough : size < fuel + offset) :
    RelocateRun zydis mode trampolineBase delta size memory offset
      (relocateLoop zydis mode trampolineBase delta size fuel memory offset) := by
  induction fuel generalizing memory offset with
  | zero => exact .finished (by omega)
  | succ fuel ih =>
      rw [relocateLoop]
      cases found : zydis.decode mode
          (memory.read (trampolineBase + BitVec.ofNat w offset) (size - offset)) with
      | none => exact .undecoded found
      | some decoded =>
          have advances := decoded.info.length_pos
          dsimp only
          split
          · rename_i opened
            cases relative : decoded.info.isRelative with
            | false => exact .kept opened found relative (ih (by omega))
            | true =>
                rw [if_pos rfl]
                split
                · rename_i wide
                  exact .refused opened found relative wide
                · rename_i narrow
                  exact .relocated opened found relative narrow (ih (by omega))
          · rename_i closed
            exact .finished (Nat.le_of_not_lt closed)

def InDisplacement (instructions : List (zydis.Instruction mode)) (index : Nat) : Prop :=
  ∃ front instruction rest, instructions = front ++ instruction :: rest ∧
    instruction.item.hasDisplacement = true ∧
    (blockBytes front).length + instruction.item.info.disp.offset ≤ index ∧
    index < (blockBytes front).length + instruction.item.info.disp.offset + 4

theorem InDisplacement.cons (first : zydis.Instruction mode)
    (member : InDisplacement instructions index) :
    InDisplacement (first :: instructions) (first.bytes.length + index) := by
  obtain ⟨front, instruction, rest, split, relative, lower, upper⟩ := member
  refine ⟨first :: front, instruction, rest, by rw [split]; rfl, relative, ?_, ?_⟩ <;>
    rw [blockBytes_cons, List.length_append] <;> omega

theorem hasDisplacement_iff {decoded : Decoded} :
    decoded.hasDisplacement = true ↔
      decoded.info.isRelative = true ∧ decoded.info.disp.size = 32 := by
  simp [Decoded.hasDisplacement]

theorem relocatedBytes_of_no_operand (fields : zydis.RelativeDisplacement mode)
    (instruction : zydis.Instruction mode) (none : instruction.item.hasDisplacement = false) :
    relocatedBytes delta instruction.item.info instruction.bytes = instruction.bytes := by
  unfold relocatedBytes
  split
  · rename_i relative
    rcases fields instruction.decoded relative with empty | ⟨wide, _⟩
    · simp [empty, fieldBytes, littleEndian, Memory.overwrite]
    · exact absurd (hasDisplacement_iff.mpr ⟨relative, wide⟩) (by rw [none]; decide)
  · rfl

theorem relocatedBytes_of_operand (delta : BitVec w)
    (operand : instruction.item.hasDisplacement = true) :
    relocatedBytes delta instruction.item.info instruction.bytes =
      Memory.overwrite instruction.bytes instruction.item.info.disp.offset
        (littleEndian 4 (newDisplacement instruction.item.info.disp delta).toNat) := by
  obtain ⟨relative, size⟩ := hasDisplacement_iff.mp operand
  rw [relocatedBytes, if_pos relative, size]
  rfl

theorem field_le_length (inside : zydis.DisplacementInside mode)
    (instruction : zydis.Instruction mode) (operand : instruction.item.hasDisplacement = true) :
    instruction.item.info.disp.offset + 4 ≤ instruction.bytes.length := by
  obtain ⟨relative, size⟩ := hasDisplacement_iff.mp operand
  have field := inside instruction.decoded relative
  have width : instruction.bytes.length = instruction.item.info.length := instruction.exact
  rw [size] at field
  omega

theorem relocateBlock_getElem? (inside : zydis.DisplacementInside mode)
    (fields : zydis.RelativeDisplacement mode) (instructions : List (zydis.Instruction mode))
    (outside : ¬InDisplacement instructions index) :
    (relocateBlock delta instructions).1[index]? = (blockBytes instructions)[index]? := by
  induction instructions generalizing index with
  | nil => rfl
  | cons instruction rest ih =>
      have length := relocatedBytes_length delta inside instruction
      rw [relocateBlock, if_neg (narrow_of_fields fields instruction), blockBytes_cons]
      dsimp only
      by_cases first : index < instruction.bytes.length
      · rw [List.getElem?_append_left (by omega), List.getElem?_append_left first]
        cases operand : instruction.item.hasDisplacement with
        | false => rw [relocatedBytes_of_no_operand fields instruction operand]
        | true =>
            have field := field_le_length inside instruction operand
            have apart : ¬(instruction.item.info.disp.offset ≤ index ∧
                index < instruction.item.info.disp.offset + 4) := by
              intro within
              exact outside ⟨[], instruction, rest, rfl, operand, by simpa using within⟩
            rw [relocatedBytes_of_operand delta operand,
              Memory.overwrite_getElem? (by rw [littleEndian_length]; exact field),
              littleEndian_length, if_neg apart]
      · rw [List.getElem?_append_right (by omega), List.getElem?_append_right (by omega), length]
        refine ih fun member => outside ?_
        have shifted := member.cons instruction
        rwa [Nat.add_sub_cancel' (by omega)] at shifted

theorem littleEndian_newDisplacement_eq {disp : RawDisp} {old : List Byte}
    (stored : old = littleEndian 4 disp.value.toNat) (delta : BitVec w) :
    littleEndian 4 (newDisplacement disp delta).toNat =
      littleEndian 4 (ofLittleEndian old + delta.toNat) := by
  rw [stored, ofLittleEndian_littleEndian, littleEndian_inj, newDisplacement, BitVec.toNat_add,
    BitVec.toNat_setWidth]
  omega

section Fields

variable (inside : zydis.DisplacementInside mode) (fields : zydis.RelativeDisplacement mode)
  (operand : instruction.item.hasDisplacement = true)

include inside fields operand

theorem blockBytes_field (front rest : List (zydis.Instruction mode)) :
    ∃ before after, blockBytes (front ++ instruction :: rest) =
        before ++ littleEndian 4 instruction.item.info.disp.value.toNat ++ after ∧
      before.length = (blockBytes front).length + instruction.item.info.disp.offset := by
  obtain ⟨relative, size⟩ := hasDisplacement_iff.mp operand
  have room := field_le_length inside instruction operand
  rcases fields instruction.decoded relative with empty | ⟨_, value⟩
  · omega
  · have parts : instruction.bytes =
        instruction.bytes.take instruction.item.info.disp.offset ++
          littleEndian 4 instruction.item.info.disp.value.toNat ++
          (instruction.bytes.drop instruction.item.info.disp.offset).drop 4 := by
      rw [← value, List.append_assoc, List.take_append_drop, List.take_append_drop]
    refine ⟨blockBytes front ++ instruction.bytes.take instruction.item.info.disp.offset,
      (instruction.bytes.drop instruction.item.info.disp.offset).drop 4 ++ blockBytes rest, ?_, ?_⟩
    · rw [blockBytes_append, blockBytes_cons]
      conv_lhs => rw [parts]
      simp only [List.append_assoc]
    · rw [List.length_append, List.length_take_of_le (by omega)]

theorem relocateBlock_field (delta : BitVec w) (front rest : List (zydis.Instruction mode)) :
    ∃ before after, (relocateBlock delta (front ++ instruction :: rest)).1 =
        before ++ littleEndian 4 (newDisplacement instruction.item.info.disp delta).toNat ++ after ∧
      before.length = (blockBytes front).length + instruction.item.info.disp.offset := by
  have room := field_le_length inside instruction operand
  refine ⟨(relocateBlock delta front).1 ++
      instruction.bytes.take instruction.item.info.disp.offset,
    instruction.bytes.drop (instruction.item.info.disp.offset + 4) ++ (relocateBlock delta rest).1,
    ?_, ?_⟩
  · rw [relocateBlock_append front _ fun other _ => narrow_of_fields fields other, relocateBlock,
      if_neg (narrow_of_fields fields instruction), relocatedBytes_of_operand delta operand,
      Memory.overwrite, littleEndian_length]
    simp only [List.append_assoc]
  · rw [List.length_append, relocateBlock_length _ inside, List.length_take_of_le (by omega)]

end Fields

section Block

variable {mode : MachineMode} {instructions front rest : List (zydis.Instruction (buildMode w))}
  {instruction : zydis.Instruction (buildMode w)}
  (reads : zydis.ReadsInstruction (buildMode w))
  (inside : zydis.DisplacementInside (buildMode w))
  (fields : zydis.RelativeDisplacement (buildMode w))

section Field

variable (operand : instruction.item.hasDisplacement = true)
  (content : memory.read trampolineBase
    (blockBytes (front ++ instruction :: rest)).length = blockBytes (front ++ instruction :: rest))
  (room : (blockBytes (front ++ instruction :: rest)).length ≤ 2 ^ w)

include inside fields operand content room

theorem read_field :
    memory.read (trampolineBase +
      BitVec.ofNat w ((blockBytes front).length + instruction.item.info.disp.offset)) 4 =
      littleEndian 4 instruction.item.info.disp.value.toNat := by
  obtain ⟨before, after, parts, position⟩ := blockBytes_field inside fields operand front rest
  have same : memory = memory.write trampolineBase (blockBytes (front ++ instruction :: rest)) := by
    conv_rhs => rw [← content]
    rw [Memory.write_read]
  rw [parts] at room same
  rw [same, ← position]
  exact Memory.read_write_middle _ _ _ (littleEndian 4 _) _ room

include reads

theorem relocate_read_field (near : absDelta originalBase trampolineBase ≤ 2 ^ 31) :
    (relocate zydis memory trampolineBase originalBase
      (blockBytes (front ++ instruction :: rest)).length).1.read (trampolineBase +
        BitVec.ofNat w ((blockBytes front).length + instruction.item.info.disp.offset)) 4 =
      littleEndian 4
        (newDisplacement instruction.item.info.disp (originalBase - trampolineBase)).toNat := by
  obtain ⟨before, after, parts, position⟩ := relocateBlock_field inside fields operand
    (originalBase - trampolineBase) front rest
  have length := relocateBlock_length (originalBase - trampolineBase) inside
    (front ++ instruction :: rest)
  rw [relocate_block reads inside room _ content near]
  rw [parts] at length ⊢
  rw [← length] at room
  rw [← position]
  exact Memory.read_write_middle _ _ _ (littleEndian 4 _) _ room

theorem relocate_read32_field (near : absDelta originalBase trampolineBase ≤ 2 ^ 31) :
    read32 (relocate zydis memory trampolineBase originalBase
      (blockBytes (front ++ instruction :: rest)).length).1 (trampolineBase +
        BitVec.ofNat w ((blockBytes front).length + instruction.item.info.disp.offset)) =
      (newDisplacement instruction.item.info.disp (originalBase - trampolineBase)).setWidth 32 :=
  read32_eq _ ((relocate_read_field reads inside fields operand content room near).trans
    (littleEndian_setWidth _).symm)

end Field

include reads inside fields

theorem relocate_succeeds (room : (blockBytes instructions).length ≤ 2 ^ w)
    (content : memory.read trampolineBase (blockBytes instructions).length =
      blockBytes instructions)
    (near : absDelta originalBase trampolineBase ≤ 2 ^ 31) :
    (relocate zydis memory trampolineBase originalBase (blockBytes instructions).length).2 = true := by
  exact (relocate_accepts_iff reads inside room _ content).mpr
    ⟨near, fun instruction _ => narrow_of_fields fields instruction⟩

end Block

theorem displacement_setWidth_iff (value : BitVec 64) :
    displacement (value.setWidth 32) = value ↔ Api.FitsField 32 value := by
  constructor
  · intro same
    rw [Api.FitsField, ← same, displacement, BitVec.toInt_signExtend_of_le (by decide)]
    exact ⟨BitVec.le_toInt _, BitVec.toInt_lt⟩
  · intro fits
    exact displacement_setWidth fits.1 fits.2

/-- An operand keeps its address exactly when its displacement takes up the distance. -/
theorem operandAddress_eq_iff (trampolineBase originalBase length : BitVec w)
    (stored disp : BitVec w) :
    trampolineBase + length + stored = originalBase + length + disp ↔
      stored = disp + (originalBase - trampolineBase) := by
  have regroup : originalBase + length + disp =
      trampolineBase + length + (disp + (originalBase - trampolineBase)) := by
    conv_lhs => rw [← add_sub_cancel trampolineBase originalBase]
    ac_rfl
  rw [regroup, add_right_inj]

def displacementFields (base : BitVec w) (instructions : List (zydis.Instruction mode)) :
    Set (BitVec w) :=
  { address | InDisplacement instructions (address - base).toNat }

theorem relocateBlock_boundaries (inside : zydis.DisplacementInside mode)
    (fields : zydis.RelativeDisplacement mode) (lengths : zydis.LengthIgnoresDisplacement mode)
    (delta : BitVec w) (instructions : List (zydis.Instruction mode)) :
    ∃ relocated : List (zydis.Instruction mode),
      (relocateBlock delta instructions).1 = blockBytes relocated ∧
      relocated.map (·.bytes.length) = instructions.map (·.bytes.length) := by
  induction instructions with
  | nil => exact ⟨[], rfl, rfl⟩
  | cons instruction rest ih =>
      obtain ⟨others, bytes, boundaries⟩ := ih
      have length := relocatedBytes_length delta inside instruction
      have width : instruction.bytes.length = instruction.item.info.length := instruction.exact
      obtain ⟨copy, decoded, same⟩ : ∃ copy, zydis.decode mode
          (relocatedBytes delta instruction.item.info instruction.bytes) = some copy ∧
          copy.info.length = instruction.item.info.length := by
        cases operand : instruction.item.hasDisplacement with
        | false =>
            rw [relocatedBytes_of_no_operand fields instruction operand]
            exact ⟨instruction.item, instruction.decoded, rfl⟩
        | true =>
            rw [relocatedBytes_of_operand delta operand]
            exact lengths instruction.decoded operand _ (littleEndian_length _ _)
      refine ⟨⟨copy, _, length.trans (width.trans same.symm), decoded⟩ :: others, ?_, ?_⟩
      · rw [relocateBlock, if_neg (narrow_of_fields fields instruction), bytes]
        rfl
      · rw [List.map_cons, List.map_cons, boundaries, length]

/-- In either build a displacement that fits its field takes up the distance exactly. -/
theorem displacement_newDisplacement (build : w = 64 ∨ w = 32) {disp : RawDisp}
    (fits : Api.FitsField 32 (disp.value.setWidth w + delta)) :
    (displacement ((newDisplacement disp delta).setWidth 32)).setWidth w =
      disp.value.setWidth w + delta := by
  rcases build with rfl | rfl
  · rw [BitVec.setWidth_eq, newDisplacement, BitVec.setWidth_eq]
    rw [BitVec.setWidth_eq] at fits
    exact (displacement_setWidth_iff _).mpr fits
  · have narrow (value : BitVec 32) : (displacement value).setWidth 32 = value := by
      apply BitVec.eq_of_toNat_eq
      rw [displacement, BitVec.toNat_setWidth, Subset.toNat_signExtend_mod]
    rw [narrow, newDisplacement, BitVec.setWidth_add _ _ (by decide),
      BitVec.setWidth_setWidth_of_le _ (by decide), BitVec.setWidth_eq]

/-- The exact effect of `relocate` on whole instructions within reach: it ends and returns
true, every 32-bit displacement grows by the distance once, nothing else changes, and the
instructions stay where they are. -/
theorem relocate_exact_effect (build : w = 64 ∨ w = 32)
    (reads : zydis.ReadsInstruction (buildMode w))
    (inside : zydis.DisplacementInside (buildMode w))
    (fields : zydis.RelativeDisplacement (buildMode w))
    (lengths : zydis.LengthIgnoresDisplacement (buildMode w))
    (instructions : List (zydis.Instruction (buildMode w))) (room : size ≤ 2 ^ w)
    (content : memory.read trampolineBase size = blockBytes instructions)
    (near : absDelta originalBase trampolineBase ≤ 2 ^ 31) :
    let after := relocate zydis memory trampolineBase originalBase size
    RelocateRun zydis (buildMode w) trampolineBase (originalBase - trampolineBase) size memory 0
      after ∧
    after.2 = true ∧
    Memory.ChangesOnly (displacementFields trampolineBase instructions) memory after.1 ∧
    (∃ relocated : List (zydis.Instruction (buildMode w)),
      after.1.read trampolineBase size = blockBytes relocated ∧
      relocated.map (·.bytes.length) = instructions.map (·.bytes.length)) ∧
    ∀ front instruction rest, instructions = front ++ instruction :: rest →
      instruction.item.hasDisplacement = true →
      let field := trampolineBase +
        BitVec.ofNat w ((blockBytes front).length + instruction.item.info.disp.offset)
      let next := BitVec.ofNat w ((blockBytes front).length + instruction.item.info.length)
      after.1.read field 4 = littleEndian 4
        (ofLittleEndian (memory.read field 4) + (originalBase - trampolineBase).toNat) ∧
      (Api.FitsField 32 (instruction.item.info.disp.value.setWidth w +
          (originalBase - trampolineBase)) →
        trampolineBase + next + (displacement (read32 after.1 field)).setWidth w =
          originalBase + next + instruction.item.info.disp.value.setWidth w) := by
  intro after
  have length : (blockBytes instructions).length = size := by rw [← content, Memory.read_length]
  subst length
  have stored : after.1 = memory.write trampolineBase
      (relocateBlock (originalBase - trampolineBase) instructions).1 :=
    congrArg Prod.fst (relocate_block reads inside room instructions content near)
  refine ⟨?_, relocate_succeeds reads inside fields room content near, ?_, ?_, ?_⟩
  · rw [show after = _ from if_neg (Nat.not_lt.mpr near)]
    exact relocateLoop_run (Nat.lt_succ_self _)
  · intro address outside
    have same : memory.write trampolineBase (blockBytes instructions) = memory := by
      rw [← content, Memory.write_read]
    conv_rhs => rw [← same]
    rw [stored, Memory.write, relocateBlock_getElem? inside fields instructions outside,
      Memory.write]
  · obtain ⟨relocated, bytes, boundaries⟩ := relocateBlock_boundaries inside fields lengths
      (originalBase - trampolineBase) instructions
    refine ⟨relocated, ?_, boundaries⟩
    rw [stored, ← bytes]
    exact Memory.read_write_of_length _ _ (relocateBlock_length _ inside instructions) room
  · intro front instruction rest split operand field next
    subst split
    refine ⟨?_, fun fits => ?_⟩
    · rw [read_field inside fields operand content room,
        relocate_read_field reads inside fields operand content room near]
      exact littleEndian_newDisplacement_eq rfl _
    · rw [operandAddress_eq_iff,
        relocate_read32_field reads inside fields operand content room near]
      exact displacement_newDisplacement build fits

theorem relocate_exact_effect_mov :
    let mov : subset.Instruction .long64 := Subset.Form.movRaxRip.instruction [0x10, 0, 0, 0] rfl
    let lib := HookLib.holding 0x140010000 (blockBytes [mov])
    let after := relocate (w := 64) subset lib.memory 0x140010000 0x140001000 7
    after.2 = true ∧ after.1.read 0x140010003 4 = [0x10, 0x10, 0xFF, 0xFF] := by
  intro mov lib after
  obtain ⟨_, success, _, _, operands⟩ := relocate_exact_effect (w := 64) (.inl rfl)
    Subset.readsInstruction Subset.displacementInside Subset.relativeDisplacement
    Subset.lengthIgnoresDisplacement [mov] (by decide)
    (Memory.read_write (fun _ => 0) (0x140010000 : BitVec 64) (by decide))
    (show absDelta (0x140001000 : BitVec 64) 0x140010000 ≤ 2 ^ 31 by decide)
  obtain ⟨stored, _⟩ := operands [] mov [] rfl (by decide)
  exact ⟨success, stored.trans (by decide +kernel)⟩

/-- The purpose of `relocate` for memory operands. When it succeeds, an operand names the
address it named before; when the new displacement does not fit, it fails. -/
def KeepsOperands (zydis : Api) (memory : Memory 64) (trampolineBase originalBase : BitVec 64)
    (instructions : List (zydis.Instruction (buildMode 64))) : Prop :=
  let after := relocate zydis memory trampolineBase originalBase (blockBytes instructions).length
  ∀ front instruction rest, instructions = front ++ instruction :: rest →
    instruction.item.hasDisplacement = true →
    let field := trampolineBase +
      BitVec.ofNat 64 ((blockBytes front).length + instruction.item.info.disp.offset)
    let next := BitVec.ofNat 64 ((blockBytes front).length + instruction.item.info.length)
    (after.2 = true →
      trampolineBase + next + displacement (read32 after.1 field) =
        originalBase + next + instruction.item.info.disp.value) ∧
    (¬Api.FitsField 32 (instruction.item.info.disp.value + (originalBase - trampolineBase)) →
      after.2 = false)

theorem keepsOperands_of_refused {memory : Memory 64} {trampolineBase originalBase : BitVec 64}
    {instructions : List (zydis.Instruction (buildMode 64))}
    (refused : (relocate zydis memory trampolineBase originalBase
      (blockBytes instructions).length).2 = false) :
    KeepsOperands zydis memory trampolineBase originalBase instructions := by
  intro front instruction rest split operand
  refine ⟨fun success => ?_, fun _ => refused⟩
  exact absurd (refused.symm.trans success) Bool.false_ne_true

/-- A relocated operand keeps its address exactly when the block is out of reach, so that
`relocate` refuses it, or every new displacement in it fits. -/
theorem relocate_keepsOperands_iff {memory : Memory 64} {trampolineBase originalBase : BitVec 64}
    (reads : zydis.ReadsInstruction (buildMode 64))
    (inside : zydis.DisplacementInside (buildMode 64))
    (fields : zydis.RelativeDisplacement (buildMode 64))
    (instructions : List (zydis.Instruction (buildMode 64)))
    (room : (blockBytes instructions).length ≤ 2 ^ 64)
    (content : memory.read trampolineBase (blockBytes instructions).length =
      blockBytes instructions) :
    KeepsOperands zydis memory trampolineBase originalBase instructions ↔
      2 ^ 31 < absDelta originalBase trampolineBase ∨
      ∀ instruction ∈ instructions, instruction.item.hasDisplacement = true →
        Api.FitsField 32
          (instruction.item.info.disp.value + (originalBase - trampolineBase)) := by
  by_cases far : 2 ^ 31 < absDelta originalBase trampolineBase
  · refine iff_of_true (keepsOperands_of_refused ?_) (.inl far)
    rw [relocate_of_far far]
  have near : absDelta originalBase trampolineBase ≤ 2 ^ 31 := Nat.le_of_not_lt far
  have succeeded := relocate_succeeds reads inside fields room content near
  constructor
  · intro keeps
    refine .inr fun instruction member operand => ?_
    obtain ⟨front, rest, split⟩ := List.append_of_mem member
    by_contra unfit
    have refused := (keeps front instruction rest split operand).2 unfit
    rw [succeeded] at refused
    cases refused
  · intro condition front instruction rest split operand field next
    have fits := (condition.resolve_left far) instruction (by rw [split]; simp) operand
    refine ⟨fun _ => ?_, fun unfit => absurd fits unfit⟩
    subst split
    rw [operandAddress_eq_iff,
      relocate_read32_field reads inside fields operand content room near, newDisplacement,
      BitVec.setWidth_eq]
    exact (displacement_setWidth_iff _).mpr fits

theorem relocate_keepsOperands_mov :
    let mov : subset.Instruction .long64 := Subset.Form.movRaxRip.instruction [0x10, 0, 0, 0] rfl
    let lib := HookLib.holding 0x140010000 (blockBytes [mov])
    KeepsOperands subset lib.memory 0x140010000 0x140001000 [mov] := by
  intro mov lib
  refine (relocate_keepsOperands_iff Subset.readsInstruction Subset.displacementInside
    Subset.relativeDisplacement [mov] (by decide)
    (Memory.read_write _ _ (by decide))).mpr (.inr ?_)
  intro instruction member operand
  rw [List.mem_singleton.mp member]
  exact ⟨by decide, by decide⟩

/-- `MOV RAX, [RIP - 0x80000000]` moved to a higher address: the sum wraps in its field. -/
theorem relocate_corrupts_operand :
    let mov : subset.Instruction .long64 := Subset.Form.movRaxRip.instruction [0, 0, 0, 0x80] rfl
    let lib := HookLib.holding 0x140010000 (blockBytes [mov])
    absDelta (0x140001000 : BitVec 64) 0x140010000 ≤ 2 ^ 31 ∧
    (relocate subset lib.memory (0x140010000 : BitVec 64) 0x140001000 7).2 = true ∧
    ¬KeepsOperands subset lib.memory 0x140010000 0x140001000 [mov] := by
  intro mov lib
  have near : absDelta (0x140001000 : BitVec 64) 0x140010000 ≤ 2 ^ 31 := by decide
  have succeeded : (relocate subset lib.memory (0x140010000 : BitVec 64) 0x140001000 7).2 = true :=
    relocate_succeeds (w := 64) Subset.readsInstruction Subset.displacementInside
      Subset.relativeDisplacement (show (blockBytes [mov]).length ≤ 2 ^ 64 by decide)
      (Memory.read_write _ _ (by decide)) near
  refine ⟨near, succeeded, ?_⟩
  intro keeps
  have unfit : ¬Api.FitsField 32
      (mov.item.info.disp.value + (0x140001000 - 0x140010000 : BitVec 64)) :=
    fun fits => absurd fits.1 (by decide)
  have refused := (keeps [] mov [] rfl (by decide)).2 unfit
  exact Bool.false_ne_true (refused.symm.trans succeeded)

end Detours

import Detours.HookLib.ComputeHookSize

namespace Detours

open Detours.Bytes Detours.Decoding Detours.Zydis

variable {w : Nat}

/-- `_WIN64` selects the mode `relocate` decodes in. -/
def buildMode (w : Nat) : MachineMode := if w = 64 then .long64 else .legacy32

/-- `original_disp + delta`: 64-bit arithmetic in both builds. -/
def newDisplacement (disp : RawDisp) (delta : BitVec w) : BitVec 64 :=
  disp.value + delta.setWidth 64

/-- The `switch` of `relocate` on the displacement size. -/
def storeDisplacement (memory : Memory w) (instructionPtr : BitVec w) (disp : RawDisp)
    (delta : BitVec w) : Memory w :=
  let field := instructionPtr + BitVec.ofNat w disp.offset
  let value := (newDisplacement disp delta).toNat
  match disp.size with
  | 8 => memory.write field (littleEndian 1 value)
  | 16 => memory.write field (littleEndian 2 value)
  | 32 => memory.write field (littleEndian 4 value)
  | _ => memory

/-- The loop of `relocate`: it decodes the bytes it is changing. -/
def relocateLoop (zydis : Api) (mode : MachineMode) (trampolineBase delta : BitVec w)
    (size : Nat) : Nat → Memory w → Nat → Memory w × Bool
  | 0, memory, _ => (memory, true)
  | fuel + 1, memory, offset =>
      let instructionPtr := trampolineBase + BitVec.ofNat w offset
      match zydis.decode mode (memory.read instructionPtr (size - offset)) with
      | none => (memory, true)
      | some instruction =>
          if offset < size then
            let next := offset + instruction.info.length
            if instruction.info.isRelative then
              if 32 < instruction.info.disp.size then (memory, false)
              else relocateLoop zydis mode trampolineBase delta size fuel
                (storeDisplacement memory instructionPtr instruction.info.disp delta) next
            else relocateLoop zydis mode trampolineBase delta size fuel memory next
          else (memory, true)

/-- `abs_delta`: the pointers are widened to `long long` before they are subtracted. -/
def absDelta (originalBase trampolineBase : BitVec w) : Nat :=
  (originalBase.signExtend 64 - trampolineBase.signExtend 64).toInt.natAbs

def relocate (zydis : Api) (memory : Memory w) (trampolineBase originalBase : BitVec w)
    (size : Nat) : Memory w × Bool :=
  let delta := originalBase - trampolineBase
  if 2 ^ 31 < absDelta originalBase trampolineBase then (memory, false)
  else relocateLoop zydis (buildMode w) trampolineBase delta size (size + 1) memory 0

def fieldBytes : Nat → Nat
  | 8 => 1
  | 16 => 2
  | 32 => 4
  | _ => 0

theorem fieldBytes_le (size : Nat) : fieldBytes size ≤ size / 8 := by
  unfold fieldBytes
  split <;> omega

/-- The bytes of one instruction after its turn of the loop. -/
def relocatedBytes (delta : BitVec w) (info : DecodedInstruction) (bytes : List Byte) : List Byte :=
  if info.isRelative then
    Memory.overwrite bytes info.disp.offset
      (littleEndian (fieldBytes info.disp.size) (newDisplacement info.disp delta).toNat)
  else bytes

def relocateMet (trampolineBase delta : BitVec w) (memory : Memory w) (met : Nat × Decoded) :
    Memory w :=
  if met.2.info.isRelative ∧ ¬32 < met.2.info.disp.size then
    storeDisplacement memory (trampolineBase + BitVec.ofNat w met.1) met.2.info.disp delta
  else memory

/-- The whole loop as a function of the instructions in the buffer. -/
def relocateBlock {zydis : Api} {mode : MachineMode} (delta : BitVec w) :
    List (zydis.Instruction mode) → List Byte × Bool
  | [] => ([], true)
  | instruction :: rest =>
      if instruction.item.info.isRelative ∧ 32 < instruction.item.info.disp.size then
        (instruction.bytes ++ blockBytes rest, false)
      else
        (relocatedBytes delta instruction.item.info instruction.bytes ++
          (relocateBlock delta rest).1, (relocateBlock delta rest).2)

section Relocate

variable {zydis : Api} {mode : MachineMode} {memory : Memory w}
  {trampolineBase originalBase delta instructionPtr : BitVec w} {size fuel offset : Nat}
  {disp : RawDisp}

theorem storeDisplacement_eq :
    storeDisplacement memory instructionPtr disp delta =
      memory.write (instructionPtr + BitVec.ofNat w disp.offset)
        (littleEndian (fieldBytes disp.size) (newDisplacement disp delta).toNat) := by
  unfold storeDisplacement fieldBytes
  split <;> rfl

theorem relocatedBytes_length (delta : BitVec w) (inside : zydis.DisplacementInside mode)
    (instruction : zydis.Instruction mode) :
    (relocatedBytes delta instruction.item.info instruction.bytes).length =
      instruction.bytes.length := by
  unfold relocatedBytes
  split
  · rename_i relative
    have field := inside instruction.decoded relative
    have width : instruction.bytes.length = instruction.item.info.length := instruction.exact
    have stored := fieldBytes_le instruction.item.info.disp.size
    rw [Memory.overwrite_length]
    simp only [littleEndian_length]
    omega
  · rfl

theorem littleEndian_newDisplacement {disp : RawDisp} :
    littleEndian 4 (newDisplacement disp delta).toNat = littleEndian 4 disp.value.toNat ↔
      (delta.setWidth 64).setWidth 32 = 0#32 := by
  rw [littleEndian_inj, newDisplacement, BitVec.toNat_add]
  have small := (delta.setWidth 64).isLt
  generalize delta.setWidth 64 = distance at small ⊢
  rw [← BitVec.toNat_inj, BitVec.toNat_setWidth]
  have valueSmall := disp.value.isLt
  simp only [BitVec.toNat_ofNat]
  omega

theorem narrow_of_fields (fields : zydis.RelativeDisplacement mode)
    (instruction : zydis.Instruction mode) :
    ¬(instruction.item.info.isRelative = true ∧ 32 < instruction.item.info.disp.size) := by
  intro wide
  rcases fields instruction.decoded wide.1 with none | ⟨size, _⟩ <;> omega

/-- The loop leaves an instruction alone exactly when it is not relative or has no
displacement to change. -/
theorem relocatedBytes_eq_self
    (fields : zydis.RelativeDisplacement mode) (moved : (delta.setWidth 64).setWidth 32 ≠ 0#32)
    (instruction : zydis.Instruction mode) :
    relocatedBytes delta instruction.item.info instruction.bytes = instruction.bytes ↔
      (instruction.item.info.isRelative = true → instruction.item.info.disp.size = 0) := by
  unfold relocatedBytes
  split
  · rename_i relative
    rcases fields instruction.decoded relative with none | ⟨size, value⟩
    · simp [none, fieldBytes, littleEndian, Memory.overwrite]
    · simp only [Memory.overwrite_eq_self, size, fieldBytes, littleEndian_length, value, relative,
        forall_const]
      exact ⟨fun same => absurd (littleEndian_newDisplacement.mp same.symm) moved,
        fun zero => by cases zero⟩
  · rename_i plain
    exact ⟨fun _ relative => absurd relative plain, fun _ => rfl⟩

theorem relocateBlock_eq_self (inside : zydis.DisplacementInside mode)
    (fields : zydis.RelativeDisplacement mode) (moved : (delta.setWidth 64).setWidth 32 ≠ 0#32)
    (instructions : List (zydis.Instruction mode)) :
    (relocateBlock delta instructions).1 = blockBytes instructions ↔
      ∀ instruction ∈ instructions, instruction.item.info.isRelative = true →
        instruction.item.info.disp.size = 0 := by
  induction instructions with
  | nil => simp [relocateBlock]
  | cons instruction rest ih =>
      rw [relocateBlock, if_neg (narrow_of_fields fields instruction), blockBytes_cons,
        List.forall_mem_cons, ← ih,
        ← relocatedBytes_eq_self fields moved]
      constructor
      · exact fun same => List.append_inj same (relocatedBytes_length _ inside instruction)
      · rintro ⟨own, others⟩
        rw [own, others]

theorem relocateBlock_length (delta : BitVec w) (inside : zydis.DisplacementInside mode)
    (instructions : List (zydis.Instruction mode)) :
    (relocateBlock delta instructions).1.length = (blockBytes instructions).length := by
  induction instructions with
  | nil => rfl
  | cons instruction rest ih =>
      unfold relocateBlock
      split
      · rw [blockBytes_cons]
      · simp only [blockBytes_cons, List.length_append, relocatedBytes_length _ inside, ih]

theorem relocateBlock_result (instructions : List (zydis.Instruction mode)) :
    (relocateBlock delta instructions).2 = true ↔
      ∀ instruction ∈ instructions,
        ¬(instruction.item.info.isRelative = true ∧ 32 < instruction.item.info.disp.size) := by
  induction instructions with
  | nil => simp [relocateBlock]
  | cons instruction rest ih =>
      rw [relocateBlock, List.forall_mem_cons]
      split
      · rename_i wide
        exact ⟨fun impossible => absurd impossible Bool.false_ne_true, fun all => absurd wide all.1⟩
      · rename_i narrow
        rw [ih]
        exact ⟨fun all => ⟨narrow, all⟩, fun all => all.2⟩

theorem relocateBlock_append (front rest : List (zydis.Instruction mode))
    (narrow : ∀ instruction ∈ front,
      ¬(instruction.item.info.isRelative = true ∧ 32 < instruction.item.info.disp.size)) :
    (relocateBlock delta (front ++ rest)).1 =
      (relocateBlock delta front).1 ++ (relocateBlock delta rest).1 := by
  induction front with
  | nil => rfl
  | cons instruction front ih =>
      rw [List.forall_mem_cons] at narrow
      rw [List.cons_append, relocateBlock, if_neg narrow.1, relocateBlock, if_neg narrow.1]
      simp only [ih narrow.2, List.append_assoc]

theorem relocateLoop_changesOnly (reads : zydis.ReadsInstruction mode)
    (inside : zydis.DisplacementInside mode) (room : size ≤ 2 ^ w) :
    Memory.ChangesOnly (span trampolineBase size) memory
      (relocateLoop zydis mode trampolineBase delta size fuel memory offset).1 := by
  induction fuel generalizing memory offset with
  | zero => exact .refl _ _
  | succ fuel ih =>
      rw [relocateLoop]
      cases found : zydis.decode mode
          (memory.read (trampolineBase + BitVec.ofNat w offset) (size - offset)) with
      | none => exact .refl _ _
      | some instruction =>
          have fits := reads.bounded found
          rw [Memory.read_length] at fits
          dsimp only
          split
          · split
            · rename_i opened relative
              split
              · exact .refl _ _
              · refine Memory.ChangesOnly.trans ?_ ih
                have field := inside found relative
                have stored := fieldBytes_le instruction.info.disp.size
                rw [storeDisplacement_eq, BitVec.add_assoc, ← BitVec.ofNat_add]
                refine Memory.write_changesOnly.mono (span_add_subset _ ?_ room)
                rw [littleEndian_length]
                omega
            · exact ih
          · exact .refl _ _

theorem relocate_changesOnly (reads : zydis.ReadsInstruction (buildMode w))
    (inside : zydis.DisplacementInside (buildMode w)) (room : size ≤ 2 ^ w) :
    Memory.ChangesOnly (span trampolineBase size) memory
      (relocate zydis memory trampolineBase originalBase size).1 := by
  unfold relocate
  dsimp only
  split
  · exact .refl _ _
  · exact relocateLoop_changesOnly reads inside room

theorem storeDisplacement_instruction (inside : zydis.DisplacementInside mode)
    (instruction : zydis.Instruction mode) (relative : instruction.item.info.isRelative = true)
    (content : memory.read instructionPtr instruction.bytes.length = instruction.bytes)
    (room : instruction.bytes.length ≤ 2 ^ w) :
    storeDisplacement memory instructionPtr instruction.item.info.disp delta =
      memory.write instructionPtr
        (relocatedBytes delta instruction.item.info instruction.bytes) := by
  have field := inside instruction.decoded relative
  have width : instruction.bytes.length = instruction.item.info.length := instruction.exact
  have stored := fieldBytes_le instruction.item.info.disp.size
  have same : memory = memory.write instructionPtr instruction.bytes := by
    conv_rhs => rw [← content]
    rw [Memory.write_read]
  rw [storeDisplacement_eq, relocatedBytes, if_pos relative,
    ← Memory.write_overwrite _ _ _ _ _ (by rw [littleEndian_length]; omega) room, ← same]

section Turn

variable {rest : List (zydis.Instruction mode)} {instruction : zydis.Instruction mode}

theorem relocateMet_changesOnly (inside : zydis.DisplacementInside mode)
    (instruction : zydis.Instruction mode) (room : instruction.bytes.length ≤ 2 ^ w) :
    Memory.ChangesOnly
      (span (trampolineBase + BitVec.ofNat w offset) instruction.bytes.length) memory
      (relocateMet trampolineBase delta memory (offset, instruction.item)) := by
  unfold relocateMet
  split
  · rename_i stored
    have field := inside instruction.decoded stored.1
    have width : instruction.bytes.length = instruction.item.info.length := instruction.exact
    have bytes := fieldBytes_le instruction.item.info.disp.size
    rw [storeDisplacement_eq]
    refine (Memory.write_changesOnly_of_length (littleEndian_length _ _)).mono ?_
    refine span_add_subset _ ?_ room
    dsimp only
    omega
  · exact .refl _ _

theorem relocateMet_following (delta : BitVec w) (inside : zydis.DisplacementInside mode)
    (room : offset + (blockBytes (instruction :: rest)).length ≤ 2 ^ w)
    (content : memory.read (trampolineBase + BitVec.ofNat w offset)
      (blockBytes (instruction :: rest)).length = blockBytes (instruction :: rest)) :
    (relocateMet trampolineBase delta memory (offset, instruction.item)).read
      (trampolineBase + BitVec.ofNat w (offset + instruction.bytes.length))
      (blockBytes rest).length = blockBytes rest := by
  rw [blockBytes_cons, List.length_append] at room content
  rw [Memory.read_add] at content
  have following := (List.append_inj content Memory.read_length).2
  rw [(relocateMet_changesOnly inside instruction (by omega)).read_eq (by omega)
    (span_add_disjoint _ _ _ (Nat.le_refl _) (by omega)).symm, BitVec.ofNat_add,
    ← BitVec.add_assoc, following]

theorem relocateMet_eq (inside : zydis.DisplacementInside mode)
    (narrow : ¬(instruction.item.info.isRelative = true ∧ 32 < instruction.item.info.disp.size))
    (content : memory.read (trampolineBase + BitVec.ofNat w offset) instruction.bytes.length =
      instruction.bytes) (room : instruction.bytes.length ≤ 2 ^ w) :
    relocateMet trampolineBase delta memory (offset, instruction.item) =
      memory.write (trampolineBase + BitVec.ofNat w offset)
        (relocatedBytes delta instruction.item.info instruction.bytes) := by
  unfold relocateMet
  split
  · rename_i stored
    exact storeDisplacement_instruction inside instruction stored.1 content room
  · rename_i plain
    have other : ¬instruction.item.info.isRelative = true := fun relative =>
      plain ⟨relative, fun wide => narrow ⟨relative, wide⟩⟩
    rw [relocatedBytes, if_neg other]
    conv_rhs => rw [← content]
    exact Memory.write_read.symm

section Decoded

variable {decoded : Decoded} (opened : offset < size)
  (found : zydis.decode mode (memory.read (trampolineBase + BitVec.ofNat w offset)
    (size - offset)) = some decoded)

include opened found

theorem relocateLoop_refuses
    (wide : decoded.info.isRelative = true ∧ 32 < decoded.info.disp.size) :
    relocateLoop zydis mode trampolineBase delta size (fuel + 1) memory offset = (memory, false) := by
  rw [relocateLoop]
  simp only [found, if_pos opened, wide.1, wide.2, if_true]

theorem relocateLoop_turn
    (narrow : ¬(decoded.info.isRelative = true ∧ 32 < decoded.info.disp.size)) :
    relocateLoop zydis mode trampolineBase delta size (fuel + 1) memory offset =
      relocateLoop zydis mode trampolineBase delta size fuel
        (relocateMet trampolineBase delta memory (offset, decoded))
        (offset + decoded.info.length) := by
  rw [relocateLoop, relocateMet]
  simp only [found, if_pos opened]
  cases relative : decoded.info.isRelative with
  | false => simp only [Bool.false_eq_true, if_false, false_and]
  | true =>
      have small : ¬32 < decoded.info.disp.size := fun wide => narrow ⟨relative, wide⟩
      simp only [small, if_true, if_false, not_false_eq_true, and_self]

end Decoded

end Turn

/-- On whole instructions the loop computes `relocateBlock`: no store disturbs the
decoding of a later instruction. -/
theorem relocateLoop_block (reads : zydis.ReadsInstruction mode)
    (inside : zydis.DisplacementInside mode) (room : size ≤ 2 ^ w)
    (instructions : List (zydis.Instruction mode))
    (enough : size < fuel + offset) (total : offset + (blockBytes instructions).length = size)
    (content : memory.read (trampolineBase + BitVec.ofNat w offset)
      (blockBytes instructions).length = blockBytes instructions) :
    relocateLoop zydis mode trampolineBase delta size fuel memory offset =
      (memory.write (trampolineBase + BitVec.ofNat w offset) (relocateBlock delta instructions).1,
        (relocateBlock delta instructions).2) := by
  induction instructions generalizing fuel memory offset with
  | nil =>
      have ended : offset = size := by simpa using total
      cases fuel with
      | zero => rfl
      | succ fuel =>
          rw [relocateLoop]
          cases zydis.decode mode
            (memory.read (trampolineBase + BitVec.ofNat w offset) (size - offset)) with
          | none => rfl
          | some instruction => simp only [ended, Nat.lt_irrefl, if_false]; rfl
  | cons instruction rest ih =>
      have positive := instruction.length_pos reads.selfDelimiting
      have width : instruction.bytes.length = instruction.item.info.length := instruction.exact
      have following := relocateMet_following delta inside (total ▸ room) content
      have length : (blockBytes (instruction :: rest)).length =
          instruction.bytes.length + (blockBytes rest).length := List.length_append
      have found : zydis.decode mode (memory.read (trampolineBase + BitVec.ofNat w offset)
          (size - offset)) = some instruction.item := by
        rw [← total, Nat.add_sub_cancel_left, content, blockBytes_cons]
        exact instruction.decode_append reads.selfDelimiting _
      cases fuel with
      | zero => omega
      | succ fuel =>
          rw [relocateBlock]
          by_cases wide : instruction.item.info.isRelative = true ∧
              32 < instruction.item.info.disp.size
          · rw [relocateLoop_refuses (by omega) found wide, if_pos wide, ← blockBytes_cons, ← content,
              Memory.write_read]
          · have own : memory.read (trampolineBase + BitVec.ofNat w offset)
                instruction.bytes.length = instruction.bytes := by
              rw [length, Memory.read_add, blockBytes_cons] at content
              exact (List.append_inj content Memory.read_length).1
            have moved := relocatedBytes_length delta inside instruction
            rw [relocateLoop_turn (by omega) found wide, if_neg wide, ← width,
              ih (by omega) (by omega) following, relocateMet_eq inside wide own (by omega), ← moved,
              BitVec.ofNat_add, ← BitVec.add_assoc,
              Memory.write_append _ (by rw [relocateBlock_length _ inside]; omega)]

/-- The exact effect of `relocate` on whole instructions within reach. -/
theorem relocate_block (reads : zydis.ReadsInstruction (buildMode w))
    (inside : zydis.DisplacementInside (buildMode w)) (room : size ≤ 2 ^ w)
    (instructions : List (zydis.Instruction (buildMode w)))
    (content : memory.read trampolineBase size = blockBytes instructions)
    (near : absDelta originalBase trampolineBase ≤ 2 ^ 31) :
    relocate zydis memory trampolineBase originalBase size =
      (memory.write trampolineBase
        (relocateBlock (originalBase - trampolineBase) instructions).1,
        (relocateBlock (originalBase - trampolineBase) instructions).2) := by
  have length : (blockBytes instructions).length = size := by rw [← content, Memory.read_length]
  rw [relocate, if_neg (by omega)]
  have result : relocateLoop zydis (buildMode w) trampolineBase (originalBase - trampolineBase) size
      (size + 1) memory 0 = _ :=
    relocateLoop_block reads inside room instructions (by omega) (by omega)
      (by rw [BitVec.add_zero, length, content])
  rwa [BitVec.add_zero] at result

theorem relocate_of_far (far : 2 ^ 31 < absDelta originalBase trampolineBase) :
    relocate zydis memory trampolineBase originalBase size = (memory, false) :=
  if_pos far

theorem relocate_accepts_iff (reads : zydis.ReadsInstruction (buildMode w))
    (inside : zydis.DisplacementInside (buildMode w)) (room : size ≤ 2 ^ w)
    (instructions : List (zydis.Instruction (buildMode w)))
    (content : memory.read trampolineBase size = blockBytes instructions) :
    (relocate zydis memory trampolineBase originalBase size).2 = true ↔
      absDelta originalBase trampolineBase ≤ 2 ^ 31 ∧
      ∀ instruction ∈ instructions,
        ¬(instruction.item.info.isRelative = true ∧ 32 < instruction.item.info.disp.size) := by
  by_cases near : absDelta originalBase trampolineBase ≤ 2 ^ 31
  · rw [relocate_block reads inside room instructions content near, relocateBlock_result]
    exact (and_iff_right near).symm
  · rw [relocate_of_far (Nat.lt_of_not_le near)]
    exact iff_of_false Bool.false_ne_true fun both => near both.1

end Relocate

end Detours

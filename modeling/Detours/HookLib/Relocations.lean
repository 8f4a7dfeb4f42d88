import Detours.HookLib.RelocatedOperands
import Detours.HookLib.Removal
import Detours.Zydis.Placement

namespace Detours

open Detours.Bytes Detours.Decoding Detours.Machine Detours.Zydis

variable {w : Nat} {zydis : Api} {mode : MachineMode} {memory : Memory w}
  {start : BitVec w} {size : Nat}

/-- How both hooks make a trampoline: a copy, then `relocate`. -/
def moveBlock (zydis : Api) (memory : Memory w) (source destination : BitVec w) (size : Nat) :
    Memory w × Bool :=
  relocate zydis (memory.write destination (memory.read source size)) destination source size

/-- The block at the first base is moved from each base to the next one. -/
def moveAlong (zydis : Api) (size : Nat) :
    BitVec w → List (BitVec w) → Memory w → Memory w × Bool
  | _, [], memory => (memory, true)
  | source, destination :: path, memory =>
      let moved := moveBlock zydis memory source destination size
      let rest := moveAlong zydis size destination path moved.1
      (rest.1, moved.2 && rest.2)

theorem littleEndian_newDisplacement_add (build : w = 64 ∨ w = 32) (disp : RawDisp)
    (first second : BitVec w) :
    littleEndian 4 (newDisplacement
        { disp with value := displacement ((newDisplacement disp first).setWidth 32) }
        second).toNat =
      littleEndian 4 (newDisplacement disp (first + second)).toNat := by
  have low := Subset.toNat_signExtend_mod ((newDisplacement disp first).setWidth 32)
  rw [littleEndian_inj]
  simp only [newDisplacement, displacement, BitVec.toNat_add, BitVec.toNat_setWidth] at low ⊢
  rcases build with rfl | rfl <;> omega

section Block

variable (inside : zydis.DisplacementInside mode) (fields : zydis.RelativeDisplacement mode)
  (relocates : zydis.RelocatesDisplacement mode)

include inside fields relocates

theorem relocatedBytes_decodes (delta : BitVec w) (instruction : zydis.Instruction mode) :
    ∃ copy : zydis.Instruction mode,
      copy.bytes = relocatedBytes delta instruction.item.info instruction.bytes ∧
      (instruction.item.hasDisplacement = false → copy = instruction) ∧
      (instruction.item.hasDisplacement = true →
        copy.item = instruction.item.withDisplacement
          (displacement ((newDisplacement instruction.item.info.disp delta).setWidth 32))) := by
  cases operand : instruction.item.hasDisplacement with
  | false => exact ⟨instruction, (relocatedBytes_of_no_operand fields instruction operand).symm,
      fun _ => rfl, nofun⟩
  | true =>
      have length := relocatedBytes_length delta inside instruction
      have width : instruction.bytes.length = instruction.item.info.length := instruction.exact
      have found := relocates instruction.decoded operand
        ((newDisplacement instruction.item.info.disp delta).setWidth 32)
      rw [littleEndian_setWidth, ← relocatedBytes_of_operand delta operand] at found
      let item := instruction.item.withDisplacement
        (displacement ((newDisplacement instruction.item.info.disp delta).setWidth 32))
      exact ⟨⟨item, _, length.trans width, found⟩, rfl, nofun, fun _ => rfl⟩

theorem relocatedBytes_add (build : w = 64 ∨ w = 32) (first : BitVec w)
    (instruction : zydis.Instruction mode) :
    ∃ copy : zydis.Instruction mode,
      copy.bytes = relocatedBytes first instruction.item.info instruction.bytes ∧
      ∀ second, relocatedBytes second copy.item.info copy.bytes =
        relocatedBytes (first + second) instruction.item.info instruction.bytes := by
  obtain ⟨copy, bytes, same, moved⟩ :=
    relocatedBytes_decodes inside fields relocates first instruction
  refine ⟨copy, bytes, fun second => ?_⟩
  cases operand : instruction.item.hasDisplacement with
  | false =>
      rw [same operand, relocatedBytes_of_no_operand fields instruction operand,
        relocatedBytes_of_no_operand fields instruction operand]
  | true =>
      have room := field_le_length inside instruction operand
      have again : copy.item.hasDisplacement = true := by
        rw [moved operand]
        exact operand
      rw [relocatedBytes_of_operand second again, bytes, relocatedBytes_of_operand first operand,
        relocatedBytes_of_operand (first + second) operand, moved operand]
      change Memory.overwrite (Memory.overwrite _ _ _) instruction.item.info.disp.offset _ = _
      rw [Memory.overwrite_overwrite (by rw [littleEndian_length]; exact room)
        (by rw [littleEndian_length, littleEndian_length])]
      exact congrArg (Memory.overwrite _ _) (littleEndian_newDisplacement_add build _ first second)

/-- A relocated block is a block again, and relocating it adds the distances. -/
theorem relocateBlock_add (build : w = 64 ∨ w = 32) (first : BitVec w)
    (instructions : List (zydis.Instruction mode)) :
    ∃ copies : List (zydis.Instruction mode),
      (relocateBlock first instructions).1 = blockBytes copies ∧
      ∀ second, (relocateBlock second copies).1 =
        (relocateBlock (first + second) instructions).1 := by
  induction instructions with
  | nil => exact ⟨[], rfl, fun _ => rfl⟩
  | cons instruction rest ih =>
      obtain ⟨copy, bytes, own⟩ :=
        relocatedBytes_add inside fields relocates build first instruction
      obtain ⟨copies, others, following⟩ := ih
      refine ⟨copy :: copies, ?_, fun second => ?_⟩
      · rw [relocateBlock, if_neg (narrow_of_fields fields instruction), blockBytes_cons, bytes,
          others]
      · rw [relocateBlock, if_neg (narrow_of_fields fields copy), relocateBlock,
          if_neg (narrow_of_fields fields instruction), own, following]

end Block

theorem relocateBlock_zero (fields : zydis.RelativeDisplacement mode)
    (instructions : List (zydis.Instruction mode)) :
    (relocateBlock (0 : BitVec w) instructions).1 = blockBytes instructions := by
  induction instructions with
  | nil => rfl
  | cons instruction rest ih =>
      have own : relocatedBytes (0 : BitVec w) instruction.item.info instruction.bytes =
          instruction.bytes := by
        unfold relocatedBytes
        split
        · rename_i relative
          rw [Memory.overwrite_eq_self, littleEndian_length]
          rcases fields instruction.decoded relative with none | ⟨size, value⟩
          · rw [none]
            rfl
          · have distance : (0 : BitVec w).setWidth 64 = 0 := by simp
            rw [size, newDisplacement, distance, add_zero]
            exact value
        · rfl
      rw [relocateBlock, if_neg (narrow_of_fields fields instruction), blockBytes_cons, own, ih]

section Paths

variable (reads : zydis.ReadsInstruction (buildMode w))
  (inside : zydis.DisplacementInside (buildMode w))
  (fields : zydis.RelativeDisplacement (buildMode w))

include reads inside

theorem moveBlock_changesOnly (room : size ≤ 2 ^ w) (source destination : BitVec w) :
    Memory.ChangesOnly (span destination size) memory
      (moveBlock zydis memory source destination size).1 :=
  (Memory.write_changesOnly_of_length Memory.read_length).trans
    (relocate_changesOnly reads inside room)

include fields

theorem moveBlock_relocates (room : size ≤ 2 ^ w) {source destination : BitVec w}
    (instructions : List (zydis.Instruction (buildMode w)))
    (content : memory.read source size = blockBytes instructions)
    (near : absDelta source destination ≤ 2 ^ 31) :
    let moved := moveBlock zydis memory source destination size
    moved.2 = true ∧
      moved.1.read destination size = (relocateBlock (source - destination) instructions).1 := by
  have length : (blockBytes instructions).length = size := by rw [← content, Memory.read_length]
  have copied : (memory.write destination (blockBytes instructions)).read destination
      (blockBytes instructions).length = blockBytes instructions :=
    Memory.read_write _ _ (by omega)
  subst length
  rw [moveBlock, content]
  refine ⟨relocate_succeeds reads inside fields room copied near, ?_⟩
  rw [relocate_block reads inside room instructions copied near]
  exact Memory.read_write_of_length _ _ (relocateBlock_length _ inside instructions) room

theorem moveBlock_back (build : w = 64 ∨ w = 32)
    (relocates : zydis.RelocatesDisplacement (buildMode w)) (room : size ≤ 2 ^ w)
    {source destination : BitVec w} (instructions : List (zydis.Instruction (buildMode w)))
    (content : memory.read source size = (relocateBlock (destination - source) instructions).1)
    (near : absDelta source destination ≤ 2 ^ 31) :
    let moved := moveBlock zydis memory source destination size
    moved.2 = true ∧ moved.1.read destination size = blockBytes instructions := by
  obtain ⟨copies, bytes, adds⟩ := relocateBlock_add inside fields relocates build
    (destination - source) instructions
  obtain ⟨success, block⟩ := moveBlock_relocates reads inside fields room copies
    (content.trans bytes) near
  rw [adds, sub_add_sub_cancel, sub_self, relocateBlock_zero fields] at block
  exact ⟨success, block⟩

theorem moveAlong_relocateBlock (build : w = 64 ∨ w = 32)
    (relocates : zydis.RelocatesDisplacement (buildMode w)) (room : size ≤ 2 ^ w)
    (path : List (BitVec w)) (instructions : List (zydis.Instruction (buildMode w)))
    (content : memory.read start size = blockBytes instructions)
    (near : (start :: path).IsChain fun source destination =>
      absDelta source destination ≤ 2 ^ 31) :
    let moved := moveAlong zydis size start path memory
    moved.2 = true ∧ moved.1.read (path.getLastD start) size =
      (relocateBlock (start - path.getLastD start) instructions).1 := by
  induction path generalizing start memory instructions with
  | nil =>
      refine ⟨rfl, ?_⟩
      rw [List.getLastD_nil, sub_self, relocateBlock_zero fields]
      exact content
  | cons destination path ih =>
      rw [List.isChain_cons_cons] at near
      obtain ⟨success, block⟩ :=
        moveBlock_relocates reads inside fields room instructions content near.1
      obtain ⟨copies, bytes, adds⟩ := relocateBlock_add inside fields relocates build
        (start - destination) instructions
      obtain ⟨others, rest⟩ := ih copies (block.trans bytes) near.2
      rw [adds, sub_add_sub_cancel] at rest
      rw [List.getLastD_cons]
      refine ⟨?_, rest⟩
      change (_ && _) = true
      rw [success, others]
      rfl

end Paths

/-- Wherever a block was in between, it is what one move to its last place makes of it; back at
its first place it is what it was, also when a displacement did not fit on the way. -/
theorem moveAlong_relocates (build : w = 64 ∨ w = 32)
    (reads : zydis.ReadsInstruction (buildMode w))
    (inside : zydis.DisplacementInside (buildMode w))
    (fields : zydis.RelativeDisplacement (buildMode w))
    (relocates : zydis.RelocatesDisplacement (buildMode w)) (room : size ≤ 2 ^ w)
    (instructions : List (zydis.Instruction (buildMode w)))
    (content : memory.read start size = blockBytes instructions) (path : List (BitVec w))
    (near : (start :: path).IsChain fun source destination =>
      absDelta source destination ≤ 2 ^ 31) :
    let moved := moveAlong zydis size start path memory
    let last := path.getLastD start
    moved.2 = true ∧
    (last = start → moved.1.read start size = memory.read start size) ∧
    (absDelta start last ≤ 2 ^ 31 →
      moved.1.read last size = (moveBlock zydis memory start last size).1.read last size) := by
  intro moved last
  obtain ⟨success, block⟩ := moveAlong_relocateBlock reads inside fields build relocates room path
    instructions content near
  refine ⟨success, fun home => ?_, fun direct => ?_⟩
  · change moved.1.read last size = (relocateBlock (start - last) instructions).1 at block
    rwa [home, sub_self, relocateBlock_zero fields, ← content] at block
  · exact block.trans
      (moveBlock_relocates reads inside fields room instructions content direct).2.symm

theorem moveAlong_relocates_mov :
    let mov : subset.Instruction .long64 := Subset.Form.movRaxRip.instruction [0, 0, 0, 0x80] rfl
    let lib := HookLib.holding 0x140001000 (blockBytes [mov])
    let path : List (BitVec 64) := [0x140010000, 0x160000000, 0x180000000, 0x140001000]
    (moveAlong subset 7 0x140001000 path lib.memory).1.read 0x140001000 7 =
      lib.memory.read 0x140001000 7 := by
  intro mov lib path
  exact (moveAlong_relocates (w := 64) (.inl rfl) Subset.readsInstruction Subset.displacementInside
    Subset.relativeDisplacement Subset.relocatesDisplacement (by decide) [mov]
    (Memory.read_write _ _ (by decide)) path (by decide)).2.1 rfl

theorem absDelta_comm (first second : BitVec 64) : absDelta first second = absDelta second first := by
  have firstSmall := first.isLt
  have secondSmall := second.isLt
  rw [absDelta, absDelta]
  simp only [BitVec.signExtend_eq, BitVec.toInt_eq_toNat_bmod, BitVec.toNat_sub, Int.bmod_def]
  omega

namespace HookLib

variable {environment : Environment 64} {lib : HookLib 64}
  {originalFunction targetFunction trampoline : BitVec 64}

/-- All that `remove_hook` misses on the near path is a call of `relocate` with the two bases
exchanged: with it every byte of the function is back, whatever its displacements are. -/
theorem removeHook_then_relocate (reads : zydis.ReadsInstruction .long64)
    (inside : zydis.DisplacementInside .long64) (fields : zydis.RelativeDisplacement .long64)
    (relocates : zydis.RelocatesDisplacement .long64)
    (decodes : PrefixDecodes zydis lib.memory originalFunction 5)
    (measured : computeHookSize zydis lib.memory originalFunction 5 = size)
    (chosen : chosenBlock environment originalFunction = some (some (.near, trampoline)))
    (fresh : Disjoint (span originalFunction size) (span trampoline 0x500))
    (absent : lib.activeHooks originalFunction = none)
    (reach : absDelta originalFunction trampoline ≤ 2 ^ 31)
    (stolen : Stolen zydis lib.memory originalFunction 5 size) :
    ∃ after,
      applyHookX64 zydis environment lib originalFunction targetFunction =
        some (after, some trampoline) ∧
      let repaired := relocate zydis (removeHook environment after originalFunction).memory
        originalFunction trampoline size
      repaired.2 = true ∧ Memory.ChangesOnly (span trampoline 0x500) lib.memory repaired.1 := by
  have installation : Installation .near zydis lib originalFunction trampoline size :=
    ⟨reads, decodes, measured, fresh⟩
  have small := installation.small
  have room : size ≤ 2 ^ 64 := by omega
  let after := hooked .near zydis environment lib originalFunction targetFunction trampoline
  refine ⟨after, applyHookX64_of_chosenBlock _ _ _ chosen, ?_⟩
  have saved : after.memory.read trampoline size =
      (relocateBlock (originalFunction - trampoline) stolen.instructions).1 :=
    hooked_near_saved_relocated installation stolen inside reach
  have entry : after.activeHooks originalFunction =
      some ⟨trampoline, after.memory.read trampoline size⟩ := by
    rw [hooked_activeHooks environment targetFunction installation, HookMap.insert_self absent]
  have removed : (removeHook environment after originalFunction).memory =
      after.memory.write originalFunction (after.memory.read trampoline size) := by
    simp only [removeHook, entry, virtualFree_memory, ensureProtection_memory]
  have frame : Memory.ChangesOnly (span originalFunction size ∪ span trampoline 0x500) lib.memory
      after.memory := hooked_changesOnly environment targetFunction installation inside
  obtain ⟨success, back⟩ := moveBlock_back (w := 64) reads inside fields (.inl rfl) relocates room
    stolen.instructions saved (absDelta_comm originalFunction trampoline ▸ reach)
  rw [removed]
  refine ⟨success, fun address outside => ?_⟩
  change (moveBlock zydis after.memory trampoline originalFunction size).1 address = _
  by_cases inRange : address ∈ span originalFunction size
  · obtain ⟨index, below, _, rfl⟩ := exists_offset inRange
    have byte := congrArg (·[index]?) (back.trans stolen.bytes.symm)
    simp only [Memory.read_getElem? below] at byte
    exact Option.some.inj byte
  · rw [moveBlock_changesOnly (w := 64) reads inside room _ _ address inRange]
    exact frame address (not_or.mpr ⟨inRange, outside⟩)

theorem removeHook_then_relocate_mov :
    let lib := HookLib.holding 0x140001000 [0x48, 0x8B, 0x05, 0x10, 0, 0, 0]
    let environment := Environment.granting true 0
    ∃ after,
      applyHookX64 subset environment lib 0x140001000 0x150000000 =
        some (after, some 0x140010000) ∧
      let repaired := relocate subset (removeHook environment after 0x140001000).memory
        (0x140001000 : BitVec 64) 0x140010000 7
      repaired.2 = true ∧ Memory.ChangesOnly (span 0x140010000 0x500) lib.memory repaired.1 := by
  intro lib environment
  let mov : subset.Instruction .long64 := Subset.Form.movRaxRip.instruction [0x10, 0, 0, 0] rfl
  have measured : computeHookSize subset lib.memory 0x140001000 5 = 7 := by decide +kernel
  exact removeHook_then_relocate Subset.readsInstruction Subset.displacementInside
    Subset.relativeDisplacement Subset.relocatesDisplacement
    (computeHookSize_reaches.mp (by rw [measured]; decide)) measured
    (chosenBlock_granting_near (by decide)) (span_disjoint (by decide) (by decide)) rfl (by decide)
    (Stolen.ofHolding 0x140001000 [mov] (by decide) (by decide))

end HookLib

end Detours

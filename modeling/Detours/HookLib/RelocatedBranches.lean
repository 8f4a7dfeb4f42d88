import Detours.HookLib.Granting
import Detours.HookLib.Relocate
import Detours.Zydis.Subset

namespace Detours

open Detours.Bytes Detours.Decoding Detours.Zydis

variable {w : Nat} {zydis : Api} {mode : MachineMode} {memory : Memory w}
  {trampolineBase originalBase delta : BitVec w} {size : Nat}

theorem relocatedBytes_of_no_displacement {info : DecodedInstruction} {bytes : List Byte}
    (none : info.disp.size = 0) : relocatedBytes delta info bytes = bytes := by
  unfold relocatedBytes
  split
  · simp [none, fieldBytes, littleEndian, Memory.overwrite]
  · rfl

/-- The purpose of `relocate` for direct branches. When it succeeds, the copy of a
branch transfers to the address the original transfers to; when the new distance does not
fit the field, it fails. -/
def KeepsBranches (zydis : Api) (memory : Memory w) (trampolineBase originalBase : BitVec w)
    (instructions : List (zydis.Instruction (buildMode w))) : Prop :=
  let after := relocate zydis memory trampolineBase originalBase (blockBytes instructions).length
  ∀ front instruction rest, instructions = front ++ instruction :: rest →
    instruction.item.info.imm.isRelative →
    let offset := BitVec.ofNat w (blockBytes front).length
    (after.2 = true → ∃ copy,
      zydis.decode (buildMode w)
        (after.1.read (trampolineBase + offset) instruction.bytes.length) = some copy ∧
      copy.info.imm.isRelative ∧
      copy.branchTarget (trampolineBase + offset) =
        instruction.item.branchTarget (originalBase + offset)) ∧
    (¬Api.FitsField instruction.item.info.imm.size
        (instruction.item.info.imm.value.setWidth w + (originalBase - trampolineBase)) →
      after.2 = false)

section Copies

variable (reads : zydis.ReadsInstruction (buildMode w))
  (inside : zydis.DisplacementInside (buildMode w))
  (branches : zydis.RelativeImmediate (buildMode w) w)
  {front rest : List (zydis.Instruction (buildMode w))}
  {instruction : zydis.Instruction (buildMode w)}
  (content : memory.read trampolineBase
    (blockBytes (front ++ instruction :: rest)).length = blockBytes (front ++ instruction :: rest))
  (room : (blockBytes (front ++ instruction :: rest)).length ≤ 2 ^ w)
  (near : absDelta originalBase trampolineBase ≤ 2 ^ 31)
  (narrow : ∀ other ∈ front ++ instruction :: rest,
    ¬(other.item.info.isRelative = true ∧ 32 < other.item.info.disp.size))

include reads inside branches content room near narrow

theorem relocate_read_branch (direct : instruction.item.info.imm.isRelative = true) :
    (relocate zydis memory trampolineBase originalBase
      (blockBytes (front ++ instruction :: rest)).length).1.read
        (trampolineBase + BitVec.ofNat w (blockBytes front).length) instruction.bytes.length =
      instruction.bytes := by
  have length := relocateBlock_length (originalBase - trampolineBase) inside front
  have whole := relocateBlock_length (originalBase - trampolineBase) inside
    (front ++ instruction :: rest)
  have own : ¬(instruction.item.info.isRelative = true ∧ 32 < instruction.item.info.disp.size) :=
    narrow instruction (by simp)
  have parts : (relocateBlock (originalBase - trampolineBase) (front ++ instruction :: rest)).1 =
      (relocateBlock (originalBase - trampolineBase) front).1 ++ instruction.bytes ++
        (relocateBlock (originalBase - trampolineBase) rest).1 := by
    rw [relocateBlock_append front _ fun other member => narrow other (List.mem_append_left _ member)]
    rw [relocateBlock, if_neg own,
      relocatedBytes_of_no_displacement (branches instruction.decoded direct).1, List.append_assoc]
  rw [relocate_block reads inside room _ content near]
  rw [parts] at whole ⊢
  rw [← length]
  exact Memory.read_write_middle _ _ _ _ _ (by rw [whole]; exact room)

theorem relocate_decode_branch (direct : instruction.item.info.imm.isRelative = true) :
    zydis.decode (buildMode w) ((relocate zydis memory trampolineBase originalBase
      (blockBytes (front ++ instruction :: rest)).length).1.read
        (trampolineBase + BitVec.ofNat w (blockBytes front).length) instruction.bytes.length) =
      some instruction.item := by
  rw [relocate_read_branch reads inside branches content room near narrow direct]
  exact instruction.decode_bytes

end Copies

section Keeps

variable {instructions : List (zydis.Instruction (buildMode w))}

theorem keepsBranches_of_refused
    (refused : (relocate zydis memory trampolineBase originalBase
      (blockBytes instructions).length).2 = false) :
    KeepsBranches zydis memory trampolineBase originalBase instructions := by
  intro front instruction rest split direct
  refine ⟨fun success => ?_, fun _ => refused⟩
  exact absurd (refused.symm.trans success) Bool.false_ne_true

variable (reads : zydis.ReadsInstruction (buildMode w))
  (inside : zydis.DisplacementInside (buildMode w))
  (branches : zydis.RelativeImmediate (buildMode w) w)
  (room : (blockBytes instructions).length ≤ 2 ^ w)
  (content : memory.read trampolineBase (blockBytes instructions).length = blockBytes instructions)

include reads inside branches room content

theorem keepsBranches_of_same_base (near : absDelta trampolineBase trampolineBase ≤ 2 ^ 31)
    (narrow : ∀ instruction ∈ instructions,
      ¬(instruction.item.info.isRelative = true ∧ 32 < instruction.item.info.disp.size)) :
    KeepsBranches zydis memory trampolineBase trampolineBase instructions := by
  intro front instruction rest split direct
  subst split
  refine ⟨fun _ => ⟨instruction.item, ?_, direct, rfl⟩, fun unfit => ?_⟩
  · exact relocate_decode_branch reads inside branches content room near narrow direct
  · rw [sub_self, add_zero] at unfit
    exact absurd (branches instruction.decoded direct).2 unfit

theorem same_base_of_keepsBranches (near : absDelta originalBase trampolineBase ≤ 2 ^ 31)
    (narrow : ∀ instruction ∈ instructions,
      ¬(instruction.item.info.isRelative = true ∧ 32 < instruction.item.info.disp.size))
    (keeps : KeepsBranches zydis memory trampolineBase originalBase instructions)
    {instruction : zydis.Instruction (buildMode w)} (member : instruction ∈ instructions)
    (direct : instruction.item.info.imm.isRelative = true) : originalBase = trampolineBase := by
  have succeeded := (relocate_accepts_iff reads inside room instructions content).mpr ⟨near, narrow⟩
  obtain ⟨front, rest, split⟩ := List.append_of_mem member
  subst split
  obtain ⟨copy, decoded, _, target⟩ := (keeps front instruction rest rfl direct).1 succeeded
  rw [relocate_decode_branch reads inside branches content room near narrow direct,
    Option.some.injEq] at decoded
  subst decoded
  simp only [Decoded.branchTarget, add_left_inj] at target
  exact target.symm

end Keeps

/-- A relocated branch keeps its target only where nothing moves: `relocate` has to
refuse the block, or both bases agree, or the block holds no direct branch. -/
theorem relocate_keepsBranches_iff (reads : zydis.ReadsInstruction (buildMode w))
    (inside : zydis.DisplacementInside (buildMode w))
    (branches : zydis.RelativeImmediate (buildMode w) w)
    (instructions : List (zydis.Instruction (buildMode w)))
    (room : (blockBytes instructions).length ≤ 2 ^ w)
    (content : memory.read trampolineBase (blockBytes instructions).length =
      blockBytes instructions) :
    KeepsBranches zydis memory trampolineBase originalBase instructions ↔
      2 ^ 31 < absDelta originalBase trampolineBase ∨ originalBase = trampolineBase ∨
      (∀ instruction ∈ instructions, instruction.item.info.imm.isRelative = false) ∨
      ∃ instruction ∈ instructions, instruction.item.info.isRelative = true ∧
        32 < instruction.item.info.disp.size := by
  have accepts : (relocate zydis memory trampolineBase originalBase _).2 = true ↔ _ :=
    relocate_accepts_iff reads inside room instructions content
  by_cases far : 2 ^ 31 < absDelta originalBase trampolineBase
  · refine iff_of_true (keepsBranches_of_refused ?_) (.inl far)
    rw [relocate_of_far far]
  have near : absDelta originalBase trampolineBase ≤ 2 ^ 31 := Nat.le_of_not_lt far
  by_cases wide : ∃ instruction ∈ instructions, instruction.item.info.isRelative = true ∧
      32 < instruction.item.info.disp.size
  · refine iff_of_true (keepsBranches_of_refused ?_) (.inr (.inr (.inr wide)))
    obtain ⟨instruction, member, relative⟩ := wide
    exact Bool.eq_false_of_not_eq_true fun accepted =>
      (accepts.mp accepted).2 instruction member relative
  have narrow : ∀ instruction ∈ instructions,
      ¬(instruction.item.info.isRelative = true ∧ 32 < instruction.item.info.disp.size) :=
    fun instruction member relative => wide ⟨instruction, member, relative⟩
  constructor
  · intro keeps
    by_cases direct : ∀ instruction ∈ instructions, instruction.item.info.imm.isRelative = false
    · exact .inr (.inr (.inl direct))
    · push Not at direct
      obtain ⟨instruction, member, relative⟩ := direct
      exact .inr (.inl (same_base_of_keepsBranches reads inside branches room content near narrow
        keeps member (eq_true_of_ne_false relative)))
  · intro condition
    rcases condition with far' | same | none | wide'
    · exact absurd far' far
    · subst same
      exact keepsBranches_of_same_base reads inside branches room content near narrow
    · intro front instruction rest split direct
      have plain := none instruction (by rw [split]; simp)
      rw [direct] at plain
      cases plain
    · exact absurd wide' wide

theorem relocate_keepsBranches_nops :
    let nop : subset.Instruction .long64 := Subset.Form.nop.instruction [] rfl
    let lib := HookLib.holding 0x140010000 (blockBytes (List.replicate 5 nop))
    KeepsBranches (w := 64) subset lib.memory 0x140010000 0x140001000 (List.replicate 5 nop) := by
  intro nop lib
  refine (relocate_keepsBranches_iff (w := 64) Subset.readsInstruction Subset.displacementInside
    Subset.relativeImmediate (List.replicate 5 nop) (by decide)
    (Memory.read_write _ _ (by decide))).mpr (.inr (.inr (.inl ?_)))
  intro instruction member
  rw [List.eq_of_mem_replicate member]
  rfl

/-- The copy of `JMP +0x10` goes as far as the original, from another place. -/
theorem relocate_loses_branch :
    let jump : subset.Instruction .long64 := Subset.Form.jmp.instruction [0x10, 0, 0, 0] rfl
    let lib := HookLib.holding 0x140010000 (blockBytes [jump])
    absDelta (0x140001000 : BitVec 64) 0x140010000 ≤ 2 ^ 31 ∧
    ¬KeepsBranches (w := 64) subset lib.memory 0x140010000 0x140001000 [jump] := by
  intro jump lib
  have near : absDelta (0x140001000 : BitVec 64) 0x140010000 ≤ 2 ^ 31 := by decide
  refine ⟨near, ?_⟩
  intro keeps
  have content : lib.memory.read 0x140010000 (blockBytes ([] ++ jump :: [])).length =
      blockBytes ([] ++ jump :: []) := Memory.read_write _ _ (by decide)
  have narrow : ∀ other ∈ [] ++ jump :: [],
      ¬(other.item.info.isRelative = true ∧ 32 < other.item.info.disp.size) := by
    intro other member
    rw [List.mem_singleton.mp member]
    decide
  have copied := relocate_decode_branch (w := 64) Subset.readsInstruction
    Subset.displacementInside Subset.relativeImmediate content (by decide) near narrow rfl
  obtain ⟨copy, decoded, _, target⟩ := (keeps [] jump [] rfl rfl).1 (by decide +kernel)
  have same : copy = jump.item := Option.some.inj (decoded.symm.trans copied)
  rw [same] at target
  exact absurd target (by decide)

end Detours

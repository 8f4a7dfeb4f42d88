import Detours.HookLib.RelocatedOperands
import Detours.HookLib.X86Modes
import Detours.Machine.Transparency

namespace Detours

open Detours.Bytes Detours.Decoding Detours.Machine Detours.Zydis

/-- A 32-bit processor: an instruction without an operand relative to the instruction pointer
does the same everywhere. -/
structure Executes32 {zydis : Api} {σ : Type}
    (processor : Processor 32 σ (zydis.decoder .legacy32)) : Prop where
  jump : processor.jump = jumpTarget32
  anywhere : ∀ instruction : zydis.Instruction .legacy32, instruction.item.hasDisplacement = false →
    ∀ next later, SamePlace processor instruction.item instruction.item next later

/-- Only 64-bit code has operands relative to the instruction pointer. -/
def Zydis.Api.NoDisplacement32 (zydis : Api) : Prop :=
  ∀ {buffer decoded}, zydis.decode .legacy32 buffer = some decoded →
    decoded.hasDisplacement = false

section Relocate

variable {w size : Nat} {zydis : Api} {mode : MachineMode} {memory : Memory w}
  {trampolineBase originalBase delta : BitVec w}

theorem relocateBlock_of_no_operands (fields : zydis.RelativeDisplacement mode)
    (instructions : List (zydis.Instruction mode))
    (none : ∀ instruction ∈ instructions, instruction.item.hasDisplacement = false) :
    (relocateBlock delta instructions).1 = blockBytes instructions := by
  induction instructions with
  | nil => rfl
  | cons instruction rest ih =>
      rw [List.forall_mem_cons] at none
      rw [relocateBlock, if_neg (narrow_of_fields fields instruction), blockBytes_cons,
        relocatedBytes_of_no_operand fields instruction none.1, ih none.2]

theorem relocate_of_no_operands (reads : zydis.ReadsInstruction (buildMode w))
    (inside : zydis.DisplacementInside (buildMode w))
    (fields : zydis.RelativeDisplacement (buildMode w)) (room : size ≤ 2 ^ w)
    (instructions : List (zydis.Instruction (buildMode w)))
    (content : memory.read trampolineBase size = blockBytes instructions)
    (none : ∀ instruction ∈ instructions, instruction.item.hasDisplacement = false) :
    (relocate zydis memory trampolineBase originalBase size).1 = memory := by
  by_cases near : absDelta originalBase trampolineBase ≤ 2 ^ 31
  · rw [relocate_block reads inside room instructions content near,
      relocateBlock_of_no_operands fields instructions none, ← content, Memory.write_read]
  · rw [relocate_of_far (Nat.lt_of_not_le near)]

end Relocate

namespace HookLib

variable {σ : Type} {zydis : Api} {processor : Processor 32 σ (zydis.decoder .legacy32)}
  {rubbish : zydis.Instruction .legacy32 → σ → Set (BitVec 32)}
  {environment : Environment 32} {lib : HookLib 32} {memory : Memory 32}
  {originalFunction targetFunction trampoline address other : BitVec 32} {size : Nat}
  {instructions : List (zydis.Instruction .legacy32)}

theorem replaced_itself (rubbish : zydis.Instruction .legacy32 → σ → Set (BitVec 32))
    (code : Set (BitVec 32)) (executes : Executes32 processor)
    (none : ∀ instruction ∈ instructions, instruction.item.hasDisplacement = false) :
    Replaced processor rubbish code address other instructions instructions := by
  induction instructions generalizing address other with
  | nil => exact .nil _ _
  | cons instruction rest ih =>
      rw [List.forall_mem_cons] at none
      have same := executes.anywhere instruction none.1
        (address + BitVec.ofNat 32 instruction.bytes.length)
        (other + BitVec.ofNat 32 instruction.bytes.length)
      exact .cons (same.replaces rubbish) (ih none.2)

structure X86Hook (memory : Memory 32) (originalFunction targetFunction trampoline : BitVec 32)
    (size : Nat) (stolen : List Byte) : Prop where
  patch : memory.read originalFunction 5 = jumpRel32 (targetFunction - (originalFunction + 5))
  copy : memory.read trampoline size = stolen
  back : memory.read (trampoline + BitVec.ofNat 32 size) 5 =
    jumpRel32 (originalFunction + BitVec.ofNat 32 size - (trampoline + BitVec.ofNat 32 size + 5))

theorem x86Prepared_eq (environment : Environment 32)
    (reads32 : zydis.ReadsInstruction .legacy32) (inside : zydis.DisplacementInside .legacy32)
    (fields : zydis.RelativeDisplacement .legacy32) (absolute : zydis.NoDisplacement32)
    (small : size < 32) (fresh : Disjoint (span originalFunction size) (span trampoline (size + 5)))
    (content : lib.memory.read originalFunction size = blockBytes instructions) :
    x86Prepared zydis environment lib originalFunction trampoline size =
      x86Trampoline (lib.withBlock environment trampoline (size + 5)).memory originalFunction
        trampoline size := by
  have copied := x86Trampoline_read environment lib originalFunction trampoline small fresh
  exact relocate_of_no_operands (w := 32) reads32 inside fields (by omega) instructions
    (copied.trans content) fun instruction _ => absolute instruction.decoded

theorem x86Patch_changesOnly (covers : 5 ≤ size) (small : size < 32) :
    Memory.ChangesOnly (span originalFunction (2 * size - 5)) memory
      (x86Patch originalFunction targetFunction size memory) := by
  rw [x86Patch_eq covers small]
  have jump : Memory.ChangesOnly (span originalFunction 5) memory
      (memory.write originalFunction (jumpRel32 (targetFunction - (originalFunction + 5)))) :=
    Memory.write_changesOnly_of_length (jumpRel32_length _)
  exact (jump.mono (span_mono (by omega))).trans
    (Memory.fill_changesOnly.mono (span_add_subset size (by omega) (by omega)))

theorem applyHookX86_hook (reads : zydis.ReadsInstruction .long64)
    (reads32 : zydis.ReadsInstruction .legacy32) (inside : zydis.DisplacementInside .legacy32)
    (fields : zydis.RelativeDisplacement .legacy32) (absolute : zydis.NoDisplacement32)
    (measured : computeHookSize zydis lib.memory originalFunction 5 = size) (covers : 5 ≤ size)
    (granted : environment.virtualAlloc 0 (size + 5) = some trampoline)
    (fresh : Disjoint (span originalFunction (2 * size - 5)) (span trampoline (size + 5)))
    (content : lib.memory.read originalFunction size = blockBytes instructions) :
    let after := (applyHookX86 zydis environment lib originalFunction targetFunction).1.memory
    X86Hook after originalFunction targetFunction trampoline size (blockBytes instructions) ∧
    Memory.ChangesOnly (span originalFunction (2 * size - 5) ∪ span trampoline (size + 5))
      lib.memory after := by
  subst measured
  intro after
  have small : computeHookSize zydis lib.memory originalFunction 5 < 32 := x86_small reads
  have patched : after = _ := applyHookX86_memory granted
  generalize computeHookSize zydis lib.memory originalFunction 5 = size at *
  have stolenFresh : Disjoint (span originalFunction size) (span trampoline (size + 5)) :=
    fresh.mono_left (span_mono (by omega))
  let prepared := x86Prepared zydis environment lib originalFunction trampoline size
  have frame : Memory.ChangesOnly (span originalFunction (2 * size - 5)) prepared after :=
    patched ▸ x86Patch_changesOnly covers small
  have filled : prepared = _ := x86Prepared_eq environment reads32 inside fields absolute small
    stolenFresh content
  refine ⟨⟨?_, ?_, ?_⟩, ?_⟩
  · have front := x86Patch_read prepared originalFunction targetFunction covers small
    rw [← patched] at front
    rw [← Memory.take_read covers, front]
    exact List.take_left' (jumpRel32_length _)
  · rw [frame.read_eq (by omega) (fresh.symm.mono_left (span_mono (by omega))), filled,
      x86Trampoline_read environment lib originalFunction trampoline small stolenFresh, content]
  · rw [frame.read_eq (by omega) (fresh.symm.mono_left (span_add_subset size (by omega) (by omega))),
      filled, x86Trampoline, placeJump, storeJump_eq (by decide), BitVec.setWidth_eq]
    exact Memory.read_write_of_length _ _ (jumpRel32_length _) (by decide)
  · exact ((x86Prepared_changesOnly environment lib originalFunction trampoline reads32 inside
      small).mono Set.subset_union_right).trans (frame.mono Set.subset_union_left)

/-- Calls of the function get to the target, and the block does what the stolen instructions do
where these run straight through, and goes on behind them. Beside the stolen bytes and the block
only the `NOP`s behind the stolen bytes are new, and with five stolen bytes there are none. -/
theorem applyHookX86_transparent (executes : Executes32 processor)
    (rubbish : zydis.Instruction .legacy32 → σ → Set (BitVec 32))
    (reads : zydis.ReadsInstruction .long64) (reads32 : zydis.ReadsInstruction .legacy32)
    (inside : zydis.DisplacementInside .legacy32) (fields : zydis.RelativeDisplacement .legacy32)
    (absolute : zydis.NoDisplacement32)
    (measured : computeHookSize zydis lib.memory originalFunction 5 = size) (covers : 5 ≤ size)
    (granted : environment.virtualAlloc 0 (size + 5) = some trampoline)
    (fresh : Disjoint (span originalFunction (2 * size - 5)) (span trampoline (size + 5)))
    (content : lib.memory.read originalFunction size = blockBytes instructions) :
    let after := (applyHookX86 zydis environment lib originalFunction targetFunction).1.memory
    Transparent processor rubbish (span originalFunction size ∪ span trampoline (size + 5)) after
      originalFunction targetFunction trampoline instructions ∧
    Memory.ChangesOnly (span originalFunction (2 * size - 5) ∪ span trampoline (size + 5))
      lib.memory after := by
  intro after
  have small : size < 32 := measured ▸ x86_small reads
  have length : (blockBytes instructions).length = size := by rw [← content, Memory.read_length]
  obtain ⟨hook, changes⟩ : X86Hook after originalFunction targetFunction trampoline size
      (blockBytes instructions) ∧ _ :=
    applyHookX86_hook reads reads32 inside fields absolute measured covers granted fresh content
  have window (state : State 32 σ) (there : ∀ address ∈ span originalFunction size ∪
      span trampoline (size + 5), state.memory address = after address) {base : BitVec 32}
      {count : Nat} (bound : count ≤ 32)
      (part : span base count ⊆ span originalFunction size ∪ span trampoline (size + 5)) :
      state.memory.read base count = after.read base count :=
    Memory.read_eq_of_agree (by omega) fun address member => there address (part member)
  refine ⟨transparent_of_replaced reads32.selfDelimiting (fun code => ⟨instructions, rfl,
    replaced_itself rubbish code executes fun instruction _ => absolute instruction.decoded⟩)
    (by rw [length]; exact hook.copy) ?_ ?_ (by omega) (by omega) ?_ ?_, changes⟩
  · rw [length]
    exact Set.subset_union_left
  · rw [length]
    exact (span_mono (by omega)).trans Set.subset_union_right
  · intro state there
    refine Processor.Runs.jump ?_
    rw [executes.jump]
    refine jumpTarget32_to ((window state there (by decide) ?_).trans hook.patch)
    exact (span_mono covers).trans Set.subset_union_left
  · intro state there
    refine Processor.Runs.jump ?_
    rw [executes.jump, length]
    refine jumpTarget32_to ((window state there (by decide) ?_).trans hook.back)
    exact (span_add_subset size (by omega) (by omega)).trans Set.subset_union_right

def straightEax (decoded : Decoded) (eax : BitVec 32) : Option (BitVec 32) :=
  match decoded.operands with
  | [] => some eax
  | [_, ⟨_, _, .immediate false value⟩] => some (value.setWidth 32)
  | _ => none

def eaxProcessor : Processor 32 (BitVec 32) (oneByte.decoder .legacy32) where
  window := maxInstructionLength
  jump := jumpTarget32
  effect := fun decoded _ state =>
    (straightEax decoded state.core).map fun eax => ⟨eax, state.memory⟩
  reads := fun _ _ _ => ∅
  writes := fun _ _ _ => ∅
  fits := Api.Instruction.length_le
  framed := by
    intro decoded _ before after other executed core _
    obtain ⟨eax, computed, rfl⟩ := Option.map_eq_some_iff.mp executed
    refine ⟨⟨eax, other.memory⟩, ?_, rfl, fun _ none => none.elim, .refl _ _⟩
    rw [core, computed, Option.map_some]
  straight := by
    intro chunk _ before after executed memory address stored
    obtain ⟨form, field, rest, width, bytes, item⟩ := OneByte.decode_cases chunk.decoded
    have opcode : memory address = form.opcode := by
      rw [bytes, List.length_cons, Memory.read, List.cons.injEq] at stored
      exact stored.1
    rw [item] at executed
    rw [jumpTarget32, opcode]
    cases form with
    | jmp => cases executed
    | _ => exact if_neg (by decide)

theorem applyHookX86_transparent_mov :
    let lib := HookLib.holding (0x401000 : BitVec 32) [0xB8, 1, 0, 0, 0, 0xC3]
    let after := (applyHookX86 oneByte (.granting false 0x500000) lib 0x401000 0x402000).1.memory
    eaxProcessor.Runs (0x401000, ⟨0, after⟩) (0x402000, ⟨0, after⟩) ∧
    ∃ result, eaxProcessor.Runs (0x500000, ⟨0, after⟩) (0x401005, result) ∧ result.core = 1 := by
  intro lib after
  let mov : oneByte.Instruction .legacy32 :=
    OneByte.Form.movImmediate.instruction .legacy32 [1, 0, 0, 0] rfl
  have executes : Executes32 eaxProcessor := ⟨rfl, fun _ _ _ _ => ⟨rfl, rfl, rfl⟩⟩
  have absolute : oneByte.NoDisplacement32 := by
    intro buffer decoded found
    cases relative : decoded.info.isRelative with
    | false => rw [Decoded.hasDisplacement, relative, Bool.false_and]
    | true =>
        rw [Decoded.hasDisplacement, OneByte.disp_size_of_relative found relative]
        exact Bool.and_false _
  have content : lib.memory.read 0x401000 5 = blockBytes [mov] := by decide +kernel
  have measured : computeHookSize oneByte lib.memory 0x401000 5 = 5 := by decide +kernel
  have fresh : Disjoint (span (0x401000 : BitVec 32) 5) (span 0x500000 10) :=
    span_disjoint (by decide) (by decide)
  obtain ⟨transparent, changes⟩ := applyHookX86_transparent executes (fun _ _ => ∅)
    (OneByte.readsInstruction _) (OneByte.readsInstruction _) (OneByte.displacementInside _)
    (OneByte.relativeDisplacement _) absolute measured (by decide) granting_virtualAlloc_zero fresh
    content
  obtain ⟨_, called, result, resumed, agrees, _⟩ := transparent _ _ _ ⟨0, lib.memory⟩ _ ⟨0, after⟩
    subset_rfl content (.quiet rfl rfl rfl rfl (.nil _ _ _)) ⟨rfl, changes⟩ fun _ _ => rfl
  exact ⟨called, result, resumed, agrees.core⟩

end HookLib

end Detours

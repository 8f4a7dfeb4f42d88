import Detours.TrampolineBuilder.MemoryMeaning

namespace Detours.TrampolineBuilder

open Detours.Bytes Detours.Decoding Detours.Machine Detours.Zydis

variable {Flags : Type} {zydis : Api} {leftover : BitVec 64 → Leftover} {address disp : BitVec 64}
  {index width : Nat} {cpu : Cpu Flags} {whole : Fin 16}

/-- Both runs end with one value at the address, and with the same registers and flags. -/
def KeepsStore (target : BitVec 64) (width : Nat) (original rewritten : Option (Cpu Flags)) : Prop :=
  ∃ left right, original = some left ∧ rewritten = some right ∧
    right.memory.read target (width / 8) = left.memory.read target (width / 8) ∧
    right.registers = left.registers ∧ right.others = left.others ∧ right.flags = left.flags

theorem keepsStore_some {target : BitVec 64} {left right : Cpu Flags} :
    KeepsStore target width (some left) (some right) ↔
      right.memory.read target (width / 8) = left.memory.read target (width / 8) ∧
      right.registers = left.registers ∧ right.others = left.others ∧
      right.flags = left.flags := by
  constructor
  · intro keeps
    obtain ⟨_, _, isLeft, isRight, same⟩ := keeps
    rwa [Option.some.inj isLeft, Option.some.inj isRight]
  · intro same
    exact ⟨_, _, rfl, rfl, same⟩

/-- With a part of the scratch register in place of its memory operand, the operation does
to the other registers and the flags what it would have done, and leaves to `POP` the stack
pointer and the value of the scratch register. -/
structure Undisturbed (cpu : Cpu Flags) (operation : Operation Flags) (scratch : Fin 16)
    (target : BitVec 64) (places replaced : List Location) : Prop where
  registers : ∀ index, index ≠ scratch → index ≠ stackPointer →
    (cpu.substituted scratch target operation replaced).registers index =
      (cpu.apply operation places).registers index
  stack : (cpu.substituted scratch target operation replaced).registers stackPointer + 8 =
    (cpu.apply operation places).registers stackPointer
  saved : read64 (cpu.substituted scratch target operation replaced).memory
      ((cpu.substituted scratch target operation replaced).registers stackPointer) =
    (cpu.apply operation places).registers scratch
  others : (cpu.substituted scratch target operation replaced).others =
    (cpu.apply operation places).others
  flags : (cpu.substituted scratch target operation replaced).flags =
    (cpu.apply operation places).flags

def fittedPart (zydis : Api) (leftover : BitVec 64 → Leftover) (address : BitVec 64)
    (decoded : Decoded) (index : Nat) : Part :=
  (Register.part? (fittedOf zydis leftover address decoded index)).getD ⟨⟨0, by decide⟩, .qword⟩

theorem undisturbed_iff {operation : Operation Flags} {target : BitVec 64}
    {places replaced : List Location} (different : whole ≠ stackPointer) :
    Undisturbed cpu operation whole target places replaced ↔
      (cpu.surrounded whole target operation replaced).registers =
          (cpu.apply operation places).registers ∧
        (cpu.surrounded whole target operation replaced).others =
          (cpu.apply operation places).others ∧
        (cpu.surrounded whole target operation replaced).flags =
          (cpu.apply operation places).flags := by
  rw [Cpu.surrounded, Cpu.pop_registers_iff different]
  constructor
  · intro same
    exact ⟨⟨same.registers, same.stack, same.saved⟩, same.others, same.flags⟩
  · intro same
    obtain ⟨⟨registers, stack, saved⟩, others, flags⟩ := same
    exact ⟨registers, stack, saved, others, flags⟩

section Stores

variable {semantics : Semantics Flags} {instruction : zydis.Instruction .long64}
  {state : RewriteState}
  (reads : zydis.ReadsInstruction .long64) (fills : zydis.FillsRequest)
  (means : zydis.EncodesMeaning) (relative : instruction.item.info.isRelative = true)
  (noBranch : rewritesBranch instruction.item.info = false)
  (rip : RipOperand instruction.item index width disp) (sized : width < 2 ^ 16)
  (plain : instruction.item.info.mnemonic.isOperation)
  (calls : CallsSucceed zydis (annotated leftover address instruction.item) state)

include reads fills means relative noBranch rip sized plain calls

/-- The memory operand is left as `PUSH` leaves it. -/
theorem keepsStore_iff_leaves (runtime : BitVec 64) (cpu : Cpu Flags) :
    let operation := semantics.operation instruction.item.info.mnemonic
    let places := instruction.item.places zydis address
    let part := fittedPart zydis leftover address instruction.item index
    let target := (annotated leftover address instruction.item).absoluteAddress
    KeepsStore target width (run zydis semantics address instruction.bytes cpu)
        (run zydis semantics runtime (rewriteInstruction zydis leftover
          (annotated leftover address instruction.item) state).1 cpu) ↔
      cpu.leaves target width (cpu.result operation places index) =
          (cpu.push (cpu.registers part.index)).memory.read target (width / 8) ∧
        Undisturbed cpu operation part.index target places
          (substitutedPlaces zydis address instruction.item index part) := by
  intro operation places part target
  obtain ⟨whole, slice, different, isWhole, isPart⟩ :=
    exists_parts leftover address fills instruction.decode_bytes index
  have fitted : part = ⟨whole, slice⟩ := by
    change (Register.part? _).getD _ = _
    rw [isPart, Option.getD_some]
  have small : width / 8 ≤ 2 ^ 64 := by omega
  have left : (cpu.apply operation places).memory.read target (width / 8) =
      cpu.leaves target width (cpu.result operation places index) := by
    rw [apply_places_memory leftover rip, cpu.store_read target small]
  have right : (cpu.surrounded part.index target operation
      (substitutedPlaces zydis address instruction.item index part)).memory.read target
        (width / 8) = (cpu.push (cpu.registers part.index)).memory.read target (width / 8) :=
    congrArg (Memory.read · target (width / 8)) (surrounded_memory rip part target)
  rw [run_original reads rip plain, run_rewritten reads rip plain fills means relative noBranch
    calls isWhole isPart, keepsStore_some, undisturbed_iff (by rw [fitted]; exact different),
    ← left, ← right, fitted]
  exact and_congr_left' eq_comm

/-- The scratch register is loaded but never stored: the rewritten code keeps a store exactly
when the operand is left as it stands behind the `PUSH` and the registers are not disturbed.
Where the operation finds its operands, that is when it leaves the operand as it was. -/
theorem rewriteInstruction_keepsStore_iff (runtime : BitVec 64) (cpu : Cpu Flags) :
    let operation := semantics.operation instruction.item.info.mnemonic
    let places := instruction.item.places zydis address
    let part := fittedPart zydis leftover address instruction.item index
    let target := (annotated leftover address instruction.item).absoluteAddress
    let keeps := KeepsStore target width (run zydis semantics address instruction.bytes cpu)
      (run zydis semantics runtime (rewriteInstruction zydis leftover
        (annotated leftover address instruction.item) state).1 cpu)
    (keeps ↔
      cpu.leaves target width (cpu.result operation places index) =
          (cpu.push (cpu.registers part.index)).memory.read target (width / 8) ∧
        Undisturbed cpu operation part.index target places
          (substitutedPlaces zydis address instruction.item index part)) ∧
    (Faithful zydis leftover address instruction.item index cpu →
      (keeps ↔ cpu.leaves target width (cpu.result operation places index) =
        cpu.memory.read target (width / 8))) := by
  intro operation places part target keeps
  have exactly : keeps ↔ _ ∧ _ :=
    keepsStore_iff_leaves reads fills means relative noBranch rip sized plain calls runtime cpu
  refine ⟨exactly, fun faithful => ?_⟩
  obtain ⟨whole, slice, different, isWhole, isPart⟩ :=
    exists_parts leftover address fills instruction.decode_bytes index
  have fitted : part = ⟨whole, slice⟩ := by
    change (Register.part? _).getD _ = _
    rw [isPart, Option.getD_some]
  obtain ⟨registers, others, flags, _⟩ :=
    surrounded_of_faithful rip isWhole isPart faithful different operation
  have undisturbed : Undisturbed cpu operation part.index target places
      (substitutedPlaces zydis address instruction.item index part) := by
    rw [fitted]
    exact (undisturbed_iff different).mpr ⟨registers, others, flags⟩
  have slot := faithful.slot
  rw [rip.size] at slot
  rw [← push_read slot (by omega) (cpu.registers part.index)]
  exact exactly.trans (and_iff_left undisturbed)

end Stores

theorem movRipRcx_ripOperand :
    RipOperand (Subset.Form.movRipRcx.instruction [0x10, 0, 0, 0] rfl).item 0 64 0x10 where
  visible := by decide
  memory := by decide +kernel
  size := by decide +kernel
  others := by
    intro position inside different
    have last : position < 2 := inside
    obtain rfl : position = 1 := by omega
    exact .inl ⟨Register.rcx, by decide +kernel⟩

theorem rewriteInstruction_keepsStore_mov :
    let mov : subset.Instruction .long64 := Subset.Form.movRipRcx.instruction [0x10, 0, 0, 0] rfl
    let leftover := (Environment.granting false (0 : BitVec 64)).leftover
    let cpu : Cpu Unit :=
      ⟨fun index => if index = stackPointer then 0x200000 else 0, fun _ => 0, (), fun _ => 0⟩
    let state : RewriteState := ⟨⟨[], 0x500000, 0x500050, 0x500100⟩, fun _ => 0, 0x500000⟩
    KeepsStore (annotated leftover 0x400000 mov.item).absoluteAddress 64
      (run subset copies 0x400000 mov.bytes cpu)
      (run subset copies 0x500000 (rewriteInstruction subset leftover
        (annotated leftover 0x400000 mov.item) state).1 cpu) := by
  intro mov leftover cpu state
  have scratch : scratchOf leftover 0x400000 mov.item = Register.rax := by decide +kernel
  have fitted : fittedOf subset leftover 0x400000 mov.item 0 = Register.rax := by decide +kernel
  have faithful : Faithful subset leftover 0x400000 mov.item 0 cpu :=
    { lowPart := by
        rw [scratch, fitted, movRipRcx_ripOperand.size]
        exact (Register.isLowPart_iff rfl rfl).mpr ⟨rfl, rfl⟩
      apart := by
        intro position inside different reg value
        have last : position < 2 := inside
        obtain rfl : position = 1 := by omega
        obtain rfl : reg = Register.rcx := by
          cases value
          rfl
        rw [scratch]
        decide
      slot := span_disjoint (by decide +kernel) (by decide +kernel) }
  exact ((rewriteInstruction_keepsStore_iff Subset.readsInstruction Subset.fillsRequest
    Subset.encodesMeaning (by decide) (by decide) movRipRcx_ripOperand (by decide) (by decide)
    (by decide +kernel) 0x500000 cpu).2 faithful).mpr (by decide +kernel)

/-- `MOV [RIP + 0x10], RCX` stores to a copy of the operand in `RAX`. -/
theorem rewriteInstruction_loses_store :
    let mov : subset.Instruction .long64 := Subset.Form.movRipRcx.instruction [0x10, 0, 0, 0] rfl
    let leftover := (Environment.granting false (0 : BitVec 64)).leftover
    let cpu : Cpu Unit := ⟨fun _ => 0x200000, fun _ => 0, (), fun _ => 0⟩
    let state : RewriteState := ⟨⟨[], 0x500000, 0x500050, 0x500100⟩, fun _ => 0, 0x500000⟩
    mov.item.info.isRelative ∧ rewritesBranch mov.item.info = false ∧
      CallsSucceed subset (annotated leftover 0x400000 mov.item) state ∧
      (annotated leftover 0x400000 mov.item).absoluteAddress = 0x400017 ∧
      ¬KeepsStore (annotated leftover 0x400000 mov.item).absoluteAddress 64
        (run subset copies 0x400000 mov.bytes cpu)
        (run subset copies 0x500000 (rewriteInstruction subset leftover
          (annotated leftover 0x400000 mov.item) state).1 cpu) := by
  intro mov leftover cpu state
  refine ⟨by decide, by decide, by decide +kernel, by decide +kernel, fun keeps => ?_⟩
  have left := ((keepsStore_iff_leaves Subset.readsInstruction Subset.fillsRequest
    Subset.encodesMeaning (by decide) (by decide) movRipRcx_ripOperand (by decide) (by decide)
    (by decide +kernel) 0x500000 cpu).mp keeps).1
  revert left
  decide +kernel

end Detours.TrampolineBuilder

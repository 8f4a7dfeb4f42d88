import Detours.Decoding.Scan
import Detours.HookLib.Granting
import Detours.TrampolineBuilder.Annotate
import Detours.Zydis.Subset

namespace Detours

open Detours.Bytes Detours.Decoding Detours.Zydis

variable {w : Nat} {zydis : Api} {mode : MachineMode} {memory : Memory w} {address : BitVec w}
  {neededSize size fuel offset : Nat} {instructions front rest : List (zydis.Instruction mode)}
  {instruction : zydis.Instruction mode}

/-- The first `boundary` bytes at an address are whole instructions. -/
def IsBoundary (zydis : Api) (mode : MachineMode) (memory : Memory w) (address : BitVec w)
    (boundary : Nat) : Prop :=
  ∃ instructions : List (zydis.Instruction mode),
    memory.read address boundary = blockBytes instructions

/-- The instructions `compute_hook_size` counts, with their offsets. -/
def hookScan (zydis : Api) (memory : Memory w) (address : BitVec w) (neededSize : Nat) :
    List (Nat × Decoded) :=
  scan (zydis.decoder .long64) (hookWindow memory address) neededSize (neededSize + 1) 0

theorem computeHookSizeLoop_eq_scan :
    computeHookSizeLoop zydis memory address neededSize fuel offset =
      offset + ((scan (zydis.decoder .long64) (hookWindow memory address) neededSize fuel
        offset).map fun met => met.2.info.length).sum := by
  induction fuel generalizing offset with
  | zero => rfl
  | succ fuel ih =>
      simp only [computeHookSizeLoop, scan, Api.decoder]
      cases zydis.decode .long64 (hookWindow memory address offset) with
      | none => rfl
      | some decoded =>
          dsimp only
          split
          · rfl
          · rw [ih, List.map_cons, List.sum_cons, Nat.add_assoc]
            rfl

theorem computeHookSize_eq_hookScan :
    computeHookSize zydis memory address neededSize =
      ((hookScan zydis memory address neededSize).map fun met => met.2.info.length).sum :=
  computeHookSizeLoop_eq_scan.trans (Nat.zero_add _)

theorem isBoundary_iff (reads : zydis.ReadsInstruction mode)
    (content : memory.read address size = blockBytes instructions) (inside : offset < size) :
    IsBoundary zydis mode memory address offset ↔
      offset ∈ (located 0 instructions).map Prod.fst := by
  have length : (blockBytes instructions).length = size := by rw [← content, Memory.read_length]
  subst length
  rw [mem_located]
  constructor
  · intro boundary
    obtain ⟨front, bytes⟩ := boundary
    have position : (blockBytes front).length = offset := by rw [← bytes, Memory.read_length]
    have begins : blockBytes front <+: blockBytes instructions := by
      rw [← bytes, ← content, ← Memory.take_read (Nat.le_of_lt inside)]
      exact List.take_prefix _ _
    obtain ⟨rest, rfl⟩ := chunks_begin reads.selfDelimiting begins
    cases rest with
    | nil =>
        rw [List.append_nil] at inside
        omega
    | cons instruction rest =>
        exact ⟨front, instruction, rest, rfl, by rw [position, Nat.zero_add]⟩
  · intro met
    obtain ⟨front, instruction, rest, rfl, rfl⟩ := met
    refine ⟨front, ?_⟩
    rw [Nat.zero_add]
    exact (Api.read_blockBytes_append content).1

theorem hookWindow_item (reads : zydis.ReadsInstruction mode)
    (content : memory.read address size = blockBytes instructions)
    (split : instructions = front ++ instruction :: rest) :
    zydis.decode mode (hookWindow memory address (blockBytes front).length) =
      some instruction.item := by
  have length : (blockBytes instructions).length = size := by rw [← content, Memory.read_length]
  subst split
  rw [← length] at content
  have short := Api.Instruction.length_le instruction
  exact Api.decode_window reads content (Nat.le_trans short (by decide))

theorem hookScan_block {instructions : List (zydis.Instruction .long64)}
    (reads : zydis.ReadsInstruction .long64)
    (content : memory.read address (blockBytes instructions).length = blockBytes instructions)
    (below : StartsBelow neededSize instructions)
    (ended : neededSize ≤ (blockBytes instructions).length) :
    hookScan zydis memory address neededSize = located 0 instructions := by
  refine scan_located ?_ (fun instruction _ => instruction.length_pos reads.selfDelimiting)
    (by omega) (by omega)
  intro front instruction rest split
  rw [Nat.zero_add]
  exact ⟨below front instruction rest split, hookWindow_item reads content split⟩

/-- Both scans of a decodable prefix meet the same instructions. The first one ends at the
least boundary that is not before `neededSize`, whatever stands behind it, and the second
one, given just these bytes, annotates each instruction at its own address. -/
theorem computeHookSize_buildAnnotatedInstructions {memory : Memory 64} {address : BitVec 64}
    (leftover : BitVec 64 → Leftover) (reads : zydis.ReadsInstruction .long64)
    (decodes : PrefixDecodes zydis memory address neededSize) :
    let size := computeHookSize zydis memory address neededSize
    let scanned := hookScan zydis memory address neededSize
    IsLeast { boundary | neededSize ≤ boundary ∧
      IsBoundary zydis .long64 memory address boundary } size ∧
    size ≤ neededSize + 14 ∧
    (∀ other : Memory 64,
      (∀ index, index < size →
        other (address + BitVec.ofNat 64 index) = memory (address + BitVec.ofNat 64 index)) →
      computeHookSize zydis other address neededSize = size) ∧
    (∀ offset, offset < size →
      (offset ∈ scanned.map Prod.fst ↔ IsBoundary zydis .long64 memory address offset)) ∧
    (scanned.map fun met => met.2.info.length).sum = size ∧
    TrampolineBuilder.buildAnnotatedInstructions zydis leftover memory address size =
      scanned.map fun met =>
        TrampolineBuilder.annotated leftover (address + BitVec.ofNat 64 met.1) met.2 := by
  intro size scanned
  have reached : neededSize ≤ size := computeHookSize_reaches.mpr decodes
  obtain ⟨stolen⟩ := stolen_exists memory address neededSize reads
  have length : (blockBytes stolen.instructions).length = size := stolen.length_eq
  have met : scanned = located 0 stolen.instructions :=
    hookScan_block reads (length.symm ▸ stolen.bytes) stolen.startsBelow (by omega)
  refine ⟨⟨⟨reached, stolen.instructions, stolen.bytes⟩, ?_⟩, ?_, ?_, ?_, ?_, ?_⟩
  · intro boundary member
    obtain ⟨enough, boundary⟩ := member
    refine Nat.le_of_not_lt fun earlier => ?_
    obtain ⟨front, instruction, rest, split, rfl⟩ :=
      mem_located.mp ((isBoundary_iff reads stolen.bytes earlier).mp boundary)
    have start := stolen.startsBelow front instruction rest split
    omega
  · have bound := stolen.size_lt
    unfold maxInstructionLength at bound
    omega
  · intro other same
    exact computeHookSizeLoop_congr reads decodes fun index _ inside => same index inside
  · intro offset inside
    rw [met, isBoundary_iff reads stolen.bytes inside]
  · exact computeHookSize_eq_hookScan.symm
  · rw [TrampolineBuilder.buildAnnotatedInstructions_block reads _ stolen.bytes, met,
      ← TrampolineBuilder.annotateBlock_eq_map, BitVec.add_zero]

theorem computeHookSize_buildAnnotatedInstructions_mov :
    let lib := HookLib.holding (0x140001000 : BitVec 64) [0x50, 0xB8, 1, 0, 0, 0, 0x06]
    let leftover := (Environment.granting false (0 : BitVec 64)).leftover
    IsLeast { boundary | 5 ≤ boundary ∧
      IsBoundary subset .long64 lib.memory 0x140001000 boundary } 6 ∧
    (TrampolineBuilder.buildAnnotatedInstructions subset leftover lib.memory 0x140001000 6).map
      (·.instruction.length) = [1, 5] := by
  intro lib leftover
  have measured : computeHookSize subset lib.memory 0x140001000 5 = 6 := by decide +kernel
  obtain ⟨least, _, _, _, _, annotated⟩ := computeHookSize_buildAnnotatedInstructions leftover
    Subset.readsInstruction (computeHookSize_reaches.mp (show 5 ≤ _ by rw [measured]; decide))
  rw [measured] at least annotated
  refine ⟨least, ?_⟩
  rw [annotated, List.map_map]
  decide +kernel

end Detours

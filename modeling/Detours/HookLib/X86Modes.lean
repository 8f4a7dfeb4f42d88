import Detours.HookLib.Scans
import Detours.HookLib.X86

namespace Detours

open Detours.Bytes Detours.Decoding Detours.Zydis

section Relocate

variable {w : Nat} {zydis : Api} {mode : MachineMode} {memory : Memory w}
  {trampolineBase originalBase delta : BitVec w} {size fuel offset : Nat}

/-- The loop of `relocate` with the instructions it meets and their offsets as its result. -/
def relocateScanLoop (zydis : Api) (mode : MachineMode) (trampolineBase delta : BitVec w)
    (size : Nat) : Nat → Memory w → Nat → List (Nat × Decoded)
  | 0, _, _ => []
  | fuel + 1, memory, offset =>
      let instructionPtr := trampolineBase + BitVec.ofNat w offset
      match zydis.decode mode (memory.read instructionPtr (size - offset)) with
      | none => []
      | some instruction =>
          if offset < size then
            let next := offset + instruction.info.length
            (offset, instruction) ::
              if instruction.info.isRelative then
                if 32 < instruction.info.disp.size then []
                else relocateScanLoop zydis mode trampolineBase delta size fuel
                  (storeDisplacement memory instructionPtr instruction.info.disp delta) next
              else relocateScanLoop zydis mode trampolineBase delta size fuel memory next
          else []

def relocateScan (zydis : Api) (memory : Memory w) (trampolineBase originalBase : BitVec w)
    (size : Nat) : List (Nat × Decoded) :=
  relocateScanLoop zydis (buildMode w) trampolineBase (originalBase - trampolineBase) size
    (size + 1) memory 0

theorem relocateLoop_eq_foldl :
    (relocateLoop zydis mode trampolineBase delta size fuel memory offset).1 =
      (relocateScanLoop zydis mode trampolineBase delta size fuel memory offset).foldl
        (relocateMet trampolineBase delta) memory := by
  induction fuel generalizing memory offset with
  | zero => rfl
  | succ fuel ih =>
      rw [relocateLoop, relocateScanLoop]
      dsimp only
      cases zydis.decode mode
          (memory.read (trampolineBase + BitVec.ofNat w offset) (size - offset)) with
      | none => rfl
      | some instruction =>
          dsimp only
          by_cases opened : offset < size
          · rw [if_pos opened, if_pos opened, List.foldl_cons, relocateMet]
            cases relative : instruction.info.isRelative with
            | false => simp only [Bool.false_eq_true, if_false, false_and, ih]
            | true =>
                by_cases wide : 32 < instruction.info.disp.size
                · simp only [wide, if_true, not_true_eq_false, and_false, if_false,
                    List.foldl_nil]
                · simp only [wide, if_true, not_false_eq_true, and_self, if_false, ih]
          · rw [if_neg opened, if_neg opened]
            rfl

theorem relocateScanLoop_turn {decoded : Decoded} (opened : offset < size)
    (found : zydis.decode mode (memory.read (trampolineBase + BitVec.ofNat w offset)
      (size - offset)) = some decoded)
    (narrow : ¬(decoded.info.isRelative = true ∧ 32 < decoded.info.disp.size)) :
    relocateScanLoop zydis mode trampolineBase delta size (fuel + 1) memory offset =
      (offset, decoded) :: relocateScanLoop zydis mode trampolineBase delta size fuel
        (relocateMet trampolineBase delta memory (offset, decoded))
        (offset + decoded.info.length) := by
  rw [relocateScanLoop, relocateMet]
  simp only [found, if_pos opened]
  cases relative : decoded.info.isRelative with
  | false => simp only [Bool.false_eq_true, if_false, false_and]
  | true =>
      have small : ¬32 < decoded.info.disp.size := fun wide => narrow ⟨relative, wide⟩
      simp only [small, if_true, if_false, not_false_eq_true, and_self]

theorem relocateScanLoop_block (reads : zydis.ReadsInstruction mode)
    (inside : zydis.DisplacementInside mode) (fields : zydis.RelativeDisplacement mode)
    (room : size ≤ 2 ^ w) (instructions : List (zydis.Instruction mode))
    (enough : size < fuel + offset) (total : offset + (blockBytes instructions).length = size)
    (content : memory.read (trampolineBase + BitVec.ofNat w offset)
      (blockBytes instructions).length = blockBytes instructions) :
    relocateScanLoop zydis mode trampolineBase delta size fuel memory offset =
      located offset instructions := by
  induction instructions generalizing fuel memory offset with
  | nil =>
      have ended : offset = size := by simpa using total
      cases fuel with
      | zero => rfl
      | succ fuel =>
          rw [relocateScanLoop]
          cases zydis.decode mode
            (memory.read (trampolineBase + BitVec.ofNat w offset) (size - offset)) with
          | none => rfl
          | some instruction => exact if_neg (ended ▸ Nat.lt_irrefl _)
  | cons instruction rest ih =>
      have positive := instruction.length_pos reads.selfDelimiting
      have width : instruction.bytes.length = instruction.item.info.length := instruction.exact
      have following := relocateMet_following delta inside (total ▸ room) content
      rw [blockBytes_cons, List.length_append] at total
      have window : size - offset = (blockBytes (instruction :: rest)).length := by
        rw [blockBytes_cons, List.length_append]
        omega
      have found : zydis.decode mode (memory.read (trampolineBase + BitVec.ofNat w offset)
          (size - offset)) = some instruction.item := by
        rw [window, content, blockBytes_cons]
        exact instruction.decode_append reads.selfDelimiting _
      cases fuel with
      | zero => omega
      | succ fuel =>
          rw [relocateScanLoop_turn (by omega) found (narrow_of_fields fields instruction), ← width,
            ih (by omega) (by omega) following, located]

theorem relocateScan_block (reads : zydis.ReadsInstruction (buildMode w))
    (inside : zydis.DisplacementInside (buildMode w))
    (fields : zydis.RelativeDisplacement (buildMode w)) (room : size ≤ 2 ^ w)
    (instructions : List (zydis.Instruction (buildMode w)))
    (content : memory.read trampolineBase size = blockBytes instructions) :
    relocateScan zydis memory trampolineBase originalBase size = located 0 instructions := by
  have length : (blockBytes instructions).length = size := by rw [← content, Memory.read_length]
  exact relocateScanLoop_block reads inside fields room instructions (by omega) (by omega)
    (by rw [BitVec.add_zero, length, content])

end Relocate

section Modes

variable {w : Nat} {zydis : Api} {memory : Memory w} {address : BitVec w} {neededSize : Nat}

/-- Every instruction of the 32-bit decoding that starts before byte `neededSize` has the same
length when it is decoded in 64-bit mode. -/
def SameLengths (zydis : Api) (memory : Memory w) (address : BitVec w) (neededSize : Nat) : Prop :=
  ∀ offset, offset < neededSize → IsBoundary zydis .legacy32 memory address offset →
    ∃ narrow wide, zydis.decode .legacy32 (hookWindow memory address offset) = some narrow ∧
      zydis.decode .long64 (hookWindow memory address offset) = some wide ∧
      wide.info.length = narrow.info.length

theorem hookWindow_front {mode : MachineMode} {offset : Nat} {decoded : Decoded}
    (reads : zydis.ReadsInstruction mode)
    (found : zydis.decode mode (hookWindow memory address offset) = some decoded) :
    ∃ chunk : zydis.Instruction mode, chunk.bytes.length = decoded.info.length ∧
      memory.read (address + BitVec.ofNat w offset) decoded.info.length = chunk.bytes := by
  let chunk : zydis.Instruction mode := Chunk.front reads.selfDelimiting found
  refine ⟨chunk, chunk.exact, ?_⟩
  exact (Memory.take_read (Nat.le_trans decoded.info.length_le (by decide))).symm

theorem SameLengths.instructions (same : SameLengths zydis memory address neededSize)
    (reads : zydis.ReadsInstruction .long64) (reads32 : zydis.ReadsInstruction .legacy32)
    {fuel : Nat} {front : List (zydis.Instruction .legacy32)}
    (enough : neededSize ≤ fuel + (blockBytes front).length)
    (content : memory.read address (blockBytes front).length = blockBytes front) :
    ∃ (narrow : List (zydis.Instruction .legacy32)) (wide : List (zydis.Instruction .long64)),
      narrow.map (·.bytes.length) = wide.map (·.bytes.length) ∧
      memory.read (address + BitVec.ofNat w (blockBytes front).length)
        (blockBytes narrow).length = blockBytes narrow ∧
      memory.read (address + BitVec.ofNat w (blockBytes front).length)
        (blockBytes wide).length = blockBytes wide ∧
      neededSize ≤ (blockBytes front).length + (blockBytes wide).length ∧
      StartsBelow (neededSize - (blockBytes front).length) wide := by
  induction fuel generalizing front with
  | zero => exact ⟨[], [], rfl, rfl, rfl, by simpa using enough, .nil _⟩
  | succ fuel ih =>
      rcases Nat.lt_or_ge (blockBytes front).length neededSize with opened | reached
      · obtain ⟨small, large, narrowFound, wideFound, length⟩ := same _ opened ⟨front, content⟩
        obtain ⟨first, firstLength, firstBytes⟩ := hookWindow_front reads32 narrowFound
        obtain ⟨next, nextLength, nextBytes⟩ := hookWindow_front reads wideFound
        have advances := small.info.length_pos
        have total : (blockBytes (front ++ [first])).length =
            (blockBytes front).length + small.info.length := by
          rw [blockBytes_append, blockBytes_cons, blockBytes_nil, List.append_nil,
            List.length_append, firstLength]
        have longer : memory.read address (blockBytes (front ++ [first])).length =
            blockBytes (front ++ [first]) := by
          rw [total, Memory.read_add, content, firstBytes, blockBytes_append, blockBytes_cons,
            blockBytes_nil, List.append_nil]
        obtain ⟨narrow, wide, lengths, narrowBytes, wideBytes, ended, below⟩ :=
          ih (by omega) longer
        rw [total, BitVec.ofNat_add, ← BitVec.add_assoc] at narrowBytes wideBytes
        rw [total] at ended below
        refine ⟨first :: narrow, next :: wide, ?_, ?_, ?_, ?_, .cons (by omega) ?_⟩
        · rw [List.map_cons, List.map_cons, lengths, firstLength, nextLength, length]
        · rw [blockBytes_cons, List.length_append, firstLength, Memory.read_add, firstBytes,
            narrowBytes]
        · rw [blockBytes_cons, List.length_append, nextLength, Memory.read_add, nextBytes, length,
            wideBytes]
        · rw [blockBytes_cons, List.length_append, nextLength, length]
          omega
        · rwa [nextLength, length, Nat.sub_sub]
      · exact ⟨[], [], rfl, rfl, rfl, by simpa using reached, .nil _⟩

theorem SameLengths.cut (same : SameLengths zydis memory address neededSize)
    (reads : zydis.ReadsInstruction .long64) (reads32 : zydis.ReadsInstruction .legacy32) :
    ∃ (narrow : List (zydis.Instruction .legacy32)) (wide : List (zydis.Instruction .long64)),
      narrow.map (·.bytes.length) = wide.map (·.bytes.length) ∧
      memory.read address (blockBytes narrow).length = blockBytes narrow ∧
      memory.read address (blockBytes wide).length = blockBytes wide ∧
      neededSize ≤ (blockBytes wide).length ∧ StartsBelow neededSize wide := by
  have start : memory.read address (blockBytes ([] : List (zydis.Instruction .legacy32))).length =
      blockBytes ([] : List (zydis.Instruction .legacy32)) := rfl
  have found := same.instructions reads reads32 (Nat.le_add_right neededSize _) start
  simpa only [blockBytes_nil, List.length_nil, BitVec.add_zero, Nat.zero_add, Nat.sub_zero]
    using found

end Modes

namespace HookLib

variable {zydis : Api} {environment : Environment 32} {lib : HookLib 32}
  {originalFunction trampoline : BitVec 32}

/-- The stolen bytes are whole 32-bit instructions, enough of them for the jump, and `relocate`
meets them where `compute_hook_size` counted instructions. -/
def StealsWholeInstructions (zydis : Api) (environment : Environment 32) (lib : HookLib 32)
    (originalFunction trampoline : BitVec 32) : Prop :=
  let size := computeHookSize zydis lib.memory originalFunction 5
  IsBoundary zydis .legacy32 lib.memory originalFunction size ∧ 5 ≤ size ∧
  (relocateScan zydis (x86Trampoline (lib.withBlock environment trampoline (size + 5)).memory
      originalFunction trampoline size) trampoline originalFunction size).map Prod.fst =
    (hookScan zydis lib.memory originalFunction 5).map Prod.fst

theorem relocateScan_x86Trampoline {size : Nat} (environment : Environment 32)
    (reads32 : zydis.ReadsInstruction .legacy32) (inside : zydis.DisplacementInside .legacy32)
    (fields : zydis.RelativeDisplacement .legacy32) (small : size < 32)
    (fresh : Disjoint (span originalFunction size) (span trampoline (size + 5)))
    {instructions : List (zydis.Instruction .legacy32)}
    (content : lib.memory.read originalFunction size = blockBytes instructions) :
    relocateScan zydis (x86Trampoline (lib.withBlock environment trampoline (size + 5)).memory
      originalFunction trampoline size) trampoline originalFunction size =
      located 0 instructions := by
  have copied := x86Trampoline_read environment lib originalFunction trampoline small fresh
  exact relocateScan_block reads32 inside fields (by omega) instructions (copied.trans content)

/-- The 32-bit hook steals whole 32-bit instructions, as `relocate` sees them too, exactly when
the function's first instructions have the same lengths in 64-bit mode. -/
theorem stealsWholeInstructions_iff (reads : zydis.ReadsInstruction .long64)
    (reads32 : zydis.ReadsInstruction .legacy32) (inside : zydis.DisplacementInside .legacy32)
    (fields : zydis.RelativeDisplacement .legacy32)
    (fresh : Disjoint
      (span originalFunction (computeHookSize zydis lib.memory originalFunction 5))
      (span trampoline (computeHookSize zydis lib.memory originalFunction 5 + 5))) :
    StealsWholeInstructions zydis environment lib originalFunction trampoline ↔
      SameLengths zydis lib.memory originalFunction 5 := by
  have small : computeHookSize zydis lib.memory originalFunction 5 < 32 := x86_small reads
  constructor
  · intro steals offset early boundary
    obtain ⟨⟨narrow, content⟩, covers, offsets⟩ := steals
    obtain ⟨stolen⟩ := stolen_exists lib.memory originalFunction 5 reads
    have total := stolen.length_eq
    have narrowTotal : (blockBytes narrow).length =
        computeHookSize zydis lib.memory originalFunction 5 := by
      rw [← content, Memory.read_length]
    rw [relocateScan_x86Trampoline environment reads32 inside fields small fresh content,
      hookScan_block reads (total.symm ▸ stolen.bytes) stolen.startsBelow (by omega)] at offsets
    have lengths := lengths_of_located offsets (narrowTotal.trans total.symm)
    obtain ⟨before, instruction, after, split, position⟩ :=
      mem_located.mp ((isBoundary_iff reads32 content (by omega)).mp boundary)
    obtain ⟨front, next, rest, wideSplit, same, width⟩ := split_of_lengths lengths split
    rw [Nat.zero_add] at position
    subst position
    refine ⟨instruction.item, next.item, hookWindow_item reads32 content split, ?_,
      next.exact.symm.trans (width.trans instruction.exact)⟩
    rw [← same]
    exact hookWindow_item reads stolen.bytes wideSplit
  · intro same
    obtain ⟨narrow, wide, lengths, narrowBytes, wideBytes, ended, below⟩ := same.cut reads reads32
    obtain ⟨offsets, total⟩ := located_offsets 0 lengths
    have scanned := hookScan_block reads wideBytes below ended
    have measured : computeHookSize zydis lib.memory originalFunction 5 =
        (blockBytes narrow).length := by
      rw [computeHookSize_eq_hookScan, scanned, total]
      exact located_lengths 0 wide
    rw [← measured] at narrowBytes
    refine ⟨⟨narrow, narrowBytes⟩, by omega, ?_⟩
    rw [relocateScan_x86Trampoline environment reads32 inside fields small fresh narrowBytes,
      scanned, offsets]

theorem stealsWholeInstructions_push :
    StealsWholeInstructions oneByte (.granting false 0x500000)
      (HookLib.holding 0x401000 [0x50, 0xB8, 1, 0, 0, 0]) 0x401000 0x500000 := by
  let push : oneByte.Instruction .legacy32 := OneByte.Form.push.instruction .legacy32 [] rfl
  let mov : oneByte.Instruction .legacy32 :=
    OneByte.Form.movImmediate.instruction .legacy32 [1, 0, 0, 0] rfl
  let lib := HookLib.holding (0x401000 : BitVec 32) [0x50, 0xB8, 1, 0, 0, 0]
  have measured : computeHookSize oneByte lib.memory 0x401000 5 = 6 := by decide +kernel
  have content : lib.memory.read 0x401000 6 = blockBytes [push, mov] :=
    Memory.read_write _ _ (by decide)
  refine (stealsWholeInstructions_iff (OneByte.readsInstruction _) (OneByte.readsInstruction _)
    (OneByte.displacementInside _) (OneByte.relativeDisplacement _) ?_).mpr ?_
  · rw [measured]
    exact span_disjoint (by decide) (by decide)
  · intro offset early boundary
    have met : offset ∈ [0, 1] :=
      (isBoundary_iff (OneByte.readsInstruction _) content (by omega)).mp boundary
    rcases List.mem_pair.mp met with rfl | rfl
    · exact ⟨_, _, rfl, rfl, by decide +kernel⟩
    · exact ⟨_, _, rfl, rfl, by decide +kernel⟩

/-- `MOV EAX, [0x11223344]; MOV EAX, 1; RET`: in 64-bit mode the address has eight bytes, and
the second instruction is cut. -/
theorem computeHookSize_cuts_instruction :
    let mov : oneByte.Instruction .legacy32 :=
      OneByte.Form.movAddress.instruction .legacy32 [0x44, 0x33, 0x22, 0x11] rfl
    let next : oneByte.Instruction .legacy32 :=
      OneByte.Form.movImmediate.instruction .legacy32 [1, 0, 0, 0] rfl
    let lib := HookLib.holding (0x401000 : BitVec 32) (blockBytes [mov, next] ++ [0xC3])
    lib.memory.read 0x401000 10 = blockBytes [mov, next] ∧
    computeHookSize oneByte lib.memory 0x401000 5 = 9 ∧
    ¬IsBoundary oneByte .legacy32 lib.memory 0x401000 9 ∧
    ¬StealsWholeInstructions oneByte (.granting false 0x500000) lib 0x401000 0x500000 := by
  intro mov next lib
  have content : lib.memory.read 0x401000 10 = blockBytes [mov, next] := by decide +kernel
  have measured : computeHookSize oneByte lib.memory 0x401000 5 = 9 := by decide +kernel
  have cut : ¬IsBoundary oneByte .legacy32 lib.memory 0x401000 9 := by
    rw [isBoundary_iff (OneByte.readsInstruction _) content (by decide)]
    decide
  refine ⟨content, measured, cut, fun steals => cut ?_⟩
  have boundary := steals.1
  rwa [measured] at boundary

end HookLib

end Detours

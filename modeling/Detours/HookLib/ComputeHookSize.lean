import Detours.HookLib.State
import Detours.Zydis.Laws

namespace Detours

open Detours.Bytes Detours.Decoding Detours.Zydis

variable {w : Nat}

def hookWindow (memory : Memory w) (address : BitVec w) (offset : Nat) : List Byte :=
  memory.read (address + BitVec.ofNat w offset) 0x1000

/-- The `while` loop of `compute_hook_size`. The exit test stands behind the decode
of one instruction more. -/
def computeHookSizeLoop (zydis : Api) (memory : Memory w) (address : BitVec w)
    (neededSize : Nat) : Nat → Nat → Nat
  | 0, offset => offset
  | fuel + 1, offset =>
      match zydis.decode .long64 (hookWindow memory address offset) with
      | none => offset
      | some instruction =>
          if neededSize ≤ offset then offset
          else computeHookSizeLoop zydis memory address neededSize fuel
            (offset + instruction.info.length)

/-- Every turn of the loop advances the offset, so it ends within `neededSize + 1` turns. -/
def computeHookSize (zydis : Api) (memory : Memory w) (address : BitVec w)
    (neededSize : Nat) : Nat :=
  computeHookSizeLoop zydis memory address neededSize (neededSize + 1) 0

/-- Every instruction that starts before byte `neededSize` decodes. -/
def PrefixDecodes (zydis : Api) (memory : Memory w) (address : BitVec w)
    (neededSize : Nat) : Prop :=
  Covers (zydis.decoder .long64) (hookWindow memory address) neededSize 0

/-- The instructions in the first `size` bytes of a function, each starting before
byte `neededSize`. -/
structure Stolen (zydis : Api) (memory : Memory w) (address : BitVec w)
    (neededSize size : Nat) where
  instructions : List (zydis.Instruction .long64)
  bytes : memory.read address size = blockBytes instructions
  startsBelow : StartsBelow neededSize instructions

section ComputeHookSize

variable {zydis : Api} {memory : Memory w} {address : BitVec w} {neededSize size fuel offset : Nat}

theorem computeHookSizeLoop_reaches (enough : neededSize < fuel + offset) :
    neededSize ≤ computeHookSizeLoop zydis memory address neededSize fuel offset ↔
      Covers (zydis.decoder .long64) (hookWindow memory address) neededSize offset := by
  induction fuel generalizing offset with
  | zero =>
      have reached : neededSize ≤ offset := by omega
      exact ⟨fun _ => .reached reached, fun _ => reached⟩
  | succ fuel ih =>
      cases found : zydis.decode .long64 (hookWindow memory address offset) with
      | none =>
          simp only [computeHookSizeLoop, found]
          refine ⟨.reached, fun covered => ?_⟩
          cases covered with
          | reached enough => exact enough
          | item opened decoded rest =>
              simp only [Api.decoder, found] at decoded
              contradiction
      | some instruction =>
          have advances := instruction.info.length_pos
          simp only [computeHookSizeLoop, found]
          split
          · rename_i reached
            exact ⟨fun _ => .reached reached, fun _ => reached⟩
          · rename_i opened
            rw [ih (by omega)]
            refine ⟨fun rest => .item (by omega) found rest, fun covered => ?_⟩
            cases covered with
            | reached enough => exact absurd enough opened
            | item opened decoded rest =>
                simp only [Api.decoder, found, Option.some.injEq] at decoded
                subst decoded
                exact rest

/-- The scan reaches the needed size exactly when every instruction on the way decodes. -/
theorem computeHookSize_reaches :
    neededSize ≤ computeHookSize zydis memory address neededSize ↔
      PrefixDecodes zydis memory address neededSize :=
  computeHookSizeLoop_reaches (by omega)

theorem computeHookSizeLoop_instructions (memory : Memory w) (address : BitVec w)
    (reads : zydis.ReadsInstruction .long64) (enough : neededSize < fuel + offset) :
    ∃ instructions : List (zydis.Instruction .long64),
      computeHookSizeLoop zydis memory address neededSize fuel offset =
        offset + (blockBytes instructions).length ∧
      memory.read (address + BitVec.ofNat w offset) (blockBytes instructions).length =
        blockBytes instructions ∧
      StartsBelow (neededSize - offset) instructions := by
  induction fuel generalizing offset with
  | zero => exact ⟨[], rfl, rfl, .nil _⟩
  | succ fuel ih =>
      cases found : zydis.decode .long64 (hookWindow memory address offset) with
      | none => exact ⟨[], by simp only [computeHookSizeLoop, found]; rfl, rfl, .nil _⟩
      | some instruction =>
          have advances := instruction.info.length_pos
          have short := instruction.info.length_le
          simp only [computeHookSizeLoop, found]
          split
          · exact ⟨[], rfl, rfl, .nil _⟩
          · rename_i opened
            let chunk : Chunk (zydis.decoder .long64) := Chunk.front reads.selfDelimiting found
            have later : neededSize < fuel + (offset + instruction.info.length) := by omega
            obtain ⟨rest, size, bytes, below⟩ := ih later
            have width : chunk.bytes.length = instruction.info.length := chunk.exact
            have own : memory.read (address + BitVec.ofNat w offset) instruction.info.length =
                chunk.bytes :=
              (Memory.take_read (Nat.le_trans short (by decide))).symm
            refine ⟨chunk :: rest, ?_, ?_, StartsBelow.cons (by omega) ?_⟩
            · rw [size, blockBytes_cons, List.length_append, width, Nat.add_assoc]
            · rw [blockBytes_cons, List.length_append, width, Memory.read_add, own,
                BitVec.add_assoc, ← BitVec.ofNat_add, bytes]
            · rwa [width, Nat.sub_sub]

theorem stolen_exists (memory : Memory w) (address : BitVec w) (neededSize : Nat)
    (reads : zydis.ReadsInstruction .long64) :
    Nonempty (Stolen zydis memory address neededSize
      (computeHookSize zydis memory address neededSize)) := by
  obtain ⟨instructions, size, bytes, below⟩ := computeHookSizeLoop_instructions memory address reads
    (show neededSize < neededSize + 1 + 0 by omega)
  rw [Nat.zero_add] at size
  rw [BitVec.add_zero, ← size] at bytes
  exact ⟨⟨instructions, bytes, by simpa using below⟩⟩

theorem Stolen.length_eq (stolen : Stolen zydis memory address neededSize size) :
    (blockBytes stolen.instructions).length = size := by
  rw [← stolen.bytes, Memory.read_length]

theorem Stolen.size_lt (stolen : Stolen zydis memory address neededSize size) :
    size < neededSize + maxInstructionLength := by
  rw [← stolen.length_eq]
  exact stolen.startsBelow.length_lt (by decide)
    (fun instruction _ => Api.Instruction.length_le instruction)

end ComputeHookSize

section Congruence

variable {zydis : Api} {memory other : Memory w} {address : BitVec w}
  {neededSize fuel offset : Nat}

theorem decode_hookWindow_congr (reads : zydis.ReadsInstruction .long64) {decoded : Decoded}
    (found : zydis.decode .long64 (hookWindow memory address offset) = some decoded)
    (same : ∀ index, offset ≤ index → index < offset + decoded.info.length →
      other (address + BitVec.ofNat w index) = memory (address + BitVec.ofNat w index)) :
    zydis.decode .long64 (hookWindow other address offset) = some decoded := by
  have short : decoded.info.length ≤ 0x1000 :=
    Nat.le_trans decoded.info.length_le (by decide)
  have front : (hookWindow memory address offset).take decoded.info.length =
      (hookWindow other address offset).take decoded.info.length := by
    rw [hookWindow, hookWindow, Memory.take_read short, Memory.take_read short]
    apply Memory.read_congr
    intro index inside
    rw [BitVec.add_assoc, ← BitVec.ofNat_add, same _ (by omega) (by omega)]
  have carried := reads.prefixOnly found
    ((hookWindow other address offset).drop decoded.info.length)
  rwa [front, List.take_append_drop] at carried

theorem computeHookSizeLoop_of_reached (reached : neededSize ≤ offset) :
    computeHookSizeLoop zydis memory address neededSize fuel offset = offset := by
  cases fuel with
  | zero => rfl
  | succ fuel =>
      rw [computeHookSizeLoop]
      cases zydis.decode .long64 (hookWindow memory address offset) with
      | none => rfl
      | some instruction => exact if_pos reached

theorem computeHookSizeLoop_ge :
    offset ≤ computeHookSizeLoop zydis memory address neededSize fuel offset := by
  induction fuel generalizing offset with
  | zero => exact Nat.le_refl _
  | succ fuel ih =>
      rw [computeHookSizeLoop]
      cases zydis.decode .long64 (hookWindow memory address offset) with
      | none => exact Nat.le_refl _
      | some instruction =>
          dsimp only
          split
          · exact Nat.le_refl _
          · exact Nat.le_trans (Nat.le_add_right _ _) ih

theorem computeHookSizeLoop_congr (reads : zydis.ReadsInstruction .long64)
    (covered : Covers (zydis.decoder .long64) (hookWindow memory address) neededSize offset)
    (same : ∀ index, offset ≤ index →
      index < computeHookSizeLoop zydis memory address neededSize fuel offset →
      other (address + BitVec.ofNat w index) = memory (address + BitVec.ofNat w index)) :
    computeHookSizeLoop zydis other address neededSize fuel offset =
      computeHookSizeLoop zydis memory address neededSize fuel offset := by
  induction fuel generalizing offset with
  | zero => rfl
  | succ fuel ih =>
      cases covered with
      | reached enough => rw [computeHookSizeLoop_of_reached enough, computeHookSizeLoop_of_reached enough]
      | @item _ instruction opened found rest =>
          change zydis.decode .long64 (hookWindow memory address offset) = some instruction at found
          simp only [computeHookSizeLoop, found, if_neg (Nat.not_le.mpr opened)] at same ⊢
          have advanced : offset + instruction.info.length ≤
              computeHookSizeLoop zydis memory address neededSize fuel
                (offset + instruction.info.length) := computeHookSizeLoop_ge
          have carried := decode_hookWindow_congr reads found
            (fun index lower upper => same index lower (by omega))
          simp only [carried]
          exact ih rest (fun index lower upper => same index (by omega) upper)

theorem computeHookSize_congr (reads : zydis.ReadsInstruction .long64) {region : Set (BitVec w)}
    (decodes : PrefixDecodes zydis memory address neededSize)
    (changes : Memory.ChangesOnly region memory other)
    (room : computeHookSize zydis memory address neededSize ≤ 2 ^ w)
    (apart : Disjoint (span address (computeHookSize zydis memory address neededSize)) region) :
    computeHookSize zydis other address neededSize =
      computeHookSize zydis memory address neededSize := by
  refine computeHookSizeLoop_congr reads decodes fun index _ inside => ?_
  exact changes _ (Set.disjoint_left.mp apart
    ((add_ofNat_mem_span _ (Nat.lt_of_lt_of_le inside room)).mpr inside))

theorem computeHookSizeLoop_congr_window (reads : zydis.ReadsInstruction .long64)
    (same : ∀ index, index < neededSize + maxInstructionLength →
      other (address + BitVec.ofNat w index) = memory (address + BitVec.ofNat w index)) :
    computeHookSizeLoop zydis other address neededSize fuel offset =
      computeHookSizeLoop zydis memory address neededSize fuel offset := by
  induction fuel generalizing offset with
  | zero => rfl
  | succ fuel ih =>
      by_cases reached : neededSize ≤ offset
      · rw [computeHookSizeLoop_of_reached reached, computeHookSizeLoop_of_reached reached]
      · have agree : zydis.decode .long64 (hookWindow other address offset) =
            zydis.decode .long64 (hookWindow memory address offset) := by
          cases found : zydis.decode .long64 (hookWindow memory address offset) with
          | some decoded =>
              have short := decoded.info.length_le
              exact decode_hookWindow_congr reads found
                (fun index _ upper => same index (by omega))
          | none =>
              cases carried : zydis.decode .long64 (hookWindow other address offset) with
              | none => rfl
              | some decoded =>
                  have short := decoded.info.length_le
                  have back : zydis.decode .long64 (hookWindow memory address offset) =
                      some decoded :=
                    decode_hookWindow_congr reads carried
                      (fun index _ upper => (same index (by omega)).symm)
                  rw [found] at back
                  cases back
        rw [computeHookSizeLoop, computeHookSizeLoop, agree]
        cases zydis.decode .long64 (hookWindow memory address offset) with
        | none => rfl
        | some instruction => simp only [if_neg reached, ih]

/-- Whether or not the prefix decodes, only the bytes of instructions that start
before byte `neededSize` matter. -/
theorem computeHookSize_congr_window (reads : zydis.ReadsInstruction .long64)
    {region : Set (BitVec w)} (changes : Memory.ChangesOnly region memory other)
    (room : neededSize + maxInstructionLength ≤ 2 ^ w)
    (apart : Disjoint (span address (neededSize + maxInstructionLength)) region) :
    computeHookSize zydis other address neededSize =
      computeHookSize zydis memory address neededSize := by
  refine computeHookSizeLoop_congr_window reads fun index inside => ?_
  exact changes _ (Set.disjoint_left.mp apart
    ((add_ofNat_mem_span _ (Nat.lt_of_lt_of_le inside room)).mpr inside))

end Congruence

end Detours

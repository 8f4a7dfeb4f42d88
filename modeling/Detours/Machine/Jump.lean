import Detours.Bytes.Memory
import Mathlib.Logic.Relation

namespace Detours.Machine

open Detours.Bytes

section Words

variable {w : Nat}

def read32 (memory : Memory w) (address : BitVec w) : BitVec 32 :=
  BitVec.ofNat 32 (ofLittleEndian (memory.read address 4))

def read64 (memory : Memory w) (address : BitVec w) : BitVec 64 :=
  BitVec.ofNat 64 (ofLittleEndian (memory.read address 8))

def displacement (value : BitVec 32) : BitVec 64 := value.signExtend 64

theorem read32_eq {memory : Memory w} (address : BitVec w) {value : BitVec 32}
    (stored : memory.read address 4 = littleEndian 4 value.toNat) :
    read32 memory address = value := by
  have small := value.isLt
  rw [read32, stored, ofLittleEndian_littleEndian, Nat.mod_eq_of_lt (by omega),
    BitVec.ofNat_toNat, BitVec.setWidth_eq]

theorem read64_eq {memory : Memory w} (address : BitVec w) {value : BitVec 64}
    (stored : memory.read address 8 = littleEndian 8 value.toNat) :
    read64 memory address = value := by
  have small := value.isLt
  rw [read64, stored, ofLittleEndian_littleEndian, Nat.mod_eq_of_lt (by omega),
    BitVec.ofNat_toNat, BitVec.setWidth_eq]

theorem displacement_setWidth {difference : BitVec 64}
    (lower : -2 ^ 31 ≤ difference.toInt) (upper : difference.toInt < 2 ^ 31) :
    displacement (difference.setWidth 32) = difference := by
  apply BitVec.eq_of_toInt_eq
  have small := difference.isLt
  rw [BitVec.toInt_eq_toNat_bmod, Int.bmod_def] at lower upper
  rw [displacement, BitVec.toInt_signExtend, BitVec.toInt_setWidth, BitVec.toInt_eq_toNat_bmod]
  simp only [Nat.reduceLeDiff, Nat.min_eq_right, Int.bmod_def]
  omega

theorem toInt_sub_bounds {target source : BitVec 64}
    (below : source.toNat ≤ target.toNat + 2 ^ 31) (above : target.toNat < source.toNat + 2 ^ 31) :
    -2 ^ 31 ≤ (target - source).toInt ∧ (target - source).toInt < 2 ^ 31 := by
  have targetSmall := target.isLt
  have sourceSmall := source.isLt
  rw [BitVec.toInt_eq_toNat_bmod, BitVec.toNat_sub, Int.bmod_def]
  omega

end Words

/-- `E9 cd`: jump near, relative to the next instruction. -/
def jumpRel32 (disp : BitVec 32) : List Byte := 0xE9 :: littleEndian 4 disp.toNat

/-- `FF 25 cd`: jump to the address stored at a displacement from the next instruction. -/
def jumpQword (disp : BitVec 32) : List Byte := 0xFF :: 0x25 :: littleEndian 4 disp.toNat

@[simp] theorem jumpRel32_length (disp : BitVec 32) : (jumpRel32 disp).length = 5 := by
  simp [jumpRel32]

@[simp] theorem jumpQword_length (disp : BitVec 32) : (jumpQword disp).length = 6 := by
  simp [jumpQword]

def jumpTarget (memory : Memory 64) (rip : BitVec 64) : Option (BitVec 64) :=
  if memory rip = 0xE9 then
    some (rip + 5 + displacement (read32 memory (rip + 1)))
  else if memory rip = 0xFF ∧ memory (rip + 1) = 0x25 then
    some (read64 memory (rip + 6 + displacement (read32 memory (rip + 2))))
  else none

/-- The bytes that decide where the jump at `rip` goes: opcode, displacement and, for the
indirect jump, the stored address. -/
def jumpBytes (memory : Memory 64) (rip : BitVec 64) : Set (BitVec 64) :=
  if memory rip = 0xE9 then span rip 5
  else if memory rip = 0xFF ∧ memory (rip + 1) = 0x25 then
    span rip 6 ∪ span (rip + 6 + displacement (read32 memory (rip + 2))) 8
  else span rip 2

def step (memory : Memory 64) (rip : BitVec 64) : Option (BitVec 64) :=
  if memory rip = 0x90 then some (rip + 1) else jumpTarget memory rip

def Reaches (memory : Memory 64) : BitVec 64 → BitVec 64 → Prop :=
  Relation.ReflTransGen (fun rip next => step memory rip = some next)

variable {memory : Memory 64} {rip next target : BitVec 64} {disp : BitVec 32}

theorem Reaches.step (taken : step memory rip = some next) : Reaches memory rip next :=
  Relation.ReflTransGen.single taken

theorem Reaches.trans (first : Reaches memory rip next) (second : Reaches memory next target) :
    Reaches memory rip target :=
  Relation.ReflTransGen.trans first second

theorem step_of_jumpTarget (taken : jumpTarget memory rip = some target) :
    Machine.step memory rip = some target := by
  unfold Machine.step
  split
  · rename_i nop
    simp [jumpTarget, nop] at taken
  · exact taken

theorem jumpTarget_jumpRel32 (stored : memory.read rip 5 = jumpRel32 disp) :
    jumpTarget memory rip = some (rip + 5 + displacement disp) := by
  rw [jumpRel32, Memory.read, List.cons.injEq] at stored
  rw [jumpTarget, if_pos stored.1, read32_eq _ stored.2]

theorem jumpTarget_jumpQword (stored : memory.read rip 6 = jumpQword disp) :
    jumpTarget memory rip = some (read64 memory (rip + 6 + displacement disp)) := by
  rw [jumpQword, Memory.read, Memory.read, List.cons.injEq, List.cons.injEq] at stored
  obtain ⟨first, second, rest⟩ := stored
  rw [BitVec.add_assoc] at rest
  rw [jumpTarget, if_neg (by rw [first]; decide), if_pos ⟨first, second⟩]
  rw [read32_eq (rip + 2) rest]

def jumpTarget32 (memory : Memory 32) (eip : BitVec 32) : Option (BitVec 32) :=
  if memory eip = 0xE9 then some (eip + 5 + read32 memory (eip + 1)) else none

theorem jumpTarget32_to {memory : Memory 32} {eip target : BitVec 32}
    (stored : memory.read eip 5 = jumpRel32 (target - (eip + 5))) :
    jumpTarget32 memory eip = some target := by
  rw [jumpRel32, Memory.read, List.cons.injEq] at stored
  rw [jumpTarget32, if_pos stored.1, read32_eq _ stored.2, add_sub_cancel]

theorem jumpTarget_congr {other : Memory 64}
    (same : ∀ address ∈ jumpBytes memory rip, other address = memory address) :
    jumpTarget other rip = jumpTarget memory rip := by
  have next {size : Nat} (longer : 2 ≤ size) (small : size ≤ 2 ^ 64) : rip + 1 ∈ span rip size :=
    (add_ofNat_mem_span 1 (by decide)).mpr longer
  unfold jumpBytes at same
  by_cases direct : memory rip = 0xE9
  · rw [if_pos direct] at same
    have opcode := same rip (base_mem_span (by decide))
    have field : other.read (rip + 1) 4 = memory.read (rip + 1) 4 :=
      Memory.read_eq_of_agree (by decide) fun address inside =>
        same address (span_add_subset 1 (by decide) (by decide) inside)
    rw [jumpTarget, jumpTarget, opcode, if_pos direct, if_pos direct, read32, read32, field]
  · rw [if_neg direct] at same
    by_cases indirect : memory rip = 0xFF ∧ memory (rip + 1) = 0x25
    · rw [if_pos indirect] at same
      have opcode := same rip (.inl (base_mem_span (by decide)))
      have second := same (rip + 1) (.inl (next (by decide) (by decide)))
      have field : other.read (rip + 2) 4 = memory.read (rip + 2) 4 :=
        Memory.read_eq_of_agree (by decide) fun address inside =>
          same address (.inl (span_add_subset 2 (by decide) (by decide) inside))
      have displacement : read32 other (rip + 2) = read32 memory (rip + 2) := by
        rw [read32, read32, field]
      have slot := Memory.read_eq_of_agree (by decide) fun address inside =>
        same address (.inr inside)
      rw [jumpTarget, jumpTarget, opcode, second, if_neg direct, if_neg direct, if_pos indirect,
        if_pos indirect, displacement, read64, read64, slot]
    · rw [if_neg indirect] at same
      have opcode := same rip (base_mem_span (by decide))
      have second := same (rip + 1) (next (by decide) (by decide))
      rw [jumpTarget, jumpTarget, opcode, second]
      simp only [if_neg direct, if_neg indirect]

theorem jumpTarget_of_changesOnly {region : Set (BitVec 64)} {after : Memory 64}
    (changes : Memory.ChangesOnly region memory after)
    (apart : Disjoint region (jumpBytes memory rip)) :
    jumpTarget after rip = jumpTarget memory rip :=
  jumpTarget_congr fun address inside => changes address (Set.disjoint_right.mp apart inside)

theorem jumpTarget_rel32_to
    (stored : memory.read rip 5 = jumpRel32 ((target - (rip + 5)).setWidth 32))
    (bounds : -2 ^ 31 ≤ (target - (rip + 5)).toInt ∧ (target - (rip + 5)).toInt < 2 ^ 31) :
    jumpTarget memory rip = some target := by
  rw [jumpTarget_jumpRel32 stored, displacement_setWidth bounds.1 bounds.2, add_sub_cancel]

theorem jumpTarget_qword_to {slot : BitVec 64}
    (stored : memory.read rip 6 = jumpQword ((slot - (rip + 6)).setWidth 32))
    (bounds : -2 ^ 31 ≤ (slot - (rip + 6)).toInt ∧ (slot - (rip + 6)).toInt < 2 ^ 31) :
    jumpTarget memory rip = some (read64 memory slot) := by
  rw [jumpTarget_jumpQword stored, displacement_setWidth bounds.1 bounds.2, add_sub_cancel]

end Detours.Machine

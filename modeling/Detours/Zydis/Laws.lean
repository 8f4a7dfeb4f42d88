import Detours.Bytes.Memory
import Detours.Decoding.Block
import Detours.Zydis.Types

namespace Detours.Zydis

open Detours.Bytes Detours.Decoding

/-! What the code relies on of Zydis. Each law is a separate hypothesis, so that a
result names the documented facts it uses and no others. -/

/-- A 32-bit displacement relative to the instruction pointer. -/
def Decoded.hasDisplacement (decoded : Decoded) : Bool :=
  decoded.info.isRelative && decoded.info.disp.size == 32

namespace Api

variable {zydis : Api} {mode : MachineMode}

def decoder (zydis : Api) (mode : MachineMode) : Decoder Byte Decoded where
  decode := zydis.decode mode
  length := fun decoded => decoded.info.length

abbrev Instruction (zydis : Api) (mode : MachineMode) := Chunk (zydis.decoder mode)

/-- A decode depends on the bytes of the instruction only, and on the buffer
being long enough for them. -/
structure ReadsInstruction (zydis : Api) (mode : MachineMode) : Prop where
  bounded : ∀ {buffer decoded}, zydis.decode mode buffer = some decoded →
    decoded.info.length ≤ buffer.length
  prefixOnly : ∀ {buffer decoded}, zydis.decode mode buffer = some decoded →
    ∀ rest, zydis.decode mode (buffer.take decoded.info.length ++ rest) = some decoded

theorem ReadsInstruction.selfDelimiting (reads : zydis.ReadsInstruction mode) :
    (zydis.decoder mode).SelfDelimiting where
  positive := fun {_ decoded} _ => decoded.info.length_pos
  bounded := reads.bounded
  prefixOnly := reads.prefixOnly

/-- The displacement field of a relative instruction lies inside the instruction. -/
def DisplacementInside (zydis : Api) (mode : MachineMode) : Prop :=
  ∀ {buffer decoded}, zydis.decode mode buffer = some decoded → decoded.info.isRelative →
    decoded.info.disp.offset + decoded.info.disp.size / 8 ≤ decoded.info.length

/-- `raw.disp` of a relative instruction: there is no displacement, or it has 32
bits and `value` is its sign extension. -/
def RelativeDisplacement (zydis : Api) (mode : MachineMode) : Prop :=
  ∀ {buffer decoded}, zydis.decode mode buffer = some decoded → decoded.info.isRelative →
    decoded.info.disp.size = 0 ∨
    (decoded.info.disp.size = 32 ∧
      (buffer.drop decoded.info.disp.offset).take 4 = littleEndian 4 decoded.info.disp.value.toNat)

/-- The length of an instruction does not depend on the value of its displacement. -/
def LengthIgnoresDisplacement (zydis : Api) (mode : MachineMode) : Prop :=
  ∀ {buffer decoded}, zydis.decode mode buffer = some decoded → decoded.hasDisplacement →
    ∀ field : List Byte, field.length = 4 → ∃ other,
      zydis.decode mode (Memory.overwrite buffer decoded.info.disp.offset field) = some other ∧
      other.info.length = decoded.info.length

def FitsField {w : Nat} (bits : Nat) (value : BitVec w) : Prop :=
  -2 ^ (bits - 1) ≤ value.toInt ∧ value.toInt < 2 ^ (bits - 1)

instance {w : Nat} (bits : Nat) (value : BitVec w) : Decidable (FitsField bits value) :=
  inferInstanceAs (Decidable (_ ∧ _))

/-- A relative immediate is described by `raw.imm[0]`, whose value fits its field;
such an instruction has no displacement. -/
def RelativeImmediate (zydis : Api) (mode : MachineMode) (w : Nat) : Prop :=
  ∀ {buffer decoded}, zydis.decode mode buffer = some decoded → decoded.info.imm.isRelative →
    decoded.info.disp.size = 0 ∧
      FitsField decoded.info.imm.size (decoded.info.imm.value.setWidth w)

theorem Instruction.decode_bytes (instruction : zydis.Instruction mode) :
    zydis.decode mode instruction.bytes = some instruction.item :=
  instruction.decoded

theorem Instruction.length_le (instruction : zydis.Instruction mode) :
    instruction.bytes.length ≤ maxInstructionLength := by
  rw [instruction.exact]
  exact instruction.item.info.length_le

section Streams

variable {w size : Nat} {memory : Memory w} {address : BitVec w}
  {front rest : List (zydis.Instruction mode)} {instruction : zydis.Instruction mode}

theorem read_blockBytes_append
    (content : memory.read address (blockBytes (front ++ rest)).length = blockBytes (front ++ rest)) :
    memory.read address (blockBytes front).length = blockBytes front ∧
      memory.read (address + BitVec.ofNat w (blockBytes front).length) (blockBytes rest).length =
        blockBytes rest := by
  rw [blockBytes_append, List.length_append, Memory.read_add] at content
  exact List.append_inj content Memory.read_length

theorem decode_window (reads : zydis.ReadsInstruction mode)
    (content : memory.read address (blockBytes (front ++ instruction :: rest)).length =
      blockBytes (front ++ instruction :: rest)) (room : instruction.bytes.length ≤ size) :
    zydis.decode mode (memory.read (address + BitVec.ofNat w (blockBytes front).length) size) =
      some instruction.item := by
  have following := (read_blockBytes_append content).2
  rw [blockBytes_cons, List.length_append, Memory.read_add] at following
  have own := (List.append_inj following Memory.read_length).1
  obtain ⟨behind, rfl⟩ := Nat.exists_eq_add_of_le room
  rw [Memory.read_add, own]
  exact instruction.decode_append reads.selfDelimiting _

end Streams

end Api

def Decoded.branchTarget {w : Nat} (decoded : Decoded) (address : BitVec w) : BitVec w :=
  address + BitVec.ofNat w decoded.info.length + decoded.info.imm.value.setWidth w

/-- A branch whose value is counted from more bytes than it has falls short of its goal. -/
theorem Decoded.branchTarget_of_shorter {decoded : Decoded} {address entry : BitVec 64}
    {missing : Nat} (value : decoded.info.imm.value =
      entry - (address + BitVec.ofNat 64 (decoded.info.length + missing))) :
    decoded.branchTarget address = entry - BitVec.ofNat 64 missing := by
  rw [branchTarget, BitVec.setWidth_eq, value, BitVec.ofNat_add, ← add_assoc, ← add_sub_assoc,
    add_sub_add_left_eq_sub]

theorem Decoded.branchTarget_eq_iff {decoded : Decoded} {address entry : BitVec 64} {length : Nat}
    (short : length ≤ maxInstructionLength)
    (value : decoded.info.imm.value = entry - (address + BitVec.ofNat 64 length)) :
    decoded.branchTarget address = entry ↔ decoded.info.length = length := by
  have ownShort := decoded.info.length_le
  unfold maxInstructionLength at short ownShort
  rw [branchTarget, BitVec.setWidth_eq, value, ← eq_sub_iff_add_eq, sub_sub_cancel, add_right_inj,
    ← BitVec.toNat_inj, BitVec.toNat_ofNat, BitVec.toNat_ofNat]
  omega

end Detours.Zydis

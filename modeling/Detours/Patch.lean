import Detours.Machine.Jump

namespace Detours

open Detours.Bytes Detours.Machine

/-! The two ways the library writes a jump. `HookLib` and `TrampolineBuilder` each
have a copy of both functions. -/

variable {w : Nat} {memory : Memory w} {source target : BitVec w}

/-- The opcode, then a 32-bit store of the truncated distance behind it. -/
def storeJump (memory : Memory w) (source target : BitVec w) : Memory w :=
  (memory.write source [0xE9]).write (source + 1) (littleEndian 4 (target - (source + 5)).toNat)

/-- The jump is assembled in a six byte buffer and copied. -/
def storeQwordJump (memory : Memory w) (source target : BitVec w) : Memory w :=
  let disp := target - (source + 6)
  memory.write source (Memory.overwrite [0xFF, 0x25, 0, 0, 0, 0] 2 (littleEndian 4 disp.toNat))

theorem littleEndian_setWidth (value : BitVec w) :
    littleEndian 4 (value.setWidth 32).toNat = littleEndian 4 value.toNat := by
  rw [littleEndian_inj, BitVec.toNat_setWidth]
  exact Nat.mod_mod_of_dvd _ (by decide)

theorem storeJump_eq (room : 5 ≤ 2 ^ w) :
    storeJump memory source target =
      memory.write source (jumpRel32 ((target - (source + 5)).setWidth 32)) := by
  rw [storeJump, jumpRel32, littleEndian_setWidth]
  exact Memory.write_append [0xE9] (by simpa using room)

theorem storeQwordJump_eq :
    storeQwordJump memory source target =
      memory.write source (jumpQword ((target - (source + 6)).setWidth 32)) := by
  rw [storeQwordJump, jumpQword, littleEndian_setWidth, Memory.overwrite, littleEndian_length]
  simp

end Detours

import Detours.HookLib.Paths

namespace Detours

open Detours.Bytes Detours.Decoding

/-! A process with one function in it, under an operating system that has all other
memory free: the smallest surroundings in which a call takes the one path or the other. -/

/-- Every region is free. An address that is asked for is granted if `inPlace`, and
`elsewhere` when none is asked for. -/
def Environment.granting {w : Nat} (inPlace : Bool) (elsewhere : BitVec w) : Environment w where
  allocationGranularity := 0x10000
  pageSize := 0x1000
  virtualQuery := fun _ => some { state := memFree, regionSize := 0x10000 }
  virtualAlloc := fun address _ =>
    if address = 0 then some elsewhere else if inPlace then some address else none
  leftover := fun _ =>
    { operands := List.replicate Zydis.maxOperandCount default, size := 0, operands_length := rfl }

/-- No hooks, and `code` at the function's address. -/
def HookLib.holding {w : Nat} (function : BitVec w) (code : List Byte) : HookLib w where
  memory := Memory.write (fun _ => 0) function code
  protection := fun _ => 0x20
  allocations := []
  activeHooks := fun _ => none

theorem holding_memory_eq_zero {w : Nat} {base function : BitVec w} {size : Nat} {code : List Byte}
    (apart : Disjoint (span base size) (span function code.length)) :
    ∀ address ∈ span base size, (HookLib.holding function code).memory address = 0 := by
  intro address inside
  change Memory.write (fun _ => 0) function code address = 0
  rw [Memory.write_changesOnly address (Set.disjoint_left.mp apart inside)]

def Stolen.ofHolding {zydis : Zydis.Api} {w neededSize : Nat} (function : BitVec w)
    (instructions : List (zydis.Instruction .long64))
    (last : (blockBytes instructions.dropLast).length < neededSize)
    (room : (blockBytes instructions).length ≤ 2 ^ w) :
    Stolen zydis (HookLib.holding function (blockBytes instructions)).memory function neededSize
      (blockBytes instructions).length where
  instructions
  bytes := Memory.read_write _ _ room
  startsBelow := .of_last last

def nextRegion (function : BitVec 64) : BitVec 64 := function - function % 0x10000 + 0x10000

variable {inPlace : Bool} {elsewhere function address : BitVec 64} {size : Nat}

theorem granting_virtualAlloc (nonzero : address ≠ 0) :
    (Environment.granting inPlace elsewhere).virtualAlloc address size =
      if inPlace then some address else none :=
  if_neg nonzero

theorem granting_virtualAlloc_zero {w : Nat} {elsewhere : BitVec w} :
    (Environment.granting inPlace elsewhere).virtualAlloc 0 size = some elsewhere := by
  simp [Environment.granting]

theorem granting_reservesInPlace : (Environment.granting inPlace elsewhere).ReservesInPlace where
  granularity := rfl
  inPlace := by
    intro address base size nonzero _ granted
    rw [granting_virtualAlloc nonzero] at granted
    split at granted
    · exact (Option.some.inj granted).symm
    · cases granted

theorem nextRegion_toNat (upper : function.toNat < 2 ^ 47) :
    (nextRegion function).toNat = function.toNat - function.toNat % 0x10000 + 0x10000 := by
  rw [nextRegion, BitVec.toNat_add, BitVec.toNat_sub, BitVec.toNat_umod]
  simp
  omega

theorem nextRegion_ne_zero (upper : function.toNat < 2 ^ 47) : nextRegion function ≠ 0 := by
  have position := nextRegion_toNat upper
  intro zero
  rw [zero] at position
  simp at position

theorem searchAround_granting (inPlace : Bool) (elsewhere : BitVec 64) (upper : function.toNat < 2 ^ 47) :
    searchAround (Environment.granting inPlace elsewhere) function 0x500 =
      some (some (nextRegion function)) := by
  have position := nextRegion_toNat upper
  have granularity : (Environment.granting inPlace elsewhere).allocationGranularity.setWidth 64 =
      (0x10000 : BitVec 64) := rfl
  apply searchAround_first
  · rw [granularity, nextRegion]
  · rw [BitVec.lt_def, position, BitVec.toNat_sub, BitVec.toNat_add]
    simp
    omega
  · simp [regionUsable, Environment.granting, memFree]

theorem allocateAround2gb_granting {lib : HookLib 64} (upper : function.toNat < 2 ^ 47) :
    allocateAround2gb (Environment.granting true elsewhere) lib function 0x500 =
      some (lib.withBlock (Environment.granting true elsewhere) (nextRegion function) 0x500,
        some (nextRegion function)) := by
  have search := searchAround_granting true elsewhere upper
  rw [allocateAround2gb]
  generalize searchAround _ function 0x500 = found at search ⊢
  subst search
  rw [Option.map_some]
  exact congrArg some (virtualAlloc_some (granting_virtualAlloc (nextRegion_ne_zero upper)))

theorem chosenBlock_granting_near (upper : function.toNat < 2 ^ 47) :
    HookLib.chosenBlock (Environment.granting true elsewhere) function =
      some (some (.near, nextRegion function)) := by
  have search := searchAround_granting true elsewhere upper
  rw [HookLib.chosenBlock]
  generalize searchAround _ function 0x500 = found at search ⊢
  subst search
  rw [Option.map_some, HookLib.blockFor, Option.bind_some,
    granting_virtualAlloc (nextRegion_ne_zero upper)]
  rfl

theorem chosenBlock_granting_far (upper : function.toNat < 2 ^ 47) :
    HookLib.chosenBlock (Environment.granting false elsewhere) function =
      some (some (.far, elsewhere)) := by
  have search := searchAround_granting false elsewhere upper
  rw [HookLib.chosenBlock]
  generalize searchAround _ function 0x500 = found at search ⊢
  subst search
  rw [Option.map_some, HookLib.blockFor, Option.bind_some,
    granting_virtualAlloc (nextRegion_ne_zero upper), granting_virtualAlloc_zero]
  rfl

/-- An operating system whose memory in front of an address is taken. -/
def Environment.freeFrom (limit : BitVec 64) : Environment 64 :=
  { Environment.granting true (0 : BitVec 64) with
    virtualQuery := fun address =>
      some { state := if address < limit then 0x1000 else memFree, regionSize := 0x10000 } }

theorem freeFrom_reservesInPlace (limit : BitVec 64) :
    (Environment.freeFrom limit).ReservesInPlace where
  granularity := rfl
  inPlace := by
    intro address base size nonzero aligned granted
    have same : (Environment.granting true (0 : BitVec 64)).virtualAlloc address size = some base :=
      granted
    exact granting_reservesInPlace.inPlace nonzero aligned same

theorem chosenBlock_freeFrom :
    HookLib.chosenBlock (.freeFrom 0x140020000) 0x140001000 =
      some (some (.near, 0x140020000)) := by
  have search : searchAround (.freeFrom 0x140020000) 0x140001000 0x500 =
      some (some 0x140020000) := by
    have fuel : searchFuel = (2 ^ 64 - 1) + 1 := by decide
    rw [searchAround, fuel, searchHigher_next (by decide) (by decide),
      searchHigher_first (by decide) (by decide) (by decide)]
    rfl
  rw [HookLib.chosenBlock]
  generalize searchAround _ _ _ = found at search ⊢
  subst search
  rfl

end Detours

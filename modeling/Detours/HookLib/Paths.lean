import Detours.HookLib.Model

namespace Detours

open Detours.Bytes Detours.Decoding Detours.Zydis

inductive Path where
  | near
  | far
deriving Repr, DecidableEq

/-- How many bytes the path's jump needs. -/
def Path.neededSize : Path → Nat
  | .near => 5
  | .far => 14

/-- How many bytes the path asks `VirtualAlloc` for. -/
def Path.blockSize : Path → Nat
  | .near => 0x500
  | .far => 0x1000

theorem Path.blockSize_pos (path : Path) : 0 < path.blockSize := by
  cases path <;> decide

namespace HookLib

def blockFor (environment : Environment 64) (found : Option (BitVec 64)) :
    Option (Path × BitVec 64) :=
  match found.bind fun address => environment.virtualAlloc address 0x500 with
  | some trampoline => some (.near, trampoline)
  | none => (environment.virtualAlloc 0 0x1000).map fun trampoline => (.far, trampoline)

/-- The path a call takes and the block it gets. The outer `none` is a search that
does not end, the inner one a call without a block. -/
def chosenBlock (environment : Environment 64) (originalFunction : BitVec 64) :
    Option (Option (Path × BitVec 64)) :=
  (searchAround environment originalFunction 0x500).map (blockFor environment)

def install (path : Path) (zydis : Api) (environment : Environment 64) (lib : HookLib 64)
    (originalFunction targetFunction trampoline : BitVec 64) : HookLib 64 × Nat :=
  match path with
  | .near => installNear zydis environment lib originalFunction targetFunction trampoline
  | .far => installFar zydis environment lib originalFunction targetFunction trampoline

def hooked (path : Path) (zydis : Api) (environment : Environment 64) (lib : HookLib 64)
    (originalFunction targetFunction trampoline : BitVec 64) : HookLib 64 :=
  recordHook
    (install path zydis environment (lib.withBlock environment trampoline path.blockSize)
      originalFunction targetFunction trampoline)
    originalFunction trampoline

/-- How many bytes of the function the path steals, measured before the call. -/
def stolenSize (path : Path) (zydis : Api) (lib : HookLib 64) (originalFunction : BitVec 64) : Nat :=
  computeHookSize zydis lib.memory originalFunction path.neededSize

/-- How many bytes the call patches. It measures when the block is already there. -/
def patchedSize (path : Path) (zydis : Api) (environment : Environment 64) (lib : HookLib 64)
    (originalFunction trampoline : BitVec 64) : Nat :=
  computeHookSize zydis (lib.withBlock environment trampoline path.blockSize).memory
    originalFunction path.neededSize

def hookCode (path : Path) (originalFunction trampoline : BitVec 64) (size : Nat) :
    Set (BitVec 64) :=
  span originalFunction size ∪ span trampoline path.blockSize

variable {zydis : Api} {environment : Environment 64} {lib after : HookLib 64}
  {originalFunction targetFunction trampoline : BitVec 64} {path : Path}

theorem applyHookX64_eq :
    applyHookX64 zydis environment lib originalFunction targetFunction =
      (chosenBlock environment originalFunction).map fun block =>
        match block with
        | none => (lib, none)
        | some (path, trampoline) =>
            (hooked path zydis environment lib originalFunction targetFunction trampoline,
              some trampoline) := by
  unfold applyHookX64 allocateAround2gb chosenBlock
  generalize searchAround environment originalFunction 0x500 = search
  rcases search with _ | _ | address
  · simp only [Option.map_none]
  · simp only [virtualAlloc, Option.map_some, blockFor, Option.bind_none]
    cases environment.virtualAlloc 0 0x1000 with
    | none => simp only [Option.map_none]
    | some base => simp only [Option.map_some, hooked, install, Path.blockSize]
  · simp only [virtualAlloc, Option.map_some, blockFor, Option.bind_some]
    cases environment.virtualAlloc address 0x500 with
    | some base => simp only [hooked, install, Path.blockSize]
    | none =>
        cases environment.virtualAlloc 0 0x1000 with
        | none => simp only [Option.map_none]
        | some base => simp only [Option.map_some, hooked, install, Path.blockSize]

theorem chosenBlock_near
    (chosen : chosenBlock environment originalFunction = some (some (.near, trampoline))) :
    ∃ address, searchAround environment originalFunction 0x500 = some (some address) ∧
      environment.virtualAlloc address 0x500 = some trampoline := by
  unfold chosenBlock at chosen
  generalize searchAround environment originalFunction 0x500 = search at chosen ⊢
  rcases search with _ | _ | address
  · simp only [Option.map_none, reduceCtorEq] at chosen
  · simp [blockFor] at chosen
  · cases near : environment.virtualAlloc address 0x500 with
    | none => simp [blockFor, near] at chosen
    | some base =>
        simp only [Option.map_some, blockFor, Option.bind_some, near, Option.some.injEq,
          Prod.mk.injEq, true_and] at chosen
        exact ⟨address, rfl, by rw [near, chosen]⟩

theorem applyHookX64_of_chosenBlock (zydis : Api) (lib : HookLib 64) (targetFunction : BitVec 64)
    (chosen : chosenBlock environment originalFunction = some (some (path, trampoline))) :
    applyHookX64 zydis environment lib originalFunction targetFunction =
      some (hooked path zydis environment lib originalFunction targetFunction trampoline,
        some trampoline) := by
  rw [applyHookX64_eq, chosen]
  rfl

/-- A call that takes `path` on a decodable function, with a block apart from the
`size` bytes it steals. -/
structure Installation (path : Path) (zydis : Api) (lib : HookLib 64)
    (originalFunction trampoline : BitVec 64) (size : Nat) : Prop where
  reads : zydis.ReadsInstruction .long64
  decodes : PrefixDecodes zydis lib.memory originalFunction path.neededSize
  measured : stolenSize path zydis lib originalFunction = size
  fresh : Disjoint (span originalFunction size) (span trampoline path.blockSize)

theorem Installation.of_covers {size : Nat} (reads : zydis.ReadsInstruction .long64)
    (measured : stolenSize path zydis lib originalFunction = size)
    (covers : path.neededSize ≤ size)
    (fresh : Disjoint (span originalFunction size) (span trampoline path.blockSize)) :
    Installation path zydis lib originalFunction trampoline size :=
  ⟨reads, computeHookSize_reaches.mp (covers.trans_eq measured.symm), measured, fresh⟩

namespace Installation

variable {size : Nat}
  (installation : Installation path zydis lib originalFunction trampoline size)

include installation

theorem covers : path.neededSize ≤ size := by
  rw [← installation.measured]
  exact computeHookSize_reaches.mpr installation.decodes

theorem stolen : Nonempty (Stolen zydis lib.memory originalFunction path.neededSize size) := by
  rw [← installation.measured]
  exact stolen_exists _ _ _ installation.reads

theorem size_lt : size < path.neededSize + maxInstructionLength := by
  obtain ⟨stolen⟩ := installation.stolen
  exact stolen.size_lt

theorem small : size < 32 := by
  have bound := installation.size_lt
  unfold maxInstructionLength at bound
  cases path <;> simp only [Path.neededSize] at bound <;> omega

variable (environment)

theorem measured_withBlock :
    patchedSize path zydis environment lib originalFunction trampoline = size := by
  have small := installation.small
  have fresh := installation.fresh
  rw [← installation.measured] at small fresh ⊢
  exact computeHookSize_congr installation.reads installation.decodes Memory.fill_changesOnly
    (by unfold stolenSize at small; omega) fresh

theorem read_withBlock :
    (lib.withBlock environment trampoline path.blockSize).memory.read originalFunction size =
      lib.memory.read originalFunction size :=
  have small := installation.small
  Memory.fill_changesOnly.read_eq (by omega) installation.fresh

end Installation

end HookLib

end Detours

import Detours.HookLib.Granting
import Detours.HookLib.Near
import Detours.Zydis.Subset

namespace Detours.HookLib

open Detours.Bytes Detours.Decoding Detours.Zydis

section Definitions

variable {w : Nat}

def Untouched (neededSize : Nat) (originalFunction : BitVec w) (before after : HookLib w) : Prop :=
  after.memory.read originalFunction (neededSize + maxInstructionLength) =
    before.memory.read originalFunction (neededSize + maxInstructionLength) ∧
  after.activeHooks = before.activeHooks

/-- The scan covered the jump, so that the fill length is the difference it stands for. -/
def Covered (zydis : Api) (lib : HookLib w) (originalFunction : BitVec w) (neededSize : Nat) : Prop :=
  let size := computeHookSize zydis lib.memory originalFunction neededSize
  neededSize ≤ size ∧ fillLength w size neededSize = size - neededSize

/-- `apply_hook_x64` covers the jump, or it refuses a function that does not decode. -/
def RefusesX64 (path : Path) (zydis : Api) (environment : Environment 64) (lib : HookLib 64)
    (originalFunction targetFunction : BitVec 64) : Prop :=
  Covered zydis lib originalFunction path.neededSize ∨
  ¬PrefixDecodes zydis lib.memory originalFunction path.neededSize ∧
    ∃ after, applyHookX64 zydis environment lib originalFunction targetFunction =
      some (after, none) ∧ Untouched path.neededSize originalFunction lib after

def RefusesX86 (zydis : Api) (environment : Environment w) (lib : HookLib w)
    (originalFunction targetFunction : BitVec w) : Prop :=
  Covered zydis lib originalFunction 5 ∨
  ¬PrefixDecodes zydis lib.memory originalFunction 5 ∧
    ∃ after, applyHookX86 zydis environment lib originalFunction targetFunction =
      (after, .nullptr) ∧ Untouched 5 originalFunction lib after

end Definitions

variable {w : Nat} {path : Path} {zydis : Api}

theorem covered_iff {lib : HookLib w} {originalFunction : BitVec w} {neededSize : Nat}
    (reads : zydis.ReadsInstruction .long64) (room : neededSize + maxInstructionLength ≤ 2 ^ w) :
    Covered zydis lib originalFunction neededSize ↔
      PrefixDecodes zydis lib.memory originalFunction neededSize := by
  rw [← computeHookSize_reaches]
  refine ⟨fun covered => covered.1, fun covers => ⟨covers, fillLength_eq covers ?_⟩⟩
  obtain ⟨stolen⟩ := stolen_exists lib.memory originalFunction neededSize reads
  exact Nat.lt_of_lt_of_le stolen.size_lt room

theorem applyHookX86_nullptr_iff {environment : Environment w} {lib after : HookLib w}
    {originalFunction targetFunction : BitVec w} :
    applyHookX86 zydis environment lib originalFunction targetFunction = (after, .nullptr) ↔
      environment.virtualAlloc 0
        (computeHookSize zydis lib.memory originalFunction 5 + 5) = none ∧ after = lib := by
  unfold applyHookX86 virtualAlloc
  dsimp only
  cases environment.virtualAlloc 0 (computeHookSize zydis lib.memory originalFunction 5 + 5) with
  | none => simp [eq_comm]
  | some base => simp

/-- A call is refused only for want of a block: exactly the functions whose prefix
decodes, and the calls that get no block, are treated as they should be. This holds of
both paths of `apply_hook_x64` and of `apply_hook_x86`. -/
theorem refuses_undecodable_iff (reads : zydis.ReadsInstruction .long64)
    {environment : Environment 64} {lib : HookLib 64} {originalFunction targetFunction : BitVec 64}
    {block : Option (Path × BitVec 64)}
    (chosen : chosenBlock environment originalFunction = some block)
    (taken : ∀ other trampoline, block = some (other, trampoline) → other = path)
    (fresh : ∀ trampoline, block = some (path, trampoline) →
      Disjoint (span originalFunction (path.neededSize + maxInstructionLength))
        (span trampoline path.blockSize))
    (wide : 5 ≤ w) {environment86 : Environment w} {lib86 : HookLib w}
    {originalFunction86 targetFunction86 : BitVec w} :
    (∀ trampoline, block = some (path, trampoline) →
      computeHookSize zydis (lib.withBlock environment trampoline path.blockSize).memory
        originalFunction path.neededSize =
        computeHookSize zydis lib.memory originalFunction path.neededSize) ∧
    (RefusesX64 path zydis environment lib originalFunction targetFunction ↔
      PrefixDecodes zydis lib.memory originalFunction path.neededSize ∨ block = none) ∧
    (RefusesX86 zydis environment86 lib86 originalFunction86 targetFunction86 ↔
      PrefixDecodes zydis lib86.memory originalFunction86 5 ∨
      environment86.virtualAlloc 0
        (computeHookSize zydis lib86.memory originalFunction86 5 + 5) = none) := by
  have room : path.neededSize + maxInstructionLength ≤ 2 ^ 64 := by cases path <;> decide
  have room86 : 5 + maxInstructionLength ≤ 2 ^ w :=
    Nat.le_trans (by decide) (Nat.pow_le_pow_right (by decide) wide)
  refine ⟨fun trampoline got => ?_, ?_, ?_⟩
  · exact computeHookSize_congr_window reads Memory.fill_changesOnly room (fresh trampoline got)
  · rw [RefusesX64, covered_iff reads room]
    refine or_congr_right' fun undecodable => ?_
    rw [applyHookX64_eq, chosen]
    cases block with
    | none => simp [undecodable, Untouched]
    | some block => simp
  · rw [RefusesX86, covered_iff reads room86]
    refine or_congr_right' fun undecodable => ?_
    simp only [applyHookX86_nullptr_iff, undecodable, not_false_eq_true, true_and]
    exact ⟨fun ⟨_, ⟨missing, _⟩, _⟩ => missing, fun missing => ⟨lib86, ⟨missing, rfl⟩, rfl, rfl⟩⟩

theorem refuses_undecodable_nops :
    let lib := HookLib.holding 0x140001000 (List.replicate 5 0x90)
    let lib86 := HookLib.holding (0x401000 : BitVec 32) (List.replicate 5 0x90)
    RefusesX64 .near subset (.granting true 0) lib 0x140001000 0x150000000 ∧
    RefusesX86 subset (.granting true 0x500000) lib86 0x401000 0x402000 := by
  intro lib lib86
  have measured : computeHookSize subset lib.memory 0x140001000 5 = 5 := by decide +kernel
  have measured86 : computeHookSize subset lib86.memory 0x401000 5 = 5 := by decide +kernel
  have chosen : chosenBlock (.granting true 0) 0x140001000 = some (some (.near, 0x140010000)) :=
    chosenBlock_granting_near (by decide)
  have taken : ∀ other trampoline,
      some (Path.near, (0x140010000 : BitVec 64)) = some (other, trampoline) → other = .near := by
    intro other trampoline same
    cases same
    rfl
  have fresh : ∀ trampoline,
      some (Path.near, (0x140010000 : BitVec 64)) = some (.near, trampoline) →
        Disjoint (span 0x140001000 20) (span trampoline 0x500) := by
    intro trampoline same
    cases same
    exact span_disjoint (by decide) (by decide)
  have wide : 5 ≤ 32 := by decide
  obtain ⟨_, x64, x86⟩ :=
    refuses_undecodable_iff Subset.readsInstruction chosen taken fresh wide
  exact ⟨x64.mpr (.inl (computeHookSize_reaches.mp (Nat.le_of_eq measured.symm))),
    x86.mpr (.inl (computeHookSize_reaches.mp (Nat.le_of_eq measured86.symm)))⟩

/-- A function that starts with an undecodable byte is patched all the same: its first byte is that
of the jump. `place_jump` stores it, before the `memset` of the wrapped length ends the process. -/
theorem applyHookX64_hooks_undecodable :
    let lib := HookLib.holding 0x140001000 [0x06]
    let environment := Environment.granting true 0
    ¬PrefixDecodes subset lib.memory 0x140001000 5 ∧
    chosenBlock environment 0x140001000 = some (some (.near, 0x140010000)) ∧
    lib.memory 0x140001000 = 0x06 ∧
    (∃ after, applyHookX64 subset environment lib 0x140001000 0x150000000 =
        some (after, some 0x140010000) ∧ after.memory 0x140001000 = 0xE9) ∧
    ¬RefusesX64 .near subset environment lib 0x140001000 0x150000000 := by
  intro lib environment
  have measured : computeHookSize subset lib.memory 0x140001000 5 = 0 := by decide +kernel
  have chosen : chosenBlock environment 0x140001000 = some (some (.near, 0x140010000)) :=
    chosenBlock_granting_near (by decide)
  have patched : (hooked .near subset environment lib 0x140001000 0x150000000
      0x140010000).memory 0x140001000 = 0xE9 := by decide +kernel
  refine ⟨?_, chosen, by decide +kernel,
    ⟨_, applyHookX64_of_chosenBlock _ _ _ chosen, patched⟩, ?_⟩
  · rw [← computeHookSize_reaches, measured]
    decide
  · intro refuses
    rcases refuses with covered | ⟨_, after, refused, _⟩
    · exact absurd (measured ▸ covered.1) (by decide)
    · rw [applyHookX64_of_chosenBlock _ _ _ chosen] at refused
      cases refused

end Detours.HookLib

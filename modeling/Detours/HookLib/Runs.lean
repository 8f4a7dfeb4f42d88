import Detours.HookLib.Frame
import Mathlib.Logic.Relation

namespace Detours

open Detours.Bytes Detours.Zydis

/-- One call of the library. Every call sees an operating system of its own. -/
inductive Call where
  | applyHookX64 (environment : Environment 64) (originalFunction targetFunction : BitVec 64)
  | removeHook (environment : Environment 64) (originalFunction : BitVec 64)

namespace HookLib

def blocks (lib : HookLib 64) : Set (BitVec 64) :=
  { address | ∃ allocation ∈ lib.allocations, address ∈ allocation.span }

/-- The code that the entries have saved bytes of. -/
def hookedCode (lib : HookLib 64) : Set (BitVec 64) :=
  { address | ∃ function hook, lib.activeHooks function = some hook ∧
      address ∈ span function hook.originalBytes.length }

theorem span_subset_blocks {lib : HookLib 64} {allocation : Allocation 64}
    (live : allocation ∈ lib.allocations) : allocation.span ⊆ lib.blocks :=
  fun _ inside => ⟨allocation, live, inside⟩

theorem span_subset_hookedCode {lib : HookLib 64} {function : BitVec 64} {hook : Hook 64}
    (entry : lib.activeHooks function = some hook) :
    span function hook.originalBytes.length ⊆ lib.hookedCode :=
  fun _ inside => ⟨function, hook, entry, inside⟩

/-- The block at `trampoline` meets no live block and no code, as `VirtualAlloc` promises, and
the bytes that are patched lie in no block. -/
structure FreshBlock (path : Path) (zydis : Api) (environment : Environment 64)
    (lib : HookLib 64) (originalFunction trampoline : BitVec 64) : Prop where
  blocks : Disjoint (span trampoline path.blockSize) lib.blocks
  hookedCode : Disjoint (span trampoline path.blockSize) lib.hookedCode
  function : Disjoint (span originalFunction (stolenSize path zydis lib originalFunction))
    (span trampoline path.blockSize)
  patch : Disjoint
    (span originalFunction (patchedSize path zydis environment lib originalFunction trampoline))
    (span trampoline path.blockSize ∪ lib.blocks)

end HookLib

open HookLib

namespace Call

def function : Call → BitVec 64
  | applyHookX64 _ originalFunction _ => originalFunction
  | removeHook _ originalFunction => originalFunction

def run (zydis : Api) (lib : HookLib 64) : Call → Option (HookLib 64)
  | applyHookX64 environment originalFunction targetFunction =>
      (HookLib.applyHookX64 zydis environment lib originalFunction targetFunction).map Prod.fst
  | removeHook environment originalFunction =>
      some (HookLib.removeHook environment lib originalFunction)

def runAll (zydis : Api) : HookLib 64 → List Call → Option (HookLib 64)
  | lib, [] => some lib
  | lib, call :: rest => (call.run zydis lib).bind fun after => runAll zydis after rest

def Fresh (zydis : Api) (lib : HookLib 64) : Call → Prop
  | applyHookX64 environment originalFunction _ =>
      ∀ path trampoline,
        chosenBlock environment originalFunction = some (some (path, trampoline)) →
        FreshBlock path zydis environment lib originalFunction trampoline
  | removeHook _ _ => True

def Decodes (zydis : Api) (lib : HookLib 64) : Call → Prop
  | applyHookX64 environment originalFunction _ =>
      ∀ path trampoline,
        chosenBlock environment originalFunction = some (some (path, trampoline)) →
        PrefixDecodes zydis lib.memory originalFunction path.neededSize
  | removeHook _ _ => True

/-- The code a call patches: the stolen bytes of an installation, the saved ones of a removal. -/
def patched (zydis : Api) (lib : HookLib 64) : Call → Set (BitVec 64)
  | applyHookX64 environment originalFunction _ =>
      { address | ∃ path trampoline,
          chosenBlock environment originalFunction = some (some (path, trampoline)) ∧
          address ∈ span originalFunction (stolenSize path zydis lib originalFunction) }
  | removeHook _ originalFunction =>
      { address | ∃ hook, lib.activeHooks originalFunction = some hook ∧
          address ∈ span originalFunction hook.originalBytes.length }

/-- What a call that returns has done: nothing, an installation or a removal. -/
inductive Effect (zydis : Api) (lib : HookLib 64) : Call → HookLib 64 → Prop
  | none (call : Call) : Effect zydis lib call lib
  | hooked (environment : Environment 64) (path : Path)
      (originalFunction targetFunction trampoline : BitVec 64)
      (chosen : chosenBlock environment originalFunction = some (some (path, trampoline))) :
      Effect zydis lib (.applyHookX64 environment originalFunction targetFunction)
        (HookLib.hooked path zydis environment lib originalFunction targetFunction trampoline)
  | removed (environment : Environment 64) (originalFunction : BitVec 64) (hook : Hook 64)
      (entry : lib.activeHooks originalFunction = some hook) :
      Effect zydis lib (.removeHook environment originalFunction)
        (HookLib.removeHook environment lib originalFunction)

variable {zydis : Api} {lib after : HookLib 64} {call : Call}

section Chosen

variable {environment : Environment 64} {originalFunction targetFunction trampoline : BitVec 64}
  {path : Path}
  (chosen : chosenBlock environment originalFunction = some (some (path, trampoline)))

include chosen

theorem decodes_of_chosenBlock
    (decodes : PrefixDecodes zydis lib.memory originalFunction path.neededSize) :
    (applyHookX64 environment originalFunction targetFunction).Decodes zydis lib := by
  intro other block same
  simp only [chosen, Option.some.injEq, Prod.mk.injEq] at same
  obtain ⟨rfl, rfl⟩ := same
  exact decodes

theorem fresh_of_chosenBlock
    (fresh : FreshBlock path zydis environment lib originalFunction trampoline) :
    (applyHookX64 environment originalFunction targetFunction).Fresh zydis lib := by
  intro other block same
  simp only [chosen, Option.some.injEq, Prod.mk.injEq] at same
  obtain ⟨rfl, rfl⟩ := same
  exact fresh

theorem patched_of_chosenBlock :
    (applyHookX64 environment originalFunction targetFunction).patched zydis lib =
      span originalFunction (stolenSize path zydis lib originalFunction) := by
  ext address
  simp [patched, chosen]

theorem run_of_chosenBlock :
    (applyHookX64 environment originalFunction targetFunction).run zydis lib =
      some (hooked path zydis environment lib originalFunction targetFunction trampoline) := by
  rw [run, applyHookX64_of_chosenBlock _ _ _ chosen, Option.map_some]

end Chosen

theorem effect_of_run (ran : call.run zydis lib = some after) : Effect zydis lib call after := by
  cases call with
  | applyHookX64 environment originalFunction targetFunction =>
      rw [run, applyHookX64_eq] at ran
      cases chosen : chosenBlock environment originalFunction with
      | none => simp [chosen] at ran
      | some block =>
          rw [chosen, Option.map_some, Option.map_some, Option.some.injEq] at ran
          cases block with
          | none => exact ran ▸ .none _
          | some block => exact ran ▸ .hooked environment block.1 _ _ block.2 chosen
  | removeHook environment originalFunction =>
      rw [run, Option.some.injEq] at ran
      cases entry : lib.activeHooks originalFunction with
      | none =>
          rw [HookLib.removeHook, entry] at ran
          exact ran ▸ .none _
      | some hook => exact ran ▸ .removed environment originalFunction hook entry

end Call

namespace HookLib

variable {zydis : Api} {environment : Environment 64} {lib after : HookLib 64} {path : Path}
  {originalFunction targetFunction trampoline : BitVec 64} {hook : Hook 64}

section Removal

variable (entry : lib.activeHooks originalFunction = some hook)

include entry

variable (environment)

theorem removeHook_memory :
    (removeHook environment lib originalFunction).memory =
      lib.memory.write originalFunction hook.originalBytes := by
  simp only [removeHook, entry, virtualFree_memory, ensureProtection_memory]

theorem removeHook_activeHooks :
    (removeHook environment lib originalFunction).activeHooks =
      lib.activeHooks.erase originalFunction := by
  simp only [removeHook, entry, virtualFree_activeHooks, ensureProtection_activeHooks]

theorem removeHook_allocations :
    (removeHook environment lib originalFunction).allocations =
      lib.allocations.filter (·.base != hook.trampoline) := by
  simp only [removeHook, entry, virtualFree, ensureProtection_allocations]

theorem mem_removeHook_allocations {allocation : Allocation 64} :
    allocation ∈ (removeHook environment lib originalFunction).allocations ↔
      allocation ∈ lib.allocations ∧ allocation.base ≠ hook.trampoline := by
  rw [removeHook_allocations _ entry, List.mem_filter, bne_iff_ne]

end Removal

theorem removeHook_entry (environment : Environment 64) (lib : HookLib 64)
    (originalFunction : BitVec 64) :
    (removeHook environment lib originalFunction).activeHooks =
      lib.activeHooks.erase originalFunction := by
  cases entry : lib.activeHooks originalFunction with
  | none =>
      rw [removeHook, entry]
      funext function
      by_cases same : function = originalFunction
      · subst same
        rw [HookMap.erase_self, entry]
      · rw [HookMap.erase_other same]
  | some hook => exact removeHook_activeHooks environment entry

/-- What every call keeps: live blocks meet neither each other nor hooked code, and each
entry owns a live block of its own. -/
structure WellFormed (lib : HookLib 64) : Prop where
  positive : ∀ allocation ∈ lib.allocations, 0 < allocation.size
  disjoint : lib.allocations.Pairwise fun first second => Disjoint first.span second.span
  apart : Disjoint lib.hookedCode lib.blocks
  owned : ∀ function hook, lib.activeHooks function = some hook →
    ∃ allocation ∈ lib.allocations, allocation.base = hook.trampoline
  distinct : ∀ function other hook otherHook,
    lib.activeHooks function = some hook → lib.activeHooks other = some otherHook →
    hook.trampoline = otherHook.trampoline → function = other

theorem blocks_empty (noBlocks : lib.allocations = []) : lib.blocks = ∅ := by
  simp [blocks, noBlocks]

theorem hookedCode_empty (noHooks : ∀ function, lib.activeHooks function = none) :
    lib.hookedCode = ∅ := by
  simp [hookedCode, noHooks]

theorem wellFormed_empty (noHooks : ∀ function, lib.activeHooks function = none)
    (noBlocks : lib.allocations = []) : WellFormed lib where
  positive := by simp [noBlocks]
  disjoint := by simp [noBlocks]
  apart := by
    rw [hookedCode_empty noHooks]
    exact Set.empty_disjoint _
  owned := by
    intro function hook entry
    simp [noHooks] at entry
  distinct := by
    intro function other hook otherHook entry
    simp [noHooks] at entry

theorem FreshBlock.installation (reads : zydis.ReadsInstruction .long64)
    (decodes : PrefixDecodes zydis lib.memory originalFunction path.neededSize)
    (fresh : FreshBlock path zydis environment lib originalFunction trampoline) :
    Installation path zydis lib originalFunction trampoline
      (stolenSize path zydis lib originalFunction) :=
  ⟨reads, decodes, rfl, fresh.function⟩

theorem Installation.freshBlock {size : Nat}
    (installation : Installation path zydis lib originalFunction trampoline size)
    (blocks : Disjoint (span trampoline path.blockSize) lib.blocks)
    (hookedCode : Disjoint (span trampoline path.blockSize) lib.hookedCode)
    (function : Disjoint (span originalFunction size) lib.blocks) :
    FreshBlock path zydis environment lib originalFunction trampoline := by
  refine ⟨blocks, hookedCode, ?_, ?_⟩
  · rw [installation.measured]
    exact installation.fresh
  · rw [installation.measured_withBlock, Set.disjoint_union_right]
    exact ⟨installation.fresh, function⟩

theorem Installation.firstBlock {size : Nat}
    (installation : Installation path zydis lib originalFunction trampoline size)
    (noHooks : ∀ function, lib.activeHooks function = none) (noBlocks : lib.allocations = []) :
    FreshBlock path zydis environment lib originalFunction trampoline := by
  apply installation.freshBlock
  · rw [blocks_empty noBlocks]
    exact Set.disjoint_empty _
  · rw [hookedCode_empty noHooks]
    exact Set.disjoint_empty _
  · rw [blocks_empty noBlocks]
    exact Set.disjoint_empty _

theorem WellFormed.trampoline_ne (wellFormed : WellFormed lib)
    (fresh : Disjoint (span trampoline path.blockSize) lib.blocks) {function : BitVec 64}
    (entry : lib.activeHooks function = some hook) : hook.trampoline ≠ trampoline := by
  rintro rfl
  obtain ⟨allocation, live, base⟩ := wellFormed.owned function hook entry
  refine Set.disjoint_left.mp fresh (base_mem_span path.blockSize_pos) ⟨allocation, live, ?_⟩
  rw [← base]
  exact base_mem_span (wellFormed.positive allocation live)

section Hooked

variable (path zydis environment lib originalFunction targetFunction trampoline)

theorem blocks_hooked :
    (hooked path zydis environment lib originalFunction targetFunction trampoline).blocks =
      span trampoline path.blockSize ∪ lib.blocks := by
  ext address
  simp [blocks, hooked_allocations, Allocation.span]

theorem hookedCode_hooked :
    (hooked path zydis environment lib originalFunction targetFunction trampoline).hookedCode ⊆
      span originalFunction (patchedSize path zydis environment lib originalFunction trampoline) ∪
        lib.hookedCode := by
  intro address code
  obtain ⟨function, hook, entry, code⟩ := code
  rw [hooked_activeHooks_patchedSize] at entry
  rcases HookMap.insert_some entry with old | ⟨rfl, _, rfl⟩
  · exact .inr ⟨function, hook, old, code⟩
  · rw [Memory.read_length] at code
    exact .inl code

end Hooked

theorem Installation.secondBlock {size otherSize : Nat} {other : Path}
    {otherEnvironment : Environment 64} {otherFunction otherTrampoline : BitVec 64}
    (installation : Installation path zydis lib originalFunction trampoline size)
    (noHooks : ∀ function, lib.activeHooks function = none) (noBlocks : lib.allocations = [])
    (second : Installation other zydis
      (hooked path zydis environment lib originalFunction targetFunction trampoline) otherFunction
      otherTrampoline otherSize)
    (blocks : Disjoint (span otherTrampoline other.blockSize) (span trampoline path.blockSize))
    (code : Disjoint (span otherTrampoline other.blockSize) (span originalFunction size))
    (function : Disjoint (span otherFunction otherSize) (span trampoline path.blockSize)) :
    FreshBlock other zydis otherEnvironment
      (hooked path zydis environment lib originalFunction targetFunction trampoline) otherFunction
      otherTrampoline := by
  have block : (hooked path zydis environment lib originalFunction targetFunction
      trampoline).blocks = span trampoline path.blockSize := by
    rw [blocks_hooked, blocks_empty noBlocks, Set.union_empty]
  apply second.freshBlock
  · rwa [block]
  · refine Disjoint.mono_right (hookedCode_hooked ..) ?_
    rwa [installation.measured_withBlock, hookedCode_empty noHooks, Set.union_empty]
  · rwa [block]

theorem WellFormed.after_hooked (wellFormed : WellFormed lib)
    (fresh : FreshBlock path zydis environment lib originalFunction trampoline) :
    WellFormed (hooked path zydis environment lib originalFunction targetFunction trampoline) := by
  have allocations := hooked_allocations path zydis environment lib originalFunction
    targetFunction trampoline
  have hooks := hooked_activeHooks_patchedSize path zydis environment lib originalFunction
    targetFunction trampoline
  have apart : Disjoint
      (hooked path zydis environment lib originalFunction targetFunction trampoline).hookedCode
      (hooked path zydis environment lib originalFunction targetFunction trampoline).blocks := by
    refine Disjoint.mono_left (hookedCode_hooked ..) ?_
    rw [blocks_hooked, Set.disjoint_union_left, Set.disjoint_union_right (s := lib.hookedCode)]
    exact ⟨fresh.patch, fresh.hookedCode.symm, wellFormed.apart⟩
  generalize HookLib.hooked path zydis environment lib originalFunction targetFunction trampoline =
    after at allocations hooks apart ⊢
  generalize after.memory.read trampoline _ = bytes at hooks
  have entries {function : BitVec 64} {hook : Hook 64}
      (entry : after.activeHooks function = some hook) :
      lib.activeHooks function = some hook ∨
        function = originalFunction ∧ lib.activeHooks originalFunction = none ∧
          hook = ⟨trampoline, bytes⟩ :=
    HookMap.insert_some (hooks ▸ entry)
  refine ⟨?positive, ?disjoint, apart, ?owned, ?distinct⟩
  case positive =>
    rw [allocations, List.forall_mem_cons]
    exact ⟨path.blockSize_pos, wellFormed.positive⟩
  case disjoint =>
    rw [allocations, List.pairwise_cons]
    refine ⟨fun allocation live => ?_, wellFormed.disjoint⟩
    exact fresh.blocks.mono_right (span_subset_blocks live)
  case owned =>
    intro function hook entry
    rw [allocations]
    rcases entries entry with old | ⟨rfl, _, rfl⟩
    · obtain ⟨allocation, live, base⟩ := wellFormed.owned function hook old
      exact ⟨allocation, List.mem_cons_of_mem _ live, base⟩
    · exact ⟨_, List.mem_cons_self, rfl⟩
  case distinct =>
    intro function other hook otherHook entry otherEntry same
    rcases entries entry with old | ⟨rfl, _, rfl⟩ <;>
      rcases entries otherEntry with otherOld | ⟨rfl, _, rfl⟩
    · exact wellFormed.distinct function other hook otherHook old otherOld same
    · exact absurd same (wellFormed.trampoline_ne fresh.blocks old)
    · exact absurd same.symm (wellFormed.trampoline_ne fresh.blocks otherOld)
    · rfl

theorem WellFormed.after_removed (wellFormed : WellFormed lib)
    (entry : lib.activeHooks originalFunction = some hook) :
    WellFormed (removeHook environment lib originalFunction) := by
  have live {allocation : Allocation 64} :
      allocation ∈ (removeHook environment lib originalFunction).allocations ↔ _ :=
    mem_removeHook_allocations environment entry
  have allocations := removeHook_allocations environment entry
  have hooks := removeHook_activeHooks environment entry
  generalize removeHook environment lib originalFunction = after at live allocations hooks ⊢
  have entries {function : BitVec 64} {hook : Hook 64} :
      after.activeHooks function = some hook ↔
        function ≠ originalFunction ∧ lib.activeHooks function = some hook := by
    rw [hooks, HookMap.erase_some]
  refine ⟨?positive, ?disjoint, ?apart, ?owned, ?distinct⟩
  case positive => exact fun allocation inside => wellFormed.positive allocation (live.mp inside).1
  case disjoint => exact allocations ▸ wellFormed.disjoint.filter _
  case apart =>
    refine wellFormed.apart.mono ?_ ?_
    · rintro address ⟨function, hook, entry, code⟩
      exact ⟨function, hook, (entries.mp entry).2, code⟩
    · rintro address ⟨allocation, inside, block⟩
      exact ⟨allocation, (live.mp inside).1, block⟩
  case owned =>
    intro function other otherEntry
    obtain ⟨different, old⟩ := entries.mp otherEntry
    obtain ⟨allocation, inside, base⟩ := wellFormed.owned function other old
    refine ⟨allocation, live.mpr ⟨inside, fun same => different ?_⟩, base⟩
    exact wellFormed.distinct _ _ _ _ old entry (base ▸ same)
  case distinct =>
    intro function other hook otherHook first second
    exact wellFormed.distinct function other hook otherHook (entries.mp first).2
      (entries.mp second).2

/-- One call of the library with the blocks `VirtualAlloc` promises. -/
def Step (zydis : Api) (lib after : HookLib 64) : Prop :=
  ∃ call : Call, call.Fresh zydis lib ∧ call.run zydis lib = some after

/-- The states of a library that started without hooks. -/
def Reachable (zydis : Api) (lib : HookLib 64) : Prop :=
  ∃ start : HookLib 64, (∀ function, start.activeHooks function = none) ∧
    start.allocations = [] ∧ Relation.ReflTransGen (Step zydis) start lib

theorem WellFormed.effect {call : Call} (wellFormed : WellFormed lib)
    (fresh : call.Fresh zydis lib) (effect : call.Effect zydis lib after) : WellFormed after := by
  cases effect with
  | none => exact wellFormed
  | hooked environment path originalFunction targetFunction trampoline chosen =>
      exact wellFormed.after_hooked (fresh path trampoline chosen)
  | removed environment originalFunction hook entry => exact wellFormed.after_removed entry

theorem Reachable.wellFormed (reachable : Reachable zydis lib) : WellFormed lib := by
  obtain ⟨start, noHooks, noBlocks, run⟩ := reachable
  induction run with
  | refl => exact wellFormed_empty noHooks noBlocks
  | tail _ step ih =>
      obtain ⟨call, fresh, ran⟩ := step
      exact ih.effect fresh (Call.effect_of_run ran)

end HookLib

end Detours

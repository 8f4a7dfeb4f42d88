import Detours.HookLib.Granting
import Detours.HookLib.Runs
import Detours.Zydis.Subset

namespace Detours.HookLib

open Detours.Bytes Detours.Zydis

/-- The patch, the trampoline and the entry of `function` are those of `before`. -/
structure Undisturbed (function : BitVec 64) (hook : Hook 64) (block : Allocation 64)
    (before after : HookLib 64) : Prop where
  memory : ∀ address ∈ span function hook.originalBytes.length ∪ block.span,
    after.memory address = before.memory address
  entry : after.activeHooks function = some hook
  live : block ∈ after.allocations

/-- A call on another function with a decodable prefix, patching code apart from what is
stolen of `function`. -/
structure OtherCall (zydis : Api) (function : BitVec 64) (hook : Hook 64) (lib : HookLib 64)
    (call : Call) : Prop where
  other : call.function ≠ function
  decodes : call.Decodes zydis lib
  apart : Disjoint (call.patched zydis lib) (span function hook.originalBytes.length)
  fresh : call.Fresh zydis lib

def OtherStep (zydis : Api) (function : BitVec 64) (hook : Hook 64) (lib after : HookLib 64) :
    Prop :=
  ∃ call : Call, OtherCall zydis function hook lib call ∧ call.run zydis lib = some after

variable {zydis : Api} {environment : Environment 64} {lib middle after : HookLib 64} {path : Path}
  {function originalFunction targetFunction trampoline : BitVec 64}
  {hook otherHook : Hook 64} {block : Allocation 64} {call : Call}

theorem Undisturbed.trans (first : Undisturbed function hook block lib middle)
    (second : Undisturbed function hook block middle after) :
    Undisturbed function hook block lib after where
  memory := fun address inside =>
    (second.memory address inside).trans (first.memory address inside)
  entry := second.entry
  live := second.live

section Effects

variable (wellFormed : WellFormed lib) (entry : lib.activeHooks function = some hook)
  (live : block ∈ lib.allocations) (base : block.base = hook.trampoline)

include entry live

theorem undisturbed_hooked (reads : zydis.ReadsInstruction .long64)
    (inside : zydis.DisplacementInside .long64)
    (decodes : PrefixDecodes zydis lib.memory originalFunction path.neededSize)
    (fresh : FreshBlock path zydis environment lib originalFunction trampoline)
    (different : originalFunction ≠ function)
    (apart : Disjoint (span originalFunction (stolenSize path zydis lib originalFunction))
      (span function hook.originalBytes.length)) :
    Undisturbed function hook block lib
      (hooked path zydis environment lib originalFunction targetFunction trampoline) := by
  have installation := FreshBlock.installation reads decodes fresh
  have measured := installation.measured_withBlock environment
  refine ⟨fun address member => ?_, ?_, ?_⟩
  · apply hooked_changesOnly _ _ installation inside
    rintro (stolen | own)
    · rcases member with code | member
      · exact Set.disjoint_left.mp apart stolen code
      · rw [← measured] at stolen
        exact Set.disjoint_left.mp fresh.patch stolen (.inr (span_subset_blocks live member))
    · rcases member with code | member
      · exact Set.disjoint_left.mp fresh.hookedCode own (span_subset_hookedCode entry code)
      · exact Set.disjoint_left.mp fresh.blocks own (span_subset_blocks live member)
  · rw [hooked_activeHooks _ _ installation, HookMap.insert_other (Ne.symm different), entry]
  · rw [hooked_allocations]
    exact List.mem_cons_of_mem _ live

include wellFormed base

theorem undisturbed_removed (otherEntry : lib.activeHooks originalFunction = some otherHook)
    (different : originalFunction ≠ function)
    (apart : Disjoint (span originalFunction otherHook.originalBytes.length)
      (span function hook.originalBytes.length)) :
    Undisturbed function hook block lib (removeHook environment lib originalFunction) := by
  refine ⟨fun address member => ?_, ?_, ?_⟩
  · rw [removeHook_memory _ otherEntry]
    apply Memory.write_changesOnly
    intro restored
    rcases member with code | member
    · exact Set.disjoint_left.mp apart restored code
    · exact Set.disjoint_left.mp wellFormed.apart (span_subset_hookedCode otherEntry restored)
        (span_subset_blocks live member)
  · rw [removeHook_activeHooks _ otherEntry, HookMap.erase_other (Ne.symm different), entry]
  · rw [mem_removeHook_allocations _ otherEntry]
    refine ⟨live, fun same => different ?_⟩
    exact wellFormed.distinct _ _ _ _ otherEntry entry (same.symm.trans base)

theorem OtherCall.undisturbed (reads : zydis.ReadsInstruction .long64)
    (inside : zydis.DisplacementInside .long64)
    (otherCall : OtherCall zydis function hook lib call) (ran : call.run zydis lib = some after) :
    Undisturbed function hook block lib after := by
  obtain ⟨different, decodes, apart, fresh⟩ := otherCall
  cases Call.effect_of_run ran with
  | none => exact ⟨fun _ _ => rfl, entry, live⟩
  | hooked environment path originalFunction targetFunction trampoline chosen =>
      refine undisturbed_hooked entry live reads inside (decodes path trampoline chosen)
        (fresh path trampoline chosen) different (apart.mono_left ?_)
      exact fun address stolen => ⟨path, trampoline, chosen, stolen⟩
  | removed environment originalFunction otherHook otherEntry =>
      refine undisturbed_removed wellFormed entry live base otherEntry different
        (apart.mono_left ?_)
      exact fun address restored => ⟨otherHook, otherEntry, restored⟩

theorem undisturbed_run (reads : zydis.ReadsInstruction .long64)
    (inside : zydis.DisplacementInside .long64)
    (run : Relation.ReflTransGen (OtherStep zydis function hook) lib after) :
    Undisturbed function hook block lib after ∧ WellFormed after := by
  induction run with
  | refl => exact ⟨⟨fun _ _ => rfl, entry, live⟩, wellFormed⟩
  | tail _ step ih =>
      obtain ⟨call, otherCall, ran⟩ := step
      obtain ⟨before, wellFormed⟩ := ih
      refine ⟨before.trans ?_, wellFormed.effect otherCall.fresh (Call.effect_of_run ran)⟩
      exact otherCall.undisturbed wellFormed before.entry before.live base reads inside ran

end Effects

/-- Hooks on different functions do not interfere: in every reachable state each hooked
function has its block, and neither one call on another function nor any interleaving of
such calls touches its patch, its block or its entry. -/
theorem reachable_isolated (reads : zydis.ReadsInstruction .long64)
    (inside : zydis.DisplacementInside .long64) (reachable : Reachable zydis lib)
    (entry : lib.activeHooks function = some hook) :
    ∃ block ∈ lib.allocations, block.base = hook.trampoline ∧
      (∀ call after, OtherCall zydis function hook lib call → call.run zydis lib = some after →
        Undisturbed function hook block lib after) ∧
      (∀ after, Relation.ReflTransGen (OtherStep zydis function hook) lib after →
        Undisturbed function hook block lib after) := by
  have wellFormed := reachable.wellFormed
  obtain ⟨block, live, base⟩ := wellFormed.owned function hook entry
  refine ⟨block, live, base, fun call after otherCall ran => ?_, fun after run => ?_⟩
  · exact otherCall.undisturbed wellFormed entry live base reads inside ran
  · exact (undisturbed_run wellFormed entry live base reads inside run).1

theorem reachable_isolated_neighbours :
    let lib := HookLib.holding 0x140001000 (List.replicate 19 0x90)
    ∃ after hook later,
      applyHookX64 subset (.granting true 0) lib 0x140001000 0x150000000 =
        some (after, some 0x140010000) ∧
      after.activeHooks 0x140001000 = some hook ∧
      applyHookX64 subset (.granting false 0x20000000000) after 0x140001005 0x160000000 =
        some (later, some 0x20000000000) ∧
      ∃ block ∈ after.allocations, block.base = hook.trampoline ∧
        Undisturbed 0x140001000 hook block after later := by
  intro lib
  have chosen : chosenBlock (.granting true 0) 0x140001000 = some (some (.near, 0x140010000)) :=
    chosenBlock_granting_near (by decide)
  have installation : Installation .near subset lib 0x140001000 0x140010000 5 :=
    .of_covers Subset.readsInstruction (by decide +kernel) (by decide)
      (span_disjoint (by decide) (by decide))
  let after := hooked .near subset (.granting true 0) lib 0x140001000 0x150000000 0x140010000
  let hook : Hook 64 := ⟨0x140010000, after.memory.read 0x140010000 5⟩
  have entry : after.activeHooks 0x140001000 = some hook :=
    (congrArg (· 0x140001000) (hooked_activeHooks _ _ installation)).trans
      (HookMap.insert_self rfl)
  have saved : hook.originalBytes.length = 5 := Memory.read_length
  have reachable : Reachable subset after :=
    ⟨lib, fun _ => rfl, rfl, .single ⟨_, Call.fresh_of_chosenBlock chosen
      (installation.firstBlock (fun _ => rfl) rfl), Call.run_of_chosenBlock chosen⟩⟩
  have chosenFar : chosenBlock (.granting false 0x20000000000) 0x140001005 =
      some (some (.far, 0x20000000000)) := chosenBlock_granting_far (by decide)
  have second : Installation .far subset after 0x140001005 0x20000000000 14 :=
    .of_covers Subset.readsInstruction (by decide +kernel) (by decide)
      (span_disjoint (by decide) (by decide))
  have blockFar : FreshBlock .far subset (.granting false 0x20000000000) after 0x140001005
      0x20000000000 :=
    installation.secondBlock (fun _ => rfl) rfl second (span_disjoint (by decide) (by decide))
      (span_disjoint (by decide) (by decide)) (span_disjoint (by decide) (by decide))
  have otherCall : OtherCall subset 0x140001000 hook after
      (.applyHookX64 (.granting false 0x20000000000) 0x140001005 0x160000000) := by
    refine ⟨by decide, Call.decodes_of_chosenBlock chosenFar second.decodes, ?_,
      Call.fresh_of_chosenBlock chosenFar blockFar⟩
    rw [Call.patched_of_chosenBlock chosenFar, second.measured, saved]
    exact span_disjoint (by decide) (by decide)
  obtain ⟨block, live, base, isolated, _⟩ := reachable_isolated Subset.readsInstruction
    Subset.displacementInside reachable entry
  exact ⟨after, hook, _, applyHookX64_of_chosenBlock _ _ _ chosen, entry,
    applyHookX64_of_chosenBlock _ _ _ chosenFar, block, live, base,
    isolated _ _ otherCall (Call.run_of_chosenBlock chosenFar)⟩

end Detours.HookLib

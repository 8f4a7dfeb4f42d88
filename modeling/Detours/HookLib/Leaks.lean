import Detours.HookLib.Registry

namespace Detours

open Detours.Bytes Detours.Zydis

namespace HookLib

/-- The live blocks that are no entry's trampoline. -/
def unowned (lib : HookLib 64) : Set (Allocation 64) :=
  { block | block ∈ lib.allocations ∧ ∀ function hook,
      lib.activeHooks function = some hook → hook.trampoline ≠ block.base }

end HookLib

open HookLib

namespace Call

def FreshAll (zydis : Api) : HookLib 64 → List Call → Prop
  | _, [] => True
  | lib, call :: rest =>
      call.Fresh zydis lib ∧ ∀ after, call.run zydis lib = some after → FreshAll zydis after rest

/-- The block of a call on a function that is hooked already. -/
def leaks (lib : HookLib 64) : Call → List (Allocation 64)
  | applyHookX64 environment originalFunction _ =>
      if (lib.activeHooks originalFunction).isSome then
        ((chosenBlock environment originalFunction).join.map fun block =>
          (⟨block.2, block.1.blockSize⟩ : Allocation 64)).toList
      else []
  | removeHook _ _ => []

def leaksAll (zydis : Api) : HookLib 64 → List Call → List (Allocation 64)
  | _, [] => []
  | lib, call :: rest =>
      call.leaks lib ++
        ((call.run zydis lib).map fun after => leaksAll zydis after rest).getD []

end Call

namespace HookLib

variable {path : Path} {zydis : Api} {environment : Environment 64} {lib after start : HookLib 64}
  {originalFunction targetFunction trampoline : BitVec 64} {hook : Hook 64}
  {block : Allocation 64} {call : Call} {calls : List Call}

section Step

variable (wellFormed : WellFormed lib)

include wellFormed

theorem unowned_rehooked
    (fresh : FreshBlock path zydis environment lib originalFunction trampoline)
    (present : lib.activeHooks originalFunction = some hook) :
    block ∈ (hooked path zydis environment lib originalFunction targetFunction
        trampoline).unowned ↔
      block = ⟨trampoline, path.blockSize⟩ ∨ block ∈ lib.unowned := by
  have hooks := hooked_activeHooks_patchedSize path zydis environment lib originalFunction
    targetFunction trampoline
  rw [HookMap.insert_present present] at hooks
  rw [unowned, Set.mem_ofPred_eq, hooked_allocations, hooks, List.mem_cons, or_and_right]
  refine or_congr (and_iff_left_of_imp ?_) Iff.rfl
  rintro rfl function other entry
  exact wellFormed.trampoline_ne fresh.blocks entry

theorem unowned_hooked
    (fresh : FreshBlock path zydis environment lib originalFunction trampoline)
    (absent : lib.activeHooks originalFunction = none) :
    block ∈ (hooked path zydis environment lib originalFunction targetFunction
        trampoline).unowned ↔ block ∈ lib.unowned := by
  have hooks := hooked_activeHooks_patchedSize path zydis environment lib originalFunction
    targetFunction trampoline
  rw [unowned, Set.mem_ofPred_eq, hooked_allocations, hooks, List.mem_cons]
  generalize Memory.read _ trampoline _ = bytes
  constructor
  · rintro ⟨rfl | live, others⟩
    · exact absurd rfl (others originalFunction _ (HookMap.insert_self absent))
    · refine ⟨live, fun function other entry => others function other ?_⟩
      rw [HookMap.insert_other, entry]
      rintro rfl
      rw [absent] at entry
      cases entry
  · rintro ⟨live, others⟩
    refine ⟨.inr live, fun function other entry => ?_⟩
    rcases HookMap.insert_some entry with old | ⟨_, _, rfl⟩
    · exact others function other old
    · intro same
      refine Set.disjoint_left.mp fresh.blocks (base_mem_span path.blockSize_pos)
        ⟨block, live, ?_⟩
      change trampoline ∈ span block.base block.size
      rw [← same]
      exact base_mem_span (wellFormed.positive block live)

omit wellFormed in
theorem unowned_removed (entry : lib.activeHooks originalFunction = some hook) :
    block ∈ (removeHook environment lib originalFunction).unowned ↔ block ∈ lib.unowned := by
  rw [unowned, Set.mem_ofPred_eq, mem_removeHook_allocations environment entry,
    removeHook_activeHooks environment entry]
  constructor
  · rintro ⟨⟨live, other⟩, others⟩
    refine ⟨live, fun function found present => ?_⟩
    by_cases same : function = originalFunction
    · rw [same, entry, Option.some.injEq] at present
      exact present ▸ Ne.symm other
    · exact others function found (HookMap.erase_some.mpr ⟨same, present⟩)
  · rintro ⟨live, others⟩
    refine ⟨⟨live, Ne.symm (others originalFunction hook entry)⟩, fun function found present => ?_⟩
    exact others function found (HookMap.erase_some.mp present).2

theorem unowned_step (fresh : call.Fresh zydis lib) (ran : call.run zydis lib = some after) :
    block ∈ after.unowned ↔ block ∈ call.leaks lib ∨ block ∈ lib.unowned := by
  cases call with
  | applyHookX64 environment originalFunction targetFunction =>
      rw [Call.run, applyHookX64_eq] at ran
      rw [Call.leaks]
      cases chosen : chosenBlock environment originalFunction with
      | none =>
          rw [chosen] at ran
          cases ran
      | some found =>
          rw [chosen, Option.map_some, Option.map_some, Option.some.injEq] at ran
          rw [← ran]
          cases found with
          | none => simp
          | some found =>
              have promised := fresh found.1 found.2 chosen
              cases entry : lib.activeHooks originalFunction with
              | none => simpa using unowned_hooked wellFormed promised entry
              | some hook => simpa using unowned_rehooked wellFormed promised entry
  | removeHook environment originalFunction =>
      rw [Call.run, Option.some.injEq] at ran
      rw [← ran, Call.leaks]
      cases entry : lib.activeHooks originalFunction with
      | none => simp [removeHook, entry]
      | some hook => simpa using unowned_removed entry

end Step

theorem unowned_runAll (wellFormed : WellFormed lib) (fresh : Call.FreshAll zydis lib calls)
    (ran : Call.runAll zydis lib calls = some after) :
    WellFormed after ∧
      (block ∈ after.unowned ↔ block ∈ Call.leaksAll zydis lib calls ∨ block ∈ lib.unowned) := by
  induction calls generalizing lib with
  | nil =>
      obtain rfl := Option.some.inj ran
      exact ⟨wellFormed, by simp [Call.leaksAll]⟩
  | cons call rest ih =>
      obtain ⟨middle, first, others⟩ := Option.bind_eq_some_iff.mp ran
      obtain ⟨final, later⟩ := ih (wellFormed.effect fresh.1 (Call.effect_of_run first))
        (fresh.2 middle first) others
      refine ⟨final, ?_⟩
      rw [later, unowned_step wellFormed fresh.1 first, Call.leaksAll, first, Option.map_some,
        Option.getD_some, List.mem_append]
      tauto

/-- After any run the live blocks without an entry are those of the calls on functions that were
hooked already, however many hooks were removed since; every other block has one entry. -/
theorem leaked_of_run (noHooks : ∀ function, start.activeHooks function = none)
    (noBlocks : start.allocations = []) (fresh : Call.FreshAll zydis start calls)
    (ran : Call.runAll zydis start calls = some lib) :
    (∀ block, block ∈ lib.unowned ↔ block ∈ Call.leaksAll zydis start calls) ∧
    ∀ block ∈ lib.allocations, block ∉ Call.leaksAll zydis start calls →
      ∃! function, ∃ hook, lib.activeHooks function = some hook ∧ hook.trampoline = block.base := by
  have wellFormed := wellFormed_empty noHooks noBlocks
  have none (block : Allocation 64) : block ∉ start.unowned := by
    rintro ⟨live, _⟩
    rw [noBlocks] at live
    cases live
  have exactly (block : Allocation 64) :
      block ∈ lib.unowned ↔ block ∈ Call.leaksAll zydis start calls := by
    rw [(unowned_runAll wellFormed fresh ran).2, or_iff_left (none block)]
  refine ⟨exactly, fun block live known => ?_⟩
  have final : WellFormed lib := (@unowned_runAll _ _ _ block _ wellFormed fresh ran).1
  rw [← exactly, unowned, Set.mem_ofPred_eq, not_and] at known
  have owner := known live
  push Not at owner
  obtain ⟨function, hook, entry, base⟩ := owner
  refine ⟨function, ⟨hook, entry, base⟩, ?_⟩
  rintro other ⟨otherHook, otherEntry, otherBase⟩
  exact final.distinct _ _ _ _ otherEntry entry (otherBase.trans base.symm)

theorem leaked_of_run_twice :
    let start := HookLib.holding 0x140001000 (List.replicate 14 0x90)
    let calls := [Call.applyHookX64 (.granting true 0) 0x140001000 0x150000000,
      Call.applyHookX64 (.granting false 0x20000000000) 0x140001000 0x160000000,
      Call.removeHook (.granting true 0) 0x140001000]
    ∃ lib, Call.runAll subset start calls = some lib ∧
      lib.activeHooks 0x140001000 = none ∧ ⟨0x20000000000, 0x1000⟩ ∈ lib.unowned := by
  intro start calls
  have chosen : chosenBlock (.granting true 0) 0x140001000 = some (some (.near, 0x140010000)) :=
    chosenBlock_granting_near (by decide)
  have installation : Installation .near subset start 0x140001000 0x140010000 5 :=
    .of_covers Subset.readsInstruction (by decide +kernel) (by decide)
      (span_disjoint (by decide) (by decide))
  let first := hooked .near subset (.granting true 0) start 0x140001000 0x150000000 0x140010000
  have entry : first.activeHooks 0x140001000 = some ⟨_, _⟩ :=
    (congrArg (· 0x140001000) (hooked_activeHooks _ _ installation)).trans
      (HookMap.insert_self rfl)
  have chosenFar : chosenBlock (.granting false 0x20000000000) 0x140001000 =
      some (some (.far, 0x20000000000)) := chosenBlock_granting_far (by decide)
  have again : Installation .far subset first 0x140001000 0x20000000000 14 :=
    .of_covers Subset.readsInstruction (by decide +kernel) (by decide)
      (span_disjoint (by decide) (by decide))
  have blockFar : FreshBlock .far subset (.granting false 0x20000000000) first 0x140001000
      0x20000000000 :=
    installation.secondBlock (fun _ => rfl) rfl again (span_disjoint (by decide) (by decide))
      (span_disjoint (by decide) (by decide)) (span_disjoint (by decide) (by decide))
  let second := hooked .far subset (.granting false 0x20000000000) first 0x140001000 0x160000000
    0x20000000000
  let lib := removeHook (.granting true 0) second 0x140001000
  have firstRun : Call.run subset start (.applyHookX64 (.granting true 0) 0x140001000
      0x150000000) = some first := Call.run_of_chosenBlock chosen
  have secondRun : Call.run subset first (.applyHookX64 (.granting false 0x20000000000) 0x140001000
      0x160000000) = some second := Call.run_of_chosenBlock chosenFar
  have ran : Call.runAll subset start calls = some lib := by
    rw [Call.runAll, firstRun, Option.bind_some, Call.runAll, secondRun, Option.bind_some]
    rfl
  have fresh : Call.FreshAll subset start calls := by
    refine ⟨Call.fresh_of_chosenBlock chosen (installation.firstBlock (fun _ => rfl) rfl),
      fun middle ran => ?_⟩
    obtain rfl := Option.some.inj (firstRun.symm.trans ran)
    exact ⟨Call.fresh_of_chosenBlock chosenFar blockFar, fun _ _ => ⟨trivial, fun _ _ => trivial⟩⟩
  refine ⟨lib, ran, ?_, ?_⟩
  · exact (congrArg (· 0x140001000) (removeHook_entry _ second _)).trans HookMap.erase_self
  · rw [(leaked_of_run (fun _ => rfl) rfl fresh ran).1, Call.leaksAll, firstRun, Option.map_some,
      Option.getD_some, Call.leaksAll, Call.leaks, Call.leaks, entry, chosenFar]
    simp [start, HookLib.holding, Path.blockSize]

end HookLib

end Detours

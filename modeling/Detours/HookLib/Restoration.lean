import Detours.Bytes.Patches
import Detours.HookLib.Removal
import Detours.HookLib.Runs

namespace Detours

open Detours.Bytes Detours.Decoding Detours.Zydis

/-- An entry as a patch: it covers what it saved. -/
def Hook.patch (function : BitVec 64) (hook : Hook 64) : Patch (BitVec 64) Byte where
  region := span function hook.originalBytes.length
  covered := Memory.write (fun _ => 0) function hook.originalBytes

def HookMap.patches (hooks : HookMap 64) : Patches (BitVec 64) (BitVec 64) Byte := fun function =>
  (hooks function).map (Hook.patch function)

variable {hooks : HookMap 64} {hook : Hook 64} {key : BitVec 64}

theorem HookMap.patches_insert (absent : hooks key = none) :
    (hooks.insert key hook).patches = Function.update hooks.patches key (some (hook.patch key)) := by
  funext function
  by_cases same : function = key
  · subst same
    rw [Function.update_self, patches, insert_self absent, Option.map_some]
  · rw [Function.update_of_ne same, patches, patches, insert_other same]

theorem HookMap.patches_erase :
    (hooks.erase key).patches = Function.update hooks.patches key none := by
  funext function
  by_cases same : function = key
  · subst same
    rw [Function.update_self, patches, erase_self, Option.map_none]
  · rw [Function.update_of_ne same, patches, patches, erase_other same]

theorem HookMap.patches_eq_none (absent : hooks key = none) : hooks.patches key = none := by
  rw [patches, absent, Option.map_none]

namespace HookLib

theorem patches_region (lib : HookLib 64) : lib.activeHooks.patches.region = lib.hookedCode := by
  ext address
  constructor
  · rintro ⟨function, patch, found, inside⟩
    obtain ⟨hook, entry, rfl⟩ := Option.map_eq_some_iff.mp found
    exact ⟨function, hook, entry, inside⟩
  · rintro ⟨function, hook, entry, inside⟩
    exact ⟨function, hook.patch function, congrArg (Option.map (Hook.patch function)) entry, inside⟩

/-- The trampoline starts with the stolen bytes when the call is done, because no stolen
instruction has anything to relocate or each is emitted as it was. -/
def SavesStolen (zydis : Api) (environment : Environment 64) (lib : HookLib 64)
    (originalFunction targetFunction trampoline : BitVec 64) (size : Nat)
    (instructions : List (zydis.Instruction .long64)) : Path → Prop
  | .near =>
      2 ^ 31 < absDelta originalFunction trampoline ∨
        ∀ instruction ∈ instructions, instruction.item.info.isRelative = true →
          instruction.item.info.disp.size = 0
  | .far =>
      TrampolineBuilder.Verbatim zydis environment.leftover
        (TrampolineBuilder.buildStart zydis environment.leftover
          (lib.withBlock environment trampoline 0x1000).memory originalFunction size trampoline
          targetFunction)
        originalFunction instructions

/-- An installation that can be undone: its block is apart from `area`, a new hook saves its
own bytes and meets no other hook, and a repeated one patches what is saved already. -/
structure Undoable (area : Set (BitVec 64)) (path : Path) (zydis : Api)
    (environment : Environment 64) (lib : HookLib 64)
    (originalFunction targetFunction trampoline : BitVec 64) : Prop where
  fresh : FreshBlock path zydis environment lib originalFunction trampoline
  decodes : PrefixDecodes zydis lib.memory originalFunction path.neededSize
  block : Disjoint (span trampoline path.blockSize) area
  first : lib.activeHooks originalFunction = none →
    Disjoint (span originalFunction (stolenSize path zydis lib originalFunction)) lib.hookedCode ∧
    ∃ stolen : Stolen zydis lib.memory originalFunction path.neededSize
        (stolenSize path zydis lib originalFunction),
      SavesStolen zydis environment lib originalFunction targetFunction trampoline
        (stolenSize path zydis lib originalFunction) stolen.instructions path
  again : lib.activeHooks originalFunction ≠ none →
    span originalFunction (stolenSize path zydis lib originalFunction) ⊆ lib.hookedCode

/-- Any removal can be undone: there is nothing to lose. -/
def UndoableStep (zydis : Api) (area : Set (BitVec 64)) (lib after : HookLib 64) : Prop :=
  ∃ call : Call, call.run zydis lib = some after ∧
    ∀ environment originalFunction targetFunction path trampoline,
      call = .applyHookX64 environment originalFunction targetFunction →
      chosenBlock environment originalFunction = some (some (path, trampoline)) →
      Undoable area path zydis environment lib originalFunction targetFunction trampoline

def removeAll (lib : HookLib 64) (calls : List (Environment 64 × BitVec 64)) : HookLib 64 :=
  calls.foldl (fun lib call => removeHook call.1 lib call.2) lib

variable {path : Path} {zydis : Api} {environment : Environment 64} {lib after start : HookLib 64}
  {originalFunction targetFunction trampoline function : BitVec 64} {size : Nat}
  {area : Set (BitVec 64)} {origin : Memory 64}

theorem hooked_saved (installation : Installation path zydis lib originalFunction trampoline size)
    (inside : zydis.DisplacementInside .long64) (fields : zydis.RelativeDisplacement .long64)
    (stolen : Stolen zydis lib.memory originalFunction path.neededSize size)
    (saves : SavesStolen zydis environment lib originalFunction targetFunction trampoline size
      stolen.instructions path) :
    (hooked path zydis environment lib originalFunction targetFunction trampoline).memory.read
      trampoline size = lib.memory.read originalFunction size := by
  cases path with
  | near => exact (hooked_near_saved_iff installation stolen inside fields).mpr saves
  | far => exact hooked_far_saved_of_verbatim installation stolen saves

section Step

variable (intact : lib.activeHooks.patches.Intact area origin lib.memory)

include intact

theorem intact_hooked (reads : zydis.ReadsInstruction .long64)
    (inside : zydis.DisplacementInside .long64) (fields : zydis.RelativeDisplacement .long64)
    (undoable : Undoable area path zydis environment lib originalFunction targetFunction
      trampoline) :
    (hooked path zydis environment lib originalFunction targetFunction
        trampoline).activeHooks.patches.Intact area origin
      (hooked path zydis environment lib originalFunction targetFunction trampoline).memory := by
  obtain ⟨fresh, decodes, block, first, again⟩ := undoable
  have installation := fresh.installation reads decodes
  have small := installation.small
  have hooks := hooked_activeHooks environment targetFunction installation
  have changes := hooked_changesOnly environment targetFunction installation inside
  have kept {address : BitVec 64} (member : address ∈ area)
      (outside : address ∉ span originalFunction (stolenSize path zydis lib originalFunction)) :
      (hooked path zydis environment lib originalFunction targetFunction trampoline).memory
        address = lib.memory address := by
    refine changes address ?_
    rintro (own | own)
    · exact outside own
    · exact Set.disjoint_left.mp block own member
  cases entry : lib.activeHooks originalFunction with
  | none =>
      obtain ⟨apart, stolen, saves⟩ := first entry
      have saved := hooked_saved installation inside fields stolen saves
      rw [saved] at hooks
      rw [hooks, HookMap.patches_insert entry]
      refine intact.apply (HookMap.patches_eq_none entry) ?_ ?_ ?_
      all_goals rw [Hook.patch, Memory.read_length]
      · rwa [patches_region]
      · intro address own
        obtain ⟨index, below, bound, rfl⟩ := exists_offset own
        dsimp only
        rw [Memory.write_base_add bound, Memory.read_getElem? below, Option.getD_some]
      · exact fun address member outside => kept member outside
  | some hook =>
      rw [hooks, HookMap.insert_present entry]
      refine intact.disturb fun address member outside => kept member fun own => outside ?_
      rw [patches_region]
      exact again (by rw [entry]; exact Option.some_ne_none hook) own

theorem intact_removed (environment : Environment 64) (originalFunction : BitVec 64) :
    (removeHook environment lib originalFunction).activeHooks.patches.Intact area origin
      (removeHook environment lib originalFunction).memory := by
  cases entry : lib.activeHooks originalFunction with
  | none => rwa [removeHook, entry]
  | some hook =>
      rw [removeHook_activeHooks environment entry, HookMap.patches_erase,
        removeHook_memory environment entry]
      refine intact.undo (congrArg (Option.map (Hook.patch originalFunction)) entry) ?_
        Memory.write_changesOnly
      intro address own
      obtain ⟨index, below, bound, rfl⟩ := exists_offset own
      rw [Hook.patch]
      dsimp only
      rw [Memory.write_base_add bound, Memory.write_base_add bound,
        List.getElem?_eq_getElem below, Option.getD_some, Option.getD_some]

end Step

theorem intact_of_run (reads : zydis.ReadsInstruction .long64)
    (inside : zydis.DisplacementInside .long64) (fields : zydis.RelativeDisplacement .long64)
    (noHooks : ∀ function, start.activeHooks function = none)
    (run : Relation.ReflTransGen (UndoableStep zydis area) start lib) :
    lib.activeHooks.patches.Intact area start.memory lib.memory := by
  induction run with
  | refl => exact .unpatched (fun function => HookMap.patches_eq_none (noHooks function)) _
  | tail _ step ih =>
      obtain ⟨call, ran, undoable⟩ := step
      cases Call.effect_of_run ran with
      | none => exact ih
      | hooked environment path originalFunction targetFunction trampoline chosen =>
          exact intact_hooked ih reads inside fields (undoable _ _ _ _ _ rfl chosen)
      | removed environment originalFunction hook entry =>
          exact intact_removed ih environment originalFunction

theorem intact_removeAll (calls : List (Environment 64 × BitVec 64))
    (intact : lib.activeHooks.patches.Intact area origin lib.memory) :
    (removeAll lib calls).activeHooks.patches.Intact area origin (removeAll lib calls).memory := by
  induction calls generalizing lib with
  | nil => exact intact
  | cons call rest ih => exact ih (intact_removed intact call.1 call.2)

theorem removeAll_entry (calls : List (Environment 64 × BitVec 64)) {hook : Hook 64}
    (entry : (removeAll lib calls).activeHooks function = some hook) :
    lib.activeHooks function = some hook ∧ function ∉ calls.map Prod.snd := by
  induction calls generalizing lib with
  | nil => exact ⟨entry, List.not_mem_nil⟩
  | cons call rest ih =>
      obtain ⟨left, others⟩ := ih entry
      rw [removeHook_entry, HookMap.erase_some] at left
      rw [List.map_cons, List.mem_cons, not_or]
      exact ⟨left.2, left.1, others⟩

/-- In every state of every run the code outside the hooks is the code at the start, and
removing the hooks in any order brings back the rest of it. -/
theorem removeAll_restores (reads : zydis.ReadsInstruction .long64)
    (inside : zydis.DisplacementInside .long64) (fields : zydis.RelativeDisplacement .long64)
    (noHooks : ∀ function, start.activeHooks function = none)
    (run : Relation.ReflTransGen (UndoableStep zydis area) start lib)
    (calls : List (Environment 64 × BitVec 64))
    (all : ∀ function, lib.activeHooks function ≠ none → function ∈ calls.map Prod.snd) :
    (∀ address ∈ area, address ∉ lib.hookedCode → lib.memory address = start.memory address) ∧
    (∀ function, (removeAll lib calls).activeHooks function = none) ∧
    ∀ address ∈ area, (removeAll lib calls).memory address = start.memory address := by
  have intact := intact_of_run reads inside fields noHooks run
  have gone (function : BitVec 64) : (removeAll lib calls).activeHooks function = none := by
    rw [Option.eq_none_iff_forall_ne_some]
    intro hook entry
    obtain ⟨left, others⟩ := removeAll_entry calls entry
    exact others (all function (by rw [left]; exact Option.some_ne_none hook))
  refine ⟨fun address member outside => ?_, gone, ?_⟩
  · exact intact.visible address member (by rwa [patches_region])
  · exact (intact_removeAll calls intact).restored fun function =>
      HookMap.patches_eq_none (gone function)

theorem verbatim_nops (leftover : BitVec 64 → Leftover) (count : Nat)
    (state : TrampolineBuilder.RewriteState) (address : BitVec 64) :
    TrampolineBuilder.Verbatim subset leftover state address
      (List.replicate count (Subset.Form.nop.instruction [] rfl)) := by
  induction count generalizing state address with
  | zero => trivial
  | succ count ih =>
      refine ⟨?_, ih _ _⟩
      rw [TrampolineBuilder.rewriteInstruction_bytes, TrampolineBuilder.encoderCalls_plain,
        TrampolineBuilder.annotated_instruction]
      · rfl
      · rw [TrampolineBuilder.annotated_isRelative]
        exact Subset.Form.decoded_isRelative

theorem removeAll_restores_neighbours :
    let start := HookLib.holding 0x140001000 (List.replicate 19 0x90)
    ∃ middle lib,
      applyHookX64 subset (.granting true 0) start 0x140001000 0x150000000 =
        some (middle, some 0x140010000) ∧
      applyHookX64 subset (.granting false 0x20000000000) middle 0x140001005 0x160000000 =
        some (lib, some 0x20000000000) ∧
      ∀ environment, ∀ address ∈ span 0x140001000 0x1000,
        (removeAll lib [(environment, 0x140001000), (environment, 0x140001005)]).memory address =
          start.memory address ∧
        (removeAll lib [(environment, 0x140001005), (environment, 0x140001000)]).memory address =
          start.memory address := by
  intro start
  have chosen : chosenBlock (.granting true 0) 0x140001000 = some (some (.near, 0x140010000)) :=
    chosenBlock_granting_near (by decide)
  have installation : Installation .near subset start 0x140001000 0x140010000 5 :=
    .of_covers Subset.readsInstruction (by decide +kernel) (by decide)
      (span_disjoint (by decide) (by decide))
  let middle := hooked .near subset (.granting true 0) start 0x140001000 0x150000000 0x140010000
  have hooks := hooked_activeHooks (.granting true 0) 0x150000000 installation
  have chosenFar : chosenBlock (.granting false 0x20000000000) 0x140001005 =
      some (some (.far, 0x20000000000)) := chosenBlock_granting_far (by decide)
  have second : Installation .far subset middle 0x140001005 0x20000000000 14 :=
    .of_covers Subset.readsInstruction (by decide +kernel) (by decide)
      (span_disjoint (by decide) (by decide))
  let lib := hooked .far subset (.granting false 0x20000000000) middle 0x140001005 0x160000000
    0x20000000000
  let nop : subset.Instruction .long64 := Subset.Form.nop.instruction [] rfl
  have firstStep : UndoableStep subset (span 0x140001000 0x1000) start middle := by
    refine ⟨_, Call.run_of_chosenBlock chosen, ?_⟩
    rintro environment originalFunction targetFunction path trampoline call other
    cases call
    rw [chosen] at other
    cases other
    refine ⟨installation.firstBlock (fun _ => rfl) rfl, installation.decodes,
      span_disjoint (by decide) (by decide), fun _ => ?_, fun present => absurd rfl present⟩
    rw [hookedCode_empty fun _ => rfl, installation.measured]
    refine ⟨Set.disjoint_empty _, ⟨List.replicate 5 nop, by decide +kernel, .of_last (by decide)⟩,
      .inr fun instruction member _ => ?_⟩
    rw [List.eq_of_mem_replicate member]
    rfl
  have secondStep : UndoableStep subset (span 0x140001000 0x1000) middle lib := by
    refine ⟨_, Call.run_of_chosenBlock chosenFar, ?_⟩
    rintro environment originalFunction targetFunction path trampoline call other
    cases call
    rw [chosenFar] at other
    cases other
    have absent : middle.activeHooks 0x140001005 = none :=
      (congrArg (· 0x140001005) hooks).trans (HookMap.insert_other (by decide))
    refine ⟨installation.secondBlock (fun _ => rfl) rfl second
        (span_disjoint (by decide) (by decide)) (span_disjoint (by decide) (by decide))
        (span_disjoint (by decide) (by decide)), second.decodes,
      span_disjoint (by decide) (by decide), fun _ => ?_, fun present => absurd absent present⟩
    rw [second.measured]
    refine ⟨Disjoint.mono_right (hookedCode_hooked ..) ?_,
      ⟨List.replicate 14 nop, by decide +kernel, .of_last (by decide)⟩, verbatim_nops _ _ _ _⟩
    rw [installation.measured_withBlock, hookedCode_empty fun _ => rfl, Set.union_empty]
    exact span_disjoint (by decide) (by decide)
  have run := (Relation.ReflTransGen.single firstStep).tail secondStep
  have entries (function : BitVec 64) (present : lib.activeHooks function ≠ none) :
      function = 0x140001000 ∨ function = 0x140001005 := by
    obtain ⟨hook, entry⟩ := Option.ne_none_iff_exists'.mp present
    rw [hooked_activeHooks _ _ second] at entry
    rcases HookMap.insert_some entry with old | ⟨same, _⟩
    · rw [hooks] at old
      rcases HookMap.insert_some old with none | ⟨same, _⟩
      · cases none
      · exact .inl same
    · exact .inr same
  refine ⟨middle, lib, applyHookX64_of_chosenBlock _ _ _ chosen,
    applyHookX64_of_chosenBlock _ _ _ chosenFar, fun environment address member => ⟨?_, ?_⟩⟩
  · exact (removeAll_restores Subset.readsInstruction Subset.displacementInside
      Subset.relativeDisplacement (fun _ => rfl) run _
      fun function present => by simpa using entries function present).2.2 address member
  · exact (removeAll_restores Subset.readsInstruction Subset.displacementInside
      Subset.relativeDisplacement (fun _ => rfl) run _
      fun function present => by simpa using (entries function present).symm).2.2 address member

end HookLib

end Detours

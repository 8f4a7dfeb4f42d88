import Detours.HookLib.TransparentRuns
import Detours.Machine.Simulation

namespace Detours

open Detours.Bytes Detours.Decoding Detours.Machine Detours.Zydis

/-- Which functions are led to which targets. -/
abbrev Redirections := BitVec 64 → Option (BitVec 64)

/-- What a call means for the redirections: an installation without a block means nothing. -/
def Call.redirect (redirections : Redirections) : Call → Redirections
  | applyHookX64 environment originalFunction targetFunction =>
      if (HookLib.chosenBlock environment originalFunction).join.isSome then
        Function.update redirections originalFunction (some targetFunction)
      else redirections
  | removeHook _ originalFunction => Function.update redirections originalFunction none

namespace HookLib

/-- An installation whose hook is transparent: it steals code of `area` that is not stolen yet,
its block is apart from `area`, and the stolen instructions can be moved. -/
structure Clean {Flags : Type} (semantics : Semantics Flags) (area : Set (BitVec 64)) (path : Path)
    (zydis : Api) (environment : Environment 64) (lib : HookLib 64)
    (originalFunction targetFunction trampoline : BitVec 64) : Prop where
  absent : lib.activeHooks originalFunction = none
  fresh : FreshBlock path zydis environment lib originalFunction trampoline
  decodes : PrefixDecodes zydis lib.memory originalFunction path.neededSize
  block : Disjoint (span trampoline path.blockSize) area
  stolen : span originalFunction (stolenSize path zydis lib originalFunction) ⊆ area \ lib.hookedCode
  portable : ∃ stolen : Stolen zydis lib.memory originalFunction path.neededSize
      (stolenSize path zydis lib originalFunction),
    Portable zydis semantics environment lib originalFunction targetFunction trampoline
      (stolenSize path zydis lib originalFunction) stolen.instructions path

/-- One call, beside what it means. Installations are clean, and removals are of hooks that
saved what `origin` has. -/
def RedirectStep {Flags : Type} (zydis : Api) (semantics : Semantics Flags) (area : Set (BitVec 64))
    (origin : Memory 64) (before after : HookLib 64 × Redirections) : Prop :=
  ∃ call : Call, call.run zydis before.1 = some after.1 ∧ after.2 = call.redirect before.2 ∧
    (∀ environment originalFunction targetFunction path trampoline,
      call = .applyHookX64 environment originalFunction targetFunction →
      chosenBlock environment originalFunction = some (some (path, trampoline)) →
      Clean semantics area path zydis environment before.1 originalFunction targetFunction
        trampoline) ∧
    ∀ environment originalFunction hook,
      call = .removeHook environment originalFunction →
      before.1.activeHooks originalFunction = some hook →
      hook.originalBytes = origin.read originalFunction hook.originalBytes.length

variable {Flags : Type} {zydis : Api} {semantics : Semantics Flags} {path : Path}
  {environment : Environment 64} {lib after : HookLib 64} {area : Set (BitVec 64)}
  {processor : Processor 64 (Core Flags) (zydis.decoder .long64)}
  {origin : Memory 64} {redirections : Redirections} {hook : Hook 64} {block : Allocation 64}
  {function originalFunction targetFunction trampoline target : BitVec 64}

/-- The entry of a function stands for a transparent hook of what `origin` has there. -/
structure Realizes (processor : Processor 64 (Core Flags) (zydis.decoder .long64))
    (origin : Memory 64) (lib : HookLib 64) (function target : BitVec 64) (hook : Hook 64)
    (block : Allocation 64) (instructions : List (zydis.Instruction .long64)) : Prop where
  live : block ∈ lib.allocations
  base : block.base = hook.trampoline
  saved : (blockBytes instructions).length = hook.originalBytes.length
  loaded : origin.read function (blockBytes instructions).length = blockBytes instructions
  transparent : Transparent processor TrampolineBuilder.saveSlot
    (span function hook.originalBytes.length ∪ block.span) lib.memory function target
    hook.trampoline instructions

/-- The process realizes the redirections, and what is not hooked is as it was. -/
structure Redirects (processor : Processor 64 (Core Flags) (zydis.decoder .long64))
    (area : Set (BitVec 64)) (origin : Memory 64) (lib : HookLib 64)
    (redirections : Redirections) : Prop extends WellFormed lib where
  unhooked : ∀ function, lib.activeHooks function = none → redirections function = none
  hooked : ∀ function hook, lib.activeHooks function = some hook →
    ∃ target block instructions, redirections function = some target ∧
      Realizes processor origin lib function target hook block instructions
  visible : ∀ address ∈ area, address ∉ lib.hookedCode → lib.memory address = origin address
  foreign : Disjoint lib.blocks area
  separate : ∀ function other hook otherHook,
    lib.activeHooks function = some hook → lib.activeHooks other = some otherHook →
    function ≠ other →
    Disjoint (span function hook.originalBytes.length) (span other otherHook.originalBytes.length)

theorem Realizes.undisturbed {instructions : List (zydis.Instruction .long64)}
    (realizes : Realizes processor origin lib function target hook block instructions)
    (undisturbed : Undisturbed function hook block lib after) :
    Realizes processor origin after function target hook block instructions where
  live := undisturbed.live
  base := realizes.base
  saved := realizes.saved
  loaded := realizes.loaded
  transparent := realizes.transparent.congr undisturbed.memory

theorem separate_insert {hooks : HookMap 64} {key : BitVec 64}
    (separate : ∀ function other found otherFound,
      hooks function = some found → hooks other = some otherFound → function ≠ other →
      Disjoint (span function found.originalBytes.length)
        (span other otherFound.originalBytes.length))
    (apart : ∀ function found, hooks function = some found →
      Disjoint (span key hook.originalBytes.length) (span function found.originalBytes.length)) :
    ∀ function other found otherFound,
      hooks.insert key hook function = some found →
      hooks.insert key hook other = some otherFound → function ≠ other →
      Disjoint (span function found.originalBytes.length)
        (span other otherFound.originalBytes.length) := by
  intro function other found otherFound entry otherEntry different
  rcases HookMap.insert_some entry with old | ⟨own, _, rfl⟩ <;>
    rcases HookMap.insert_some otherEntry with otherOld | ⟨otherOwn, _, rfl⟩
  · exact separate _ _ _ _ old otherOld different
  · rw [otherOwn]
    exact (apart _ _ old).symm
  · rw [own]
    exact apart _ _ otherOld
  · exact absurd (own.trans otherOwn.symm) different

section Step

variable {sequential : Mnemonic → Bool}

section Clean

variable (clean : Clean semantics area path zydis environment lib originalFunction targetFunction
  trampoline)

include clean

theorem Clean.installation (reads : zydis.ReadsInstruction .long64) :
    Installation path zydis lib originalFunction trampoline
      (stolenSize path zydis lib originalFunction) :=
  clean.fresh.installation reads clean.decodes

theorem Clean.apart (entry : lib.activeHooks function = some hook) :
    Disjoint (span originalFunction (stolenSize path zydis lib originalFunction))
      (span function hook.originalBytes.length) :=
  Set.disjoint_left.mpr fun _ inside other =>
    (clean.stolen inside).2 (span_subset_hookedCode entry other)

theorem Clean.activeHooks (reads : zydis.ReadsInstruction .long64) :
    ∃ bytes : List (BitVec 8), bytes.length = stolenSize path zydis lib originalFunction ∧
      (HookLib.hooked path zydis environment lib originalFunction targetFunction
        trampoline).activeHooks = lib.activeHooks.insert originalFunction ⟨trampoline, bytes⟩ :=
  ⟨_, Memory.read_length .., hooked_activeHooks environment targetFunction (clean.installation reads)⟩

theorem Clean.subset_hookedCode (reads : zydis.ReadsInstruction .long64) :
    span originalFunction (stolenSize path zydis lib originalFunction) ∪ lib.hookedCode ⊆
      (HookLib.hooked path zydis environment lib originalFunction targetFunction
        trampoline).hookedCode := by
  obtain ⟨bytes, length, hooks⟩ := clean.activeHooks reads
  rintro address (stolen | ⟨function, hook, entry, covers⟩)
  · refine ⟨originalFunction, _, hooks ▸ HookMap.insert_self clean.absent, ?_⟩
    rwa [length]
  · have different : function ≠ originalFunction := by
      rintro rfl
      rw [clean.absent] at entry
      cases entry
    exact ⟨function, hook, by rw [hooks, HookMap.insert_other different, entry], covers⟩

theorem Clean.visible (reads : zydis.ReadsInstruction .long64)
    (inside : zydis.DisplacementInside .long64) {address : BitVec 64} (member : address ∈ area)
    (outside : address ∉ (HookLib.hooked path zydis environment lib originalFunction targetFunction
      trampoline).hookedCode) :
    address ∉ lib.hookedCode ∧ (HookLib.hooked path zydis environment lib originalFunction
      targetFunction trampoline).memory address = lib.memory address := by
  have hooked := clean.subset_hookedCode reads
  refine ⟨fun code => outside (hooked (.inr code)), ?_⟩
  refine hooked_changesOnly environment targetFunction (clean.installation reads) inside address ?_
  rintro (stolen | own)
  · exact outside (hooked (.inl stolen))
  · exact Set.disjoint_left.mp clean.block own member

theorem Clean.realizes (documented : Documented zydis) (jmp : sequential Mnemonic.jmp = false)
    (surrounds : TrampolineBuilder.Surrounds sequential)
    (chosen : chosenBlock environment originalFunction = some (some (path, trampoline)))
    (visible : ∀ address ∈ area, address ∉ lib.hookedCode → lib.memory address = origin address)
    {bytes : List (BitVec 8)} (length : bytes.length = stolenSize path zydis lib originalFunction) :
    ∃ instructions, Realizes
      (sequentialProcessor semantics sequential documented.reads documented.opcodes jmp) origin
      (HookLib.hooked path zydis environment lib originalFunction targetFunction trampoline)
      originalFunction targetFunction ⟨trampoline, bytes⟩ ⟨trampoline, path.blockSize⟩
      instructions := by
  have installation := clean.installation documented.reads
  obtain ⟨stolen, portable⟩ := clean.portable
  have small := installation.small
  refine ⟨stolen.instructions, ?_, rfl, stolen.length_eq.trans length.symm, ?_, ?_⟩
  · rw [hooked_allocations]
    exact List.mem_cons_self
  · rw [stolen.length_eq, ← stolen.bytes]
    exact (Memory.read_eq_of_agree (by omega) fun address inside =>
      visible address (clean.stolen inside).1 (clean.stolen inside).2).symm
  · rw [length]
    exact hooked_transparent documented jmp surrounds chosen installation stolen portable

end Clean

theorem Redirects.after_hooked (documented : Documented zydis)
    (jmp : sequential Mnemonic.jmp = false) (surrounds : TrampolineBuilder.Surrounds sequential)
    (redirects : Redirects
      (sequentialProcessor semantics sequential documented.reads documented.opcodes jmp) area
      origin lib redirections)
    (chosen : chosenBlock environment originalFunction = some (some (path, trampoline)))
    (clean : Clean semantics area path zydis environment lib originalFunction targetFunction
      trampoline) :
    Redirects
      (sequentialProcessor semantics sequential documented.reads documented.opcodes jmp) area
      origin (HookLib.hooked path zydis environment lib originalFunction targetFunction trampoline)
      (Function.update redirections originalFunction (some targetFunction)) := by
  obtain ⟨bytes, length, hooks⟩ := clean.activeHooks documented.reads
  refine ⟨redirects.toWellFormed.after_hooked clean.fresh, ?unhooked, ?hooked, ?visible, ?foreign,
    ?separate⟩
  case unhooked =>
    intro function missing
    rw [hooks] at missing
    by_cases same : function = originalFunction
    · rw [same, HookMap.insert_self clean.absent] at missing
      cases missing
    · rw [HookMap.insert_other same] at missing
      rw [Function.update_of_ne same, redirects.unhooked function missing]
  case hooked =>
    intro function hook entry
    rw [hooks] at entry
    by_cases same : function = originalFunction
    · rw [same, HookMap.insert_self clean.absent, Option.some.injEq] at entry
      obtain ⟨instructions, realizes⟩ :=
        clean.realizes documented jmp surrounds chosen redirects.visible length
      rw [same, ← entry]
      exact ⟨targetFunction, _, instructions, Function.update_self .., realizes⟩
    · rw [HookMap.insert_other same] at entry
      obtain ⟨target, block, instructions, redirected, realizes⟩ := redirects.hooked _ _ entry
      exact ⟨target, block, instructions, by rw [Function.update_of_ne same, redirected],
        realizes.undisturbed (undisturbed_hooked entry realizes.live documented.reads
          documented.inside clean.decodes clean.fresh (Ne.symm same) (clean.apart entry))⟩
  case visible =>
    intro address inside outside
    obtain ⟨unstolen, same⟩ := clean.visible documented.reads documented.inside inside outside
    rw [same, redirects.visible address inside unstolen]
  case foreign =>
    rw [blocks_hooked, Set.disjoint_union_left]
    exact ⟨clean.block, redirects.foreign⟩
  case separate =>
    rw [hooks]
    refine separate_insert redirects.separate fun function found entry => ?_
    rw [length]
    exact clean.apart entry

theorem removed_visible (entry : lib.activeHooks originalFunction = some hook)
    (saved : hook.originalBytes = origin.read originalFunction hook.originalBytes.length)
    {address : BitVec 64} (outside : address ∉ (removeHook environment lib originalFunction).hookedCode)
    (visible : address ∉ lib.hookedCode → lib.memory address = origin address) :
    (removeHook environment lib originalFunction).memory address = origin address := by
  rw [removeHook_memory environment entry]
  by_cases own : address ∈ span originalFunction hook.originalBytes.length
  · obtain ⟨index, below, bound, rfl⟩ := exists_offset own
    rw [Memory.write_base_add bound, saved, Memory.read_getElem? below, Option.getD_some]
  · rw [Memory.write_changesOnly address own]
    refine visible ?_
    rintro ⟨function, other, otherEntry, covers⟩
    refine outside ⟨function, other, ?_, covers⟩
    rw [removeHook_activeHooks environment entry, HookMap.erase_some]
    refine ⟨?_, otherEntry⟩
    rintro rfl
    rw [entry, Option.some.injEq] at otherEntry
    exact own (otherEntry ▸ covers)

theorem Redirects.after_removed (redirects : Redirects processor area origin lib redirections)
    (entry : lib.activeHooks originalFunction = some hook)
    (saved : hook.originalBytes = origin.read originalFunction hook.originalBytes.length) :
    Redirects processor area origin (removeHook environment lib originalFunction)
      (Function.update redirections originalFunction none) := by
  have entries {function : BitVec 64} {hook : Hook 64} :
      (removeHook environment lib originalFunction).activeHooks function = some hook ↔
        function ≠ originalFunction ∧ lib.activeHooks function = some hook := by
    rw [removeHook_activeHooks environment entry, HookMap.erase_some]
  refine ⟨redirects.toWellFormed.after_removed entry, ?unhooked, ?hooked, ?visible, ?foreign,
    ?separate⟩
  case unhooked =>
    intro function missing
    by_cases same : function = originalFunction
    · rw [same, Function.update_self]
    · rw [removeHook_activeHooks environment entry, HookMap.erase_other same] at missing
      rw [Function.update_of_ne same, redirects.unhooked function missing]
  case hooked =>
    intro function other otherEntry
    obtain ⟨different, old⟩ := entries.mp otherEntry
    obtain ⟨target, block, instructions, redirected, realizes⟩ := redirects.hooked _ _ old
    have undisturbed : Undisturbed function other block lib
        (removeHook environment lib originalFunction) :=
      undisturbed_removed redirects.toWellFormed old realizes.live realizes.base entry
        (Ne.symm different) (redirects.separate _ _ _ _ entry old (Ne.symm different))
    exact ⟨target, block, instructions, by rw [Function.update_of_ne different, redirected],
      realizes.undisturbed undisturbed⟩
  case visible =>
    intro address inside outside
    exact removed_visible entry saved outside (redirects.visible address inside)
  case foreign =>
    refine redirects.foreign.mono_left ?_
    rintro address ⟨allocation, inside, block⟩
    exact ⟨allocation, ((mem_removeHook_allocations environment entry).mp inside).1, block⟩
  case separate =>
    intro function other hook otherHook first second
    exact redirects.separate _ _ _ _ (entries.mp first).2 (entries.mp second).2

end Step

section Run

variable {sequential : Mnemonic → Bool} {start : HookLib 64}

theorem Redirects.step (documented : Documented zydis) (jmp : sequential Mnemonic.jmp = false)
    (surrounds : TrampolineBuilder.Surrounds sequential) {before after : HookLib 64 × Redirections}
    (redirects : Redirects
      (sequentialProcessor semantics sequential documented.reads documented.opcodes jmp) area
      origin before.1 before.2)
    (step : RedirectStep zydis semantics area origin before after) :
    Redirects
      (sequentialProcessor semantics sequential documented.reads documented.opcodes jmp) area
      origin after.1 after.2 := by
  obtain ⟨call, ran, meant, installs, removes⟩ := step
  rw [meant]
  cases call with
  | applyHookX64 environment originalFunction targetFunction =>
      rw [Call.run, applyHookX64_eq] at ran
      rw [Call.redirect]
      cases chosen : chosenBlock environment originalFunction with
      | none =>
          rw [chosen] at ran
          cases ran
      | some block =>
          rw [chosen, Option.map_some, Option.map_some, Option.some.injEq] at ran
          rw [← ran]
          cases block with
          | none => exact redirects
          | some block =>
              exact redirects.after_hooked documented jmp surrounds chosen
                (installs _ _ _ _ _ rfl chosen)
  | removeHook environment originalFunction =>
      rw [Call.run, Option.some.injEq] at ran
      rw [← ran, Call.redirect]
      cases entry : before.1.activeHooks originalFunction with
      | some hook => exact redirects.after_removed entry (removes _ _ hook rfl entry)
      | none =>
          have same : Function.update before.2 originalFunction none = before.2 := by
            rw [Function.update_eq_self_iff, redirects.unhooked _ entry]
          rwa [removeHook, entry, same]

def detours (processor : Processor 64 (Core Flags) (zydis.decoder .long64)) (origin : Memory 64)
    (lib : HookLib 64) (redirections : Redirections) : Set (Detour 64 (zydis.decoder .long64)) :=
  { detour | ∃ hook block, lib.activeHooks detour.entry = some hook ∧
      redirections detour.entry = some detour.target ∧ detour.trampoline = hook.trampoline ∧
      detour.hook = span detour.entry hook.originalBytes.length ∪ block.span ∧
      Realizes processor origin lib detour.entry detour.target hook block detour.items }

section Redirected

variable (redirects : Redirects processor area origin lib redirections)

include redirects

theorem Redirects.unhooked_iff :
    lib.activeHooks function = none ↔ redirections function = none := by
  refine ⟨redirects.unhooked function, fun missing => ?_⟩
  rw [Option.eq_none_iff_forall_ne_some]
  intro hook entry
  obtain ⟨target, _, _, redirected, _⟩ := redirects.hooked function hook entry
  rw [missing] at redirected
  cases redirected

theorem Redirects.exists_detour (redirected : redirections function = some target) :
    ∃ detour ∈ detours processor origin lib redirections,
      detour.entry = function ∧ detour.target = target := by
  cases entry : lib.activeHooks function with
  | none =>
      rw [redirects.unhooked function entry] at redirected
      cases redirected
  | some hook =>
      obtain ⟨other, block, instructions, same, realizes⟩ := redirects.hooked function hook entry
      rw [redirected, Option.some.injEq] at same
      subst same
      exact ⟨⟨span function hook.originalBytes.length ∪ block.span, function, target,
          hook.trampoline, instructions⟩,
        ⟨hook, block, entry, redirected, rfl, rfl, realizes⟩, rfl, rfl⟩

omit redirects in
theorem detours_realized {detour : Detour 64 (zydis.decoder .long64)}
    (member : detour ∈ detours processor origin lib redirections) :
    detour.hook ⊆ lib.hookedCode ∪ lib.blocks ∧
      Transparent processor TrampolineBuilder.saveSlot detour.hook lib.memory detour.entry
        detour.target detour.trampoline detour.items := by
  obtain ⟨hook, block, entry, _, trampoline, bytes, realizes⟩ := member
  rw [bytes, trampoline]
  exact ⟨Set.union_subset_union (span_subset_hookedCode entry) (span_subset_blocks realizes.live),
    realizes.transparent⟩

end Redirected

end Run

section First

variable {size : Nat} {start : HookLib 64}
  (installation : Installation path zydis start originalFunction trampoline size)
  (noHooks : ∀ function, start.activeHooks function = none)

include installation noHooks

end First

section Nops

variable {steps : BitVec 64 × State 64 (Core Unit) → BitVec 64 × State 64 (Core Unit) → Prop}

def nops : HookLib 64 := HookLib.holding 0x140001000 (List.replicate 6 0x90)

end Nops

end HookLib

end Detours

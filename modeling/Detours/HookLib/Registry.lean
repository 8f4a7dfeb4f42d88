import Detours.HookLib.Granting
import Detours.HookLib.Runs
import Detours.Zydis.Subset
import Mathlib.Data.List.Pairwise

namespace Detours.HookLib

open Detours.Bytes Detours.Machine Detours.Zydis

/-- The jumps of other functions are stored elsewhere, and so are the pointers they go through. -/
def StoresNoJump (functions : Set (BitVec 64)) (lib : HookLib 64) (originalFunction : BitVec 64)
    (block : Set (BitVec 64)) : Prop :=
  ∀ function ∈ functions, function ≠ originalFunction →
    Disjoint block (jumpBytes lib.memory function)

/-- The jumps of other functions without a hook lead elsewhere. -/
def LeadElsewhere (functions : Set (BitVec 64)) (lib : HookLib 64) (originalFunction : BitVec 64)
    (block : Set (BitVec 64)) : Prop :=
  ∀ function ∈ functions, function ≠ originalFunction → lib.activeHooks function = none →
    ∀ target, jumpTarget lib.memory function = some target → target ∉ block

end Detours.HookLib

namespace Detours

open Detours.Bytes Detours.Machine Detours.Zydis Detours.HookLib

/-- The block is fresh and where it was asked for, as the operating system promises, and the
function lies in no block. -/
def Call.Promised (zydis : Api) (lib : HookLib 64) : Call → Prop
  | applyHookX64 environment originalFunction targetFunction =>
      environment.ReservesInPlace ∧
        (applyHookX64 environment originalFunction targetFunction).Fresh zydis lib
  | removeHook _ _ => True

/-- The calls that keep the registry: a new hook is for a function without one, steals fourteen
bytes on the far path and gets a block where no other function has its jump and that no other
unhooked function jumps into already; a removal puts no jump into a live block back; and neither
patches another function's jump. -/
structure Call.Regular (functions : Set (BitVec 64)) (zydis : Api) (lib : HookLib 64)
    (call : Call) : Prop where
  decodes : call.Decodes zydis lib
  apart : ∀ function ∈ functions, function ≠ call.function →
    Disjoint (call.patched zydis lib) (jumpBytes lib.memory function)
  installs : ∀ environment originalFunction targetFunction,
    call = .applyHookX64 environment originalFunction targetFunction →
    originalFunction ∈ functions ∧ lib.activeHooks originalFunction = none ∧
    ∀ path trampoline, chosenBlock environment originalFunction = some (some (path, trampoline)) →
      (path = .far → stolenSize .far zydis lib originalFunction = 14) ∧
      StoresNoJump functions lib originalFunction (span trampoline path.blockSize) ∧
      LeadElsewhere functions lib originalFunction (span trampoline path.blockSize)
  restores : ∀ environment originalFunction hook,
    call = .removeHook environment originalFunction →
    lib.activeHooks originalFunction = some hook →
    ∀ target,
      jumpTarget (lib.memory.write originalFunction hook.originalBytes) originalFunction =
        some target →
      ∀ block ∈ lib.allocations, block.base ≠ hook.trampoline → target ∉ block.span

namespace HookLib

def RegularStep (functions : Set (BitVec 64)) (zydis : Api) (lib after : HookLib 64) : Prop :=
  ∃ call : Call, call.Promised zydis lib ∧ call.Regular functions zydis lib ∧
    call.run zydis lib = some after

structure Kept (functions : Set (BitVec 64)) (lib : HookLib 64) : Prop extends WellFormed lib where
  known : ∀ function hook, lib.activeHooks function = some hook → function ∈ functions
  occupied : ∀ block ∈ lib.allocations, ∃ function hook,
    lib.activeHooks function = some hook ∧ hook.trampoline = block.base
  jumps : ∀ function hook, lib.activeHooks function = some hook →
    ∃ block ∈ lib.allocations, block.base = hook.trampoline ∧
      ∃ target ∈ block.span, jumpTarget lib.memory function = some target
  unhooked : ∀ function ∈ functions, lib.activeHooks function = none →
    ∀ target, jumpTarget lib.memory function = some target → target ∉ lib.blocks

variable {functions : Set (BitVec 64)} {zydis : Api} {environment : Environment 64}
  {lib after : HookLib 64} {path : Path}
  {originalFunction targetFunction trampoline : BitVec 64} {hook : Hook 64}

section WellFormed

variable (wellFormed : WellFormed lib)

include wellFormed

theorem WellFormed.nodup : lib.allocations.Nodup := by
  refine wellFormed.disjoint.imp_of_mem fun {first second} live _ apart => ?_
  rintro rfl
  exact Set.disjoint_left.mp apart (base_mem_span (wellFormed.positive first live))
    (base_mem_span (wellFormed.positive first live))

end WellFormed

theorem Installation.jumps (targetFunction : BitVec 64) {size : Nat}
    (installation : Installation path zydis lib originalFunction trampoline size)
    (reserves : environment.ReservesInPlace)
    (lower : 2 ^ 16 ≤ originalFunction.toNat) (upper : originalFunction.toNat < 2 ^ 47)
    (chosen : chosenBlock environment originalFunction = some (some (path, trampoline)))
    (exact_size : path = .far → size = 14) :
    ∃ target ∈ span trampoline path.blockSize,
      jumpTarget
          (hooked path zydis environment lib originalFunction targetFunction trampoline).memory
          originalFunction =
        some target := by
  have small := installation.small
  cases path with
  | near =>
      obtain ⟨below, above⟩ := chosenBlock_near_bounds reserves lower upper chosen
      refine ⟨_, ?_, hooked_near_jumpTarget _ _ installation upper below above⟩
      rw [BitVec.add_assoc]
      have offset : BitVec.ofNat 64 size + 5 = BitVec.ofNat 64 (size + 5) :=
        (BitVec.ofNat_add size 5).symm
      rw [offset, add_ofNat_mem_span _ (by omega)]
      exact Nat.lt_of_lt_of_le (m := 37) (by omega) (by decide)
  | far =>
      refine ⟨_, ?_, hooked_far_jumpTarget _ _ installation (exact_size rfl)⟩
      exact (add_ofNat_mem_span 0x58 (by decide)).mpr (by decide)

section Step

variable (kept : Kept functions lib)

include kept

theorem Kept.after_hooked (reads : zydis.ReadsInstruction .long64)
    (inside : zydis.DisplacementInside .long64)
    (user : ∀ function ∈ functions, 2 ^ 16 ≤ function.toNat ∧ function.toNat < 2 ^ 47)
    (chosen : chosenBlock environment originalFunction = some (some (path, trampoline)))
    (promised : (Call.applyHookX64 environment originalFunction targetFunction).Promised zydis lib)
    (regular : (Call.applyHookX64 environment originalFunction targetFunction).Regular functions
      zydis lib) :
    Kept functions
      (hooked path zydis environment lib originalFunction targetFunction trampoline) := by
  obtain ⟨reserves, blocks⟩ := promised
  have fresh := blocks path trampoline chosen
  obtain ⟨known, absent, installs⟩ := regular.installs _ _ _ rfl
  obtain ⟨fourteen, unstored, elsewhere⟩ := installs path trampoline chosen
  have installation := fresh.installation reads (regular.decodes path trampoline chosen)
  have frame (function : BitVec 64) (member : function ∈ functions)
      (other : function ≠ originalFunction) :
      jumpTarget
          (hooked path zydis environment lib originalFunction targetFunction trampoline).memory
          function =
        jumpTarget lib.memory function := by
    apply jumpTarget_of_changesOnly (hooked_changesOnly _ _ installation inside)
    rw [Set.disjoint_union_left]
    refine ⟨(regular.apart function member other).mono_left ?_, unstored function member other⟩
    exact fun address stolen => ⟨path, trampoline, chosen, stolen⟩
  have jump := installation.jumps targetFunction reserves
    (user _ known).1 (user _ known).2 chosen
    (by rintro rfl; exact fourteen rfl)
  have allocations := hooked_allocations path zydis environment lib originalFunction
    targetFunction trampoline
  have hooks := hooked_activeHooks environment targetFunction installation
  refine ⟨kept.toWellFormed.after_hooked fresh, ?known, ?occupied, ?jumps, ?unhooked⟩
  all_goals
    generalize hooked path zydis environment lib originalFunction targetFunction trampoline = after
      at frame jump allocations hooks ⊢
    generalize after.memory.read trampoline _ = bytes at hooks
  case known =>
    intro function hook entry
    rcases HookMap.insert_some (hooks ▸ entry) with old | ⟨rfl, _⟩
    · exact kept.known function hook old
    · exact known
  case occupied =>
    intro block live
    rw [allocations, List.mem_cons] at live
    rcases live with rfl | live
    · exact ⟨originalFunction, _, hooks ▸ HookMap.insert_self absent, rfl⟩
    · obtain ⟨function, hook, entry, base⟩ := kept.occupied block live
      refine ⟨function, hook, ?_, base⟩
      rw [hooks, HookMap.insert_other, entry]
      rintro rfl
      simp [absent] at entry
  case jumps =>
    intro function hook entry
    rw [allocations]
    rcases HookMap.insert_some (hooks ▸ entry) with old | ⟨rfl, _, rfl⟩
    · obtain ⟨block, live, base, target, member, taken⟩ := kept.jumps function hook old
      refine ⟨block, List.mem_cons_of_mem _ live, base, target, member, ?_⟩
      rw [frame function (kept.known function hook old), taken]
      rintro rfl
      simp [absent] at old
    · exact ⟨_, List.mem_cons_self, rfl, jump⟩
  case unhooked =>
    rintro function member missing target taken ⟨block, live, led⟩
    have other : function ≠ originalFunction := by
      rintro rfl
      rw [hooks, HookMap.insert_self absent] at missing
      cases missing
    rw [frame function member other] at taken
    rw [hooks, HookMap.insert_other other] at missing
    rw [allocations, List.mem_cons] at live
    rcases live with rfl | live
    · exact elsewhere function member other missing target taken led
    · exact kept.unhooked function member missing target taken ⟨block, live, led⟩

theorem Kept.after_removed
    (regular : (Call.removeHook environment originalFunction).Regular functions zydis lib)
    (entry : lib.activeHooks originalFunction = some hook) :
    Kept functions (removeHook environment lib originalFunction) := by
  have frame (function : BitVec 64) (member : function ∈ functions)
      (other : function ≠ originalFunction) :
      jumpTarget (removeHook environment lib originalFunction).memory function =
        jumpTarget lib.memory function := by
    rw [removeHook_memory _ entry]
    refine jumpTarget_of_changesOnly Memory.write_changesOnly
      ((regular.apart function member other).mono_left ?_)
    exact fun address restored => ⟨hook, entry, restored⟩
  have restored := regular.restores _ _ hook rfl entry
  rw [← removeHook_memory environment entry] at restored
  have live {allocation : Allocation 64} :
      allocation ∈ (removeHook environment lib originalFunction).allocations ↔ _ :=
    mem_removeHook_allocations environment entry
  have hooks := removeHook_activeHooks environment entry
  refine ⟨kept.toWellFormed.after_removed entry, ?known, ?occupied, ?jumps, ?unhooked⟩
  all_goals
    generalize removeHook environment lib originalFunction = after at frame restored live hooks ⊢
  case known =>
    intro function other otherEntry
    rw [hooks, HookMap.erase_some] at otherEntry
    exact kept.known function other otherEntry.2
  case occupied =>
    intro block inside
    obtain ⟨function, other, otherEntry, base⟩ := kept.occupied block (live.mp inside).1
    refine ⟨function, other, ?_, base⟩
    rw [hooks, HookMap.erase_some]
    refine ⟨?_, otherEntry⟩
    rintro rfl
    rw [entry, Option.some.injEq] at otherEntry
    exact (live.mp inside).2 (otherEntry ▸ base.symm)
  case jumps =>
    intro function other otherEntry
    rw [hooks, HookMap.erase_some] at otherEntry
    obtain ⟨different, old⟩ := otherEntry
    obtain ⟨block, inside, base, target, member, taken⟩ := kept.jumps function other old
    refine ⟨block, live.mpr ⟨inside, ?_⟩, base, target, member, ?_⟩
    · intro same
      exact different (kept.distinct _ _ _ _ old entry (base ▸ same))
    · rw [frame function (kept.known function other old) different, taken]
  case unhooked =>
    rintro function member missing target taken ⟨block, inside, led⟩
    obtain ⟨present, spared⟩ := live.mp inside
    by_cases same : function = originalFunction
    · subst same
      exact restored target taken block present spared led
    · rw [frame function member same] at taken
      rw [hooks, HookMap.erase_other same] at missing
      exact kept.unhooked function member missing target taken ⟨block, present, led⟩

end Step

theorem Kept.step (reads : zydis.ReadsInstruction .long64)
    (inside : zydis.DisplacementInside .long64)
    (user : ∀ function ∈ functions, 2 ^ 16 ≤ function.toNat ∧ function.toNat < 2 ^ 47)
    (kept : Kept functions lib) (step : RegularStep functions zydis lib after) :
    Kept functions after := by
  obtain ⟨call, promised, regular, ran⟩ := step
  cases Call.effect_of_run ran with
  | none => exact kept
  | hooked environment path originalFunction targetFunction trampoline chosen =>
      exact kept.after_hooked reads inside user chosen promised regular
  | removed environment originalFunction hook entry => exact kept.after_removed regular entry

end HookLib

end Detours

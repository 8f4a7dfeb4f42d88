import Detours.HookLib.Protection
import Detours.HookLib.Runs
import Detours.Zydis.Subset

namespace Detours

open Detours.Bytes Detours.Zydis

section Pages

variable {w : Nat} {environment : Environment w} {address : BitVec w} {size : Nat}
  {before after : Nat → BitVec 32} {pages : Set Nat}

def TouchesOnly (environment : Environment w) (pages : Set Nat) (address : BitVec w) (size : Nat) :
    Prop :=
  ∀ page, touchesPage environment.pageSize.toNat address size page → page ∈ pages

/-- What `ensure_protection` does to the protections. -/
def Leveled (environment : Environment w) (address : BitVec w) (size : Nat)
    (before after : Nat → BitVec 32) : Prop :=
  ∀ page, after page = if touchesPage environment.pageSize.toNat address size page then
    before (firstPage environment address) else before page

theorem touchesPage_firstPage {page : Nat}
    (touches : touchesPage environment.pageSize.toNat address size page) :
    touchesPage environment.pageSize.toNat address size (firstPage environment address) := by
  obtain ⟨reaches, starts⟩ := touches
  have positive : 0 < environment.pageSize.toNat := by
    rw [Nat.pos_iff_ne_zero]
    intro zero
    rw [zero, Nat.mul_zero] at starts
    omega
  have first : firstPage environment address * environment.pageSize.toNat ≤ address.toNat :=
    Nat.div_mul_le_self _ _
  have next : address.toNat < (firstPage environment address + 1) * environment.pageSize.toNat := by
    rw [Nat.add_mul, Nat.one_mul]
    exact Nat.lt_div_mul_add positive
  refine ⟨?_, next⟩
  by_cases empty : size = 0
  · subst empty
    have same : page = firstPage environment address := by
      refine Nat.le_antisymm ((Nat.le_div_iff_mul_le positive).mpr (by omega)) ?_
      exact Nat.le_of_lt_succ ((Nat.div_lt_iff_lt_mul positive).mpr starts)
    rwa [same] at reaches
  · omega

theorem Leveled.all (leveled : Leveled environment address size before after)
    (only : TouchesOnly environment pages address size) {allowed : BitVec 32 → Prop}
    (all : ∀ page ∈ pages, allowed (before page)) : ∀ page ∈ pages, allowed (after page) := by
  intro page member
  rw [leveled page]
  split
  · rename_i touches
    exact all _ (only _ (touchesPage_firstPage touches))
  · exact all page member

theorem Leveled.same (leveled : Leveled environment address size before after)
    (one : OneProtection environment before address size) (page : Nat) : after page = before page := by
  rw [leveled page]
  split
  · rename_i touches
    exact (one page touches).symm
  · rfl

theorem OneProtection.congr (one : OneProtection environment before address size)
    (only : TouchesOnly environment pages address size)
    (same : ∀ page ∈ pages, after page = before page) :
    OneProtection environment after address size := by
  intro page touches
  rw [same _ (only _ touches), same _ (only _ (touchesPage_firstPage touches)), one page touches]

end Pages

namespace HookLib

/-- A call that patches code on `pages` and gets its block elsewhere; `ranges` holds of the
ranges it patches. -/
def PagedStep (zydis : Api) (pages : Set Nat)
    (ranges : Environment 64 → BitVec 64 → Nat → Prop) (lib after : HookLib 64) : Prop :=
  ∃ call : Call, call.run zydis lib = some after ∧
    (∀ environment originalFunction targetFunction path trampoline,
      call = .applyHookX64 environment originalFunction targetFunction →
      chosenBlock environment originalFunction = some (some (path, trampoline)) →
      TouchesOnly environment pagesᶜ trampoline path.blockSize ∧
      TouchesOnly environment pages originalFunction
        (patchedSize path zydis environment lib originalFunction trampoline) ∧
      ranges environment originalFunction
        (patchedSize path zydis environment lib originalFunction trampoline)) ∧
    ∀ environment originalFunction hook,
      call = .removeHook environment originalFunction →
      lib.activeHooks originalFunction = some hook →
      TouchesOnly environment pages originalFunction hook.originalBytes.length ∧
      ranges environment originalFunction hook.originalBytes.length

variable {zydis : Api} {path : Path} {environment : Environment 64} {lib after start : HookLib 64}
  {originalFunction targetFunction trampoline : BitVec 64} {pages : Set Nat} {hook : Hook 64}
  {ranges : Environment 64 → BitVec 64 → Nat → Prop}

variable (path zydis environment lib originalFunction targetFunction trampoline) in
theorem hooked_leveled :
    Leveled environment originalFunction
      (patchedSize path zydis environment lib originalFunction trampoline)
      (lib.withBlock environment trampoline path.blockSize).protection
      (hooked path zydis environment lib originalFunction targetFunction trampoline).protection := by
  intro page
  cases path <;> exact ensureProtection_protection page

theorem removeHook_leveled (environment : Environment 64)
    (entry : lib.activeHooks originalFunction = some hook) :
    Leveled environment originalFunction hook.originalBytes.length lib.protection
      (removeHook environment lib originalFunction).protection := by
  intro page
  rw [removeHook, entry]
  change (ensureProtection environment lib originalFunction hook.originalBytes.length
    pageExecuteReadWrite (fun memory => memory.write originalFunction
      hook.originalBytes)).protection page = _
  exact ensureProtection_protection page

theorem withBlock_protection {base : BitVec 64} {size : Nat}
    (only : TouchesOnly environment pagesᶜ base size) :
    ∀ page ∈ pages, (lib.withBlock environment base size).protection page = lib.protection page := by
  intro page member
  change (if touchesPage environment.pageSize.toNat base size page then _ else _) = _
  exact if_neg fun touches => only page touches member

theorem PagedStep.all (step : PagedStep zydis pages ranges lib after)
    {allowed : BitVec 32 → Prop} (all : ∀ page ∈ pages, allowed (lib.protection page)) :
    ∀ page ∈ pages, allowed (after.protection page) := by
  obtain ⟨call, ran, installs, removes⟩ := step
  cases Call.effect_of_run ran with
  | none => exact all
  | hooked environment path originalFunction targetFunction trampoline chosen =>
      obtain ⟨block, patch, _⟩ := installs _ _ _ _ _ rfl chosen
      refine (hooked_leveled zydis path environment lib originalFunction targetFunction
        trampoline).all patch fun page member => ?_
      rw [withBlock_protection block page member]
      exact all page member
  | removed environment originalFunction hook entry =>
      exact (removeHook_leveled environment entry).all (removes _ _ hook rfl entry).1 all

theorem PagedStep.same (step : PagedStep zydis pages ranges lib after)
    (level : ∀ environment address size, ranges environment address size →
      OneProtection environment start.protection address size)
    (same : ∀ page ∈ pages, lib.protection page = start.protection page) :
    ∀ page ∈ pages, after.protection page = start.protection page := by
  obtain ⟨call, ran, installs, removes⟩ := step
  intro page member
  cases Call.effect_of_run ran with
  | none => exact same page member
  | hooked environment path originalFunction targetFunction trampoline chosen =>
      obtain ⟨block, patch, range⟩ := installs _ _ _ _ _ rfl chosen
      have blocked {page : Nat} (member : page ∈ pages) :
          (lib.withBlock environment trampoline path.blockSize).protection page =
            start.protection page :=
        (withBlock_protection block page member).trans (same page member)
      rw [(hooked_leveled zydis path environment lib originalFunction targetFunction
        trampoline).same ((level _ _ _ range).congr patch fun page => blocked), blocked member]
  | removed environment originalFunction hook entry =>
      obtain ⟨patch, range⟩ := removes _ _ hook rfl entry
      rw [(removeHook_leveled environment entry).same ((level _ _ _ range).congr patch same),
        same page member]

/-- In every state of every run the program's pages have protections that some of them had at
the start: if none was writable code, none is. And if each patched range had one protection at
the start, each page has its own. -/
theorem protection_of_run
    (run : Relation.ReflTransGen (PagedStep zydis pages ranges) start lib) :
    (∀ allowed : BitVec 32 → Prop, (∀ page ∈ pages, allowed (start.protection page)) →
      ∀ page ∈ pages, allowed (lib.protection page)) ∧
    ((∀ environment address size, ranges environment address size →
        OneProtection environment start.protection address size) →
      ∀ page ∈ pages, lib.protection page = start.protection page) := by
  induction run with
  | refl => exact ⟨fun _ all => all, fun _ _ _ => rfl⟩
  | tail _ step ih =>
      exact ⟨fun allowed all => step.all (ih.1 allowed all), fun level => step.same level (ih.2 level)⟩

theorem protection_of_run_nops :
    let environment := Environment.granting true (0 : BitVec 64)
    let start : HookLib 64 :=
      { HookLib.holding 0x140001000 (List.replicate 5 0x90) with
        protection := fun page => if page = 0x140001 then 0x20 else 0x04 }
    ∃ hookedLib trampoline,
      applyHookX64 subset environment start 0x140001000 0x150000000 =
        some (hookedLib, some trampoline) ∧
      ∀ page < 0x140010,
        hookedLib.protection page ≠ pageExecuteReadWrite ∧
        (removeHook environment hookedLib 0x140001000).protection page = start.protection page := by
  intro environment start
  let pages : Set Nat := { page | page < 0x140010 }
  let ranges (environment : Environment 64) (address : BitVec 64) (size : Nat) : Prop :=
    environment.pageSize = 0x1000 ∧ address = 0x140001000 ∧ size = 5
  have chosen : chosenBlock environment 0x140001000 = some (some (.near, 0x140010000)) :=
    chosenBlock_granting_near (by decide)
  have installation : Installation .near subset start 0x140001000 0x140010000 5 :=
    .of_covers Subset.readsInstruction (by decide +kernel) (by decide)
      (span_disjoint (by decide) (by decide))
  let middle := hooked .near subset environment start 0x140001000 0x150000000 0x140010000
  have patched : TouchesOnly environment pages 0x140001000 5 := by
    rintro page ⟨starts, _⟩
    change page * 0x1000 < 0x140001000 + 5 at starts
    change page < 0x140010
    omega
  have block : TouchesOnly environment pagesᶜ 0x140010000 0x500 := by
    rintro page ⟨_, reaches⟩
    change 0x140010000 < (page + 1) * 0x1000 at reaches
    change ¬page < 0x140010
    omega
  have hooks : PagedStep subset pages ranges start middle := by
    refine ⟨.applyHookX64 environment 0x140001000 0x150000000, Call.run_of_chosenBlock chosen, ?_,
      nofun⟩
    intro _ _ _ path trampoline call chose
    cases call
    obtain ⟨rfl, rfl⟩ : path = .near ∧ trampoline = 0x140010000 := by
      have same := chose.symm.trans chosen
      simp only [Option.some.injEq, Prod.mk.injEq] at same
      exact same
    rw [installation.measured_withBlock]
    exact ⟨block, patched, rfl, rfl, rfl⟩
  have entry : middle.activeHooks 0x140001000 = some ⟨_, _⟩ :=
    (congrArg (· 0x140001000) (hooked_activeHooks _ _ installation)).trans
      (HookMap.insert_self rfl)
  have unhooks : PagedStep subset pages ranges middle (removeHook environment middle 0x140001000) := by
    refine ⟨.removeHook environment 0x140001000, rfl, nofun, ?_⟩
    intro _ _ hook call known
    cases call
    obtain rfl := Option.some.inj (entry.symm.trans known)
    rw [Memory.read_length]
    exact ⟨patched, rfl, rfl, rfl⟩
  refine ⟨middle, 0x140010000, applyHookX64_of_chosenBlock _ _ _ chosen, fun page inside => ⟨?_, ?_⟩⟩
  · refine (protection_of_run (.single hooks)).1 (· ≠ pageExecuteReadWrite) ?_ page inside
    intro page _
    change (if page = 0x140001 then (0x20 : BitVec 32) else 0x04) ≠ 0x40
    split <;> decide
  · refine (protection_of_run (.tail (.single hooks) unhooks)).2 ?_ page inside
    rintro environment address size ⟨pageSize, rfl, rfl⟩ page ⟨starts, reaches⟩
    rw [pageSize] at reaches starts
    change 0x140001000 < (page + 1) * 0x1000 at reaches
    change page * 0x1000 < 0x140001000 + 5 at starts
    have first : firstPage environment (0x140001000 : BitVec 64) = 0x140001 := by
      rw [firstPage, pageSize]
      decide
    rw [first, show page = 0x140001 by omega]

end HookLib

end Detours

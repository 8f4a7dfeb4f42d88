import Detours.HookLib.Granting

namespace Detours

open Detours.Bytes Detours.Zydis

variable {w : Nat} {environment : Environment w} {lib : HookLib w} {address : BitVec w}
  {size : Nat} {newProtection : BitVec 32} {action : Memory w → Memory w}

/-- The page of the first byte, whose protection `VirtualProtect` reports. -/
def firstPage (environment : Environment w) (address : BitVec w) : Nat :=
  address.toNat / environment.pageSize.toNat

def OneProtection (environment : Environment w) (protection : Nat → BitVec 32)
    (address : BitVec w) (size : Nat) : Prop :=
  ∀ page, touchesPage environment.pageSize.toNat address size page →
    protection page = protection (firstPage environment address)

theorem ensureProtection_protection (page : Nat) :
    (ensureProtection environment lib address size newProtection action).protection page =
      if touchesPage environment.pageSize.toNat address size page then
        lib.protection (firstPage environment address)
      else lib.protection page := by
  change (if _ then _ else if _ then _ else _) = _
  split <;> rfl

theorem restores_iff {after : HookLib w}
    (left : ∀ page, after.protection page =
      if touchesPage environment.pageSize.toNat address size page then
        lib.protection (firstPage environment address)
      else lib.protection page) :
    (∀ page, after.protection page = lib.protection page) ↔
      OneProtection environment lib.protection address size := by
  constructor
  · intro restored page touched
    rw [← restored page, left page, if_pos touched]
  · intro one page
    rw [left page]
    split
    · rename_i touched
      exact (one page touched).symm
    · rfl

/-- The protections are as before exactly when the range has one protection to save. -/
theorem ensureProtection_restores_iff :
    (∀ page, (ensureProtection environment lib address size newProtection action).protection page =
        lib.protection page) ↔
      OneProtection environment lib.protection address size :=
  restores_iff ensureProtection_protection

/-- Five bytes of code, of which the last lies on a page of data: it becomes executable. -/
theorem ensureProtection_loses_protection :
    let environment := Environment.granting true (0 : BitVec 64)
    let lib : HookLib 64 :=
      { HookLib.holding 0x140001FFC (List.replicate 5 0x90) with
        protection := fun page => if page = 0x140001 then 0x20 else 0x04 }
    let after := ensureProtection environment lib 0x140001FFC 5 pageExecuteReadWrite id
    lib.protection 0x140002 = 0x04 ∧ after.protection 0x140002 = 0x20 ∧
      ¬∀ page, after.protection page = lib.protection page := by
  intro environment lib after
  have before : lib.protection 0x140002 = 0x04 := by decide
  have changed : after.protection 0x140002 = 0x20 := by
    rw [ensureProtection_protection]
    decide
  refine ⟨before, changed, fun restored => ?_⟩
  have same := restored 0x140002
  rw [before, changed] at same
  cases same

namespace HookLib

variable {path : Path} {zydis : Api} {environment : Environment 64} {lib : HookLib 64}
  {originalFunction targetFunction trampoline : BitVec 64}

/-- A call of `apply_hook_x64` that got its block changes no protection exactly when the bytes
it patches lie on pages of one protection. -/
theorem hooked_protection_iff :
    (∀ page, (hooked path zydis environment lib originalFunction targetFunction
        trampoline).protection page =
      (lib.withBlock environment trampoline path.blockSize).protection page) ↔
      OneProtection environment (lib.withBlock environment trampoline path.blockSize).protection
        originalFunction
        (patchedSize path zydis environment lib originalFunction trampoline) := by
  apply restores_iff
  intro page
  cases path <;> exact ensureProtection_protection page

theorem removeHook_protection_iff {hook : Hook 64}
    (known : lib.activeHooks originalFunction = some hook) :
    (∀ page, (removeHook environment lib originalFunction).protection page =
        lib.protection page) ↔
      OneProtection environment lib.protection originalFunction hook.originalBytes.length := by
  apply restores_iff
  intro page
  rw [removeHook, known]
  change (ensureProtection environment lib originalFunction hook.originalBytes.length
    pageExecuteReadWrite (fun memory => memory.write originalFunction
      hook.originalBytes)).protection page = _
  exact ensureProtection_protection page

end HookLib

end Detours

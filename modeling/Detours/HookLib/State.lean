import Detours.Bytes.Memory
import Detours.Zydis.Types

namespace Detours

open Detours.Bytes

/-! The process a `HookLib` works on. Addresses have the width of a pointer in the
build, so the same definitions serve the 64-bit and the 32-bit library. -/

structure MemoryInfo where
  state : BitVec 32
  regionSize : BitVec 64
deriving Repr, DecidableEq

/-- What automatic storage holds before it is written: an operand array and a length. -/
structure Leftover where
  operands : List Zydis.DecodedOperand
  size : Nat
  operands_length : operands.length = Zydis.maxOperandCount

/-- The operating system as one call of the library sees it. The answers are
arbitrary functions: nothing is assumed of them here. -/
structure Environment (w : Nat) where
  allocationGranularity : BitVec 32
  pageSize : BitVec 32
  virtualQuery : BitVec w → Option MemoryInfo
  virtualAlloc : BitVec w → Nat → Option (BitVec w)
  leftover : BitVec w → Leftover

def memFree : BitVec 32 := 0x10000
def pageExecuteReadWrite : BitVec 32 := 0x40

/-- A block handed out by `VirtualAlloc` and not yet freed. -/
structure Allocation (w : Nat) where
  base : BitVec w
  size : Nat
deriving Repr, DecidableEq

def Allocation.span {w : Nat} (allocation : Allocation w) : Set (BitVec w) :=
  Bytes.span allocation.base allocation.size

structure Hook (w : Nat) where
  trampoline : BitVec w
  originalBytes : List Byte
deriving Repr, DecidableEq

/-- `std::unordered_map<void*, hook>`. -/
abbrev HookMap (w : Nat) := BitVec w → Option (Hook w)

/-- `insert` keeps the value of a key that is already present. -/
def HookMap.insert {w : Nat} (hooks : HookMap w) (key : BitVec w) (hook : Hook w) : HookMap w :=
  fun address => if address = key then some ((hooks key).getD hook) else hooks address

def HookMap.erase {w : Nat} (hooks : HookMap w) (key : BitVec w) : HookMap w :=
  fun address => if address = key then none else hooks address

/-- The library's member `active_hooks` and the process around it. -/
structure HookLib (w : Nat) where
  memory : Memory w
  protection : Nat → BitVec 32
  allocations : List (Allocation w)
  activeHooks : HookMap w

variable {w : Nat}

def touchesPage (pageSize : Nat) (address : BitVec w) (size page : Nat) : Prop :=
  page * pageSize < address.toNat + size ∧ address.toNat < (page + 1) * pageSize

instance (pageSize : Nat) (address : BitVec w) (size page : Nat) :
    Decidable (touchesPage pageSize address size page) :=
  inferInstanceAs (Decidable (_ ∧ _))

/-- Sets every touched page and reports the old protection of the first one. -/
def virtualProtect (environment : Environment w) (lib : HookLib w) (address : BitVec w)
    (size : Nat) (protection : BitVec 32) : HookLib w × BitVec 32 :=
  let pageSize := environment.pageSize.toNat
  ({ lib with
      protection := fun page =>
        if touchesPage pageSize address size page then protection else lib.protection page },
    lib.protection (address.toNat / pageSize))

/-- The process with one block more. Fresh memory is zeroed; the library always asks
for executable pages. -/
def HookLib.withBlock (lib : HookLib w) (environment : Environment w) (base : BitVec w)
    (size : Nat) : HookLib w :=
  let lib := (virtualProtect environment lib base size pageExecuteReadWrite).1
  { lib with
    memory := lib.memory.fill base 0 size
    allocations := ⟨base, size⟩ :: lib.allocations }

def virtualAlloc (environment : Environment w) (lib : HookLib w) (address : BitVec w)
    (size : Nat) : HookLib w × Option (BitVec w) :=
  match environment.virtualAlloc address size with
  | none => (lib, none)
  | some base => (lib.withBlock environment base size, some base)

/-- `VirtualFree(address, 0, MEM_RELEASE)` gives the whole block back. -/
def virtualFree (lib : HookLib w) (address : BitVec w) : HookLib w :=
  { lib with allocations := lib.allocations.filter (·.base != address) }

/-- Runs `action` with other page protections and puts back what the first call
of `VirtualProtect` reported. -/
def ensureProtection (environment : Environment w) (lib : HookLib w) (address : BitVec w)
    (size : Nat) (newProtection : BitVec 32) (action : Memory w → Memory w) : HookLib w :=
  let (lib, oldProtection) := virtualProtect environment lib address size newProtection
  let lib := { lib with memory := action lib.memory }
  (virtualProtect environment lib address size oldProtection).1

section Projections

variable {environment : Environment w} {lib : HookLib w} {address key other base : BitVec w}
  {size : Nat} {protection : BitVec 32} {action : Memory w → Memory w} {hook : Hook w}
  {hooks : HookMap w}

@[simp] theorem ensureProtection_memory :
    (ensureProtection environment lib address size protection action).memory =
      action lib.memory := rfl

@[simp] theorem ensureProtection_allocations :
    (ensureProtection environment lib address size protection action).allocations =
      lib.allocations := rfl

@[simp] theorem ensureProtection_activeHooks :
    (ensureProtection environment lib address size protection action).activeHooks =
      lib.activeHooks := rfl

@[simp] theorem virtualFree_memory : (virtualFree lib address).memory = lib.memory := rfl

@[simp] theorem virtualFree_activeHooks :
    (virtualFree lib address).activeHooks = lib.activeHooks := rfl

theorem virtualAlloc_some (granted : environment.virtualAlloc address size = some base) :
    virtualAlloc environment lib address size = (lib.withBlock environment base size, some base) := by
  rw [virtualAlloc, granted]

@[simp] theorem withBlock_memory :
    (lib.withBlock environment base size).memory = lib.memory.fill base 0 size := rfl

@[simp] theorem withBlock_allocations :
    (lib.withBlock environment base size).allocations = ⟨base, size⟩ :: lib.allocations := rfl

@[simp] theorem withBlock_activeHooks :
    (lib.withBlock environment base size).activeHooks = lib.activeHooks := rfl

theorem HookMap.insert_self (absent : hooks key = none) :
    hooks.insert key hook key = some hook := by
  simp [HookMap.insert, absent]

theorem HookMap.insert_present {old : Hook w} (present : hooks key = some old) :
    hooks.insert key hook = hooks := by
  funext address
  by_cases same : address = key
  · subst address
    simp [HookMap.insert, present]
  · simp [HookMap.insert, same]

theorem HookMap.insert_other (different : other ≠ key) :
    hooks.insert key hook other = hooks other := by
  simp [HookMap.insert, different]

theorem HookMap.insert_some {found : Hook w} (entry : hooks.insert key hook other = some found) :
    hooks other = some found ∨ other = key ∧ hooks key = none ∧ found = hook := by
  by_cases same : other = key
  · subst other
    cases present : hooks key with
    | none =>
        rw [HookMap.insert_self present, Option.some.injEq] at entry
        exact .inr ⟨rfl, rfl, entry.symm⟩
    | some old =>
        rw [HookMap.insert_present present, present] at entry
        exact .inl entry
  · rw [HookMap.insert_other same] at entry
    exact .inl entry

theorem HookMap.erase_self : hooks.erase key key = none := by
  simp [HookMap.erase]

theorem HookMap.erase_other (different : other ≠ key) : hooks.erase key other = hooks other := by
  simp [HookMap.erase, different]

theorem HookMap.erase_some {found : Hook w} :
    hooks.erase key other = some found ↔ other ≠ key ∧ hooks other = some found := by
  by_cases same : other = key
  · subst other
    simp [HookMap.erase_self]
  · rw [HookMap.erase_other same]
    exact (and_iff_right same).symm

theorem HookMap.erase_insert (absent : hooks key = none) :
    (hooks.insert key hook).erase key = hooks := by
  funext address
  by_cases same : address = key
  · subst address
    rw [HookMap.erase_self, absent]
  · rw [HookMap.erase_other same, HookMap.insert_other same]

end Projections

end Detours

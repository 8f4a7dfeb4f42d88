import Detours.HookLib.State

namespace Detours

open Detours.Bytes

/-- A region counts when it is free and holds the pages required. -/
def regionUsable (environment : Environment 64) (size : Nat) (address : BitVec 64) : Bool :=
  let pageSize := environment.pageSize.toNat
  let numPagesRequired := (size + pageSize - 1) / pageSize
  match environment.virtualQuery address with
  | none => false
  | some info =>
      info.state &&& memFree != 0 && decide (numPagesRequired * pageSize ≤ info.regionSize.toNat)

/-- The search towards higher addresses. The outer `none` is a search that does not end. -/
def searchHigher (environment : Environment 64) (size : Nat) (highBound : BitVec 64) :
    Nat → BitVec 64 → Option (Option (BitVec 64))
  | 0, _ => none
  | fuel + 1, curr =>
      if curr < highBound then
        if regionUsable environment size curr then some (some curr)
        else searchHigher environment size highBound fuel
          (curr + environment.allocationGranularity.setWidth 64)
      else some none

def searchLower (environment : Environment 64) (size : Nat) (lowBound : BitVec 64) :
    Nat → BitVec 64 → Option (Option (BitVec 64))
  | 0, _ => none
  | fuel + 1, curr =>
      if curr > lowBound then
        if regionUsable environment size curr then some (some curr)
        else searchLower environment size lowBound fuel
          (curr - environment.allocationGranularity.setWidth 64)
      else some none

/-- A search that has taken this many steps has come back to an address it saw. -/
def searchFuel : Nat := 2 ^ 64

def searchAround (environment : Environment 64) (base : BitVec 64) (size : Nat) :
    Option (Option (BitVec 64)) :=
  let granularity : BitVec 64 := environment.allocationGranularity.setWidth 64
  let baseAligned := base - base % granularity
  let highBound := base + (1 <<< 31) - BitVec.ofNat 64 size
  let lowBound := base - (1 <<< 31) + BitVec.ofNat 64 size
  (searchHigher environment size highBound searchFuel (baseAligned + granularity)).bind fun
    | some curr => some (some curr)
    | none => searchLower environment size lowBound searchFuel (baseAligned - granularity)

/-- `allocate_around_2gb`; the outer `none` is a call that does not return. -/
def allocateAround2gb (environment : Environment 64) (lib : HookLib 64) (base : BitVec 64)
    (size : Nat) : Option (HookLib 64 × Option (BitVec 64)) :=
  (searchAround environment base size).map fun
    | none => (lib, none)
    | some curr => virtualAlloc environment lib curr size

/-- What Windows documents of reserving memory at an address: a nonzero multiple of
the granularity is where the block is placed. -/
structure Environment.ReservesInPlace (environment : Environment 64) : Prop where
  granularity : environment.allocationGranularity = 0x10000
  inPlace : ∀ {address base size}, address ≠ 0 → address.toNat % 0x10000 = 0 →
    environment.virtualAlloc address size = some base → base = address

section Search

variable {environment : Environment 64} {size fuel : Nat}
  {base curr found highBound lowBound : BitVec 64}

section Addresses

variable (granularity : environment.allocationGranularity = 0x10000)

include granularity

theorem next_toNat (curr : BitVec 64) (room : curr.toNat + 0x10000 < 2 ^ 64) :
    (curr + environment.allocationGranularity.setWidth 64).toNat = curr.toNat + 0x10000 := by
  rw [granularity, BitVec.toNat_add]
  simp
  omega

theorem previous_toNat (curr : BitVec 64) (room : 0x10000 ≤ curr.toNat) :
    (curr - environment.allocationGranularity.setWidth 64).toNat = curr.toNat - 0x10000 := by
  have small := curr.isLt
  rw [granularity, BitVec.toNat_sub]
  simp
  omega

theorem baseAligned_toNat (base : BitVec 64) :
    (base - base % environment.allocationGranularity.setWidth 64).toNat =
      base.toNat - base.toNat % 0x10000 := by
  have bound := base.isLt
  rw [granularity, BitVec.toNat_sub, BitVec.toNat_umod]
  simp
  omega

theorem neighbours_toNat (lower : 2 ^ 16 ≤ base.toNat) (upper : base.toNat < 2 ^ 47) :
    (base - base % environment.allocationGranularity.setWidth 64 +
        environment.allocationGranularity.setWidth 64).toNat =
      base.toNat - base.toNat % 0x10000 + 0x10000 ∧
    (base - base % environment.allocationGranularity.setWidth 64 -
        environment.allocationGranularity.setWidth 64).toNat =
      base.toNat - base.toNat % 0x10000 - 0x10000 := by
  have start := baseAligned_toNat granularity base
  rw [next_toNat granularity _ (by omega), previous_toNat granularity _ (by omega), start]
  exact ⟨rfl, rfl⟩

end Addresses

theorem highBound_toNat (upper : base.toNat < 2 ^ 47) (small : size ≤ 2 ^ 31) :
    (base + (1 <<< 31) - BitVec.ofNat 64 size).toNat = base.toNat + 2 ^ 31 - size := by
  rw [BitVec.toNat_sub, BitVec.toNat_add]
  simp
  omega

/-- The lower bound wraps for a base below `2 ^ 31 - size`. -/
theorem lowBound_toNat (base : BitVec 64) (size : Nat) :
    (base - (1 <<< 31) + BitVec.ofNat 64 size).toNat =
      (base.toNat + 2 ^ 64 - 2 ^ 31 + size) % 2 ^ 64 := by
  rw [BitVec.toNat_add, BitVec.toNat_sub]
  simp
  omega

theorem searchHigher_found (granularity : environment.allocationGranularity = 0x10000)
    (bounded : highBound.toNat + 0x10000 ≤ 2 ^ 64) (aligned : curr.toNat % 0x10000 = 0)
    (ended : searchHigher environment size highBound fuel curr = some (some found)) :
    found.toNat % 0x10000 = 0 ∧ curr.toNat ≤ found.toNat ∧ found.toNat < highBound.toNat := by
  induction fuel generalizing curr with
  | zero => cases ended
  | succ fuel ih =>
      rw [searchHigher] at ended
      split at ended
      · rename_i below
        have inRange : curr.toNat < highBound.toNat := below
        split at ended
        · obtain rfl : curr = found := by simpa using ended
          exact ⟨aligned, Nat.le_refl _, inRange⟩
        · have next := next_toNat granularity curr (by omega)
          obtain ⟨multiple, above, below⟩ := ih (by omega) ended
          exact ⟨multiple, by omega, below⟩
      · cases ended

theorem searchLower_found (granularity : environment.allocationGranularity = 0x10000)
    (aligned : curr.toNat % 0x10000 = 0)
    (ended : searchLower environment size lowBound fuel curr = some (some found)) :
    found.toNat % 0x10000 = 0 ∧ lowBound.toNat < found.toNat ∧ found.toNat ≤ curr.toNat := by
  induction fuel generalizing curr with
  | zero => cases ended
  | succ fuel ih =>
      rw [searchLower] at ended
      split at ended
      · rename_i above
        have inRange : lowBound.toNat < curr.toNat := above
        split at ended
        · obtain rfl : curr = found := by simpa using ended
          exact ⟨aligned, inRange, Nat.le_refl _⟩
        · have next := previous_toNat granularity curr (by omega)
          obtain ⟨multiple, above, below⟩ := ih (by omega) ended
          exact ⟨multiple, above, by omega⟩
      · cases ended

theorem searchAround_found (granularity : environment.allocationGranularity = 0x10000)
    (lower : 2 ^ 16 ≤ base.toNat) (upper : base.toNat < 2 ^ 47) (small : size ≤ 2 ^ 31)
    (ended : searchAround environment base size = some (some found)) :
    found ≠ 0 ∧ found.toNat % 0x10000 = 0 ∧
      base.toNat + size < found.toNat + 2 ^ 31 ∧ found.toNat + size < base.toNat + 2 ^ 31 := by
  obtain ⟨next, previous⟩ := neighbours_toNat granularity lower upper
  have high := highBound_toNat upper small
  rw [searchAround] at ended
  obtain ⟨higher, ends, chosen⟩ := Option.bind_eq_some_iff.mp ended
  cases higher with
  | some curr =>
      obtain rfl : curr = found := by simpa using chosen
      obtain ⟨multiple, above, below⟩ := searchHigher_found granularity (by omega) (by omega) ends
      refine ⟨fun zero => ?_, multiple, by omega, by omega⟩
      have null : curr.toNat = 0 := congrArg BitVec.toNat zero
      omega
  | none =>
      have low := lowBound_toNat base size
      obtain ⟨multiple, above, below⟩ := searchLower_found granularity (by omega) chosen
      refine ⟨fun zero => ?_, multiple, by omega, by omega⟩
      have null : found.toNat = 0 := congrArg BitVec.toNat zero
      omega

theorem searchHigher_first (enough : fuel ≠ 0) (below : found < highBound)
    (usable : regionUsable environment size found) :
    searchHigher environment size highBound fuel found = some (some found) := by
  cases fuel with
  | zero => exact absurd rfl enough
  | succ fuel => rw [searchHigher, if_pos below, if_pos usable]

theorem searchHigher_next (below : curr < highBound)
    (taken : regionUsable environment size curr = false) :
    searchHigher environment size highBound (fuel + 1) curr =
      searchHigher environment size highBound fuel
        (curr + environment.allocationGranularity.setWidth 64) := by
  rw [searchHigher, if_pos below, if_neg (by rw [taken]; decide)]

theorem searchAround_first
    (starts : base - base % environment.allocationGranularity.setWidth 64 +
      environment.allocationGranularity.setWidth 64 = found)
    (below : found < base + (1 <<< 31) - BitVec.ofNat 64 size)
    (usable : regionUsable environment size found) :
    searchAround environment base size = some (some found) := by
  rw [searchAround, starts, searchHigher_first (by decide) below usable]
  rfl

end Search

end Detours

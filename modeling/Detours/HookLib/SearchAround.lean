import Detours.HookLib.Granting

namespace Detours

open Detours.Bytes

variable {environment : Environment 64} {size fuel : Nat}
  {base curr candidate highBound lowBound : BitVec 64}

section Loops

variable (granularity : environment.allocationGranularity = 0x10000)

include granularity

theorem searchHigher_ends (size fuel : Nat) (curr highBound : BitVec 64)
    (bounded : highBound.toNat + 0x10000 ≤ 2 ^ 64)
    (enough : highBound.toNat ≤ curr.toNat + fuel * 0x10000) :
    ∃ result, searchHigher environment size highBound (fuel + 1) curr = some result := by
  induction fuel generalizing curr with
  | zero =>
      have past : ¬curr < highBound := by
        rw [BitVec.lt_def]
        omega
      exact ⟨none, by rw [searchHigher, if_neg past]⟩
  | succ fuel ih =>
      rw [searchHigher]
      split
      · rename_i below
        have inRange : curr.toNat < highBound.toNat := below
        have next := next_toNat granularity curr (by omega)
        split
        · exact ⟨_, rfl⟩
        · exact ih _ (by omega)
      · exact ⟨_, rfl⟩

theorem searchLower_ends (enough : curr.toNat ≤ lowBound.toNat + fuel * 0x10000)
    (aligned : curr.toNat % 0x10000 = 0) :
    ∃ result, searchLower environment size lowBound (fuel + 1) curr = some result := by
  induction fuel generalizing curr with
  | zero =>
      have past : ¬curr > lowBound := by
        rw [gt_iff_lt, BitVec.lt_def]
        omega
      exact ⟨none, by rw [searchLower, if_neg past]⟩
  | succ fuel ih =>
      rw [searchLower]
      split
      · rename_i above
        have inRange : lowBound.toNat < curr.toNat := above
        have previous := previous_toNat granularity curr (by omega)
        split
        · exact ⟨_, rfl⟩
        · exact ih (by omega) (by omega)
      · exact ⟨_, rfl⟩

/-- Granules of `[curr, highBound)` of which none is usable make the search give up, and
nothing else does. -/
theorem searchHigher_gives_up (bounded : highBound.toNat + 0x10000 ≤ 2 ^ 64)
    (aligned : curr.toNat % 0x10000 = 0)
    (ended : searchHigher environment size highBound fuel curr = some none)
    (granule : candidate.toNat % 0x10000 = 0) (above : curr.toNat ≤ candidate.toNat)
    (below : candidate.toNat < highBound.toNat) :
    regionUsable environment size candidate = false := by
  induction fuel generalizing curr with
  | zero => cases ended
  | succ fuel ih =>
      have inRange : curr < highBound := by
        rw [BitVec.lt_def]
        omega
      rw [searchHigher, if_pos inRange] at ended
      split at ended
      · simp at ended
      · rename_i unusable
        have next := next_toNat granularity curr (by omega)
        by_cases first : candidate = curr
        · rw [first]
          exact Bool.eq_false_of_not_eq_true unusable
        · have later : curr.toNat ≠ candidate.toNat :=
            fun same => first (BitVec.eq_of_toNat_eq same.symm)
          exact ih (by omega) ended (by omega)

theorem searchLower_gives_up (aligned : curr.toNat % 0x10000 = 0)
    (ended : searchLower environment size lowBound fuel curr = some none)
    (granule : candidate.toNat % 0x10000 = 0) (above : lowBound.toNat < candidate.toNat)
    (below : candidate.toNat ≤ curr.toNat) :
    regionUsable environment size candidate = false := by
  induction fuel generalizing curr with
  | zero => cases ended
  | succ fuel ih =>
      have inRange : curr > lowBound := by
        rw [gt_iff_lt, BitVec.lt_def]
        omega
      rw [searchLower, if_pos inRange] at ended
      split at ended
      · simp at ended
      · rename_i unusable
        have previous := previous_toNat granularity curr (by omega)
        by_cases first : candidate = curr
        · rw [first]
          exact Bool.eq_false_of_not_eq_true unusable
        · have earlier : curr.toNat ≠ candidate.toNat :=
            fun same => first (BitVec.eq_of_toNat_eq same.symm)
          exact ih (by omega) ended (by omega)

end Loops

theorem searchHigher_usable
    (ended : searchHigher environment size highBound fuel curr = some (some candidate)) :
    regionUsable environment size candidate = true := by
  induction fuel generalizing curr with
  | zero => cases ended
  | succ fuel ih =>
      rw [searchHigher] at ended
      split at ended
      · split at ended
        · rename_i usable
          obtain rfl : curr = candidate := by simpa using ended
          exact usable
        · exact ih ended
      · cases ended

theorem searchLower_usable
    (ended : searchLower environment size lowBound fuel curr = some (some candidate)) :
    regionUsable environment size candidate = true := by
  induction fuel generalizing curr with
  | zero => cases ended
  | succ fuel ih =>
      rw [searchLower] at ended
      split at ended
      · split at ended
        · rename_i usable
          obtain rfl : curr = candidate := by simpa using ended
          exact usable
        · exact ih ended
      · cases ended

theorem searchAround_usable (ended : searchAround environment base size = some (some candidate)) :
    regionUsable environment size candidate = true := by
  rw [searchAround] at ended
  obtain ⟨higher, ends, chosen⟩ := Option.bind_eq_some_iff.mp ended
  cases higher with
  | some curr =>
      obtain rfl : curr = candidate := by simpa using chosen
      exact searchHigher_usable ends
  | none => exact searchLower_usable chosen

/-- The regions near a base that `allocate_around_2gb` is meant to consider: the granules
of the window on either side, without the null page and the one that holds the base. -/
structure InWindow (base : BitVec 64) (size : Nat) (candidate : BitVec 64) : Prop where
  nonzero : candidate ≠ 0
  granule : candidate.toNat % 0x10000 = 0
  other : candidate.toNat / 0x10000 ≠ base.toNat / 0x10000
  above : base.toNat + size < candidate.toNat + 2 ^ 31
  below : candidate.toNat + size < base.toNat + 2 ^ 31

section Around

variable (granularity : environment.allocationGranularity = 0x10000)
  (lower : 2 ^ 16 ≤ base.toNat) (upper : base.toNat < 2 ^ 47)

include granularity lower upper

theorem searchAround_ends (small : size ≤ 2 ^ 31) :
    ∃ result, searchAround environment base size = some result := by
  obtain ⟨next, previous⟩ := neighbours_toNat granularity lower upper
  have high := highBound_toNat upper small
  have fuel : searchFuel = (2 ^ 64 - 1) + 1 := rfl
  obtain ⟨higher, ended⟩ := searchHigher_ends granularity size (2 ^ 64 - 1)
    (base - base % environment.allocationGranularity.setWidth 64 +
      environment.allocationGranularity.setWidth 64)
    (base + (1 <<< 31) - BitVec.ofNat 64 size) (by omega) (by omega)
  rw [searchAround, fuel, ended, Option.bind_some]
  cases higher with
  | some curr => exact ⟨some curr, rfl⟩
  | none =>
      have bounded := (base - (1 <<< 31) + BitVec.ofNat 64 size).isLt
      exact searchLower_ends granularity (by omega) (by omega)

theorem searchAround_gives_up_above (small : size ≤ 2 ^ 31)
    (ended : searchAround environment base size = some none)
    (window : InWindow base size candidate) (higher : base.toNat < candidate.toNat) :
    regionUsable environment size candidate = false := by
  obtain ⟨next, _⟩ := neighbours_toNat granularity lower upper
  have high := highBound_toNat upper small
  rw [searchAround] at ended
  obtain ⟨result, ends, chosen⟩ := Option.bind_eq_some_iff.mp ended
  cases result with
  | some curr => simp at chosen
  | none =>
      have granule := window.granule
      have other := window.other
      have below := window.below
      exact searchHigher_gives_up granularity (by omega) (by omega) ends granule (by omega)
        (by omega)

/-- Below the base the search looks only when its lower bound does not wrap. -/
theorem searchAround_gives_up_below (small : size ≤ 2 ^ 31)
    (ended : searchAround environment base size = some none)
    (window : InWindow base size candidate) (unwrapped : 2 ^ 31 ≤ base.toNat + size)
    (smaller : candidate.toNat < base.toNat) :
    regionUsable environment size candidate = false := by
  obtain ⟨_, previous⟩ := neighbours_toNat granularity lower upper
  have low := lowBound_toNat base size
  rw [searchAround] at ended
  obtain ⟨result, ends, chosen⟩ := Option.bind_eq_some_iff.mp ended
  cases result with
  | some curr => simp at chosen
  | none =>
      have granule := window.granule
      have other := window.other
      have above := window.above
      exact searchLower_gives_up granularity (by omega) chosen granule (by omega) (by omega)

theorem searchAround_inWindow (small : size ≤ 2 ^ 31)
    (ended : searchAround environment base size = some (some candidate)) :
    InWindow base size candidate ∧
      (base.toNat + size < 2 ^ 31 → base.toNat < candidate.toNat) := by
  obtain ⟨nonzero, granule, above, below⟩ :=
    searchAround_found granularity lower upper small ended
  obtain ⟨next, previous⟩ := neighbours_toNat granularity lower upper
  have high := highBound_toNat upper small
  have low := lowBound_toNat base size
  rw [searchAround] at ended
  obtain ⟨result, ends, chosen⟩ := Option.bind_eq_some_iff.mp ended
  cases result with
  | some curr =>
      obtain rfl : curr = candidate := by simpa using chosen
      have bounds := searchHigher_found granularity (by omega) (by omega) ends
      exact ⟨⟨nonzero, granule, by omega, above, below⟩, fun _ => by omega⟩
  | none =>
      have bounds := searchLower_found granularity (by omega) chosen
      exact ⟨⟨nonzero, granule, by omega, above, below⟩, fun wrapped => by omega⟩

end Around

/-- `allocate_around_2gb` ends, and asks for memory only where every distance between the
two blocks fits a displacement. -/
theorem allocateAround2gb_within_reach (environment : Environment 64) (lib : HookLib 64)
    (base : BitVec 64) (granularity : environment.allocationGranularity = 0x10000)
    (lower : 2 ^ 16 ≤ base.toNat) (upper : base.toNat < 2 ^ 47) :
    ∃ result, searchAround environment base 0x500 = some result ∧
      allocateAround2gb environment lib base 0x500 =
        some (match result with
          | none => (lib, none)
          | some curr => virtualAlloc environment lib curr 0x500) ∧
      ∀ curr, result = some curr → curr ≠ 0 ∧ curr.toNat % 0x10000 = 0 ∧
        ∀ d e, d < 0x500 → e < 0x500 →
          -2 ^ 31 < (curr + BitVec.ofNat 64 d - (base + BitVec.ofNat 64 e)).toInt ∧
          (curr + BitVec.ofNat 64 d - (base + BitVec.ofNat 64 e)).toInt < 2 ^ 31 := by
  obtain ⟨result, ended⟩ : ∃ result, searchAround environment base 0x500 = some result :=
    searchAround_ends granularity lower upper (by decide)
  refine ⟨result, ended, ?_, ?_⟩
  · cases result <;> simp only [allocateAround2gb, ended, Option.map_some]
  · intro curr found
    rw [found] at ended
    obtain ⟨window, _⟩ := searchAround_inWindow granularity lower upper (by decide) ended
    have above := window.above
    have below := window.below
    refine ⟨window.nonzero, window.granule, ?_⟩
    intro d e dSmall eSmall
    have source : (base + BitVec.ofNat 64 e).toNat = base.toNat + e := by
      rw [BitVec.toNat_add, BitVec.toNat_ofNat]
      omega
    have target : (curr + BitVec.ofNat 64 d).toNat = curr.toNat + d := by
      rw [BitVec.toNat_add, BitVec.toNat_ofNat]
      omega
    rw [BitVec.toInt_eq_toNat_bmod, BitVec.toNat_sub, source, target, Int.bmod_def]
    omega

theorem allocateAround2gb_within_reach_granting :
    let environment := Environment.granting true (0 : BitVec 64)
    ∃ curr, searchAround environment 0x140001000 0x500 = some (some curr) ∧
      curr ≠ 0 ∧ curr.toNat % 0x10000 = 0 ∧
      -2 ^ 31 < (curr + 0x4FF - 0x140001000).toInt ∧ (curr + 0x4FF - 0x140001000).toInt < 2 ^ 31 := by
  intro environment
  have search : searchAround environment 0x140001000 0x500 = some (some (nextRegion 0x140001000)) :=
    searchAround_granting true 0 (by decide)
  obtain ⟨result, ended, _, reach⟩ := allocateAround2gb_within_reach environment
    (HookLib.holding 0x140001000 []) 0x140001000 rfl (by decide) (by decide)
  have settled : result = some (nextRegion 0x140001000) := Option.some.inj (ended.symm.trans search)
  obtain ⟨nonzero, granule, distance⟩ := reach _ settled
  obtain ⟨below, above⟩ := distance 0x4FF 0 (by decide) (by decide)
  rw [BitVec.add_zero] at below above
  exact ⟨_, search, nonzero, granule, below, above⟩

def ReportsFree (environment : Environment 64) (candidate : BitVec 64) : Prop :=
  ∃ info, environment.virtualQuery candidate = some info ∧ info.state &&& memFree ≠ 0 ∧
    0x1000 ≤ info.regionSize.toNat

theorem regionUsable_iff (pageSize : environment.pageSize = 0x1000) :
    regionUsable environment 0x500 candidate = true ↔ ReportsFree environment candidate := by
  unfold regionUsable ReportsFree
  rw [pageSize]
  cases environment.virtualQuery candidate with
  | none => simp
  | some info => simp

/-- The purpose of the search: it gives up only when no region of the window is free. -/
def FindsFreeBlock (environment : Environment 64) (base : BitVec 64) : Prop :=
  searchAround environment base 0x500 = some none →
    ∀ candidate, InWindow base 0x500 candidate → ¬ReportsFree environment candidate

/-- The search misses no free region exactly when its lower bound does not wrap, or it
has no need to look below the base, or there is nothing to find there. -/
theorem allocateAround2gb_findsFreeBlock_iff
    (granularity : environment.allocationGranularity = 0x10000)
    (pageSize : environment.pageSize = 0x1000)
    (lower : 2 ^ 16 ≤ base.toNat) (upper : base.toNat < 2 ^ 47) :
    FindsFreeBlock environment base ↔
      2 ^ 31 ≤ base.toNat + 0x500 ∨
      (∃ candidate, InWindow base 0x500 candidate ∧ base.toNat < candidate.toNat ∧
        ReportsFree environment candidate) ∨
      ∀ candidate, InWindow base 0x500 candidate → candidate.toNat < base.toNat →
        ¬ReportsFree environment candidate := by
  have small : 0x500 ≤ 2 ^ 31 := by decide
  have usable (candidate : BitVec 64) : ¬ReportsFree environment candidate ↔
      regionUsable environment 0x500 candidate = false := by
    rw [← regionUsable_iff pageSize, Bool.not_eq_true]
  constructor
  · intro finds
    by_cases unwrapped : 2 ^ 31 ≤ base.toNat + 0x500
    · exact .inl unwrapped
    · obtain ⟨result, ended⟩ := searchAround_ends granularity lower upper small
      cases result with
      | none => exact .inr (.inr fun candidate window _ => finds ended candidate window)
      | some found =>
          obtain ⟨window, above⟩ := searchAround_inWindow granularity lower upper small ended
          exact .inr (.inl ⟨found, window, above (Nat.lt_of_not_le unwrapped),
            (regionUsable_iff pageSize).mp (searchAround_usable ended)⟩)
  · intro condition ended candidate window
    rw [usable]
    have sides : candidate.toNat ≠ base.toNat := by
      intro same
      exact window.other (by rw [same])
    rcases Nat.lt_or_gt_of_ne sides with below | above
    · rcases condition with unwrapped | ⟨higher, inside, above, free⟩ | none
      · exact searchAround_gives_up_below granularity lower upper small ended window unwrapped below
      · exact absurd free ((usable higher).mpr
          (searchAround_gives_up_above granularity lower upper small ended inside above))
      · exact (usable candidate).mp (none candidate window below)
    · exact searchAround_gives_up_above granularity lower upper small ended window above

theorem allocateAround2gb_findsFreeBlock_granting :
    FindsFreeBlock (Environment.granting true (0 : BitVec 64)) 0x140001000 :=
  (allocateAround2gb_findsFreeBlock_iff rfl rfl (by decide) (by decide)).mpr (.inl (by decide))

def Environment.freeBelow (limit : BitVec 64) : Environment 64 :=
  { Environment.granting true (0 : BitVec 64) with
    virtualQuery := fun address =>
      some { state := if address < limit then memFree else 0x1000, regionSize := 0x10000 } }

/-- At `0x10000000` the lower bound wraps, and the free memory below is not found. -/
theorem allocateAround2gb_misses_free_block :
    let environment := Environment.freeBelow 0x10000000
    searchAround environment 0x10000000 0x500 = some none ∧
    InWindow 0x10000000 0x500 0x10000 ∧ ReportsFree environment 0x10000 ∧
    ¬FindsFreeBlock environment 0x10000000 := by
  intro environment
  have window : InWindow 0x10000000 0x500 0x10000 := by constructor <;> decide
  have free : ReportsFree environment 0x10000 := ⟨_, rfl, by decide, by decide⟩
  have gives_up : searchAround environment 0x10000000 0x500 = some none := by
    obtain ⟨result, ended⟩ : ∃ result, searchAround environment 0x10000000 0x500 = some result :=
      searchAround_ends rfl (by decide) (by decide) (by decide)
    cases result with
    | none => exact ended
    | some found =>
        obtain ⟨_, above⟩ := searchAround_inWindow rfl (by decide) (by decide) (by decide) ended
        obtain ⟨info, answer, state, _⟩ := (regionUsable_iff rfl).mp (searchAround_usable ended)
        have higher : ¬found < 0x10000000 := by
          have far := above (by decide)
          rw [BitVec.lt_def]
          exact Nat.not_lt.mpr (Nat.le_of_lt far)
        obtain rfl := Option.some.inj answer
        rw [if_neg higher] at state
        exact absurd rfl state
  exact ⟨gives_up, window, free, fun finds => finds gives_up _ window free⟩

end Detours

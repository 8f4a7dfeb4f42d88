import Detours.HookLib.SearchAround
import Mathlib.Order.Minimal

namespace Detours

open Detours.Bytes

variable {environment : Environment 64} {size fuel : Nat}
  {base curr candidate found highBound lowBound : BitVec 64}

/-- What the search may take: a usable region of the window, below the base only where the
lower bound does not wrap. -/
structure Acceptable (environment : Environment 64) (base : BitVec 64) (size : Nat)
    (candidate : BitVec 64) : Prop where
  window : InWindow base size candidate
  reached : candidate.toNat < base.toNat → 2 ^ 31 ≤ base.toNat + size
  usable : regionUsable environment size candidate = true

/-- When the search gets to a region: upwards from the base, then downwards. -/
def searchTurn (base candidate : BitVec 64) : Nat :=
  if base.toNat < candidate.toNat then candidate.toNat else 2 ^ 65 - candidate.toNat

theorem searchTurn_injective (base : BitVec 64) : Function.Injective (searchTurn base) := by
  intro first second same
  have firstBound := first.isLt
  have secondBound := second.isLt
  apply BitVec.eq_of_toNat_eq
  unfold searchTurn at same
  split at same <;> split at same <;> omega

section Loops

variable (granularity : environment.allocationGranularity = 0x10000)

include granularity

theorem searchHigher_passed (bounded : highBound.toNat + 0x10000 ≤ 2 ^ 64)
    (aligned : curr.toNat % 0x10000 = 0)
    (ended : searchHigher environment size highBound fuel curr = some (some found))
    (granule : candidate.toNat % 0x10000 = 0) (above : curr.toNat ≤ candidate.toNat)
    (before : candidate.toNat < found.toNat) :
    regionUsable environment size candidate = false := by
  induction fuel generalizing curr with
  | zero => cases ended
  | succ fuel ih =>
      rw [searchHigher] at ended
      split at ended
      · rename_i inRange
        have below : curr.toNat < highBound.toNat := inRange
        split at ended
        · obtain rfl : curr = found := by simpa using ended
          omega
        · rename_i unusable
          have next := next_toNat granularity curr (by omega)
          by_cases first : candidate = curr
          · rw [first]
            exact Bool.eq_false_of_not_eq_true unusable
          · have later : curr.toNat ≠ candidate.toNat :=
              fun same => first (BitVec.eq_of_toNat_eq same.symm)
            exact ih (by omega) ended (by omega)
      · cases ended

theorem searchLower_passed (aligned : curr.toNat % 0x10000 = 0)
    (ended : searchLower environment size lowBound fuel curr = some (some found))
    (granule : candidate.toNat % 0x10000 = 0) (below : candidate.toNat ≤ curr.toNat)
    (before : found.toNat < candidate.toNat) :
    regionUsable environment size candidate = false := by
  induction fuel generalizing curr with
  | zero => cases ended
  | succ fuel ih =>
      rw [searchLower] at ended
      split at ended
      · rename_i inRange
        have above : lowBound.toNat < curr.toNat := inRange
        split at ended
        · obtain rfl : curr = found := by simpa using ended
          omega
        · rename_i unusable
          have previous := previous_toNat granularity curr (by omega)
          by_cases first : candidate = curr
          · rw [first]
            exact Bool.eq_false_of_not_eq_true unusable
          · have earlier : curr.toNat ≠ candidate.toNat :=
              fun same => first (BitVec.eq_of_toNat_eq same.symm)
            exact ih (by omega) ended (by omega)
      · cases ended

end Loops

section Around

variable (granularity : environment.allocationGranularity = 0x10000)
  (lower : 2 ^ 16 ≤ base.toNat) (upper : base.toNat < 2 ^ 47) (small : size ≤ 2 ^ 31)

include granularity lower upper small

theorem searchAround_acceptable
    (ended : searchAround environment base size = some (some found)) :
    Acceptable environment base size found := by
  obtain ⟨window, above⟩ := searchAround_inWindow granularity lower upper small ended
  refine ⟨window, fun below => ?_, searchAround_usable ended⟩
  by_contra wrapped
  exact Nat.lt_asymm below (above (Nat.lt_of_not_le wrapped))

theorem searchAround_rejects (ended : searchAround environment base size = some none) :
    ¬Acceptable environment base size candidate := by
  intro acceptable
  have usable := acceptable.usable
  have sides : candidate.toNat ≠ base.toNat := by
    intro same
    exact acceptable.window.other (by rw [same])
  rcases Nat.lt_or_gt_of_ne sides with below | above
  · rw [searchAround_gives_up_below granularity lower upper small ended acceptable.window
      (acceptable.reached below) below] at usable
    cases usable
  · rw [searchAround_gives_up_above granularity lower upper small ended acceptable.window
      above] at usable
    cases usable

theorem searchAround_first_turn
    (ended : searchAround environment base size = some (some found))
    (acceptable : Acceptable environment base size candidate) :
    searchTurn base found ≤ searchTurn base candidate := by
  obtain ⟨next, previous⟩ := neighbours_toNat granularity lower upper
  have high := highBound_toNat upper small
  have low := lowBound_toNat base size
  obtain ⟨window, reached, usable⟩ := acceptable
  have granule := window.granule
  have other := window.other
  have above := window.above
  have below := window.below
  have candidateBound := candidate.isLt
  rw [searchAround] at ended
  obtain ⟨higher, ends, chosen⟩ := Option.bind_eq_some_iff.mp ended
  unfold searchTurn
  cases higher with
  | some first =>
      obtain rfl : first = found := by simpa using chosen
      have bounds := searchHigher_found granularity (by omega) (by omega) ends
      rw [if_pos (by omega)]
      split
      · by_contra earlier
        rw [searchHigher_passed granularity (by omega) (by omega) ends granule (by omega)
          (by omega)] at usable
        cases usable
      · omega
  | none =>
      have bounds := searchLower_found granularity (by omega) chosen
      rw [if_neg (by omega)]
      split
      · rw [searchHigher_gives_up granularity (by omega) (by omega) ends granule (by omega)
          (by omega)] at usable
        cases usable
      · by_contra earlier
        rw [searchLower_passed granularity (by omega) chosen granule (by omega)
          (by omega)] at usable
        cases usable

/-- The search is a first fit: it settles on the acceptable region with the first turn, and
gives up when there is none. -/
theorem searchAround_firstFit :
    (searchAround environment base size = some (some candidate) ↔
      MinimalFor (Acceptable environment base size) (searchTurn base) candidate) ∧
    (searchAround environment base size = some none ↔
      ∀ candidate, ¬Acceptable environment base size candidate) := by
  obtain ⟨result, ended⟩ := searchAround_ends granularity lower upper small
  rw [ended]
  cases result with
  | none =>
      have rejects (candidate : BitVec 64) : ¬Acceptable environment base size candidate :=
        searchAround_rejects granularity lower upper small ended
      exact ⟨iff_of_false (by simp) fun minimal => rejects _ minimal.prop, iff_of_true rfl rejects⟩
  | some found =>
      have acceptable := searchAround_acceptable granularity lower upper small ended
      have first {candidate : BitVec 64} (other : Acceptable environment base size candidate) :
          searchTurn base found ≤ searchTurn base candidate :=
        searchAround_first_turn granularity lower upper small ended other
      refine ⟨?_, iff_of_false (by simp) fun none => none found acceptable⟩
      rw [Option.some.injEq, Option.some.injEq]
      constructor
      · rintro rfl
        exact ⟨acceptable, fun _ other _ => first other⟩
      · intro minimal
        have earliest := minimal.le_of_le acceptable (first minimal.prop)
        exact searchTurn_injective base (Nat.le_antisymm (first minimal.prop) earliest)

end Around

theorem searchAround_firstFit_freeBelow :
    searchAround (Environment.freeBelow 0x140000000) 0x140001000 0x500 =
      some (some 0x13FFF0000) := by
  refine (searchAround_firstFit rfl (by decide) (by decide) (by decide)).1.mpr ⟨?_, ?_⟩
  · exact ⟨by constructor <;> decide, by decide, by decide⟩
  · rintro candidate ⟨window, _, usable⟩ _
    have below : candidate.toNat < 0x140000000 := by
      obtain ⟨info, answer, state, _⟩ := (regionUsable_iff rfl).mp usable
      obtain rfl := Option.some.inj answer
      by_contra higher
      rw [if_neg (show ¬candidate < 0x140000000 from higher)] at state
      exact absurd rfl state
    have granule := window.granule
    have same : searchTurn 0x140001000 0x13FFF0000 = 2 ^ 65 - 0x13FFF0000 := by decide
    have turn : searchTurn 0x140001000 candidate = 2 ^ 65 - candidate.toNat := by
      rw [searchTurn, if_neg (by change ¬0x140001000 < _; omega)]
    rw [same, turn]
    omega

end Detours

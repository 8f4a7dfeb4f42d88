import Mathlib.Data.Set.BooleanAlgebra
import Mathlib.Data.Set.Disjoint
import Mathlib.Logic.Function.Basic
import Mathlib.Order.CompletePartialOrder

namespace Detours.Bytes

structure Patch (α β : Type) where
  region : Set α
  covered : α → β

abbrev Patches (κ α β : Type) := κ → Option (Patch α β)

variable {κ α β : Type} {patches : Patches κ α β} {patch : Patch α β} {key : κ}
  {area : Set α} {origin store changed : α → β}

def Patches.region (patches : Patches κ α β) : Set α :=
  { place | ∃ key patch, patches key = some patch ∧ place ∈ patch.region }

/-- In `area`, what was there at the beginning is either in the store or covered by a patch. -/
structure Patches.Intact (patches : Patches κ α β) (area : Set α) (origin store : α → β) : Prop where
  covered : ∀ {key patch}, patches key = some patch →
    ∀ place ∈ patch.region, place ∈ area → patch.covered place = origin place
  visible : ∀ place ∈ area, place ∉ patches.region → store place = origin place

namespace Patches.Intact

theorem unpatched (none : ∀ key, patches key = none) (store : α → β) :
    patches.Intact area store store where
  covered := by
    intro key patch found
    rw [none key] at found
    cases found
  visible := fun _ _ _ => rfl

theorem restored (intact : patches.Intact area origin store) (none : ∀ key, patches key = none) :
    ∀ place ∈ area, store place = origin place := by
  intro place inside
  refine intact.visible place inside ?_
  rintro ⟨key, patch, found, _⟩
  rw [none key] at found
  cases found

theorem disturb (intact : patches.Intact area origin store)
    (same : ∀ place ∈ area, place ∉ patches.region → changed place = store place) :
    patches.Intact area origin changed where
  covered := intact.covered
  visible := fun place inside outside =>
    (same place inside outside).trans (intact.visible place inside outside)

variable [DecidableEq κ]

theorem apply (intact : patches.Intact area origin store) (absent : patches key = none)
    (apart : Disjoint patch.region patches.region)
    (saved : ∀ place ∈ patch.region, patch.covered place = store place)
    (same : ∀ place ∈ area, place ∉ patch.region → changed place = store place) :
    Patches.Intact (Function.update patches key (some patch)) area origin changed where
  covered := by
    intro other found entry place inside within
    by_cases equal : other = key
    · rw [equal, Function.update_self, Option.some.injEq] at entry
      subst found
      rw [saved place inside]
      exact intact.visible place within (Set.disjoint_left.mp apart inside)
    · rw [Function.update_of_ne equal] at entry
      exact intact.covered entry place inside within
  visible := by
    intro place inside outside
    have own : place ∉ patch.region := fun covers =>
      outside ⟨key, patch, Function.update_self .., covers⟩
    rw [same place inside own]
    refine intact.visible place inside ?_
    rintro ⟨other, found, entry, covers⟩
    refine outside ⟨other, found, ?_, covers⟩
    rw [Function.update_of_ne, entry]
    rintro rfl
    rw [absent] at entry
    cases entry

/-- A patch is undone by putting back what it covered, wherever the other patches are. -/
theorem undo (intact : patches.Intact area origin store) (found : patches key = some patch)
    (back : ∀ place ∈ patch.region, changed place = patch.covered place)
    (same : ∀ place, place ∉ patch.region → changed place = store place) :
    Patches.Intact (Function.update patches key none) area origin changed where
  covered := by
    intro other otherPatch entry
    by_cases equal : other = key
    · rw [equal, Function.update_self] at entry
      cases entry
    · rw [Function.update_of_ne equal] at entry
      exact intact.covered entry
  visible := by
    intro place inside outside
    by_cases own : place ∈ patch.region
    · rw [back place own]
      exact intact.covered found place own inside
    · rw [same place own]
      refine intact.visible place inside ?_
      rintro ⟨other, otherPatch, entry, covers⟩
      refine outside ⟨other, otherPatch, ?_, covers⟩
      rw [Function.update_of_ne, entry]
      rintro rfl
      rw [found, Option.some.injEq] at entry
      exact own (entry ▸ covers)

end Patches.Intact

end Detours.Bytes

import Detours.Bytes.Memory

namespace Detours.Bytes

namespace Memory

variable {w count : Nat} {left right : Memory w} {base : BitVec w} {value : Byte}
  {region : Set (BitVec w)}

theorem eqOn_write (same : Set.EqOn left right region) (base : BitVec w) (bytes : List Byte) :
    Set.EqOn (left.write base bytes) (right.write base bytes) region := by
  intro address inside
  rw [write, write, same inside]

theorem write_eqOn_span (left right : Memory w) (base : BitVec w) (bytes : List Byte) :
    Set.EqOn (left.write base bytes) (right.write base bytes) (span base bytes.length) := by
  intro address inside
  obtain ⟨index, below, bound, rfl⟩ := exists_offset inside
  rw [write_base_add bound, write_base_add bound, List.getElem?_eq_getElem below,
    Option.getD_some, Option.getD_some]

theorem eqOn_fill (same : Set.EqOn left right region) :
    Set.EqOn (left.fill base value count) (right.fill base value count)
      (region ∪ span base count) := by
  intro address inside
  rw [fill, fill]
  split
  · rfl
  · rename_i outside
    exact same (inside.resolve_right outside)

theorem read_eqOn (bound : count ≤ 2 ^ w) (same : Set.EqOn left right (span base count)) :
    left.read base count = right.read base count :=
  read_eq_of_agree bound fun _ inside => same inside

end Memory

structure Overlay (α β : Type) where
  region : Set α
  content : α → β

variable {α β : Type} {overlays others : List (Overlay α β)} {overlay : Overlay α β}
  {origin store other after : α → β} {region : Set α}

/-- Every overlay where it belongs, and what was there before around them. -/
structure Overlaid (overlays : List (Overlay α β)) (origin store : α → β) : Prop where
  content : ∀ overlay ∈ overlays, Set.EqOn store overlay.content overlay.region
  around : ∀ place, (∀ overlay ∈ overlays, place ∉ overlay.region) → store place = origin place

namespace Overlaid

theorem nil (origin : α → β) : Overlaid [] origin origin :=
  ⟨fun _ member => absurd member List.not_mem_nil, fun _ _ => rfl⟩

theorem untouched (overlaid : Overlaid overlays origin store)
    (apart : ∀ overlay ∈ overlays, Disjoint overlay.region region) :
    Set.EqOn store origin region :=
  fun place inside => overlaid.around place fun overlay member =>
    Set.disjoint_right.mp (apart overlay member) inside

theorem concat (overlaid : Overlaid overlays origin store)
    (apart : ∀ other ∈ overlays, Disjoint other.region overlay.region)
    (own : Set.EqOn after overlay.content overlay.region)
    (rest : ∀ place, place ∉ overlay.region → after place = store place) :
    Overlaid (overlays ++ [overlay]) origin after where
  content := by
    intro found member place inside
    rcases List.mem_append.mp member with old | new
    · rw [rest place (Set.disjoint_left.mp (apart found old) inside)]
      exact overlaid.content found old inside
    · obtain rfl := List.mem_singleton.mp new
      exact own inside
  around := by
    intro place outside
    rw [rest place (outside overlay (List.mem_append_right _ List.mem_cons_self))]
    exact overlaid.around place fun found member => outside found (List.mem_append_left _ member)

/-- The order of the overlays makes no difference. -/
theorem unique (overlaid : Overlaid overlays origin store) (again : Overlaid others origin other)
    (same : overlays.Perm others) : store = other := by
  funext place
  by_cases inside : ∃ overlay ∈ overlays, place ∈ overlay.region
  · obtain ⟨overlay, member, inside⟩ := inside
    rw [overlaid.content overlay member inside,
      again.content overlay (same.mem_iff.mp member) inside]
  · push Not at inside
    rw [overlaid.around place inside,
      again.around place fun overlay member => inside overlay (same.mem_iff.mpr member)]

end Overlaid

end Detours.Bytes

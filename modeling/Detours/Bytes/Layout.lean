import Detours.Bytes.Memory
import Mathlib.Data.Set.Pairwise.Basic

namespace Detours.Bytes

structure Field where
  offset : Nat
  size : Nat
deriving Repr, DecidableEq

namespace Field

variable {w : Nat}

def region (base : BitVec w) (field : Field) : Set (BitVec w) :=
  span (base + BitVec.ofNat w field.offset) field.size

/-- Fields that follow each other, from `start` on, within `total` bytes. -/
def InOrder (total : Nat) : Nat → List Field → Prop
  | start, [] => start ≤ total
  | start, field :: rest => start ≤ field.offset ∧ InOrder total (field.offset + field.size) rest

variable {base : BitVec w} {total start : Nat} {fields rest : List Field} {field : Field}

theorem InOrder.start_le (ordered : InOrder total start fields) : start ≤ total := by
  induction fields generalizing start with
  | nil => exact ordered
  | cons field rest ih =>
      have following := ih ordered.2
      have opened := ordered.1
      omega

theorem InOrder.mem_bounds (ordered : InOrder total start fields) (member : field ∈ fields) :
    start ≤ field.offset ∧ field.offset + field.size ≤ total := by
  induction fields generalizing start with
  | nil => cases member
  | cons first rest ih =>
      rcases List.mem_cons.mp member with rfl | later
      · exact ⟨ordered.1, ordered.2.start_le⟩
      · have bounds := ih ordered.2 later
        have opened := ordered.1
        omega

theorem InOrder.pairwise_disjoint (ordered : InOrder total start fields) (bound : total ≤ 2 ^ w) :
    (fields.map (region base)).Pairwise Disjoint := by
  induction fields generalizing start with
  | nil => exact .nil
  | cons field rest ih =>
      refine List.pairwise_cons.mpr ⟨?_, ih ordered.2⟩
      intro other member
      obtain ⟨later, found, rfl⟩ := List.mem_map.mp member
      have bounds := ordered.2.mem_bounds found
      exact span_add_disjoint _ _ _ bounds.1 (by omega)

end Field

end Detours.Bytes

import Detours.Decoding.Block
import Mathlib.Algebra.GroupWithZero.Nat

namespace Detours.Decoding

variable {β ι κ : Type} {decoder : Decoder β ι} {other : Decoder β κ} {fetch : Nat → List β}
  {stop fuel start offset : Nat} {chunks front rest : List (Chunk decoder)}

/-- The items met from an offset on, before `stop` and before the first one that does not
decode. The decode comes ahead of the test. -/
def scan (decoder : Decoder β ι) (fetch : Nat → List β) (stop : Nat) : Nat → Nat → List (Nat × ι)
  | 0, _ => []
  | fuel + 1, offset =>
      match decoder.decode (fetch offset) with
      | none => []
      | some item =>
          if stop ≤ offset then []
          else (offset, item) :: scan decoder fetch stop fuel (offset + decoder.length item)

def located : Nat → List (Chunk decoder) → List (Nat × ι)
  | _, [] => []
  | start, chunk :: rest => (start, chunk.item) :: located (start + chunk.bytes.length) rest

theorem located_lengths (start : Nat) (chunks : List (Chunk decoder)) :
    ((located start chunks).map fun met => decoder.length met.2).sum =
      (blockBytes chunks).length := by
  induction chunks generalizing start with
  | nil => rfl
  | cons chunk rest ih =>
      rw [located, List.map_cons, List.sum_cons, ih, blockBytes_cons, List.length_append,
        chunk.exact]

theorem mem_located :
    offset ∈ (located start chunks).map Prod.fst ↔
      ∃ front chunk rest, chunks = front ++ chunk :: rest ∧
        offset = start + (blockBytes front).length := by
  induction chunks generalizing start with
  | nil => simp [located]
  | cons chunk rest ih =>
      rw [located, List.map_cons, List.mem_cons, ih]
      constructor
      · intro met
        rcases met with first | ⟨front, next, tail, split, position⟩
        · exact ⟨[], chunk, rest, rfl, first⟩
        · refine ⟨chunk :: front, next, tail, by rw [split]; rfl, ?_⟩
          rw [position, blockBytes_cons, List.length_append, Nat.add_assoc]
      · intro met
        obtain ⟨front, next, tail, split, position⟩ := met
        cases front with
        | nil => exact .inl position
        | cons first front =>
            rw [List.cons_append, List.cons.injEq] at split
            obtain ⟨rfl, split⟩ := split
            refine .inr ⟨front, next, tail, split, ?_⟩
            rw [position, blockBytes_cons, List.length_append, Nat.add_assoc]

/-- A loop that decodes every chunk of a stream, each before `stop`, meets them all. -/
theorem scan_located
    (found : ∀ front chunk rest, chunks = front ++ chunk :: rest →
      start + (blockBytes front).length < stop ∧
        decoder.decode (fetch (start + (blockBytes front).length)) = some chunk.item)
    (positive : ∀ chunk ∈ chunks, 0 < chunk.bytes.length)
    (ended : stop ≤ start + (blockBytes chunks).length) (enough : stop < fuel + start) :
    scan decoder fetch stop fuel start = located start chunks := by
  induction chunks generalizing start fuel with
  | nil =>
      cases fuel with
      | zero => rfl
      | succ fuel =>
          rw [scan]
          cases decoder.decode (fetch start) with
          | none => rfl
          | some item => exact if_pos ended
  | cons chunk rest ih =>
      obtain ⟨opened, decoded⟩ := found [] chunk rest rfl
      have advances := positive chunk List.mem_cons_self
      rw [blockBytes_nil, List.length_nil, Nat.add_zero] at opened decoded
      rw [blockBytes_cons, List.length_append] at ended
      cases fuel with
      | zero => omega
      | succ fuel =>
          rw [scan, decoded, located]
          simp only [if_neg (Nat.not_le.mpr opened), ← chunk.exact]
          rw [ih ?_ (fun next member => positive next (List.mem_cons_of_mem _ member)) (by omega)
            (by omega)]
          intro front next tail split
          have later := found (chunk :: front) next tail (by rw [split]; rfl)
          rwa [blockBytes_cons, List.length_append, ← Nat.add_assoc] at later

theorem chunks_begin (selfDelimiting : decoder.SelfDelimiting)
    (begins : blockBytes front <+: blockBytes chunks) : ∃ rest, chunks = front ++ rest := by
  obtain ⟨tail, same⟩ := begins
  induction front generalizing chunks with
  | nil => exact ⟨chunks, rfl⟩
  | cons first front ih =>
      have positive := first.length_pos selfDelimiting
      cases chunks with
      | nil =>
          have lengths := congrArg List.length same
          rw [blockBytes_cons, blockBytes_nil, List.length_append, List.length_append,
            List.length_nil] at lengths
          omega
      | cons chunk rest =>
          rw [blockBytes_cons, blockBytes_cons, List.append_assoc] at same
          obtain ⟨rfl, others⟩ := Chunk.append_inj selfDelimiting same
          obtain ⟨rest, rfl⟩ := ih others
          exact ⟨rest, rfl⟩

theorem located_offsets {left : List (Chunk decoder)} {right : List (Chunk other)} (start : Nat)
    (lengths : left.map (·.bytes.length) = right.map (·.bytes.length)) :
    (located start left).map Prod.fst = (located start right).map Prod.fst ∧
      (blockBytes left).length = (blockBytes right).length := by
  induction left generalizing start right with
  | nil =>
      rw [List.map_nil, eq_comm, List.map_eq_nil_iff] at lengths
      subst lengths
      exact ⟨rfl, rfl⟩
  | cons chunk left ih =>
      cases right with
      | nil => cases lengths
      | cons next right =>
          rw [List.map_cons, List.map_cons, List.cons.injEq] at lengths
          obtain ⟨first, others⟩ := lengths
          obtain ⟨offsets, total⟩ := ih (start + chunk.bytes.length) others
          rw [located, located, List.map_cons, List.map_cons, offsets, blockBytes_cons,
            blockBytes_cons, List.length_append, List.length_append, total, first]
          exact ⟨rfl, rfl⟩

/-- Two streams that are cut at the same offsets and end at the same one have chunks of
the same lengths. -/
theorem lengths_of_located {left : List (Chunk decoder)} {right : List (Chunk other)}
    (offsets : (located start left).map Prod.fst = (located start right).map Prod.fst)
    (total : (blockBytes left).length = (blockBytes right).length) :
    left.map (·.bytes.length) = right.map (·.bytes.length) := by
  induction left generalizing start right with
  | nil =>
      cases right with
      | nil => rfl
      | cons next right => cases offsets
  | cons chunk left ih =>
      cases right with
      | nil => cases offsets
      | cons next right =>
          rw [located, located, List.map_cons, List.map_cons, List.cons.injEq] at offsets
          rw [blockBytes_cons, blockBytes_cons, List.length_append, List.length_append] at total
          have first : chunk.bytes.length = next.bytes.length := by
            cases left with
            | nil =>
                cases right with
                | nil => exact total
                | cons later right => cases offsets.2
            | cons following left =>
                cases right with
                | nil => cases offsets.2
                | cons later right =>
                    have starts := (List.cons.inj offsets.2).1
                    dsimp only at starts
                    omega
          rw [first] at offsets total
          rw [List.map_cons, List.map_cons, first, ih offsets.2 (Nat.add_left_cancel total)]

theorem split_of_lengths {left before after : List (Chunk decoder)} {right : List (Chunk other)}
    {chunk : Chunk decoder} (lengths : left.map (·.bytes.length) = right.map (·.bytes.length))
    (split : left = before ++ chunk :: after) :
    ∃ front next rest, right = front ++ next :: rest ∧
      (blockBytes front).length = (blockBytes before).length ∧
      next.bytes.length = chunk.bytes.length := by
  induction before generalizing left right with
  | nil =>
      subst split
      cases right with
      | nil => cases lengths
      | cons next rest => exact ⟨[], next, rest, rfl, rfl, (List.cons.inj lengths).1.symm⟩
  | cons first before ih =>
      subst split
      cases right with
      | nil => cases lengths
      | cons head right =>
          obtain ⟨same, others⟩ := List.cons.inj lengths
          obtain ⟨front, next, rest, rfl, position, width⟩ := ih others rfl
          refine ⟨head :: front, next, rest, rfl, ?_, width⟩
          rw [blockBytes_cons, blockBytes_cons, List.length_append, List.length_append, position]
          exact congrArg (· + _) same.symm

end Detours.Decoding

import Mathlib.Data.List.Basic

namespace Detours.Decoding

/-! Instruction streams for an arbitrary decoder. Nothing here knows what an
instruction is: an item is whatever the decoder yields, with a length in symbols. -/

structure Decoder (β ι : Type) where
  decode : List β → Option ι
  length : ι → Nat

variable {β ι : Type} {decoder : Decoder β ι}

/-- A decode reads exactly the symbols of the item it finds. -/
structure Decoder.SelfDelimiting (decoder : Decoder β ι) : Prop where
  positive : ∀ {buffer item}, decoder.decode buffer = some item → 0 < decoder.length item
  bounded : ∀ {buffer item}, decoder.decode buffer = some item →
    decoder.length item ≤ buffer.length
  prefixOnly : ∀ {buffer item}, decoder.decode buffer = some item →
    ∀ rest, decoder.decode (buffer.take (decoder.length item) ++ rest) = some item

/-- An item together with exactly its own symbols. -/
structure Chunk (decoder : Decoder β ι) where
  item : ι
  bytes : List β
  exact : bytes.length = decoder.length item
  decoded : decoder.decode bytes = some item

theorem Chunk.ext' {left right : Chunk decoder} (bytes : left.bytes = right.bytes) :
    left = right := by
  have items : left.item = right.item := by
    have same := left.decoded
    rw [bytes, right.decoded] at same
    exact (Option.some.inj same).symm
  cases left
  cases right
  cases bytes
  cases items
  rfl

theorem Chunk.length_pos (selfDelimiting : decoder.SelfDelimiting) (chunk : Chunk decoder) :
    0 < chunk.bytes.length := by
  rw [chunk.exact]
  exact selfDelimiting.positive chunk.decoded

theorem Chunk.decode_append (selfDelimiting : decoder.SelfDelimiting) (chunk : Chunk decoder)
    (rest : List β) : decoder.decode (chunk.bytes ++ rest) = some chunk.item := by
  have found := selfDelimiting.prefixOnly chunk.decoded rest
  rwa [← chunk.exact, List.take_length] at found

def Chunk.front (selfDelimiting : decoder.SelfDelimiting) {buffer : List β} {item : ι}
    (found : decoder.decode buffer = some item) : Chunk decoder where
  item := item
  bytes := buffer.take (decoder.length item)
  exact := List.length_take_of_le (selfDelimiting.bounded found)
  decoded := by simpa using selfDelimiting.prefixOnly found []

theorem Chunk.append_inj (selfDelimiting : decoder.SelfDelimiting) {left right : Chunk decoder}
    {leftRest rightRest : List β}
    (same : left.bytes ++ leftRest = right.bytes ++ rightRest) :
    left = right ∧ leftRest = rightRest := by
  have items : left.item = right.item := by
    have first := left.decode_append selfDelimiting leftRest
    rw [same, right.decode_append selfDelimiting] at first
    exact (Option.some.inj first).symm
  have lengths : left.bytes.length = right.bytes.length := by
    rw [left.exact, right.exact, items]
  obtain ⟨bytes, rests⟩ := List.append_inj same lengths
  exact ⟨Chunk.ext' bytes, rests⟩

def blockBytes : List (Chunk decoder) → List β
  | [] => []
  | chunk :: rest => chunk.bytes ++ blockBytes rest

@[simp] theorem blockBytes_nil : blockBytes ([] : List (Chunk decoder)) = [] := rfl

@[simp] theorem blockBytes_cons (chunk : Chunk decoder) (rest : List (Chunk decoder)) :
    blockBytes (chunk :: rest) = chunk.bytes ++ blockBytes rest := rfl

theorem blockBytes_singleton (chunk : Chunk decoder) : blockBytes [chunk] = chunk.bytes :=
  List.append_nil _

theorem blockBytes_append (front rest : List (Chunk decoder)) :
    blockBytes (front ++ rest) = blockBytes front ++ blockBytes rest := by
  induction front with
  | nil => rfl
  | cons chunk front ih =>
      simp only [List.cons_append, blockBytes_cons, ih, List.append_assoc]

def StartsBelow (needed : Nat) (chunks : List (Chunk decoder)) : Prop :=
  ∀ front chunk rest, chunks = front ++ chunk :: rest → (blockBytes front).length < needed

theorem StartsBelow.nil (needed : Nat) : StartsBelow needed ([] : List (Chunk decoder)) := by
  intro front chunk rest split
  cases front <;> cases split

theorem StartsBelow.cons {needed : Nat} {chunk : Chunk decoder} {rest : List (Chunk decoder)}
    (opened : 0 < needed) (below : StartsBelow (needed - chunk.bytes.length) rest) :
    StartsBelow needed (chunk :: rest) := by
  intro front next tail split
  cases front with
  | nil => exact opened
  | cons first front =>
      simp only [List.cons_append, List.cons.injEq] at split
      obtain ⟨rfl, split⟩ := split
      have bound := below front next tail split
      simp only [blockBytes_cons, List.length_append]
      omega

theorem StartsBelow.tail {needed : Nat} {chunk : Chunk decoder} {rest : List (Chunk decoder)}
    (below : StartsBelow needed (chunk :: rest)) :
    StartsBelow (needed - chunk.bytes.length) rest := by
  intro front next tail split
  have bound := below (chunk :: front) next tail (by rw [split]; rfl)
  simp only [blockBytes_cons, List.length_append] at bound
  omega

theorem StartsBelow.of_last {needed : Nat} {chunks : List (Chunk decoder)}
    (last : (blockBytes chunks.dropLast).length < needed) : StartsBelow needed chunks := by
  rintro front chunk rest rfl
  rw [List.dropLast_append_of_ne_nil (List.cons_ne_nil _ _), blockBytes_append,
    List.length_append] at last
  omega

theorem StartsBelow.length_lt {needed longest : Nat} {chunks : List (Chunk decoder)}
    (below : StartsBelow needed chunks) (positive : 0 < longest)
    (short : ∀ chunk ∈ chunks, chunk.bytes.length ≤ longest) :
    (blockBytes chunks).length < needed + longest := by
  rcases List.eq_nil_or_concat chunks with rfl | ⟨front, last, rfl⟩
  · simp only [blockBytes_nil, List.length_nil]
    omega
  · have start := below front last [] (by simp)
    have size := short last (by simp)
    simp only [List.concat_eq_append, blockBytes_append, blockBytes_cons, blockBytes_nil,
      List.length_append, List.append_nil]
    omega

theorem StartsBelow.countP_mul_lt {needed : Nat} {chunks : List (Chunk decoder)}
    (below : StartsBelow needed chunks) (long : Nat) (chosen : Chunk decoder → Bool)
    (positive : 0 < long)
    (large : ∀ chunk ∈ chunks, chosen chunk → long ≤ chunk.bytes.length) :
    chunks.countP chosen * long < needed + long := by
  induction chunks generalizing needed with
  | nil =>
      rw [List.countP_nil, Nat.zero_mul]
      omega
  | cons chunk rest ih =>
      have opened : 0 < needed := below [] chunk rest rfl
      have others := ih below.tail (fun other member => large other (List.mem_cons_of_mem _ member))
      rw [List.countP_cons, Nat.add_mul]
      by_cases inner : chunk.bytes.length ≤ needed
      · split
        · rename_i counted
          have own := large chunk List.mem_cons_self counted
          omega
        · omega
      · -- nothing starts behind a chunk that ends past the bound
        cases rest with
        | nil =>
            rw [List.countP_nil]
            split <;> omega
        | cons other rest =>
            have start := below [chunk] other rest rfl
            simp only [blockBytes_cons, blockBytes_nil, List.append_nil] at start
            omega

/-- Reading on from `offset`, items decode until symbol `needed` is reached. The
buffer at each offset is given by `fetch`. -/
inductive Covers (decoder : Decoder β ι) (fetch : Nat → List β) (needed : Nat) : Nat → Prop where
  | reached {offset : Nat} (enough : needed ≤ offset) : Covers decoder fetch needed offset
  | item {offset : Nat} {item : ι} (opened : offset < needed)
      (decoded : decoder.decode (fetch offset) = some item)
      (rest : Covers decoder fetch needed (offset + decoder.length item)) :
      Covers decoder fetch needed offset

end Detours.Decoding

import Detours.TrampolineBuilder.Model

namespace Detours.TrampolineBuilder

open Detours.Bytes Detours.Machine

/-- The displacement of every jump table entry: the two tables run in step. -/
def entryDisplacement : BitVec 32 := 0xAA

/-- Entry `index` of the jump table leads to the `index`-th placed address. -/
structure Tables (cave : BitVec 64) (placed : List (BitVec 64)) (builder : TrampolineBuilder)
    (memory : Memory 64) : Prop where
  caveAddress : builder.caveAddress = cave
  jumpTableAddress : builder.jumpTableAddress = cave + BitVec.ofNat 64 (0x50 + 8 * placed.length)
  addressTableAddress :
    builder.addressTableAddress = cave + BitVec.ofNat 64 (0x100 + 8 * placed.length)
  entry : ∀ {index target}, placed[index]? = some target →
    memory.read (cave + BitVec.ofNat 64 (0x50 + 8 * index)) 6 = jumpQword entryDisplacement
  slot : ∀ {index target}, placed[index]? = some target →
    memory.read (cave + BitVec.ofNat 64 (0x100 + 8 * index)) 8 = littleEndian 8 target.toNat

variable {cave target : BitVec 64} {placed : List (BitVec 64)} {builder : TrampolineBuilder}
  {memory after : Memory 64} {index : Nat}

theorem slot_sub_entry (cave : BitVec 64) (count : Nat) :
    cave + BitVec.ofNat 64 (0x100 + 8 * count) - (cave + BitVec.ofNat 64 (0x50 + 8 * count) + 6) =
      0xAA := by
  rw [BitVec.ofNat_add, BitVec.ofNat_add (x := 0x50), sub_eq_iff_eq_add]
  generalize BitVec.ofNat 64 (8 * count) = shift
  rw [show BitVec.ofNat 64 0x100 = BitVec.ofNat 64 0x50 + 6 + 0xAA from rfl]
  ac_rfl

theorem Tables.nil (located : builder.caveAddress = cave)
    (jumpTable : builder.jumpTableAddress = cave + 0x50)
    (addressTable : builder.addressTableAddress = cave + 0x100) : Tables cave [] builder memory :=
  ⟨located, jumpTable, addressTable, by simp, by simp⟩

theorem Tables.placeRelocation_eq (tables : Tables cave placed builder memory) :
    (builder.placeRelocation memory target).2 =
      (memory.write (cave + BitVec.ofNat 64 (0x100 + 8 * placed.length))
        (littleEndian 8 target.toNat)).write
          (cave + BitVec.ofNat 64 (0x50 + 8 * placed.length)) (jumpQword entryDisplacement) := by
  simp only [placeRelocation, placeQwordJump, storeQwordJump_eq, tables.jumpTableAddress,
    tables.addressTableAddress]
  rw [slot_sub_entry]
  rfl

theorem Tables.placeRelocation (tables : Tables cave placed builder memory)
    (room : placed.length < 22) :
    Tables cave (placed ++ [target]) (builder.placeRelocation memory target).1
      (builder.placeRelocation memory target).2 := by
  have next (start : Nat) : cave + BitVec.ofNat 64 (start + 8 * placed.length) + 8 =
      cave + BitVec.ofNat 64 (start + 8 * (placed ++ [target]).length) := by
    rw [List.length_append, List.length_singleton, Nat.mul_add, ← Nat.add_assoc,
      BitVec.ofNat_add _ (8 * 1), BitVec.add_assoc]
    rfl
  have slotLength : (littleEndian 8 target.toNat).length = 8 := littleEndian_length _ _
  have entryLength : (jumpQword entryDisplacement).length = 6 := jumpQword_length _
  refine ⟨tables.caveAddress, ?_, ?_, ?_, ?_⟩
  · rw [← next, ← tables.jumpTableAddress]
    rfl
  · rw [← next, ← tables.addressTableAddress]
    rfl
  · intro index other found
    rw [tables.placeRelocation_eq]
    have inside := (List.getElem?_eq_some_iff.mp found).1
    rw [List.length_append, List.length_singleton] at inside
    by_cases last : index = placed.length
    · subst index
      exact Memory.read_write_of_length _ _ entryLength (by decide)
    · rw [List.getElem?_append_left (by omega)] at found
      rw [Memory.write_changesOnly.read_eq (by decide), Memory.write_changesOnly.read_eq (by decide),
        tables.entry found]
      · rw [slotLength]
        exact span_add_disjoint _ _ _ (by omega) (by omega)
      · rw [entryLength]
        exact span_add_disjoint _ _ _ (by omega) (by omega)
  · intro index other found
    rw [tables.placeRelocation_eq]
    have inside := (List.getElem?_eq_some_iff.mp found).1
    rw [List.length_append, List.length_singleton] at inside
    rw [Memory.write_changesOnly.read_eq (by decide)]
    · by_cases last : index = placed.length
      · subst index
        obtain rfl : target = other := by simpa using found
        exact Memory.read_write_of_length _ _ slotLength (by decide)
      · rw [List.getElem?_append_left (by omega)] at found
        rw [Memory.write_changesOnly.read_eq (by decide), tables.slot found]
        rw [slotLength]
        exact span_add_disjoint _ _ _ (by omega) (by omega)
    · rw [entryLength, disjoint_comm]
      exact span_add_disjoint _ _ _ (by omega) (by omega)

/-- The offsets relocations write: six of the eight bytes of an entry, and the slots. -/
def IsTableOffset (offset : Nat) : Prop :=
  (0x50 ≤ offset ∧ offset < 0x100 ∧ (offset - 0x50) % 8 < 6) ∨ (0x100 ≤ offset ∧ offset < 0x1B0)

def tableBytes (cave : BitVec 64) : Set (BitVec 64) :=
  { address | IsTableOffset (address - cave).toNat }

theorem tableBytes_subset (cave : BitVec 64) : tableBytes cave ⊆ span cave 0x1000 := by
  intro address written
  have offset : IsTableOffset (address - cave).toNat := written
  rw [mem_span]
  unfold IsTableOffset at offset
  omega

theorem span_subset_tableBytes {start size : Nat} (bound : start + size ≤ 0x1000)
    (written : ∀ offset, start ≤ offset → offset < start + size → IsTableOffset offset) :
    span (cave + BitVec.ofNat 64 start) size ⊆ tableBytes cave := by
  intro address inside
  obtain ⟨index, below, _, rfl⟩ := exists_offset inside
  change IsTableOffset _
  rw [BitVec.add_assoc, ← BitVec.ofNat_add, add_ofNat_sub (by omega)]
  exact written _ (by omega) (by omega)

theorem Tables.placeRelocation_changesOnly (tables : Tables cave placed builder memory)
    (room : placed.length < 22) :
    Memory.ChangesOnly (tableBytes cave) memory (builder.placeRelocation memory target).2 := by
  rw [tables.placeRelocation_eq]
  refine .trans (Memory.write_changesOnly.mono ?_) (Memory.write_changesOnly.mono ?_)
  · rw [littleEndian_length]
    refine span_subset_tableBytes (by omega) fun offset _ _ => ?_
    unfold IsTableOffset
    omega
  · rw [jumpQword_length]
    refine span_subset_tableBytes (by omega) fun offset _ _ => ?_
    unfold IsTableOffset
    omega

theorem Tables.frame (tables : Tables cave placed builder memory) (room : placed.length ≤ 22)
    {region : Set (BitVec 64)} (changes : Memory.ChangesOnly region memory after)
    (apart : Disjoint (span (cave + 0x50) 0x160) region) :
    Tables cave placed builder after := by
  have within (offset count : Nat) (bound : offset + count ≤ 0x160) :
      Disjoint (span (cave + BitVec.ofNat 64 (0x50 + offset)) count) region := by
    rw [BitVec.ofNat_add, ← BitVec.add_assoc]
    exact apart.mono_left (span_add_subset _ bound (by decide))
  refine ⟨tables.caveAddress, tables.jumpTableAddress, tables.addressTableAddress, ?_, ?_⟩
  · intro index target found
    have inside := (List.getElem?_eq_some_iff.mp found).1
    rw [changes.read_eq (by decide) (within _ _ (by omega)), tables.entry found]
  · intro index target found
    have inside := (List.getElem?_eq_some_iff.mp found).1
    rw [changes.read_eq (by decide), tables.slot found]
    have slot := within (0xB0 + 8 * index) 8 (by omega)
    rwa [← Nat.add_assoc] at slot

/-- Executing an entry jumps to the address placed for it. -/
theorem Tables.jumpTarget_entry (tables : Tables cave placed builder memory)
    (found : placed[index]? = some target) :
    jumpTarget memory (cave + BitVec.ofNat 64 (0x50 + 8 * index)) = some target := by
  rw [jumpTarget_jumpQword (tables.entry found)]
  have slot : cave + BitVec.ofNat 64 (0x50 + 8 * index) + 6 + displacement entryDisplacement =
      cave + BitVec.ofNat 64 (0x100 + 8 * index) := by
    rw [show displacement entryDisplacement = 0xAA from rfl, ← slot_sub_entry cave index,
      add_sub_cancel]
  rw [slot, read64_eq _ (tables.slot found)]

theorem initializeTables_tables (located : builder.caveAddress = cave)
    (originalAddress : BitVec 64) (stolenSize : Nat) :
    Tables cave [originalAddress + BitVec.ofNat 64 stolenSize]
      (builder.initializeTables memory originalAddress stolenSize).1
      (builder.initializeTables memory originalAddress stolenSize).2 := by
  subst located
  unfold initializeTables
  rw [← List.nil_append [_]]
  apply Tables.placeRelocation
  · exact .nil rfl rfl rfl
  · decide

end Detours.TrampolineBuilder

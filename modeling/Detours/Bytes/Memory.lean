import Detours.Bytes.Endian
import Mathlib.Data.Set.BooleanAlgebra
import Mathlib.Data.Set.Disjoint
import Mathlib.Order.CompletePartialOrder

namespace Detours.Bytes

/-- Byte-addressed memory. Addresses are machine words, so a range that runs
past the last address continues at address zero. -/
abbrev Memory (w : Nat) := BitVec w → Byte

def span {w : Nat} (base : BitVec w) (size : Nat) : Set (BitVec w) :=
  { address | (address - base).toNat < size }

section Span

variable {w size other offset index : Nat} {base start address : BitVec w}

theorem mem_span : address ∈ span base size ↔ (address - base).toNat < size := Iff.rfl

instance : DecidablePred (· ∈ span base size) :=
  fun address => inferInstanceAs (Decidable ((address - base).toNat < size))

theorem add_ofNat_sub (bound : index < 2 ^ w) :
    (base + BitVec.ofNat w index - base).toNat = index := by
  rw [BitVec.add_comm, BitVec.add_sub_cancel, BitVec.toNat_ofNat, Nat.mod_eq_of_lt bound]

theorem add_ofNat_mem_span (index : Nat) (bound : index < 2 ^ w) :
    base + BitVec.ofNat w index ∈ span base size ↔ index < size := by
  rw [mem_span, add_ofNat_sub bound]

theorem eq_add_ofNat (base address : BitVec w) :
    address = base + BitVec.ofNat w (address - base).toNat := by
  rw [BitVec.ofNat_toNat, BitVec.setWidth_eq, BitVec.add_comm, BitVec.sub_add_cancel]

theorem exists_offset (inside : address ∈ span base size) :
    ∃ index, index < size ∧ index < 2 ^ w ∧ address = base + BitVec.ofNat w index :=
  ⟨(address - base).toNat, inside, BitVec.isLt _, eq_add_ofNat base address⟩

theorem add_ofNat_sub_add_ofNat (below : offset ≤ index) (bound : index < 2 ^ w) :
    (base + BitVec.ofNat w index - (base + BitVec.ofNat w offset)).toNat = index - offset := by
  have shifted : base + BitVec.ofNat w index =
      base + BitVec.ofNat w offset + BitVec.ofNat w (index - offset) := by
    rw [BitVec.add_assoc, ← BitVec.ofNat_add, Nat.add_sub_cancel' below]
  rw [shifted, add_ofNat_sub (by omega)]

theorem add_ofNat_sub_add_ofNat_of_lt (above : index < offset) (bound : offset < 2 ^ w) :
    (base + BitVec.ofNat w index - (base + BitVec.ofNat w offset)).toNat =
      2 ^ w - (offset - index) := by
  have shifted : base + BitVec.ofNat w offset =
      base + BitVec.ofNat w index + BitVec.ofNat w (offset - index) := by
    rw [BitVec.add_assoc, ← BitVec.ofNat_add, Nat.add_sub_cancel' (Nat.le_of_lt above)]
  rw [shifted, sub_add_cancel_left, BitVec.toNat_neg, BitVec.toNat_ofNat,
    Nat.mod_eq_of_lt (a := offset - index) (by omega), Nat.mod_eq_of_lt (by omega)]

theorem base_mem_span (positive : 0 < size) : base ∈ span base size := by
  rwa [mem_span, BitVec.sub_self, BitVec.toNat_zero]

theorem span_mono (smaller : size ≤ other) : span base size ⊆ span base other :=
  fun _ inside => Nat.lt_of_lt_of_le inside smaller

theorem span_add_subset (offset : Nat) (inside : offset + size ≤ other) (bound : other ≤ 2 ^ w) :
    span (base + BitVec.ofNat w offset) size ⊆ span base other := by
  intro address member
  obtain ⟨index, small, _, rfl⟩ := exists_offset member
  rw [BitVec.add_assoc, ← BitVec.ofNat_add, add_ofNat_mem_span _ (by omega)]
  omega

theorem span_add_disjoint (base : BitVec w) (first second : Nat) {firstSize secondSize : Nat}
    (before : first + firstSize ≤ second) (bound : second + secondSize ≤ 2 ^ w) :
    Disjoint (span (base + BitVec.ofNat w first) firstSize)
      (span (base + BitVec.ofNat w second) secondSize) := by
  rw [Set.disjoint_left]
  intro address inFirst inSecond
  obtain ⟨index, small, _, rfl⟩ := exists_offset inSecond
  rw [BitVec.add_assoc, ← BitVec.ofNat_add, mem_span,
    add_ofNat_sub_add_ofNat (by omega) (by omega)] at inFirst
  omega

theorem span_disjoint_add (second : Nat) {first secondSize : Nat} (before : first ≤ second)
    (bound : second + secondSize ≤ 2 ^ w) :
    Disjoint (span base first) (span (base + BitVec.ofNat w second) secondSize) := by
  have apart := span_add_disjoint base 0 second ((Nat.zero_add first).trans_le before) bound
  rwa [BitVec.add_zero] at apart

/-- Spans are disjoint when each starts outside the other: the two distances
between the bases, one in each direction round the address space, suffice. -/
theorem span_disjoint (ahead : size ≤ (start - base).toNat)
    (behind : other ≤ (base - start).toNat) : Disjoint (span base size) (span start other) := by
  rw [Set.disjoint_left]
  intro address inBase inStart
  rw [mem_span] at inBase inStart
  have step : address - base = (start - base) + (address - start) := by
    rw [add_comm, sub_add_sub_cancel]
  by_cases same : start - base = 0
  · have zero : (start - base).toNat = 0 := by rw [same]; rfl
    omega
  · have total : (base - start).toNat = 2 ^ w - (start - base).toNat := by
      have positive : (start - base).toNat ≠ 0 := fun zero => same (BitVec.eq_of_toNat_eq zero)
      rw [← neg_sub start base, BitVec.toNat_neg, Nat.mod_eq_of_lt (by omega)]
    have bound := (start - base).isLt
    rw [step, BitVec.toNat_add, Nat.mod_eq_of_lt (by omega)] at inBase
    omega

end Span

namespace Memory

variable {w size count offset index start : Nat} {memory before middle after : Memory w}
  {base address target : BitVec w} {bytes other : List Byte} {value : Byte}

def read (memory : Memory w) (base : BitVec w) : Nat → List Byte
  | 0 => []
  | count + 1 => memory base :: read memory (base + 1) count

/-- Store a byte string. Where the string covers an address twice (only when it
is longer than the address space) its first byte for the address counts. -/
def write (memory : Memory w) (base : BitVec w) (bytes : List Byte) : Memory w :=
  fun address => (bytes[(address - base).toNat]?).getD (memory address)

/-- Store one byte `count` times. All memory is mapped here, so that a fill of any length comes to
its end, where a process would meet a page that is not. -/
def fill (memory : Memory w) (base : BitVec w) (value : Byte) (count : Nat) : Memory w :=
  fun address => if (address - base).toNat < count then value else memory address

@[simp] theorem read_length : (read memory base count).length = count := by
  induction count generalizing base with
  | zero => rfl
  | succ count ih => simp only [read, List.length_cons, ih]

theorem read_getElem? (inside : index < count) :
    (read memory base count)[index]? = some (memory (base + BitVec.ofNat w index)) := by
  induction count generalizing base index with
  | zero => omega
  | succ count ih =>
      cases index with
      | zero => simp [read]
      | succ index =>
          rw [read, List.getElem?_cons_succ, ih (by omega), BitVec.ofNat_add, BitVec.add_assoc,
            BitVec.add_comm (BitVec.ofNat w index)]
          rfl

theorem read_congr {left right : Memory w} {leftBase rightBase : BitVec w}
    (same : ∀ index, index < count →
      left (leftBase + BitVec.ofNat w index) = right (rightBase + BitVec.ofNat w index)) :
    read left leftBase count = read right rightBase count := by
  apply List.ext_getElem?
  intro index
  by_cases inside : index < count
  · rw [read_getElem? inside, read_getElem? inside, same index inside]
  · rw [List.getElem?_eq_none (by simp only [read_length]; omega),
      List.getElem?_eq_none (by simp only [read_length]; omega)]

theorem read_eq_of_agree (bound : count ≤ 2 ^ w)
    (same : ∀ address ∈ span base count, after address = before address) :
    read after base count = read before base count := by
  apply read_congr
  intro index inside
  exact same _ ((add_ofNat_mem_span _ (by omega)).mpr inside)

theorem read_window_of_agree {size : Nat} (bound : size ≤ 2 ^ w)
    (same : ∀ address ∈ span base size, after address = before address) (offset count : Nat)
    (room : offset + count ≤ size) :
    read after (base + BitVec.ofNat w offset) count =
      read before (base + BitVec.ofNat w offset) count :=
  read_eq_of_agree (by omega) fun address inside =>
    same address (span_add_subset offset room bound inside)

theorem read_add (first second : Nat) :
    read memory base (first + second) =
      read memory base first ++ read memory (base + BitVec.ofNat w first) second := by
  apply List.ext_getElem?
  intro index
  by_cases inFirst : index < first
  · rw [read_getElem? (by omega), List.getElem?_append_left (by simpa using inFirst),
      read_getElem? inFirst]
  · rw [List.getElem?_append_right (by simp only [read_length]; omega), read_length]
    by_cases inSecond : index < first + second
    · rw [read_getElem? inSecond, read_getElem? (by omega), BitVec.add_assoc,
        ← BitVec.ofNat_add, Nat.add_sub_cancel' (by omega)]
    · rw [List.getElem?_eq_none (by simp only [read_length]; omega),
        List.getElem?_eq_none (by simp only [read_length]; omega)]

theorem take_read (smaller : count ≤ size) :
    (read memory base size).take count = read memory base count := by
  obtain ⟨rest, rfl⟩ := Nat.exists_eq_add_of_le smaller
  rw [read_add, List.take_append_of_le_length (by simp), List.take_of_length_le (by simp)]

theorem drop_read (smaller : count ≤ size) :
    (read memory base size).drop count =
      read memory (base + BitVec.ofNat w count) (size - count) := by
  obtain ⟨rest, rfl⟩ := Nat.exists_eq_add_of_le smaller
  rw [read_add, List.drop_append_of_le_length (by simp), List.drop_of_length_le (by simp),
    List.nil_append, Nat.add_sub_cancel_left]

def ChangesOnly (region : Set (BitVec w)) (before after : Memory w) : Prop :=
  ∀ address, address ∉ region → after address = before address

theorem ChangesOnly.refl (region : Set (BitVec w)) (memory : Memory w) :
    ChangesOnly region memory memory :=
  fun _ _ => rfl

theorem ChangesOnly.trans {region : Set (BitVec w)}
    (first : ChangesOnly region before middle) (second : ChangesOnly region middle after) :
    ChangesOnly region before after :=
  fun address outside => (second address outside).trans (first address outside)

theorem ChangesOnly.mono {region larger : Set (BitVec w)} (subset : region ⊆ larger)
    (changes : ChangesOnly region before after) : ChangesOnly larger before after :=
  fun address outside => changes address (fun inside => outside (subset inside))

theorem ChangesOnly.read_eq {region : Set (BitVec w)} (changes : ChangesOnly region before after)
    (bound : size ≤ 2 ^ w) (apart : Disjoint (span base size) region) :
    read after base size = read before base size :=
  read_eq_of_agree bound fun address inside => changes address (Set.disjoint_left.mp apart inside)

theorem write_changesOnly : ChangesOnly (span base bytes.length) memory (write memory base bytes) := by
  intro address outside
  rw [mem_span, Nat.not_lt] at outside
  rw [write, List.getElem?_eq_none outside, Option.getD_none]

theorem write_changesOnly_of_length (length : bytes.length = count) :
    ChangesOnly (span base count) memory (write memory base bytes) := by
  subst length
  exact write_changesOnly

theorem fill_changesOnly : ChangesOnly (span base count) memory (fill memory base value count) := by
  intro address outside
  rw [mem_span] at outside
  rw [fill, if_neg outside]

theorem write_add (room : offset + bytes.length ≤ 2 ^ w) (bound : index < 2 ^ w) :
    write memory (base + BitVec.ofNat w offset) bytes (base + BitVec.ofNat w index) =
      if offset ≤ index then (bytes[index - offset]?).getD (memory (base + BitVec.ofNat w index))
      else memory (base + BitVec.ofNat w index) := by
  split
  · rename_i below
    rw [write, add_ofNat_sub_add_ofNat below bound]
  · rename_i above
    have wraps : 2 ^ w - (offset - index) ≥ bytes.length := by omega
    by_cases empty : bytes = []
    · subst bytes
      rfl
    · have positive := List.length_pos_iff.mpr empty
      rw [write, add_ofNat_sub_add_ofNat_of_lt (by omega) (by omega),
        List.getElem?_eq_none wraps, Option.getD_none]

theorem write_base_add (bound : index < 2 ^ w) :
    write memory base bytes (base + BitVec.ofNat w index) =
      (bytes[index]?).getD (memory (base + BitVec.ofNat w index)) := by
  rw [write, add_ofNat_sub bound]

theorem read_write (memory : Memory w) (base : BitVec w) (room : bytes.length ≤ 2 ^ w) :
    read (write memory base bytes) base bytes.length = bytes := by
  apply List.ext_getElem?
  intro index
  by_cases inside : index < bytes.length
  · rw [read_getElem? inside, write_base_add (by omega), List.getElem?_eq_getElem inside,
      Option.getD_some]
  · rw [List.getElem?_eq_none (by simp only [read_length]; omega),
      List.getElem?_eq_none (by omega)]

theorem read_write_of_length (memory : Memory w) (base : BitVec w)
    (length : bytes.length = count) (room : count ≤ 2 ^ w) :
    read (write memory base bytes) base count = bytes := by
  subst length
  exact read_write memory base room

theorem read_write_middle (memory : Memory w) (base : BitVec w) (front middle rest : List Byte)
    (room : (front ++ middle ++ rest).length ≤ 2 ^ w) :
    read (write memory base (front ++ middle ++ rest)) (base + BitVec.ofNat w front.length)
      middle.length = middle := by
  have whole := read_write memory base room
  rw [List.length_append, List.length_append, read_add, read_add] at whole
  have start := (List.append_inj whole (by simp)).1
  exact (List.append_inj start (by simp)).2

theorem write_read : write memory base (read memory base count) = memory := by
  funext address
  rw [write]
  by_cases inside : (address - base).toNat < count
  · rw [read_getElem? inside, Option.getD_some, ← eq_add_ofNat]
  · rw [List.getElem?_eq_none (by simp only [read_length]; omega), Option.getD_none]

theorem write_append (bytes : List Byte) (room : bytes.length + other.length ≤ 2 ^ w) :
    write (write memory base bytes) (base + BitVec.ofNat w bytes.length) other =
      write memory base (bytes ++ other) := by
  funext address
  obtain ⟨index, bound, rfl⟩ : ∃ index, index < 2 ^ w ∧ address = base + BitVec.ofNat w index :=
    ⟨_, (address - base).isLt, eq_add_ofNat base address⟩
  rw [write_add room bound, write_base_add bound, write_base_add bound]
  by_cases inFirst : index < bytes.length
  · rw [if_neg (by omega), List.getElem?_append_left inFirst]
  · rw [if_pos (by omega), List.getElem?_append_right (by omega),
      List.getElem?_eq_none (l := bytes) (by omega), Option.getD_none]

/-- A store of `overlay` keeps a window: where it reaches the window it has its bytes. -/
def Keeps (overlay : List Byte) (offset : Nat) (window : List Byte) : Prop :=
  ∀ index byte, index < window.length → overlay[offset + index]? = some byte →
    window[index]? = some byte

theorem Keeps.of_le {overlay window : List Byte} (before : overlay.length ≤ offset) :
    Keeps overlay offset window := by
  intro index byte _ found
  rw [List.getElem?_eq_none (by omega)] at found
  cases found

theorem read_write_keeps (base : BitVec w) (offset : Nat) (overlay : List Byte)
    {window : List Byte} (room : offset + window.length ≤ 2 ^ w)
    (stored : read memory (base + BitVec.ofNat w offset) window.length = window) :
    read (write memory base overlay) (base + BitVec.ofNat w offset) window.length = window ↔
      Keeps overlay offset window := by
  have position {memory : Memory w} {index : Nat} (inside : index < window.length) :
      (read memory (base + BitVec.ofNat w offset) window.length)[index]? =
        some (memory (base + BitVec.ofNat w (offset + index))) := by
    rw [read_getElem? inside, BitVec.add_assoc, ← BitVec.ofNat_add]
  have old (index : Nat) (inside : index < window.length) :
      window[index]? = some (memory (base + BitVec.ofNat w (offset + index))) := by
    conv_lhs => rw [← stored]
    exact position inside
  have new (index : Nat) (inside : index < window.length) :
      (read (write memory base overlay) (base + BitVec.ofNat w offset) window.length)[index]? =
        some ((overlay[offset + index]?).getD (memory (base + BitVec.ofNat w (offset + index)))) := by
    rw [position inside, write_base_add (by omega)]
  constructor
  · intro same index byte inside found
    have value := new index inside
    rwa [same, found, Option.getD_some] at value
  · intro keeps
    apply List.ext_getElem?
    intro index
    by_cases inside : index < window.length
    · rw [new index inside]
      cases found : overlay[offset + index]? with
      | none => rw [Option.getD_none, old index inside]
      | some byte => rw [Option.getD_some, keeps index byte inside found]
    · rw [List.getElem?_eq_none (by simp only [read_length]; omega),
        List.getElem?_eq_none (by omega)]

theorem fill_eq_write : fill memory base value count = write memory base (.replicate count value) := by
  funext address
  rw [fill, write, List.getElem?_replicate]
  split <;> rfl

def overwrite (bytes : List Byte) (start : Nat) (window : List Byte) : List Byte :=
  bytes.take start ++ window ++ bytes.drop (start + window.length)

theorem overwrite_length (inside : start + other.length ≤ bytes.length) :
    (overwrite bytes start other).length = bytes.length := by
  simp only [overwrite, List.length_append, List.length_take, List.length_drop]
  omega

theorem overwrite_getElem? (inside : start + other.length ≤ bytes.length) :
    (overwrite bytes start other)[index]? =
      if start ≤ index ∧ index < start + other.length then other[index - start]?
      else bytes[index]? := by
  have front : (bytes.take start).length = start := List.length_take_of_le (by omega)
  unfold overwrite
  by_cases before : index < start
  · rw [if_neg (by omega), List.append_assoc, List.getElem?_append_left (by omega),
      List.getElem?_take_of_lt before]
  · by_cases within : index < start + other.length
    · rw [if_pos (by omega), List.getElem?_append_left (by simp only [List.length_append]; omega),
        List.getElem?_append_right (by omega), front]
    · rw [if_neg (by omega),
        List.getElem?_append_right (by simp only [List.length_append]; omega),
        List.getElem?_drop]
      congr 1
      simp only [List.length_append]
      omega

theorem overwrite_eq_self :
    overwrite bytes start other = bytes ↔ (bytes.drop start).take other.length = other := by
  have front : bytes.take start ++ (bytes.drop start).take other.length ++
      bytes.drop (start + other.length) = bytes := by
    rw [List.append_assoc, ← List.drop_drop, List.take_append_drop, List.take_append_drop]
  unfold overwrite
  constructor
  · intro same
    have windows := List.append_cancel_right (same.trans front.symm)
    exact (List.append_cancel_left windows).symm
  · intro same
    conv_rhs => rw [← front, same]

theorem overwrite_overwrite {first second : List Byte} (inside : start + first.length ≤ bytes.length)
    (same : second.length = first.length) :
    overwrite (overwrite bytes start first) start second = overwrite bytes start second := by
  apply List.ext_getElem?
  intro index
  have length := overwrite_length inside
  rw [overwrite_getElem? (by omega), overwrite_getElem? inside, overwrite_getElem? (by omega), same]
  split <;> rfl

theorem write_overwrite (memory : Memory w) (base : BitVec w) (bytes : List Byte) (start : Nat)
    (other : List Byte) (inside : start + other.length ≤ bytes.length)
    (room : bytes.length ≤ 2 ^ w) :
    write (write memory base bytes) (base + BitVec.ofNat w start) other =
      write memory base (overwrite bytes start other) := by
  funext address
  obtain ⟨index, bound, rfl⟩ : ∃ index, index < 2 ^ w ∧ address = base + BitVec.ofNat w index :=
    ⟨_, (address - base).isLt, eq_add_ofNat base address⟩
  rw [write_add (by omega) bound, write_base_add bound, write_base_add bound,
    overwrite_getElem? inside]
  by_cases within : start ≤ index ∧ index < start + other.length
  · have present : index - start < other.length := by omega
    rw [if_pos within.1, if_pos within, List.getElem?_eq_getElem present, Option.getD_some,
      Option.getD_some]
  · rw [if_neg within]
    split
    · rw [List.getElem?_eq_none (l := other) (by omega), Option.getD_none]
    · rfl

end Memory

end Detours.Bytes

import Detours.Machine.Cpu
import Detours.Machine.Processor

namespace Detours.Machine

open Detours.Bytes Detours.Zydis

structure Core (Flags : Type) where
  registers : Fin 16 → BitVec 64
  others : Register → Nat
  flags : Flags

variable {Flags : Type} {left right : Cpu Flags} {region : Set (BitVec 64)} {place : Location}
  {places : List Location}

def Core.cpu (core : Core Flags) (memory : Memory 64) : Cpu Flags where
  registers := core.registers
  others := core.others
  flags := core.flags
  memory := memory

def Cpu.core (cpu : Cpu Flags) : Core Flags := ⟨cpu.registers, cpu.others, cpu.flags⟩

def Cpu.state (cpu : Cpu Flags) : State 64 (Core Flags) := ⟨cpu.core, cpu.memory⟩

/-- The states differ in memory only, and there nowhere in `region`. -/
structure Cpu.SameIn (region : Set (BitVec 64)) (left right : Cpu Flags) : Prop where
  core : right.core = left.core
  memory : ∀ address ∈ region, right.memory address = left.memory address

def operandBytes (places : List Location) : Set (BitVec 64) :=
  { address | ∃ base width, .memory base width ∈ places ∧ address ∈ span base (width / 8) }

def InRegion (region : Set (BitVec 64)) (place : Location) : Prop :=
  ∀ base width, place = .memory base width → span base (width / 8) ⊆ region

theorem Cpu.SameIn.read_eq (same : Cpu.SameIn region left right) (inside : InRegion region place) :
    right.read place = left.read place := by
  have registers : right.registers = left.registers := congrArg Core.registers same.core
  have others : right.others = left.others := congrArg Core.others same.core
  cases place with
  | register part => rw [Cpu.read, Cpu.read, registers]
  | other reg width => rw [Cpu.read, Cpu.read, others]
  | memory base width =>
      have bytes : right.memory.read base (width / 8) = left.memory.read base (width / 8) := by
        refine Memory.read_congr fun index below => same.memory _ (inside base width rfl ?_)
        rw [mem_span, BitVec.add_comm, BitVec.add_sub_cancel, BitVec.toNat_ofNat]
        exact Nat.lt_of_le_of_lt (Nat.mod_le _ _) below
      rw [Cpu.read, Cpu.read, bytes]
  | constant value => rfl

theorem Cpu.SameIn.store (same : Cpu.SameIn region left right) (result : Location × Option Nat) :
    Cpu.SameIn region (left.store result) (right.store result) := by
  have registers : right.registers = left.registers := congrArg Core.registers same.core
  have others : right.others = left.others := congrArg Core.others same.core
  have flags : right.flags = left.flags := congrArg Core.flags same.core
  obtain ⟨place, written⟩ := result
  cases written with
  | none => exact same
  | some value =>
      cases place with
      | register part =>
          refine ⟨?_, same.memory⟩
          simp only [Cpu.core, Cpu.store, Cpu.write, registers, others, flags]
      | other reg width =>
          refine ⟨?_, same.memory⟩
          simp only [Cpu.core, Cpu.store, Cpu.write, registers, others, flags]
      | memory base width =>
          refine ⟨same.core, fun address member => ?_⟩
          change Memory.write _ _ _ _ = Memory.write _ _ _ _
          rw [Memory.write, Memory.write, same.memory address member]
      | constant value => exact same

theorem Cpu.SameIn.foldl_store (same : Cpu.SameIn region left right)
    (results : List (Location × Option Nat)) :
    Cpu.SameIn region (results.foldl Cpu.store left) (results.foldl Cpu.store right) := by
  induction results generalizing left right with
  | nil => exact same
  | cons result rest ih => exact ih (same.store result)

theorem Cpu.SameIn.apply (same : Cpu.SameIn region left right)
    (inside : ∀ place ∈ places, InRegion region place) (operation : Operation Flags) :
    Cpu.SameIn region (left.apply operation places) (right.apply operation places) := by
  have values : places.map right.read = places.map left.read :=
    List.map_congr_left fun place member => same.read_eq (inside place member)
  have flags : right.flags = left.flags := congrArg Core.flags same.core
  unfold Cpu.apply
  rw [values, flags]
  have stored := same.foldl_store (places.zip
    (operation (places.map Location.width) (places.map left.read) left.flags).1)
  have core := stored.core
  refine ⟨?_, stored.memory⟩
  simp only [Cpu.core, Core.mk.injEq] at core ⊢
  exact ⟨core.1, core.2.1, trivial⟩

/-- The bytes of the memory operands that the operation can write. -/
def writtenBytes (operation : Operation Flags) (places : List Location) : Set (BitVec 64) :=
  { address | ∃ position base width, places[position]? = some (.memory base width) ∧
      (∃ widths values flags, (operation widths values flags).1.getD position none ≠ none) ∧
      address ∈ span base (width / 8) }

theorem writtenBytes_subset (operation : Operation Flags) (places : List Location) :
    writtenBytes operation places ⊆ operandBytes places := by
  rintro address ⟨position, base, width, found, _, inside⟩
  exact ⟨base, width, List.mem_of_getElem? found, inside⟩

theorem writtenBytes_eq_empty {operation : Operation Flags}
    (readOnly : ∀ position base width, places[position]? = some (.memory base width) →
      ∀ widths values flags, (operation widths values flags).1.getD position none = none) :
    writtenBytes operation places = ∅ := by
  rw [Set.eq_empty_iff_forall_notMem]
  rintro address ⟨position, base, width, found, ⟨widths, values, flags, written⟩, _⟩
  exact written (readOnly position base width found widths values flags)

theorem foldl_store_changesOnly {results : List (Location × Option Nat)}
    (inside : ∀ result ∈ results, result.2 ≠ none → InRegion region result.1) (cpu : Cpu Flags) :
    Memory.ChangesOnly region cpu.memory (results.foldl Cpu.store cpu).memory := by
  induction results generalizing cpu with
  | nil => exact .refl _ _
  | cons result rest ih =>
      rw [List.forall_mem_cons] at inside
      refine .trans ?_ (ih inside.2 (cpu.store result))
      obtain ⟨place, written⟩ := result
      cases written with
      | none => exact .refl _ _
      | some value =>
          cases place with
          | memory base width =>
              exact (Memory.write_changesOnly_of_length (littleEndian_length _ _)).mono
                (inside.1 (Option.some_ne_none value) base width rfl)
          | register | other | constant => exact .refl _ _

theorem apply_changesOnly (operation : Operation Flags) (places : List Location)
    (cpu : Cpu Flags) :
    Memory.ChangesOnly (writtenBytes operation places) cpu.memory
      (cpu.apply operation places).memory := by
  refine foldl_store_changesOnly (fun result member written => ?_) cpu
  rintro base width same address inside
  obtain ⟨position, found⟩ := List.mem_iff_getElem?.mp member
  rw [List.getElem?_zip_eq_some] at found
  refine ⟨position, base, width, found.1.trans (congrArg some same),
    ⟨places.map Location.width, places.map cpu.read, cpu.flags, ?_⟩, inside⟩
  rwa [List.getD_eq_getElem?_getD, found.2, Option.getD_some]

theorem Cpu.SameIn.push (sameCore : right.core = left.core) (value : BitVec 64) :
    Cpu.SameIn (span (left.registers stackPointer - 8) 8) (left.push value) (right.push value) ∧
      Memory.ChangesOnly (span (left.registers stackPointer - 8) 8) right.memory
        (right.push value).memory := by
  have registers : right.registers = left.registers := congrArg Core.registers sameCore
  have others : right.others = left.others := congrArg Core.others sameCore
  have flags : right.flags = left.flags := congrArg Core.flags sameCore
  have stored : (littleEndian 8 value.toNat).length = 8 := littleEndian_length _ _
  refine ⟨⟨?_, fun address inside => ?_⟩, ?_⟩
  · simp only [Cpu.core, Cpu.push, registers, others, flags]
  · rw [mem_span, ← stored] at inside
    simp only [Cpu.push, Memory.write, registers, List.getElem?_eq_getElem inside, Option.getD_some]
  · simp only [Cpu.push, registers]
    exact Memory.write_changesOnly_of_length stored

theorem Cpu.SameIn.pop (same : Cpu.SameIn region left right)
    (inside : span (left.registers stackPointer) 8 ⊆ region) (index : Fin 16) :
    Cpu.SameIn region (left.pop index) (right.pop index) := by
  have registers : right.registers = left.registers := congrArg Core.registers same.core
  have others : right.others = left.others := congrArg Core.others same.core
  have flags : right.flags = left.flags := congrArg Core.flags same.core
  have popped : right.memory.read (left.registers stackPointer) 8 =
      left.memory.read (left.registers stackPointer) 8 :=
    Memory.read_eq_of_agree (by decide) fun address member => same.memory address (inside member)
  refine ⟨?_, same.memory⟩
  simp only [Cpu.core, Cpu.pop, registers, others, flags, read64, popped]

theorem operandBytes_subset (inside : ∀ place ∈ places, InRegion region place) :
    operandBytes places ⊆ region := by
  rintro address ⟨base, width, member, covered⟩
  exact inside _ member base width rfl covered

theorem inRegion_operandBytes (member : place ∈ places) :
    InRegion (operandBytes places) place := by
  rintro base width rfl address inside
  exact ⟨base, width, member, inside⟩

end Detours.Machine

import Detours.Machine.Jump
import Detours.Zydis.Registers

namespace Detours.Machine

open Detours.Bytes Detours.Zydis

/-- `others` holds the registers that are no part of a general purpose register. -/
structure Cpu (Flags : Type) where
  registers : Fin 16 → BitVec 64
  others : Register → Nat
  flags : Flags
  memory : Memory 64

def stackPointer : Fin 16 := ⟨4, by decide⟩

/-- Where an operand is, with its width in bits, or the value of an immediate. -/
inductive Location where
  | register (part : Part)
  | other (reg : Register) (width : Nat)
  | memory (address : BitVec 64) (width : Nat)
  | constant (value : Nat)
deriving Repr, DecidableEq

def Location.width : Location → Option Nat
  | register part => some part.slice.width
  | other _ width | memory _ width => some width
  | constant _ => none

/-- A register after a write to one of its parts. Writing 32 bits clears the upper half. -/
def writeSlice (slice : Slice) (old : BitVec 64) (value : Nat) : BitVec 64 :=
  match slice with
  | .qword => BitVec.ofNat 64 value
  | .dword => BitVec.ofNat 64 (value % 2 ^ 32)
  | .word => BitVec.ofNat 64 (old.toNat / 2 ^ 16 * 2 ^ 16 + value % 2 ^ 16)
  | .highByte =>
      BitVec.ofNat 64 (old.toNat / 2 ^ 16 * 2 ^ 16 + value % 2 ^ 8 * 2 ^ 8 + old.toNat % 2 ^ 8)
  | .byte => BitVec.ofNat 64 (old.toNat / 2 ^ 8 * 2 ^ 8 + value % 2 ^ 8)

/-- What an instruction computes from the widths and the values of its operands and the
flags: the operands it writes, with their new values, and the new flags. -/
abbrev Operation (Flags : Type) :=
  List (Option Nat) → List Nat → Flags → List (Option Nat) × Flags

namespace Cpu

variable {Flags : Type}

def read (cpu : Cpu Flags) : Location → Nat
  | .register part =>
      (cpu.registers part.index).toNat / 2 ^ part.slice.offset % 2 ^ part.slice.width
  | .other reg _ => cpu.others reg
  | .memory address width => ofLittleEndian (cpu.memory.read address (width / 8))
  | .constant value => value

def write (cpu : Cpu Flags) (location : Location) (value : Nat) : Cpu Flags :=
  match location with
  | .register part =>
      { cpu with
        registers := Function.update cpu.registers part.index
          (writeSlice part.slice (cpu.registers part.index) value) }
  | .other reg _ => { cpu with others := Function.update cpu.others reg value }
  | .memory address width =>
      { cpu with memory := cpu.memory.write address (littleEndian (width / 8) value) }
  | .constant _ => cpu

def store (cpu : Cpu Flags) (result : Location × Option Nat) : Cpu Flags :=
  match result.2 with
  | none => cpu
  | some value => cpu.write result.1 value

/-- The operands are read together and written in order. -/
def apply (cpu : Cpu Flags) (operation : Operation Flags) (places : List Location) : Cpu Flags :=
  let (results, flags) :=
    operation (places.map Location.width) (places.map cpu.read) cpu.flags
  { (places.zip results).foldl store cpu with flags }

def push (cpu : Cpu Flags) (value : BitVec 64) : Cpu Flags :=
  { cpu with
    registers := Function.update cpu.registers stackPointer (cpu.registers stackPointer - 8)
    memory := cpu.memory.write (cpu.registers stackPointer - 8) (littleEndian 8 value.toNat) }

def pop (cpu : Cpu Flags) (index : Fin 16) : Cpu Flags :=
  { cpu with
    registers := Function.update
      (Function.update cpu.registers stackPointer (cpu.registers stackPointer + 8)) index
      (read64 cpu.memory (cpu.registers stackPointer)) }

end Cpu

/-- The place is neither memory nor part of the scratch register or the stack pointer. -/
def Location.Avoids (scratch : Fin 16) : Location → Prop
  | .register part => part.index ≠ scratch ∧ part.index ≠ stackPointer
  | .memory _ _ => False
  | _ => True

/-- An operand before and after a part of the scratch register has taken the place of memory. -/
inductive Substituted (scratch : Fin 16) : Location → Location → Prop where
  | same {place : Location} (apart : place.Avoids scratch) : Substituted scratch place place
  | memory {address : BitVec 64} {width : Nat} {slice : Slice} :
      Substituted scratch (.memory address width) (.register ⟨scratch, slice⟩)

/-- The states differ in the scratch register, the stack pointer and memory only. -/
structure Agree {Flags : Type} (scratch : Fin 16) (left right : Cpu Flags) : Prop where
  registers : ∀ index, index ≠ scratch → index ≠ stackPointer →
    right.registers index = left.registers index
  others : right.others = left.others
  flags : right.flags = left.flags

namespace Cpu

variable {Flags : Type} {scratch : Fin 16} {left right cpu : Cpu Flags} {place other : Location}
  {places others : List Location} {results : List (Option Nat)} {result : Option Nat}
  {operation : Operation Flags}

@[simp] theorem write_register_registers (cpu : Cpu Flags) (part : Part) (value : Nat) :
    (cpu.write (.register part) value).registers =
      Function.update cpu.registers part.index
        (writeSlice part.slice (cpu.registers part.index) value) := rfl

theorem read_qword (cpu : Cpu Flags) (index : Fin 16) :
    cpu.read (.register ⟨index, .qword⟩) = (cpu.registers index).toNat := by
  change (cpu.registers index).toNat / 2 ^ 0 % 2 ^ 64 = _
  rw [Nat.pow_zero, Nat.div_one, Nat.mod_eq_of_lt (cpu.registers index).isLt]

theorem store_frame_left (left : Cpu Flags) (result : Option Nat)
    (substituted : Substituted scratch place other) :
    (left.store (place, result)).registers scratch = left.registers scratch ∧
      (left.store (place, result)).registers stackPointer = left.registers stackPointer := by
  cases result with
  | none => exact ⟨rfl, rfl⟩
  | some value =>
      cases substituted with
      | memory => exact ⟨rfl, rfl⟩
      | same apart =>
          cases place with
          | register part =>
              obtain ⟨scratchApart, stackApart⟩ := apart
              exact ⟨Function.update_of_ne scratchApart.symm _ _,
                Function.update_of_ne stackApart.symm _ _⟩
          | other reg width => exact ⟨rfl, rfl⟩
          | memory address width => exact apart.elim
          | constant value => exact ⟨rfl, rfl⟩

theorem store_frame_right (right : Cpu Flags) (result : Option Nat)
    (different : scratch ≠ stackPointer) (substituted : Substituted scratch place other) :
    (right.store (other, result)).registers stackPointer = right.registers stackPointer ∧
      (right.store (other, result)).memory = right.memory := by
  cases result with
  | none => exact ⟨rfl, rfl⟩
  | some value =>
      cases substituted with
      | memory => exact ⟨Function.update_of_ne different.symm _ _, rfl⟩
      | same apart =>
          cases place with
          | register part => exact ⟨Function.update_of_ne apart.2.symm _ _, rfl⟩
          | other reg width => exact ⟨rfl, rfl⟩
          | memory address width => exact apart.elim
          | constant value => exact ⟨rfl, rfl⟩

end Cpu

section Agree

variable {Flags : Type} {scratch : Fin 16} {left right cpu : Cpu Flags} {place other : Location}
  {places others : List Location} {result : Option Nat}

theorem Agree.read_eq (agree : Agree scratch left right) (apart : place.Avoids scratch) :
    right.read place = left.read place := by
  cases place with
  | register part =>
      rw [Cpu.read, Cpu.read, agree.registers part.index apart.1 apart.2]
  | other reg width => rw [Cpu.read, Cpu.read, agree.others]
  | memory address width => exact apart.elim
  | constant value => rfl

theorem Agree.write_same (agree : Agree scratch left right) (apart : place.Avoids scratch)
    (value : Nat) : Agree scratch (left.write place value) (right.write place value) := by
  cases place with
  | register part =>
      refine ⟨fun index scratchApart stackApart => ?_, agree.others, agree.flags⟩
      rw [Cpu.write_register_registers, Cpu.write_register_registers]
      by_cases written : index = part.index
      · subst written
        rw [Function.update_self, Function.update_self, agree.registers _ apart.1 apart.2]
      · rw [Function.update_of_ne written, Function.update_of_ne written,
          agree.registers index scratchApart stackApart]
  | other reg width =>
      refine ⟨agree.registers, ?_, agree.flags⟩
      change Function.update right.others reg value = Function.update left.others reg value
      rw [agree.others]
  | memory address width => exact apart.elim
  | constant value => exact agree

theorem Agree.store (agree : Agree scratch left right)
    (substituted : Substituted scratch place other) (result : Option Nat) :
    Agree scratch (left.store (place, result)) (right.store (other, result)) := by
  cases result with
  | none => exact agree
  | some value =>
      cases substituted with
      | same apart => exact agree.write_same apart value
      | memory =>
          refine ⟨fun index scratchApart stackApart => ?_, agree.others, agree.flags⟩
          change Function.update right.registers scratch _ index = left.registers index
          rw [Function.update_of_ne scratchApart, agree.registers index scratchApart stackApart]

theorem Agree.foldl_store (agree : Agree scratch left right)
    (substituted : List.Forall₂ (Substituted scratch) places others) (results : List (Option Nat)) :
    Agree scratch ((places.zip results).foldl Cpu.store left)
      ((others.zip results).foldl Cpu.store right) := by
  induction substituted generalizing left right results with
  | nil => exact agree
  | cons first _ ih =>
      cases results with
      | nil => exact agree
      | cons result results => exact ih (agree.store first result) results

theorem foldl_store_frame_left (substituted : List.Forall₂ (Substituted scratch) places others)
    (results : List (Option Nat)) :
    ((places.zip results).foldl Cpu.store left).registers scratch = left.registers scratch ∧
      ((places.zip results).foldl Cpu.store left).registers stackPointer =
        left.registers stackPointer := by
  induction substituted generalizing left results with
  | nil => exact ⟨rfl, rfl⟩
  | cons first _ ih =>
      cases results with
      | nil => exact ⟨rfl, rfl⟩
      | cons result results =>
          obtain ⟨scratchKept, stackKept⟩ := left.store_frame_left result first
          exact ⟨(ih results).1.trans scratchKept, (ih results).2.trans stackKept⟩

theorem foldl_store_frame_right (different : scratch ≠ stackPointer)
    (substituted : List.Forall₂ (Substituted scratch) places others)
    (results : List (Option Nat)) :
    ((others.zip results).foldl Cpu.store right).registers stackPointer =
        right.registers stackPointer ∧
      ((others.zip results).foldl Cpu.store right).memory = right.memory := by
  induction substituted generalizing right results with
  | nil => exact ⟨rfl, rfl⟩
  | cons first _ ih =>
      cases results with
      | nil => exact ⟨rfl, rfl⟩
      | cons result results =>
          obtain ⟨stackKept, memoryKept⟩ := right.store_frame_right result different first
          exact ⟨(ih results).1.trans stackKept, (ih results).2.trans memoryKept⟩

/-- Operands with the same widths and values make two states that agree go on to agree. -/
theorem Agree.apply (agree : Agree scratch left right)
    (substituted : List.Forall₂ (Substituted scratch) places others)
    (widths : others.map Location.width = places.map Location.width)
    (values : others.map right.read = places.map left.read) (operation : Operation Flags) :
    Agree scratch (left.apply operation places) (right.apply operation others) := by
  unfold Cpu.apply
  rw [widths, values, agree.flags]
  have stored := agree.foldl_store substituted
    (operation (places.map Location.width) (places.map left.read) left.flags).1
  exact ⟨stored.registers, stored.others, rfl⟩

end Agree

def Cpu.result {Flags : Type} (cpu : Cpu Flags) (operation : Operation Flags)
    (places : List Location) (index : Nat) : Option Nat :=
  (operation (places.map Location.width) (places.map cpu.read) cpu.flags).1.getD index none

section Memory

variable {Flags : Type} {cpu : Cpu Flags} {places : List Location} {address : BitVec 64}
  {width index : Nat}

def Location.IsMemory : Location → Prop
  | .memory _ _ => True
  | _ => False

theorem Cpu.store_memory (cpu : Cpu Flags) {place : Location} (result : Option Nat)
    (outside : ¬place.IsMemory) : (cpu.store (place, result)).memory = cpu.memory := by
  cases result with
  | none => rfl
  | some value =>
      cases place with
      | memory address width => exact absurd trivial outside
      | _ => rfl

theorem Cpu.store_memory_congr {left right : Cpu Flags} {result : Option Nat}
    (same : left.memory = right.memory) :
    (left.store (.memory address width, result)).memory =
      (right.store (.memory address width, result)).memory := by
  cases result with
  | none => exact same
  | some value => exact congrArg (Memory.write · address _) same

theorem foldl_store_memory (outside : ∀ place ∈ places, ¬place.IsMemory)
    (results : List (Option Nat)) :
    ((places.zip results).foldl Cpu.store cpu).memory = cpu.memory := by
  induction places generalizing cpu results with
  | nil => rfl
  | cons place rest ih =>
      cases results with
      | nil => rfl
      | cons result results =>
          rw [List.zip_cons_cons, List.foldl_cons,
            ih (fun other member => outside other (List.mem_cons_of_mem _ member)),
            Cpu.store_memory _ _ (outside place List.mem_cons_self)]

theorem foldl_store_memory_at (here : places[index]? = some (.memory address width))
    (only : ∀ other place, places[other]? = some place → other ≠ index → ¬place.IsMemory)
    (results : List (Option Nat)) :
    ((places.zip results).foldl Cpu.store cpu).memory =
      (cpu.store (.memory address width, results.getD index none)).memory := by
  induction places generalizing cpu results index with
  | nil => cases here
  | cons place rest ih =>
      cases results with
      | nil => rfl
      | cons result results =>
          rw [List.zip_cons_cons, List.foldl_cons]
          cases index with
          | zero =>
              obtain rfl : place = .memory address width := Option.some.inj here
              exact foldl_store_memory (fun other member => by
                obtain ⟨position, found⟩ := List.mem_iff_getElem?.mp member
                exact only (position + 1) other found (Nat.succ_ne_zero _)) results
          | succ index =>
              rw [ih here (fun other place found different =>
                only (other + 1) place found (by omega))]
              exact Cpu.store_memory_congr (cpu.store_memory result (only 0 place rfl (by omega)))

theorem Cpu.apply_memory (operation : Operation Flags)
    (here : places[index]? = some (.memory address width))
    (only : ∀ other place, places[other]? = some place → other ≠ index → ¬place.IsMemory) :
    (cpu.apply operation places).memory =
      (cpu.store (.memory address width, cpu.result operation places index)).memory :=
  foldl_store_memory_at here only _

end Memory

def Cpu.leaves {Flags : Type} (cpu : Cpu Flags) (address : BitVec 64) (width : Nat) :
    Option Nat → List Byte
  | none => cpu.memory.read address (width / 8)
  | some value => littleEndian (width / 8) value

theorem Cpu.store_read {Flags : Type} (cpu : Cpu Flags) (address : BitVec 64) {width : Nat}
    (small : width / 8 ≤ 2 ^ 64) (result : Option Nat) :
    (cpu.store (.memory address width, result)).memory.read address (width / 8) =
      cpu.leaves address width result := by
  cases result with
  | none => rfl
  | some value => exact Memory.read_write_of_length _ _ (littleEndian_length _ _) small

section Surrounded

variable {Flags : Type} {scratch : Fin 16} {cpu : Cpu Flags} {places others : List Location}

/-- The state in which the operation of a rewritten instruction runs: the scratch register
is saved on the stack and holds `value`. -/
def Cpu.prepared (cpu : Cpu Flags) (scratch : Fin 16) (value : Nat) : Cpu Flags :=
  (cpu.push (cpu.registers scratch)).write (.register ⟨scratch, .qword⟩) value

/-- What `PUSH`, a load from `target` and an operation make of a state. -/
def Cpu.substituted (cpu : Cpu Flags) (scratch : Fin 16) (target : BitVec 64)
    (operation : Operation Flags) (others : List Location) : Cpu Flags :=
  let loaded := ofLittleEndian ((cpu.push (cpu.registers scratch)).memory.read target 8)
  (cpu.prepared scratch loaded).apply operation others

/-- And with `POP` behind them. -/
def Cpu.surrounded (cpu : Cpu Flags) (scratch : Fin 16) (target : BitVec 64)
    (operation : Operation Flags) (others : List Location) : Cpu Flags :=
  (cpu.substituted scratch target operation others).pop scratch

theorem prepared_registers (different : scratch ≠ stackPointer) (value : Nat) :
    (cpu.prepared scratch value).registers stackPointer = cpu.registers stackPointer - 8 := by
  change Function.update (Function.update cpu.registers stackPointer _) scratch _ stackPointer = _
  rw [Function.update_of_ne different.symm]
  exact Function.update_self _ _ _

theorem agree_prepared (cpu : Cpu Flags) (scratch : Fin 16) (value : Nat) :
    Agree scratch cpu (cpu.prepared scratch value) := by
  refine ⟨fun index scratchApart stackApart => ?_, rfl, rfl⟩
  change Function.update (Function.update cpu.registers stackPointer _) scratch _ index = _
  rw [Function.update_of_ne scratchApart, Function.update_of_ne stackApart]

theorem Cpu.pop_registers_iff (different : scratch ≠ stackPointer)
    (registers : Fin 16 → BitVec 64) :
    (cpu.pop scratch).registers = registers ↔
      (∀ index, index ≠ scratch → index ≠ stackPointer →
        cpu.registers index = registers index) ∧
      cpu.registers stackPointer + 8 = registers stackPointer ∧
      read64 cpu.memory (cpu.registers stackPointer) = registers scratch := by
  have popped (index : Fin 16) : (cpu.pop scratch).registers index =
      Function.update (Function.update cpu.registers stackPointer
        (cpu.registers stackPointer + 8)) scratch
        (read64 cpu.memory (cpu.registers stackPointer)) index := rfl
  constructor
  · intro same
    rw [← same]
    refine ⟨fun index scratchApart stackApart => ?_, ?_, ?_⟩
    · rw [popped, Function.update_of_ne scratchApart, Function.update_of_ne stackApart]
    · rw [popped, Function.update_of_ne different.symm, Function.update_self]
    · rw [popped, Function.update_self]
  · intro parts
    obtain ⟨others, stack, saved⟩ := parts
    funext index
    rw [popped]
    by_cases isScratch : index = scratch
    · rw [isScratch, Function.update_self, saved]
    · rw [Function.update_of_ne isScratch]
      by_cases isStack : index = stackPointer
      · rw [isStack, Function.update_self, stack]
      · rw [Function.update_of_ne isStack, others index isScratch isStack]

/-- `POP` undoes `PUSH` and the load around an operation that leaves the stack alone. -/
theorem pop_apply_prepared (different : scratch ≠ stackPointer)
    (substituted : List.Forall₂ (Substituted scratch) places others) {value : Nat}
    (widths : others.map Location.width = places.map Location.width)
    (values : others.map (cpu.prepared scratch value).read = places.map cpu.read)
    (operation : Operation Flags) :
    let after := ((cpu.prepared scratch value).apply operation others).pop scratch
    after.registers = (cpu.apply operation places).registers ∧
      after.others = (cpu.apply operation places).others ∧
      after.flags = (cpu.apply operation places).flags ∧
      after.memory = (cpu.push (cpu.registers scratch)).memory := by
  intro after
  have agree := (agree_prepared cpu scratch value).apply substituted widths values operation
  obtain ⟨scratchKept, stackKept⟩ :
      (cpu.apply operation places).registers scratch = cpu.registers scratch ∧
        (cpu.apply operation places).registers stackPointer = cpu.registers stackPointer :=
    foldl_store_frame_left substituted _
  obtain ⟨stack, memory⟩ :
      ((cpu.prepared scratch value).apply operation others).registers stackPointer =
          (cpu.prepared scratch value).registers stackPointer ∧
        ((cpu.prepared scratch value).apply operation others).memory =
          (cpu.push (cpu.registers scratch)).memory :=
    foldl_store_frame_right different substituted _
  rw [prepared_registers different] at stack
  refine ⟨?_, agree.others, agree.flags, memory⟩
  have saved : read64 ((cpu.prepared scratch value).apply operation others).memory
      (cpu.registers stackPointer - 8) = cpu.registers scratch := by
    rw [memory]
    apply read64_eq
    exact Memory.read_write_of_length _ _ (littleEndian_length _ _) (by decide)
  refine (Cpu.pop_registers_iff different _).mpr ⟨agree.registers, ?_, ?_⟩
  · rw [stack, sub_add_cancel, stackKept]
  · rw [stack, saved, scratchKept]

theorem read_prepared {slice : Slice} (low : slice.offset = 0) (cpu : Cpu Flags)
    (memory : Memory 64) (address : BitVec 64) :
    (cpu.prepared scratch (ofLittleEndian (memory.read address 8))).read
        (.register ⟨scratch, slice⟩) =
      ofLittleEndian (memory.read address (slice.width / 8)) := by
  have loaded (value : Nat) :
      (cpu.prepared scratch value).registers scratch = BitVec.ofNat 64 value :=
    Function.update_self _ _ _
  have bound := ofLittleEndian_lt (memory.read address 8)
  rw [Memory.read_length] at bound
  rw [Cpu.read, loaded, low, Nat.pow_zero, Nat.div_one, BitVec.toNat_ofNat,
    Nat.mod_eq_of_lt (Nat.lt_of_lt_of_eq bound (by decide))]
  have bytes : 2 ^ slice.width = 256 ^ (slice.width / 8) := by cases slice <;> rfl
  have longer : 8 = slice.width / 8 + (8 - slice.width / 8) := by cases slice <;> rfl
  have window := ofLittleEndian_append_mod (memory.read address (slice.width / 8))
    (memory.read (address + BitVec.ofNat 64 (slice.width / 8)) (8 - slice.width / 8))
  rw [Memory.read_length, ← Memory.read_add, ← longer] at window
  rw [bytes, window]

end Surrounded

end Detours.Machine

import Detours.Bytes.Memory
import Detours.Decoding.Block
import Mathlib.Logic.Relation

namespace Detours.Machine

open Detours.Bytes Detours.Decoding

/-! Processors that run code out of memory. What an instruction computes is a parameter; all
that is known of it is what it reads and what it writes. -/

/-- `core` is all of the state that is not memory: registers and flags. -/
structure State (w : Nat) (σ : Type) where
  core : σ
  memory : Memory w

/-- Two states that differ in hidden bytes only. -/
structure State.Agree {w : Nat} {σ : Type} (hidden : Set (BitVec w)) (left right : State w σ) :
    Prop where
  core : right.core = left.core
  memory : Memory.ChangesOnly hidden left.memory right.memory

/-- An instruction set over a decoder. `effect` is what an item does when the code goes on at
`next`; it is `none` for an item that faults or goes elsewhere. The instructions that go
elsewhere are those that `jump` knows. -/
structure Processor (w : Nat) (σ : Type) {ι : Type} (decoder : Decoder Byte ι) where
  window : Nat
  jump : Memory w → BitVec w → Option (BitVec w)
  effect : ι → BitVec w → State w σ → Option (State w σ)
  reads : ι → BitVec w → σ → Set (BitVec w)
  writes : ι → BitVec w → σ → Set (BitVec w)
  fits : ∀ chunk : Chunk decoder, chunk.bytes.length ≤ window
  /-- The result depends on the core and on the bytes that are read. -/
  framed : ∀ {item next before after other}, effect item next before = some after →
    other.core = before.core →
    (∀ address ∈ reads item next before.core, other.memory address = before.memory address) →
    ∃ result, effect item next other = some result ∧ result.core = after.core ∧
      (∀ address ∈ writes item next before.core,
        result.memory address = after.memory address) ∧
      Memory.ChangesOnly (writes item next before.core) other.memory result.memory
  /-- Where the code goes on, nothing jumps. -/
  straight : ∀ {chunk : Chunk decoder} {next before after},
    effect chunk.item next before = some after →
    ∀ {memory address}, memory.read address chunk.bytes.length = chunk.bytes →
      jump memory address = none

variable {w : Nat} {σ ι : Type} {decoder : Decoder Byte ι} {processor : Processor w σ decoder}
  {address next other : BitVec w} {chunk : Chunk decoder} {chunks rest : List (Chunk decoder)}
  {before middle after state : State w σ} {hidden code : Set (BitVec w)} {item : ι}

namespace State.Agree

theorem refl (hidden : Set (BitVec w)) (state : State w σ) : Agree hidden state state :=
  ⟨rfl, .refl _ _⟩

theorem trans (first : Agree hidden before middle) (second : Agree hidden middle after) :
    Agree hidden before after :=
  ⟨second.core.trans first.core, first.memory.trans second.memory⟩

theorem mono {larger : Set (BitVec w)} (subset : hidden ⊆ larger)
    (agree : Agree hidden before after) : Agree larger before after :=
  ⟨agree.core, agree.memory.mono subset⟩

end State.Agree

namespace Processor

/-- One step. The jumps come first: they are recognised by their bytes. -/
def step (processor : Processor w σ decoder) (current : BitVec w × State w σ) :
    Option (BitVec w × State w σ) :=
  match processor.jump current.2.memory current.1 with
  | some target => some (target, current.2)
  | none =>
      match decoder.decode (current.2.memory.read current.1 processor.window) with
      | none => none
      | some item =>
          let next := current.1 + BitVec.ofNat w (decoder.length item)
          (processor.effect item next current.2).map fun after => (next, after)

def Runs (processor : Processor w σ decoder) :
    BitVec w × State w σ → BitVec w × State w σ → Prop :=
  Relation.ReflTransGen fun current following => processor.step current = some following

theorem Runs.trans {first second third : BitVec w × State w σ}
    (front : processor.Runs first second) (back : processor.Runs second third) :
    processor.Runs first third :=
  Relation.ReflTransGen.trans front back

theorem step_jump {target : BitVec w} (taken : processor.jump state.memory address = some target) :
    processor.step (address, state) = some (target, state) := by
  rw [step, taken]

theorem step_execute (selfDelimiting : decoder.SelfDelimiting)
    (loaded : before.memory.read address chunk.bytes.length = chunk.bytes)
    (executed : processor.effect chunk.item (address + BitVec.ofNat w chunk.bytes.length) before =
      some after) :
    processor.step (address, before) =
      some (address + BitVec.ofNat w chunk.bytes.length, after) := by
  obtain ⟨behind, window⟩ := Nat.exists_eq_add_of_le (processor.fits chunk)
  have found : decoder.decode (before.memory.read address processor.window) = some chunk.item := by
    rw [window, Memory.read_add, loaded]
    exact chunk.decode_append selfDelimiting _
  rw [step, processor.straight executed loaded]
  dsimp only
  rw [found]
  dsimp only
  rw [← chunk.exact, executed, Option.map_some]

theorem Runs.jump {target : BitVec w} (taken : processor.jump state.memory address = some target) :
    processor.Runs (address, state) (target, state) :=
  Relation.ReflTransGen.single (step_jump taken)

theorem Runs.execute (selfDelimiting : decoder.SelfDelimiting)
    (loaded : before.memory.read address chunk.bytes.length = chunk.bytes)
    (executed : processor.effect chunk.item (address + BitVec.ofNat w chunk.bytes.length) before =
      some after) :
    processor.Runs (address, before) (address + BitVec.ofNat w chunk.bytes.length, after) :=
  Relation.ReflTransGen.single (step_execute selfDelimiting loaded executed)

theorem changesOnly_writes (executed : processor.effect item next before = some after) :
    Memory.ChangesOnly (processor.writes item next before.core) before.memory after.memory := by
  obtain ⟨result, same, _, _, changes⟩ :=
    processor.framed executed (rfl : before.core = before.core) fun _ _ => rfl
  rw [executed, Option.some.injEq] at same
  rwa [same]

/-- An instruction that reads no hidden byte does the same whatever these bytes are, and what
it writes is not hidden any more. -/
theorem effect_agree (executed : processor.effect item next before = some after)
    (agree : before.Agree hidden state)
    (unread : Disjoint (processor.reads item next before.core) hidden) :
    ∃ result, processor.effect item next state = some result ∧
      after.Agree (hidden \ processor.writes item next before.core) result := by
  obtain ⟨result, same, core, written, changes⟩ := processor.framed executed agree.core
    fun address read => agree.memory address (Set.disjoint_left.mp unread read)
  refine ⟨result, same, core, fun address visible => ?_⟩
  by_cases stored : address ∈ processor.writes item next before.core
  · exact written address stored
  · rw [changes address stored, agree.memory address fun inside => visible ⟨inside, stored⟩,
      changesOnly_writes executed address stored]

end Processor

/-- The items run one after the other from `address` and write nothing over `code`. -/
inductive Passes (processor : Processor w σ decoder) (code : Set (BitVec w)) :
    BitVec w → List (Chunk decoder) → State w σ → State w σ → Prop where
  | nil (address : BitVec w) (state : State w σ) : Passes processor code address [] state state
  | cons {address : BitVec w} {chunk : Chunk decoder} {rest : List (Chunk decoder)}
      {before middle after : State w σ}
      (executed : processor.effect chunk.item (address + BitVec.ofNat w chunk.bytes.length)
        before = some middle)
      (unwritten : Disjoint (processor.writes chunk.item
        (address + BitVec.ofNat w chunk.bytes.length) before.core) code)
      (following : Passes processor code (address + BitVec.ofNat w chunk.bytes.length) rest
        middle after) :
      Passes processor code address (chunk :: rest) before after

namespace Passes

theorem runs (selfDelimiting : decoder.SelfDelimiting)
    (passes : Passes processor code address chunks before after)
    (loaded : before.memory.read address (blockBytes chunks).length = blockBytes chunks)
    (inside : span address (blockBytes chunks).length ⊆ code)
    (room : (blockBytes chunks).length ≤ 2 ^ w) :
    processor.Runs (address, before)
      (address + BitVec.ofNat w (blockBytes chunks).length, after) := by
  induction passes with
  | nil address state =>
      rw [blockBytes_nil, List.length_nil, BitVec.add_zero]
      exact Relation.ReflTransGen.refl
  | @cons address chunk rest before middle after executed unwritten following ih =>
      rw [blockBytes_cons, List.length_append] at loaded inside room
      have behind : span (address + BitVec.ofNat w chunk.bytes.length) (blockBytes rest).length ⊆
          code := (span_add_subset _ (Nat.le_refl _) room).trans inside
      rw [Memory.read_add] at loaded
      obtain ⟨own, others⟩ := List.append_inj loaded Memory.read_length
      have kept : middle.memory.read (address + BitVec.ofNat w chunk.bytes.length)
          (blockBytes rest).length = blockBytes rest := by
        rw [(Processor.changesOnly_writes executed).read_eq (by omega)
          (unwritten.mono_right behind).symm, others]
      have goesOn := ih kept behind (by omega)
      rw [BitVec.add_assoc, ← BitVec.ofNat_add] at goesOn
      rw [blockBytes_cons, List.length_append]
      exact (Processor.Runs.execute selfDelimiting own executed).trans goesOn

theorem changesOnly (passes : Passes processor code address chunks before after) :
    Memory.ChangesOnly codeᶜ before.memory after.memory := by
  induction passes with
  | nil => exact .refl _ _
  | cons executed unwritten following ih =>
      refine .trans ((Processor.changesOnly_writes executed).mono ?_) ih
      exact fun address written => Set.disjoint_left.mp unwritten written

theorem append {front : List (Chunk decoder)}
    (first : Passes processor code address front before middle)
    (second : Passes processor code (address + BitVec.ofNat w (blockBytes front).length) rest
      middle after) :
    Passes processor code address (front ++ rest) before after := by
  induction first with
  | nil address state =>
      rwa [blockBytes_nil, List.length_nil, BitVec.add_zero] at second
  | cons executed unwritten following ih =>
      refine .cons executed unwritten (ih ?_)
      rwa [BitVec.add_assoc, ← BitVec.ofNat_add, ← List.length_append]

end Passes

/-- A run that does not read what is hidden. Each item may come with rubbish, bytes in which a
replacement of the item may leave anything: they are hidden until they are written. The last
set is what is still hidden at the end. -/
inductive Unaware (processor : Processor w σ decoder) (rubbish : Chunk decoder → σ → Set (BitVec w))
    (code : Set (BitVec w)) : Set (BitVec w) → BitVec w → List (Chunk decoder) → State w σ →
      Set (BitVec w) → State w σ → Prop where
  | nil (hidden : Set (BitVec w)) (address : BitVec w) (state : State w σ) :
      Unaware processor rubbish code hidden address [] state hidden state
  | cons {hidden hiddenAfter : Set (BitVec w)} {address : BitVec w} {chunk : Chunk decoder}
      {rest : List (Chunk decoder)} {before middle after : State w σ}
      (executed : processor.effect chunk.item (address + BitVec.ofNat w chunk.bytes.length)
        before = some middle)
      (unwritten : Disjoint (processor.writes chunk.item
        (address + BitVec.ofNat w chunk.bytes.length) before.core) code)
      (unread : Disjoint (processor.reads chunk.item
        (address + BitVec.ofNat w chunk.bytes.length) before.core)
        (hidden ∪ rubbish chunk before.core))
      (apart : Disjoint (rubbish chunk before.core) code)
      (following : Unaware processor rubbish code
        (hidden \ processor.writes chunk.item (address + BitVec.ofNat w chunk.bytes.length)
          before.core ∪ rubbish chunk before.core)
        (address + BitVec.ofNat w chunk.bytes.length) rest middle hiddenAfter after) :
      Unaware processor rubbish code hidden address (chunk :: rest) before hiddenAfter after

/-- Code that can take the place of an item: it does the same but for the rubbish. -/
def Replaces (processor : Processor w σ decoder) (rubbish : Chunk decoder → σ → Set (BitVec w))
    (code : Set (BitVec w)) (address other : BitVec w) (chunk : Chunk decoder)
    (copy : List (Chunk decoder)) : Prop :=
  ∀ before after : State w σ,
    processor.effect chunk.item (address + BitVec.ofNat w chunk.bytes.length) before = some after →
    Disjoint (processor.writes chunk.item (address + BitVec.ofNat w chunk.bytes.length)
      before.core) code →
    Disjoint (processor.reads chunk.item (address + BitVec.ofNat w chunk.bytes.length)
      before.core) (rubbish chunk before.core) →
    Disjoint (rubbish chunk before.core) code →
    ∃ result, Passes processor code other copy before result ∧
      after.Agree (rubbish chunk before.core) result

/-- A block of items whose replacements stand one behind the other. -/
inductive Replaced (processor : Processor w σ decoder)
    (rubbish : Chunk decoder → σ → Set (BitVec w)) (code : Set (BitVec w)) :
    BitVec w → BitVec w → List (Chunk decoder) → List (Chunk decoder) → Prop where
  | nil (address other : BitVec w) : Replaced processor rubbish code address other [] []
  | cons {address other : BitVec w} {chunk : Chunk decoder}
      {copy chunks copies : List (Chunk decoder)}
      (first : Replaces processor rubbish code address other chunk copy)
      (rest : Replaced processor rubbish code (address + BitVec.ofNat w chunk.bytes.length)
        (other + BitVec.ofNat w (blockBytes copy).length) chunks copies) :
      Replaced processor rubbish code address other (chunk :: chunks) (copy ++ copies)

section Replaced

variable {rubbish : Chunk decoder → σ → Set (BitVec w)} {copies : List (Chunk decoder)}
  {hiddenAfter : Set (BitVec w)}

theorem Unaware.passes
    (unaware : Unaware processor rubbish code hidden address chunks before hiddenAfter after) :
    Passes processor code address chunks before after := by
  induction unaware with
  | nil hidden address state => exact .nil address state
  | cons executed unwritten unread apart following ih => exact .cons executed unwritten ih

theorem Unaware.quiet
    (executed : processor.effect chunk.item (address + BitVec.ofNat w chunk.bytes.length) before =
      some middle)
    (reads : processor.reads chunk.item (address + BitVec.ofNat w chunk.bytes.length)
      before.core = ∅)
    (writes : processor.writes chunk.item (address + BitVec.ofNat w chunk.bytes.length)
      before.core = ∅)
    (none : rubbish chunk before.core = ∅)
    (following : Unaware processor rubbish code hidden
      (address + BitVec.ofNat w chunk.bytes.length) rest middle hiddenAfter after) :
    Unaware processor rubbish code hidden address (chunk :: rest) before hiddenAfter after := by
  refine .cons executed (writes ▸ Set.empty_disjoint _) (reads ▸ Set.empty_disjoint _)
    (none ▸ Set.empty_disjoint _) ?_
  rwa [writes, none, Set.sdiff_empty, Set.union_empty]

/-- The replacements of a block do what the block does, also where hidden bytes differ. -/
theorem Unaware.replaced
    (unaware : Unaware processor rubbish code hidden address chunks before hiddenAfter after)
    (replaced : Replaced processor rubbish code address other chunks copies)
    (agree : before.Agree hidden state) :
    ∃ result, Passes processor code other copies state result ∧
      after.Agree hiddenAfter result := by
  induction unaware generalizing state other copies with
  | nil hidden address before =>
      cases replaced
      exact ⟨state, .nil _ _, agree⟩
  | @cons hidden hiddenAfter address chunk rest before middle after executed unwritten unread apart
      following ih =>
      cases replaced with
      | cons first others =>
          rw [Set.disjoint_union_right] at unread
          obtain ⟨same, again, unhidden⟩ := Processor.effect_agree executed agree unread.1
          have core := agree.core
          rw [← core] at unwritten unread apart
          obtain ⟨result, passes, left⟩ := first state same again unwritten unread.2 apart
          rw [core] at left
          obtain ⟨final, passesRest, agrees⟩ := ih others
            ((unhidden.mono Set.subset_union_left).trans (left.mono Set.subset_union_right))
          exact ⟨final, passes.append passesRest, agrees⟩

end Replaced

structure SamePlace (processor : Processor w σ decoder) (item other : ι) (next later : BitVec w) :
    Prop where
  effect : processor.effect other later = processor.effect item next
  reads : processor.reads other later = processor.reads item next
  writes : processor.writes other later = processor.writes item next

theorem SamePlace.replaces (rubbish : Chunk decoder → σ → Set (BitVec w)) {copy : Chunk decoder}
    (same : SamePlace processor chunk.item copy.item
      (address + BitVec.ofNat w chunk.bytes.length) (other + BitVec.ofNat w copy.bytes.length)) :
    Replaces processor rubbish code address other chunk [copy] := by
  intro before after executed unwritten _ _
  rw [← same.effect] at executed
  rw [← same.writes] at unwritten
  exact ⟨after, .cons executed unwritten (.nil _ _), .refl _ _⟩

end Detours.Machine

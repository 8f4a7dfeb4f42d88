import Detours.TrampolineBuilder.Rewrite

namespace Detours.TrampolineBuilder

open Detours.Bytes Detours.Decoding Detours.Machine Detours.Zydis

/-- The loop from any state, with the bytes of each turn in front of the later ones. -/
def rewriteAll (zydis : Api) (leftover : BitVec 64 → Leftover) :
    RewriteState → List AnnotatedInstruction → List Byte × RewriteState
  | state, [] => ([], state)
  | state, instruction :: rest =>
      let (bytes, next) := rewriteInstruction zydis leftover instruction state
      (bytes ++ (rewriteAll zydis leftover next rest).1, (rewriteAll zydis leftover next rest).2)

def RunSucceeds (zydis : Api) (leftover : BitVec 64 → Leftover) :
    RewriteState → List AnnotatedInstruction → Prop
  | _, [] => True
  | state, instruction :: rest =>
      CallsSucceed zydis instruction state ∧
        RunSucceeds zydis leftover (rewriteInstruction zydis leftover instruction state).2 rest

instance decidableRunSucceeds (zydis : Api) (leftover : BitVec 64 → Leftover) :
    (state : RewriteState) → (instructions : List AnnotatedInstruction) →
      Decidable (RunSucceeds zydis leftover state instructions)
  | _, [] => .isTrue trivial
  | state, instruction :: rest =>
      have := decidableRunSucceeds zydis leftover
        (rewriteInstruction zydis leftover instruction state).2 rest
      inferInstanceAs (Decidable (_ ∧ _))

variable {zydis : Api} {leftover : BitVec 64 → Leftover} {instruction : AnnotatedInstruction}
  {instructions front rest : List AnnotatedInstruction} {state : RewriteState}
  {cave hookFunction originalAddress : BitVec 64} {placed : List (BitVec 64)}
  {memory : Memory 64} {builder : TrampolineBuilder} {size : Nat} {bytes : List Byte}

theorem foldl_emitInstruction :
    instructions.foldl (emitInstruction zydis leftover) (bytes, state) =
      (bytes ++ (rewriteAll zydis leftover state instructions).1,
        (rewriteAll zydis leftover state instructions).2) := by
  induction instructions generalizing bytes state with
  | nil => simp [rewriteAll]
  | cons instruction rest ih =>
      rw [List.foldl_cons, emitInstruction, ih]
      simp only [rewriteAll, List.append_assoc]

/-- The state in which the loop of `build` starts: one table entry more than the
constructor made. -/
def emissionStart (builder : TrampolineBuilder) (memory : Memory 64) (hookFunction : BitVec 64) :
    RewriteState :=
  RewriteState.placeRelocation { builder, memory, runtimeAddress := builder.caveAddress }
    hookFunction

theorem emitInstructions_eq :
    emitInstructions zydis leftover builder memory hookFunction instructions =
      rewriteAll zydis leftover (emissionStart builder memory hookFunction) instructions := by
  rw [emitInstructions, foldl_emitInstruction]
  rfl

theorem rewriteAll_append :
    rewriteAll zydis leftover state (front ++ rest) =
      ((rewriteAll zydis leftover state front).1 ++
        (rewriteAll zydis leftover (rewriteAll zydis leftover state front).2 rest).1,
        (rewriteAll zydis leftover (rewriteAll zydis leftover state front).2 rest).2) := by
  induction front generalizing state with
  | nil => rfl
  | cons instruction front ih =>
      simp only [List.cons_append, rewriteAll, ih, List.append_assoc]

theorem runSucceeds_append :
    RunSucceeds zydis leftover state (front ++ rest) ↔
      RunSucceeds zydis leftover state front ∧
        RunSucceeds zydis leftover (rewriteAll zydis leftover state front).2 rest := by
  induction front generalizing state with
  | nil => exact ⟨fun later => ⟨trivial, later⟩, fun both => both.2⟩
  | cons instruction front ih =>
      simp only [List.cons_append, RunSucceeds, rewriteAll, ih, and_assoc]

theorem rewriteAll_runtimeAddress (succeeds : RunSucceeds zydis leftover state instructions) :
    (rewriteAll zydis leftover state instructions).2.runtimeAddress =
      state.runtimeAddress +
        BitVec.ofNat 64 (rewriteAll zydis leftover state instructions).1.length := by
  induction instructions generalizing state with
  | nil => simp [rewriteAll]
  | cons instruction rest ih =>
      have own := rewriteInstruction_runtimeAddress leftover succeeds.1
      simp only [rewriteAll, ih succeeds.2, own, List.length_append, BitVec.ofNat_add,
        BitVec.add_assoc]

theorem rewriteAll_length_le (zydis : Api) (leftover : BitVec 64 → Leftover)
    (state : RewriteState) (instructions : List AnnotatedInstruction) :
    (rewriteAll zydis leftover state instructions).1.length ≤ 60 * instructions.length := by
  induction instructions generalizing state with
  | nil => simp [rewriteAll]
  | cons instruction rest ih =>
      have own := rewriteInstruction_length_le zydis leftover instruction state
      have others := ih (rewriteInstruction zydis leftover instruction state).2
      simp only [rewriteAll, List.length_append, List.length_cons]
      omega

def StateTables (cave : BitVec 64) (placed : List (BitVec 64)) (state : RewriteState) : Prop :=
  Tables cave placed state.builder state.memory

theorem StateTables.placeRelocation {target : BitVec 64} (tables : StateTables cave placed state)
    (room : placed.length < 22) :
    StateTables cave (placed ++ [target]) (state.placeRelocation target) :=
  Tables.placeRelocation tables room

theorem rewriteInstruction_tables (zydis : Api) (leftover : BitVec 64 → Leftover)
    (instruction : AnnotatedInstruction) (tables : StateTables cave placed state)
    (room : placed.length < 22) :
    StateTables cave (placed ++ relocations instruction)
      (rewriteInstruction zydis leftover instruction state).2 ∧
    Memory.ChangesOnly (tableBytes cave) state.memory
      (rewriteInstruction zydis leftover instruction state).2.memory := by
  obtain ⟨builder, memory⟩ := rewriteInstruction_placed zydis leftover instruction state
  unfold StateTables
  rw [builder, memory]
  unfold relocations
  split
  · exact ⟨Tables.placeRelocation tables room, tables.placeRelocation_changesOnly room⟩
  · rw [List.append_nil]
    exact ⟨tables, .refl _ _⟩

theorem rewriteAll_tables (zydis : Api) (leftover : BitVec 64 → Leftover)
    (instructions : List AnnotatedInstruction) (tables : StateTables cave placed state)
    (room : placed.length + instructions.length ≤ 22) :
    StateTables cave (placed ++ instructions.flatMap relocations)
      (rewriteAll zydis leftover state instructions).2 ∧
    Memory.ChangesOnly (tableBytes cave) state.memory
      (rewriteAll zydis leftover state instructions).2.memory := by
  induction instructions generalizing state placed with
  | nil =>
      rw [List.flatMap_nil, List.append_nil]
      exact ⟨tables, .refl _ _⟩
  | cons instruction rest ih =>
      rw [List.length_cons] at room
      have few := relocations_length_le instruction
      obtain ⟨own, stores⟩ := rewriteInstruction_tables zydis leftover instruction tables (by omega)
      obtain ⟨others, later⟩ := ih own (by rw [List.length_append]; omega)
      rw [List.flatMap_cons, ← List.append_assoc]
      exact ⟨others, stores.trans later⟩

theorem flatMap_relocations_length_le (instructions : List AnnotatedInstruction) :
    (instructions.flatMap relocations).length ≤ instructions.length := by
  induction instructions with
  | nil => simp
  | cons instruction rest ih =>
      have own := relocations_length_le instruction
      simp only [List.flatMap_cons, List.length_append, List.length_cons]
      omega

/-- The emitted code and the jump behind it, to jump table entry 0. -/
def closedCode (cave : BitVec 64) (code : List Byte) : List Byte :=
  code ++ jumpRel32 ((cave + 0x50 - (cave + BitVec.ofNat 64 code.length + 5)).setWidth 32)

@[simp] theorem closedCode_length (cave : BitVec 64) (code : List Byte) :
    (closedCode cave code).length = code.length + 5 := by
  simp [closedCode]

theorem build_eq
    (short : (emitInstructions zydis leftover builder memory hookFunction
      builder.annotatedInstructions).1.length + 5 ≤ 2 ^ 64) :
    builder.build zydis leftover memory hookFunction =
      (emitInstructions zydis leftover builder memory hookFunction
        builder.annotatedInstructions).2.memory.write builder.caveAddress
          (closedCode builder.caveAddress
            (emitInstructions zydis leftover builder memory hookFunction
              builder.annotatedInstructions).1) := by
  unfold build placeJump getJumpBackPtr
  dsimp only
  rw [storeJump_eq (by decide), closedCode]
  exact Memory.write_append _ (by rw [jumpRel32_length]; exact short)

section Create

theorem create_tables :
    Tables cave [originalAddress + BitVec.ofNat 64 size]
      (create zydis leftover memory originalAddress size cave).1
      (create zydis leftover memory originalAddress size cave).2 := by
  unfold create
  refine initializeTables_tables ?_ originalAddress size
  rfl

theorem create_changesOnly :
    Memory.ChangesOnly (tableBytes cave) memory
      (create zydis leftover memory originalAddress size cave).2 := by
  unfold create initializeTables
  exact Tables.placeRelocation_changesOnly (.nil rfl rfl rfl) (by decide)

end Create

def buildStart (zydis : Api) (leftover : BitVec 64 → Leftover) (memory : Memory 64)
    (originalAddress : BitVec 64) (size : Nat) (cave hookFunction : BitVec 64) : RewriteState :=
  emissionStart (create zydis leftover memory originalAddress size cave).1
    (create zydis leftover memory originalAddress size cave).2 hookFunction

theorem buildStart_tables :
    StateTables cave [originalAddress + BitVec.ofNat 64 size, hookFunction]
      (buildStart zydis leftover memory originalAddress size cave hookFunction) :=
  Tables.placeRelocation create_tables (by simp)

theorem buildStart_changesOnly :
    Memory.ChangesOnly (tableBytes cave) memory
      (buildStart zydis leftover memory originalAddress size cave hookFunction).memory :=
  create_changesOnly.trans (create_tables.placeRelocation_changesOnly (by simp))

end Detours.TrampolineBuilder

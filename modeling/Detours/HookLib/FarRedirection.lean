import Detours.HookLib.Far
import Detours.HookLib.Granting
import Detours.TrampolineBuilder.Subset

namespace Detours.HookLib

open Detours.Bytes Detours.Decoding Detours.Machine Detours.Zydis

/-- What a far hook is for. The function starts with the far jump and `NOP`s, and
execution goes through the jump and entry 1 of the jump table to the target. -/
structure FarRedirects (before after : HookLib 64)
    (originalFunction targetFunction trampoline : BitVec 64) (size : Nat) : Prop where
  patch : after.memory.read originalFunction size =
    farJump (trampoline + 0x58) ++ List.replicate (size - 14) 0x90
  farJump : jumpTarget after.memory originalFunction = some (trampoline + 0x58)
  entry : after.memory.read (trampoline + 0x58) 6 = jumpQword TrampolineBuilder.entryDisplacement
  slot : after.memory.read (trampoline + 0x108) 8 = littleEndian 8 targetFunction.toNat
  reaches : Reaches after.memory originalFunction targetFunction
  frame : Memory.ChangesOnly (span originalFunction size ∪ span trampoline 0x1000) before.memory
    after.memory

/-- The code `build` emits does not run over jump table entry 1 or its slot. -/
def EntrySurvives (zydis : Api) (environment : Environment 64) (lib : HookLib 64)
    (originalFunction targetFunction trampoline : BitVec 64) (size : Nat) : Prop :=
  let code := TrampolineBuilder.closedCode trampoline
    (TrampolineBuilder.emittedCode zydis environment.leftover
      (lib.withBlock environment trampoline 0x1000).memory originalFunction size trampoline
      targetFunction)
  Memory.Keeps code 0x58 (jumpQword TrampolineBuilder.entryDisplacement) ∧
    Memory.Keeps code 0x108 (littleEndian 8 targetFunction.toNat)

variable {zydis : Api} {environment : Environment 64} {lib : HookLib 64} {memory : Memory 64}
  {originalFunction targetFunction trampoline : BitVec 64} {size : Nat}

section Far

variable (installation : Installation .far zydis lib originalFunction trampoline size)

include installation

variable (environment targetFunction)

theorem hooked_far_entry :
    ((hooked .far zydis environment lib originalFunction targetFunction trampoline).memory.read
        (trampoline + 0x58) 6 = jumpQword TrampolineBuilder.entryDisplacement ∧
      (hooked .far zydis environment lib originalFunction targetFunction trampoline).memory.read
        (trampoline + 0x108) 8 = littleEndian 8 targetFunction.toNat) ↔
      EntrySurvives zydis environment lib originalFunction targetFunction trampoline size := by
  obtain ⟨original⟩ := installation.stolen
  have stolen := installation.stolenWithBlock environment original
  have tables := (TrampolineBuilder.emittedAfter_tables environment.leftover trampoline
    targetFunction installation.reads stolen).1
  have entryLength : (jumpQword TrampolineBuilder.entryDisplacement).length = 6 :=
    jumpQword_length _
  have slotLength : (littleEndian 8 targetFunction.toNat).length = 8 := littleEndian_length _ _
  have entry : _ = jumpQword TrampolineBuilder.entryDisplacement :=
    tables.entry (rfl : _[1]? = some targetFunction)
  have slot : _ = littleEndian 8 targetFunction.toNat :=
    tables.slot (rfl : _[1]? = some targetFunction)
  have entryWindow := hooked_far_window environment targetFunction installation 0x58 6 (by decide)
  have slotWindow := hooked_far_window environment targetFunction installation 0x108 8 (by decide)
  rw [farBlock, TrampolineBuilder.built_eq _ _ _ installation.reads stolen] at entryWindow slotWindow
  have entryKept := Memory.read_write_keeps trampoline 0x58
    (TrampolineBuilder.closedCode trampoline
      (TrampolineBuilder.emittedCode zydis environment.leftover
        (lib.withBlock environment trampoline 0x1000).memory originalFunction size trampoline
        targetFunction))
    (by rw [entryLength]; decide) (by rw [entryLength]; exact entry)
  have slotKept := Memory.read_write_keeps trampoline 0x108
    (TrampolineBuilder.closedCode trampoline
      (TrampolineBuilder.emittedCode zydis environment.leftover
        (lib.withBlock environment trampoline 0x1000).memory originalFunction size trampoline
        targetFunction))
    (by rw [slotLength]; decide) (by rw [slotLength]; exact slot)
  rw [entryLength] at entryKept
  rw [slotLength] at slotKept
  exact and_congr ((iff_of_eq (congrArg (· = _) entryWindow)).trans entryKept)
    ((iff_of_eq (congrArg (· = _) slotWindow)).trans slotKept)

theorem hooked_far_patch_iff :
    (hooked .far zydis environment lib originalFunction targetFunction trampoline).memory.read
        originalFunction size = farJump (trampoline + 0x58) ++ List.replicate (size - 14) 0x90 ↔
      size = 14 := by
  obtain ⟨covers, small⟩ := installation.far_size
  rw [hooked_far_patch _ _ installation]
  constructor
  · intro same
    by_contra longer
    -- the fill has replaced the first opcode byte
    have filled := congrArg List.head? same
    obtain ⟨more, count⟩ : ∃ more, size - 14 = more + 1 := ⟨size - 15, by omega⟩
    simp [farPatchBytes, count, List.replicate_succ, farJump_eq, jumpQword] at filled
  · intro exact
    subst exact
    have whole : (lib.memory.read originalFunction 14).drop 14 = [] :=
      List.drop_of_length_le (by simp)
    rw [whole]
    simp [farPatchBytes]

theorem hooked_far_jumpTarget (exact_size : size = 14) :
    jumpTarget
        (hooked .far zydis environment lib originalFunction targetFunction trampoline).memory
        originalFunction =
      some (trampoline + 0x58) := by
  have jump := (hooked_far_patch_iff environment targetFunction installation).mpr exact_size
  rw [exact_size, farJump_eq, Nat.sub_self, List.replicate_zero, List.append_nil,
    Memory.read_add 6 8] at jump
  obtain ⟨opcode, pointer⟩ := List.append_inj jump (by simp)
  rw [jumpTarget_jumpQword opcode, show displacement 0 = 0 from rfl, add_zero,
    read64_eq (originalFunction + 6) pointer]

theorem hooked_far_reaches (exact_size : size = 14)
    (survives : EntrySurvives zydis environment lib originalFunction targetFunction trampoline size) :
    FarRedirects lib
      (hooked .far zydis environment lib originalFunction targetFunction trampoline)
      originalFunction targetFunction trampoline size := by
  have patch := (hooked_far_patch_iff environment targetFunction installation).mpr exact_size
  obtain ⟨entry, slot⟩ := (hooked_far_entry _ _ installation).mpr survives
  have frame := hooked_far_changesOnly environment targetFunction installation
  have toEntry := hooked_far_jumpTarget environment targetFunction installation exact_size
  generalize hooked .far zydis environment lib originalFunction targetFunction trampoline = after at *
  have toTarget : jumpTarget after.memory (trampoline + 0x58) = some targetFunction := by
    rw [jumpTarget_jumpQword entry]
    have position : trampoline + 0x58 + 6 + displacement TrampolineBuilder.entryDisplacement =
        trampoline + 0x108 := by
      rw [BitVec.add_assoc, BitVec.add_assoc]
      rfl
    rw [position, read64_eq _ slot]
  exact ⟨patch, toEntry, entry, slot,
    .trans (.step (step_of_jumpTarget toEntry)) (.step (step_of_jumpTarget toTarget)), frame⟩

end Far

/-- Without instructions of the `LOOP` kind the code ends before the tables. -/
theorem entrySurvives_of_memoryForms
    (installation : Installation .far zydis lib originalFunction trampoline size)
    (lengths : zydis.EncodedLengths)
    (stolen : Stolen zydis lib.memory originalFunction 14 size)
    (forms : TrampolineBuilder.MemoryForms stolen.instructions) :
    EntrySurvives zydis environment lib originalFunction targetFunction trampoline size := by
  have short := TrampolineBuilder.rewriteAll_length_le_of_stolen environment.leftover
    originalFunction (TrampolineBuilder.buildStart zydis environment.leftover
      (lib.withBlock environment trampoline 0x1000).memory originalFunction size trampoline
      targetFunction)
    lengths stolen forms
  have code := TrampolineBuilder.collected_eq environment.leftover trampoline
    installation.reads (installation.stolenWithBlock environment stolen)
  unfold EntrySurvives TrampolineBuilder.emittedCode
  rw [code, TrampolineBuilder.emittedAfter_eq]
  constructor
  · apply Memory.Keeps.of_le
    rw [TrampolineBuilder.closedCode_length]
    exact Nat.le_trans short (by decide)
  · apply Memory.Keeps.of_le
    rw [TrampolineBuilder.closedCode_length]
    exact Nat.le_trans short (by decide)

/-- A far hook works exactly when the stolen prefix ends with byte 14 and the emitted
code stays off jump table entry 1. The `NOP`s are stored from the first byte of the
function on, so a longer prefix loses its jump; only instructions of the `LOOP` kind can
make the code run into the table. -/
theorem applyHookX64_far_redirects (reads : zydis.ReadsInstruction .long64)
    (decodes : PrefixDecodes zydis lib.memory originalFunction 14)
    (measured : computeHookSize zydis lib.memory originalFunction 14 = size)
    (chosen : chosenBlock environment originalFunction = some (some (.far, trampoline)))
    (fresh : Disjoint (span originalFunction size) (span trampoline 0x1000)) :
    ∃ after,
      applyHookX64 zydis environment lib originalFunction targetFunction =
        some (after, some trampoline) ∧
      (FarRedirects lib after originalFunction targetFunction trampoline size ↔
        size = 14 ∧
          EntrySurvives zydis environment lib originalFunction targetFunction trampoline size) ∧
      (zydis.EncodedLengths →
        ∀ stolen : Stolen zydis lib.memory originalFunction 14 size,
          TrampolineBuilder.MemoryForms stolen.instructions →
          (FarRedirects lib after originalFunction targetFunction trampoline size ↔ size = 14)) := by
  have installation : Installation .far zydis lib originalFunction trampoline size :=
    ⟨reads, decodes, measured, fresh⟩
  have exactly : FarRedirects lib
      (hooked .far zydis environment lib originalFunction targetFunction trampoline)
      originalFunction targetFunction trampoline size ↔ size = 14 ∧
        EntrySurvives zydis environment lib originalFunction targetFunction trampoline size := by
    constructor
    · intro redirects
      exact ⟨(hooked_far_patch_iff _ _ installation).mp redirects.patch,
        (hooked_far_entry _ _ installation).mp ⟨redirects.entry, redirects.slot⟩⟩
    · rintro ⟨exact_size, survives⟩
      exact hooked_far_reaches _ _ installation exact_size survives
  refine ⟨_, applyHookX64_of_chosenBlock _ _ _ chosen, exactly, fun lengths stolen forms => ?_⟩
  rw [exactly]
  exact and_iff_left (entrySurvives_of_memoryForms installation lengths stolen forms)

theorem applyHookX64_far_redirects_nops :
    let lib := HookLib.holding 0x140001000 (List.replicate 14 0x90)
    ∃ after,
      applyHookX64 subset (.granting false 0x20000000000) lib 0x140001000 0x150000000 =
        some (after, some 0x20000000000) ∧
      FarRedirects lib after 0x140001000 0x150000000 0x20000000000 14 := by
  intro lib
  let nop : subset.Instruction .long64 := Subset.Form.nop.instruction [] rfl
  have measured : computeHookSize subset lib.memory 0x140001000 14 = 14 := by decide +kernel
  have decodes : PrefixDecodes subset lib.memory 0x140001000 14 :=
    computeHookSize_reaches.mp (Nat.le_of_eq measured.symm)
  have fresh : Disjoint (span (0x140001000 : BitVec 64) 14) (span 0x20000000000 0x1000) :=
    span_disjoint (by decide) (by decide)
  obtain ⟨after, applied, _, plain⟩ := applyHookX64_far_redirects
    Subset.readsInstruction decodes measured (chosenBlock_granting_far (by decide)) fresh
  have forms : TrampolineBuilder.MemoryForms (List.replicate 14 nop) := by
    intro instruction member memory
    rw [List.eq_of_mem_replicate member] at memory
    exact absurd memory (by decide)
  exact ⟨after, applied, (plain Subset.encodedLengths
    (Stolen.ofHolding 0x140001000 (List.replicate 14 nop) (by decide) (by decide)) forms).mpr rfl⟩

/-- Behind three `MOV EAX, imm32` the fill of one `NOP` hits the far jump's opcode. -/
theorem applyHookX64_far_loses_jump :
    let lib := HookLib.holding 0x140001000
      [0xB8, 1, 0, 0, 0, 0xB8, 2, 0, 0, 0, 0xB8, 3, 0, 0, 0]
    let environment := Environment.granting false 0x20000000000
    PrefixDecodes subset lib.memory 0x140001000 14 ∧
    computeHookSize subset lib.memory 0x140001000 14 = 15 ∧
    chosenBlock environment 0x140001000 = some (some (.far, 0x20000000000)) ∧
    Disjoint (span (0x140001000 : BitVec 64) 15) (span 0x20000000000 0x1000) ∧
    ∃ after,
      applyHookX64 subset environment lib 0x140001000 0x150000000 =
        some (after, some 0x20000000000) ∧
      ¬FarRedirects lib after 0x140001000 0x150000000 0x20000000000 15 := by
  intro lib environment
  have measured : computeHookSize subset lib.memory 0x140001000 14 = 15 := by decide +kernel
  have decodes : PrefixDecodes subset lib.memory 0x140001000 14 :=
    computeHookSize_reaches.mp (by rw [measured]; decide)
  have chosen : chosenBlock environment 0x140001000 = some (some (.far, 0x20000000000)) :=
    chosenBlock_granting_far (by decide)
  have fresh : Disjoint (span (0x140001000 : BitVec 64) 15) (span 0x20000000000 0x1000) :=
    span_disjoint (by decide) (by decide)
  have installation : Installation .far subset lib 0x140001000 0x20000000000 15 :=
    ⟨Subset.readsInstruction, decodes, measured, fresh⟩
  refine ⟨decodes, measured, chosen, fresh, _, applyHookX64_of_chosenBlock _ _ _ chosen, ?_⟩
  intro redirects
  have fourteen := (hooked_far_patch_iff _ _ installation).mp redirects.patch
  omega

end Detours.HookLib

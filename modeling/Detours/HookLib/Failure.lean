import Detours.HookLib.Removal
import Detours.HookLib.RelocatedBranches

namespace Detours

open Detours.Bytes Detours.Decoding Detours.Zydis

namespace TrampolineBuilder

def emittedForms (zydis : Api) (leftover : BitVec 64 → Leftover) :
    RewriteState → List AnnotatedInstruction → List (List Byte)
  | _, [] => []
  | state, instruction :: rest =>
      (rewriteInstruction zydis leftover instruction state).1 ::
        emittedForms zydis leftover (rewriteInstruction zydis leftover instruction state).2 rest

variable {zydis : Api} {leftover : BitVec 64 → Leftover} {state : RewriteState}
  {instructions : List AnnotatedInstruction}

theorem emittedForms_flatten :
    (emittedForms zydis leftover state instructions).flatten =
      (rewriteAll zydis leftover state instructions).1 := by
  induction instructions generalizing state with
  | nil => rfl
  | cons instruction rest ih => simp only [emittedForms, rewriteAll, List.flatten_cons, ih]

theorem emittedForms_length :
    (emittedForms zydis leftover state instructions).length = instructions.length := by
  induction instructions generalizing state with
  | nil => rfl
  | cons instruction rest ih => simp only [emittedForms, List.length_cons, ih]

theorem emittedForms_ne_nil (succeeds : RunSucceeds zydis leftover state instructions) :
    ∀ form ∈ emittedForms zydis leftover state instructions, form ≠ [] := by
  induction instructions generalizing state with
  | nil => exact fun _ member => by cases member
  | cons instruction rest ih =>
      intro form member
      rcases List.mem_cons.mp member with rfl | later
      · exact rewriteInstruction_ne_nil succeeds.1
      · exact ih succeeds.2 form later

end TrampolineBuilder

def relocatedForms {w : Nat} {zydis : Api} {mode : MachineMode} (delta : BitVec w)
    (instructions : List (zydis.Instruction mode)) : List (List Byte) :=
  instructions.map fun instruction =>
    relocatedBytes delta instruction.item.info instruction.bytes

theorem relocatedForms_flatten {w : Nat} {zydis : Api} {mode : MachineMode} {delta : BitVec w}
    (instructions : List (zydis.Instruction mode))
    (narrow : ∀ instruction ∈ instructions,
      ¬(instruction.item.info.isRelative = true ∧ 32 < instruction.item.info.disp.size)) :
    (relocatedForms delta instructions).flatten = (relocateBlock delta instructions).1 := by
  induction instructions with
  | nil => rfl
  | cons instruction rest ih =>
      rw [List.forall_mem_cons] at narrow
      rw [relocateBlock, if_neg narrow.1, ← ih narrow.2]
      rfl

theorem relocatedForms_ne_nil {w : Nat} {zydis : Api} {mode : MachineMode} {delta : BitVec w}
    (reads : zydis.ReadsInstruction mode) (inside : zydis.DisplacementInside mode)
    (instructions : List (zydis.Instruction mode)) :
    ∀ form ∈ relocatedForms delta instructions, form ≠ [] := by
  intro form member
  obtain ⟨instruction, _, rfl⟩ := List.mem_map.mp member
  have positive := instruction.length_pos reads.selfDelimiting
  rw [← relocatedBytes_length delta inside instruction] at positive
  exact List.ne_nil_of_length_pos positive

namespace HookLib

section Definitions

variable (path : Path) (zydis : Api) (environment : Environment 64) (lib : HookLib 64)
  (originalFunction targetFunction trampoline : BitVec 64) (size : Nat)
  (instructions : List (zydis.Instruction .long64))

def RewritesAll : Prop :=
  match path with
  | .near =>
      (relocate zydis (nearTrampoline (lib.withBlock environment trampoline 0x500).memory
        originalFunction targetFunction trampoline size) trampoline originalFunction size).2 = true
  | .far =>
      TrampolineBuilder.BuildSucceeds zydis environment.leftover
        (lib.withBlock environment trampoline 0x1000).memory originalFunction size trampoline
        targetFunction

def forms : List (List Byte) :=
  match path with
  | .near => relocatedForms (originalFunction - trampoline) instructions
  | .far =>
      TrampolineBuilder.emittedForms zydis environment.leftover
        (TrampolineBuilder.buildStart zydis environment.leftover
          (lib.withBlock environment trampoline 0x1000).memory originalFunction size trampoline
          targetFunction)
        (TrampolineBuilder.annotateBlock environment.leftover originalFunction instructions)

/-- A failed call leaves the function unhooked; after any other call the trampoline
starts with a form of every stolen instruction, in order. -/
def HandlesFailure : Prop :=
  (¬RewritesAll path zydis environment lib originalFunction targetFunction trampoline size →
    ∃ after, applyHookX64 zydis environment lib originalFunction targetFunction =
        some (after, none) ∧
      after.memory.read originalFunction size = lib.memory.read originalFunction size ∧
      after.activeHooks = lib.activeHooks) ∧
  (RewritesAll path zydis environment lib originalFunction targetFunction trampoline size →
    ∃ after, applyHookX64 zydis environment lib originalFunction targetFunction =
        some (after, some trampoline) ∧
      let emitted := forms path zydis environment lib originalFunction targetFunction trampoline
        size instructions
      emitted.length = instructions.length ∧ (∀ form ∈ emitted, form ≠ []) ∧
      after.memory.read trampoline emitted.flatten.length = emitted.flatten)

def NothingFails : Prop :=
  match path with
  | .near =>
      absDelta originalFunction trampoline ≤ 2 ^ 31 ∧
      ∀ instruction ∈ instructions,
        ¬(instruction.item.info.isRelative = true ∧ 32 < instruction.item.info.disp.size)
  | .far =>
      TrampolineBuilder.BuildSucceeds zydis environment.leftover
        (lib.withBlock environment trampoline 0x1000).memory originalFunction size trampoline
        targetFunction

end Definitions

variable {path : Path} {zydis : Api} {environment : Environment 64} {lib : HookLib 64}
  {originalFunction targetFunction trampoline : BitVec 64} {size : Nat}

section Installed

variable (installation : Installation path zydis lib originalFunction trampoline size)
  (inside : zydis.DisplacementInside .long64)
  (stolen : Stolen zydis lib.memory originalFunction path.neededSize size)

include installation inside stolen

theorem rewritesAll_iff :
    RewritesAll path zydis environment lib originalFunction targetFunction trampoline size ↔
      NothingFails path zydis environment lib originalFunction targetFunction trampoline size
        stolen.instructions := by
  have small := installation.small
  cases path with
  | far => exact Iff.rfl
  | near =>
      unfold RewritesAll NothingFails
      dsimp only
      exact relocate_accepts_iff (w := 64) installation.reads inside (by omega)
        stolen.instructions (nearTrampoline_holds_stolen installation stolen)

end Installed

theorem hooked_near_forms
    (installation : Installation .near zydis lib originalFunction trampoline size)
    (inside : zydis.DisplacementInside .long64)
    (stolen : Stolen zydis lib.memory originalFunction 5 size)
    (reach : absDelta originalFunction trampoline ≤ 2 ^ 31)
    (narrow : ∀ instruction ∈ stolen.instructions,
      ¬(instruction.item.info.isRelative = true ∧ 32 < instruction.item.info.disp.size)) :
    (hooked .near zydis environment lib originalFunction targetFunction trampoline).memory.read
        trampoline (relocatedForms (originalFunction - trampoline) stolen.instructions).flatten.length =
      (relocatedForms (originalFunction - trampoline) stolen.instructions).flatten := by
  have length := relocateBlock_length (originalFunction - trampoline) inside
    stolen.instructions
  rw [stolen.length_eq] at length
  rw [relocatedForms_flatten _ narrow, length]
  exact hooked_near_saved_relocated installation stolen inside reach

theorem hooked_far_code (environment : Environment 64) (targetFunction : BitVec 64)
    (installation : Installation .far zydis lib originalFunction trampoline size)
    (stolen : Stolen zydis lib.memory originalFunction 14 size) :
    let code := TrampolineBuilder.emittedCode zydis environment.leftover
      (lib.withBlock environment trampoline 0x1000).memory originalFunction size trampoline
      targetFunction
    (hooked .far zydis environment lib originalFunction targetFunction trampoline).memory.read
      trampoline code.length = code := by
  intro code
  have short : code.length ≤ 840 := TrampolineBuilder.emittedCode_length_le _ _ _ installation.reads
    (installation.stolenWithBlock environment stolen)
  have window := hooked_far_window environment targetFunction installation 0 code.length (by omega)
  have whole := TrampolineBuilder.built_read_code environment.leftover trampoline targetFunction
    installation.reads
    (installation.stolenWithBlock environment stolen)
  rw [Memory.read_add] at whole
  rw [BitVec.add_zero] at window
  exact window.trans (List.append_inj whole (by simp)).1

theorem hooked_forms
    (installation : Installation path zydis lib originalFunction trampoline size)
    (inside : zydis.DisplacementInside .long64)
    (stolen : Stolen zydis lib.memory originalFunction path.neededSize size)
    (nothingFails : NothingFails path zydis environment lib originalFunction targetFunction
      trampoline size stolen.instructions) :
    let emitted := forms path zydis environment lib originalFunction targetFunction trampoline size
      stolen.instructions
    emitted.length = stolen.instructions.length ∧ (∀ form ∈ emitted, form ≠ []) ∧
    (hooked path zydis environment lib originalFunction targetFunction trampoline).memory.read
      trampoline emitted.flatten.length = emitted.flatten := by
  cases path with
  | near =>
      obtain ⟨reach, narrow⟩ := nothingFails
      exact ⟨List.length_map _, relocatedForms_ne_nil installation.reads inside _,
        hooked_near_forms installation inside stolen reach narrow⟩
  | far =>
      have succeeds : TrampolineBuilder.BuildSucceeds _ _ _ _ _ _ _ := nothingFails
      have collected := TrampolineBuilder.collected_eq environment.leftover trampoline
        installation.reads (installation.stolenWithBlock environment stolen)
      have code := hooked_far_code environment targetFunction installation stolen
      unfold TrampolineBuilder.BuildSucceeds at succeeds
      rw [collected] at succeeds
      rw [TrampolineBuilder.emittedCode, TrampolineBuilder.emittedAfter_eq, collected] at code
      refine ⟨?_, TrampolineBuilder.emittedForms_ne_nil succeeds, ?_⟩
      · exact TrampolineBuilder.emittedForms_length.trans
          (TrampolineBuilder.annotateBlock_length _)
      · rw [forms, TrampolineBuilder.emittedForms_flatten]
        exact code

/-- `apply_hook_x64` drops the reports of the encoder and of `relocate`: it treats
failures as it should exactly when there are none. -/
theorem applyHookX64_handlesFailure_iff (reads : zydis.ReadsInstruction .long64)
    (inside : zydis.DisplacementInside .long64)
    (decodes : PrefixDecodes zydis lib.memory originalFunction path.neededSize)
    (measured : computeHookSize zydis lib.memory originalFunction path.neededSize = size)
    (chosen : chosenBlock environment originalFunction = some (some (path, trampoline)))
    (fresh : Disjoint (span originalFunction size) (span trampoline path.blockSize))
    (stolen : Stolen zydis lib.memory originalFunction path.neededSize size) :
    HandlesFailure path zydis environment lib originalFunction targetFunction trampoline size
        stolen.instructions ↔
      NothingFails path zydis environment lib originalFunction targetFunction trampoline size
        stolen.instructions := by
  have installation : Installation path zydis lib originalFunction trampoline size :=
    ⟨reads, decodes, measured, fresh⟩
  have applied := applyHookX64_of_chosenBlock zydis lib targetFunction chosen
  rw [← rewritesAll_iff installation inside stolen, HandlesFailure, applied]
  constructor
  · intro handles
    by_contra fails
    obtain ⟨after, refused, _⟩ := handles.1 fails
    simp at refused
  · intro rewrites
    refine ⟨fun fails => absurd rewrites fails, fun _ => ⟨_, rfl, ?_⟩⟩
    exact hooked_forms installation inside stolen
      ((rewritesAll_iff installation inside stolen).mp rewrites)

theorem applyHookX64_handlesFailure_nops :
    let nop : subset.Instruction .long64 := Subset.Form.nop.instruction [] rfl
    let lib := HookLib.holding 0x140001000 (blockBytes (List.replicate 14 nop))
    HandlesFailure .far subset (.granting false 0x20000000000) lib 0x140001000 0x150000000
      0x20000000000 14 (List.replicate 14 nop) := by
  intro nop lib
  have measured : computeHookSize subset lib.memory 0x140001000 14 = 14 := by decide +kernel
  have decodes : PrefixDecodes subset lib.memory 0x140001000 14 :=
    computeHookSize_reaches.mp (Nat.le_of_eq measured.symm)
  have fresh : Disjoint (span (0x140001000 : BitVec 64) 14) (span 0x20000000000 0x1000) :=
    span_disjoint (by decide) (by decide)
  have succeeds : TrampolineBuilder.BuildSucceeds subset
      (Environment.granting false (0x20000000000 : BitVec 64)).leftover
      (lib.withBlock (.granting false 0x20000000000) 0x20000000000 0x1000).memory 0x140001000 14
      0x20000000000 0x150000000 := by decide +kernel
  exact (applyHookX64_handlesFailure_iff Subset.readsInstruction Subset.displacementInside decodes
    measured (chosenBlock_granting_far (by decide)) fresh
    (Stolen.ofHolding 0x140001000 (List.replicate 14 nop) (by decide) (by decide))).mpr succeeds

/-- `LOOP` cannot be encoded with a register operand; the hook is installed without it. -/
theorem applyHookX64_hooks_after_failure :
    let loop : subset.Instruction .long64 := Subset.Form.loop.instruction [0xFE] rfl
    let nop : subset.Instruction .long64 := Subset.Form.nop.instruction [] rfl
    let lib := HookLib.holding 0x140001000 (blockBytes (loop :: List.replicate 12 nop))
    let environment := Environment.granting false 0x20000000000
    computeHookSize subset lib.memory 0x140001000 14 = 14 ∧
    chosenBlock environment 0x140001000 = some (some (.far, 0x20000000000)) ∧
    ¬HandlesFailure .far subset environment lib 0x140001000 0x150000000 0x20000000000 14
      (loop :: List.replicate 12 nop) := by
  intro loop nop lib environment
  have measured : computeHookSize subset lib.memory 0x140001000 14 = 14 := by decide +kernel
  have chosen : chosenBlock environment 0x140001000 = some (some (.far, 0x20000000000)) :=
    chosenBlock_granting_far (by decide)
  have fails : ¬TrampolineBuilder.BuildSucceeds subset environment.leftover
      (lib.withBlock environment 0x20000000000 0x1000).memory 0x140001000 14 0x20000000000
      0x150000000 := by decide +kernel
  refine ⟨measured, chosen, ?_⟩
  intro handles
  obtain ⟨after, refused, _⟩ := handles.1 fails
  rw [applyHookX64_of_chosenBlock _ _ _ chosen] at refused
  cases refused

end HookLib

end Detours

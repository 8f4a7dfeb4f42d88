import Detours.Bytes.Overlays
import Detours.TrampolineBuilder.Layout

namespace Detours.TrampolineBuilder

open Detours.Bytes Detours.Decoding Detours.Zydis

/-- States that differ at most in the memory outside a region. -/
structure RewriteState.SameOn (region : Set (BitVec 64)) (left right : RewriteState) : Prop where
  builder : left.builder = right.builder
  runtimeAddress : left.runtimeAddress = right.runtimeAddress
  memory : Set.EqOn left.memory right.memory region

variable {zydis : Api} {leftover : BitVec 64 → Leftover} {instruction : AnnotatedInstruction}
  {instructions : List AnnotatedInstruction} {left right : RewriteState} {region : Set (BitVec 64)}
  {leftMemory rightMemory : Memory 64} {originalAddress cave hookFunction : BitVec 64} {size : Nat}

namespace RewriteState.SameOn

variable (same : SameOn region left right)

include same

theorem advance (count : Nat) : SameOn region (left.advance count) (right.advance count) where
  builder := same.builder
  runtimeAddress := by rw [RewriteState.advance, RewriteState.advance, same.runtimeAddress]
  memory := same.memory

theorem placeRelocation (target : BitVec 64) :
    SameOn region (left.placeRelocation target) (right.placeRelocation target) where
  builder := by
    unfold RewriteState.placeRelocation TrampolineBuilder.placeRelocation
    rw [same.builder]
  runtimeAddress := same.runtimeAddress
  memory := by
    unfold RewriteState.placeRelocation TrampolineBuilder.placeRelocation
    rw [same.builder]
    dsimp only [placeQwordJump]
    rw [storeQwordJump_eq, storeQwordJump_eq]
    exact Memory.eqOn_write (Memory.eqOn_write same.memory _ _) _ _

theorem branchRequest :
    branchRequest zydis instruction left = branchRequest zydis instruction right := by
  unfold TrampolineBuilder.branchRequest
  rw [same.builder, same.runtimeAddress]

theorem rewriteInstruction (instruction : AnnotatedInstruction) :
    (rewriteInstruction zydis leftover instruction left).1 =
      (rewriteInstruction zydis leftover instruction right).1 ∧
    SameOn region (rewriteInstruction zydis leftover instruction left).2
      (rewriteInstruction zydis leftover instruction right).2 := by
  cases relative : instruction.isRelative with
  | false =>
      rw [rewriteInstruction_plain relative, rewriteInstruction_plain relative]
      exact ⟨rfl, same.advance _⟩
  | true =>
      cases branch : rewritesBranch instruction.instruction with
      | true =>
          have placed := same.placeRelocation instruction.absoluteAddress
          rw [rewriteInstruction_branch relative branch, rewriteInstruction_branch relative branch,
            placed.branchRequest, same.runtimeAddress]
          exact ⟨rfl, placed.advance _⟩
      | false =>
          rw [rewriteInstruction_memory relative branch, rewriteInstruction_memory relative branch]
          exact ⟨rfl, (((same.advance _).advance _).advance _).advance _⟩

theorem rewriteAll (instructions : List AnnotatedInstruction) :
    (rewriteAll zydis leftover left instructions).1 =
      (rewriteAll zydis leftover right instructions).1 ∧
    SameOn region (rewriteAll zydis leftover left instructions).2
      (rewriteAll zydis leftover right instructions).2 := by
  induction instructions generalizing left right with
  | nil => exact ⟨rfl, same⟩
  | cons instruction rest ih =>
      obtain ⟨bytes, next⟩ := same.rewriteInstruction instruction
      obtain ⟨others, final⟩ := ih next
      exact ⟨congrArg₂ (· ++ ·) bytes others, final⟩

end RewriteState.SameOn

section Built

variable (same : Set.EqOn leftMemory rightMemory region)

include same

theorem buildStart_sameOn
    (collects : buildAnnotatedInstructions zydis leftover leftMemory originalAddress size =
      buildAnnotatedInstructions zydis leftover rightMemory originalAddress size) :
    RewriteState.SameOn region
      (buildStart zydis leftover leftMemory originalAddress size cave hookFunction)
      (buildStart zydis leftover rightMemory originalAddress size cave hookFunction) := by
  let empty (memory : Memory 64) : RewriteState :=
    { builder :=
        { annotatedInstructions :=
            buildAnnotatedInstructions zydis leftover memory originalAddress size
          caveAddress := cave
          jumpTableAddress := cave + 0x50
          addressTableAddress := cave + 0x100 }
      memory
      runtimeAddress := cave }
  have start : RewriteState.SameOn region (empty leftMemory) (empty rightMemory) :=
    ⟨by simp only [empty, collects], rfl, same⟩
  exact (start.placeRelocation (originalAddress + BitVec.ofNat 64 size)).placeRelocation hookFunction

/-- The same stolen bytes give the same block wherever the memories were the same. -/
theorem built_eqOn (reads : zydis.ReadsInstruction .long64)
    (left : Stolen zydis leftMemory originalAddress 14 size)
    (right : Stolen zydis rightMemory originalAddress 14 size)
    (stolen : left.instructions = right.instructions) :
    Set.EqOn (built zydis leftover leftMemory originalAddress size cave hookFunction)
      (built zydis leftover rightMemory originalAddress size cave hookFunction) region := by
  have collects : collected zydis leftover leftMemory originalAddress size cave =
      collected zydis leftover rightMemory originalAddress size cave := by
    rw [collected_eq _ _ reads left, collected_eq _ _ reads right, stolen]
  have start : RewriteState.SameOn region
      (buildStart zydis leftover leftMemory originalAddress size cave hookFunction)
      (buildStart zydis leftover rightMemory originalAddress size cave hookFunction) :=
    buildStart_sameOn same collects
  obtain ⟨bytes, final⟩ := @RewriteState.SameOn.rewriteAll zydis leftover _ _ _ start
    (collected zydis leftover leftMemory originalAddress size cave)
  rw [built_eq _ _ _ reads left, built_eq _ _ _ reads right, emittedCode, emittedCode,
    emittedAfter_eq, emittedAfter_eq, ← collects, bytes]
  exact Memory.eqOn_write final.memory _ _

end Built

end Detours.TrampolineBuilder

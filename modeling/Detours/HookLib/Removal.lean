import Detours.HookLib.Frame
import Detours.HookLib.Granting
import Detours.TrampolineBuilder.Subset
import Detours.TrampolineBuilder.Verbatim

namespace Detours.HookLib

open Detours.Bytes Detours.Decoding Detours.Machine Detours.Zydis

/-- Nothing but the trampoline's block differs from before. -/
def Restored (block : Set (BitVec 64)) (before after : HookLib 64) : Prop :=
  Memory.ChangesOnly block before.memory after.memory ∧ after.activeHooks = before.activeHooks

variable {path : Path} {zydis : Api} {environment : Environment 64} {lib : HookLib 64}
  {originalFunction targetFunction trampoline : BitVec 64} {size : Nat}

theorem removeHook_hooked_iff
    (installation : Installation path zydis lib originalFunction trampoline size)
    (inside : zydis.DisplacementInside .long64)
    (absent : lib.activeHooks originalFunction = none) :
    Restored (span trampoline path.blockSize) lib
        (removeHook environment
          (hooked path zydis environment lib originalFunction targetFunction trampoline)
          originalFunction) ↔
      (hooked path zydis environment lib originalFunction targetFunction trampoline).memory.read
        trampoline size = lib.memory.read originalFunction size := by
  have small := installation.small
  have hooks := hooked_activeHooks environment targetFunction installation
  have frame := hooked_changesOnly environment targetFunction installation inside
  generalize hooked path zydis environment lib originalFunction targetFunction trampoline = after at *
  have entry : after.activeHooks originalFunction =
      some ⟨trampoline, after.memory.read trampoline size⟩ := by
    rw [hooks, HookMap.insert_self absent]
  have removed : (removeHook environment after originalFunction).memory =
      after.memory.write originalFunction (after.memory.read trampoline size) := by
    simp only [removeHook, entry, virtualFree_memory, ensureProtection_memory]
  have erased : (removeHook environment after originalFunction).activeHooks = lib.activeHooks := by
    simp only [removeHook, entry, virtualFree_activeHooks, ensureProtection_activeHooks, hooks,
      HookMap.erase_insert absent]
  rw [Restored, removed]
  refine (and_iff_left erased).trans ?_
  generalize saved : after.memory.read trampoline size = bytes
  have length : bytes.length = size := by rw [← saved, Memory.read_length]
  constructor
  · intro changes
    rw [← changes.read_eq (by omega) installation.fresh]
    exact (Memory.read_write_of_length _ _ length (by omega)).symm
  · intro same address outside
    by_cases stolen : address ∈ span originalFunction size
    · obtain ⟨index, below, bound, rfl⟩ := exists_offset stolen
      rw [Memory.write_base_add bound, same, Memory.read_getElem? below, Option.getD_some]
    · rw [Memory.write_changesOnly address (by rwa [length])]
      exact frame address (by
        rintro (function | block)
        · exact stolen function
        · exact outside block)

section Near

theorem nearTrampoline_read_stolen {memory : Memory 64} (small : size < 32) :
    (nearTrampoline memory originalFunction targetFunction trampoline size).read trampoline size =
      memory.read originalFunction size := by
  rw [nearTrampoline_eq small, Memory.write_changesOnly.read_eq (by omega)]
  · have start := Memory.read_write_middle memory trampoline [] (memory.read originalFunction size)
      (nearJumps originalFunction trampoline size)
      (by simp only [List.nil_append, List.length_append, Memory.read_length, nearJumps_length]; omega)
    rwa [List.length_nil, BitVec.add_zero, Memory.read_length, List.nil_append] at start
  · rw [littleEndian_length]
    exact span_disjoint_add 0x50 (by omega) (by decide)

variable (installation : Installation .near zydis lib originalFunction trampoline size)
  (stolen : Stolen zydis lib.memory originalFunction 5 size)

include installation

theorem hooked_near_saved :
    (hooked .near zydis environment lib originalFunction targetFunction trampoline).memory.read
        trampoline size =
      (relocate zydis (nearTrampoline (lib.withBlock environment trampoline 0x500).memory
        originalFunction targetFunction trampoline size) trampoline originalFunction size).1.read
          trampoline size := by
  have small := installation.small
  have window := hooked_near_window environment targetFunction installation 0 size (by omega)
  rwa [BitVec.add_zero] at window

theorem nearTrampoline_holds_stolen :
    (nearTrampoline (lib.withBlock environment trampoline 0x500).memory originalFunction
      targetFunction trampoline size).read trampoline size = blockBytes stolen.instructions := by
  rw [nearTrampoline_read_stolen installation.small, ← stolen.bytes]
  exact installation.read_withBlock _

theorem hooked_near_saved_relocated (inside : zydis.DisplacementInside .long64)
    (reach : absDelta originalFunction trampoline ≤ 2 ^ 31) :
    (hooked .near zydis environment lib originalFunction targetFunction trampoline).memory.read
        trampoline size =
      (relocateBlock (originalFunction - trampoline) stolen.instructions).1 := by
  have small := installation.small
  have length := relocateBlock_length (originalFunction - trampoline) inside
    stolen.instructions
  rw [hooked_near_saved installation, relocate_block (w := 64) installation.reads inside (by omega)
    stolen.instructions (nearTrampoline_holds_stolen installation stolen) reach]
  rw [stolen.length_eq] at length
  exact Memory.read_write_of_length _ _ length (by omega)

theorem moved_of_reach (reach : absDelta originalFunction trampoline ≤ 2 ^ 31) :
    ((originalFunction - trampoline).setWidth 64).setWidth 32 ≠ 0#32 := by
  have different := installation.ne
  intro same
  rw [absDelta, BitVec.signExtend_eq, BitVec.signExtend_eq] at reach
  have nonzero : (originalFunction - trampoline).toNat ≠ 0 := by
    intro zero
    exact different (sub_eq_zero.mp (BitVec.eq_of_toNat_eq zero))
  have low := congrArg BitVec.toNat same
  rw [BitVec.setWidth_eq, BitVec.toNat_setWidth] at low
  rw [BitVec.toInt_eq_toNat_bmod, Int.bmod_def] at reach
  have bound := (originalFunction - trampoline).isLt
  simp only [BitVec.toNat_ofNat] at low
  omega

theorem hooked_near_saved_iff (inside : zydis.DisplacementInside .long64)
    (fields : zydis.RelativeDisplacement .long64) :
    (hooked .near zydis environment lib originalFunction targetFunction trampoline).memory.read
        trampoline size = lib.memory.read originalFunction size ↔
      2 ^ 31 < absDelta originalFunction trampoline ∨
      ∀ instruction ∈ stolen.instructions, instruction.item.info.isRelative = true →
        instruction.item.info.disp.size = 0 := by
  by_cases reach : absDelta originalFunction trampoline ≤ 2 ^ 31
  · rw [hooked_near_saved_relocated installation stolen inside reach, stolen.bytes,
      relocateBlock_eq_self inside fields (moved_of_reach installation reach)]
    exact (or_iff_right (Nat.not_lt.mpr reach)).symm
  · have far := Nat.lt_of_not_le reach
    refine iff_of_true ?_ (.inl far)
    rw [hooked_near_saved installation, relocate_of_far far,
      nearTrampoline_holds_stolen installation stolen, stolen.bytes]

end Near

section Far

variable (installation : Installation .far zydis lib originalFunction trampoline size)
  (stolen : Stolen zydis lib.memory originalFunction 14 size)

include installation

theorem hooked_far_saved :
    (hooked .far zydis environment lib originalFunction targetFunction trampoline).memory.read
        trampoline size =
      (farBlock zydis environment lib originalFunction targetFunction trampoline size).read
        trampoline size := by
  have small := installation.small
  have window := hooked_far_window environment targetFunction installation 0 size (by omega)
  rwa [BitVec.add_zero] at window

variable (environment targetFunction) in
theorem hooked_far_saved_iff_prefix :
    ∃ tail,
      ((hooked .far zydis environment lib originalFunction targetFunction trampoline).memory.read
          trampoline size = lib.memory.read originalFunction size ↔
        blockBytes stolen.instructions <+:
          TrampolineBuilder.emittedCode zydis environment.leftover
            (lib.withBlock environment trampoline 0x1000).memory originalFunction size trampoline
            targetFunction ++ tail) := by
  have code := TrampolineBuilder.built_read_code environment.leftover trampoline targetFunction
    installation.reads (installation.stolenWithBlock environment stolen)
  change (farBlock _ _ _ _ _ _ _).read _ _ = _ at code
  rw [hooked_far_saved installation, stolen.bytes]
  generalize farBlock zydis environment lib originalFunction targetFunction trampoline size = block
    at code ⊢
  generalize TrampolineBuilder.emittedCode zydis environment.leftover
    (lib.withBlock environment trampoline 0x1000).memory originalFunction size trampoline
    targetFunction = emitted at code ⊢
  have stream : block.read trampoline (emitted.length + 5 + size) = _ := Memory.read_add _ _
  rw [code, TrampolineBuilder.closedCode, List.append_assoc] at stream
  generalize jumpRel32 _ ++ Memory.read _ _ _ = tail at stream
  refine ⟨tail, ?_⟩
  rw [← stream, List.prefix_iff_eq_take, stolen.length_eq, Memory.take_read (by omega)]
  exact eq_comm

theorem hooked_far_saved_of_verbatim
    (verbatim : TrampolineBuilder.Verbatim zydis environment.leftover
      (TrampolineBuilder.buildStart zydis environment.leftover
        (lib.withBlock environment trampoline 0x1000).memory originalFunction size trampoline
        targetFunction)
      originalFunction stolen.instructions) :
    (hooked .far zydis environment lib originalFunction targetFunction trampoline).memory.read
      trampoline size = lib.memory.read originalFunction size := by
  obtain ⟨tail, exactly⟩ := hooked_far_saved_iff_prefix environment targetFunction installation stolen
  have code := verbatim.rewriteAll_eq
  rw [exactly, TrampolineBuilder.emittedCode, TrampolineBuilder.emittedAfter_eq,
    TrampolineBuilder.collected_eq _ _ installation.reads
      (installation.stolenWithBlock environment stolen)]
  exact code ▸ List.prefix_append _ _

theorem hooked_far_saved_of_reproduced
    (reproduced : TrampolineBuilder.Reproduced zydis environment.leftover originalFunction 0 0
      stolen.instructions) :
    (hooked .far zydis environment lib originalFunction targetFunction trampoline).memory.read
      trampoline size = lib.memory.read originalFunction size := by
  refine hooked_far_saved_of_verbatim installation stolen ?_
  have verbatim := reproduced.verbatim (TrampolineBuilder.buildStart_located zydis environment.leftover
    (lib.withBlock environment trampoline 0x1000).memory originalFunction size trampoline
    targetFunction)
  rwa [BitVec.add_zero] at verbatim

theorem hooked_far_saved_iff (decodesBack : zydis.DecodesBack)
    (succeeds : TrampolineBuilder.BuildSucceeds zydis environment.leftover
      (lib.withBlock environment trampoline 0x1000).memory originalFunction size trampoline
      targetFunction) :
    (hooked .far zydis environment lib originalFunction targetFunction trampoline).memory.read
        trampoline size = lib.memory.read originalFunction size ↔
      TrampolineBuilder.Reproduced zydis environment.leftover originalFunction 0 0
        stolen.instructions := by
  refine ⟨fun same => ?_, hooked_far_saved_of_reproduced installation stolen⟩
  obtain ⟨tail, exactly⟩ := hooked_far_saved_iff_prefix environment targetFunction installation stolen
  have collected := TrampolineBuilder.collected_eq environment.leftover trampoline
    installation.reads (installation.stolenWithBlock environment stolen)
  have located := TrampolineBuilder.buildStart_located zydis environment.leftover
    (lib.withBlock environment trampoline 0x1000).memory originalFunction size trampoline
    targetFunction
  unfold TrampolineBuilder.BuildSucceeds at succeeds
  rw [collected] at succeeds
  rw [exactly, TrampolineBuilder.emittedCode, TrampolineBuilder.emittedAfter_eq, collected] at same
  exact TrampolineBuilder.reproduced_of_prefix installation.reads decodesBack located
    (by rw [BitVec.add_zero]; exact succeeds) (by rw [BitVec.add_zero]; exact same)

end Far

/-- A hook that was just made is undone on the near path exactly when no stolen instruction has a
displacement to relocate (or the trampoline is out of reach of `relocate`), and on the far path
when the encoder reproduces the stolen instructions; there this is necessary if no call fails. -/
theorem removeHook_restores_iff (reads : zydis.ReadsInstruction .long64)
    (inside : zydis.DisplacementInside .long64) (fields : zydis.RelativeDisplacement .long64)
    (decodes : PrefixDecodes zydis lib.memory originalFunction path.neededSize)
    (measured : computeHookSize zydis lib.memory originalFunction path.neededSize = size)
    (chosen : chosenBlock environment originalFunction = some (some (path, trampoline)))
    (fresh : Disjoint (span originalFunction size) (span trampoline path.blockSize))
    (absent : lib.activeHooks originalFunction = none)
    (stolen : Stolen zydis lib.memory originalFunction path.neededSize size) :
    ∃ after,
      applyHookX64 zydis environment lib originalFunction targetFunction =
        some (after, some trampoline) ∧
      (path = .near →
        (Restored (span trampoline path.blockSize) lib
            (removeHook environment after originalFunction) ↔
          2 ^ 31 < absDelta originalFunction trampoline ∨
          ∀ instruction ∈ stolen.instructions, instruction.item.info.isRelative = true →
            instruction.item.info.disp.size = 0)) ∧
      (path = .far →
        let reproduced := TrampolineBuilder.Reproduced zydis environment.leftover originalFunction
          0 0 stolen.instructions
        (reproduced → Restored (span trampoline path.blockSize) lib
          (removeHook environment after originalFunction)) ∧
        (zydis.DecodesBack →
          TrampolineBuilder.BuildSucceeds zydis environment.leftover
            (lib.withBlock environment trampoline 0x1000).memory originalFunction size trampoline
            targetFunction →
          (Restored (span trampoline path.blockSize) lib
            (removeHook environment after originalFunction) ↔ reproduced))) := by
  have installation : Installation path zydis lib originalFunction trampoline size :=
    ⟨reads, decodes, measured, fresh⟩
  refine ⟨_, applyHookX64_of_chosenBlock _ _ _ chosen, ?_, ?_⟩
  · rintro rfl
    rw [removeHook_hooked_iff installation inside absent]
    exact hooked_near_saved_iff installation stolen inside fields
  · rintro rfl reproduced
    refine ⟨fun same => ?_, fun decodesBack succeeds => ?_⟩
    · rw [removeHook_hooked_iff installation inside absent]
      exact hooked_far_saved_of_reproduced installation stolen same
    · rw [removeHook_hooked_iff installation inside absent]
      exact hooked_far_saved_iff installation stolen decodesBack succeeds

/-- Near `NOP`s, and a far jump that is as long as the way to its entry. -/
theorem removeHook_restores_jump :
    let jump : subset.Instruction .long64 := Subset.Form.jmp.instruction [0x5B, 0, 0, 0] rfl
    let nop : subset.Instruction .long64 := Subset.Form.nop.instruction [] rfl
    let near := HookLib.holding 0x140001000 (blockBytes (List.replicate 5 nop))
    let far := HookLib.holding 0x140001000 (blockBytes (jump :: List.replicate 9 nop))
    (∃ after,
      applyHookX64 subset (.granting true 0) near 0x140001000 0x150000000 =
        some (after, some 0x140010000) ∧
      Restored (span 0x140010000 0x500) near (removeHook (.granting true 0) after 0x140001000)) ∧
    ∃ after,
      applyHookX64 subset (.granting false 0x20000000000) far 0x140001000 0x150000000 =
        some (after, some 0x20000000000) ∧
      Restored (span 0x20000000000 0x1000) far
        (removeHook (.granting false 0x20000000000) after 0x140001000) := by
  intro jump nop near far
  have measured : computeHookSize subset near.memory 0x140001000 5 = 5 := by decide +kernel
  have decodes : PrefixDecodes subset near.memory 0x140001000 5 :=
    computeHookSize_reaches.mp (Nat.le_of_eq measured.symm)
  have chosen : chosenBlock (.granting true 0) 0x140001000 = some (some (.near, 0x140010000)) :=
    chosenBlock_granting_near (by decide)
  have measuredFar : computeHookSize subset far.memory 0x140001000 14 = 14 := by decide +kernel
  have decodesFar : PrefixDecodes subset far.memory 0x140001000 14 :=
    computeHookSize_reaches.mp (Nat.le_of_eq measuredFar.symm)
  have chosenFar : chosenBlock (.granting false 0x20000000000) 0x140001000 =
      some (some (.far, 0x20000000000)) := chosenBlock_granting_far (by decide)
  obtain ⟨after, applied, restores, _⟩ := removeHook_restores_iff Subset.readsInstruction
    Subset.displacementInside Subset.relativeDisplacement decodes measured chosen
    (span_disjoint (by decide) (by decide)) rfl
    (Stolen.ofHolding 0x140001000 (List.replicate 5 nop) (by decide) (by decide))
  obtain ⟨afterFar, appliedFar, _, restoresFar⟩ := removeHook_restores_iff
    Subset.readsInstruction Subset.displacementInside Subset.relativeDisplacement decodesFar
    measuredFar chosenFar (span_disjoint (by decide) (by decide)) rfl
    (Stolen.ofHolding 0x140001000 (jump :: List.replicate 9 nop) (by decide) (by decide))
  refine ⟨⟨after, applied, (restores rfl).mpr (.inr ?_)⟩, afterFar, appliedFar,
    (restoresFar rfl).1 (by decide +kernel)⟩
  intro instruction member _
  rw [List.eq_of_mem_replicate member]
  rfl

/-- `MOV RAX, [RIP + 0x10]` comes back with the displacement of its copy. -/
theorem removeHook_leaves_displacement :
    let lib := HookLib.holding 0x140001000 [0x48, 0x8B, 0x05, 0x10, 0, 0, 0]
    let environment := Environment.granting true 0
    lib.activeHooks 0x140001000 = none ∧
    PrefixDecodes subset lib.memory 0x140001000 5 ∧
    chosenBlock environment 0x140001000 = some (some (.near, 0x140010000)) ∧
    Disjoint (span (0x140001000 : BitVec 64) 7) (span 0x140010000 0x500) ∧
    ∃ after,
      applyHookX64 subset environment lib 0x140001000 0x150000000 =
        some (after, some 0x140010000) ∧
      ¬Restored (span 0x140010000 0x500) lib (removeHook environment after 0x140001000) := by
  intro lib environment
  let mov : subset.Instruction .long64 := Subset.Form.movRaxRip.instruction [0x10, 0, 0, 0] rfl
  have measured : computeHookSize subset lib.memory 0x140001000 5 = 7 := by decide +kernel
  have decodes : PrefixDecodes subset lib.memory 0x140001000 5 :=
    computeHookSize_reaches.mp (by rw [measured]; decide)
  have chosen : chosenBlock environment 0x140001000 = some (some (.near, 0x140010000)) :=
    chosenBlock_granting_near (by decide)
  have fresh : Disjoint (span (0x140001000 : BitVec 64) 7) (span 0x140010000 0x500) :=
    span_disjoint (by decide) (by decide)
  have installation : Installation .near subset lib 0x140001000 0x140010000 7 :=
    ⟨Subset.readsInstruction, decodes, measured, fresh⟩
  refine ⟨rfl, decodes, chosen, fresh, _, applyHookX64_of_chosenBlock _ _ _ chosen, ?_⟩
  intro restored
  have same := (removeHook_hooked_iff installation Subset.displacementInside rfl).mp restored
  rcases (hooked_near_saved_iff installation
    (Stolen.ofHolding 0x140001000 [mov] (by decide) (by decide)) Subset.displacementInside
    Subset.relativeDisplacement).mp same with far | plain
  · exact absurd far (by decide)
  · cases plain mov List.mem_cons_self Subset.Form.decoded_isRelative

end Detours.HookLib

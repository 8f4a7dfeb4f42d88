import Detours.HookLib.Granting
import Detours.HookLib.Near
import Detours.Zydis.OneByte

namespace Detours

open Detours.Bytes Detours.Decoding Detours.Machine Detours.Zydis

theorem read_eq_replicate_iff {w count : Nat} {memory : Memory w} {base : BitVec w} {value : Byte} :
    memory.read base count = List.replicate count value ↔
      ∀ index, index < count → memory (base + BitVec.ofNat w index) = value := by
  rw [List.eq_replicate_iff]
  simp only [Memory.read_length, true_and]
  constructor
  · intro all index inside
    exact all _ (List.mem_of_getElem? (Memory.read_getElem? inside))
  · intro all byte member
    obtain ⟨index, found⟩ := List.mem_iff_getElem?.mp member
    have inside : index < count := by
      have bound := (List.getElem?_eq_some_iff.mp found).1
      rwa [Memory.read_length] at bound
    rw [Memory.read_getElem? inside, Option.some.injEq] at found
    rw [← found, all index inside]

namespace HookLib

section Definitions

variable {w : Nat}

def x86Trampoline (memory : Memory w) (originalFunction trampoline : BitVec w) (size : Nat) :
    Memory w :=
  placeJump (memory.write trampoline (memory.read originalFunction size))
    (trampoline + BitVec.ofNat w size) (originalFunction + BitVec.ofNat w size)

/-- The memory when the function is patched: the block is allocated, filled and relocated. -/
def x86Prepared (zydis : Api) (environment : Environment w) (lib : HookLib w)
    (originalFunction trampoline : BitVec w) (size : Nat) : Memory w :=
  (relocate zydis (x86Trampoline (lib.withBlock environment trampoline (size + 5)).memory
    originalFunction trampoline size) trampoline originalFunction size).1

/-- Only the stolen bytes and the block change, and the stolen bytes become a jump to the
target and `NOP`s. -/
def PatchesStolen (zydis : Api) (environment : Environment 32) (lib : HookLib 32)
    (originalFunction targetFunction trampoline : BitVec 32) : Prop :=
  let size := computeHookSize zydis lib.memory originalFunction 5
  let after := (applyHookX86 zydis environment lib originalFunction targetFunction).1.memory
  Memory.ChangesOnly (span originalFunction size ∪ span trampoline (size + 5)) lib.memory after ∧
  after.read originalFunction size =
    jumpRel32 (targetFunction - (originalFunction + 5)) ++ List.replicate (size - 5) 0x90

end Definitions

variable {zydis : Api} {environment : Environment 32} {lib : HookLib 32} {memory : Memory 32}
  {originalFunction targetFunction trampoline : BitVec 32} {size : Nat}

theorem applyHookX86_memory
    (granted : environment.virtualAlloc 0
      (computeHookSize zydis lib.memory originalFunction 5 + 5) = some trampoline) :
    (applyHookX86 zydis environment lib originalFunction targetFunction).1.memory =
      x86Patch originalFunction targetFunction
        (computeHookSize zydis lib.memory originalFunction 5)
        (x86Prepared zydis environment lib originalFunction trampoline
          (computeHookSize zydis lib.memory originalFunction 5)) := by
  rw [applyHookX86, virtualAlloc_some granted]
  rfl

/-- The fill starts behind the stolen bytes, not behind the jump. -/
theorem x86Patch_eq (covers : 5 ≤ size) (small : size < 32) :
    x86Patch originalFunction targetFunction size memory =
      (memory.write originalFunction (jumpRel32 (targetFunction - (originalFunction + 5)))).fill
        (originalFunction + BitVec.ofNat 32 size) 0x90 (size - 5) := by
  rw [x86Patch, placeJump, storeJump_eq (by decide), fillLength_eq covers (by omega),
    BitVec.setWidth_eq]

section Patch

variable (originalFunction targetFunction) (memory) (covers : 5 ≤ size) (small : size < 32)

include covers small

theorem x86Patch_read :
    (x86Patch originalFunction targetFunction size memory).read originalFunction size =
      jumpRel32 (targetFunction - (originalFunction + 5)) ++
        memory.read (originalFunction + 5) (size - 5) := by
  have jump := jumpRel32_length (targetFunction - (originalFunction + 5))
  have split : size = 5 + (size - 5) := by omega
  rw [x86Patch_eq covers small, Memory.fill_changesOnly.read_eq (by omega) (span_disjoint_add _
    (Nat.le_refl _) (by omega))]
  conv_lhs => rw [split]
  rw [Memory.read_add, Memory.read_write_of_length _ _ jump (by decide)]
  congr 1
  apply (Memory.write_changesOnly_of_length jump).read_eq (by omega)
  exact (span_disjoint_add 5 (Nat.le_refl 5) (by omega)).symm

theorem x86Patch_apply {address : BitVec 32} (outside : address ∉ span originalFunction size) :
    x86Patch originalFunction targetFunction size memory address =
      if address ∈ span (originalFunction + BitVec.ofNat 32 size) (size - 5) then 0x90
      else memory address := by
  have jump := jumpRel32_length (targetFunction - (originalFunction + 5))
  rw [x86Patch_eq covers small, Memory.fill,
    Memory.write_changesOnly_of_length jump address fun inside =>
      outside (span_mono covers inside)]
  rfl

variable {originalFunction targetFunction} {memory}

theorem x86Patch_stolen_iff :
    (x86Patch originalFunction targetFunction size memory).read originalFunction size =
        jumpRel32 (targetFunction - (originalFunction + 5)) ++ List.replicate (size - 5) 0x90 ↔
      ∀ index, 5 ≤ index → index < size →
        memory (originalFunction + BitVec.ofNat 32 index) = 0x90 := by
  rw [x86Patch_read _ _ _ covers small, List.append_cancel_left_eq, read_eq_replicate_iff]
  constructor
  · intro nops index behind inside
    have nop := nops (index - 5) (by omega)
    change memory (originalFunction + BitVec.ofNat 32 5 + _) = _ at nop
    rwa [BitVec.add_assoc, ← BitVec.ofNat_add, Nat.add_sub_cancel' behind] at nop
  · intro nops index inside
    change memory (originalFunction + BitVec.ofNat 32 5 + _) = _
    rw [BitVec.add_assoc, ← BitVec.ofNat_add]
    exact nops (5 + index) (by omega) (by omega)

theorem x86Patch_changesOnly_iff {before : Memory 32} {block : Set (BitVec 32)}
    (prepared : Memory.ChangesOnly block before memory) :
    Memory.ChangesOnly (span originalFunction size ∪ block) before
        (x86Patch originalFunction targetFunction size memory) ↔
      ∀ index, size ≤ index → index < 2 * size - 5 →
        originalFunction + BitVec.ofNat 32 index ∉ block →
        before (originalFunction + BitVec.ofNat 32 index) = 0x90 := by
  constructor
  · intro changes index behind inside apart
    have outside : originalFunction + BitVec.ofNat 32 index ∉ span originalFunction size := by
      rw [add_ofNat_mem_span _ (by omega)]
      omega
    have filled : originalFunction + BitVec.ofNat 32 index ∈
        span (originalFunction + BitVec.ofNat 32 size) (size - 5) := by
      rw [mem_span, add_ofNat_sub_add_ofNat behind (by omega)]
      omega
    have same := changes _ (not_or.mpr ⟨outside, apart⟩)
    rw [x86Patch_apply _ _ _ covers small outside, if_pos filled] at same
    exact same.symm
  · intro nops address outside
    obtain ⟨stolen, apart⟩ := not_or.mp outside
    rw [x86Patch_apply _ _ _ covers small stolen]
    split
    · rename_i filled
      obtain ⟨index, inside, _, rfl⟩ := exists_offset filled
      rw [BitVec.add_assoc, ← BitVec.ofNat_add] at apart ⊢
      exact (nops (size + index) (by omega) (by omega) apart).symm
    · exact prepared address apart

end Patch

section Prepared

variable (environment lib originalFunction trampoline)

theorem x86Prepared_changesOnly (reads : zydis.ReadsInstruction .legacy32)
    (inside : zydis.DisplacementInside .legacy32) (small : size < 32) :
    Memory.ChangesOnly (span trampoline (size + 5)) lib.memory
      (x86Prepared zydis environment lib originalFunction trampoline size) := by
  have front : span trampoline size ⊆ span trampoline (size + 5) := span_mono (by omega)
  let zeroed := (lib.withBlock environment trampoline (size + 5)).memory
  have filled : Memory.ChangesOnly (span trampoline (size + 5)) lib.memory zeroed :=
    Memory.fill_changesOnly
  have copied : Memory.ChangesOnly (span trampoline (size + 5)) zeroed
      (zeroed.write trampoline (zeroed.read originalFunction size)) :=
    (Memory.write_changesOnly_of_length Memory.read_length).mono front
  have jump : Memory.ChangesOnly (span trampoline (size + 5))
      (zeroed.write trampoline (zeroed.read originalFunction size))
      (x86Trampoline zeroed originalFunction trampoline size) := by
    rw [x86Trampoline, placeJump, storeJump_eq (by decide)]
    exact (Memory.write_changesOnly_of_length (jumpRel32_length _)).mono
      (span_add_subset size (Nat.le_refl _) (by omega))
  have moved : Memory.ChangesOnly (span trampoline (size + 5))
      (x86Trampoline zeroed originalFunction trampoline size)
      (x86Prepared zydis environment lib originalFunction trampoline size) :=
    (relocate_changesOnly (w := 32) reads inside (by omega)).mono front
  exact ((filled.trans copied).trans jump).trans moved

theorem x86Trampoline_read (small : size < 32)
    (fresh : Disjoint (span originalFunction size) (span trampoline (size + 5))) :
    (x86Trampoline (lib.withBlock environment trampoline (size + 5)).memory originalFunction
      trampoline size).read trampoline size = lib.memory.read originalFunction size := by
  rw [x86Trampoline, placeJump, storeJump_eq (by decide),
    (Memory.write_changesOnly_of_length (jumpRel32_length _)).read_eq (by omega)
      (span_disjoint_add size (Nat.le_refl _) (by omega)),
    Memory.read_write_of_length _ _ Memory.read_length (by omega)]
  exact Memory.fill_changesOnly.read_eq (by omega) fresh

end Prepared

theorem x86_small (reads : zydis.ReadsInstruction .long64) :
    computeHookSize zydis lib.memory originalFunction 5 < 32 := by
  obtain ⟨stolen⟩ := stolen_exists lib.memory originalFunction 5 reads
  exact Nat.lt_of_lt_of_le stolen.size_lt (by decide)

theorem patchesStolen_iff (reads : zydis.ReadsInstruction .long64)
    (reads32 : zydis.ReadsInstruction .legacy32) (inside : zydis.DisplacementInside .legacy32)
    (measured : computeHookSize zydis lib.memory originalFunction 5 = size) (covers : 5 ≤ size)
    (granted : environment.virtualAlloc 0 (size + 5) = some trampoline) :
    PatchesStolen zydis environment lib originalFunction targetFunction trampoline ↔
      (∀ index, 5 ≤ index → index < size →
        x86Prepared zydis environment lib originalFunction trampoline size
          (originalFunction + BitVec.ofNat 32 index) = 0x90) ∧
      ∀ index, size ≤ index → index < 2 * size - 5 →
        originalFunction + BitVec.ofNat 32 index ∉ span trampoline (size + 5) →
        lib.memory (originalFunction + BitVec.ofNat 32 index) = 0x90 := by
  have small : size < 32 := measured ▸ x86_small reads
  have prepared := x86Prepared_changesOnly environment lib originalFunction trampoline reads32
    inside small
  unfold PatchesStolen
  dsimp only
  rw [applyHookX86_memory (by rwa [measured]), measured]
  exact and_comm.trans
    (and_congr (x86Patch_stolen_iff covers small) (x86Patch_changesOnly_iff covers small prepared))

/-- The 32-bit hook patches what it stole, and nothing else, exactly when the `NOP`s it needs
behind the jump and those it writes behind the stolen bytes are there already: for a function
of exactly five stolen bytes always. With a block apart from the function these bytes are
those before the call. -/
theorem applyHookX86_patchesStolen_iff (reads : zydis.ReadsInstruction .long64)
    (reads32 : zydis.ReadsInstruction .legacy32) (inside : zydis.DisplacementInside .legacy32)
    (covers : 5 ≤ computeHookSize zydis lib.memory originalFunction 5)
    (granted : environment.virtualAlloc 0
      (computeHookSize zydis lib.memory originalFunction 5 + 5) = some trampoline) :
    let size := computeHookSize zydis lib.memory originalFunction 5
    let patches := PatchesStolen zydis environment lib originalFunction targetFunction trampoline
    (patches ↔
      (∀ index, 5 ≤ index → index < size →
        x86Prepared zydis environment lib originalFunction trampoline size
          (originalFunction + BitVec.ofNat 32 index) = 0x90) ∧
      ∀ index, size ≤ index → index < 2 * size - 5 →
        originalFunction + BitVec.ofNat 32 index ∉ span trampoline (size + 5) →
        lib.memory (originalFunction + BitVec.ofNat 32 index) = 0x90) ∧
    (Disjoint (span originalFunction size) (span trampoline (size + 5)) →
      (patches ↔ ∀ index, 5 ≤ index → index < 2 * size - 5 →
        originalFunction + BitVec.ofNat 32 index ∉ span trampoline (size + 5) →
        lib.memory (originalFunction + BitVec.ofNat 32 index) = 0x90)) := by
  intro size patches
  have exactly : patches ↔ _ ∧ _ := patchesStolen_iff reads reads32 inside rfl covers granted
  refine ⟨exactly, fun fresh => exactly.trans ?_⟩
  have small : size < 32 := x86_small reads
  have prepared := x86Prepared_changesOnly environment lib originalFunction trampoline reads32
    inside small
  have stolenApart (index : Nat) (inside : index < size) :
      originalFunction + BitVec.ofNat 32 index ∉ span trampoline (size + 5) :=
    Set.disjoint_left.mp fresh ((add_ofNat_mem_span _ (by omega)).mpr inside)
  constructor
  · intro both index behind below apart
    rcases Nat.lt_or_ge index size with stolen | beyond
    · rw [← prepared _ apart]
      exact both.1 index behind stolen
    · exact both.2 index beyond below apart
  · intro nops
    refine ⟨fun index behind stolen => ?_, fun index beyond => nops index (by omega)⟩
    rw [prepared _ (stolenApart index stolen)]
    exact nops index behind (by omega) (stolenApart index stolen)

/-- `PUSH EAX; MOV EAX, 0x90000001; NOP`: what is filled is filled already. -/
theorem applyHookX86_patchesStolen_push :
    let lib := HookLib.holding (0x401000 : BitVec 32) [0x50, 0xB8, 1, 0, 0, 0x90, 0x90]
    computeHookSize oneByte lib.memory 0x401000 5 = 6 ∧
    PatchesStolen oneByte (.granting false 0x500000) lib 0x401000 0x402000 0x500000 := by
  intro lib
  have measured : computeHookSize oneByte lib.memory 0x401000 5 = 6 := by decide +kernel
  have sixth : lib.memory 0x401005 = 0x90 := by decide +kernel
  have behindStolen : lib.memory 0x401006 = 0x90 := by decide +kernel
  refine ⟨measured, ((applyHookX86_patchesStolen_iff (OneByte.readsInstruction _)
    (OneByte.readsInstruction _) (OneByte.displacementInside _) (by rw [measured]; decide)
    granting_virtualAlloc_zero).2 ?_).mpr ?_⟩
  · rw [measured]
    exact span_disjoint (by decide) (by decide)
  · intro index behind below _
    rw [measured] at below
    obtain rfl | rfl : index = 5 ∨ index = 6 := by omega
    · exact sixth
    · exact behindStolen

/-- `PUSH EAX; MOV EAX, 1; RET`: the last stolen byte stays, and the return behind the stolen
bytes is overwritten. -/
theorem applyHookX86_patches_behind :
    let lib := HookLib.holding (0x401000 : BitVec 32) [0x50, 0xB8, 1, 0, 0, 0, 0xC3]
    let environment := Environment.granting false (0x500000 : BitVec 32)
    let after := (applyHookX86 oneByte environment lib 0x401000 0x402000).1
    computeHookSize oneByte lib.memory 0x401000 5 = 6 ∧
    environment.virtualAlloc 0 11 = some 0x500000 ∧
    after.memory.read 0x401000 7 = [0xE9, 0xFB, 0x0F, 0, 0, 0, 0x90] ∧
    ¬PatchesStolen oneByte environment lib 0x401000 0x402000 0x500000 := by
  intro lib environment after
  have measured : computeHookSize oneByte lib.memory 0x401000 5 = 6 := by decide +kernel
  have left : after.memory.read 0x401000 7 = [0xE9, 0xFB, 0x0F, 0, 0, 0, 0x90] := by decide +kernel
  refine ⟨measured, granting_virtualAlloc_zero, left, fun patches => ?_⟩
  have stolen := patches.2
  rw [measured] at stolen
  change after.memory.read 0x401000 6 = _ at stolen
  rw [← Memory.take_read (show 6 ≤ 7 by decide), left] at stolen
  revert stolen
  decide

end HookLib

end Detours

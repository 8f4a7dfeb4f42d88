import Detours.HookLib.Removal
import Detours.HookLib.Runs
import Detours.TrampolineBuilder.Locality

namespace Detours

open Detours.Bytes Detours.Decoding Detours.Zydis

theorem relocate_eqOn {w size : Nat} {zydis : Api} {left right : Memory w}
    {trampolineBase originalBase : BitVec w} {region : Set (BitVec w)}
    (same : Set.EqOn left right region) (reads : zydis.ReadsInstruction (buildMode w))
    (inside : zydis.DisplacementInside (buildMode w)) (room : size ≤ 2 ^ w)
    {instructions : List (zydis.Instruction (buildMode w))}
    (leftContent : left.read trampolineBase size = blockBytes instructions)
    (rightContent : right.read trampolineBase size = blockBytes instructions) :
    Set.EqOn (relocate zydis left trampolineBase originalBase size).1
      (relocate zydis right trampolineBase originalBase size).1 region := by
  by_cases near : absDelta originalBase trampolineBase ≤ 2 ^ 31
  · rw [relocate_block reads inside room instructions leftContent near,
      relocate_block reads inside room instructions rightContent near]
    exact Memory.eqOn_write same _ _
  · rw [relocate_of_far (Nat.lt_of_not_le near), relocate_of_far (Nat.lt_of_not_le near)]
    exact same

namespace HookLib

variable {path : Path} {zydis : Api} {lib start : HookLib 64}
  {originalFunction trampoline : BitVec 64} {size : Nat}

section Same

variable (installation : Installation path zydis start originalFunction trampoline size)
  (same : Set.EqOn lib.memory start.memory (span originalFunction size))

include installation same

theorem Installation.transfer : Installation path zydis lib originalFunction trampoline size := by
  have small := installation.small
  have changes : Memory.ChangesOnly (span originalFunction size)ᶜ start.memory lib.memory :=
    fun address inside => same (Set.notMem_compl_iff.mp inside)
  refine .of_covers installation.reads ?_ installation.covers installation.fresh
  obtain rfl := installation.measured
  unfold stolenSize at changes small ⊢
  exact computeHookSize_congr installation.reads installation.decodes changes (by omega)
    disjoint_compl_right

/-- What a call leaves in the function and in its block depends on the stolen bytes only. -/
theorem hooked_eqOn (environment : Environment 64) (targetFunction : BitVec 64)
    (inside : zydis.DisplacementInside .long64) :
    Set.EqOn
      (hooked path zydis environment lib originalFunction targetFunction trampoline).memory
      (hooked path zydis environment start originalFunction targetFunction trampoline).memory
      (hookCode path originalFunction trampoline size) := by
  have small := installation.small
  have again : Installation path zydis lib originalFunction trampoline size :=
    installation.transfer same
  obtain ⟨stolen⟩ := installation.stolen
  have loaded : lib.memory.read originalFunction size = start.memory.read originalFunction size :=
    Memory.read_eqOn (by omega) same
  let stolenAgain : Stolen zydis lib.memory originalFunction path.neededSize size :=
    ⟨stolen.instructions, loaded.trans stolen.bytes, stolen.startsBelow⟩
  have blocked : Set.EqOn (lib.withBlock environment trampoline path.blockSize).memory
      (start.withBlock environment trampoline path.blockSize).memory
      (hookCode path originalFunction trampoline size) := Memory.eqOn_fill same
  cases path with
  | near =>
      have filled : Set.EqOn
          (nearTrampoline (lib.withBlock environment trampoline 0x500).memory originalFunction
            targetFunction trampoline size)
          (nearTrampoline (start.withBlock environment trampoline 0x500).memory originalFunction
            targetFunction trampoline size)
          (hookCode .near originalFunction trampoline size) := by
        have copied : (lib.withBlock environment trampoline 0x500).memory.read originalFunction size =
            (start.withBlock environment trampoline 0x500).memory.read originalFunction size :=
          Memory.read_eqOn (by omega) (blocked.mono Set.subset_union_left)
        rw [nearTrampoline_eq small, nearTrampoline_eq small, copied]
        exact Memory.eqOn_write (Memory.eqOn_write blocked _ _) _ _
      rw [hooked_near_memory _ _ again, hooked_near_memory _ _ installation]
      exact Memory.eqOn_write (relocate_eqOn (w := 64) filled installation.reads inside (by omega)
        (nearTrampoline_holds_stolen again stolenAgain)
        (nearTrampoline_holds_stolen installation stolen)) _ _
  | far =>
      rw [hooked_far_memory _ _ again, hooked_far_memory _ _ installation]
      exact Memory.eqOn_write (TrampolineBuilder.built_eqOn blocked installation.reads
        (again.stolenWithBlock environment stolenAgain)
        (installation.stolenWithBlock environment stolen) rfl) _ _

end Same

end HookLib

/-- A call of `apply_hook_x64` with its path, its block and the number of bytes it steals. -/
structure Request where
  environment : Environment 64
  originalFunction : BitVec 64
  targetFunction : BitVec 64
  path : Path
  trampoline : BitVec 64
  size : Nat

namespace Request

def call (request : Request) : Call :=
  .applyHookX64 request.environment request.originalFunction request.targetFunction

def code (request : Request) : Set (BitVec 64) :=
  HookLib.hookCode request.path request.originalFunction request.trampoline request.size

def block (request : Request) : Allocation 64 := ⟨request.trampoline, request.path.blockSize⟩

def alone (zydis : Api) (start : HookLib 64) (request : Request) : HookLib 64 :=
  HookLib.hooked request.path zydis request.environment start request.originalFunction
    request.targetFunction request.trampoline

def overlay (zydis : Api) (start : HookLib 64) (request : Request) : Overlay (BitVec 64) Byte :=
  ⟨request.code, (request.alone zydis start).memory⟩

structure Granted (zydis : Api) (start : HookLib 64) (request : Request) : Prop where
  chosen : HookLib.chosenBlock request.environment request.originalFunction =
    some (some (request.path, request.trampoline))
  installation : HookLib.Installation request.path zydis start request.originalFunction
    request.trampoline request.size
  absent : start.activeHooks request.originalFunction = none

/-- The process has the hooks of the requests, each as it would be alone, and no others. -/
structure Made (zydis : Api) (start : HookLib 64) (requests : List Request)
    (lib : HookLib 64) : Prop where
  overlaid : Overlaid (requests.map (overlay zydis start)) start.memory lib.memory
  entries : ∀ request ∈ requests, lib.activeHooks request.originalFunction =
    (request.alone zydis start).activeHooks request.originalFunction
  around : ∀ function, (∀ request ∈ requests, function ≠ request.originalFunction) →
    lib.activeHooks function = start.activeHooks function
  blocks : lib.allocations.Perm (requests.map block ++ start.allocations)

end Request

open HookLib

theorem Call.runAll_append {zydis : Api} {lib : HookLib 64} (front rest : List Call) :
    Call.runAll zydis lib (front ++ rest) =
      (Call.runAll zydis lib front).bind fun middle => Call.runAll zydis middle rest := by
  induction front generalizing lib with
  | nil => rfl
  | cons call front ih =>
      rw [List.cons_append, Call.runAll, Call.runAll, Option.bind_assoc]
      exact congrArg _ (funext fun _ => ih)

section Runs

variable {zydis : Api} {start : HookLib 64} {requests others : List Request}
  {request other : Request}

theorem Request.Granted.functions_ne (granted : request.Granted zydis start)
    (otherGranted : other.Granted zydis start) (apart : Disjoint request.code other.code) :
    request.originalFunction ≠ other.originalFunction := by
  intro same
  refine Set.disjoint_left.mp apart (.inl (base_mem_span granted.installation.pos)) (.inl ?_)
  rw [same]
  exact base_mem_span otherGranted.installation.pos

section Last

variable {middle : HookLib 64} {front : List Request} {last : Request}
  (made : Request.Made zydis start front middle)
  (away : ∀ request ∈ front, Disjoint request.code last.code)

include made away

theorem Request.Made.untouched : Set.EqOn middle.memory start.memory last.code :=
  made.overlaid.untouched fun overlay member => by
    obtain ⟨request, found, rfl⟩ := List.mem_map.mp member
    exact away request found

variable (own : last.Granted zydis start)

include own

theorem Request.Made.installation :
    Installation last.path zydis middle last.originalFunction last.trampoline last.size :=
  own.installation.transfer ((made.untouched away).mono Set.subset_union_left)

theorem Request.Made.overlaid_last (inside : zydis.DisplacementInside .long64) :
    Set.EqOn (last.alone zydis middle).memory (last.alone zydis start).memory last.code ∧
      Overlaid ((front ++ [last]).map (Request.overlay zydis start)) start.memory
        (last.alone zydis middle).memory := by
  have left := hooked_eqOn own.installation
    ((made.untouched away).mono Set.subset_union_left) last.environment last.targetFunction
    inside
  refine ⟨left, ?_⟩
  rw [List.map_append]
  refine made.overlaid.concat (fun overlay member => ?_) left
    (hooked_changesOnly last.environment last.targetFunction (made.installation away own) inside)
  obtain ⟨request, found, rfl⟩ := List.mem_map.mp member
  exact away request found

theorem Request.Made.concat (inside : zydis.DisplacementInside .long64)
    (granted : ∀ request ∈ front, request.Granted zydis start) :
    Request.Made zydis start (front ++ [last]) (last.alone zydis middle) := by
  have small := own.installation.small
  have different (request : Request) (member : request ∈ front) :
      request.originalFunction ≠ last.originalFunction :=
    (granted request member).functions_ne own (away request member)
  obtain ⟨left, overlaid⟩ := made.overlaid_last away own inside
  have hooks : (last.alone zydis middle).activeHooks = _ :=
    hooked_activeHooks last.environment last.targetFunction (made.installation away own)
  have within : last.size ≤ last.path.blockSize := by
    cases last.path <;> simp only [Path.blockSize] <;> omega
  have saved : (last.alone zydis middle).memory.read last.trampoline last.size =
      (last.alone zydis start).memory.read last.trampoline last.size :=
    Memory.read_eqOn (by omega)
      (left.mono ((span_mono within).trans Set.subset_union_right))
  refine ⟨overlaid, ?entries, ?around, ?blocks⟩
  case entries =>
    intro request member
    rcases List.mem_append.mp member with old | new
    · rw [hooks, HookMap.insert_other (different request old), made.entries request old]
    · obtain rfl := List.mem_singleton.mp new
      have absent : middle.activeHooks request.originalFunction = none :=
        (made.around _ fun other found => (different other found).symm).trans own.absent
      have alone : (request.alone zydis start).activeHooks = _ :=
        hooked_activeHooks request.environment request.targetFunction own.installation
      rw [hooks, HookMap.insert_self absent, alone, HookMap.insert_self own.absent]
      exact congrArg (fun bytes => some (Hook.mk request.trampoline bytes)) saved
  case around =>
    intro function outside
    rw [hooks, HookMap.insert_other (outside last (List.mem_append_right _ List.mem_cons_self))]
    exact made.around function fun request member =>
      outside request (List.mem_append_left _ member)
  case blocks =>
    rw [Request.alone, hooked_allocations, List.map_append, List.append_assoc]
    exact (made.blocks.cons _).trans List.perm_middle.symm

end Last

theorem runAll_requests (inside : zydis.DisplacementInside .long64)
    (granted : ∀ request ∈ requests, request.Granted zydis start)
    (apart : requests.Pairwise fun first second => Disjoint first.code second.code) :
    ∃ lib, Call.runAll zydis start (requests.map Request.call) = some lib ∧
      Request.Made zydis start requests lib := by
  induction requests using List.reverseRecOn with
  | nil => exact ⟨start, rfl, .nil _, nofun, fun _ _ => rfl, .refl _⟩
  | append_singleton front last ih =>
      have own := granted last (List.mem_append_right _ List.mem_cons_self)
      have before (request : Request) (member : request ∈ front) : request.Granted zydis start :=
        granted request (List.mem_append_left _ member)
      rw [List.pairwise_append] at apart
      have away (request : Request) (member : request ∈ front) :
          Disjoint request.code last.code :=
        apart.2.2 request member last List.mem_cons_self
      obtain ⟨middle, ran, made⟩ := ih before apart.1
      refine ⟨last.alone zydis middle, ?_, made.concat away own inside before⟩
      rw [List.map_append, Call.runAll_append, ran, Option.bind_some, List.map_singleton,
        Call.runAll, Request.call, Call.run_of_chosenBlock own.chosen, Option.bind_some]
      rfl

theorem Request.Made.unique {lib again : HookLib 64} (made : Request.Made zydis start requests lib)
    (madeAgain : Request.Made zydis start others again) (order : requests.Perm others) :
    again.memory = lib.memory ∧ again.activeHooks = lib.activeHooks ∧
      again.allocations.Perm lib.allocations := by
  refine ⟨madeAgain.overlaid.unique made.overlaid (order.symm.map _), ?_, ?_⟩
  · funext function
    by_cases known : ∃ request ∈ requests, function = request.originalFunction
    · obtain ⟨request, member, rfl⟩ := known
      rw [made.entries request member, madeAgain.entries request (order.mem_iff.mp member)]
    · push Not at known
      rw [made.around function known, madeAgain.around function fun request member =>
        known request (order.mem_iff.mpr member)]
  · exact madeAgain.blocks.trans ((((order.symm.map _).append_right _)).trans made.blocks.symm)

/-- Every order of the calls gives the same code, the same trampolines and the same entries, and
each hook is byte for byte the one that its call makes in a process without the others. -/
theorem applyHookX64_any_order (inside : zydis.DisplacementInside .long64)
    (granted : ∀ request ∈ requests, request.Granted zydis start)
    (apart : requests.Pairwise fun first second => Disjoint first.code second.code)
    (order : requests.Perm others) :
    ∃ lib again, Call.runAll zydis start (requests.map Request.call) = some lib ∧
      Call.runAll zydis start (others.map Request.call) = some again ∧
      again.memory = lib.memory ∧ again.activeHooks = lib.activeHooks ∧
      again.allocations.Perm lib.allocations ∧
      ∀ request ∈ requests,
        Set.EqOn lib.memory (request.alone zydis start).memory request.code ∧
        lib.activeHooks request.originalFunction =
          (request.alone zydis start).activeHooks request.originalFunction := by
  obtain ⟨lib, ran, made⟩ := runAll_requests inside granted apart
  obtain ⟨again, ranAgain, madeAgain⟩ :=
    runAll_requests inside (fun request member => granted request (order.mem_iff.mpr member))
      ((order.pairwise_iff fun disjoint => disjoint.symm).mp apart)
  obtain ⟨memory, hooks, blocks⟩ := made.unique madeAgain order
  exact ⟨lib, again, ran, ranAgain, memory, hooks, blocks, fun request member =>
    ⟨made.overlaid.content _ (List.mem_map_of_mem member), made.entries request member⟩⟩

theorem applyHookX64_any_order_neighbours :
    let start := HookLib.holding 0x140001000 (List.replicate 19 0x90)
    let near := Call.applyHookX64 (.granting true 0) 0x140001000 0x150000000
    let far := Call.applyHookX64 (.granting false 0x20000000000) 0x140001005 0x160000000
    ∃ lib again, Call.runAll subset start [near, far] = some lib ∧
      Call.runAll subset start [far, near] = some again ∧
      again.memory = lib.memory ∧ again.activeHooks = lib.activeHooks := by
  intro start near far
  let first : Request := ⟨.granting true 0, 0x140001000, 0x150000000, .near, 0x140010000, 5⟩
  let second : Request :=
    ⟨.granting false 0x20000000000, 0x140001005, 0x160000000, .far, 0x20000000000, 14⟩
  have chosen : chosenBlock (.granting true 0) 0x140001000 = some (some (.near, 0x140010000)) :=
    chosenBlock_granting_near (by decide)
  have installation : Installation .near subset start 0x140001000 0x140010000 5 :=
    .of_covers Subset.readsInstruction (by decide +kernel) (by decide)
      (span_disjoint (by decide) (by decide))
  have chosenFar : chosenBlock (.granting false 0x20000000000) 0x140001005 =
      some (some (.far, 0x20000000000)) := chosenBlock_granting_far (by decide)
  have installationFar : Installation .far subset start 0x140001005 0x20000000000 14 :=
    .of_covers Subset.readsInstruction (by decide +kernel) (by decide)
      (span_disjoint (by decide) (by decide))
  have firstGranted : first.Granted subset start := ⟨chosen, installation, rfl⟩
  have secondGranted : second.Granted subset start := ⟨chosenFar, installationFar, rfl⟩
  have apart : Disjoint first.code second.code := by
    refine Set.disjoint_union_left.mpr ⟨Set.disjoint_union_right.mpr ⟨?_, ?_⟩,
      Set.disjoint_union_right.mpr ⟨?_, ?_⟩⟩ <;> exact span_disjoint (by decide) (by decide)
  obtain ⟨lib, again, ran, ranAgain, memory, hooks, _⟩ :=
    applyHookX64_any_order Subset.displacementInside
      (List.forall_mem_cons.mpr ⟨firstGranted, List.forall_mem_singleton.mpr secondGranted⟩)
      (List.pairwise_pair.mpr apart) (.swap second first [])
  exact ⟨lib, again, ran, ranAgain, memory, hooks⟩

end Runs

end Detours

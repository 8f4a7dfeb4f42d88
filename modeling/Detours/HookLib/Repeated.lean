import Detours.Bytes.Overlays
import Detours.HookLib.NearTransparency
import Detours.HookLib.RelocatedBranches
import Detours.HookLib.Runs
import Detours.Zydis.Subset

namespace Detours.HookLib

open Detours.Bytes Detours.Decoding Detours.Machine Detours.Zydis

/-- `E9` and its operand are an instruction without a displacement. -/
def DecodesJump (zydis : Api) : Prop :=
  ∀ disp, ∃ decoded, zydis.decode .long64 (jumpRel32 disp) = some decoded ∧
    decoded.info.length = 5 ∧ decoded.info.disp.size = 0

/-- Where a near block has its jump through the slot. -/
def relay (trampoline : BitVec 64) (size : Nat) : BitVec 64 := trampoline + BitVec.ofNat 64 size + 5

structure Rehook where
  environment : Environment 64
  targetFunction : BitVec 64
  trampoline : BitVec 64

namespace Rehook

def relay (rehook : Rehook) : BitVec 64 := HookLib.relay rehook.trampoline 5

def call (originalFunction : BitVec 64) (rehook : Rehook) : Call :=
  .applyHookX64 rehook.environment originalFunction rehook.targetFunction

def block (rehook : Rehook) : Allocation 64 := ⟨rehook.trampoline, 0x500⟩

structure Granted (originalFunction : BitVec 64) (rehook : Rehook) : Prop where
  reserves : rehook.environment.ReservesInPlace
  chosen : chosenBlock rehook.environment originalFunction = some (some (.near, rehook.trampoline))
  fresh : Disjoint (span originalFunction 5) rehook.block.span

end Rehook

/-- Each trampoline begins with the jump to the relay of the hook before, but copied as it was:
it misses that relay by the distance between the trampoline and the function. -/
def Misdirected (memory : Memory 64) (originalFunction : BitVec 64) : BitVec 64 → List Rehook → Prop
  | _, [] => True
  | before, rehook :: rest =>
      jumpTarget memory rehook.trampoline =
          some (before + (rehook.trampoline - originalFunction)) ∧
        before + (rehook.trampoline - originalFunction) ≠ before ∧
        Misdirected memory originalFunction rehook.relay rest

def lastRelay (before : BitVec 64) : List Rehook → BitVec 64
  | [] => before
  | rehook :: rest => lastRelay rehook.relay rest

def lastTarget (before : BitVec 64) : List Rehook → BitVec 64
  | [] => before
  | rehook :: rest => lastTarget rehook.targetFunction rest

def rehookedCode (originalFunction : BitVec 64) (rehooks : List Rehook) : Set (BitVec 64) :=
  span originalFunction 5 ∪ { address | ∃ rehook ∈ rehooks, address ∈ rehook.block.span }

variable {zydis : Api} {environment : Environment 64} {lib : HookLib 64} {memory other : Memory 64}
  {originalFunction targetFunction trampoline before : BitVec 64} {size : Nat} {disp : BitVec 32}
  {rehooks : List Rehook}

section Jump

variable (reads : zydis.ReadsInstruction .long64) (decodesJump : DecodesJump zydis)
  (entrance : lib.memory.read originalFunction 5 = jumpRel32 disp)

include decodesJump entrance

variable (trampoline) in
theorem stolen_of_jump :
    ∃ stolen : Stolen zydis lib.memory originalFunction 5 5,
      (relocateBlock (originalFunction - trampoline) stolen.instructions).1 = jumpRel32 disp := by
  obtain ⟨decoded, found, length, plain⟩ := decodesJump disp
  let jump : zydis.Instruction .long64 := ⟨decoded, jumpRel32 disp, length.symm, found⟩
  refine ⟨⟨[jump], entrance.trans (blockBytes_singleton jump).symm, .cons (by decide) (.nil _)⟩, ?_⟩
  have narrow : ¬(jump.item.info.isRelative = true ∧ 32 < jump.item.info.disp.size) := by
    change ¬(decoded.info.isRelative = true ∧ 32 < decoded.info.disp.size)
    omega
  rw [relocateBlock, if_neg narrow, relocatedBytes_of_no_displacement plain]
  exact List.append_nil _

include reads

theorem installation_of_jump
    (fresh : Disjoint (span originalFunction 5) (span trampoline 0x500)) :
    Installation .near zydis lib originalFunction trampoline 5 := by
  obtain ⟨decoded, found, length, _⟩ := decodesJump disp
  have window : hookWindow lib.memory originalFunction 0 =
      jumpRel32 disp ++ lib.memory.read (originalFunction + 5) (0x1000 - 5) := by
    rw [← entrance, hookWindow, BitVec.add_zero]
    exact Memory.read_add 5 (0x1000 - 5)
  have first : zydis.decode .long64 (hookWindow lib.memory originalFunction 0) = some decoded := by
    have whole : (jumpRel32 disp).take decoded.info.length = jumpRel32 disp := by
      rw [length]
      exact List.take_of_length_le (jumpRel32_length disp).le
    rw [window, ← whole]
    exact reads.prefixOnly found _
  have measured : stolenSize .near zydis lib originalFunction = 5 := by
    rw [stolenSize, Path.neededSize, computeHookSize, computeHookSizeLoop]
    simp only [first, length]
    exact computeHookSizeLoop_of_reached (Nat.le_refl _)
  exact .of_covers reads measured (Nat.le_refl _) fresh

theorem hooked_read_jump (inside : zydis.DisplacementInside .long64)
    (fresh : Disjoint (span originalFunction 5) (span trampoline 0x500))
    (reach : absDelta originalFunction trampoline ≤ 2 ^ 31) :
    (hooked .near zydis environment lib originalFunction targetFunction trampoline).memory.read
      trampoline 5 = jumpRel32 disp := by
  obtain ⟨stolen, copied⟩ := stolen_of_jump trampoline decodesJump entrance
  have installation := installation_of_jump reads decodesJump entrance fresh
  rw [hooked_near_saved_relocated installation stolen inside reach, copied]

end Jump

theorem relay_eq (trampoline : BitVec 64) (size : Nat) :
    relay trampoline size = trampoline + BitVec.ofNat 64 (size + 5) := by
  rw [relay, BitVec.ofNat_add, ← BitVec.add_assoc]
  rfl

theorem relay_toNat (room : trampoline.toNat + (size + 5) < 2 ^ 64) :
    (relay trampoline size).toNat = trampoline.toNat + (size + 5) := by
  rw [relay_eq, toNat_add_ofNat _ room]

section Blocks

variable (same : Set.EqOn other memory (span trampoline 0x500))

include same

theorem NearHook.jumpTarget_relay
    (hook : NearHook memory originalFunction targetFunction trampoline size) (small : size < 32)
    (upper : originalFunction.toNat < 2 ^ 47)
    (above : trampoline.toNat + 0x500 < originalFunction.toNat + 2 ^ 31) :
    jumpTarget other (relay trampoline size) = some targetFunction := by
  have place : (relay trampoline size).toNat = trampoline.toNat + (size + 5) :=
    relay_toNat (by omega)
  have next : (relay trampoline size + 6).toNat = trampoline.toNat + size + 11 :=
    (toNat_add_ofNat 6 (by omega)).trans (by omega)
  have slot : (trampoline + 0x50).toNat = trampoline.toNat + 0x50 :=
    toNat_add_ofNat 0x50 (by omega)
  have indirect : other.read (relay trampoline size) 6 =
      jumpQword ((trampoline + 0x50 - (relay trampoline size + 6)).setWidth 32) := by
    have stored := hook.indirect
    rw [← relay, relay_eq] at stored
    rw [relay_eq, Memory.read_window_of_agree (by decide) same _ _ (by omega), stored]
  have stored : other.read (trampoline + 0x50) 8 = littleEndian 8 targetFunction.toNat :=
    (Memory.read_window_of_agree (by decide) same 0x50 8 (by decide)).trans hook.slot
  have led := jumpTarget_qword_to indirect (toInt_sub_bounds (by omega) (by omega))
  rwa [read64_eq _ stored] at led

/-- A jump that was copied from the function misses where it led by the distance moved. -/
theorem jumpTarget_copied
    (copied : memory.read trampoline 5 =
      jumpRel32 ((before - (originalFunction + 5)).setWidth 32))
    (bounds : -2 ^ 31 ≤ (before - (originalFunction + 5)).toInt ∧
      (before - (originalFunction + 5)).toInt < 2 ^ 31) :
    jumpTarget other trampoline = some (before + (trampoline - originalFunction)) := by
  have stored := Memory.read_window_of_agree (by decide) same 0 5 (by decide)
  rw [BitVec.add_zero, copied] at stored
  rw [jumpTarget_jumpRel32 stored, displacement_setWidth bounds.1 bounds.2]
  rw [sub_add_eq_sub_sub, add_add_sub_cancel, add_sub_left_comm]

end Blocks

theorem rehookedCode_disjoint {block : Set (BitVec 64)}
    (fresh : Disjoint (span originalFunction 5) block)
    (apart : ∀ rehook ∈ rehooks, Disjoint block rehook.block.span) :
    Disjoint (rehookedCode originalFunction rehooks) block := by
  rw [rehookedCode, Set.disjoint_union_left]
  refine ⟨fresh, Set.disjoint_left.mpr ?_⟩
  intro address inOther inBlock
  obtain ⟨rehook, member, inOther⟩ := inOther
  exact Set.disjoint_left.mp (apart rehook member) inBlock inOther

structure Stacked (originalFunction before : BitVec 64) (lib after : HookLib 64)
    (rehooks : List Rehook) : Prop where
  entrance : after.memory.read originalFunction 5 =
    jumpRel32 ((lastRelay before rehooks - (originalFunction + 5)).setWidth 32)
  misdirected : Misdirected after.memory originalFunction before rehooks
  relays : ∀ rehook ∈ rehooks, jumpTarget after.memory rehook.relay = some rehook.targetFunction
  changes : Memory.ChangesOnly (rehookedCode originalFunction rehooks) lib.memory after.memory
  activeHooks : after.activeHooks = lib.activeHooks
  allocations : after.allocations = (rehooks.map Rehook.block).reverse ++ lib.allocations

theorem relay_bounds (small : size < 32) (upper : originalFunction.toNat < 2 ^ 47)
    (below : originalFunction.toNat + 0x500 < trampoline.toNat + 2 ^ 31)
    (above : trampoline.toNat + 0x500 < originalFunction.toNat + 2 ^ 31) :
    -2 ^ 31 ≤ (relay trampoline size - (originalFunction + 5)).toInt ∧
      (relay trampoline size - (originalFunction + 5)).toInt < 2 ^ 31 := by
  have place : (relay trampoline size).toNat = trampoline.toNat + (size + 5) :=
    relay_toNat (by omega)
  have source : (originalFunction + 5).toNat = originalFunction.toNat + 5 :=
    toNat_add_ofNat 5 (by omega)
  exact toInt_sub_bounds (by omega) (by omega)

section Run

variable (reads : zydis.ReadsInstruction .long64) (decodesJump : DecodesJump zydis)
  (inside : zydis.DisplacementInside .long64) (lower : 2 ^ 16 ≤ originalFunction.toNat)
  (upper : originalFunction.toNat < 2 ^ 47)

include reads decodesJump inside lower upper

theorem rehooked {rehook : Rehook} {hook : Hook 64} (granted : rehook.Granted originalFunction)
    (entrance : lib.memory.read originalFunction 5 = jumpRel32 disp)
    (entry : lib.activeHooks originalFunction = some hook) :
    let after := hooked .near zydis rehook.environment lib originalFunction rehook.targetFunction
      rehook.trampoline
    NearHook after.memory originalFunction rehook.targetFunction rehook.trampoline 5 ∧
      after.memory.read rehook.trampoline 5 = jumpRel32 disp ∧
      Memory.ChangesOnly (span originalFunction 5 ∪ rehook.block.span) lib.memory after.memory ∧
      after.activeHooks = lib.activeHooks := by
  obtain ⟨reserves, chosen, fresh⟩ := granted
  obtain ⟨below, above⟩ := chosenBlock_near_bounds reserves lower upper chosen
  have reach : absDelta originalFunction rehook.trampoline ≤ 2 ^ 31 :=
    absDelta_le (by omega) (by omega)
  have installation : Installation .near zydis lib originalFunction rehook.trampoline 5 :=
    installation_of_jump reads decodesJump entrance fresh
  refine ⟨hooked_near_hook _ _ installation inside,
    hooked_read_jump reads decodesJump entrance inside fresh reach,
    hooked_near_changesOnly _ _ installation inside, ?_⟩
  rw [hooked_activeHooks _ _ installation, HookMap.insert_present entry]

theorem runAll_rehooks {hook : Hook 64}
    (entrance : lib.memory.read originalFunction 5 =
      jumpRel32 ((before - (originalFunction + 5)).setWidth 32))
    (bounds : -2 ^ 31 ≤ (before - (originalFunction + 5)).toInt ∧
      (before - (originalFunction + 5)).toInt < 2 ^ 31)
    (entry : lib.activeHooks originalFunction = some hook)
    (granted : ∀ rehook ∈ rehooks, rehook.Granted originalFunction)
    (apart : rehooks.Pairwise fun first second => Disjoint first.block.span second.block.span) :
    ∃ after, Call.runAll zydis lib (rehooks.map (Rehook.call originalFunction)) = some after ∧
      Stacked originalFunction before lib after rehooks := by
  induction rehooks generalizing lib before with
  | nil => exact ⟨lib, rfl, entrance, trivial, nofun, .refl _ _, rfl, rfl⟩
  | cons rehook rest ih =>
      rw [List.forall_mem_cons] at granted
      rw [List.pairwise_cons] at apart
      obtain ⟨own, others⟩ := granted
      obtain ⟨below, above⟩ := chosenBlock_near_bounds own.reserves lower upper own.chosen
      obtain ⟨near, copied, changed, hooks⟩ :=
        rehooked reads decodesJump inside lower upper own entrance entry
      obtain ⟨after, ran, stacked⟩ := ih near.patch
        (relay_bounds (by decide) upper below above) (hooks ▸ entry) others apart.2
      have same : Set.EqOn after.memory
          (hooked .near zydis rehook.environment lib originalFunction rehook.targetFunction
            rehook.trampoline).memory rehook.block.span := fun address inBlock =>
        stacked.changes address
          (Set.disjoint_right.mp (rehookedCode_disjoint own.fresh apart.1) inBlock)
      refine ⟨after, ?_, stacked.entrance, ⟨?_, ?_, stacked.misdirected⟩, ?_, ?_, ?_, ?_⟩
      · rw [List.map_cons, Call.runAll, Rehook.call, Call.run_of_chosenBlock own.chosen,
          Option.bind_some, ran]
      · exact jumpTarget_copied same copied bounds
      · rw [Ne, add_eq_left, sub_eq_zero]
        intro moved
        exact Set.disjoint_left.mp own.fresh (base_mem_span (by decide))
          (moved ▸ base_mem_span (Nat.zero_lt_succ _))
      · rw [List.forall_mem_cons]
        exact ⟨near.jumpTarget_relay same (by decide) upper above, stacked.relays⟩
      · refine (changed.mono ?_).trans (stacked.changes.mono ?_)
        · exact Set.union_subset_union_right _ fun address inBlock =>
            ⟨rehook, List.mem_cons_self, inBlock⟩
        · refine Set.union_subset_union_right _ fun address inOther => ?_
          obtain ⟨other, member, inOther⟩ := inOther
          exact ⟨other, List.mem_cons_of_mem _ member, inOther⟩
      · rw [stacked.activeHooks, hooks]
      · rw [stacked.allocations, hooked_allocations, List.map_cons, List.reverse_cons,
          List.append_assoc]
        rfl

end Run

theorem removeHook_changesOnly {hook : Hook 64} {after : HookLib 64} {region : Set (BitVec 64)}
    (entry : lib.activeHooks originalFunction = some hook)
    (hooks : after.activeHooks = lib.activeHooks)
    (changes : Memory.ChangesOnly (span originalFunction hook.originalBytes.length ∪ region)
      lib.memory after.memory) :
    Memory.ChangesOnly region (removeHook environment lib originalFunction).memory
      (removeHook environment after originalFunction).memory := by
  rw [removeHook_memory _ entry, removeHook_memory _ (hooks ▸ entry)]
  intro address outside
  by_cases saved : address ∈ span originalFunction hook.originalBytes.length
  · exact Memory.write_eqOn_span _ _ _ _ saved
  · rw [Memory.write_changesOnly address saved, Memory.write_changesOnly address saved]
    exact changes address (not_or.mpr ⟨saved, outside⟩)

theorem last_of_forall (holds : BitVec 64 → BitVec 64 → Prop) (first : holds before targetFunction)
    (others : ∀ rehook ∈ rehooks, holds rehook.relay rehook.targetFunction) :
    holds (lastRelay before rehooks) (lastTarget targetFunction rehooks) := by
  induction rehooks generalizing before targetFunction with
  | nil => exact first
  | cons rehook rest ih =>
      rw [List.forall_mem_cons] at others
      exact ih others.1 others.2

/-- However often a function is hooked on the near path: calls get to the last target, and every
target keeps its relay, but the trampolines behind the first begin with jumps that miss; and one
`remove_hook` undoes what it would undo of the first hook alone, and frees the first block and
no other. -/
theorem applyHookX64_repeated (reads : zydis.ReadsInstruction .long64)
    (decodesJump : DecodesJump zydis) (inside : zydis.DisplacementInside .long64)
    (lower : 2 ^ 16 ≤ originalFunction.toNat) (upper : originalFunction.toNat < 2 ^ 47)
    (environment : Environment 64) (first : Rehook) (reserves : first.environment.ReservesInPlace)
    (chosen : chosenBlock first.environment originalFunction = some (some (.near, first.trampoline)))
    (installation : Installation .near zydis lib originalFunction first.trampoline size)
    (absent : lib.activeHooks originalFunction = none)
    (granted : ∀ rehook ∈ rehooks, rehook.Granted originalFunction)
    (apart : (first :: rehooks).Pairwise fun one another =>
      Disjoint one.block.span another.block.span) :
    let once := hooked .near zydis first.environment lib originalFunction first.targetFunction
      first.trampoline
    ∃ after,
      Call.runAll zydis lib ((first :: rehooks).map (Rehook.call originalFunction)) = some after ∧
      Stacked originalFunction (relay first.trampoline size) once after rehooks ∧
      jumpTarget after.memory (relay first.trampoline size) = some first.targetFunction ∧
      Reaches after.memory originalFunction (lastTarget first.targetFunction rehooks) ∧
      Memory.ChangesOnly { address | ∃ rehook ∈ rehooks, address ∈ rehook.block.span }
        (removeHook environment once originalFunction).memory
        (removeHook environment after originalFunction).memory ∧
      (removeHook environment after originalFunction).activeHooks = lib.activeHooks ∧
      ∀ block, block ∈ (removeHook environment after originalFunction).allocations ↔
        (∃ rehook ∈ rehooks, block = rehook.block) ∨
          block ∈ lib.allocations ∧ block.base ≠ first.trampoline := by
  intro once
  rw [List.pairwise_cons] at apart
  obtain ⟨below, above⟩ := chosenBlock_near_bounds reserves lower upper chosen
  have small := installation.small
  have covers : 5 ≤ size := installation.covers
  have near : NearHook once.memory originalFunction first.targetFunction first.trampoline size :=
    hooked_near_hook _ _ installation inside
  have entry : once.activeHooks originalFunction =
      some ⟨first.trampoline, once.memory.read first.trampoline size⟩ :=
    (congrFun (hooked_activeHooks _ _ installation) _).trans (HookMap.insert_self absent)
  have bounds := relay_bounds small upper below above
  obtain ⟨after, ran, stacked⟩ := runAll_rehooks reads decodesJump inside lower upper near.patch
    bounds entry granted apart.2
  have fresh := installation.fresh.mono_left (span_mono covers)
  have own : Set.EqOn after.memory once.memory (span first.trampoline 0x500) :=
    fun address inBlock => stacked.changes address
      (Set.disjoint_right.mp (rehookedCode_disjoint fresh apart.1) inBlock)
  have toTarget := near.jumpTarget_relay own small upper above
  refine ⟨after, ?_, stacked, toTarget, ?_, ?_, ?_, ?_⟩
  · rw [List.map_cons, Call.runAll, Rehook.call, Call.run_of_chosenBlock chosen, Option.bind_some]
    exact ran
  · obtain ⟨lastBounds, led⟩ := last_of_forall
      (fun relay target => (-2 ^ 31 ≤ (relay - (originalFunction + 5)).toInt ∧
        (relay - (originalFunction + 5)).toInt < 2 ^ 31) ∧
        jumpTarget after.memory relay = some target)
      ⟨bounds, toTarget⟩ fun rehook member => by
        obtain ⟨below, above⟩ := chosenBlock_near_bounds (granted rehook member).reserves lower
          upper (granted rehook member).chosen
        exact ⟨relay_bounds (by decide) upper below above, stacked.relays rehook member⟩
    exact .trans (.step (step_of_jumpTarget (jumpTarget_rel32_to stacked.entrance lastBounds)))
      (.step (step_of_jumpTarget led))
  · refine removeHook_changesOnly entry stacked.activeHooks (stacked.changes.mono ?_)
    rw [Memory.read_length]
    exact Set.union_subset_union_left _ (span_mono covers)
  · rw [removeHook_activeHooks _ (stacked.activeHooks ▸ entry), stacked.activeHooks,
      hooked_activeHooks _ _ installation, HookMap.erase_insert absent]
  · intro block
    rw [mem_removeHook_allocations _ (stacked.activeHooks ▸ entry), stacked.allocations,
      hooked_allocations, List.mem_append, List.mem_reverse, List.mem_map, List.mem_cons]
    constructor
    · intro found
      obtain ⟨⟨rehook, member, rfl⟩ | rfl | live, other⟩ := found
      · exact .inl ⟨rehook, member, rfl⟩
      · exact absurd rfl other
      · exact .inr ⟨live, other⟩
    · intro found
      obtain ⟨rehook, member, rfl⟩ | ⟨live, other⟩ := found
      · refine ⟨.inl ⟨rehook, member, rfl⟩, fun same => ?_⟩
        have base : rehook.trampoline = first.trampoline := same
        have twice : rehook.trampoline ∈ rehook.block.span := base_mem_span (Nat.zero_lt_succ _)
        rw [base] at twice
        exact Set.disjoint_left.mp (apart.1 rehook member) (base_mem_span (Nat.zero_lt_succ _)) twice
      · exact ⟨.inr (.inr live), other⟩

theorem decodesJump_subset : DecodesJump subset := by
  intro disp
  have found := Subset.decode_form .jmp [] (littleEndian_length 4 disp.toNat)
  rw [List.append_nil] at found
  exact ⟨_, found, rfl, rfl⟩

theorem applyHookX64_repeated_twice :
    let start := HookLib.holding 0x140001000 (List.replicate 5 0x90)
    let first : Rehook := ⟨.granting true 0, 0x150000000, 0x140010000⟩
    let second : Rehook := ⟨.freeFrom 0x140020000, 0x160000000, 0x140020000⟩
    ∃ after,
      Call.runAll subset start ([first, second].map (Rehook.call 0x140001000)) = some after ∧
      Reaches after.memory 0x140001000 0x160000000 ∧
      jumpTarget after.memory 0x140020000 = some 0x14002F00A := by
  intro start first second
  have chosen : chosenBlock first.environment 0x140001000 = some (some (.near, first.trampoline)) :=
    chosenBlock_granting_near (by decide)
  have installation : Installation .near subset start 0x140001000 first.trampoline 5 :=
    .of_covers Subset.readsInstruction (by decide +kernel) (by decide)
      (span_disjoint (by decide) (by decide))
  have granted : second.Granted 0x140001000 :=
    ⟨freeFrom_reservesInPlace _, chosenBlock_freeFrom, span_disjoint (by decide) (by decide)⟩
  have apart : Disjoint first.block.span second.block.span :=
    span_disjoint (by decide) (by decide)
  obtain ⟨after, ran, stacked, _, target, _⟩ := applyHookX64_repeated Subset.readsInstruction
    decodesJump_subset Subset.displacementInside (by decide) (by decide) first.environment first
    granting_reservesInPlace chosen installation rfl (List.forall_mem_singleton.mpr granted)
    (List.pairwise_pair.mpr apart)
  exact ⟨after, ran, target, stacked.misdirected.1.trans (congrArg some (by decide))⟩

end Detours.HookLib

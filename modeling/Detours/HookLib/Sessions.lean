import Detours.HookLib.HookedProcess

namespace Detours.HookLib

open Detours.Bytes Detours.Decoding Detours.Machine Detours.Zydis

/-- The program without hooks, and the process with hooks at the same point. `aside` is where
their memories may differ outside the text. -/
structure Session (Flags : Type) where
  plain : BitVec 64 × State 64 (Core Flags)
  lib : HookLib 64
  redirections : Redirections
  aside : Set (BitVec 64)

namespace Session

variable {Flags : Type}

def hooked (session : Session Flags) : BitVec 64 × State 64 (Core Flags) :=
  (session.plain.1, ⟨session.plain.2.core, session.lib.memory⟩)

/-- The bytes that the program may not execute or depend on: stolen ones, and those aside. -/
def hidden (session : Session Flags) : Set (BitVec 64) := session.lib.hookedCode ∪ session.aside

/-- What is seen of the hooked process: it has the hooks it should have, its text is the
program's but for the stolen bytes, and so is its memory but for the hidden bytes. -/
structure Faithful {zydis : Api} (processor : Processor 64 (Core Flags) (zydis.decoder .long64))
    (text : Set (BitVec 64)) (session : Session Flags) : Prop where
  unhooked : ∀ function,
    session.lib.activeHooks function = none ↔ session.redirections function = none
  redirected : ∀ function target, session.redirections function = some target →
    ∃ detour ∈ detours processor session.plain.2.memory session.lib session.redirections,
      detour.entry = function ∧ detour.target = target
  visible : ∀ address ∈ text, address ∉ session.lib.hookedCode →
    session.lib.memory address = session.plain.2.memory address
  agree : session.plain.2.Agree session.hidden session.hooked.2

structure Called (zydis : Api) (semantics : Semantics Flags) (text : Set (BitVec 64))
    (before after : Session Flags) : Prop where
  step : RedirectStep zydis semantics text before.plain.2.memory
    (before.lib, before.redirections) (after.lib, after.redirections)
  plain : after.plain = before.plain
  aside : after.aside = before.aside ∪ after.lib.blocks

structure Stretch (Flags : Type) where
  final : BitVec 64 × State 64 (Core Flags)
  own : Set (BitVec 64)
  hidden : Set (BitVec 64)

/-- The stretch goes on from the session's state, as `Follows` describes, and writes neither the
text nor a block; the targets go on to their trampolines. -/
structure Continues {zydis : Api} (processor : Processor 64 (Core Flags) (zydis.decoder .long64))
    (steps : BitVec 64 × State 64 (Core Flags) → BitVec 64 × State 64 (Core Flags) → Prop)
    (text : Set (BitVec 64)) (session : Session Flags) (stretch : Stretch Flags) : Prop where
  resumes : Resumes steps (text ∪ session.lib.blocks) stretch.own session.lib.memory
    (detours processor session.plain.2.memory session.lib session.redirections)
  apart : Disjoint stretch.own (text ∪ session.lib.blocks)
  follows : Follows processor TrampolineBuilder.saveSlot steps (text ∪ session.lib.blocks)
    stretch.own (detours processor session.plain.2.memory session.lib session.redirections)
    session.hidden session.plain stretch.hidden stretch.final
  text : ∀ address ∈ text,
    stretch.final.2.memory address = session.plain.2.memory address

structure Matched
    (steps : BitVec 64 × State 64 (Core Flags) → BitVec 64 × State 64 (Core Flags) → Prop)
    (text : Set (BitVec 64)) (before : Session Flags) (stretch : Stretch Flags)
    (after : Session Flags) : Prop where
  plain : after.plain = stretch.final
  lib : after.lib = { before.lib with memory := after.lib.memory }
  redirections : after.redirections = before.redirections
  aside : after.aside = stretch.hidden \ text
  unhooked : Relation.ReflTransGen steps before.plain after.plain
  executed : Relation.ReflTransGen steps before.hooked after.hooked

structure Related {zydis : Api} (processor : Processor 64 (Core Flags) (zydis.decoder .long64))
    (text : Set (BitVec 64)) (session : Session Flags) : Prop where
  redirects : Redirects processor text session.plain.2.memory session.lib session.redirections
  stolen : session.lib.hookedCode ⊆ text
  agree : session.plain.2.Agree session.hidden session.hooked.2

variable {zydis : Api} {semantics : Semantics Flags} {text : Set (BitVec 64)}
  {session after : Session Flags} {stretch : Stretch Flags}
  {processor : Processor 64 (Core Flags) (zydis.decoder .long64)}
  {steps : BitVec 64 × State 64 (Core Flags) → BitVec 64 × State 64 (Core Flags) → Prop}

theorem Related.faithful (related : session.Related processor text) :
    session.Faithful processor text where
  unhooked := fun _ => related.redirects.unhooked_iff
  redirected := fun _ _ => related.redirects.exists_detour
  visible := related.redirects.visible
  agree := related.agree

theorem called_outside (reads : zydis.ReadsInstruction .long64)
    (inside : zydis.DisplacementInside .long64) (related : session.Related processor text)
    (called : Called zydis semantics text session after) :
    after.lib.hookedCode ⊆ text ∧ ∀ address, address ∉ text → address ∉ after.lib.blocks →
      after.lib.memory address = session.lib.memory address := by
  obtain ⟨call, ran, _, installs, _⟩ := called.step
  have effect : Call.Effect zydis session.lib call after.lib := Call.effect_of_run ran
  clear ran called
  generalize after.lib = lib at effect ⊢
  cases effect with
  | none => exact ⟨related.stolen, fun _ _ _ => rfl⟩
  | hooked environment path originalFunction targetFunction trampoline chosen =>
      have clean := installs _ _ _ _ _ rfl chosen
      have installation := clean.installation reads
      have text : span originalFunction (stolenSize path zydis session.lib originalFunction) ⊆ text :=
        clean.stolen.trans Set.sdiff_subset
      refine ⟨(hookedCode_hooked ..).trans (Set.union_subset ?_ related.stolen), ?_⟩
      · rw [installation.measured_withBlock]
        exact text
      · intro address outside free
        rw [blocks_hooked, Set.mem_union, not_or] at free
        refine hooked_changesOnly environment targetFunction installation inside address ?_
        exact not_or.mpr ⟨fun stolen => outside (text stolen), free.1⟩
  | removed environment originalFunction hook entry =>
      refine ⟨?_, fun address outside _ => ?_⟩
      · intro address code
        obtain ⟨function, other, otherEntry, covers⟩ := code
        rw [removeHook_activeHooks environment entry, HookMap.erase_some] at otherEntry
        exact related.stolen ⟨function, other, otherEntry.2, covers⟩
      · rw [removeHook_memory environment entry]
        exact Memory.write_changesOnly address fun stolen =>
          outside (related.stolen (span_subset_hookedCode entry stolen))

section Turns

theorem Related.called {sequential : Mnemonic → Bool} (documented : Documented zydis)
    (jmp : sequential Mnemonic.jmp = false) (surrounds : TrampolineBuilder.Surrounds sequential)
    (related : session.Related
      (sequentialProcessor semantics sequential documented.reads documented.opcodes jmp) text)
    (called : Called zydis semantics text session after) :
    after.Related
      (sequentialProcessor semantics sequential documented.reads documented.opcodes jmp) text := by
  obtain ⟨stolen, outside⟩ := called_outside documented.reads documented.inside related called
  have redirects := related.redirects.step documented jmp surrounds called.step
  rw [← called.plain] at redirects
  refine ⟨redirects, stolen, rfl, fun address free => ?_⟩
  rw [hidden, called.aside, Set.mem_union, Set.mem_union, not_or, not_or] at free
  obtain ⟨unstolen, free, unblocked⟩ := free
  by_cases inside : address ∈ text
  · exact redirects.visible address inside unstolen
  · rw [called.plain]
    refine (outside address inside unblocked).trans (related.agree.memory address ?_)
    exact not_or.mpr ⟨fun code => inside (related.stolen code), free⟩

theorem realizes_after {memory origin : Memory 64} {function target : BitVec 64} {hook : Hook 64}
    {block : Allocation 64} {instructions : List (zydis.Instruction .long64)}
    (related : session.Related processor text)
    (entry : session.lib.activeHooks function = some hook)
    (realizes : Realizes processor session.plain.2.memory session.lib function target hook block
      instructions)
    (same : ∀ address ∈ text, origin address = session.plain.2.memory address)
    (kept : ∀ address ∈ text ∪ session.lib.blocks, memory address = session.lib.memory address) :
    Realizes processor origin { session.lib with memory } function target hook block
      instructions where
  live := realizes.live
  base := realizes.base
  saved := realizes.saved
  loaded := by
    refine Eq.trans (Memory.read_congr fun index below => ?_) realizes.loaded
    have within : function + BitVec.ofNat 64 index ∈ span function hook.originalBytes.length := by
      rw [mem_span, add_sub_cancel_left, BitVec.toNat_ofNat, ← realizes.saved]
      exact (Nat.mod_le _ _).trans_lt below
    exact same _ (related.stolen (span_subset_hookedCode entry within))
  transparent := realizes.transparent.congr fun address inside => kept address
    (Set.union_subset_union ((span_subset_hookedCode entry).trans related.stolen)
      (span_subset_blocks realizes.live) inside)

theorem Related.executed
    (faster : ∀ current following, processor.step current = some following → steps current following)
    (related : session.Related processor text)
    (continues : session.Continues processor steps text stretch) :
    ∃ after, Matched steps text session stretch after ∧ after.Related processor text := by
  obtain ⟨unhooked, ⟨core, memory⟩, executed, agrees, kept⟩ := continues.follows.simulated faster
    (fun _ member => (detours_realized member).2)
    (fun _ member => (detours_realized member).1.trans (Set.union_subset_union_left _ related.stolen))
    continues.resumes continues.apart related.agree fun _ _ => rfl
  obtain rfl : core = stretch.final.2.core := agrees.core
  have redirects := related.redirects
  have visible : ∀ address ∈ text, address ∉ session.lib.hookedCode →
      memory address = stretch.final.2.memory address := by
    intro address inside unstolen
    rw [continues.text address inside]
    exact (kept address (.inl inside)).trans (redirects.visible address inside unstolen)
  refine ⟨⟨stretch.final, { session.lib with memory }, session.redirections, stretch.hidden \ text⟩,
    ⟨rfl, rfl, rfl, rfl, unhooked, executed⟩, ?_, related.stolen, rfl, fun address free => ?_⟩
  · refine ⟨⟨redirects.positive, redirects.disjoint, redirects.apart, redirects.owned,
      redirects.distinct⟩, redirects.unhooked, ?_, visible, redirects.foreign, redirects.separate⟩
    intro function hook entry
    obtain ⟨target, block, instructions, redirected, realizes⟩ := redirects.hooked function hook entry
    exact ⟨target, block, instructions, redirected,
      realizes_after related entry realizes continues.text kept⟩
  · by_cases inside : address ∈ text
    · exact visible address inside fun code => free (.inl code)
    · exact agrees.memory address fun there => free (.inr ⟨there, inside⟩)

end Turns

end Session

variable {Flags : Type} {zydis : Api} {start : HookLib 64}

section Nops

variable {steps : BitVec 64 × State 64 (Core Unit) → BitVec 64 × State 64 (Core Unit) → Prop}
  {session : Session Unit}

end Nops

end Detours.HookLib

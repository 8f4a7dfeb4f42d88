import Detours.Machine.Processor

namespace Detours.Machine

open Detours.Bytes Detours.Decoding

variable {w : Nat} {σ ι : Type} {decoder : Decoder Byte ι} {processor : Processor w σ decoder}
  {rubbish : Chunk decoder → σ → Set (BitVec w)} {memory other : Memory w}
  {entry target trampoline : BitVec w} {hook : Set (BitVec w)} {items : List (Chunk decoder)}
  {bytes : List Byte}

/-- The hook left `memory` in its own bytes, which are there when the function is called, and
belong to the code that nothing writes over. The process differs in hidden bytes from one
without the hook. If the function's first items get past its first bytes without the hook, then
with it a call gets to the target in the same state, and a jump to the trampoline gets past
these bytes and differs in hidden bytes there. -/
def Transparent (processor : Processor w σ decoder)
    (rubbish : Chunk decoder → σ → Set (BitVec w)) (hook : Set (BitVec w)) (memory : Memory w)
    (entry target trampoline : BitVec w) (items : List (Chunk decoder)) : Prop :=
  ∀ (code hidden hiddenAfter : Set (BitVec w)) (before final hooked : State w σ),
    hook ⊆ code →
    before.memory.read entry (blockBytes items).length = blockBytes items →
    Unaware processor rubbish code hidden entry items before hiddenAfter final →
    before.Agree hidden hooked →
    (∀ address ∈ hook, hooked.memory address = memory address) →
    let rest := entry + BitVec.ofNat w (blockBytes items).length
    processor.Runs (entry, before) (rest, final) ∧
    processor.Runs (entry, hooked) (target, hooked) ∧
    ∃ result, processor.Runs (trampoline, hooked) (rest, result) ∧
      final.Agree hiddenAfter result ∧ Memory.ChangesOnly codeᶜ hooked.memory result.memory ∧
      (processor.Runs (target, hooked) (trampoline, hooked) →
        processor.Runs (entry, hooked) (rest, result))

theorem Transparent.congr
    (transparent : Transparent processor rubbish hook memory entry target trampoline items)
    (same : ∀ address ∈ hook, other address = memory address) :
    Transparent processor rubbish hook other entry target trampoline items := by
  intro code hidden hiddenAfter before final hooked part loaded unaware agree stored
  exact transparent code hidden hiddenAfter before final hooked part loaded unaware agree
    fun address inside => (stored address inside).trans (same address inside)

/-- Code at the trampoline that replaces the items, and jumps to the target and to the rest of
the function, make a hook transparent. -/
theorem transparent_of_replaced (selfDelimiting : decoder.SelfDelimiting)
    (replaced : ∀ code, ∃ copies, blockBytes copies = bytes ∧
      Replaced processor rubbish code entry trampoline items copies)
    (stored : memory.read trampoline bytes.length = bytes)
    (stolen : span entry (blockBytes items).length ⊆ hook)
    (copied : span trampoline bytes.length ⊆ hook)
    (small : (blockBytes items).length ≤ 2 ^ w) (room : bytes.length ≤ 2 ^ w)
    (called : ∀ hooked : State w σ, (∀ address ∈ hook, hooked.memory address = memory address) →
      processor.Runs (entry, hooked) (target, hooked))
    (back : ∀ hooked : State w σ, (∀ address ∈ hook, hooked.memory address = memory address) →
      processor.Runs (trampoline + BitVec.ofNat w bytes.length, hooked)
        (entry + BitVec.ofNat w (blockBytes items).length, hooked)) :
    Transparent processor rubbish hook memory entry target trampoline items := by
  intro code hidden hiddenAfter before final hooked part loaded unaware agree there rest
  obtain ⟨copies, rfl, replacing⟩ := replaced code
  obtain ⟨result, passes, agrees⟩ := unaware.replaced replacing agree
  have kept : ∀ address ∈ hook, result.memory address = memory address := by
    intro address inside
    rw [passes.changesOnly address fun outside => outside (part inside), there address inside]
  have ready : hooked.memory.read trampoline (blockBytes copies).length = blockBytes copies := by
    refine Eq.trans ?_ stored
    exact Memory.read_eq_of_agree room fun address inside => there address (copied inside)
  have through : processor.Runs (trampoline, hooked) (rest, result) :=
    (passes.runs selfDelimiting ready (copied.trans part) room).trans (back result kept)
  refine ⟨unaware.passes.runs selfDelimiting loaded (stolen.trans part) small,
    called hooked there, result, through, agrees, passes.changesOnly, fun goesOn => ?_⟩
  exact ((called hooked there).trans goesOn).trans through

end Detours.Machine

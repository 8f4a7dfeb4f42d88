import Detours.HookLib.FarTransparency
import Detours.HookLib.Isolation
import Detours.HookLib.NearTransparency

namespace Detours.HookLib

open Detours.Bytes Detours.Decoding Detours.Machine Detours.Zydis

/-- What is relied on of Zydis for a hook on either path. -/
structure Documented (zydis : Api) : Prop where
  reads : zydis.ReadsInstruction .long64
  inside : zydis.DisplacementInside .long64
  fields : zydis.RelativeDisplacement .long64
  relocates : zydis.RelocatesDisplacement .long64
  opcodes : zydis.JumpOpcodes
  operands : zydis.RipOperands
  lengths : zydis.EncodedLengths
  fills : zydis.FillsRequest
  means : zydis.EncodesMeaning
  plain : zydis.EncodesPlain

/-- The stolen instructions can be executed in the trampoline: on the near path every
displacement takes up the distance, on the far path fourteen bytes are stolen, every encoder
call succeeds and the instructions are `Rewritable`. -/
def Portable {Flags : Type} (zydis : Api) (semantics : Semantics Flags)
    (environment : Environment 64) (lib : HookLib 64)
    (originalFunction targetFunction trampoline : BitVec 64) (size : Nat)
    (instructions : List (zydis.Instruction .long64)) : Path → Prop
  | .near =>
      environment.ReservesInPlace ∧ 2 ^ 16 ≤ originalFunction.toNat ∧
        originalFunction.toNat < 2 ^ 47 ∧
        ∀ instruction ∈ instructions, instruction.item.hasDisplacement = true →
          Api.FitsField 32 (instruction.item.info.disp.value + (originalFunction - trampoline))
  | .far =>
      size = 14 ∧
        TrampolineBuilder.BuildSucceeds zydis environment.leftover
          (lib.withBlock environment trampoline 0x1000).memory originalFunction 14 trampoline
          targetFunction ∧
        TrampolineBuilder.Rewritable zydis semantics environment.leftover originalFunction
          instructions

variable {Flags : Type} {zydis : Api} {semantics : Semantics Flags} {sequential : Mnemonic → Bool}
  {environment : Environment 64} {lib : HookLib 64} {path : Path} {size : Nat}
  {originalFunction targetFunction trampoline : BitVec 64}

theorem hooked_transparent (documented : Documented zydis)
    (jmp : sequential Mnemonic.jmp = false) (surrounds : TrampolineBuilder.Surrounds sequential)
    (chosen : chosenBlock environment originalFunction = some (some (path, trampoline)))
    (installation : Installation path zydis lib originalFunction trampoline size)
    (stolen : Stolen zydis lib.memory originalFunction path.neededSize size)
    (portable : Portable zydis semantics environment lib originalFunction targetFunction trampoline
      size stolen.instructions path) :
    Transparent (sequentialProcessor semantics sequential documented.reads documented.opcodes jmp)
      TrampolineBuilder.saveSlot (hookCode path originalFunction trampoline size)
      (hooked path zydis environment lib originalFunction targetFunction trampoline).memory
      originalFunction targetFunction trampoline stolen.instructions := by
  cases path with
  | near =>
      obtain ⟨reserves, lower, upper, fits⟩ := portable
      obtain ⟨below, above⟩ := chosenBlock_near_bounds reserves lower upper chosen
      exact hooked_near_transparent environment targetFunction _
        (sequentialProcessor_executes semantics documented.reads documented.opcodes jmp
          documented.operands)
        installation documented.inside documented.fields documented.relocates upper below above
        stolen fits
  | far =>
      obtain ⟨rfl, succeeds, rewritable⟩ := portable
      exact hooked_far_transparent environment targetFunction installation stolen
        documented.lengths documented.operands documented.fills documented.means documented.plain
        surrounds succeeds rewritable

end Detours.HookLib

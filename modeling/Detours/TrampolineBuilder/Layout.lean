import Detours.Bytes.Layout
import Detours.HookLib.Granting
import Detours.TrampolineBuilder.Lengths
import Detours.TrampolineBuilder.Subset

namespace Detours.TrampolineBuilder

open Detours.Bytes Detours.Decoding Detours.Machine Detours.Zydis

section Definitions

variable (zydis : Api) (leftover : BitVec 64 → Leftover) (memory : Memory 64)
  (originalAddress : BitVec 64) (size : Nat) (cave hookFunction : BitVec 64)

def collected : List AnnotatedInstruction :=
  (create zydis leftover memory originalAddress size cave).1.annotatedInstructions

/-- The loop of `build` after the instructions `front`. -/
def emittedAfter (front : List AnnotatedInstruction) : List Byte × RewriteState :=
  emitInstructions zydis leftover (create zydis leftover memory originalAddress size cave).1
    (create zydis leftover memory originalAddress size cave).2 hookFunction front

def emittedCode : List Byte :=
  (emittedAfter zydis leftover memory originalAddress size cave hookFunction
    (collected zydis leftover memory originalAddress size cave)).1

def built : Memory 64 :=
  (create zydis leftover memory originalAddress size cave).1.build zydis leftover
    (create zydis leftover memory originalAddress size cave).2 hookFunction

/-- The arguments of the `place_relocation` calls, in order. -/
def placedAddresses : List (BitVec 64) :=
  [originalAddress + BitVec.ofNat 64 size, hookFunction] ++
    (collected zydis leftover memory originalAddress size cave).flatMap relocations

/-- No encoder call of `build` fails. -/
def BuildSucceeds : Prop :=
  RunSucceeds zydis leftover
    (buildStart zydis leftover memory originalAddress size cave hookFunction)
    (collected zydis leftover memory originalAddress size cave)

instance : Decidable
    (BuildSucceeds zydis leftover memory originalAddress size cave hookFunction) :=
  inferInstanceAs (Decidable (RunSucceeds _ _ _ _))

end Definitions

/-- The code with its jump, the jump table and the address table. -/
def farLayout (codeSize entries : Nat) : List Field :=
  [⟨0, codeSize + 5⟩, ⟨0x50, 8 * entries⟩, ⟨0x100, 8 * entries⟩]

theorem farLayout_inOrder {codeSize entries : Nat} (code : codeSize + 5 ≤ 0x50)
    (few : entries ≤ 22) : Field.InOrder 0x1000 0 (farLayout codeSize entries) := by
  simp only [farLayout, Field.InOrder]
  omega

variable {zydis : Api} {leftover : BitVec 64 → Leftover} {memory : Memory 64}
  {originalAddress cave hookFunction target : BitVec 64} {size index : Nat}

theorem emittedAfter_eq (front : List AnnotatedInstruction) :
    emittedAfter zydis leftover memory originalAddress size cave hookFunction front =
      rewriteAll zydis leftover
        (buildStart zydis leftover memory originalAddress size cave hookFunction) front :=
  emitInstructions_eq

section Stolen

variable (reads : zydis.ReadsInstruction .long64)
  (stolen : Stolen zydis memory originalAddress 14 size)

include reads

variable (leftover cave hookFunction)

theorem collected_eq :
    collected zydis leftover memory originalAddress size cave =
      annotateBlock leftover originalAddress stolen.instructions :=
  buildAnnotatedInstructions_block reads _ stolen.bytes

theorem stolen_length_le : stolen.instructions.length ≤ 14 := by
  have few := stolen.startsBelow.countP_mul_lt 1 (fun _ => true) (by decide)
    (fun instruction _ _ => instruction.length_pos reads.selfDelimiting)
  rw [List.countP_true] at few
  omega

include stolen

theorem collected_length_le :
    (collected zydis leftover memory originalAddress size cave).length ≤ 14 := by
  rw [collected_eq _ _ reads stolen, annotateBlock_length]
  exact stolen_length_le reads stolen

theorem placedAddresses_length_le :
    (placedAddresses zydis leftover memory originalAddress size cave hookFunction).length ≤ 16 := by
  have few := collected_length_le leftover cave reads stolen
  have made := flatMap_relocations_length_le
    (collected zydis leftover memory originalAddress size cave)
  simp only [placedAddresses, List.length_append, List.length_cons, List.length_nil]
  omega

theorem emittedCode_length_le :
    (emittedCode zydis leftover memory originalAddress size cave hookFunction).length ≤ 840 := by
  have few := collected_length_le leftover cave reads stolen
  have code := rewriteAll_length_le zydis leftover
    (buildStart zydis leftover memory originalAddress size cave hookFunction)
    (collected zydis leftover memory originalAddress size cave)
  rw [emittedCode, emittedAfter_eq]
  omega

theorem emittedAfter_tables :
    StateTables cave (placedAddresses zydis leftover memory originalAddress size cave hookFunction)
      (emittedAfter zydis leftover memory originalAddress size cave hookFunction
        (collected zydis leftover memory originalAddress size cave)).2 ∧
    Memory.ChangesOnly (tableBytes cave) memory
      (emittedAfter zydis leftover memory originalAddress size cave hookFunction
        (collected zydis leftover memory originalAddress size cave)).2.memory := by
  have few := collected_length_le leftover cave reads stolen
  have start : StateTables cave [originalAddress + BitVec.ofNat 64 size, hookFunction]
      (buildStart zydis leftover memory originalAddress size cave hookFunction) :=
    buildStart_tables
  have run := rewriteAll_tables zydis leftover
    (collected zydis leftover memory originalAddress size cave) start
    (by simp only [List.length_cons, List.length_nil]; omega)
  rw [emittedAfter_eq]
  exact ⟨run.1, buildStart_changesOnly.trans run.2⟩

theorem built_eq :
    built zydis leftover memory originalAddress size cave hookFunction =
      (emittedAfter zydis leftover memory originalAddress size cave hookFunction
        (collected zydis leftover memory originalAddress size cave)).2.memory.write cave
          (closedCode cave
            (emittedCode zydis leftover memory originalAddress size cave hookFunction)) := by
  have short := emittedCode_length_le leftover cave hookFunction reads stolen
  exact build_eq (by
    change (emittedCode zydis leftover memory originalAddress size cave hookFunction).length + 5 ≤ _
    omega)

theorem built_changesOnly :
    Memory.ChangesOnly (span cave 0x1000) memory
      (built zydis leftover memory originalAddress size cave hookFunction) := by
  have short := emittedCode_length_le leftover cave hookFunction reads stolen
  rw [built_eq _ _ _ reads stolen]
  refine ((emittedAfter_tables _ _ _ reads stolen).2.mono (tableBytes_subset cave)).trans
    (Memory.write_changesOnly.mono (span_mono ?_))
  rw [closedCode_length]
  omega

/-- The code is stored last, so it is there whatever it runs over. -/
theorem built_read_code :
    (built zydis leftover memory originalAddress size cave hookFunction).read cave
      ((emittedCode zydis leftover memory originalAddress size cave hookFunction).length + 5) =
      closedCode cave (emittedCode zydis leftover memory originalAddress size cave hookFunction) := by
  have short := emittedCode_length_le leftover cave hookFunction reads stolen
  rw [built_eq _ _ _ reads stolen]
  exact Memory.read_write_of_length _ _ (closedCode_length cave _) (by omega)

theorem built_tables
    (short : (emittedCode zydis leftover memory originalAddress size cave hookFunction).length + 5 ≤
      0x50) :
    Tables cave (placedAddresses zydis leftover memory originalAddress size cave hookFunction)
      (emittedAfter zydis leftover memory originalAddress size cave hookFunction
        (collected zydis leftover memory originalAddress size cave)).2.builder
      (built zydis leftover memory originalAddress size cave hookFunction) := by
  have few := placedAddresses_length_le leftover cave hookFunction reads stolen
  rw [built_eq _ _ _ reads stolen]
  refine (emittedAfter_tables _ _ _ reads stolen).1.frame (by omega) Memory.write_changesOnly ?_
  rw [closedCode_length]
  exact (span_disjoint_add _ short (by decide)).symm

theorem built_jump_back
    (short : (emittedCode zydis leftover memory originalAddress size cave hookFunction).length + 5 ≤
      0x50) :
    jumpTarget (built zydis leftover memory originalAddress size cave hookFunction)
      (cave + BitVec.ofNat 64
        (emittedCode zydis leftover memory originalAddress size cave hookFunction).length) =
      some (cave + 0x50) := by
  have code := built_read_code leftover cave hookFunction reads stolen
  generalize emittedCode zydis leftover memory originalAddress size cave hookFunction = emitted at *
  rw [Memory.read_add, closedCode] at code
  have jump := (List.append_inj code (by simp)).2
  refine jumpTarget_rel32_to jump ?_
  have distance : cave + 0x50 - (cave + BitVec.ofNat 64 emitted.length + 5) =
      BitVec.ofNat 64 (0x4B - emitted.length) := by
    have total : (0x50 : BitVec 64) =
        BitVec.ofNat 64 (0x4B - emitted.length) + BitVec.ofNat 64 emitted.length + 5 := by
      have sum : 0x50 = 0x4B - emitted.length + emitted.length + 5 := by omega
      conv_lhs => rw [show (0x50 : BitVec 64) = BitVec.ofNat 64 0x50 from rfl, sum,
        BitVec.ofNat_add, BitVec.ofNat_add]
      rfl
    rw [total, sub_eq_iff_eq_add]
    ac_rfl
  rw [distance, BitVec.toInt_eq_toNat_bmod, BitVec.toNat_ofNat, Int.bmod_def]
  omega

theorem emittedCode_short (lengths : zydis.EncodedLengths)
    (succeeds : BuildSucceeds zydis leftover memory originalAddress size cave hookFunction) :
    (emittedCode zydis leftover memory originalAddress size cave hookFunction).length + 5 ≤ 0x50 := by
  unfold BuildSucceeds at succeeds
  rw [collected_eq _ _ reads stolen] at succeeds
  rw [emittedCode, emittedAfter_eq, collected_eq _ _ reads stolen]
  exact rewriteAll_length_le_of_stolen _ _ _ lengths stolen
    (memoryForms_of_succeeds lengths _ succeeds)

end Stolen

/-- Layout and tables of the far trampoline, when no encoder call fails. -/
theorem build_layout (reads : zydis.ReadsInstruction .long64) (lengths : zydis.EncodedLengths)
    (measured : computeHookSize zydis memory originalAddress 14 = size)
    (succeeds : BuildSucceeds zydis leftover memory originalAddress size cave hookFunction) :
    let code := emittedCode zydis leftover memory originalAddress size cave hookFunction
    let placed := placedAddresses zydis leftover memory originalAddress size cave hookFunction
    let after := built zydis leftover memory originalAddress size cave hookFunction
    (∀ front rest, collected zydis leftover memory originalAddress size cave = front ++ rest →
      (emittedAfter zydis leftover memory originalAddress size cave hookFunction
        front).2.runtimeAddress =
        cave + BitVec.ofNat 64 (emittedAfter zydis leftover memory originalAddress size cave
          hookFunction front).1.length) ∧
    code.length + 5 ≤ 0x50 ∧ 0x50 + 8 * placed.length ≤ 0x100 ∧
    0x100 + 8 * placed.length ≤ 0x1000 ∧
    ((farLayout code.length placed.length).map (Field.region cave)).Pairwise Disjoint ∧
    after.read cave code.length = code ∧
    (∀ k target, placed[k]? = some target →
      jumpTarget after (cave + BitVec.ofNat 64 (0x50 + 8 * k)) = some target) ∧
    placed[0]? = some (originalAddress + BitVec.ofNat 64 size) ∧
    placed[1]? = some hookFunction ∧
    jumpTarget after (cave + BitVec.ofNat 64 code.length) = some (cave + 0x50) := by
  intro code placed after
  subst measured
  obtain ⟨stolen⟩ := stolen_exists memory originalAddress 14 reads
  have short : code.length + 5 ≤ 0x50 := emittedCode_short _ _ _ reads stolen lengths succeeds
  have few : placed.length ≤ 16 := placedAddresses_length_le _ _ _ reads stolen
  refine ⟨?_, short, by omega, by omega,
    (farLayout_inOrder short (by omega)).pairwise_disjoint (by decide), ?_, ?_, rfl, rfl,
    built_jump_back _ _ _ reads stolen short⟩
  · intro front rest split
    have run := succeeds
    unfold BuildSucceeds at run
    rw [split, runSucceeds_append] at run
    rw [emittedAfter_eq]
    exact rewriteAll_runtimeAddress run.1
  · have whole := built_read_code leftover cave hookFunction reads stolen
    rw [Memory.read_add] at whole
    exact (List.append_inj whole (by simp)).1
  · exact fun k target found => (built_tables _ _ _ reads stolen short).jumpTarget_entry found

theorem build_layout_call :
    let call : subset.Instruction .long64 := Subset.Form.call.instruction [0x10, 0, 0, 0] rfl
    let mov : subset.Instruction .long64 := Subset.Form.movEax.instruction [7, 0, 0, 0] rfl
    let nop : subset.Instruction .long64 := Subset.Form.nop.instruction [] rfl
    let lib := HookLib.holding 0x140001000 (blockBytes (call :: mov :: List.replicate 4 nop))
    let leftover := (Environment.granting false (0 : BitVec 64)).leftover
    let code := emittedCode subset leftover lib.memory 0x140001000 14 0x20000000000 0x150000000
    let after := built subset leftover lib.memory 0x140001000 14 0x20000000000 0x150000000
    BuildSucceeds subset leftover lib.memory 0x140001000 14 0x20000000000 0x150000000 ∧
    code.length + 5 ≤ 0x50 ∧
    jumpTarget after 0x20000000050 = some 0x14000100E ∧
    jumpTarget after 0x20000000058 = some 0x150000000 ∧
    jumpTarget after 0x20000000060 = some 0 := by
  intro call mov nop lib leftover code after
  have measured : computeHookSize subset lib.memory 0x140001000 14 = 14 := by decide +kernel
  have succeeds : BuildSucceeds subset leftover lib.memory 0x140001000 14 0x20000000000
      0x150000000 := by decide +kernel
  obtain ⟨_, short, _, _, _, _, entries, zero, one, _⟩ := build_layout Subset.readsInstruction
    Subset.encodedLengths measured succeeds
  exact ⟨succeeds, short, entries 0 _ zero, entries 1 _ one, entries 2 0 (by decide +kernel)⟩

end Detours.TrampolineBuilder

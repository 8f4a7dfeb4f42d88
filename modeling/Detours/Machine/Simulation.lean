import Detours.Machine.Transparency

namespace Detours.Machine

open Detours.Bytes Detours.Decoding

/-! Whole programs under hooks. The machine may have steps of its own beside those of the
processor: calls, returns, branches, the operating system. -/

structure Detour (w : Nat) {ι : Type} (decoder : Decoder Byte ι) where
  hook : Set (BitVec w)
  entry : BitVec w
  target : BitVec w
  trampoline : BitVec w
  items : List (Chunk decoder)

variable {w : Nat} {σ ι : Type} {decoder : Decoder Byte ι}

def Detour.rest (detour : Detour w decoder) : BitVec w :=
  detour.entry + BitVec.ofNat w (blockBytes detour.items).length

/-- A step that is the same whatever the hidden bytes are and writes nothing over `code`. -/
structure Blind (steps : BitVec w × State w σ → BitVec w × State w σ → Prop)
    (code hidden hiddenAfter : Set (BitVec w)) (current following : BitVec w × State w σ) : Prop where
  taken : steps current following
  unaware : ∀ other, current.2.Agree hidden other → ∃ result,
    steps (current.1, other) (following.1, result) ∧ following.2.Agree hiddenAfter result ∧
      Memory.ChangesOnly codeᶜ other.memory result.memory

/-- A run of a program without hooks that could not tell if they were there: each step is blind
to the hidden bytes, and hooked functions are entered at their start and left behind the stolen
bytes. The bytes in `own` belong to the targets. -/
inductive Follows (processor : Processor w σ decoder) (rubbish : Chunk decoder → σ → Set (BitVec w))
    (steps : BitVec w × State w σ → BitVec w × State w σ → Prop) (code own : Set (BitVec w))
    (detours : Set (Detour w decoder)) :
    Set (BitVec w) → BitVec w × State w σ → Set (BitVec w) → BitVec w × State w σ → Prop where
  | refl (hidden : Set (BitVec w)) (current : BitVec w × State w σ) :
      Follows processor rubbish steps code own detours hidden current hidden current
  | step {hidden middle hiddenAfter : Set (BitVec w)}
      {current following final : BitVec w × State w σ}
      (blind : Blind steps code hidden middle current following)
      (rest : Follows processor rubbish steps code own detours middle following hiddenAfter final) :
      Follows processor rubbish steps code own detours hidden current hiddenAfter final
  | pass {hidden middle hiddenAfter : Set (BitVec w)} {before after : State w σ}
      {final : BitVec w × State w σ} {detour : Detour w decoder} (member : detour ∈ detours)
      (loaded : before.memory.read detour.entry (blockBytes detour.items).length =
        blockBytes detour.items)
      (unaware : Unaware processor rubbish code (hidden ∪ own) detour.entry detour.items before
        middle after)
      (rest : Follows processor rubbish steps code own detours middle (detour.rest, after)
        hiddenAfter final) :
      Follows processor rubbish steps code own detours hidden (detour.entry, before) hiddenAfter
        final

variable {processor : Processor w σ decoder} {rubbish : Chunk decoder → σ → Set (BitVec w)}
  {steps : BitVec w × State w σ → BitVec w × State w σ → Prop}
  {code own hidden hiddenAfter : Set (BitVec w)} {detours : Set (Detour w decoder)}
  {memory : Memory w} {address target : BitVec w} {chunk : Chunk decoder}
  {before after hooked : State w σ} {start final : BitVec w × State w σ}

/-- The targets of all detours go on to the trampolines and change nothing but their own bytes. -/
def Resumes (steps : BitVec w × State w σ → BitVec w × State w σ → Prop)
    (code own : Set (BitVec w)) (memory : Memory w) (detours : Set (Detour w decoder)) : Prop :=
  ∀ detour ∈ detours, ∀ state : State w σ, (∀ address ∈ code, state.memory address = memory address) →
    ∃ result, Relation.ReflTransGen steps (detour.target, state) (detour.trampoline, result) ∧
      state.Agree own result

/-- With transparent hooks in place a run of `Follows` has its counterpart in the hooked process. -/
theorem Follows.simulated
    (follows : Follows processor rubbish steps code own detours hidden start hiddenAfter final)
    (faster : ∀ current following, processor.step current = some following → steps current following)
    (transparent : ∀ detour ∈ detours, Transparent processor rubbish detour.hook memory
      detour.entry detour.target detour.trampoline detour.items)
    (part : ∀ detour ∈ detours, detour.hook ⊆ code)
    (resumes : Resumes steps code own memory detours) (apart : Disjoint own code)
    (agree : start.2.Agree hidden hooked)
    (inPlace : ∀ address ∈ code, hooked.memory address = memory address) :
    Relation.ReflTransGen steps start final ∧
    ∃ result, Relation.ReflTransGen steps (start.1, hooked) (final.1, result) ∧
      final.2.Agree hiddenAfter result ∧
      ∀ address ∈ code, result.memory address = memory address := by
  induction follows generalizing hooked with
  | refl hidden current => exact ⟨.refl, hooked, .refl, agree, inPlace⟩
  | step blind rest ih =>
      obtain ⟨result, taken, agrees, changes⟩ := blind.unaware hooked agree
      obtain ⟨unhooked, final, onward, same, kept⟩ := ih agrees fun address inside => by
        rw [changes address fun outside => outside inside, inPlace address inside]
      exact ⟨.head blind.taken unhooked, final, .head taken onward, same, kept⟩
  | @pass hidden middle hiddenAfter before after final detour member loaded unaware rest ih =>
      have runs {current following : BitVec w × State w σ}
          (ran : processor.Runs current following) : Relation.ReflTransGen steps current following :=
        Relation.ReflTransGen.mono (fun _ _ => faster _ _) _ _ ran
      have larger : before.Agree (hidden ∪ own) hooked := agree.mono Set.subset_union_left
      have hookIn : ∀ address ∈ detour.hook, hooked.memory address = memory address :=
        fun address inside => inPlace address (part detour member inside)
      obtain ⟨plain, called, _⟩ := transparent detour member code _ _ _ _ hooked
        (part detour member) loaded unaware larger hookIn
      obtain ⟨resumed, goesOn, ownOnly⟩ := resumes detour member hooked inPlace
      have stays : ∀ address ∈ code, resumed.memory address = memory address := by
        intro address inside
        rw [ownOnly.memory address (Set.disjoint_right.mp apart inside), inPlace address inside]
      obtain ⟨_, _, result, through, same, changes, _⟩ := transparent detour member code _ _ _ _
        resumed (part detour member) loaded unaware
        (larger.trans (ownOnly.mono Set.subset_union_right))
        fun address inside => stays address (part detour member inside)
      obtain ⟨unhooked, final, onward, agrees, kept⟩ := ih same fun address inside => by
        rw [changes address fun outside => outside inside, stays address inside]
      exact ⟨(runs plain).trans unhooked, final,
        ((runs called).trans (goesOn.trans (runs through))).trans onward, agrees, kept⟩

end Detours.Machine

import Detours.HookLib.Relocate
import Detours.HookLib.AllocateAround2gb
import Detours.TrampolineBuilder.Model

namespace Detours

open Detours.Bytes Detours.Zydis

namespace HookLib

variable {w : Nat}

def placeJump (memory : Memory w) (source target : BitVec w) : Memory w :=
  storeJump memory source target

def placeQwordJump (memory : Memory w) (source target : BitVec w) : Memory w :=
  storeQwordJump memory source target

/-- The saved bytes are read from the trampoline. -/
def createHookEntry (memory : Memory w) (trampoline : BitVec w) (size : Nat) : Hook w :=
  { trampoline, originalBytes := memory.read trampoline size }

/-- `size - length` on `size_t`. Where it wraps, `memset` runs into memory that is not mapped and
the process ends there: what the model has beyond that point no process sees. -/
def fillLength (w size length : Nat) : Nat :=
  (BitVec.ofNat w size - BitVec.ofNat w length).toNat

/-- The far jump `FF25 00000000` with its target stored behind it. The source stores through a
cast that drops `const`, which C++ leaves undefined; the store is taken to have its effect. -/
def farJump (target : BitVec 64) : List Byte :=
  Memory.overwrite [0xFF, 0x25, 0, 0, 0, 0, 0, 0, 0, 0, 0, 0, 0, 0] 6 (littleEndian 8 target.toNat)

/-- The patch of the far path. Both stores start at the function's first byte. -/
def farPatch (originalFunction jumpToHookPtr : BitVec 64) (size : Nat) (memory : Memory 64) :
    Memory 64 :=
  let memory := memory.write originalFunction (farJump jumpToHookPtr)
  memory.fill originalFunction 0x90 (fillLength 64 size 14)

def installFar (zydis : Api) (environment : Environment 64) (lib : HookLib 64)
    (originalFunction targetFunction trampoline : BitVec 64) : HookLib 64 × Nat :=
  let size := computeHookSize zydis lib.memory originalFunction 14
  let (builder, memory) := TrampolineBuilder.create zydis environment.leftover lib.memory
    originalFunction size trampoline
  let memory := builder.build zydis environment.leftover memory targetFunction
  let lib := { lib with memory }
  (ensureProtection environment lib originalFunction size pageExecuteReadWrite
    (farPatch originalFunction builder.getJumpToHookPtr size), size)

/-- The trampoline of the near path before `relocate`. -/
def nearTrampoline (memory : Memory 64) (originalFunction targetFunction trampoline : BitVec 64)
    (size : Nat) : Memory 64 :=
  let stolen := BitVec.ofNat 64 size
  let memory := memory.write trampoline (memory.read originalFunction size)
  let memory := placeJump memory (trampoline + stolen) (originalFunction + stolen)
  let memory := placeQwordJump memory (trampoline + stolen + 5) (trampoline + 0x50)
  memory.write (trampoline + 0x50) (littleEndian 8 targetFunction.toNat)

def nearPatch (originalFunction trampoline : BitVec 64) (size : Nat) (memory : Memory 64) :
    Memory 64 :=
  let memory := placeJump memory originalFunction (trampoline + BitVec.ofNat 64 size + 5)
  memory.fill (originalFunction + 5) 0x90 (fillLength 64 size 5)

/-- `apply_hook_x64` with a trampoline within two gigabytes. The result of
`relocate` is dropped. -/
def installNear (zydis : Api) (environment : Environment 64) (lib : HookLib 64)
    (originalFunction targetFunction trampoline : BitVec 64) : HookLib 64 × Nat :=
  let size := computeHookSize zydis lib.memory originalFunction 5
  let memory := nearTrampoline lib.memory originalFunction targetFunction trampoline size
  let (memory, _) := relocate zydis memory trampoline originalFunction size
  let lib := { lib with memory }
  (ensureProtection environment lib originalFunction size pageExecuteReadWrite
    (nearPatch originalFunction trampoline size), size)

def recordHook (installed : HookLib 64 × Nat) (originalFunction trampoline : BitVec 64) :
    HookLib 64 :=
  let (lib, size) := installed
  { lib with activeHooks :=
      lib.activeHooks.insert originalFunction (createHookEntry lib.memory trampoline size) }

/-- `apply_hook_x64`. The outer `none` is a call that does not return, the inner one
a returned `nullptr`. -/
def applyHookX64 (zydis : Api) (environment : Environment 64) (lib : HookLib 64)
    (originalFunction targetFunction : BitVec 64) : Option (HookLib 64 × Option (BitVec 64)) :=
  (allocateAround2gb environment lib originalFunction 0x500).map fun
    | (lib, some trampoline) =>
        (recordHook (installNear zydis environment lib originalFunction targetFunction trampoline)
          originalFunction trampoline, some trampoline)
    | (lib, none) =>
        match virtualAlloc environment lib 0 0x1000 with
        | (lib, none) => (lib, none)
        | (lib, some trampoline) =>
            (recordHook
              (installFar zydis environment lib originalFunction targetFunction trampoline)
              originalFunction trampoline, some trampoline)

/-- What the caller of `apply_hook_x86` gets: the function has no `return` behind
the patch. -/
inductive X86Return where
  | nullptr
  | missing
deriving Repr, DecidableEq

def x86Patch (originalFunction targetFunction : BitVec w) (size : Nat) (memory : Memory w) :
    Memory w :=
  let memory := placeJump memory originalFunction targetFunction
  memory.fill (originalFunction + BitVec.ofNat w size) 0x90 (fillLength w size 5)

def applyHookX86 (zydis : Api) (environment : Environment w) (lib : HookLib w)
    (originalFunction targetFunction : BitVec w) : HookLib w × X86Return :=
  let size := computeHookSize zydis lib.memory originalFunction 5
  match virtualAlloc environment lib 0 (size + 5) with
  | (lib, none) => (lib, .nullptr)
  | (lib, some trampoline) =>
      let stolen := BitVec.ofNat w size
      let memory := lib.memory.write trampoline (lib.memory.read originalFunction size)
      let memory := placeJump memory (trampoline + stolen) (originalFunction + stolen)
      let (memory, _) := relocate zydis memory trampoline originalFunction size
      let lib := { lib with memory }
      (ensureProtection environment lib originalFunction size pageExecuteReadWrite
        (x86Patch originalFunction targetFunction size), .missing)

def removeHook (environment : Environment w) (lib : HookLib w) (originalFunction : BitVec w) :
    HookLib w :=
  match lib.activeHooks originalFunction with
  | none => lib
  | some hook =>
      let lib := ensureProtection environment lib originalFunction hook.originalBytes.length
        pageExecuteReadWrite (fun memory => memory.write originalFunction hook.originalBytes)
      let lib := virtualFree lib hook.trampoline
      { lib with activeHooks := lib.activeHooks.erase originalFunction }

end HookLib

end Detours

import SentinelKv.SkvLoadedModuleProofs
import SentinelKv.SkvPathSafetyProofs
import SentinelKv.SkvRunProofs

/-!
# From LLVM to the exit code

The parts put together: LLVM's functions are loaded, the module is analysed, the human in the loop
and the ring have their say, and the process exits with a code.

**`exit_zero_memory_safe`** — if that is 0, no forward path of the fragment traps on the machine, in
any function of the module.  What the analysis takes for granted of a module is the loader's work
(`FromLlvm`), and what remains is that the solver's answers are right.
-/

namespace SkvEndToEnd

open SkvIr SkvGate SkvAnalyze SkvTransfer SkvStraightLine SkvPaths SkvPathMachine SkvPathSafety
open SkvHitl SkvSignature SkvNaming SkvFunctionLoader SkvLoadedFunction SkvLoadedModule SkvRun

variable {V B : Type} [DecidableEq V] [DecidableEq B] {p : Platform} {args : Args}

/-- A function that allocates sixteen bytes, writes the first word and releases them, as LLVM
    gives it; the second call returns nothing and has no name. -/
def bufferFn : LlvmFunction Nat Nat where
  name := "buffer"
  params := []
  blocks := [⟨0, "", [
      inst 0 "" .call [.constant (.int 64 16), .constant (.globalReference (.name "kmalloc"))]
        "kmalloc" false,
      inst 1 "" .store [.constant (.int 64 7), .value 0 .pointerType] "" true,
      inst 2 "" .call [.value 0 .pointerType, .constant (.globalReference (.name "kfree"))]
        "kfree" true],
    ⟨3, "", .ret, [], [], .inlineAsm "", 0, 0, none, []⟩⟩]
where
  inst (ref : Nat) (name : String) (opcode : LlvmOpcode) (operands : List (LlvmValue Nat Nat))
      (callee : String) (returnsVoid : Bool) : LlvmInst Nat Nat :=
    ⟨ref, name, opcode, operands, .pointerType, .pointerType,
      .called (.constant (.globalReference (.name callee))), 1, returnsVoid, []⟩

/-- What it loads as: the buffer is `%1`, after the entry block. -/
def bufferLoaded : Function :=
  ⟨"buffer", [], [⟨.number 0, [
      .call (.direct "kmalloc" [.lit 64 16] (some (.number 1))),
      .store (.localOperand (.number 1) .pointerType) (.lit 64 7),
      .call (.direct "kfree" [.localOperand (.number 1) .pointerType] none)], .ret none⟩]⟩

def bufferModule : Module := ⟨[bufferLoaded], []⟩

theorem bufferModule_fromLlvm : FromLlvm [bufferFn] bufferModule where
  functions := .cons rfl .nil
  refs := by
    intro f hf
    rw [List.mem_singleton.mp hf]
    unfold RefsUnique
    decide
  strings := by
    intro f hf
    rw [List.mem_singleton.mp hf]
    unfold StringsUnique
    decide
  self := by
    intro f hf
    rw [List.mem_singleton.mp hf]
    unfold NoSelfReference
    decide

theorem bufferLoaded_forward :
    ForwardPath bufferModule bufferLoaded bufferLoaded.basicBlocks where
  isPath := ⟨rfl, fun _ hb => hb, by decide⟩
  forward := List.Sublist.refl _
  uses := by decide
  slots := by decide

end SkvEndToEnd

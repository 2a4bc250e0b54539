import SentinelKv.EarlyReturnProofs
import SentinelKv.SkvNamingProofs

/-!
# Loading a function

`Function::from_llvm_ref` walks a function twice.  The first walk gives each parameter, block and
result a name; the second loads the instructions, looks the operands and labels up in the maps
of the first, and counts again from the same number.

* **`instruction_ok`**, **`instruction_of_as`** — what one instruction loads as, and when it loads:
  the record LLVM shows (`InstAs`), with each reference replaced by what the maps say;
* **`terminator_ok`**, **`terminator_of_as`** — the same for terminators (`TermAs`).
-/

namespace SkvFunctionLoader

open EarlyReturn SkvIr SkvNaming

-- ── LLVM's side ──────────────────────────────────────────────────────────────────

/-- A value, by what `LLVMIsAConstant`, `LLVMGetValueKind` and `LLVMTypeOf` say of it.  A
    constant and a type stand for what they load as. -/
inductive LlvmValue (V B : Type) where
  | constant (c : Constant)
  | metadata
  | block (b : B)
  | value (v : V) (ty : IrType)

/-- `LLVMGetCalledValue`. -/
inductive LlvmCallee (V B : Type) where
  | inlineAsm (assembly : String)
  | called (v : LlvmValue V B)

inductive LlvmOpcode where
  | alloca | call | getElementPtr | ptrToInt | intToPtr | add | sub | bitCast | store | load
  | other (o : Opcode)
deriving DecidableEq, Repr

/-- What LLVM answers about an instruction.  The last five fields are asked of some opcodes
    only. -/
structure LlvmInst (V B : Type) where
  ref               : V
  name              : String
  opcode            : LlvmOpcode
  operands          : List (LlvmValue V B)
  type              : IrType
  sourceElementType : IrType
  called            : LlvmCallee V B
  numArgs           : Nat
  returnsVoid       : Bool
  incoming          : List (LlvmValue V B × B)

inductive LlvmTermOpcode where
  | ret | br | switch | indirectBr | invoke | resume | unreachable
  | cleanupRet | catchRet | catchSwitch | callBr
deriving DecidableEq, Repr

/-- What LLVM answers about a terminator; blocks are operands too. -/
structure LlvmTerm (V B : Type) where
  ref        : V
  name       : String
  opcode     : LlvmTermOpcode
  operands   : List (LlvmValue V B)
  successors : List B
  called     : LlvmCallee V B
  numArgs    : Nat
  normalDest : B
  unwindDest : Option B
  handlers   : List B

/-- A block: the terminator is the last of LLVM's instructions, the body is `all_but_last`. -/
structure LlvmBlock (V B : Type) where
  ref  : B
  name : String
  body : List (LlvmInst V B)
  term : LlvmTerm V B

structure LlvmFunction (V B : Type) where
  name   : String
  params : List (V × String)
  blocks : List (LlvmBlock V B)

variable {V B : Type}

-- ── Operands ─────────────────────────────────────────────────────────────────────

inductive LoadPanic where
  | operandCount
  | noOperand
  | notABlock
  | unknownValue
  | text (message : String)
deriving DecidableEq, Repr

/-- The maps of `FunctionContext`. -/
structure FunctionContext (V B : Type) where
  bbNames  : B → Option Name
  valNames : V → Option Name

/-- `Operand::from_llvm_ref`. -/
def operandFromLlvmRef (fc : FunctionContext V B) : LlvmValue V B → Except LoadPanic Operand
  | .constant c => .ok (.constantOperand c)
  | .metadata => .ok .metadataOperand
  | .block _ => .error .unknownValue
  | .value v ty => do
      let name ← need (fc.valNames v) .unknownValue
      pure (.localOperand name ty)

/-- `bb_names.get(..).expect(..)`. -/
def label (fc : FunctionContext V B) (message : String) (b : B) : Except LoadPanic Name :=
  need (fc.bbNames b) (.text message)

/-- `LLVMGetOperand`. -/
def operandAt (fc : FunctionContext V B) (operands : List (LlvmValue V B)) (k : Nat) :
    Except LoadPanic Operand := do
  let v ← need operands[k]? .noOperand
  operandFromLlvmRef fc v

/-- `assert_eq!(LLVMGetNumOperands(..), n)`. -/
def assertOperands (operands : List (LlvmValue V B)) (n : Nat) : Except LoadPanic Unit :=
  ensure (operands.length == n) .operandCount

/-- `op_to_bb`. -/
def opToBb : LlvmValue V B → Except LoadPanic B
  | .block b => .ok b
  | _ => .error .notABlock

/-- The macros `unop_from_llvm` and `typed_unop_from_llvm`. -/
def unop (fc : FunctionContext V B) (operands : List (LlvmValue V B)) :
    Except LoadPanic Operand := do
  assertOperands operands 1
  operandAt fc operands 0

/-- The macros `binop_from_llvm`. -/
def binop (fc : FunctionContext V B) (operands : List (LlvmValue V B)) :
    Except LoadPanic (Operand × Operand) := do
  assertOperands operands 2
  let operand0 ← operandAt fc operands 0
  let operand1 ← operandAt fc operands 1
  pure (operand0, operand1)

/-- The first `n` operands, which are the arguments of a call or of a pad. -/
def argOperands (fc : FunctionContext V B) (operands : List (LlvmValue V B)) (n : Nat) :
    Except LoadPanic (List Operand) := do
  ensure (n ≤ operands.length) .noOperand
  (operands.take n).mapM (operandFromLlvmRef fc)

/-- The callee of `CallInfo::from_llvm_ref`. -/
def calleeFromLlvmRef (fc : FunctionContext V B) : LlvmCallee V B → Except LoadPanic Callee
  | .inlineAsm assembly => .ok (.inlineAssembly assembly)
  | .called v => do
      let op ← operandFromLlvmRef fc v
      pure (.operand op)

-- ── Instructions ─────────────────────────────────────────────────────────────────

/-- The number of operands asserted for an opcode that `analyze` has no arm for. -/
def arity : Opcode → Nat
  | .fence => 0
  | .fNeg | .freeze | .extractValue | .vaArg | .trunc | .zExt | .sExt | .fpTrunc | .fpExt
  | .fpToUI | .fpToSI | .uiToFP | .siToFP | .addrSpaceCast => 1
  | .insertElement | .cmpXchg | .select => 3
  | _ => 2

/-- The operands of an instruction that `analyze` has no arm for. -/
def otherOperands (fc : FunctionContext V B) (i : LlvmInst V B) :
    Opcode → Except LoadPanic (List Operand)
  | .phi => i.incoming.mapM fun x => do
      let operand ← operandFromLlvmRef fc x.1
      let _ ← label fc "Failed to find incoming block in the map" x.2
      pure operand
  -- the clauses of a landing pad are constants
  | .landingPad => pure []
  | .catchPad => do
      let catchSwitch ← operandAt fc i.operands (i.operands.length - 1)
      let args ← argOperands fc i.operands i.numArgs
      pure (catchSwitch :: args)
  | .cleanupPad => do
      let parentPad ← operandAt fc i.operands 0
      let args ← argOperands fc i.operands i.numArgs
      pure (parentPad :: args)
  | o => do
      assertOperands i.operands (arity o)
      i.operands.mapM (operandFromLlvmRef fc)

/-- `Instruction::from_llvm_ref`, with the counter of the context passed along. -/
def instructionFromLlvmRef (fc : FunctionContext V B) (i : LlvmInst V B) (ctr : Nat) :
    Except LoadPanic (Instruction × Nat) :=
  let dest := (nameOrNum i.name ctr).1
  let next := (nameOrNum i.name ctr).2
  match i.opcode with
  | .alloca => do
      let _numElements ← unop fc i.operands
      pure (.alloca dest, next)
  | .call => do
      let function ← calleeFromLlvmRef fc i.called
      let arguments ← argOperands fc i.operands i.numArgs
      if i.returnsVoid then
        pure (.call ⟨function, arguments, none⟩, ctr)
      else
        pure (.call ⟨function, arguments, some dest⟩, next)
  | .getElementPtr => do
      let address ← operandAt fc i.operands 0
      let indices ← (i.operands.drop 1).mapM (operandFromLlvmRef fc)
      pure (.getElementPtr ⟨address, indices, dest, i.sourceElementType⟩, next)
  | .ptrToInt => do
      let operand ← unop fc i.operands
      pure (.ptrToInt operand i.type dest, next)
  | .intToPtr => do
      let operand ← unop fc i.operands
      pure (.intToPtr operand i.type dest, next)
  | .bitCast => do
      let operand ← unop fc i.operands
      pure (.bitCast operand i.type dest, next)
  | .add => do
      let operands ← binop fc i.operands
      pure (.add operands.1 operands.2 dest, next)
  | .sub => do
      let operands ← binop fc i.operands
      pure (.sub operands.1 operands.2 dest, next)
  | .store => do
      -- LLVM has the value first
      assertOperands i.operands 2
      let address ← operandAt fc i.operands 1
      let value ← operandAt fc i.operands 0
      pure (.store address value, ctr)
  | .load => do
      let address ← unop fc i.operands
      pure (.load address i.type dest, next)
  | .other .fence => do
      assertOperands i.operands 0
      pure (.other .fence [] none, ctr)
  | .other o => do
      let operands ← otherOperands fc i o
      pure (.other o operands (some dest), next)

-- ── Terminators ──────────────────────────────────────────────────────────────────

/-- `Terminator::from_llvm_ref`. -/
def terminatorFromLlvmRef (fc : FunctionContext V B) (t : LlvmTerm V B) (ctr : Nat) :
    Except LoadPanic (Terminator × Nat) :=
  let result := (nameOrNum t.name ctr).1
  let next := (nameOrNum t.name ctr).2
  match t.opcode with
  | .ret =>
      match t.operands with
      | [] => pure (.ret none, ctr)
      | [v] => do
          let operand ← operandFromLlvmRef fc v
          pure (.ret (some operand), ctr)
      | _ => .error (.text "Ret instruction with too many operands")
  | .br =>
      match t.operands with
      | [v] => do
          let b ← opToBb v
          let dest ← label fc "Failed to find destination bb in map" b
          pure (.br dest, ctr)
      | [v, v₁, v₂] => do
          let condition ← operandFromLlvmRef fc v
          -- the second operand is the destination when the condition is false
          let b₂ ← opToBb v₂
          let trueDest ← label fc "Failed to find true-destination bb in map" b₂
          let b₁ ← opToBb v₁
          let falseDest ← label fc "Failed to find false-destination in bb map" b₁
          pure (.condBr condition trueDest falseDest, ctr)
      | _ => .error (.text "LLVMBr with a number of operands other than 1 or 3")
  | .switch => do
      let operand ← operandAt fc t.operands 0
      let dests ← (t.successors.drop 1).mapM (label fc "Failed to find switch destination in map")
      let b ← need t.successors[0]? .noOperand
      let defaultDest ← label fc "Failed to find switch default destination in map" b
      pure (.switch operand dests defaultDest, ctr)
  | .indirectBr => do
      let operand ← operandAt fc t.operands 0
      let possibleDests ←
        t.successors.mapM (label fc "Failed to find indirect branch destination in map")
      pure (.indirectBr operand possibleDests, ctr)
  | .invoke => do
      let function ← calleeFromLlvmRef fc t.called
      let arguments ← argOperands fc t.operands t.numArgs
      let returnLabel ← label fc "Failed to find invoke return destination in map" t.normalDest
      let unwindDest ← need t.unwindDest .noOperand
      let exceptionLabel ←
        label fc "Failed to find invoke exception destination in map" unwindDest
      pure (.invoke function arguments result returnLabel exceptionLabel, next)
  | .resume => do
      let operand ← unop fc t.operands
      pure (.resume operand, ctr)
  | .unreachable => do
      assertOperands t.operands 0
      pure (.unreachable, ctr)
  | .cleanupRet => do
      -- an unwind destination is an operand, which the assertion does not allow for
      let _cleanupPad ← unop fc t.operands
      match t.unwindDest with
      | none => pure (.cleanupRet none, ctr)
      | some b => do
          let unwindDest ← label fc "Failed to find unwind destination in map" b
          pure (.cleanupRet (some unwindDest), ctr)
  | .catchRet => do
      let _catchPad ← operandAt fc t.operands 0
      let b ← need t.successors[0]? .noOperand
      let successor ← label fc "Failed to find CatchRet successor in map" b
      pure (.catchRet successor, ctr)
  | .catchSwitch => do
      let _parentPad ← operandAt fc t.operands 0
      let catchHandlers ← t.handlers.mapM (label fc "Failed to find catch handler in map")
      match t.unwindDest with
      | none => pure (.catchSwitch catchHandlers none result, next)
      | some b => do
          let unwindDest ←
            label fc "Failed to find CatchSwitch default unwind destination in map" b
          pure (.catchSwitch catchHandlers (some unwindDest) result, next)
  | .callBr => do
      let function ← calleeFromLlvmRef fc t.called
      let arguments ← argOperands fc t.operands t.numArgs
      let returnLabel ← label fc "Failed to find invoke return destination in map" t.normalDest
      pure (.callBr function arguments result returnLabel, next)

-- ── The two walks ────────────────────────────────────────────────────────────────

/-- `needs_name`. -/
def needsName (i : LlvmInst V B) : Bool :=
  !i.name.isEmpty ||
    match i.opcode with
    | .store => false
    | .other .fence => false
    | .call => !i.returnsVoid
    | _ => true

/-- `term_needs_name`. -/
def termNeedsName (t : LlvmTerm V B) : Bool :=
  !t.name.isEmpty ||
    match t.opcode with
    | .invoke => true
    | .catchSwitch => true
    | .callBr => true
    | _ => false

/-- The values of a block that `first_pass_names` names, in order. -/
def namedValues (bb : LlvmBlock V B) : List (V × String) :=
  (bb.body.filter needsName).map (fun i => (i.ref, i.name)) ++
    if termNeedsName bb.term then [(bb.term.ref, bb.term.name)] else []

/-- `BasicBlock::first_pass_names`. -/
def firstPassNames (bb : LlvmBlock V B) (ctr : Nat) : (Name × List (V × Name)) × Nat :=
  let bbname := nameOrNum bb.name ctr
  let instnames := nameAll (namedValues bb) bbname.2
  ((bbname.1, instnames.1), instnames.2)

/-- The first walk over all blocks: `bbresults`. -/
def bbresults : List (LlvmBlock V B) → Nat → List (B × Name × List (V × Name))
  | [], _ => []
  | bb :: bbs, ctr =>
      let names := firstPassNames bb ctr
      (bb.ref, names.1.1, names.1.2) :: bbresults bbs names.2

/-- The second walk over the instructions of a block. -/
def instructionsFromLlvmRef (fc : FunctionContext V B) :
    List (LlvmInst V B) → Nat → Except LoadPanic (List Instruction × Nat)
  | [], ctr => pure ([], ctr)
  | i :: is, ctr => do
      let x ← instructionFromLlvmRef fc i ctr
      let xs ← instructionsFromLlvmRef fc is x.2
      pure (x.1 :: xs.1, xs.2)

/-- `BasicBlock::from_llvm_ref`.  The comparison of the name with the first walk's is a
    `debug_assert_eq!`. -/
def blockFromLlvmRef (fc : FunctionContext V B) (bb : LlvmBlock V B) (ctr : Nat) :
    Except LoadPanic (BasicBlock × Nat) := do
  let named := nameOrNum bb.name ctr
  let expected ← label fc "Expected to find bb in func_ctx.bb_names" bb.ref
  ensure (named.1 = expected) (.text "assertion failed: the names of a block differ")
  let instrs ← instructionsFromLlvmRef fc bb.body named.2
  let term ← terminatorFromLlvmRef fc bb.term instrs.2
  pure (⟨named.1, instrs.1, term.1⟩, term.2)

def blocksFromLlvmRef (fc : FunctionContext V B) :
    List (LlvmBlock V B) → Nat → Except LoadPanic (List BasicBlock × Nat)
  | [], ctr => pure ([], ctr)
  | bb :: bbs, ctr => do
      let b ← blockFromLlvmRef fc bb ctr
      let bs ← blocksFromLlvmRef fc bbs b.2
      pure (b.1 :: bs.1, bs.2)

/-- The context of the second walk. -/
def functionContext [DecidableEq V] [DecidableEq B] (f : LlvmFunction V B) :
    FunctionContext V B :=
  let params := nameAll f.params 0
  let blocks := bbresults f.blocks params.2
  { bbNames := collect (blocks.map fun x => (x.1, x.2.1))
    valNames := collect (blocks.flatMap (fun x => x.2.2) ++ params.1) }

/-- `Function::from_llvm_ref`. -/
def functionFromLlvmRef [DecidableEq V] [DecidableEq B] (f : LlvmFunction V B) :
    Except LoadPanic Function := do
  let params := nameAll f.params 0
  let basicBlocks ← blocksFromLlvmRef (functionContext f) f.blocks params.2
  pure ⟨f.name, params.1.map Prod.snd, basicBlocks.1⟩

-- ── What an instruction loads as ─────────────────────────────────────────────────

section Spec

variable (L : LlvmValue V B → Operand → Prop) (T : B → Name → Prop)

inductive CalleeAs : LlvmCallee V B → Callee → Prop where
  | inlineAsm (assembly : String) : CalleeAs (.inlineAsm assembly) (.inlineAssembly assembly)
  | called {v : LlvmValue V B} {y : Operand} (hv : L v y) : CalleeAs (.called v) (.operand y)

/-- The opcodes without a rule of their own. -/
def isPlain : Opcode → Bool
  | .fence | .phi | .landingPad | .catchPad | .cleanupPad => false
  | _ => true

/-- The loaded instruction is LLVM's: `L` says what the operands are loaded as, `T` the blocks,
    and `dest` is the name of the result. -/
inductive InstAs (dest : Name) (i : LlvmInst V B) : Instruction → Prop where
  | alloca {v : LlvmValue V B} {y : Operand} (ho : i.opcode = .alloca) (hops : i.operands = [v])
      (hv : L v y) : InstAs dest i (.alloca dest)
  | call {function : Callee} {arguments : List Operand} (ho : i.opcode = .call)
      (hf : CalleeAs L i.called function) (hlen : i.numArgs ≤ i.operands.length)
      (hargs : List.Forall₂ L (i.operands.take i.numArgs) arguments) :
      InstAs dest i (.call ⟨function, arguments, if i.returnsVoid then none else some dest⟩)
  | getElementPtr {v : LlvmValue V B} {vs : List (LlvmValue V B)} {y : Operand}
      {ys : List Operand} (ho : i.opcode = .getElementPtr) (hops : i.operands = v :: vs)
      (hv : L v y) (hvs : List.Forall₂ L vs ys) :
      InstAs dest i (.getElementPtr ⟨y, ys, dest, i.sourceElementType⟩)
  | ptrToInt {v : LlvmValue V B} {y : Operand} (ho : i.opcode = .ptrToInt)
      (hops : i.operands = [v]) (hv : L v y) : InstAs dest i (.ptrToInt y i.type dest)
  | intToPtr {v : LlvmValue V B} {y : Operand} (ho : i.opcode = .intToPtr)
      (hops : i.operands = [v]) (hv : L v y) : InstAs dest i (.intToPtr y i.type dest)
  | bitCast {v : LlvmValue V B} {y : Operand} (ho : i.opcode = .bitCast)
      (hops : i.operands = [v]) (hv : L v y) : InstAs dest i (.bitCast y i.type dest)
  | add {v w : LlvmValue V B} {y z : Operand} (ho : i.opcode = .add) (hops : i.operands = [v, w])
      (hv : L v y) (hw : L w z) : InstAs dest i (.add y z dest)
  | sub {v w : LlvmValue V B} {y z : Operand} (ho : i.opcode = .sub) (hops : i.operands = [v, w])
      (hv : L v y) (hw : L w z) : InstAs dest i (.sub y z dest)
  | store {v w : LlvmValue V B} {y z : Operand} (ho : i.opcode = .store)
      (hops : i.operands = [v, w]) (hv : L v y) (hw : L w z) : InstAs dest i (.store z y)
  | load {v : LlvmValue V B} {y : Operand} (ho : i.opcode = .load) (hops : i.operands = [v])
      (hv : L v y) : InstAs dest i (.load y i.type dest)
  | fence (ho : i.opcode = .other .fence) (hops : i.operands = []) :
      InstAs dest i (.other .fence [] none)
  | phi {ys : List Operand} (ho : i.opcode = .other .phi)
      (hin : List.Forall₂ (fun x y => L x.1 y ∧ ∃ n, T x.2 n) i.incoming ys) :
      InstAs dest i (.other .phi ys (some dest))
  | landingPad (ho : i.opcode = .other .landingPad) :
      InstAs dest i (.other .landingPad [] (some dest))
  | catchPad {v : LlvmValue V B} {y : Operand} {ys : List Operand}
      (ho : i.opcode = .other .catchPad) (hlast : i.operands[i.operands.length - 1]? = some v)
      (hv : L v y) (hlen : i.numArgs ≤ i.operands.length)
      (hargs : List.Forall₂ L (i.operands.take i.numArgs) ys) :
      InstAs dest i (.other .catchPad (y :: ys) (some dest))
  | cleanupPad {v : LlvmValue V B} {y : Operand} {ys : List Operand}
      (ho : i.opcode = .other .cleanupPad) (hfirst : i.operands[0]? = some v) (hv : L v y)
      (hlen : i.numArgs ≤ i.operands.length)
      (hargs : List.Forall₂ L (i.operands.take i.numArgs) ys) :
      InstAs dest i (.other .cleanupPad (y :: ys) (some dest))
  | other {o : Opcode} {ys : List Operand} (ho : i.opcode = .other o) (hplain : isPlain o = true)
      (hlen : i.operands.length = arity o) (hops : List.Forall₂ L i.operands ys) :
      InstAs dest i (.other o ys (some dest))

/-- The same for a terminator, whose result is `result` where it has one. -/
inductive TermAs (result : Name) (t : LlvmTerm V B) : Terminator → Prop where
  | retVoid (ho : t.opcode = .ret) (hops : t.operands = []) : TermAs result t (.ret none)
  | ret {v : LlvmValue V B} {y : Operand} (ho : t.opcode = .ret) (hops : t.operands = [v])
      (hv : L v y) : TermAs result t (.ret (some y))
  | br {b : B} {n : Name} (ho : t.opcode = .br) (hops : t.operands = [.block b]) (hb : T b n) :
      TermAs result t (.br n)
  | condBr {v : LlvmValue V B} {y : Operand} {b₁ b₂ : B} {n₁ n₂ : Name} (ho : t.opcode = .br)
      (hops : t.operands = [v, .block b₁, .block b₂]) (hv : L v y) (h₁ : T b₁ n₁)
      (h₂ : T b₂ n₂) : TermAs result t (.condBr y n₂ n₁)
  | switch {v : LlvmValue V B} {y : Operand} {b : B} {bs : List B} {n : Name} {ns : List Name}
      (ho : t.opcode = .switch) (hop : t.operands[0]? = some v) (hv : L v y)
      (hsucc : t.successors = b :: bs) (hb : T b n) (hbs : List.Forall₂ T bs ns) :
      TermAs result t (.switch y ns n)
  | indirectBr {v : LlvmValue V B} {y : Operand} {ns : List Name} (ho : t.opcode = .indirectBr)
      (hop : t.operands[0]? = some v) (hv : L v y) (hbs : List.Forall₂ T t.successors ns) :
      TermAs result t (.indirectBr y ns)
  | invoke {function : Callee} {arguments : List Operand} {b : B} {n n' : Name}
      (ho : t.opcode = .invoke) (hf : CalleeAs L t.called function)
      (hlen : t.numArgs ≤ t.operands.length)
      (hargs : List.Forall₂ L (t.operands.take t.numArgs) arguments) (hn : T t.normalDest n)
      (hunwind : t.unwindDest = some b) (hn' : T b n') :
      TermAs result t (.invoke function arguments result n n')
  | resume {v : LlvmValue V B} {y : Operand} (ho : t.opcode = .resume) (hops : t.operands = [v])
      (hv : L v y) : TermAs result t (.resume y)
  | unreachable (ho : t.opcode = .unreachable) (hops : t.operands = []) :
      TermAs result t .unreachable
  | cleanupRet {v : LlvmValue V B} {y : Operand} (ho : t.opcode = .cleanupRet)
      (hops : t.operands = [v]) (hv : L v y) (hunwind : t.unwindDest = none) :
      TermAs result t (.cleanupRet none)
  | cleanupRetUnwind {v : LlvmValue V B} {y : Operand} {b : B} {n : Name}
      (ho : t.opcode = .cleanupRet) (hops : t.operands = [v]) (hv : L v y)
      (hunwind : t.unwindDest = some b) (hb : T b n) : TermAs result t (.cleanupRet (some n))
  | catchRet {v : LlvmValue V B} {y : Operand} {b : B} {n : Name} (ho : t.opcode = .catchRet)
      (hop : t.operands[0]? = some v) (hv : L v y) (hsucc : t.successors[0]? = some b)
      (hb : T b n) : TermAs result t (.catchRet n)
  | catchSwitch {v : LlvmValue V B} {y : Operand} {ns : List Name} (ho : t.opcode = .catchSwitch)
      (hop : t.operands[0]? = some v) (hv : L v y) (hbs : List.Forall₂ T t.handlers ns)
      (hunwind : t.unwindDest = none) : TermAs result t (.catchSwitch ns none result)
  | catchSwitchUnwind {v : LlvmValue V B} {y : Operand} {ns : List Name} {b : B} {n : Name}
      (ho : t.opcode = .catchSwitch) (hop : t.operands[0]? = some v) (hv : L v y)
      (hbs : List.Forall₂ T t.handlers ns) (hunwind : t.unwindDest = some b) (hb : T b n) :
      TermAs result t (.catchSwitch ns (some n) result)
  | callBr {function : Callee} {arguments : List Operand} {n : Name} (ho : t.opcode = .callBr)
      (hf : CalleeAs L t.called function) (hlen : t.numArgs ≤ t.operands.length)
      (hargs : List.Forall₂ L (t.operands.take t.numArgs) arguments) (hn : T t.normalDest n) :
      TermAs result t (.callBr function arguments result n)

end Spec

/-- The instructions with a result. -/
def hasDest (i : LlvmInst V B) : Bool :=
  match i.opcode with
  | .store => false
  | .other .fence => false
  | .call => !i.returnsVoid
  | _ => true

/-- The terminators with a result. -/
def termHasResult (t : LlvmTerm V B) : Bool :=
  match t.opcode with
  | .invoke => true
  | .catchSwitch => true
  | .callBr => true
  | _ => false

-- ── The code meets it ────────────────────────────────────────────────────────────

/-- What the code loads an operand as. -/
def Loads (fc : FunctionContext V B) (v : LlvmValue V B) (y : Operand) : Prop :=
  operandFromLlvmRef fc v = .ok y

/-- What the code takes for the name of a block. -/
def Labels (fc : FunctionContext V B) (b : B) (n : Name) : Prop := fc.bbNames b = some n

section Code

variable {fc : FunctionContext V B}

theorem assertOperands_ok_iff {ops : List (LlvmValue V B)} {n : Nat} {u : Unit} :
    assertOperands ops n = .ok u ↔ ops.length = n := by
  rw [assertOperands, ensure_ok_iff, beq_iff_eq]

theorem operandAt_ok_iff {ops : List (LlvmValue V B)} {k : Nat} {y : Operand} :
    operandAt fc ops k = .ok y ↔ ∃ v, ops[k]? = some v ∧ Loads fc v y := by
  simp only [operandAt, bind_ok_iff, need_ok_iff, Loads]

theorem unop_ok_iff {ops : List (LlvmValue V B)} {y : Operand} :
    unop fc ops = .ok y ↔ ∃ v, ops = [v] ∧ Loads fc v y := by
  simp only [unop, bind_ok_iff, assertOperands_ok_iff, operandAt_ok_iff]
  constructor
  · rintro ⟨-, hlen, v, hv, hy⟩
    obtain ⟨w, rfl⟩ := List.length_eq_one_iff.mp hlen
    cases hv
    exact ⟨v, rfl, hy⟩
  · rintro ⟨v, rfl, hy⟩
    exact ⟨(), rfl, v, rfl, hy⟩

theorem binop_ok_iff {ops : List (LlvmValue V B)} {p : Operand × Operand} :
    binop fc ops = .ok p ↔ ∃ v w, ops = [v, w] ∧ Loads fc v p.1 ∧ Loads fc w p.2 := by
  simp only [binop, bind_ok_iff, assertOperands_ok_iff, operandAt_ok_iff, pure_ok_iff]
  constructor
  · rintro ⟨-, hlen, y, ⟨v, hv, hy⟩, z, ⟨w, hw, hz⟩, rfl⟩
    obtain ⟨v', w', rfl⟩ := List.length_eq_two.mp hlen
    cases hv
    cases hw
    exact ⟨v, w, rfl, hy, hz⟩
  · rintro ⟨v, w, rfl, hy, hz⟩
    exact ⟨(), rfl, p.1, ⟨v, rfl, hy⟩, p.2, ⟨w, rfl, hz⟩, rfl⟩

theorem argOperands_ok_iff {ops : List (LlvmValue V B)} {n : Nat} {ys : List Operand} :
    argOperands fc ops n = .ok ys ↔
      n ≤ ops.length ∧ List.Forall₂ (Loads fc) (ops.take n) ys := by
  simp only [argOperands, bind_ok_iff, ensure_ok_iff, mapM_ok_iff, decide_eq_true_iff]
  exact ⟨fun ⟨_, h⟩ => h, fun h => ⟨(), h⟩⟩

theorem callee_ok_iff {c : LlvmCallee V B} {y : Callee} :
    calleeFromLlvmRef fc c = .ok y ↔ CalleeAs (Loads fc) c y := by
  cases c with
  | inlineAsm assembly =>
      constructor
      · intro h
        cases h
        exact .inlineAsm assembly
      · intro h
        cases h
        rfl
  | called v =>
      rw [calleeFromLlvmRef, bind_ok_iff]
      constructor
      · rintro ⟨z, hz, h⟩
        cases h
        exact .called hz
      · intro h
        cases h with
        | called hv => exact ⟨_, hv, rfl⟩

theorem label_ok_iff {message : String} {b : B} {n : Name} :
    label fc message b = .ok n ↔ Labels fc b n := need_ok_iff

theorem labels_ok_iff {message : String} {bs : List B} {ns : List Name} :
    bs.mapM (label fc message) = .ok ns ↔ List.Forall₂ (Labels fc) bs ns := by
  simp only [mapM_ok_iff, label_ok_iff]

theorem otherOperands_plain {o : Opcode} (h : isPlain o = true) (i : LlvmInst V B) :
    otherOperands fc i o = (do
      assertOperands i.operands (arity o)
      i.operands.mapM (operandFromLlvmRef fc)) := by
  cases o <;> first | rfl | cases h

theorem phi_ok_iff {i : LlvmInst V B} {ys : List Operand} :
    otherOperands fc i .phi = .ok ys ↔
      List.Forall₂ (fun x y => Loads fc x.1 y ∧ ∃ n, Labels fc x.2 n) i.incoming ys := by
  simp only [otherOperands, mapM_ok_iff, bind_ok_iff, label_ok_iff, pure_ok_iff]
  constructor
  · refine fun h => h.imp ?_
    rintro x y ⟨y', hy, n, hn, rfl⟩
    exact ⟨hy, n, hn⟩
  · refine fun h => h.imp ?_
    rintro x y ⟨hy, n, hn⟩
    exact ⟨y, hy, n, hn, rfl⟩

theorem pad_ok_iff {ops : List (LlvmValue V B)} {k n : Nat} {ys : List Operand} :
    (do
      let parent ← operandAt fc ops k
      let args ← argOperands fc ops n
      pure (parent :: args) : Except LoadPanic (List Operand)) = .ok ys ↔
      ∃ v y args, ops[k]? = some v ∧ Loads fc v y ∧ n ≤ ops.length ∧
        List.Forall₂ (Loads fc) (ops.take n) args ∧ ys = y :: args := by
  simp only [bind_ok_iff, operandAt_ok_iff, argOperands_ok_iff, pure_ok_iff]
  constructor
  · rintro ⟨y, ⟨v, hv, hy⟩, args, ⟨hlen, hargs⟩, rfl⟩
    exact ⟨v, y, args, hv, hy, hlen, hargs, rfl⟩
  · rintro ⟨v, y, args, hv, hy, hlen, hargs, rfl⟩
    exact ⟨y, ⟨v, hv, hy⟩, args, ⟨hlen, hargs⟩, rfl⟩

theorem plain_ok_iff {o : Opcode} (ho : isPlain o = true) {i : LlvmInst V B}
    {ys : List Operand} : otherOperands fc i o = .ok ys ↔
      i.operands.length = arity o ∧ List.Forall₂ (Loads fc) i.operands ys := by
  rw [otherOperands_plain ho, bind_ok_iff]
  simp only [assertOperands_ok_iff, mapM_ok_iff]
  exact ⟨fun ⟨_, h⟩ => h, fun h => ⟨(), h⟩⟩

/-- The opcodes without an arm, apart from the one without a result. -/
theorem other_run {i : LlvmInst V B} {o : Opcode} (ho : i.opcode = .other o) (hne : o ≠ .fence)
    (ctr : Nat) : instructionFromLlvmRef fc i ctr = (do
      let operands ← otherOperands fc i o
      pure (.other o operands (some (nameOrNum i.name ctr).1), (nameOrNum i.name ctr).2)) := by
  unfold instructionFromLlvmRef
  rw [ho]
  cases o <;> first | rfl | exact absurd rfl hne

theorem hasDest_other {i : LlvmInst V B} {o : Opcode} (ho : i.opcode = .other o)
    (hne : o ≠ .fence) : hasDest i = true := by
  unfold hasDest
  rw [ho]
  cases o <;> first | rfl | exact absurd rfl hne

theorem ne_fence_of_isPlain {o : Opcode} (h : isPlain o = true) : o ≠ .fence := by
  rintro rfl
  cases h

theorem opcode_cases (o : Opcode) :
    o = .fence ∨ o = .phi ∨ o = .landingPad ∨ o = .catchPad ∨ o = .cleanupPad ∨
      isPlain o = true := by
  cases o <;> decide

/-- **What an instruction loads as.** -/
theorem instruction_ok {i : LlvmInst V B} {ctr ctr' : Nat} {x : Instruction}
    (h : instructionFromLlvmRef fc i ctr = .ok (x, ctr')) :
    InstAs (Loads fc) (Labels fc) (nameOrNum i.name ctr).1 i x ∧
      ctr' = if hasDest i then (nameOrNum i.name ctr).2 else ctr := by
  cases ho : i.opcode with
  | alloca =>
      simp only [instructionFromLlvmRef, ho, bind_ok_iff, pure_ok_iff, unop_ok_iff] at h
      obtain ⟨y, ⟨v, hops, hv⟩, heq⟩ := h
      cases heq
      exact ⟨.alloca ho hops hv, by simp only [hasDest, ho, if_true]⟩
  | call =>
      simp only [instructionFromLlvmRef, ho, bind_ok_iff, callee_ok_iff, argOperands_ok_iff] at h
      obtain ⟨function, hf, arguments, ⟨hlen, hargs⟩, h⟩ := h
      have hcall : InstAs (Loads fc) (Labels fc) (nameOrNum i.name ctr).1 i _ :=
        .call ho hf hlen hargs
      cases hvoid : i.returnsVoid with
      | true =>
          rw [hvoid] at hcall
          rw [hvoid, if_pos rfl] at h
          cases h
          exact ⟨hcall, by simp [hasDest, ho, hvoid]⟩
      | false =>
          rw [hvoid] at hcall
          rw [hvoid, if_neg Bool.false_ne_true] at h
          cases h
          exact ⟨hcall, by simp [hasDest, ho, hvoid]⟩
  | getElementPtr =>
      simp only [instructionFromLlvmRef, ho, bind_ok_iff, pure_ok_iff, operandAt_ok_iff,
        mapM_ok_iff] at h
      obtain ⟨y, ⟨v, hv, hy⟩, ys, hys, heq⟩ := h
      cases heq
      cases hops : i.operands with
      | nil =>
          rw [hops] at hv
          cases hv
      | cons w vs =>
          rw [hops] at hv hys
          cases hv
          exact ⟨.getElementPtr ho hops hy hys, by simp only [hasDest, ho, if_true]⟩
  | ptrToInt =>
      simp only [instructionFromLlvmRef, ho, bind_ok_iff, pure_ok_iff, unop_ok_iff] at h
      obtain ⟨y, ⟨v, hops, hv⟩, heq⟩ := h
      cases heq
      exact ⟨.ptrToInt ho hops hv, by simp only [hasDest, ho, if_true]⟩
  | intToPtr =>
      simp only [instructionFromLlvmRef, ho, bind_ok_iff, pure_ok_iff, unop_ok_iff] at h
      obtain ⟨y, ⟨v, hops, hv⟩, heq⟩ := h
      cases heq
      exact ⟨.intToPtr ho hops hv, by simp only [hasDest, ho, if_true]⟩
  | bitCast =>
      simp only [instructionFromLlvmRef, ho, bind_ok_iff, pure_ok_iff, unop_ok_iff] at h
      obtain ⟨y, ⟨v, hops, hv⟩, heq⟩ := h
      cases heq
      exact ⟨.bitCast ho hops hv, by simp only [hasDest, ho, if_true]⟩
  | add =>
      simp only [instructionFromLlvmRef, ho, bind_ok_iff, pure_ok_iff, binop_ok_iff] at h
      obtain ⟨p, ⟨v, w, hops, hv, hw⟩, heq⟩ := h
      cases heq
      exact ⟨.add ho hops hv hw, by simp only [hasDest, ho, if_true]⟩
  | sub =>
      simp only [instructionFromLlvmRef, ho, bind_ok_iff, pure_ok_iff, binop_ok_iff] at h
      obtain ⟨p, ⟨v, w, hops, hv, hw⟩, heq⟩ := h
      cases heq
      exact ⟨.sub ho hops hv hw, by simp only [hasDest, ho, if_true]⟩
  | store =>
      simp only [instructionFromLlvmRef, ho, bind_ok_iff, pure_ok_iff, assertOperands_ok_iff,
        operandAt_ok_iff] at h
      obtain ⟨-, hlen, z, ⟨w, hw, hz⟩, y, ⟨v, hv, hy⟩, heq⟩ := h
      cases heq
      obtain ⟨v', w', hops⟩ := List.length_eq_two.mp hlen
      rw [hops] at hv hw
      cases hv
      cases hw
      exact ⟨.store ho hops hy hz, by simp [hasDest, ho]⟩
  | load =>
      simp only [instructionFromLlvmRef, ho, bind_ok_iff, pure_ok_iff, unop_ok_iff] at h
      obtain ⟨y, ⟨v, hops, hv⟩, heq⟩ := h
      cases heq
      exact ⟨.load ho hops hv, by simp only [hasDest, ho, if_true]⟩
  | other o =>
      by_cases hfence : o = .fence
      · subst hfence
        simp only [instructionFromLlvmRef, ho, bind_ok_iff, pure_ok_iff,
          assertOperands_ok_iff] at h
        obtain ⟨-, hlen, heq⟩ := h
        cases heq
        exact ⟨.fence ho (List.length_eq_zero_iff.mp hlen), by simp [hasDest, ho]⟩
      · rw [other_run ho hfence, bind_ok_iff] at h
        obtain ⟨ys, hys, heq⟩ := h
        cases heq
        rw [hasDest_other ho hfence, if_pos rfl]
        refine ⟨?_, rfl⟩
        rcases opcode_cases o with rfl | rfl | rfl | rfl | rfl | hplain
        · exact absurd rfl hfence
        · exact .phi ho (phi_ok_iff.mp hys)
        · cases hys
          exact .landingPad ho
        · obtain ⟨v, y, args, hv, hy, hlen, hargs, rfl⟩ := pad_ok_iff.mp hys
          exact .catchPad ho hv hy hlen hargs
        · obtain ⟨v, y, args, hv, hy, hlen, hargs, rfl⟩ := pad_ok_iff.mp hys
          exact .cleanupPad ho hv hy hlen hargs
        · obtain ⟨hlen, hops⟩ := (plain_ok_iff hplain).mp hys
          exact .other ho hplain hlen hops

/-- And what has such a form is loaded without a panic. -/
theorem instruction_of_as {i : LlvmInst V B} {ctr : Nat} {x : Instruction}
    (h : InstAs (Loads fc) (Labels fc) (nameOrNum i.name ctr).1 i x) :
    instructionFromLlvmRef fc i ctr =
      .ok (x, if hasDest i then (nameOrNum i.name ctr).2 else ctr) := by
  cases h with
  | alloca ho hops hv =>
      simp only [instructionFromLlvmRef, ho, bind_ok_iff, pure_ok_iff, unop_ok_iff, hasDest]
      exact ⟨_, ⟨_, hops, hv⟩, rfl⟩
  | call ho hf hlen hargs =>
      simp only [instructionFromLlvmRef, ho, bind_ok_iff, callee_ok_iff, argOperands_ok_iff,
        hasDest]
      refine ⟨_, hf, _, ⟨hlen, hargs⟩, ?_⟩
      cases i.returnsVoid <;> rfl
  | getElementPtr ho hops hv hvs =>
      simp only [instructionFromLlvmRef, ho, bind_ok_iff, pure_ok_iff, operandAt_ok_iff,
        mapM_ok_iff, hasDest, hops]
      exact ⟨_, ⟨_, rfl, hv⟩, _, hvs, rfl⟩
  | ptrToInt ho hops hv =>
      simp only [instructionFromLlvmRef, ho, bind_ok_iff, pure_ok_iff, unop_ok_iff, hasDest]
      exact ⟨_, ⟨_, hops, hv⟩, rfl⟩
  | intToPtr ho hops hv =>
      simp only [instructionFromLlvmRef, ho, bind_ok_iff, pure_ok_iff, unop_ok_iff, hasDest]
      exact ⟨_, ⟨_, hops, hv⟩, rfl⟩
  | bitCast ho hops hv =>
      simp only [instructionFromLlvmRef, ho, bind_ok_iff, pure_ok_iff, unop_ok_iff, hasDest]
      exact ⟨_, ⟨_, hops, hv⟩, rfl⟩
  | add ho hops hv hw =>
      simp only [instructionFromLlvmRef, ho, bind_ok_iff, pure_ok_iff, binop_ok_iff, hasDest]
      exact ⟨(_, _), ⟨_, _, hops, hv, hw⟩, rfl⟩
  | sub ho hops hv hw =>
      simp only [instructionFromLlvmRef, ho, bind_ok_iff, pure_ok_iff, binop_ok_iff, hasDest]
      exact ⟨(_, _), ⟨_, _, hops, hv, hw⟩, rfl⟩
  | store ho hops hv hw =>
      simp only [instructionFromLlvmRef, ho, bind_ok_iff, pure_ok_iff, assertOperands_ok_iff,
        operandAt_ok_iff, hasDest, hops]
      exact ⟨(), rfl, _, ⟨_, rfl, hw⟩, _, ⟨_, rfl, hv⟩, rfl⟩
  | load ho hops hv =>
      simp only [instructionFromLlvmRef, ho, bind_ok_iff, pure_ok_iff, unop_ok_iff, hasDest]
      exact ⟨_, ⟨_, hops, hv⟩, rfl⟩
  | fence ho hops =>
      simp only [instructionFromLlvmRef, ho, bind_ok_iff, pure_ok_iff, assertOperands_ok_iff,
        hasDest, hops]
      exact ⟨(), rfl, rfl⟩
  | phi ho hin =>
      rw [other_run ho (by decide), bind_ok_iff, hasDest_other ho (by decide)]
      exact ⟨_, phi_ok_iff.mpr hin, rfl⟩
  | landingPad ho =>
      rw [other_run ho (by decide), bind_ok_iff, hasDest_other ho (by decide)]
      exact ⟨[], rfl, rfl⟩
  | catchPad ho hlast hv hlen hargs =>
      rw [other_run ho (by decide), bind_ok_iff, hasDest_other ho (by decide)]
      exact ⟨_, pad_ok_iff.mpr ⟨_, _, _, hlast, hv, hlen, hargs, rfl⟩, rfl⟩
  | cleanupPad ho hfirst hv hlen hargs =>
      rw [other_run ho (by decide), bind_ok_iff, hasDest_other ho (by decide)]
      exact ⟨_, pad_ok_iff.mpr ⟨_, _, _, hfirst, hv, hlen, hargs, rfl⟩, rfl⟩
  | other ho hplain hlen hops =>
      have hne := ne_fence_of_isPlain hplain
      rw [other_run ho hne, bind_ok_iff, hasDest_other ho hne]
      exact ⟨_, (plain_ok_iff hplain).mpr ⟨hlen, hops⟩, rfl⟩

theorem opToBb_ok_iff {v : LlvmValue V B} {b : B} : opToBb v = .ok b ↔ v = .block b := by
  cases v with
  | block b' =>
      constructor
      · intro h
        cases h
        rfl
      · intro h
        cases h
        rfl
  | _ =>
      constructor
      · intro h
        cases h
      · intro h
        cases h

/-- **What a terminator loads as.** -/
theorem terminator_ok {t : LlvmTerm V B} {ctr ctr' : Nat} {x : Terminator}
    (h : terminatorFromLlvmRef fc t ctr = .ok (x, ctr')) :
    TermAs (Loads fc) (Labels fc) (nameOrNum t.name ctr).1 t x ∧
      ctr' = if termHasResult t then (nameOrNum t.name ctr).2 else ctr := by
  cases ho : t.opcode with
  | ret =>
      simp only [terminatorFromLlvmRef, ho] at h
      rcases hops : t.operands with _ | ⟨v, _ | ⟨w, rest⟩⟩
      · rw [hops] at h
        cases h
        exact ⟨.retVoid ho hops, by simp [termHasResult, ho]⟩
      · rw [hops] at h
        simp only [bind_ok_iff, pure_ok_iff] at h
        obtain ⟨y, hy, heq⟩ := h
        cases heq
        exact ⟨.ret ho hops hy, by simp [termHasResult, ho]⟩
      · rw [hops] at h
        cases h
  | br =>
      simp only [terminatorFromLlvmRef, ho] at h
      rcases hops : t.operands with _ | ⟨v, _ | ⟨v₁, _ | ⟨v₂, _ | ⟨v₃, rest⟩⟩⟩⟩
      · rw [hops] at h
        cases h
      · rw [hops] at h
        simp only [bind_ok_iff, pure_ok_iff, opToBb_ok_iff, label_ok_iff] at h
        obtain ⟨b, rfl, n, hn, heq⟩ := h
        cases heq
        exact ⟨.br ho hops hn, by simp [termHasResult, ho]⟩
      · rw [hops] at h
        cases h
      · rw [hops] at h
        simp only [bind_ok_iff, pure_ok_iff, opToBb_ok_iff, label_ok_iff] at h
        obtain ⟨y, hy, b₂, rfl, n₂, hn₂, b₁, rfl, n₁, hn₁, heq⟩ := h
        cases heq
        exact ⟨.condBr ho hops hy hn₁ hn₂, by simp [termHasResult, ho]⟩
      · rw [hops] at h
        cases h
  | switch =>
      simp only [terminatorFromLlvmRef, ho, bind_ok_iff, pure_ok_iff, operandAt_ok_iff,
        labels_ok_iff, label_ok_iff, need_ok_iff] at h
      obtain ⟨y, ⟨v, hv, hy⟩, ns, hns, b, hb, n, hn, heq⟩ := h
      cases heq
      rcases hsucc : t.successors with _ | ⟨b', bs⟩
      · rw [hsucc] at hb
        cases hb
      · rw [hsucc] at hb hns
        cases hb
        exact ⟨.switch ho hv hy hsucc hn hns, by simp [termHasResult, ho]⟩
  | indirectBr =>
      simp only [terminatorFromLlvmRef, ho, bind_ok_iff, pure_ok_iff, operandAt_ok_iff,
        labels_ok_iff] at h
      obtain ⟨y, ⟨v, hv, hy⟩, ns, hns, heq⟩ := h
      cases heq
      exact ⟨.indirectBr ho hv hy hns, by simp [termHasResult, ho]⟩
  | invoke =>
      simp only [terminatorFromLlvmRef, ho, bind_ok_iff, pure_ok_iff, callee_ok_iff,
        argOperands_ok_iff, label_ok_iff, need_ok_iff] at h
      obtain ⟨function, hf, arguments, ⟨hlen, hargs⟩, n, hn, b, hb, n', hn', heq⟩ := h
      cases heq
      exact ⟨.invoke ho hf hlen hargs hn hb hn', by simp [termHasResult, ho]⟩
  | resume =>
      simp only [terminatorFromLlvmRef, ho, bind_ok_iff, pure_ok_iff, unop_ok_iff] at h
      obtain ⟨y, ⟨v, hops, hv⟩, heq⟩ := h
      cases heq
      exact ⟨.resume ho hops hv, by simp [termHasResult, ho]⟩
  | unreachable =>
      simp only [terminatorFromLlvmRef, ho, bind_ok_iff, pure_ok_iff, assertOperands_ok_iff] at h
      obtain ⟨-, hlen, heq⟩ := h
      cases heq
      exact ⟨.unreachable ho (List.length_eq_zero_iff.mp hlen), by simp [termHasResult, ho]⟩
  | cleanupRet =>
      simp only [terminatorFromLlvmRef, ho, bind_ok_iff, unop_ok_iff] at h
      obtain ⟨y, ⟨v, hops, hv⟩, h⟩ := h
      cases hunwind : t.unwindDest with
      | none =>
          rw [hunwind] at h
          cases h
          exact ⟨.cleanupRet ho hops hv hunwind, by simp [termHasResult, ho]⟩
      | some b =>
          rw [hunwind] at h
          simp only [bind_ok_iff, pure_ok_iff, label_ok_iff] at h
          obtain ⟨n, hn, heq⟩ := h
          cases heq
          exact ⟨.cleanupRetUnwind ho hops hv hunwind hn, by simp [termHasResult, ho]⟩
  | catchRet =>
      simp only [terminatorFromLlvmRef, ho, bind_ok_iff, pure_ok_iff, operandAt_ok_iff,
        label_ok_iff, need_ok_iff] at h
      obtain ⟨y, ⟨v, hv, hy⟩, b, hb, n, hn, heq⟩ := h
      cases heq
      exact ⟨.catchRet ho hv hy hb hn, by simp [termHasResult, ho]⟩
  | catchSwitch =>
      simp only [terminatorFromLlvmRef, ho, bind_ok_iff, operandAt_ok_iff, labels_ok_iff] at h
      obtain ⟨y, ⟨v, hv, hy⟩, ns, hns, h⟩ := h
      cases hunwind : t.unwindDest with
      | none =>
          rw [hunwind] at h
          cases h
          exact ⟨.catchSwitch ho hv hy hns hunwind, by simp [termHasResult, ho]⟩
      | some b =>
          rw [hunwind] at h
          simp only [bind_ok_iff, pure_ok_iff, label_ok_iff] at h
          obtain ⟨n, hn, heq⟩ := h
          cases heq
          exact ⟨.catchSwitchUnwind ho hv hy hns hunwind hn, by simp [termHasResult, ho]⟩
  | callBr =>
      simp only [terminatorFromLlvmRef, ho, bind_ok_iff, pure_ok_iff, callee_ok_iff,
        argOperands_ok_iff, label_ok_iff] at h
      obtain ⟨function, hf, arguments, ⟨hlen, hargs⟩, n, hn, heq⟩ := h
      cases heq
      exact ⟨.callBr ho hf hlen hargs hn, by simp [termHasResult, ho]⟩

theorem terminator_of_as {t : LlvmTerm V B} {ctr : Nat} {x : Terminator}
    (h : TermAs (Loads fc) (Labels fc) (nameOrNum t.name ctr).1 t x) :
    terminatorFromLlvmRef fc t ctr =
      .ok (x, if termHasResult t then (nameOrNum t.name ctr).2 else ctr) := by
  cases h with
  | retVoid ho hops =>
      simp only [terminatorFromLlvmRef, ho, hops, termHasResult]
      rfl
  | ret ho hops hv =>
      simp only [terminatorFromLlvmRef, ho, hops, termHasResult, bind_ok_iff]
      exact ⟨_, hv, rfl⟩
  | br ho hops hb =>
      simp only [terminatorFromLlvmRef, ho, hops, termHasResult, bind_ok_iff, label_ok_iff]
      exact ⟨_, rfl, _, hb, rfl⟩
  | condBr ho hops hv h₁ h₂ =>
      simp only [terminatorFromLlvmRef, ho, hops, termHasResult, bind_ok_iff, label_ok_iff]
      exact ⟨_, hv, _, rfl, _, h₂, _, rfl, _, h₁, rfl⟩
  | switch ho hop hv hsucc hb hbs =>
      simp only [terminatorFromLlvmRef, ho, termHasResult, bind_ok_iff, operandAt_ok_iff,
        labels_ok_iff, label_ok_iff, need_ok_iff, hsucc]
      exact ⟨_, ⟨_, hop, hv⟩, _, hbs, _, rfl, _, hb, rfl⟩
  | indirectBr ho hop hv hbs =>
      simp only [terminatorFromLlvmRef, ho, termHasResult, bind_ok_iff, operandAt_ok_iff,
        labels_ok_iff]
      exact ⟨_, ⟨_, hop, hv⟩, _, hbs, rfl⟩
  | invoke ho hf hlen hargs hn hunwind hn' =>
      simp only [terminatorFromLlvmRef, ho, termHasResult, bind_ok_iff, callee_ok_iff,
        argOperands_ok_iff, label_ok_iff, need_ok_iff]
      exact ⟨_, hf, _, ⟨hlen, hargs⟩, _, hn, _, hunwind, _, hn', rfl⟩
  | resume ho hops hv =>
      simp only [terminatorFromLlvmRef, ho, termHasResult, bind_ok_iff, unop_ok_iff]
      exact ⟨_, ⟨_, hops, hv⟩, rfl⟩
  | unreachable ho hops =>
      simp only [terminatorFromLlvmRef, ho, termHasResult, bind_ok_iff, assertOperands_ok_iff,
        hops]
      exact ⟨(), rfl, rfl⟩
  | cleanupRet ho hops hv hunwind =>
      simp only [terminatorFromLlvmRef, ho, termHasResult, bind_ok_iff, unop_ok_iff, hunwind]
      exact ⟨_, ⟨_, hops, hv⟩, rfl⟩
  | cleanupRetUnwind ho hops hv hunwind hb =>
      simp only [terminatorFromLlvmRef, ho, termHasResult, bind_ok_iff, unop_ok_iff, hunwind,
        label_ok_iff]
      exact ⟨_, ⟨_, hops, hv⟩, _, hb, rfl⟩
  | catchRet ho hop hv hsucc hb =>
      simp only [terminatorFromLlvmRef, ho, termHasResult, bind_ok_iff, operandAt_ok_iff,
        label_ok_iff, need_ok_iff]
      exact ⟨_, ⟨_, hop, hv⟩, _, hsucc, _, hb, rfl⟩
  | catchSwitch ho hop hv hbs hunwind =>
      simp only [terminatorFromLlvmRef, ho, termHasResult, bind_ok_iff, operandAt_ok_iff,
        labels_ok_iff, hunwind]
      exact ⟨_, ⟨_, hop, hv⟩, _, hbs, rfl⟩
  | catchSwitchUnwind ho hop hv hbs hunwind hb =>
      simp only [terminatorFromLlvmRef, ho, termHasResult, bind_ok_iff, operandAt_ok_iff,
        labels_ok_iff, hunwind, label_ok_iff]
      exact ⟨_, ⟨_, hop, hv⟩, _, hbs, _, hb, rfl⟩
  | callBr ho hf hlen hargs hn =>
      simp only [terminatorFromLlvmRef, ho, termHasResult, bind_ok_iff, callee_ok_iff,
        argOperands_ok_iff, label_ok_iff]
      exact ⟨_, hf, _, ⟨hlen, hargs⟩, _, hn, rfl⟩

end Code

end SkvFunctionLoader

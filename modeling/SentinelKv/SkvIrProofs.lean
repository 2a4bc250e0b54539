import Mathlib.Algebra.Ring.Nat
import Mathlib.Data.List.Basic
import Mathlib.Tactic.Common

/-!
# The LLVM IR the analyzer reads

The part of the vendored `llvm-ir` crate that `analyze` and its helpers look at: names,
types, constants, operands, instructions, terminators, blocks, functions and the module
with its table of named structs.  Fields no modelled function reads (debug locations,
attributes, alignment, volatility) are left out.  Every instruction kind `analyze` sends to
its default arm is an `Instruction.other` that keeps its opcode, operands and result.

Machine integers keep their width: `u64` is `UInt64`, `u32` is `UInt32`.
-/

namespace SkvIr

/-- A string name, or the sequential number of an unnamed value. -/
inductive Name where
  | name (s : String)
  | number (n : Nat)
deriving DecidableEq, Repr

/-- `llvm_ir::Type`.  `type_size` looks inside integers, arrays, structs and named structs
    only; the payload of the remaining kinds is not read. -/
inductive IrType where
  | voidType
  | integerType (bits : UInt32)
  | pointerType
  | fpType
  | funcType
  | vectorType (elementType : IrType) (numElements : UInt64)
  | arrayType (elementType : IrType) (numElements : UInt64)
  | structType (elementTypes : List IrType) (isPacked : Bool)
  | namedStructType (name : String)
  | x86MMXType
  | x86AMXType
  | metadataType
  | labelType
  | tokenType
  | targetExtType

/-- The definition recorded for a named struct. -/
inductive NamedStructDef where
  | opaqueDef
  | defined (ty : IrType)

/-- `llvm_ir::Constant`.  The analyzer distinguishes integer literals and global
    references; any other constant matters only through its type. -/
inductive Constant where
  | int (bits : UInt32) (value : UInt64)
  | globalReference (name : Name)
  | other (ty : IrType)

/-- `Typed for Constant` (LLVM 15 and later: a global reference is an opaque pointer). -/
def Constant.typeOf : Constant → IrType
  | .int bits _ => .integerType bits
  | .globalReference _ => .pointerType
  | .other ty => ty

inductive Operand where
  | localOperand (name : Name) (ty : IrType)
  | constantOperand (c : Constant)
  | metadataOperand

/-- `Typed for Operand`. -/
def Operand.typeOf : Operand → IrType
  | .localOperand _ ty => ty
  | .constantOperand c => c.typeOf
  | .metadataOperand => .metadataType

/-- `Either<InlineAssembly, Operand>`: what a call calls. -/
inductive Callee where
  | inlineAssembly (assembly : String)
  | operand (op : Operand)

structure Call where
  function  : Callee
  arguments : List Operand
  dest      : Option Name

structure GetElementPtr where
  address           : Operand
  indices           : List Operand
  dest              : Name
  sourceElementType : IrType

/-- The instruction kinds that `analyze` has no arm for. -/
inductive Opcode where
  | mul | uDiv | sDiv | uRem | sRem
  | and | or | xor | shl | lShr | aShr
  | fAdd | fSub | fMul | fDiv | fRem | fNeg
  | extractElement | insertElement | shuffleVector | extractValue | insertValue
  | fence | cmpXchg | atomicRMW
  | trunc | zExt | sExt | fpTrunc | fpExt | fpToUI | fpToSI | uiToFP | siToFP
  | addrSpaceCast | iCmp | fCmp | phi | select | freeze | vaArg
  | landingPad | catchPad | cleanupPad
deriving DecidableEq, Repr

inductive Instruction where
  | alloca (dest : Name)
  | call (c : Call)
  | getElementPtr (gep : GetElementPtr)
  | ptrToInt (operand : Operand) (toType : IrType) (dest : Name)
  | intToPtr (operand : Operand) (toType : IrType) (dest : Name)
  | add (operand0 operand1 : Operand) (dest : Name)
  | sub (operand0 operand1 : Operand) (dest : Name)
  | bitCast (operand : Operand) (toType : IrType) (dest : Name)
  | store (address value : Operand)
  | load (address : Operand) (loadedTy : IrType) (dest : Name)
  | other (opcode : Opcode) (operands : List Operand) (dest : Option Name)

/-- `Instruction::try_get_result`. -/
def Instruction.tryGetResult : Instruction → Option Name
  | .alloca dest => some dest
  | .call c => c.dest
  | .getElementPtr gep => some gep.dest
  | .ptrToInt _ _ dest => some dest
  | .intToPtr _ _ dest => some dest
  | .add _ _ dest => some dest
  | .sub _ _ dest => some dest
  | .bitCast _ _ dest => some dest
  | .store _ _ => none
  | .load _ _ dest => some dest
  | .other _ _ dest => dest

/-- The names a list of instructions defines. -/
def results (is : List Instruction) : List Name := is.filterMap Instruction.tryGetResult

theorem results_cons (i : Instruction) (is : List Instruction) :
    results (i :: is) = i.tryGetResult.toList ++ results is := by
  unfold results
  cases h : i.tryGetResult with
  | none => exact List.filterMap_cons_none h
  | some n => exact List.filterMap_cons_some h

/-- The operands of an instruction, the callee of a call left out. -/
def Instruction.operands : Instruction → List Operand
  | .alloca _ => []
  | .call c => c.arguments
  | .getElementPtr gep => gep.address :: gep.indices
  | .ptrToInt op _ _ => [op]
  | .intToPtr op _ _ => [op]
  | .add op0 op1 _ => [op0, op1]
  | .sub op0 op1 _ => [op0, op1]
  | .bitCast op _ _ => [op]
  | .store address value => [address, value]
  | .load address _ _ => [address]
  | .other _ ops _ => ops

/-- `llvm_ir::Terminator`, with the labels control flow can continue at and, for the two
    terminators that call, the callee. -/
inductive Terminator where
  | ret (returnOperand : Option Operand)
  | br (dest : Name)
  | condBr (condition : Operand) (trueDest falseDest : Name)
  | switch (operand : Operand) (dests : List Name) (defaultDest : Name)
  | indirectBr (operand : Operand) (possibleDests : List Name)
  | invoke (function : Callee) (arguments : List Operand) (result : Name)
      (returnLabel exceptionLabel : Name)
  | resume (operand : Operand)
  | unreachable
  | cleanupRet (unwindDest : Option Name)
  | catchRet (successor : Name)
  | catchSwitch (catchHandlers : List Name) (defaultUnwindDest : Option Name) (result : Name)
  | callBr (function : Callee) (arguments : List Operand) (result : Name) (returnLabel : Name)

/-- The labels a terminator may transfer control to. -/
def Terminator.successors : Terminator → List Name
  | .ret _ => []
  | .br dest => [dest]
  | .condBr _ trueDest falseDest => [trueDest, falseDest]
  | .switch _ dests defaultDest => defaultDest :: dests
  | .indirectBr _ possibleDests => possibleDests
  | .invoke _ _ _ returnLabel exceptionLabel => [returnLabel, exceptionLabel]
  | .resume _ => []
  | .unreachable => []
  | .cleanupRet unwindDest => unwindDest.toList
  | .catchRet successor => [successor]
  | .catchSwitch catchHandlers defaultUnwindDest _ => catchHandlers ++ defaultUnwindDest.toList
  | .callBr _ _ _ returnLabel => [returnLabel]

structure BasicBlock where
  name   : Name
  instrs : List Instruction
  term   : Terminator

structure Function where
  name        : String
  parameters  : List Name
  basicBlocks : List BasicBlock

/-- All instructions of a function, in listing order. -/
def Function.instrs (f : Function) : List Instruction := f.basicBlocks.flatMap BasicBlock.instrs

/-- The functions defined in the module, and `module.types` as its table of named structs. -/
structure Module where
  functions   : List Function
  namedStructs : List (String × NamedStructDef)

/-- `module.types.named_struct_def(name)`. -/
def Module.namedStructDef (m : Module) (name : String) : Option NamedStructDef :=
  m.namedStructs.lookup name

-- ── Operand helpers of `main.rs` ─────────────────────────────────────────────────

/-- `function_name_of_call`: the string name of a directly called global. -/
def functionNameOfCall (call : Call) : Option String :=
  match call.function with
  | .operand (.constantOperand (.globalReference (.name s))) => some s
  | _ => none

/-- A direct call of the global `f`. -/
def Call.direct (f : String) (arguments : List Operand) (dest : Option Name) : Call :=
  ⟨.operand (.constantOperand (.globalReference (.name f))), arguments, dest⟩

/-- An integer literal as an operand. -/
def Operand.lit (bits : UInt32) (value : UInt64) : Operand := .constantOperand (.int bits value)

/-- A local pointer as an operand. -/
def Operand.ptr (name : String) : Operand := .localOperand (.name name) .pointerType

/-- A function with the given blocks, each named by its position. -/
def Function.ofBlocks (name : String) (blocks : List (List Instruction × Terminator)) :
    Function :=
  ⟨name, [], blocks.zipIdx.map (fun b => ⟨.number b.2, b.1.1, b.1.2⟩)⟩

/-- A module of the given functions, without named structs. -/
def Module.ofFunctions (functions : List Function) : Module := ⟨functions, []⟩

/-- `operand_const_u64`. -/
def operandConstU64 : Operand → Option UInt64
  | .constantOperand (.int _ value) => some value
  | _ => none

/-- `operand_local_name`. -/
def operandLocalName : Operand → Option Name
  | .localOperand name _ => some name
  | _ => none

/-- The local names an instruction reads. -/
def Instruction.uses (i : Instruction) : List Name :=
  i.operands.filterMap operandLocalName

@[simp] theorem operandLocalName_local (name : Name) (ty : IrType) :
    operandLocalName (.localOperand name ty) = some name := rfl

/-- No operand is both an integer literal and a local. -/
theorem operandLocalName_of_const {op : Operand} {v : UInt64}
    (h : operandConstU64 op = some v) : operandLocalName op = none := by
  cases op with
  | localOperand name ty => exact nomatch h
  | constantOperand c => rfl
  | metadataOperand => exact nomatch h

end SkvIr

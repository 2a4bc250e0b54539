import Mathlib.Data.Finset.Sort
import SentinelKv.BreakLoopProofs
import SentinelKv.SkvGateProofs

/-!
# The analyzer

`analyze` of `main.rs`: one pass over functions, blocks and instructions in listing order,
with three nested loops and one `match` arm per instruction kind.  Each arm is a definition
of its own that returns a `Flow`: `next` where the source falls through or says `continue`,
`brk` where it says `break`.

The mutable locals are split in two: `Maps` (the environments, the allocation table, the
stack slots and the DMA sets), which no solver or gate answer ever influences, and the
verdict side of `St` (the result, the gate and the three counters).
-/

namespace SkvAnalyze

open BreakLoop SkvIr SkvTypeSize SkvGate

inductive InlineAsmPolicy where
  | conservative
  | trap
deriving DecidableEq, Repr

inductive DmaPolicy where
  | verify
  | requireIommu
  | ignore
deriving DecidableEq, Repr

/-- What is known about a pointer: an allocation and an offset into it, or nothing. -/
inductive PtrVal where
  | kmalloc (allocId : Nat) (offset : Z3Int)
  | dmaAlloc (allocId : Nat) (offset : Z3Int)
  | unknown
deriving DecidableEq

/-- What is known about an integer derived from a pointer. -/
inductive IntVal where
  | ptrOffset (allocId : Nat) (offset : Z3Int)
  | unknown
deriving DecidableEq

inductive AnalysisResult where
  | pass
  | fail (msg : String)
  | unknown (reason : String)
deriving DecidableEq, Repr

/-- `matches!(r, AnalysisResult::Fail(_))`. -/
def AnalysisResult.isFail : AnalysisResult → Bool
  | .fail _ => true
  | _ => false

@[simp] theorem AnalysisResult.isFail_pass : AnalysisResult.pass.isFail = false := rfl
@[simp] theorem AnalysisResult.isFail_fail (msg : String) :
    (AnalysisResult.fail msg).isFail = true := rfl
@[simp] theorem AnalysisResult.isFail_unknown (reason : String) :
    (AnalysisResult.unknown reason).isFail = false := rfl

/-- `mark_unknown`: only a `Pass` is lowered. -/
def markUnknown (r : AnalysisResult) (reason : String) : AnalysisResult :=
  if r = .pass then .unknown reason else r

/-- Marking never leaves a `Pass` behind. -/
theorem markUnknown_ne_pass (r : AnalysisResult) (reason : String) :
    markUnknown r reason ≠ .pass := by
  unfold markUnknown
  by_cases h : r = .pass
  · rw [if_pos h]; exact fun h => nomatch h
  · rw [if_neg h]; exact h

/-- Marking neither creates nor removes a `Fail`. -/
@[simp] theorem markUnknown_isFail (r : AnalysisResult) (reason : String) :
    (markUnknown r reason).isFail = r.isFail := by
  unfold markUnknown
  by_cases h : r = .pass
  · rw [if_pos h, h]; rfl
  · rw [if_neg h]

-- ── Inline assembly text ─────────────────────────────────────────────────────────

/-- `char::is_whitespace` (Unicode `White_Space`). -/
def isWhitespace (c : Char) : Bool :=
  let n := c.toNat
  (9 ≤ n && n ≤ 13) || n == 32 || n == 0x85 || n == 0xA0 || n == 0x1680
    || (0x2000 ≤ n && n ≤ 0x200A) || n == 0x2028 || n == 0x2029 || n == 0x202F
    || n == 0x205F || n == 0x3000

/-- `str::trim`, on characters. -/
def trim (cs : List Char) : List Char :=
  ((cs.dropWhile isWhitespace).reverse.dropWhile isWhitespace).reverse

/-- `str::to_ascii_lowercase`, on characters. -/
def toAsciiLowercase (cs : List Char) : List Char :=
  cs.map Char.toLower

def safeAsmPatterns : List String :=
  ["rdtsc", "rdtscp", "cpuid", "pause", "mfence", "sfence", "lfence", "cli", "sti", "nop",
   "rep nop", "ud2", "int3", "wbinvd", "invlpg", "xgetbv"]

/-- `is_safe_inline_asm`. -/
def isSafeInlineAsm (asmString : String) : Bool :=
  let normalized := toAsciiLowercase (trim asmString.toList)
  safeAsmPatterns.any (fun pattern =>
    decide (normalized = pattern.toList) || pattern.toList.isPrefixOf normalized)
    || normalized.isEmpty

-- ── State ────────────────────────────────────────────────────────────────────────

/-- The maps and sets of `analyze`. -/
structure Maps where
  ptrEnv            : Name → Option PtrVal
  intEnv            : Name → Option IntVal
  allocSizes        : Nat → Option Z3Int
  freedAllocs       : Finset Nat
  allocCounter      : Nat
  allocaStoreMap    : Name → Option PtrVal
  allocaNames       : Finset Name
  dmaAllocsInFunc   : Finset Nat
  iommuMappedInFunc : Finset Nat

/-- The maps at the start of `analyze`. -/
def Maps.empty : Maps where
  ptrEnv            := fun _ => none
  intEnv            := fun _ => none
  allocSizes        := fun _ => none
  freedAllocs       := ∅
  allocCounter      := 0
  allocaStoreMap    := fun _ => none
  allocaNames       := ∅
  dmaAllocsInFunc   := ∅
  iommuMappedInFunc := ∅

/-- The mutable state of `analyze`. -/
structure St where
  maps         : Maps
  finalResult  : AnalysisResult
  gate         : HitlGate
  inlineAsmVcs : Nat
  dmaVcs       : Nat
  irqRaceVcs   : Nat

def St.init (gate : HitlGate) : St where
  maps         := Maps.empty
  finalResult  := .pass
  gate         := gate
  inlineAsmVcs := 0
  dmaVcs       := 0
  irqRaceVcs   := 0

/-- `final_result = AnalysisResult::Fail(msg)`. -/
def St.fail (s : St) (msg : String) : St := { s with finalResult := .fail msg }

/-- `mark_unknown(&mut final_result, reason)`. -/
def St.markUnknown (s : St) (reason : String) : St :=
  { s with finalResult := SkvAnalyze.markUnknown s.finalResult reason }

/-- What the process brings along: the solver, and the order in which a `HashSet` iterates. -/
structure Host where
  z3           : Solver
  setOrder     : Finset Nat → List Nat
  mem_setOrder : ∀ s x, x ∈ setOrder s ↔ x ∈ s

/-- A host whose sets iterate in increasing order. -/
def sortedHost (z3 : Solver) : Host where
  z3           := z3
  setOrder     := fun s => s.sort (· ≤ ·)
  mem_setOrder := fun s _ => Finset.mem_sort (s := s) (· ≤ ·)

/-- Everything that stays fixed during one call of `analyze`. -/
structure Env where
  module          : Module
  host            : Host
  inlineAsmPolicy : InlineAsmPolicy
  dmaPolicy       : DmaPolicy
  hasIrqRisk      : Bool

/-- One position of the three loops: the function's name, `bb_idx`, `instr_idx` and the
    instruction there. -/
structure Site where
  funcName : String
  bbIdx    : Nat
  instrIdx : Nat
  instr    : Instruction

/-- `vc_id(func.name, bb_idx, instr_idx, kind)`. -/
def Site.vcId (site : Site) (kind : String) : String :=
  SkvGate.vcId site.funcName site.bbIdx site.instrIdx kind

-- ── Map updates ──────────────────────────────────────────────────────────────────

/-- `ptr_env.insert(n, v)`. -/
def Maps.bindPtr (t : Maps) (n : Name) (v : PtrVal) : Maps :=
  { t with ptrEnv := Function.update t.ptrEnv n (some v) }

/-- `int_env.insert(n, v)`. -/
def Maps.bindInt (t : Maps) (n : Name) (v : IntVal) : Maps :=
  { t with intEnv := Function.update t.intEnv n (some v) }

/-- `if let Some(dest) = &call.dest { ptr_env.insert(dest, v) }`. -/
def Maps.bindDest (t : Maps) (dest : Option Name) (v : PtrVal) : Maps :=
  match dest with
  | some n => t.bindPtr n v
  | none => t

/-- Take the next allocation id and record its size. -/
def Maps.newAlloc (t : Maps) (size : UInt64) : Maps :=
  { t with
    allocSizes := Function.update t.allocSizes t.allocCounter (some (.fromU64 size))
    allocCounter := t.allocCounter + 1 }

/-- The allocation of the kmalloc family: a new id, bound to the result at offset 0. -/
def Maps.kmalloc (t : Maps) (dest : Option Name) (size : UInt64) : Maps :=
  (t.newAlloc size).bindDest dest (.kmalloc t.allocCounter (.fromU64 0))

/-- The allocation of `dma_alloc_coherent`. -/
def Maps.dmaAlloc (t : Maps) (dest : Option Name) (size : UInt64) : Maps :=
  { (t.newAlloc size).bindDest dest (.dmaAlloc t.allocCounter (.fromU64 0)) with
    dmaAllocsInFunc := insert t.allocCounter t.dmaAllocsInFunc }

/-- `freed_allocs.insert(id)`. -/
def Maps.free (t : Maps) (id : Nat) : Maps :=
  { t with freedAllocs := insert id t.freedAllocs }

/-- `iommu_map`: every DMA allocation so far counts as mapped. -/
def Maps.iommuMap (t : Maps) : Maps :=
  { t with iommuMappedInFunc := t.iommuMappedInFunc ∪ t.dmaAllocsInFunc }

/-- A `Store` of a tracked local into an alloca is remembered; any other value leaves the
    slot's record as it was. -/
def Maps.spill (t : Maps) (destName : Name) (value : Operand) : Maps :=
  if destName ∈ t.allocaNames then
    match value with
    | .localOperand valName _ =>
        match t.ptrEnv valName with
        | some pv =>
            { t with allocaStoreMap := Function.update t.allocaStoreMap destName (some pv) }
        | none => t
    | _ => t
  else t

/-- A `Load` from an alloca recovers the remembered pointer. -/
def Maps.reload (t : Maps) (srcName dest : Name) : Maps :=
  if srcName ∈ t.allocaNames then
    match t.allocaStoreMap srcName with
    | some pv => t.bindPtr dest pv
    | none => t
  else t

/-- `ptrval_alloc_info`. -/
def ptrvalAllocInfo : PtrVal → Option (Nat × Z3Int)
  | .kmalloc allocId offset => some (allocId, offset)
  | .dmaAlloc allocId offset => some (allocId, offset)
  | .unknown => none

-- ── Guarded accesses ─────────────────────────────────────────────────────────────

/-- The texts of one kind of access. -/
structure AccessText where
  kind          : String
  useAfterFree  : String
  unsized       : String
  outOfBounds   : String
  solverUnknown : String

/-- The `match` on the answer of `check_access`. -/
def afterCheck (txt : AccessText) (vc : String) (answer : AccessCheckResult × HitlGate)
    (s : St) : Flow St :=
  let s := { s with gate := answer.2 }
  match answer.1 with
  | .oob => .brk (s.fail txt.outOfBounds)
  | .safe => .next s
  | .solverUnknown => .next (s.markUnknown txt.solverUnknown)
  | .hitlBlocked => .next (s.markUnknown ("HITL gate blocked unapproved VC: " ++ vc))

/-- The checks every bounds-checked access goes through: not freed, of known size, with
    size metadata, in bounds.  `after` runs once the bounds have been asked for. -/
def guardedAccess (e : Env) (site : Site) (txt : AccessText) (allocId : Nat) (offset : Z3Int)
    (size : Option UInt64) (after : St → St) (s : St) : Flow St :=
  if allocId ∈ s.maps.freedAllocs then .brk (s.fail txt.useAfterFree)
  else
    match size with
    | none => .next (s.markUnknown txt.unsized)
    | some n =>
        match s.maps.allocSizes allocId with
        | none => .next (s.markUnknown "Missing allocation size metadata")
        | some allocSize =>
            match afterCheck txt (site.vcId txt.kind)
                (checkAccess e.host.z3 allocSize offset n (site.vcId txt.kind)
                  (vcClassId txt.kind n) s.gate) s with
            | .brk s => .brk s
            | .next s => .next (after s)

/-- The IRQ race condition of a `Load` or `Store`. -/
def irqRace (e : Env) (site : Site) (kind : String) (allocId : Nat) (s : St) : St :=
  if e.hasIrqRisk then
    let vc := site.vcId ("irq_race_" ++ kind)
    let answer := s.gate.shouldRunSolver vc ("class::irq_race::alloc" ++ toString allocId)
    let s := { s with gate := answer.2, irqRaceVcs := s.irqRaceVcs + 1 }
    if answer.1 then
      s.markUnknown ("Potential IRQ race: interrupt handler may free allocation "
        ++ toString allocId ++ " before " ++ kind ++ " in " ++ site.funcName)
    else s.markUnknown ("HITL gate blocked IRQ race VC: " ++ vc)
  else s

def memsetText (site : Site) : AccessText where
  kind          := "memset"
  useAfterFree  := "Use-after-free in memset in function " ++ site.funcName
  unsized       := "memset with non-constant length unsupported"
  outOfBounds   := "Out-of-bounds memset in function " ++ site.funcName
  solverUnknown := "Solver returned unknown for memset bound check"

def memcpyText (site : Site) (kind : String) : AccessText where
  kind          := "memcpy_" ++ kind
  useAfterFree  := "Use-after-free in memcpy " ++ kind ++ " in function " ++ site.funcName
  unsized       := "memcpy with non-constant length unsupported"
  outOfBounds   := "Out-of-bounds memcpy " ++ kind ++ " in function " ++ site.funcName
  solverUnknown := "Solver returned unknown for memcpy bound check"

def storeText (site : Site) : AccessText where
  kind          := "store"
  useAfterFree  := "Use-after-free store in function " ++ site.funcName
  unsized       := "Store with unknown value type size"
  outOfBounds   := "Out-of-bounds store in function " ++ site.funcName
  solverUnknown := "Solver returned unknown for store bound check"

def loadText (site : Site) : AccessText where
  kind          := "load"
  useAfterFree  := "Use-after-free load in function " ++ site.funcName
  unsized       := "Load with unknown type size"
  outOfBounds   := "Out-of-bounds load in function " ++ site.funcName
  solverUnknown := "Solver returned unknown for load bound check"

-- ── The arms of `Instruction::Call` ──────────────────────────────────────────────

def stepKmalloc (call : Call) (s : St) : Flow St :=
  match call.arguments.head? with
  | none => .next (s.markUnknown "kmalloc/kzalloc missing size argument")
  | some sizeOp =>
      match operandConstU64 sizeOp with
      | none => .next (s.markUnknown "kmalloc/kzalloc with non-constant size unsupported")
      | some size => .next { s with maps := s.maps.kmalloc call.dest size }

def stepKcalloc (call : Call) (s : St) : Flow St :=
  match call.arguments.head? with
  | none => .next (s.markUnknown "kcalloc missing nmemb argument")
  | some nmembOp =>
      match call.arguments[1]? with
      | none => .next (s.markUnknown "kcalloc missing size argument")
      | some sizeOp =>
          match operandConstU64 nmembOp, operandConstU64 sizeOp with
          | some nmemb, some elemSize =>
              match checkedMul nmemb elemSize with
              | none => .brk (s.fail "kcalloc size multiplication overflow")
              | some totalSize => .next { s with maps := s.maps.kmalloc call.dest totalSize }
          | _, _ => .next (s.markUnknown "kcalloc with non-constant nmemb/size unsupported")

/-- An argument that is not bound to a `Kmalloc` pointer is passed over in silence. -/
def stepKfree (site : Site) (call : Call) (s : St) : Flow St :=
  match call.arguments.head? with
  | none => .next (s.markUnknown "kfree missing pointer argument")
  | some ptrOp =>
      match operandLocalName ptrOp with
      | none => .next (s.markUnknown "kfree on non-local operand unsupported")
      | some name =>
          match s.maps.ptrEnv name with
          | some (.kmalloc allocId _) =>
              if allocId ∈ s.maps.freedAllocs then
                .brk (s.fail ("Double free detected in function " ++ site.funcName))
              else .next { s with maps := s.maps.free allocId }
          | _ => .next s

def stepMemset (e : Env) (site : Site) (call : Call) (s : St) : Flow St :=
  match call.arguments.head? with
  | none => .next s
  | some destOp =>
      match call.arguments[2]? with
      | none => .next (s.markUnknown "memset missing length argument")
      | some lenOp =>
          match operandLocalName destOp with
          | none => .next s
          | some destName =>
              match operandConstU64 lenOp with
              | none => .next (s.markUnknown "memset with non-constant length unsupported")
              | some len =>
                  match s.maps.ptrEnv destName with
                  | some (.kmalloc allocId offset) =>
                      guardedAccess e site (memsetText site) allocId offset (some len) id s
                  | _ => .next s

/-- One round of the inner loop of `memcpy`, over the two operands. -/
def memcpyOperand (e : Env) (site : Site) (len : UInt64) (x : Operand × String) (s : St) :
    Flow St :=
  match operandLocalName x.1 with
  | none => .next s
  | some name =>
      match s.maps.ptrEnv name with
      | some (.kmalloc allocId offset) =>
          guardedAccess e site (memcpyText site x.2) allocId offset (some len) id s
      | _ => .next s

def stepMemcpy (e : Env) (site : Site) (call : Call) (s : St) : Flow St :=
  match call.arguments.head? with
  | none => .next s
  | some destOp =>
      match call.arguments[1]? with
      | none => .next (s.markUnknown "memcpy missing source argument")
      | some srcOp =>
          match call.arguments[2]? with
          | none => .next (s.markUnknown "memcpy missing length argument")
          | some lenOp =>
              match operandConstU64 lenOp with
              | none => .next (s.markUnknown "memcpy with non-constant length unsupported")
              | some len =>
                  -- the inner `break` only leaves this loop; the re-test leaves the outer one
                  let s := forLoop (memcpyOperand e site len)
                    [(destOp, "destination"), (srcOp, "source")] s
                  if s.finalResult.isFail then .brk s else .next s

/-- The arm for a callee without a name: inline assembly, or nothing. -/
def stepUnnamed (e : Env) (site : Site) (call : Call) (s : St) : Flow St :=
  match call.function with
  | .operand _ => .next s
  | .inlineAssembly assembly =>
      match e.inlineAsmPolicy with
      | .trap =>
          .brk ({ s with inlineAsmVcs := s.inlineAsmVcs + 1 }.fail
            ("Inline assembly detected in function " ++ site.funcName ++ " (trap policy)"))
      | .conservative =>
          if isSafeInlineAsm assembly then .next s
          else
            let vc := site.vcId "inline_asm"
            let answer := s.gate.shouldRunSolver vc "class::inline_asm::opaque"
            let s := { s with gate := answer.2, inlineAsmVcs := s.inlineAsmVcs + 1 }
            if answer.1 then
              .next (s.markUnknown ("Opaque inline assembly in function " ++ site.funcName
                ++ ": '" ++ assembly ++ "'"))
            else .next (s.markUnknown ("HITL gate blocked inline asm VC: " ++ vc))

def stepDmaAlloc (site : Site) (call : Call) (s : St) : Flow St :=
  match call.arguments[1]? with
  | none => .next (s.markUnknown "dma_alloc_coherent missing size argument")
  | some sizeOp =>
      match operandConstU64 sizeOp with
      | none => .next (s.markUnknown "dma_alloc_coherent with non-constant size")
      | some size =>
          -- the gate's answer is dropped: the condition is logged only
          .next { s with
            maps := s.maps.dmaAlloc call.dest size
            dmaVcs := s.dmaVcs + 1
            gate := (s.gate.shouldRunSolver (site.vcId "dma_alloc")
              (vcClassId "dma_alloc" size)).2 }

def stepDmaMap (e : Env) (site : Site) (call : Call) (s : St) : Flow St :=
  match call.arguments[1]? with
  | none => .next (s.markUnknown "dma_map_single missing ptr argument")
  | some ptrOp =>
      match call.arguments[2]? with
      | none => .next (s.markUnknown "dma_map_single missing size argument")
      | some sizeOp =>
          match operandConstU64 sizeOp with
          | none => .next (s.markUnknown "dma_map_single with non-constant size")
          | some mapSize =>
              match ((operandLocalName ptrOp).bind s.maps.ptrEnv).bind ptrvalAllocInfo with
              | none => .next s
              | some (allocId, offset) =>
                  match s.maps.allocSizes allocId with
                  | none => .next s
                  | some allocSize =>
                      let vc := site.vcId "dma_map"
                      let answer := checkAccess e.host.z3 allocSize offset mapSize vc
                        (vcClassId "dma_bounds" mapSize) s.gate
                      let s := { s with gate := answer.2 }
                      match answer.1 with
                      | .oob =>
                          .brk ({ s with dmaVcs := s.dmaVcs + 1 }.fail
                            ("DMA mapping exceeds allocation bounds in function "
                              ++ site.funcName))
                      | .safe => .next s
                      | .solverUnknown =>
                          .next ({ s with dmaVcs := s.dmaVcs + 1 }.markUnknown
                            "Solver unknown for DMA mapping bound check")
                      | .hitlBlocked =>
                          .next ({ s with dmaVcs := s.dmaVcs + 1 }.markUnknown
                            ("HITL gate blocked DMA VC: " ++ vc))

/-- The arms of the `match` on `function_name_of_call`. -/
inductive CallArm where
  | kmalloc | kcalloc | kfree | memset | memcpy | unnamed | dmaAlloc | dmaMap | iommuMap
  | untracked
deriving DecidableEq, Repr

/-- Which arm a call takes; the DMA arms are guarded by the policy. -/
def callArm (dmaPolicy : DmaPolicy) : Option String → CallArm
  | none => .unnamed
  | some f =>
      if f = "kmalloc" ∨ f = "kzalloc" then .kmalloc
      else if f = "kcalloc" then .kcalloc
      else if f = "kfree" then .kfree
      else if f = "memset" then .memset
      else if f = "memcpy" ∨ f = "__memcpy" then .memcpy
      else if f = "dma_alloc_coherent" ∧ dmaPolicy ≠ .ignore then .dmaAlloc
      else if f = "dma_map_single" ∧ dmaPolicy ≠ .ignore then .dmaMap
      else if f = "iommu_map" then .iommuMap
      else .untracked

def stepCall (e : Env) (site : Site) (call : Call) (s : St) : Flow St :=
  if s.finalResult.isFail then .brk s
  else
    match callArm e.dmaPolicy (functionNameOfCall call) with
    | .kmalloc => stepKmalloc call s
    | .kcalloc => stepKcalloc call s
    | .kfree => stepKfree site call s
    | .memset => stepMemset e site call s
    | .memcpy => stepMemcpy e site call s
    | .unnamed => stepUnnamed e site call s
    | .dmaAlloc => stepDmaAlloc site call s
    | .dmaMap => stepDmaMap e site call s
    | .iommuMap => .next { s with maps := s.maps.iommuMap }
    | .untracked => .next s

-- ── Pointer arithmetic arms ──────────────────────────────────────────────────────

/-- One index of `infer_gep_offset`: the first is scaled by the size of the ADDRESS type
    (8 for any pointer), every later one by 4. -/
def gepIndex (m : Module) (gep : GetElementPtr) (computed : Z3Int) (x : Operand × Nat) :
    Option Z3Int :=
  match operandConstU64 x.1 with
  | none => none
  | some idxVal =>
      if x.2 = 0 then
        match gep.address.typeOf with
        | .pointerType => some (.add computed (.fromU64 (saturatingMul idxVal 8)))
        | other =>
            match typeSize m other with
            | none => none
            | some elemSize =>
                some (.add computed (.fromU64 (saturatingMul idxVal elemSize)))
      else some (.add computed (.fromU64 (saturatingMul idxVal 4)))

/-- `infer_gep_offset`. -/
def inferGepOffset (m : Module) (gep : GetElementPtr) (baseOffset : Z3Int) : Option Z3Int :=
  gep.indices.zipIdx.foldlM (gepIndex m gep) baseOffset

/-- The base of a GEP: `ptr_env` first, then the content of a stack slot. -/
def gepBase (t : Maps) (baseName : Name) : Option PtrVal :=
  (t.ptrEnv baseName).or (t.allocaStoreMap baseName)

def stepGep (e : Env) (gep : GetElementPtr) (s : St) : Flow St :=
  match gep.address with
  | .localOperand baseName _ =>
      match gepBase s.maps baseName with
      | some (.kmalloc allocId offset) =>
          match inferGepOffset e.module gep offset with
          | some newOffset =>
              .next { s with maps := s.maps.bindPtr gep.dest (.kmalloc allocId newOffset) }
          | none =>
              .next ({ s with maps := s.maps.bindPtr gep.dest .unknown }.markUnknown
                "GEP with unsupported index/type pattern")
      | some (.dmaAlloc allocId offset) =>
          match inferGepOffset e.module gep offset with
          | some newOffset =>
              .next { s with maps := s.maps.bindPtr gep.dest (.dmaAlloc allocId newOffset) }
          | none =>
              .next ({ s with maps := s.maps.bindPtr gep.dest .unknown }.markUnknown
                "GEP with unsupported index/type pattern (DMA)")
      | _ => .next { s with maps := s.maps.bindPtr gep.dest .unknown }
  | _ =>
      .next ({ s with maps := s.maps.bindPtr gep.dest .unknown }.markUnknown
        "GEP base is not a local operand")

/-- The integer a `PtrToInt` of `name` yields; DMA pointers are not followed. -/
def ptrToIntVal (t : Maps) (name : Name) : IntVal :=
  match t.ptrEnv name with
  | some (.kmalloc allocId offset) => .ptrOffset allocId offset
  | _ => .unknown

def stepPtrToInt (operand : Operand) (dest : Name) (s : St) : Flow St :=
  match operand with
  | .localOperand baseName _ =>
      .next { s with maps := s.maps.bindInt dest (ptrToIntVal s.maps baseName) }
  | _ =>
      .next ({ s with maps := s.maps.bindInt dest .unknown }.markUnknown
        "PtrToInt from non-local operand unsupported")

/-- The pointer an `IntToPtr` of `name` yields. -/
def intToPtrVal (t : Maps) (name : Name) : PtrVal :=
  match t.intEnv name with
  | some (.ptrOffset allocId offset) => .kmalloc allocId offset
  | _ => .unknown

def stepIntToPtr (operand : Operand) (dest : Name) (s : St) : Flow St :=
  match operand with
  | .localOperand baseName _ =>
      .next { s with maps := s.maps.bindPtr dest (intToPtrVal s.maps baseName) }
  | _ =>
      .next ({ s with maps := s.maps.bindPtr dest .unknown }.markUnknown
        "IntToPtr from non-local operand unsupported")

/-- `operand_local_name(op).and_then(|n| int_env.get(n))`. -/
def operandInt (t : Maps) (op : Operand) : Option IntVal :=
  (operandLocalName op).bind t.intEnv

/-- `out` of the `Add` arm. -/
def addOut (t : Maps) (op0 op1 : Operand) : Option IntVal :=
  match operandInt t op0, operandInt t op1 with
  | some (.ptrOffset allocId offset), _ =>
      (operandConstU64 op1).map (fun rhs => .ptrOffset allocId (.add offset (.fromU64 rhs)))
  | _, some (.ptrOffset allocId offset) =>
      (operandConstU64 op0).map (fun lhs => .ptrOffset allocId (.add offset (.fromU64 lhs)))
  | _, _ => none

/-- `out` of the `Sub` arm: only a pointer-derived left side is followed. -/
def subOut (t : Maps) (op0 op1 : Operand) : Option IntVal :=
  match operandInt t op0 with
  | some (.ptrOffset allocId offset) =>
      (operandConstU64 op1).map (fun rhs => .ptrOffset allocId (.sub offset (.fromU64 rhs)))
  | _ => none

/-- `lhs_ptr.is_some() || rhs_ptr.is_some()`. -/
def intTracked (t : Maps) (op0 op1 : Operand) : Bool :=
  (operandInt t op0).isSome || (operandInt t op1).isSome

def stepAdd (op0 op1 : Operand) (dest : Name) (s : St) : Flow St :=
  match addOut s.maps op0 op1 with
  | some v => .next { s with maps := s.maps.bindInt dest v }
  | none =>
      if intTracked s.maps op0 op1 then
        .next ({ s with maps := s.maps.bindInt dest .unknown }.markUnknown
          "Unsupported pointer-derived integer add pattern")
      else .next s

def stepSub (op0 op1 : Operand) (dest : Name) (s : St) : Flow St :=
  let rhsWasPtr := (operandInt s.maps op1).isSome
  let s' :=
    match subOut s.maps op0 op1 with
    | some v => { s with maps := s.maps.bindInt dest v }
    | none =>
        if intTracked s.maps op0 op1 then
          { s with maps := s.maps.bindInt dest .unknown }.markUnknown
            "Unsupported pointer-derived integer sub pattern"
        else s
  if rhsWasPtr then
    .next (s'.markUnknown "Subtracting pointer-derived integer as RHS is unsupported")
  else .next s'

def stepBitCast (operand : Operand) (dest : Name) (s : St) : Flow St :=
  match operand with
  | .localOperand baseName _ =>
      .next { s with maps := s.maps.bindPtr dest ((s.maps.ptrEnv baseName).getD .unknown) }
  | _ =>
      .next ({ s with maps := s.maps.bindPtr dest .unknown }.markUnknown
        "BitCast from non-local operand unsupported")

-- ── Memory arms ──────────────────────────────────────────────────────────────────

def stepStore (e : Env) (site : Site) (address value : Operand) (s : St) : Flow St :=
  match address with
  | .localOperand destName _ =>
      let s := { s with maps := s.maps.spill destName value }
      match (s.maps.ptrEnv destName).bind ptrvalAllocInfo with
      | some (allocId, offset) =>
          guardedAccess e site (storeText site) allocId offset
            (typeSize e.module value.typeOf) (irqRace e site "store" allocId) s
      | none => .next s
  | _ => .next s

def stepLoad (e : Env) (site : Site) (address : Operand) (loadedTy : IrType) (dest : Name)
    (s : St) : Flow St :=
  match address with
  | .localOperand srcName _ =>
      -- the reload comes first, so `dest` is already rebound when `src` is looked up
      let s := { s with maps := s.maps.reload srcName dest }
      match (s.maps.ptrEnv srcName).bind ptrvalAllocInfo with
      | some (allocId, offset) =>
          guardedAccess e site (loadText site) allocId offset
            (typeSize e.module loadedTy) (irqRace e site "load" allocId) s
      | none => .next s
  | _ => .next s

/-- The body of the instruction loop. -/
def stepInstr (e : Env) (site : Site) (s : St) : Flow St :=
  match site.instr with
  | .alloca dest =>
      .next { s with maps :=
        { s.maps with allocaNames := insert dest s.maps.allocaNames } }
  | .call call => stepCall e site call s
  | .getElementPtr gep => stepGep e gep s
  | .ptrToInt operand _ dest => stepPtrToInt operand dest s
  | .intToPtr operand _ dest => stepIntToPtr operand dest s
  | .add op0 op1 dest => stepAdd op0 op1 dest s
  | .sub op0 op1 dest => stepSub op0 op1 dest s
  | .bitCast operand _ dest => stepBitCast operand dest s
  | .store address value => stepStore e site address value s
  | .load address loadedTy dest => stepLoad e site address loadedTy dest s
  | .other _ _ _ => .next s

-- ── The loops ────────────────────────────────────────────────────────────────────

/-- `matches!(final_result, AnalysisResult::Fail(_))`, the flag the loops re-test. -/
def Failed (s : St) : Prop := s.finalResult.isFail = true

instance : DecidablePred Failed := fun s =>
  inferInstanceAs (Decidable (s.finalResult.isFail = true))

/-- The sites of one block, in order. -/
def blockSites (f : Function) (x : BasicBlock × Nat) : List Site :=
  x.1.instrs.zipIdx.map (fun i => ⟨f.name, x.2, i.2, i.1⟩)

/-- The instruction loop over one block. -/
def runBlock (e : Env) (f : Function) (x : BasicBlock × Nat) (s : St) : St :=
  forLoop (stepInstr e) (blockSites f x) s

/-- The block loop over one function. -/
def runFunction (e : Env) (f : Function) (s : St) : St :=
  forLoop (outer Failed (runBlock e f)) f.basicBlocks.zipIdx s

/-- The function loop. -/
def runFunctions (e : Env) (fs : List Function) (s : St) : St :=
  forLoop (outer Failed (runFunction e)) fs s

-- ── IRQ handlers ─────────────────────────────────────────────────────────────────

/-- The calls of a function, in listing order. -/
def callsOf (f : Function) : List Call :=
  (f.basicBlocks.flatMap BasicBlock.instrs).filterMap (fun i =>
    match i with
    | .call c => some c
    | _ => none)

/-- The handler a `request_irq` call registers by name as its argument 1. -/
def registeredHandler (call : Call) : Option String :=
  if functionNameOfCall call = some "request_irq" then
    match call.arguments[1]? with
    | some (Operand.constantOperand (.globalReference (.name s))) => some s
    | _ => none
  else none

/-- Phase 1 of `scan_irq_handlers`. -/
def handlerNames (m : Module) : List String :=
  m.functions.flatMap (fun f => (callsOf f).filterMap registeredHandler)

/-- `scan_irq_handlers`: the registered handlers that call `kfree` themselves. -/
def scanIrqHandlers (m : Module) : List String :=
  (m.functions.filter (fun f =>
    decide (f.name ∈ handlerNames m)
      && (callsOf f).any (fun c => decide (functionNameOfCall c = some "kfree")))).map
    Function.name

-- ── `analyze` ────────────────────────────────────────────────────────────────────

structure AnalysisOutcome where
  result             : AnalysisResult
  hitlSeenVcs        : Nat
  hitlBlockedVcs     : Nat
  hitlSeenClasses    : Nat
  hitlBlockedClasses : Nat
  inlineAsmVcs       : Nat
  dmaVcs             : Nat
  irqRaceVcs         : Nat

/-- The fixed part of a call of `analyze`, with the IRQ pre-scan done. -/
def mkEnv (m : Module) (host : Host) (inlineAsmPolicy : InlineAsmPolicy)
    (dmaPolicy : DmaPolicy) : Env :=
  ⟨m, host, inlineAsmPolicy, dmaPolicy, !(scanIrqHandlers m).isEmpty⟩

/-- The state after the three loops. -/
def scanModule (e : Env) (gate : HitlGate) : St :=
  runFunctions e e.module.functions (St.init gate)

/-- The require-iommu check after the loops: the first unmapped allocation, in the set's own
    iteration order, overrides the result. -/
def iommuEnforced (e : Env) (s : St) : AnalysisResult :=
  match e.dmaPolicy with
  | .requireIommu =>
      match (e.host.setOrder s.maps.dmaAllocsInFunc).find?
          (fun id => decide (id ∉ s.maps.iommuMappedInFunc)) with
      | some id =>
          .fail ("DMA allocation " ++ toString id
            ++ " has no paired iommu_map call (require-iommu policy)")
      | none => s.finalResult
  | _ => s.finalResult

/-- `analyze`: the outcome, and the gate it leaves behind. -/
def analyze (m : Module) (host : Host) (gate : HitlGate) (inlineAsmPolicy : InlineAsmPolicy)
    (dmaPolicy : DmaPolicy) : AnalysisOutcome × HitlGate :=
  let e := mkEnv m host inlineAsmPolicy dmaPolicy
  let s := scanModule e gate
  ({ result             := iommuEnforced e s
     hitlSeenVcs        := s.gate.seen.dedup.length
     hitlBlockedVcs     := s.gate.blocked.dedup.length
     hitlSeenClasses    := s.gate.seenClasses.dedup.length
     hitlBlockedClasses := s.gate.blockedClasses.dedup.length
     inlineAsmVcs       := s.inlineAsmVcs
     dmaVcs             := s.dmaVcs
     irqRaceVcs         := s.irqRaceVcs }, s.gate)

end SkvAnalyze

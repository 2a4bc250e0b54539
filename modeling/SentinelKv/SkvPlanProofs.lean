import SentinelKv.SkvTransferProofs

/-!
# Plan and verdict

An arm of `analyze` does two things: it moves the maps on, which `transfer` describes, and it
works on the verdict.  What it does to the verdict is decided by the maps alone, up to the
answers of the gate and the solver, so it can be written down beforehand as a list of
**`Effect`**s: fail, mark, count, ask the gate, check an access.

`effects` gives the list of one instruction and **`exec`** runs one effect.

* **`stepInstr_verdict`** — an instruction runs its effects, and nothing else, on the verdict;
* **`scanModule_plan`** — the verdict of the whole scan is ONE loop over the plan of the
  module, a list that neither the solver nor the gate has a part in.
-/

namespace SkvPlan

open BreakLoop SkvIr SkvTypeSize SkvGate SkvAnalyze SkvTransfer

-- ── The verdict side of the state ────────────────────────────────────────────────

structure Verdict where
  finalResult  : AnalysisResult
  gate         : HitlGate
  inlineAsmVcs : Nat
  dmaVcs       : Nat
  irqRaceVcs   : Nat
  dmaAllocs    : Finset Nat
  iommuMapped  : Finset Nat

def verdict (s : St) : Verdict :=
  ⟨s.finalResult, s.gate, s.inlineAsmVcs, s.dmaVcs, s.irqRaceVcs, s.maps.dmaAllocsInFunc,
    s.maps.iommuMappedInFunc⟩

/-- The verdict at the start of `analyze`. -/
def Verdict.init (gate : HitlGate) : Verdict := ⟨.pass, gate, 0, 0, 0, ∅, ∅⟩

def Verdict.fail (v : Verdict) (msg : String) : Verdict := { v with finalResult := .fail msg }

def Verdict.mark (v : Verdict) (reason : String) : Verdict :=
  { v with finalResult := markUnknown v.finalResult reason }

inductive Counter where
  | inlineAsm
  | dma
  | irqRace
deriving DecidableEq, Repr

def Verdict.count (v : Verdict) : Counter → Verdict
  | .inlineAsm => { v with inlineAsmVcs := v.inlineAsmVcs + 1 }
  | .dma => { v with dmaVcs := v.dmaVcs + 1 }
  | .irqRace => { v with irqRaceVcs := v.irqRaceVcs + 1 }

def VFailed (v : Verdict) : Prop := v.finalResult.isFail = true

instance : DecidablePred VFailed := fun v =>
  inferInstanceAs (Decidable (v.finalResult.isFail = true))

theorem not_vfailed_init (gate : HitlGate) : ¬ VFailed (Verdict.init gate) :=
  fun h => nomatch h

-- ── Effects ──────────────────────────────────────────────────────────────────────

/-- The texts of one `check_access`; `counted` is the arm of `dma_map_single`, which counts
    every answer but `Safe`. -/
structure CheckText where
  outOfBounds   : String
  solverUnknown : String
  blocked       : String
  counted       : Bool

inductive Effect where
  | fail (msg : String)
  | mark (reason : String)
  | count (c : Counter)
  /-- `should_run_solver` alone; `reasons` marks the result on either answer. -/
  | ask (vc cls : String) (reasons : Option (String × String))
  | check (vc cls : String) (allocSize offset : Z3Int) (size : UInt64) (txt : CheckText)
  /-- The DMA sets move on. -/
  | pair (dmaAllocs iommuMapped : Finset Nat)

/-- The counting of an answer that is not `Safe`. -/
def CheckText.counts (txt : CheckText) (v : Verdict) : Verdict :=
  if txt.counted then v.count .dma else v

/-- One effect. -/
def exec (z3 : Solver) : Effect → Verdict → Flow Verdict
  | .fail msg, v => .brk (v.fail msg)
  | .mark reason, v => .next (v.mark reason)
  | .count c, v => .next (v.count c)
  | .ask vc cls reasons, v =>
      let answer := v.gate.shouldRunSolver vc cls
      let v := { v with gate := answer.2 }
      match reasons with
      | none => .next v
      | some (granted, refused) => .next (v.mark (if answer.1 then granted else refused))
  | .check vc cls allocSize offset size txt, v =>
      let answer := checkAccess z3 allocSize offset size vc cls v.gate
      let v := { v with gate := answer.2 }
      match answer.1 with
      | .oob => .brk ((txt.counts v).fail txt.outOfBounds)
      | .safe => .next v
      | .solverUnknown => .next ((txt.counts v).mark txt.solverUnknown)
      | .hitlBlocked => .next ((txt.counts v).mark txt.blocked)
  | .pair dmaAllocs iommuMapped, v =>
      .next { v with dmaAllocs := dmaAllocs, iommuMapped := iommuMapped }

theorem counts_finalResult (txt : CheckText) (v : Verdict) :
    (txt.counts v).finalResult = v.finalResult := by
  cases h : txt.counted with
  | false => rw [show txt.counts v = if txt.counted then v.count .dma else v from rfl, h]; rfl
  | true => rw [show txt.counts v = if txt.counted then v.count .dma else v from rfl, h]; rfl

/-- `break` and `Fail` go together. -/
theorem exec_flagged (z3 : Solver) : Flagged VFailed (exec z3) where
  next_down := by
    intro x v v' hv h
    cases x with
    | fail msg => exact nomatch h
    | mark reason =>
        obtain rfl := Flow.next.inj h
        exact fun hf => hv ((markUnknown_isFail _ _).symm.trans hf)
    | count c =>
        obtain rfl := Flow.next.inj h
        cases c <;> exact hv
    | ask vc cls reasons =>
        cases reasons with
        | none =>
            obtain rfl := Flow.next.inj h
            exact hv
        | some r =>
            obtain rfl := Flow.next.inj h
            exact fun hf => hv ((markUnknown_isFail _ _).symm.trans hf)
    | check vc cls allocSize offset size txt =>
        simp only [exec] at h
        split at h
        · exact nomatch h
        · obtain rfl := Flow.next.inj h
          exact hv
        · obtain rfl := Flow.next.inj h
          intro hf
          have hm := (markUnknown_isFail _ _).symm.trans hf
          rw [counts_finalResult] at hm
          exact hv hm
        · obtain rfl := Flow.next.inj h
          intro hf
          have hm := (markUnknown_isFail _ _).symm.trans hf
          rw [counts_finalResult] at hm
          exact hv hm
    | pair dmaAllocs iommuMapped =>
        obtain rfl := Flow.next.inj h
        exact hv
  brk_up := by
    intro x v v' _ h
    cases x with
    | fail msg =>
        obtain rfl := Flow.brk.inj h
        rfl
    | mark reason => exact nomatch h
    | count c => exact nomatch h
    | ask vc cls reasons => cases reasons <;> exact nomatch h
    | check vc cls allocSize offset size txt =>
        simp only [exec] at h
        split at h
        · obtain rfl := Flow.brk.inj h
          rfl
        · exact nomatch h
        · exact nomatch h
        · exact nomatch h
    | pair dmaAllocs iommuMapped => exact nomatch h

-- ── The effects of an instruction ────────────────────────────────────────────────

/-- The effects of a bounds-checked access; `after` follows an answer that is not `Oob`. -/
def accessEffects (site : Site) (txt : AccessText) (t : Maps) (allocId : Nat) (offset : Z3Int)
    (size : Option UInt64) (after : List Effect) : List Effect :=
  if allocId ∈ t.freedAllocs then [.fail txt.useAfterFree]
  else
    match size with
    | none => [.mark txt.unsized]
    | some n =>
        match t.allocSizes allocId with
        | none => [.mark "Missing allocation size metadata"]
        | some allocSize =>
            .check (site.vcId txt.kind) (vcClassId txt.kind n) allocSize offset n
              ⟨txt.outOfBounds, txt.solverUnknown,
                "HITL gate blocked unapproved VC: " ++ site.vcId txt.kind, false⟩ :: after

def irqEffects (e : Env) (site : Site) (kind : String) (allocId : Nat) : List Effect :=
  if e.hasIrqRisk then
    [.count .irqRace,
     .ask (site.vcId ("irq_race_" ++ kind)) ("class::irq_race::alloc" ++ toString allocId)
      (some ("Potential IRQ race: interrupt handler may free allocation "
          ++ toString allocId ++ " before " ++ kind ++ " in " ++ site.funcName,
        "HITL gate blocked IRQ race VC: " ++ site.vcId ("irq_race_" ++ kind)))]
  else []

def kmallocEffects (call : Call) : List Effect :=
  match call.arguments.head? with
  | none => [.mark "kmalloc/kzalloc missing size argument"]
  | some sizeOp =>
      match operandConstU64 sizeOp with
      | none => [.mark "kmalloc/kzalloc with non-constant size unsupported"]
      | some _ => []

def kcallocEffects (call : Call) : List Effect :=
  match call.arguments.head? with
  | none => [.mark "kcalloc missing nmemb argument"]
  | some nmembOp =>
      match call.arguments[1]? with
      | none => [.mark "kcalloc missing size argument"]
      | some sizeOp =>
          match operandConstU64 nmembOp, operandConstU64 sizeOp with
          | some nmemb, some elemSize =>
              match checkedMul nmemb elemSize with
              | none => [.fail "kcalloc size multiplication overflow"]
              | some _ => []
          | _, _ => [.mark "kcalloc with non-constant nmemb/size unsupported"]

def kfreeEffects (site : Site) (call : Call) (t : Maps) : List Effect :=
  match call.arguments.head? with
  | none => [.mark "kfree missing pointer argument"]
  | some ptrOp =>
      match operandLocalName ptrOp with
      | none => [.mark "kfree on non-local operand unsupported"]
      | some name =>
          match t.ptrEnv name with
          | some (.kmalloc allocId _) =>
              if allocId ∈ t.freedAllocs then
                [.fail ("Double free detected in function " ++ site.funcName)]
              else []
          | _ => []

/-- A `memset` or `memcpy` operand: only `Kmalloc` pointers are checked. -/
def regionEffects (site : Site) (txt : AccessText) (t : Maps) (op : Operand) (len : UInt64) :
    List Effect :=
  match operandLocalName op with
  | none => []
  | some name =>
      match t.ptrEnv name with
      | some (.kmalloc allocId offset) => accessEffects site txt t allocId offset (some len) []
      | _ => []

def memsetEffects (site : Site) (call : Call) (t : Maps) : List Effect :=
  match call.arguments.head? with
  | none => []
  | some destOp =>
      match call.arguments[2]? with
      | none => [.mark "memset missing length argument"]
      | some lenOp =>
          match operandLocalName destOp with
          | none => []
          | some _ =>
              match operandConstU64 lenOp with
              | none => [.mark "memset with non-constant length unsupported"]
              | some len => regionEffects site (memsetText site) t destOp len

def memcpyEffects (site : Site) (call : Call) (t : Maps) : List Effect :=
  match call.arguments.head? with
  | none => []
  | some destOp =>
      match call.arguments[1]? with
      | none => [.mark "memcpy missing source argument"]
      | some srcOp =>
          match call.arguments[2]? with
          | none => [.mark "memcpy missing length argument"]
          | some lenOp =>
              match operandConstU64 lenOp with
              | none => [.mark "memcpy with non-constant length unsupported"]
              | some len =>
                  regionEffects site (memcpyText site "destination") t destOp len
                    ++ regionEffects site (memcpyText site "source") t srcOp len

def unnamedEffects (e : Env) (site : Site) (call : Call) : List Effect :=
  match call.function with
  | .operand _ => []
  | .inlineAssembly assembly =>
      match e.inlineAsmPolicy with
      | .trap =>
          [.count .inlineAsm,
           .fail ("Inline assembly detected in function " ++ site.funcName ++ " (trap policy)")]
      | .conservative =>
          if isSafeInlineAsm assembly then []
          else
            [.count .inlineAsm,
             .ask (site.vcId "inline_asm") "class::inline_asm::opaque"
              (some ("Opaque inline assembly in function " ++ site.funcName ++ ": '" ++ assembly
                  ++ "'",
                "HITL gate blocked inline asm VC: " ++ site.vcId "inline_asm"))]

def dmaAllocEffects (site : Site) (call : Call) (t : Maps) : List Effect :=
  match call.arguments[1]? with
  | none => [.mark "dma_alloc_coherent missing size argument"]
  | some sizeOp =>
      match operandConstU64 sizeOp with
      | none => [.mark "dma_alloc_coherent with non-constant size"]
      | some size =>
          [.count .dma, .ask (site.vcId "dma_alloc") (vcClassId "dma_alloc" size) none,
           .pair (insert t.allocCounter t.dmaAllocsInFunc) t.iommuMappedInFunc]

def dmaMapEffects (site : Site) (call : Call) (t : Maps) : List Effect :=
  match call.arguments[1]? with
  | none => [.mark "dma_map_single missing ptr argument"]
  | some ptrOp =>
      match call.arguments[2]? with
      | none => [.mark "dma_map_single missing size argument"]
      | some sizeOp =>
          match operandConstU64 sizeOp with
          | none => [.mark "dma_map_single with non-constant size"]
          | some mapSize =>
              match ((operandLocalName ptrOp).bind t.ptrEnv).bind ptrvalAllocInfo with
              | none => []
              | some (allocId, offset) =>
                  match t.allocSizes allocId with
                  | none => []
                  | some allocSize =>
                      [.check (site.vcId "dma_map") (vcClassId "dma_bounds" mapSize) allocSize
                        offset mapSize
                        ⟨"DMA mapping exceeds allocation bounds in function " ++ site.funcName,
                          "Solver unknown for DMA mapping bound check",
                          "HITL gate blocked DMA VC: " ++ site.vcId "dma_map", true⟩]

def callEffects (e : Env) (site : Site) (call : Call) (t : Maps) : List Effect :=
  match callArm e.dmaPolicy (functionNameOfCall call) with
  | .kmalloc => kmallocEffects call
  | .kcalloc => kcallocEffects call
  | .kfree => kfreeEffects site call t
  | .memset => memsetEffects site call t
  | .memcpy => memcpyEffects site call t
  | .unnamed => unnamedEffects e site call
  | .dmaAlloc => dmaAllocEffects site call t
  | .dmaMap => dmaMapEffects site call t
  | .iommuMap => [.pair t.dmaAllocsInFunc (t.iommuMappedInFunc ∪ t.dmaAllocsInFunc)]
  | .untracked => []

def gepEffects (e : Env) (gep : GetElementPtr) (t : Maps) : List Effect :=
  match gep.address with
  | .localOperand baseName _ =>
      match gepBase t baseName with
      | some (.kmalloc _ offset) =>
          match inferGepOffset e.module gep offset with
          | some _ => []
          | none => [.mark "GEP with unsupported index/type pattern"]
      | some (.dmaAlloc _ offset) =>
          match inferGepOffset e.module gep offset with
          | some _ => []
          | none => [.mark "GEP with unsupported index/type pattern (DMA)"]
      | _ => []
  | _ => [.mark "GEP base is not a local operand"]

/-- A cast marks the result if its operand is not a local. -/
def castEffects (operand : Operand) (reason : String) : List Effect :=
  match operand with
  | .localOperand _ _ => []
  | _ => [.mark reason]

/-- An `Add` or `Sub` that loses track of a pointer-derived operand. -/
def arithEffects (t : Maps) (out : Option IntVal) (op0 op1 : Operand) (reason : String) :
    List Effect :=
  match out with
  | some _ => []
  | none => if intTracked t op0 op1 then [.mark reason] else []

def addEffects (t : Maps) (op0 op1 : Operand) : List Effect :=
  arithEffects t (addOut t op0 op1) op0 op1 "Unsupported pointer-derived integer add pattern"

def subEffects (t : Maps) (op0 op1 : Operand) : List Effect :=
  arithEffects t (subOut t op0 op1) op0 op1 "Unsupported pointer-derived integer sub pattern"
    ++ if (operandInt t op1).isSome then
        [.mark "Subtracting pointer-derived integer as RHS is unsupported"]
      else []

/-- A `Load` or `Store` through `name`, in the maps its slot lookup leaves. -/
def memoryEffects (e : Env) (site : Site) (txt : AccessText) (kind : String) (t : Maps)
    (name : Name) (ty : IrType) : List Effect :=
  match (t.ptrEnv name).bind ptrvalAllocInfo with
  | some (allocId, offset) =>
      accessEffects site txt t allocId offset (typeSize e.module ty)
        (irqEffects e site kind allocId)
  | none => []

/-- **The effects of an instruction** on the verdict, from the maps before it. -/
def effects (e : Env) (site : Site) (t : Maps) : List Effect :=
  match site.instr with
  | .alloca _ => []
  | .call call => callEffects e site call t
  | .getElementPtr gep => gepEffects e gep t
  | .ptrToInt operand _ _ => castEffects operand "PtrToInt from non-local operand unsupported"
  | .intToPtr operand _ _ => castEffects operand "IntToPtr from non-local operand unsupported"
  | .add op0 op1 _ => addEffects t op0 op1
  | .sub op0 op1 _ => subEffects t op0 op1
  | .bitCast operand _ _ => castEffects operand "BitCast from non-local operand unsupported"
  | .store address value =>
      match operandLocalName address with
      | some destName =>
          memoryEffects e site (storeText site) "store" (t.spill destName value) destName
            value.typeOf
      | none => []
  | .load address loadedTy dest =>
      match operandLocalName address with
      | some srcName =>
          memoryEffects e site (loadText site) "load" (t.reload srcName dest) srcName loadedTy
      | none => []
  | .other _ _ _ => []

/-- The plan of a list of sites: their effects, the maps moving on from site to site. -/
def plan (e : Env) : List Site → Maps → List Effect :=
  planOf (effects e) (fun site t => transfer e.module e.dmaPolicy site.instr t)

-- ── Each arm runs its effects ────────────────────────────────────────────────────

/-- Only the DMA sets of the maps are part of the verdict. -/
theorem verdict_withMaps {s : St} {t : Maps} (hd : t.dmaAllocsInFunc = s.maps.dmaAllocsInFunc)
    (hi : t.iommuMappedInFunc = s.maps.iommuMappedInFunc) :
    verdict { s with maps := t } = verdict s := by
  rw [show verdict { s with maps := t } = ⟨s.finalResult, s.gate, s.inlineAsmVcs, s.dmaVcs,
    s.irqRaceVcs, t.dmaAllocsInFunc, t.iommuMappedInFunc⟩ from rfl, hd, hi]
  rfl

theorem verdict_kmalloc (s : St) (dest : Option Name) (size : UInt64) :
    verdict { s with maps := s.maps.kmalloc dest size } = verdict s := by
  cases dest <;> rfl

theorem verdict_spill (s : St) (destName : Name) (value : Operand) :
    verdict { s with maps := s.maps.spill destName value } = verdict s := by
  obtain ⟨hd, hi⟩ : (s.maps.spill destName value).dmaAllocsInFunc = s.maps.dmaAllocsInFunc
      ∧ (s.maps.spill destName value).iommuMappedInFunc = s.maps.iommuMappedInFunc := by
    unfold Maps.spill
    split
    · split
      · split <;> exact ⟨rfl, rfl⟩
      · exact ⟨rfl, rfl⟩
    · exact ⟨rfl, rfl⟩
  exact verdict_withMaps hd hi

theorem verdict_reload (s : St) (srcName dest : Name) :
    verdict { s with maps := s.maps.reload srcName dest } = verdict s := by
  obtain ⟨hd, hi⟩ : (s.maps.reload srcName dest).dmaAllocsInFunc = s.maps.dmaAllocsInFunc
      ∧ (s.maps.reload srcName dest).iommuMappedInFunc = s.maps.iommuMappedInFunc := by
    unfold Maps.reload
    split
    · split <;> exact ⟨rfl, rfl⟩
    · exact ⟨rfl, rfl⟩
  exact verdict_withMaps hd hi

theorem guardedAccess_verdict (e : Env) (site : Site) (txt : AccessText) (allocId : Nat)
    (offset : Z3Int) (size : Option UInt64) {after : St → St} (rest : List Effect)
    (hafter : ∀ s, verdict (after s) = forLoop (exec e.host.z3) rest (verdict s)) (s : St) :
    verdict (guardedAccess e site txt allocId offset size after s).state
      = forLoop (exec e.host.z3) (accessEffects site txt s.maps allocId offset size rest)
          (verdict s) := by
  simp only [guardedAccess, accessEffects]
  by_cases hfreed : allocId ∈ s.maps.freedAllocs
  · rw [if_pos hfreed, if_pos hfreed]
    rfl
  · rw [if_neg hfreed, if_neg hfreed]
    cases size with
    | none => rfl
    | some n =>
        cases s.maps.allocSizes allocId with
        | none => rfl
        | some allocSize =>
            simp only [afterCheck, forLoop, exec, verdict]
            rcases checkAccess e.host.z3 allocSize offset n (site.vcId txt.kind)
              (vcClassId txt.kind n) s.gate with ⟨answer, gate⟩
            cases answer with
            | oob => rfl
            | safe => exact hafter _
            | solverUnknown => exact hafter _
            | hitlBlocked => exact hafter _

theorem irqRace_verdict (e : Env) (site : Site) (kind : String) (allocId : Nat) (s : St) :
    verdict (irqRace e site kind allocId s)
      = forLoop (exec e.host.z3) (irqEffects e site kind allocId) (verdict s) := by
  simp only [irqRace, irqEffects]
  cases e.hasIrqRisk with
  | false => rfl
  | true =>
      simp only [if_true, forLoop, exec, verdict, Verdict.count]
      rcases s.gate.shouldRunSolver (site.vcId ("irq_race_" ++ kind))
        ("class::irq_race::alloc" ++ toString allocId) with ⟨answer, gate⟩
      cases answer <;> rfl

theorem memcpyOperand_verdict (e : Env) (site : Site) (len : UInt64) (x : Operand × String)
    (s : St) :
    verdict (memcpyOperand e site len x s).state
      = forLoop (exec e.host.z3) (regionEffects site (memcpyText site x.2) s.maps x.1 len)
          (verdict s) := by
  simp only [memcpyOperand, regionEffects]
  cases operandLocalName x.1 with
  | none => rfl
  | some name =>
      simp only
      cases s.maps.ptrEnv name with
      | none => rfl
      | some pv =>
          cases pv with
          | kmalloc allocId offset =>
              exact guardedAccess_verdict e site _ allocId offset (some len) [] (fun _ => rfl) s
          | dmaAlloc allocId offset => rfl
          | unknown => rfl

theorem stepMemset_verdict (e : Env) (site : Site) (call : Call) (s : St) :
    verdict (stepMemset e site call s).state
      = forLoop (exec e.host.z3) (memsetEffects site call s.maps) (verdict s) := by
  simp only [stepMemset, memsetEffects]
  cases call.arguments.head? with
  | none => rfl
  | some destOp =>
  cases call.arguments[2]? with
  | none => rfl
  | some lenOp =>
  cases hname : operandLocalName destOp with
  | none => simp only [hname]; rfl
  | some name =>
  cases hlen : operandConstU64 lenOp with
  | none => simp only [hname, hlen]; rfl
  | some len =>
      simp only [hname, hlen, regionEffects]
      cases s.maps.ptrEnv name with
      | none => rfl
      | some pv =>
          cases pv with
          | kmalloc allocId offset =>
              exact guardedAccess_verdict e site _ allocId offset (some len) [] (fun _ => rfl) s
          | dmaAlloc allocId offset => rfl
          | unknown => rfl

/-- The inner loop of `memcpy` keeps the maps, so its effects can be told beforehand. -/
theorem memcpyLoop_verdict (e : Env) (site : Site) (len : UInt64)
    (xs : List (Operand × String)) {s : St} (hs : ¬ Failed s) :
    verdict (forLoop (memcpyOperand e site len) xs s)
      = forLoop (exec e.host.z3)
          (planOf (fun x t => regionEffects site (memcpyText site x.2) t x.1 len)
            (fun _ t => t) xs s.maps) (verdict s) := by
  refine forLoop_planOf (exec_flagged e.host.z3) verdict St.maps _ _ ?_ ?_ ?_ xs s hs
  · exact ⟨fun x s s' h heq => (memcpyOperand_ok e site len x s).next_down s' heq h,
      fun x s s' _ heq => (memcpyOperand_ok e site len x s).brk_up s' heq⟩
  · exact fun x s _ => memcpyOperand_verdict e site len x s
  · exact fun x s _ => (memcpyOperand_ok e site len x s).maps

theorem stepMemcpy_verdict (e : Env) (site : Site) (call : Call) {s : St} (hs : ¬ Failed s) :
    verdict (stepMemcpy e site call s).state
      = forLoop (exec e.host.z3) (memcpyEffects site call s.maps) (verdict s) := by
  simp only [stepMemcpy, memcpyEffects]
  cases call.arguments.head? with
  | none => rfl
  | some destOp =>
  cases call.arguments[1]? with
  | none => rfl
  | some srcOp =>
  cases call.arguments[2]? with
  | none => rfl
  | some lenOp =>
  cases hlen : operandConstU64 lenOp with
  | none => simp only [hlen]; rfl
  | some len =>
      have hloop := memcpyLoop_verdict e site len [(destOp, "destination"), (srcOp, "source")] hs
      simp only [planOf, List.append_nil] at hloop
      simp only [hlen, ← hloop]
      split <;> rfl

theorem stepUnnamed_verdict (e : Env) (site : Site) (call : Call) (s : St) :
    verdict (stepUnnamed e site call s).state
      = forLoop (exec e.host.z3) (unnamedEffects e site call) (verdict s) := by
  simp only [stepUnnamed, unnamedEffects]
  cases call.function with
  | operand op => rfl
  | inlineAssembly assembly =>
  cases e.inlineAsmPolicy with
  | trap => rfl
  | conservative =>
  cases hsafe : isSafeInlineAsm assembly with
  | true => simp only [hsafe, if_true]; rfl
  | false =>
      simp only [hsafe, Bool.false_eq_true, if_false, forLoop, exec, verdict, Verdict.count]
      rcases s.gate.shouldRunSolver (site.vcId "inline_asm") "class::inline_asm::opaque"
        with ⟨answer, gate⟩
      cases answer <;> rfl

theorem stepDmaMap_verdict (e : Env) (site : Site) (call : Call) (s : St) :
    verdict (stepDmaMap e site call s).state
      = forLoop (exec e.host.z3) (dmaMapEffects site call s.maps) (verdict s) := by
  simp only [stepDmaMap, dmaMapEffects]
  cases call.arguments[1]? with
  | none => rfl
  | some ptrOp =>
  cases call.arguments[2]? with
  | none => rfl
  | some sizeOp =>
  cases hsize : operandConstU64 sizeOp with
  | none => simp only [hsize]; rfl
  | some mapSize =>
  cases hinfo : ((operandLocalName ptrOp).bind s.maps.ptrEnv).bind ptrvalAllocInfo with
  | none => simp only [hsize, hinfo]; rfl
  | some x =>
  obtain ⟨allocId, offset⟩ := x
  cases halloc : s.maps.allocSizes allocId with
  | none => simp only [hsize, hinfo, halloc]; rfl
  | some allocSize =>
      simp only [hsize, hinfo, halloc, forLoop, exec, verdict]
      rcases checkAccess e.host.z3 allocSize offset mapSize (site.vcId "dma_map")
        (vcClassId "dma_bounds" mapSize) s.gate with ⟨answer, gate⟩
      cases answer <;> rfl

theorem stepKmalloc_verdict (z3 : Solver) (call : Call) (s : St) :
    verdict (stepKmalloc call s).state
      = forLoop (exec z3) (kmallocEffects call) (verdict s) := by
  simp only [stepKmalloc, kmallocEffects]
  cases call.arguments.head? with
  | none => rfl
  | some sizeOp =>
  cases hsize : operandConstU64 sizeOp with
  | none => simp only [hsize]; rfl
  | some size => simp only [hsize]; exact verdict_kmalloc s call.dest size

theorem stepKcalloc_verdict (z3 : Solver) (call : Call) (s : St) :
    verdict (stepKcalloc call s).state
      = forLoop (exec z3) (kcallocEffects call) (verdict s) := by
  simp only [stepKcalloc, kcallocEffects]
  cases call.arguments.head? with
  | none => rfl
  | some nmembOp =>
  cases call.arguments[1]? with
  | none => rfl
  | some sizeOp =>
  cases hn : operandConstU64 nmembOp with
  | none => simp only [hn]; rfl
  | some nmemb =>
  cases hs : operandConstU64 sizeOp with
  | none => simp only [hn, hs]; rfl
  | some elemSize =>
  cases hmul : checkedMul nmemb elemSize with
  | none => simp only [hn, hs, hmul]; rfl
  | some totalSize => simp only [hn, hs, hmul]; exact verdict_kmalloc s call.dest totalSize

theorem stepKfree_verdict (z3 : Solver) (site : Site) (call : Call) (s : St) :
    verdict (stepKfree site call s).state
      = forLoop (exec z3) (kfreeEffects site call s.maps) (verdict s) := by
  simp only [stepKfree, kfreeEffects]
  cases call.arguments.head? with
  | none => rfl
  | some ptrOp =>
  cases hname : operandLocalName ptrOp with
  | none => simp only [hname]; rfl
  | some name =>
      simp only [hname]
      cases s.maps.ptrEnv name with
      | none => rfl
      | some pv =>
          cases pv with
          | kmalloc allocId offset =>
              by_cases hfreed : allocId ∈ s.maps.freedAllocs
              · simp only [if_pos hfreed]; rfl
              · simp only [if_neg hfreed]; rfl
          | dmaAlloc allocId offset => rfl
          | unknown => rfl

theorem stepDmaAlloc_verdict (z3 : Solver) (site : Site) (call : Call) (s : St) :
    verdict (stepDmaAlloc site call s).state
      = forLoop (exec z3) (dmaAllocEffects site call s.maps) (verdict s) := by
  simp only [stepDmaAlloc, dmaAllocEffects]
  cases call.arguments[1]? with
  | none => rfl
  | some sizeOp =>
  cases hsize : operandConstU64 sizeOp with
  | none => simp only [hsize]; rfl
  | some size => simp only [hsize]; cases call.dest <;> rfl

theorem stepCall_verdict (e : Env) (site : Site) (call : Call) {s : St} (hs : ¬ Failed s) :
    verdict (stepCall e site call s).state
      = forLoop (exec e.host.z3) (callEffects e site call s.maps) (verdict s) := by
  have hfail : ¬ s.finalResult.isFail = true := hs
  simp only [stepCall, callEffects, if_neg hfail]
  cases callArm e.dmaPolicy (functionNameOfCall call) with
  | kmalloc => exact stepKmalloc_verdict e.host.z3 call s
  | kcalloc => exact stepKcalloc_verdict e.host.z3 call s
  | kfree => exact stepKfree_verdict e.host.z3 site call s
  | memset => exact stepMemset_verdict e site call s
  | memcpy => exact stepMemcpy_verdict e site call hs
  | unnamed => exact stepUnnamed_verdict e site call s
  | dmaAlloc => exact stepDmaAlloc_verdict e.host.z3 site call s
  | dmaMap => exact stepDmaMap_verdict e site call s
  | iommuMap => rfl
  | untracked => rfl

theorem stepGep_verdict (e : Env) (gep : GetElementPtr) (s : St) :
    verdict (stepGep e gep s).state
      = forLoop (exec e.host.z3) (gepEffects e gep s.maps) (verdict s) := by
  simp only [stepGep, gepEffects]
  cases gep.address with
  | constantOperand c => rfl
  | metadataOperand => rfl
  | localOperand baseName ty =>
      simp only
      cases gepBase s.maps baseName with
      | none => rfl
      | some pv =>
          cases pv with
          | kmalloc allocId offset =>
              simp only; cases inferGepOffset e.module gep offset <;> rfl
          | dmaAlloc allocId offset =>
              simp only; cases inferGepOffset e.module gep offset <;> rfl
          | unknown => rfl

theorem stepAdd_verdict (z3 : Solver) (op0 op1 : Operand) (dest : Name) (s : St) :
    verdict (stepAdd op0 op1 dest s).state
      = forLoop (exec z3) (addEffects s.maps op0 op1) (verdict s) := by
  simp only [stepAdd, addEffects, arithEffects]
  cases addOut s.maps op0 op1 with
  | some v => rfl
  | none => simp only; cases intTracked s.maps op0 op1 <;> rfl

theorem stepSub_verdict (z3 : Solver) (op0 op1 : Operand) (dest : Name) (s : St) :
    verdict (stepSub op0 op1 dest s).state
      = forLoop (exec z3) (subEffects s.maps op0 op1) (verdict s) := by
  simp only [stepSub, subEffects, arithEffects]
  cases (operandInt s.maps op1).isSome <;> cases subOut s.maps op0 op1 with
  | some v => rfl
  | none => simp only; cases intTracked s.maps op0 op1 <;> rfl

theorem stepStore_verdict (e : Env) (site : Site) (address value : Operand) (s : St) :
    verdict (stepStore e site address value s).state
      = forLoop (exec e.host.z3)
          (match operandLocalName address with
          | some destName =>
              memoryEffects e site (storeText site) "store" (s.maps.spill destName value) destName
                value.typeOf
          | none => []) (verdict s) := by
  cases address with
  | constantOperand c => rfl
  | metadataOperand => rfl
  | localOperand destName ty =>
      simp only [stepStore, operandLocalName_local, memoryEffects]
      rw [← verdict_spill s destName value]
      cases ((s.maps.spill destName value).ptrEnv destName).bind ptrvalAllocInfo with
      | none => rfl
      | some x =>
          exact guardedAccess_verdict e site (storeText site) x.1 x.2
            (typeSize e.module value.typeOf) (irqEffects e site "store" x.1)
            (irqRace_verdict e site "store" x.1) { s with maps := s.maps.spill destName value }

theorem stepLoad_verdict (e : Env) (site : Site) (address : Operand) (loadedTy : IrType)
    (dest : Name) (s : St) :
    verdict (stepLoad e site address loadedTy dest s).state
      = forLoop (exec e.host.z3)
          (match operandLocalName address with
          | some srcName =>
              memoryEffects e site (loadText site) "load" (s.maps.reload srcName dest) srcName
                loadedTy
          | none => []) (verdict s) := by
  cases address with
  | constantOperand c => rfl
  | metadataOperand => rfl
  | localOperand srcName ty =>
      simp only [stepLoad, operandLocalName_local, memoryEffects]
      rw [← verdict_reload s srcName dest]
      cases ((s.maps.reload srcName dest).ptrEnv srcName).bind ptrvalAllocInfo with
      | none => rfl
      | some x =>
          exact guardedAccess_verdict e site (loadText site) x.1 x.2
            (typeSize e.module loadedTy) (irqEffects e site "load" x.1)
            (irqRace_verdict e site "load" x.1) { s with maps := s.maps.reload srcName dest }

/-- **One instruction** runs its effects on the verdict, and nothing else. -/
theorem stepInstr_verdict (e : Env) (site : Site) {s : St} (hs : ¬ Failed s) :
    verdict (stepInstr e site s).state
      = forLoop (exec e.host.z3) (effects e site s.maps) (verdict s) := by
  simp only [stepInstr, effects]
  cases site.instr with
  | alloca dest => rfl
  | call call => exact stepCall_verdict e site call hs
  | getElementPtr gep => exact stepGep_verdict e gep s
  | ptrToInt operand toType dest => cases operand <;> rfl
  | intToPtr operand toType dest => cases operand <;> rfl
  | add op0 op1 dest => exact stepAdd_verdict e.host.z3 op0 op1 dest s
  | sub op0 op1 dest => exact stepSub_verdict e.host.z3 op0 op1 dest s
  | bitCast operand toType dest => cases operand <;> rfl
  | store address value => exact stepStore_verdict e site address value s
  | load address loadedTy dest => exact stepLoad_verdict e site address loadedTy dest s
  | other opcode operands dest => rfl

/-- The plan of a loop over sites, from any state that has not failed. -/
theorem forLoop_plan (e : Env) (l : List Site) {s : St} (hs : ¬ Failed s) :
    verdict (forLoop (stepInstr e) l s)
      = forLoop (exec e.host.z3) (plan e l s.maps) (verdict s) :=
  forLoop_planOf (exec_flagged e.host.z3) verdict St.maps (effects e) _ (stepInstr_flagged e)
    (fun site _ hs => stepInstr_verdict e site hs)
    (fun site _ hs => (stepInstr_ok e site hs).maps) l s hs

/-- **The verdict of the scan is one loop over the plan** of the module. -/
theorem scanModule_plan (e : Env) (gate : HitlGate) :
    verdict (scanModule e gate)
      = forLoop (exec e.host.z3) (plan e (sites e.module) Maps.empty) (Verdict.init gate) := by
  rw [scanModule_eq]
  exact forLoop_plan e _ (not_failed_init gate)

-- ── The outcome is read off the verdict ──────────────────────────────────────────

/-- The require-iommu check, on the verdict. -/
def Verdict.enforced (dmaPolicy : DmaPolicy) (setOrder : Finset Nat → List Nat) (v : Verdict) :
    AnalysisResult :=
  match dmaPolicy with
  | .requireIommu =>
      match (setOrder v.dmaAllocs).find? (fun id => decide (id ∉ v.iommuMapped)) with
      | some id =>
          .fail ("DMA allocation " ++ toString id
            ++ " has no paired iommu_map call (require-iommu policy)")
      | none => v.finalResult
  | _ => v.finalResult

/-- What `analyze` returns, and the gate it leaves behind. -/
def Verdict.outcome (dmaPolicy : DmaPolicy) (setOrder : Finset Nat → List Nat) (v : Verdict) :
    AnalysisOutcome × HitlGate :=
  ({ result             := v.enforced dmaPolicy setOrder
     hitlSeenVcs        := v.gate.seen.dedup.length
     hitlBlockedVcs     := v.gate.blocked.dedup.length
     hitlSeenClasses    := v.gate.seenClasses.dedup.length
     hitlBlockedClasses := v.gate.blockedClasses.dedup.length
     inlineAsmVcs       := v.inlineAsmVcs
     dmaVcs             := v.dmaVcs
     irqRaceVcs         := v.irqRaceVcs }, v.gate)

/-- The verdict of a module: its plan, run from the start. -/
def runPlan (e : Env) (gate : HitlGate) : Verdict :=
  forLoop (exec e.host.z3) (plan e (sites e.module) Maps.empty) (Verdict.init gate)

/-- **`analyze` runs the plan** of the module and reads the outcome off the verdict. -/
theorem analyze_eq_runPlan (m : Module) (host : Host) (gate : HitlGate)
    (asmP : InlineAsmPolicy) (dmaP : DmaPolicy) :
    analyze m host gate asmP dmaP
      = (runPlan (mkEnv m host asmP dmaP) gate).outcome dmaP host.setOrder := by
  rw [show runPlan (mkEnv m host asmP dmaP) gate = verdict (scanModule (mkEnv m host asmP dmaP)
    gate) from (scanModule_plan _ gate).symm]
  rfl

end SkvPlan

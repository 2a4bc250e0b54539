import SentinelKv.SkvPlanProofs

/-!
# What an instruction looks up and what it records

An instruction reads the maps in two ways: it looks local NAMES up, in one of four
environments (`looks`), and it reads the tables keyed by allocation id.  It writes at most one
entry (`Delta`).  So two maps that answer its lookups alike and have the same tables cannot
be told apart by it, even under other names:

* **`effects_rename`** — the same effects;
* **`delta_rename`** — the same entry recorded, under the new name;
* **`sameAt_apply`**, **`sameTables_apply`** — what recording it does to later lookups.
-/

namespace SkvLookup

open BreakLoop SkvIr SkvTypeSize SkvGate SkvAnalyze SkvTransfer SkvPlan

-- ── Renaming ─────────────────────────────────────────────────────────────────────

def renameOperand (ρ : Name → Name) : Operand → Operand
  | .localOperand name ty => .localOperand (ρ name) ty
  | .constantOperand c => .constantOperand c
  | .metadataOperand => .metadataOperand

def renameCallee (ρ : Name → Name) : Callee → Callee
  | .inlineAssembly assembly => .inlineAssembly assembly
  | .operand op => .operand (renameOperand ρ op)

def renameCall (ρ : Name → Name) (c : Call) : Call :=
  ⟨renameCallee ρ c.function, c.arguments.map (renameOperand ρ), c.dest.map ρ⟩

def renameGep (ρ : Name → Name) (g : GetElementPtr) : GetElementPtr :=
  ⟨renameOperand ρ g.address, g.indices.map (renameOperand ρ), ρ g.dest, g.sourceElementType⟩

/-- Rename the uses and the result of an instruction. -/
def renameInstr (ρ : Name → Name) : Instruction → Instruction
  | .alloca dest => .alloca (ρ dest)
  | .call c => .call (renameCall ρ c)
  | .getElementPtr g => .getElementPtr (renameGep ρ g)
  | .ptrToInt op ty dest => .ptrToInt (renameOperand ρ op) ty (ρ dest)
  | .intToPtr op ty dest => .intToPtr (renameOperand ρ op) ty (ρ dest)
  | .add op0 op1 dest => .add (renameOperand ρ op0) (renameOperand ρ op1) (ρ dest)
  | .sub op0 op1 dest => .sub (renameOperand ρ op0) (renameOperand ρ op1) (ρ dest)
  | .bitCast op ty dest => .bitCast (renameOperand ρ op) ty (ρ dest)
  | .store address value => .store (renameOperand ρ address) (renameOperand ρ value)
  | .load address ty dest => .load (renameOperand ρ address) ty (ρ dest)
  | .other opcode ops dest => .other opcode (ops.map (renameOperand ρ)) (dest.map ρ)

@[simp] theorem operandConstU64_rename (ρ : Name → Name) (op : Operand) :
    operandConstU64 (renameOperand ρ op) = operandConstU64 op := by
  cases op <;> rfl

@[simp] theorem operandLocalName_rename (ρ : Name → Name) (op : Operand) :
    operandLocalName (renameOperand ρ op) = (operandLocalName op).map ρ := by
  cases op <;> rfl

@[simp] theorem typeOf_rename (ρ : Name → Name) (op : Operand) :
    (renameOperand ρ op).typeOf = op.typeOf := by
  cases op <;> rfl

@[simp] theorem functionNameOfCall_rename (ρ : Name → Name) (c : Call) :
    functionNameOfCall (renameCall ρ c) = functionNameOfCall c := by
  obtain ⟨function, arguments, dest⟩ := c
  cases function with
  | inlineAssembly assembly => rfl
  | operand op => cases op <;> rfl

theorem head?_renameCall (ρ : Name → Name) (c : Call) :
    (renameCall ρ c).arguments.head? = c.arguments.head?.map (renameOperand ρ) :=
  List.head?_map

theorem getElem?_renameCall (ρ : Name → Name) (c : Call) (i : Nat) :
    (renameCall ρ c).arguments[i]? = c.arguments[i]?.map (renameOperand ρ) :=
  List.getElem?_map

-- ── Lookups ──────────────────────────────────────────────────────────────────────

/-- The four environments keyed by local names. -/
inductive LookKind where
  | ptr
  | int
  | slot
  | alloca
deriving DecidableEq, Repr

/-- The lookup of an operand, if it is a local. -/
def look (kind : LookKind) (op : Operand) : List (LookKind × Name) :=
  ((operandLocalName op).map (fun n => (kind, n))).toList

/-- The pointers a call looks up. -/
def callLooks (dma : DmaPolicy) (call : Call) : List (LookKind × Name) :=
  match callArm dma (functionNameOfCall call) with
  | .kfree => call.arguments.head?.toList.flatMap (look .ptr)
  | .memset => call.arguments.head?.toList.flatMap (look .ptr)
  | .memcpy => (call.arguments.head?.toList ++ call.arguments[1]?.toList).flatMap (look .ptr)
  | .dmaMap => call.arguments[1]?.toList.flatMap (look .ptr)
  | _ => []

/-- **The lookups of an instruction.** -/
def looks (dma : DmaPolicy) : Instruction → List (LookKind × Name)
  | .alloca _ => []
  | .call c => callLooks dma c
  | .getElementPtr g => look .ptr g.address ++ look .slot g.address
  | .ptrToInt op _ _ => look .ptr op
  | .intToPtr op _ _ => look .int op
  | .add op0 op1 _ => look .int op0 ++ look .int op1
  | .sub op0 op1 _ => look .int op0 ++ look .int op1
  | .bitCast op _ _ => look .ptr op
  | .store address value => look .alloca address ++ look .ptr address ++ look .ptr value
  | .load address _ _ => look .alloca address ++ look .slot address ++ look .ptr address
  | .other _ _ _ => []

theorem mem_look {kind : LookKind} {op : Operand} {n : Name} (h : operandLocalName op = some n) :
    (kind, n) ∈ look kind op := by
  rw [look, h]
  exact List.mem_singleton.mpr rfl

/-- `n` in `t` and `n'` in `t'` are answered alike. -/
def SameAt (kind : LookKind) (t : Maps) (n : Name) (t' : Maps) (n' : Name) : Prop :=
  match kind with
  | .ptr => t'.ptrEnv n' = t.ptrEnv n
  | .int => t'.intEnv n' = t.intEnv n
  | .slot => t'.allocaStoreMap n' = t.allocaStoreMap n
  | .alloca => (n' ∈ t'.allocaNames ↔ n ∈ t.allocaNames)

instance (kind : LookKind) (t : Maps) (n : Name) (t' : Maps) (n' : Name) :
    Decidable (SameAt kind t n t' n') :=
  match kind with
  | .ptr => inferInstanceAs (Decidable (t'.ptrEnv n' = t.ptrEnv n))
  | .int => inferInstanceAs (Decidable (t'.intEnv n' = t.intEnv n))
  | .slot => inferInstanceAs (Decidable (t'.allocaStoreMap n' = t.allocaStoreMap n))
  | .alloca => inferInstanceAs (Decidable (n' ∈ t'.allocaNames ↔ n ∈ t.allocaNames))

/-- The tables keyed by allocation id are the same. -/
structure SameTables (t t' : Maps) : Prop where
  sizes   : t'.allocSizes = t.allocSizes
  freed   : t'.freedAllocs = t.freedAllocs
  counter : t'.allocCounter = t.allocCounter
  dma     : t'.dmaAllocsInFunc = t.dmaAllocsInFunc
  iommu   : t'.iommuMappedInFunc = t.iommuMappedInFunc

/-- All lookups of `i` in `t` are answered alike in `t'` under the new names. -/
def LooksSame (dma : DmaPolicy) (ρ : Name → Name) (i : Instruction) (t t' : Maps) : Prop :=
  ∀ x ∈ looks dma i, SameAt x.1 t x.2 t' (ρ x.2)

/-- The fixed parts of two runs that instructions can see are the same. -/
structure SameEnv (e e' : Env) : Prop where
  types : e.module.namedStructs = e'.module.namedStructs
  asm   : e'.inlineAsmPolicy = e.inlineAsmPolicy
  dma   : e'.dmaPolicy = e.dmaPolicy
  irq   : e'.hasIrqRisk = e.hasIrqRisk

-- ── Looked-up values ─────────────────────────────────────────────────────────────

section Values

variable {ρ : Name → Name} {t t' : Maps}

theorem ptrEnv_rename {op : Operand}
    (h : ∀ x ∈ look .ptr op, SameAt x.1 t x.2 t' (ρ x.2)) :
    (operandLocalName (renameOperand ρ op)).bind t'.ptrEnv
      = (operandLocalName op).bind t.ptrEnv := by
  rw [operandLocalName_rename]
  cases hop : operandLocalName op with
  | none => rfl
  | some n => exact h (.ptr, n) (mem_look hop)

theorem operandInt_rename {op : Operand}
    (h : ∀ x ∈ look .int op, SameAt x.1 t x.2 t' (ρ x.2)) :
    operandInt t' (renameOperand ρ op) = operandInt t op := by
  rw [operandInt, operandInt, operandLocalName_rename]
  cases hop : operandLocalName op with
  | none => rfl
  | some n => exact h (.int, n) (mem_look hop)

theorem gepBase_rename {n : Name} (hptr : SameAt .ptr t n t' (ρ n))
    (hslot : SameAt .slot t n t' (ρ n)) : gepBase t' (ρ n) = gepBase t n := by
  rw [gepBase, gepBase, show t'.ptrEnv (ρ n) = t.ptrEnv n from hptr,
    show t'.allocaStoreMap (ρ n) = t.allocaStoreMap n from hslot]

end Values

theorem inferGepOffset_rename {m m' : Module} (h : m.namedStructs = m'.namedStructs)
    (ρ : Name → Name) (gep : GetElementPtr) (baseOffset : Z3Int) :
    inferGepOffset m' (renameGep ρ gep) baseOffset = inferGepOffset m gep baseOffset := by
  have hindex : ∀ computed x, gepIndex m (renameGep ρ gep) computed (Prod.map (renameOperand ρ) id x)
      = gepIndex m gep computed x := by
    intro computed x
    simp only [gepIndex, Prod.map_fst, Prod.map_snd, id, operandConstU64_rename,
      show (renameGep ρ gep).address = renameOperand ρ gep.address from rfl, typeOf_rename]
  rw [← inferGepOffset_congr h, inferGepOffset, inferGepOffset,
    show (renameGep ρ gep).indices = gep.indices.map (renameOperand ρ) from rfl,
    List.zipIdx_map, List.foldlM_map]
  simp only [hindex]

-- ── The same effects ─────────────────────────────────────────────────────────────

theorem accessEffects_tables {t t' : Maps} (h : SameTables t t') (site : Site)
    (txt : AccessText) (allocId : Nat) (offset : Z3Int) (size : Option UInt64)
    (after : List Effect) :
    accessEffects site txt t' allocId offset size after
      = accessEffects site txt t allocId offset size after := by
  simp only [accessEffects, h.freed, h.sizes]

theorem spill_tables (t : Maps) (destName : Name) (value : Operand) :
    SameTables t (t.spill destName value) := by
  unfold Maps.spill
  repeat' split
  all_goals exact ⟨rfl, rfl, rfl, rfl, rfl⟩

theorem spill_ptrEnv (t : Maps) (destName : Name) (value : Operand) :
    (t.spill destName value).ptrEnv = t.ptrEnv := by
  unfold Maps.spill
  repeat' split
  all_goals rfl

theorem reload_tables (t : Maps) (srcName dest : Name) :
    SameTables t (t.reload srcName dest) := by
  unfold Maps.reload
  repeat' split
  all_goals exact ⟨rfl, rfl, rfl, rfl, rfl⟩

theorem SameTables.trans {t t' t'' : Maps} (h : SameTables t t') (h' : SameTables t' t'') :
    SameTables t t'' :=
  ⟨h'.sizes.trans h.sizes, h'.freed.trans h.freed, h'.counter.trans h.counter,
    h'.dma.trans h.dma, h'.iommu.trans h.iommu⟩

theorem SameTables.symm {t t' : Maps} (h : SameTables t t') : SameTables t' t :=
  ⟨h.sizes.symm, h.freed.symm, h.counter.symm, h.dma.symm, h.iommu.symm⟩

section Effects

variable {e e' : Env} {ρ : Name → Name} {t t' : Maps}

theorem regionEffects_rename (hT : SameTables t t') (site : Site) (txt : AccessText)
    {op : Operand} (h : ∀ x ∈ look .ptr op, SameAt x.1 t x.2 t' (ρ x.2)) (len : UInt64) :
    regionEffects site txt t' (renameOperand ρ op) len = regionEffects site txt t op len := by
  have hptr := ptrEnv_rename h
  simp only [regionEffects, operandLocalName_rename] at hptr ⊢
  cases hop : operandLocalName op with
  | none => rfl
  | some n =>
      rw [hop] at hptr
      have hn : t'.ptrEnv (ρ n) = t.ptrEnv n := hptr
      simp only [Option.map_some, hn, accessEffects_tables hT]

theorem kfreeEffects_rename (hT : SameTables t t') (site : Site) {call : Call}
    (h : ∀ x ∈ call.arguments.head?.toList.flatMap (look .ptr), SameAt x.1 t x.2 t' (ρ x.2)) :
    kfreeEffects site (renameCall ρ call) t' = kfreeEffects site call t := by
  simp only [kfreeEffects, head?_renameCall]
  cases hop : call.arguments.head? with
  | none => rfl
  | some op =>
      rw [hop] at h
      simp only [Option.map_some, operandLocalName_rename]
      cases hn : operandLocalName op with
      | none => rfl
      | some n =>
          have hptr : t'.ptrEnv (ρ n) = t.ptrEnv n :=
            h (.ptr, n) (List.mem_flatMap.mpr ⟨op, List.mem_singleton.mpr rfl, mem_look hn⟩)
          simp only [Option.map_some, hptr, hT.freed]

theorem memsetEffects_rename (hT : SameTables t t') (site : Site) {call : Call}
    (h : ∀ x ∈ call.arguments.head?.toList.flatMap (look .ptr), SameAt x.1 t x.2 t' (ρ x.2)) :
    memsetEffects site (renameCall ρ call) t' = memsetEffects site call t := by
  simp only [memsetEffects, head?_renameCall, getElem?_renameCall]
  cases hop : call.arguments.head? with
  | none => rfl
  | some op =>
      have hlook : ∀ x ∈ look .ptr op, SameAt x.1 t x.2 t' (ρ x.2) := by
        intro x hx
        rw [hop] at h
        exact h x (List.mem_flatMap.mpr ⟨op, List.mem_singleton.mpr rfl, hx⟩)
      cases call.arguments[2]? with
      | none => rfl
      | some lenOp =>
          simp only [Option.map_some, operandLocalName_rename, operandConstU64_rename,
            regionEffects_rename hT site _ hlook]
          cases operandLocalName op <;> rfl

theorem memcpyEffects_rename (hT : SameTables t t') (site : Site) {call : Call}
    (h : ∀ x ∈ (call.arguments.head?.toList ++ call.arguments[1]?.toList).flatMap (look .ptr),
      SameAt x.1 t x.2 t' (ρ x.2)) :
    memcpyEffects site (renameCall ρ call) t' = memcpyEffects site call t := by
  simp only [memcpyEffects, head?_renameCall, getElem?_renameCall]
  cases hdest : call.arguments.head? with
  | none => rfl
  | some destOp =>
  cases hsrc : call.arguments[1]? with
  | none => rfl
  | some srcOp =>
  rw [hdest, hsrc] at h
  have hlook : ∀ op ∈ [destOp, srcOp], ∀ x ∈ look .ptr op, SameAt x.1 t x.2 t' (ρ x.2) :=
    fun op hop x hx => h x (List.mem_flatMap.mpr ⟨op, hop, hx⟩)
  cases call.arguments[2]? with
  | none => rfl
  | some lenOp =>
      simp only [Option.map_some, operandConstU64_rename,
        regionEffects_rename hT site _ (hlook destOp List.mem_cons_self),
        regionEffects_rename hT site _ (hlook srcOp (.tail _ (.head _)))]

theorem dmaMapEffects_rename (hT : SameTables t t') (site : Site) {call : Call}
    (h : ∀ x ∈ call.arguments[1]?.toList.flatMap (look .ptr), SameAt x.1 t x.2 t' (ρ x.2)) :
    dmaMapEffects site (renameCall ρ call) t' = dmaMapEffects site call t := by
  simp only [dmaMapEffects, getElem?_renameCall]
  cases hop : call.arguments[1]? with
  | none => rfl
  | some op =>
      have hlook : ∀ x ∈ look .ptr op, SameAt x.1 t x.2 t' (ρ x.2) := by
        intro x hx
        rw [hop] at h
        exact h x (List.mem_flatMap.mpr ⟨op, List.mem_singleton.mpr rfl, hx⟩)
      cases call.arguments[2]? with
      | none => rfl
      | some sizeOp =>
          simp only [Option.map_some, operandConstU64_rename, ptrEnv_rename hlook, hT.sizes]

theorem unnamedEffects_rename (hE : SameEnv e e') (site : Site) (call : Call) :
    unnamedEffects e' site (renameCall ρ call) = unnamedEffects e site call := by
  obtain ⟨function, arguments, dest⟩ := call
  cases function with
  | operand op => rfl
  | inlineAssembly assembly =>
      simp only [unnamedEffects, renameCall, renameCallee, hE.asm]

theorem callEffects_rename (hE : SameEnv e e') (hT : SameTables t t') (site : Site)
    {call : Call} (h : ∀ x ∈ callLooks e.dmaPolicy call, SameAt x.1 t x.2 t' (ρ x.2)) :
    callEffects e' site (renameCall ρ call) t' = callEffects e site call t := by
  simp only [callEffects, hE.dma, functionNameOfCall_rename]
  unfold callLooks at h
  cases harm : callArm e.dmaPolicy (functionNameOfCall call) with
  | kmalloc =>
      simp only [kmallocEffects, head?_renameCall]
      cases call.arguments.head? with
      | none => rfl
      | some op => simp only [Option.map_some, operandConstU64_rename]
  | kcalloc =>
      simp only [kcallocEffects, head?_renameCall, getElem?_renameCall]
      cases call.arguments.head? with
      | none => rfl
      | some op =>
          cases call.arguments[1]? with
          | none => rfl
          | some op' => simp only [Option.map_some, operandConstU64_rename]
  | kfree => rw [harm] at h; exact kfreeEffects_rename hT site h
  | memset => rw [harm] at h; exact memsetEffects_rename hT site h
  | memcpy => rw [harm] at h; exact memcpyEffects_rename hT site h
  | unnamed => exact unnamedEffects_rename hE site call
  | dmaAlloc =>
      simp only [dmaAllocEffects, getElem?_renameCall, hT.counter, hT.dma, hT.iommu]
      cases call.arguments[1]? with
      | none => rfl
      | some op => simp only [Option.map_some, operandConstU64_rename]
  | dmaMap => rw [harm] at h; exact dmaMapEffects_rename hT site h
  | iommuMap => simp only [hT.dma, hT.iommu]
  | untracked => rfl

theorem gepEffects_rename (hE : SameEnv e e') {gep : GetElementPtr}
    (h : ∀ x ∈ look .ptr gep.address ++ look .slot gep.address, SameAt x.1 t x.2 t' (ρ x.2)) :
    gepEffects e' (renameGep ρ gep) t' = gepEffects e gep t := by
  simp only [gepEffects, inferGepOffset_rename hE.types,
    show (renameGep ρ gep).address = renameOperand ρ gep.address from rfl]
  cases haddr : gep.address with
  | constantOperand c => rfl
  | metadataOperand => rfl
  | localOperand n ty =>
      rw [haddr] at h
      have hbase : gepBase t' (ρ n) = gepBase t n :=
        gepBase_rename (h (.ptr, n) (List.mem_append_left _ (mem_look rfl)))
          (h (.slot, n) (List.mem_append_right _ (mem_look rfl)))
      simp only [renameOperand, hbase]

theorem castEffects_rename (op : Operand) (reason : String) :
    castEffects (renameOperand ρ op) reason = castEffects op reason := by
  cases op <;> rfl

section Arith

variable {op0 op1 : Operand}
  (h : ∀ x ∈ look .int op0 ++ look .int op1, SameAt x.1 t x.2 t' (ρ x.2))

include h

theorem operandInts_rename :
    operandInt t' (renameOperand ρ op0) = operandInt t op0
      ∧ operandInt t' (renameOperand ρ op1) = operandInt t op1 :=
  ⟨operandInt_rename (fun x hx => h x (List.mem_append_left _ hx)),
    operandInt_rename (fun x hx => h x (List.mem_append_right _ hx))⟩

theorem addOut_rename :
    addOut t' (renameOperand ρ op0) (renameOperand ρ op1) = addOut t op0 op1 := by
  obtain ⟨h0, h1⟩ := operandInts_rename h
  simp only [addOut, h0, h1, operandConstU64_rename]

theorem subOut_rename :
    subOut t' (renameOperand ρ op0) (renameOperand ρ op1) = subOut t op0 op1 := by
  obtain ⟨h0, h1⟩ := operandInts_rename h
  simp only [subOut, h0, operandConstU64_rename]

theorem intTracked_rename :
    intTracked t' (renameOperand ρ op0) (renameOperand ρ op1) = intTracked t op0 op1 := by
  obtain ⟨h0, h1⟩ := operandInts_rename h
  simp only [intTracked, h0, h1]

end Arith

theorem memoryEffects_rename (hE : SameEnv e e') (hT : SameTables t t') (site : Site)
    (txt : AccessText) (kind : String) {n : Name} (h : t'.ptrEnv (ρ n) = t.ptrEnv n)
    (ty : IrType) :
    memoryEffects e' site txt kind t' (ρ n) ty = memoryEffects e site txt kind t n ty := by
  simp only [memoryEffects, h, accessEffects_tables hT, irqEffects, hE.irq,
    ← typeSize_congr hE.types]

/-- A reload answers the next lookup of its address alike; `dest` may be the address. -/
theorem reload_ptrEnv_rename {n dest : Name}
    (halloca : SameAt .alloca t n t' (ρ n)) (hslot : SameAt .slot t n t' (ρ n))
    (hptr : SameAt .ptr t n t' (ρ n)) (hdest : ρ dest = ρ n → dest = n) :
    (t'.reload (ρ n) (ρ dest)).ptrEnv (ρ n) = (t.reload n dest).ptrEnv n := by
  unfold Maps.reload
  by_cases ha : n ∈ t.allocaNames
  · rw [if_pos ha, if_pos (halloca.mpr ha),
      show t'.allocaStoreMap (ρ n) = t.allocaStoreMap n from hslot]
    cases t.allocaStoreMap n with
    | none => exact hptr
    | some pv =>
        show Function.update t'.ptrEnv (ρ dest) (some pv) (ρ n)
          = Function.update t.ptrEnv dest (some pv) n
        by_cases hd : n = dest
        · rw [hd, Function.update_self, Function.update_self]
        · rw [Function.update_of_ne hd, Function.update_of_ne (fun heq => hd (hdest heq.symm).symm)]
          exact hptr
  · rw [if_neg ha, if_neg (fun ha' => ha (halloca.mp ha'))]
    exact hptr

/-- **An instruction has the same effects** under new names in maps that answer its lookups
    alike. -/
theorem effects_rename (hE : SameEnv e e') (hT : SameTables t t') (site : Site)
    (hlooks : LooksSame e.dmaPolicy ρ site.instr t t')
    (hdest : ∀ d n, site.instr.tryGetResult = some d → n ∈ site.instr.uses → ρ d = ρ n → d = n) :
    effects e' { site with instr := renameInstr ρ site.instr } t' = effects e site t := by
  unfold LooksSame at hlooks
  simp only [effects]
  cases hi : site.instr with
  | alloca dest => rfl
  | call call =>
      rw [hi] at hlooks
      exact callEffects_rename hE hT site hlooks
  | getElementPtr gep =>
      rw [hi] at hlooks
      exact gepEffects_rename hE hlooks
  | ptrToInt operand toType dest => exact castEffects_rename operand _
  | intToPtr operand toType dest => exact castEffects_rename operand _
  | add op0 op1 dest =>
      rw [hi] at hlooks
      simp only [renameInstr, addEffects, addOut_rename hlooks, arithEffects,
        intTracked_rename hlooks]
  | sub op0 op1 dest =>
      rw [hi] at hlooks
      simp only [renameInstr, subEffects, subOut_rename hlooks, arithEffects,
        intTracked_rename hlooks, (operandInts_rename hlooks).2]
  | bitCast operand toType dest => exact castEffects_rename operand _
  | store address value =>
      rw [hi] at hlooks
      simp only [renameInstr, operandLocalName_rename, typeOf_rename]
      cases hn : operandLocalName address with
      | none => rfl
      | some n =>
          have hptr : t'.ptrEnv (ρ n) = t.ptrEnv n :=
            hlooks (.ptr, n) (List.mem_append_left _ (List.mem_append_right _ (mem_look hn)))
          refine memoryEffects_rename hE ?_ site _ _ ?_ _
          · exact (spill_tables t n value).symm.trans (hT.trans (spill_tables t' (ρ n) _))
          · rw [spill_ptrEnv, spill_ptrEnv, hptr]
  | load address loadedTy dest =>
      rw [hi] at hlooks hdest
      simp only [renameInstr, operandLocalName_rename]
      cases hn : operandLocalName address with
      | none => rfl
      | some n =>
          refine memoryEffects_rename hE ?_ site _ _ ?_ _
          · exact (reload_tables t n dest).symm.trans (hT.trans (reload_tables t' (ρ n) _))
          · refine reload_ptrEnv_rename
              (hlooks (.alloca, n) (List.mem_append_left _ (List.mem_append_left _ (mem_look hn))))
              (hlooks (.slot, n) (List.mem_append_left _ (List.mem_append_right _ (mem_look hn))))
              (hlooks (.ptr, n) (List.mem_append_right _ (mem_look hn))) ?_
            exact hdest dest n rfl (List.mem_filterMap.mpr ⟨address, List.mem_singleton.mpr rfl, hn⟩)
  | other opcode operands dest => rfl

end Effects

-- ── What is recorded ─────────────────────────────────────────────────────────────

/-- The one change an instruction makes to the maps. -/
inductive Delta where
  | keep
  | ptr (n : Name) (v : PtrVal)
  | int (n : Name) (v : IntVal)
  | slot (n : Name) (v : PtrVal)
  | alloca (n : Name)
  | kmalloc (dest : Option Name) (size : UInt64)
  | dma (dest : Option Name) (size : UInt64)
  | free (id : Nat)
  | iommu

def Delta.apply : Delta → Maps → Maps
  | .keep, t => t
  | .ptr n v, t => t.bindPtr n v
  | .int n v, t => t.bindInt n v
  | .slot n v, t => { t with allocaStoreMap := Function.update t.allocaStoreMap n (some v) }
  | .alloca n, t => { t with allocaNames := insert n t.allocaNames }
  | .kmalloc dest size, t => t.kmalloc dest size
  | .dma dest size, t => t.dmaAlloc dest size
  | .free id, t => t.free id
  | .iommu, t => t.iommuMap

/-- The name under which something is recorded. -/
def Delta.names : Delta → List Name
  | .ptr n _ => [n]
  | .int n _ => [n]
  | .slot n _ => [n]
  | .alloca n => [n]
  | .kmalloc dest _ => dest.toList
  | .dma dest _ => dest.toList
  | _ => []

def Delta.rename (ρ : Name → Name) : Delta → Delta
  | .ptr n v => .ptr (ρ n) v
  | .int n v => .int (ρ n) v
  | .slot n v => .slot (ρ n) v
  | .alloca n => .alloca (ρ n)
  | .kmalloc dest size => .kmalloc (dest.map ρ) size
  | .dma dest size => .dma (dest.map ρ) size
  | .keep => .keep
  | .free id => .free id
  | .iommu => .iommu

def callDelta (dma : DmaPolicy) (call : Call) (t : Maps) : Delta :=
  match callArm dma (functionNameOfCall call) with
  | .kmalloc =>
      match call.arguments.head?.bind operandConstU64 with
      | some size => .kmalloc call.dest size
      | none => .keep
  | .kcalloc =>
      match call.arguments.head?.bind operandConstU64,
          call.arguments[1]?.bind operandConstU64 with
      | some nmemb, some elemSize =>
          match checkedMul nmemb elemSize with
          | some totalSize => .kmalloc call.dest totalSize
          | none => .keep
      | _, _ => .keep
  | .kfree =>
      match (call.arguments.head?.bind operandLocalName).bind t.ptrEnv with
      | some (.kmalloc allocId _) => .free allocId
      | _ => .keep
  | .dmaAlloc =>
      match call.arguments[1]?.bind operandConstU64 with
      | some size => .dma call.dest size
      | none => .keep
  | .iommuMap => .iommu
  | _ => .keep

def arithDelta (out : Option IntVal) (tracked : Bool) (dest : Name) : Delta :=
  match out with
  | some v => .int dest v
  | none => if tracked then .int dest .unknown else .keep

/-- What a `Store` records about the slot it goes to. -/
def spillDelta (t : Maps) (destName : Name) (value : Operand) : Delta :=
  if destName ∈ t.allocaNames then
    match (operandLocalName value).bind t.ptrEnv with
    | some pv => .slot destName pv
    | none => .keep
  else .keep

/-- What a `Load` recovers from the slot it reads. -/
def reloadDelta (t : Maps) (srcName dest : Name) : Delta :=
  if srcName ∈ t.allocaNames then
    match t.allocaStoreMap srcName with
    | some pv => .ptr dest pv
    | none => .keep
  else .keep

/-- **What an instruction records.** -/
def delta (m : Module) (dma : DmaPolicy) (i : Instruction) (t : Maps) : Delta :=
  match i with
  | .alloca dest => .alloca dest
  | .call call => callDelta dma call t
  | .getElementPtr gep => .ptr gep.dest (gepVal m gep t)
  | .ptrToInt operand _ dest =>
      .int dest (((operandLocalName operand).map (ptrToIntVal t)).getD .unknown)
  | .intToPtr operand _ dest =>
      .ptr dest (((operandLocalName operand).map (intToPtrVal t)).getD .unknown)
  | .add op0 op1 dest => arithDelta (addOut t op0 op1) (intTracked t op0 op1) dest
  | .sub op0 op1 dest => arithDelta (subOut t op0 op1) (intTracked t op0 op1) dest
  | .bitCast operand _ dest =>
      .ptr dest (((operandLocalName operand).bind t.ptrEnv).getD .unknown)
  | .store address value =>
      match operandLocalName address with
      | some destName => spillDelta t destName value
      | none => .keep
  | .load address _ dest =>
      match operandLocalName address with
      | some srcName => reloadDelta t srcName dest
      | none => .keep
  | .other _ _ _ => .keep

theorem callDelta_apply (dma : DmaPolicy) (call : Call) (t : Maps) :
    (callDelta dma call t).apply t = transferCall dma call t := by
  simp only [callDelta, transferCall]
  cases callArm dma (functionNameOfCall call) with
  | kmalloc =>
      simp only [kmallocMaps]
      cases call.arguments.head?.bind operandConstU64 <;> rfl
  | kcalloc =>
      simp only [kcallocMaps]
      cases call.arguments.head?.bind operandConstU64 with
      | none => rfl
      | some nmemb =>
          cases call.arguments[1]?.bind operandConstU64 with
          | none => rfl
          | some elemSize => simp only; cases checkedMul nmemb elemSize <;> rfl
  | kfree =>
      simp only [kfreeMaps]
      cases (call.arguments.head?.bind operandLocalName).bind t.ptrEnv with
      | none => rfl
      | some pv => cases pv <;> rfl
  | dmaAlloc =>
      simp only [dmaAllocMaps]
      cases call.arguments[1]?.bind operandConstU64 <;> rfl
  | _ => rfl

theorem arithDelta_apply (out : Option IntVal) (tracked : Bool) (dest : Name) (t : Maps) :
    (arithDelta out tracked dest).apply t = bindArith t out tracked dest := by
  cases out with
  | some v => rfl
  | none => cases tracked <;> rfl

/-- **An instruction's effect on the maps is the one change it records.** -/
theorem delta_apply (m : Module) (dma : DmaPolicy) (i : Instruction) (t : Maps) :
    (delta m dma i t).apply t = transfer m dma i t := by
  cases i with
  | alloca dest => rfl
  | call call => exact callDelta_apply dma call t
  | getElementPtr gep => rfl
  | ptrToInt operand toType dest => rfl
  | intToPtr operand toType dest => rfl
  | add op0 op1 dest => exact arithDelta_apply _ _ dest t
  | sub op0 op1 dest => exact arithDelta_apply _ _ dest t
  | bitCast operand toType dest => rfl
  | store address value =>
      simp only [delta, transfer]
      cases operandLocalName address with
      | none => rfl
      | some n =>
          simp only [spillDelta, Maps.spill]
          by_cases ha : n ∈ t.allocaNames
          · rw [if_pos ha, if_pos ha]
            cases value with
            | constantOperand c => rfl
            | metadataOperand => rfl
            | localOperand v ty =>
                simp only [operandLocalName_local, Option.bind_some]
                cases t.ptrEnv v <;> rfl
          · rw [if_neg ha, if_neg ha]
            rfl
  | load address loadedTy dest =>
      simp only [delta, transfer]
      cases operandLocalName address with
      | none => rfl
      | some n =>
          simp only [reloadDelta, Maps.reload]
          by_cases ha : n ∈ t.allocaNames
          · rw [if_pos ha, if_pos ha]
            cases t.allocaStoreMap n <;> rfl
          · rw [if_neg ha, if_neg ha]
            rfl
  | other opcode operands dest => rfl

/-- An entry is recorded under the result, or under the address of a stack slot. -/
theorem delta_names {m : Module} {dma : DmaPolicy} {i : Instruction} {t : Maps} {n : Name}
    (h : n ∈ (delta m dma i t).names) :
    i.tryGetResult = some n ∨ (n ∈ i.uses ∧ n ∈ t.allocaNames) := by
  cases i with
  | alloca dest => exact Or.inl (congrArg some (List.mem_singleton.mp h).symm)
  | call call =>
      refine Or.inl ?_
      show call.dest = some n
      have hdest : ∀ dest : Option Name, n ∈ dest.toList → dest = some n := by
        intro dest hn
        exact Option.mem_toList.mp hn
      simp only [delta, callDelta] at h
      repeat' split at h
      all_goals first | exact hdest call.dest h | exact nomatch h
  | getElementPtr gep => exact Or.inl (congrArg some (List.mem_singleton.mp h).symm)
  | ptrToInt operand toType dest => exact Or.inl (congrArg some (List.mem_singleton.mp h).symm)
  | intToPtr operand toType dest => exact Or.inl (congrArg some (List.mem_singleton.mp h).symm)
  | add op0 op1 dest =>
      simp only [delta, arithDelta] at h
      repeat' split at h
      all_goals first
        | exact Or.inl (congrArg some (List.mem_singleton.mp h).symm)
        | exact nomatch h
  | sub op0 op1 dest =>
      simp only [delta, arithDelta] at h
      repeat' split at h
      all_goals first
        | exact Or.inl (congrArg some (List.mem_singleton.mp h).symm)
        | exact nomatch h
  | bitCast operand toType dest => exact Or.inl (congrArg some (List.mem_singleton.mp h).symm)
  | store address value =>
      simp only [delta] at h
      cases hn : operandLocalName address with
      | none => rw [hn] at h; exact nomatch h
      | some d =>
          simp only [hn, spillDelta] at h
          by_cases ha : d ∈ t.allocaNames
          · rw [if_pos ha] at h
            cases hv : (operandLocalName value).bind t.ptrEnv with
            | none => rw [hv] at h; exact nomatch h
            | some pv =>
                rw [hv] at h
                obtain rfl := List.mem_singleton.mp h
                exact Or.inr ⟨List.mem_filterMap.mpr ⟨address, List.mem_cons_self, hn⟩, ha⟩
          · rw [if_neg ha] at h
            exact nomatch h
  | load address loadedTy dest =>
      simp only [delta] at h
      cases hn : operandLocalName address with
      | none => rw [hn] at h; exact nomatch h
      | some d =>
          simp only [hn, reloadDelta] at h
          repeat' split at h
          all_goals first
            | exact Or.inl (congrArg some (List.mem_singleton.mp h).symm)
            | exact nomatch h
  | other opcode operands dest => exact nomatch h

-- ── The same entry under the new name ────────────────────────────────────────────

section Rename

variable {m m' : Module} {ρ : Name → Name} {t t' : Maps}

theorem callDelta_rename {dma : DmaPolicy} {call : Call}
    (h : ∀ x ∈ callLooks dma call, SameAt x.1 t x.2 t' (ρ x.2)) :
    callDelta dma (renameCall ρ call) t' = (callDelta dma call t).rename ρ := by
  have hconst : ∀ op : Option Operand, (op.map (renameOperand ρ)).bind operandConstU64
      = op.bind operandConstU64 := by
    intro op
    cases op with
    | none => rfl
    | some op => exact operandConstU64_rename ρ op
  simp only [callDelta, functionNameOfCall_rename, head?_renameCall, getElem?_renameCall, hconst,
    show (renameCall ρ call).dest = call.dest.map ρ from rfl]
  unfold callLooks at h
  cases harm : callArm dma (functionNameOfCall call) with
  | kmalloc => cases call.arguments.head?.bind operandConstU64 <;> rfl
  | kcalloc =>
      cases call.arguments.head?.bind operandConstU64 with
      | none => rfl
      | some nmemb =>
          cases call.arguments[1]?.bind operandConstU64 with
          | none => rfl
          | some elemSize => simp only; cases checkedMul nmemb elemSize <;> rfl
  | kfree =>
      rw [harm] at h
      have hptr : ((call.arguments.head?.map (renameOperand ρ)).bind operandLocalName).bind
          t'.ptrEnv = (call.arguments.head?.bind operandLocalName).bind t.ptrEnv := by
        cases hop : call.arguments.head? with
        | none => rfl
        | some op =>
            rw [hop] at h
            exact ptrEnv_rename (fun x hx => h x (List.mem_flatMap.mpr
              ⟨op, List.mem_singleton.mpr rfl, hx⟩))
      simp only [hptr]
      cases (call.arguments.head?.bind operandLocalName).bind t.ptrEnv with
      | none => rfl
      | some pv => cases pv <;> rfl
  | dmaAlloc => cases call.arguments[1]?.bind operandConstU64 <;> rfl
  | _ => rfl

theorem gepVal_rename (htypes : m.namedStructs = m'.namedStructs) {gep : GetElementPtr}
    (h : ∀ x ∈ look .ptr gep.address ++ look .slot gep.address, SameAt x.1 t x.2 t' (ρ x.2)) :
    gepVal m' (renameGep ρ gep) t' = gepVal m gep t := by
  have hbase : (operandLocalName (renameGep ρ gep).address).bind (gepBase t')
      = (operandLocalName gep.address).bind (gepBase t) := by
    rw [show (renameGep ρ gep).address = renameOperand ρ gep.address from rfl,
      operandLocalName_rename]
    cases hn : operandLocalName gep.address with
    | none => rfl
    | some n =>
        exact gepBase_rename (h (.ptr, n) (List.mem_append_left _ (mem_look hn)))
          (h (.slot, n) (List.mem_append_right _ (mem_look hn)))
  simp only [gepVal, hbase, inferGepOffset_rename htypes]

theorem arithDelta_rename (out : Option IntVal) (tracked : Bool) (dest : Name) :
    arithDelta out tracked (ρ dest) = (arithDelta out tracked dest).rename ρ := by
  cases out with
  | some v => rfl
  | none => cases tracked <;> rfl

/-- **An instruction records the same entry** under the new name. -/
theorem delta_rename (htypes : m.namedStructs = m'.namedStructs) {dma : DmaPolicy}
    {i : Instruction} (hlooks : LooksSame dma ρ i t t') :
    delta m' dma (renameInstr ρ i) t' = (delta m dma i t).rename ρ := by
  unfold LooksSame at hlooks
  cases i with
  | alloca dest => rfl
  | call call => exact callDelta_rename hlooks
  | getElementPtr gep => exact congrArg (Delta.ptr (ρ gep.dest)) (gepVal_rename htypes hlooks)
  | ptrToInt operand toType dest =>
      refine congrArg (Delta.int (ρ dest)) ?_
      cases operand with
      | constantOperand c => rfl
      | metadataOperand => rfl
      | localOperand n ty =>
          have hptr : t'.ptrEnv (ρ n) = t.ptrEnv n := hlooks (.ptr, n) (mem_look rfl)
          show ptrToIntVal t' (ρ n) = ptrToIntVal t n
          rw [ptrToIntVal, ptrToIntVal, hptr]
  | intToPtr operand toType dest =>
      refine congrArg (Delta.ptr (ρ dest)) ?_
      cases operand with
      | constantOperand c => rfl
      | metadataOperand => rfl
      | localOperand n ty =>
          have hint : t'.intEnv (ρ n) = t.intEnv n := hlooks (.int, n) (mem_look rfl)
          show intToPtrVal t' (ρ n) = intToPtrVal t n
          rw [intToPtrVal, intToPtrVal, hint]
  | add op0 op1 dest =>
      simp only [renameInstr, delta, addOut_rename hlooks, intTracked_rename hlooks]
      exact arithDelta_rename _ _ dest
  | sub op0 op1 dest =>
      simp only [renameInstr, delta, subOut_rename hlooks, intTracked_rename hlooks]
      exact arithDelta_rename _ _ dest
  | bitCast operand toType dest =>
      refine congrArg (Delta.ptr (ρ dest)) ?_
      rw [ptrEnv_rename hlooks]
  | store address value =>
      simp only [renameInstr, delta, operandLocalName_rename]
      cases hn : operandLocalName address with
      | none => rfl
      | some n =>
          have halloca : ρ n ∈ t'.allocaNames ↔ n ∈ t.allocaNames :=
            hlooks (.alloca, n) (List.mem_append_left _ (List.mem_append_left _ (mem_look hn)))
          have hvalue : (operandLocalName (renameOperand ρ value)).bind t'.ptrEnv
              = (operandLocalName value).bind t.ptrEnv :=
            ptrEnv_rename (fun x hx => hlooks x (List.mem_append_right _ hx))
          simp only [Option.map_some, spillDelta, hvalue, halloca]
          split
          · cases (operandLocalName value).bind t.ptrEnv <;> rfl
          · rfl
  | load address loadedTy dest =>
      simp only [renameInstr, delta, operandLocalName_rename]
      cases hn : operandLocalName address with
      | none => rfl
      | some n =>
          have halloca : ρ n ∈ t'.allocaNames ↔ n ∈ t.allocaNames :=
            hlooks (.alloca, n) (List.mem_append_left _ (List.mem_append_left _ (mem_look hn)))
          have hslot : t'.allocaStoreMap (ρ n) = t.allocaStoreMap n :=
            hlooks (.slot, n) (List.mem_append_left _ (List.mem_append_right _ (mem_look hn)))
          simp only [Option.map_some, reloadDelta, hslot, halloca]
          split
          · cases t.allocaStoreMap n <;> rfl
          · rfl
  | other opcode operands dest => rfl

end Rename

-- ── Later lookups ────────────────────────────────────────────────────────────────

section Apply

variable {ρ : Name → Name} {t t' : Maps}

theorem update_same {ν : Type} {f f' : Name → Option ν} {d n n' : Name} {v : Option ν}
    (hd : ρ d = n' ↔ d = n) (h : f' n' = f n) :
    Function.update f' (ρ d) v n' = Function.update f d v n := by
  by_cases hn : d = n
  · rw [hn, Function.update_self, ← hn, ← hd.mpr hn, Function.update_self]
  · rw [Function.update_of_ne (fun heq => hn heq.symm),
      Function.update_of_ne (fun heq => hn (hd.mp heq.symm))]
    exact h

theorem insert_same {s s' : Finset Name} {d n n' : Name} (hd : ρ d = n' ↔ d = n)
    (h : n' ∈ s' ↔ n ∈ s) : n' ∈ insert (ρ d) s' ↔ n ∈ insert d s := by
  rw [Finset.mem_insert, Finset.mem_insert, h, eq_comm, hd, eq_comm]

/-- Binding the result of an allocation. -/
theorem bindDest_ptr {dest : Option Name} {v : PtrVal} {n n' : Name}
    (hd : ∀ d ∈ dest.toList, (ρ d = n' ↔ d = n)) (h : t'.ptrEnv n' = t.ptrEnv n) :
    (t'.bindDest (dest.map ρ) v).ptrEnv n' = (t.bindDest dest v).ptrEnv n := by
  cases dest with
  | none => exact h
  | some d => exact update_same (hd d (List.mem_singleton.mpr rfl)) h

theorem bindDest_other (t : Maps) (dest : Option Name) (v : PtrVal) :
    (t.bindDest dest v).intEnv = t.intEnv
      ∧ (t.bindDest dest v).allocaStoreMap = t.allocaStoreMap
      ∧ (t.bindDest dest v).allocaNames = t.allocaNames
      ∧ SameTables t (t.bindDest dest v) := by
  cases dest with
  | none => exact ⟨rfl, rfl, rfl, rfl, rfl, rfl, rfl, rfl⟩
  | some d => exact ⟨rfl, rfl, rfl, rfl, rfl, rfl, rfl, rfl⟩

/-- An allocation of either kind, seen from the names. -/
theorem sameAt_alloc {dest : Option Name} {size : UInt64} {v : PtrVal} {kind : LookKind}
    {n n' : Name} (hd : ∀ d ∈ dest.toList, (ρ d = n' ↔ d = n)) (h : SameAt kind t n t' n') :
    SameAt kind ((t.newAlloc size).bindDest dest v) n ((t'.newAlloc size).bindDest (dest.map ρ) v)
      n' := by
  obtain ⟨hint, hslot, halloca, -⟩ := bindDest_other (t.newAlloc size) dest v
  obtain ⟨hint', hslot', halloca', -⟩ := bindDest_other (t'.newAlloc size) (dest.map ρ) v
  cases kind with
  | ptr =>
      have hptr : (t'.newAlloc size).ptrEnv n' = (t.newAlloc size).ptrEnv n := h
      exact bindDest_ptr hd hptr
  | int =>
      show (_ : Name → Option IntVal) n' = _
      rw [hint, hint']
      exact h
  | slot =>
      show (_ : Name → Option PtrVal) n' = _
      rw [hslot, hslot']
      exact h
  | alloca =>
      show n' ∈ (_ : Finset Name) ↔ _
      rw [halloca, halloca']
      exact h

/-- **What is recorded under one pair of names** is answered alike afterwards, and other
    lookups are not disturbed. -/
theorem sameAt_apply {δ : Delta} (hT : SameTables t t') {kind : LookKind} {n n' : Name}
    (hd : ∀ d ∈ δ.names, (ρ d = n' ↔ d = n)) (h : SameAt kind t n t' n') :
    SameAt kind (δ.apply t) n ((δ.rename ρ).apply t') n' := by
  cases δ with
  | keep => exact h
  | ptr d v =>
      have hd' := hd d (List.mem_singleton.mpr rfl)
      cases kind with
      | ptr => exact update_same hd' h
      | int => exact h
      | slot => exact h
      | alloca => exact h
  | int d v =>
      have hd' := hd d (List.mem_singleton.mpr rfl)
      cases kind with
      | ptr => exact h
      | int => exact update_same hd' h
      | slot => exact h
      | alloca => exact h
  | slot d v =>
      have hd' := hd d (List.mem_singleton.mpr rfl)
      cases kind with
      | ptr => exact h
      | int => exact h
      | slot => exact update_same hd' h
      | alloca => exact h
  | alloca d =>
      have hd' := hd d (List.mem_singleton.mpr rfl)
      cases kind with
      | ptr => exact h
      | int => exact h
      | slot => exact h
      | alloca => exact insert_same hd' h
  | kmalloc dest size =>
      simp only [Delta.apply, Delta.rename, Maps.kmalloc, hT.counter]
      exact sameAt_alloc hd h
  | dma dest size =>
      simp only [Delta.apply, Delta.rename, Maps.dmaAlloc, hT.counter]
      have halloc : SameAt kind
          ((t.newAlloc size).bindDest dest (.dmaAlloc t.allocCounter (.fromU64 0))) n
          ((t'.newAlloc size).bindDest (dest.map ρ) (.dmaAlloc t.allocCounter (.fromU64 0))) n' :=
        sameAt_alloc hd h
      cases kind <;> exact halloc
  | free id => cases kind <;> exact h
  | iommu => cases kind <;> exact h

/-- The tables change alike. -/
theorem sameTables_apply {δ : Delta} (hT : SameTables t t') :
    SameTables (δ.apply t) ((δ.rename ρ).apply t') := by
  have hnew : ∀ size, SameTables (t.newAlloc size) (t'.newAlloc size) := by
    intro size
    refine ⟨?_, hT.freed, ?_, hT.dma, hT.iommu⟩
    · show Function.update t'.allocSizes t'.allocCounter _ = _
      rw [hT.sizes, hT.counter]
      rfl
    · exact congrArg (· + 1) hT.counter
  have hbind : ∀ size dest v, SameTables ((t.newAlloc size).bindDest dest v)
      ((t'.newAlloc size).bindDest (dest.map ρ) v) := by
    intro size dest v
    exact (bindDest_other (t.newAlloc size) dest v).2.2.2.symm.trans
      ((hnew size).trans (bindDest_other (t'.newAlloc size) (dest.map ρ) v).2.2.2)
  cases δ with
  | keep => exact hT
  | ptr d v => exact ⟨hT.sizes, hT.freed, hT.counter, hT.dma, hT.iommu⟩
  | int d v => exact ⟨hT.sizes, hT.freed, hT.counter, hT.dma, hT.iommu⟩
  | slot d v => exact ⟨hT.sizes, hT.freed, hT.counter, hT.dma, hT.iommu⟩
  | alloca d => exact ⟨hT.sizes, hT.freed, hT.counter, hT.dma, hT.iommu⟩
  | kmalloc dest size =>
      simp only [Delta.apply, Delta.rename, Maps.kmalloc, hT.counter]
      exact hbind size dest _
  | dma dest size =>
      simp only [Delta.apply, Delta.rename, Maps.dmaAlloc, hT.counter, hT.dma]
      obtain ⟨hsizes, hfreed, hcounter, -, hiommu⟩ :=
        hbind size dest (.dmaAlloc t.allocCounter (.fromU64 0))
      exact ⟨hsizes, hfreed, hcounter, rfl, hiommu⟩
  | free id =>
      exact ⟨hT.sizes, congrArg (insert id) hT.freed, hT.counter, hT.dma, hT.iommu⟩
  | iommu =>
      refine ⟨hT.sizes, hT.freed, hT.counter, hT.dma, ?_⟩
      show t'.iommuMappedInFunc ∪ t'.dmaAllocsInFunc = t.iommuMappedInFunc ∪ t.dmaAllocsInFunc
      rw [hT.iommu, hT.dma]

end Apply

-- ── What `transfer` does to lookups ──────────────────────────────────────────────

section Transfer

variable {m m' : Module} {dma : DmaPolicy} {i : Instruction} {ρ : Name → Name} {t t' : Maps}

/-- What an instruction looks up is one of its operands. -/
theorem looks_uses {x : LookKind × Name} (h : x ∈ looks dma i) : x.2 ∈ i.uses := by
  have hlook : ∀ {kind : LookKind} {op : Operand}, op ∈ i.operands → x ∈ look kind op →
      x.2 ∈ i.uses := by
    intro kind op hop hx
    refine List.mem_filterMap.mpr ⟨op, hop, ?_⟩
    rw [look, Option.mem_toList] at hx
    obtain ⟨n, hn, rfl⟩ := Option.map_eq_some_iff.mp hx
    exact hn
  cases i with
  | alloca dest => exact nomatch h
  | other opcode operands dest => exact nomatch h
  | getElementPtr g =>
      rcases List.mem_append.mp h with hx | hx <;> exact hlook (.head _) hx
  | ptrToInt op ty dest => exact hlook (.head _) h
  | intToPtr op ty dest => exact hlook (.head _) h
  | bitCast op ty dest => exact hlook (.head _) h
  | add op0 op1 dest =>
      rcases List.mem_append.mp h with hx | hx
      · exact hlook (.head _) hx
      · exact hlook (.tail _ (.head _)) hx
  | sub op0 op1 dest =>
      rcases List.mem_append.mp h with hx | hx
      · exact hlook (.head _) hx
      · exact hlook (.tail _ (.head _)) hx
  | store address value =>
      rcases List.mem_append.mp h with h | hx
      · rcases List.mem_append.mp h with hx | hx <;> exact hlook (.head _) hx
      · exact hlook (.tail _ (.head _)) hx
  | load address ty dest =>
      rcases List.mem_append.mp h with h | hx
      · rcases List.mem_append.mp h with hx | hx <;> exact hlook (.head _) hx
      · exact hlook (.head _) hx
  | call c =>
      have hargs : ∀ k, c.arguments[k]?.toList ⊆ c.arguments := fun k op hop =>
        List.mem_of_getElem? (Option.mem_toList.mp hop)
      have hmem : ∀ {ops : List Operand}, ops ⊆ c.arguments → x ∈ ops.flatMap (look .ptr) →
          x.2 ∈ (Instruction.call c).uses := by
        intro ops hops hx
        obtain ⟨op, hop, hx⟩ := List.mem_flatMap.mp hx
        exact hlook (hops hop) hx
      simp only [looks, callLooks, List.head?_eq_getElem?] at h
      split at h
      · exact hmem (hargs 0) h
      · exact hmem (hargs 0) h
      · exact hmem (List.append_subset.mpr ⟨hargs 0, hargs 1⟩) h
      · exact hmem (hargs 1) h
      · exact nomatch h

/-- An instruction defines its result and may record something about an address it uses. -/
theorem delta_names_mem {n : Name} (h : n ∈ (delta m dma i t).names) :
    n ∈ i.tryGetResult.toList ++ i.uses := by
  rcases delta_names h with hresult | ⟨huse, -⟩
  · exact List.mem_append_left _ (Option.mem_toList.mpr hresult)
  · exact List.mem_append_right _ huse

theorem transfer_rename (htypes : m.namedStructs = m'.namedStructs)
    (hlooks : LooksSame dma ρ i t t') :
    transfer m' dma (renameInstr ρ i) t' = ((delta m dma i t).rename ρ).apply t' := by
  rw [← delta_apply, delta_rename htypes hlooks]

/-- **Tables** stay the same. -/
theorem transfer_tables (htypes : m.namedStructs = m'.namedStructs) (hT : SameTables t t')
    (hlooks : LooksSame dma ρ i t t') :
    SameTables (transfer m dma i t) (transfer m' dma (renameInstr ρ i) t') := by
  rw [transfer_rename htypes hlooks, ← delta_apply]
  exact sameTables_apply hT

/-- **Lookups** stay alike under a pair of names that is not torn apart. -/
theorem transfer_sameAt (htypes : m.namedStructs = m'.namedStructs) (hT : SameTables t t')
    (hlooks : LooksSame dma ρ i t t') {kind : LookKind} {n n' : Name}
    (hd : ∀ d ∈ (delta m dma i t).names, (ρ d = n' ↔ d = n)) (h : SameAt kind t n t' n') :
    SameAt kind (transfer m dma i t) n (transfer m' dma (renameInstr ρ i) t') n' := by
  rw [transfer_rename htypes hlooks, ← delta_apply]
  exact sameAt_apply hT hd h

end Transfer

-- ── Agreement at a name ──────────────────────────────────────────────────────────

theorem sameAt_of_envs {t t' : Maps} (hptr : t'.ptrEnv = t.ptrEnv) (hint : t'.intEnv = t.intEnv)
    (hslot : t'.allocaStoreMap = t.allocaStoreMap) (halloca : t'.allocaNames = t.allocaNames)
    (kind : LookKind) (n : Name) : SameAt kind t n t' n := by
  cases kind with
  | ptr => exact congrFun hptr n
  | int => exact congrFun hint n
  | slot => exact congrFun hslot n
  | alloca => exact iff_of_eq (congrArg (n ∈ ·) halloca)

theorem SameAt.trans {kind : LookKind} {t t' t'' : Maps} {n n' n'' : Name}
    (h : SameAt kind t n t' n') (h' : SameAt kind t' n' t'' n'') : SameAt kind t n t'' n'' := by
  cases kind with
  | ptr => exact Eq.trans h' h
  | int => exact Eq.trans h' h
  | slot => exact Eq.trans h' h
  | alloca => exact Iff.trans h' h

-- ── The identity renaming ────────────────────────────────────────────────────────

theorem renameOperand_id : renameOperand id = id := by
  funext op
  cases op <;> rfl

theorem renameInstr_id (i : Instruction) : renameInstr id i = i := by
  cases i with
  | alloca dest => rfl
  | call c =>
      obtain ⟨function, arguments, dest⟩ := c
      cases function <;> simp only [renameInstr, renameCall, renameCallee, renameOperand_id,
        List.map_id, Option.map_id, id]
  | getElementPtr g =>
      simp only [renameInstr, renameGep, renameOperand_id, List.map_id, id]
  | other opcode operands dest =>
      simp only [renameInstr, renameOperand_id, List.map_id, Option.map_id, id]
  | _ => simp only [renameInstr, renameOperand_id, id]

end SkvLookup

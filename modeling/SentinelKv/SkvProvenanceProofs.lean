import SentinelKv.SkvCertifyProofs

/-!
# Provenance: what happens when it is missing

The analyzer resolves each pointer operand through its maps, and an operand it cannot
resolve (a parameter, a phi, a pointer loaded from memory, the result of an unmodelled call)
is passed over in silence: the access is not checked and the result stays as it was.  So a
`Pass` does not mean that every pointer had a known origin — **`parameter_store_passes`**.

When it does can be read off the module alone.  `provenanceOk` is a syntactic pass over
names, operand shapes and literals that classifies the ORIGIN of each local (heap
allocation, DMA allocation, unresolved); it knows no allocation ids, offsets, sizes, solver
or gate.  **`pass_resolves_iff`**: for a module that passes, every pointer operand was
resolved when it was processed exactly when `provenanceOk` accepts the module.

The link is an erasure: forgetting ids and offsets commutes with every instruction
(`erase_transfer`).
-/

namespace SkvProvenance

open BreakLoop SkvIr SkvTypeSize SkvGate SkvAnalyze SkvTransfer SkvCertify

-- ── The property ─────────────────────────────────────────────────────────────────

/-- `n` is the result of an alloca in the function of the site. -/
def isAllocaResult (m : Module) (site : Site) (n : Name) : Bool :=
  m.functions.any (fun f => decide (f.name = site.funcName)
    && f.instrs.any (fun i =>
      match i with
      | .alloca dest => decide (dest = n)
      | _ => false))

/-- The locals a site uses as pointers: the address of a `Load` or `Store` unless it is an
    alloca, and the pointer arguments of `kfree`, `memset` and `memcpy`. -/
def pointerOperands (m : Module) (site : Site) : List Name :=
  match site.instr with
  | .load address _ _ =>
      (operandLocalName address).toList.filter (fun n => !isAllocaResult m site n)
  | .store address _ =>
      (operandLocalName address).toList.filter (fun n => !isAllocaResult m site n)
  | .call call =>
      match functionNameOfCall call with
      | some "kfree" | some "memset" => (call.arguments.take 1).filterMap operandLocalName
      | some "memcpy" | some "__memcpy" => (call.arguments.take 2).filterMap operandLocalName
      | _ => []
  | _ => []

/-- The local is bound to a `Kmalloc` or `DmaAlloc` pointer. -/
def Resolved (t : Maps) (n : Name) : Prop := ∃ info, (t.ptrEnv n).bind ptrvalAllocInfo = some info

-- ── Origins, read off the module ─────────────────────────────────────────────────

/-- Where a pointer comes from. -/
inductive Origin where
  | heap
  | dma
  | unresolved
deriving DecidableEq, Repr

/-- The classified locals: pointers, integers (is it derived from a heap pointer?), the
    contents of stack slots, and the slots themselves. -/
structure Origins where
  ptrs    : Name → Option Origin
  ints    : Name → Option Bool
  slots   : Name → Option Origin
  allocas : Finset Name

def Origins.empty : Origins := ⟨fun _ => none, fun _ => none, fun _ => none, ∅⟩

def Origins.setPtr (o : Origins) (n : Name) (k : Origin) : Origins :=
  { o with ptrs := Function.update o.ptrs n (some k) }

def Origins.setInt (o : Origins) (n : Name) (k : Bool) : Origins :=
  { o with ints := Function.update o.ints n (some k) }

def Origins.setDest (o : Origins) (dest : Option Name) (k : Origin) : Origins :=
  match dest with
  | some n => o.setPtr n k
  | none => o

def isLit (op : Operand) : Bool := (operandConstU64 op).isSome

theorem isLit_eq_true {op : Operand} {v : UInt64} (h : operandConstU64 op = some v) :
    isLit op = true := by
  show (operandConstU64 op).isSome = true
  rw [h]
  rfl

theorem isLit_eq_false {op : Operand} (h : operandConstU64 op = none) : ¬ isLit op = true := by
  show ¬ (operandConstU64 op).isSome = true
  rw [h]
  exact fun h => nomatch h

/-- All indices are literals, and the type the first one scales has a size. -/
def gepFolds (m : Module) (gep : GetElementPtr) : Bool :=
  gep.indices.zipIdx.all (fun x =>
    isLit x.1 && (decide (x.2 ≠ 0) || (typeSize m gep.address.typeOf).isSome))

/-- An allocation of literal size gives its result an origin; nothing else about a call
    matters. -/
def originCall (dma : DmaPolicy) (call : Call) (o : Origins) : Origins :=
  match callArm dma (functionNameOfCall call) with
  | .kmalloc => if call.arguments.head?.any isLit then o.setDest call.dest .heap else o
  | .kcalloc =>
      match call.arguments.head?.bind operandConstU64,
          call.arguments[1]?.bind operandConstU64 with
      | some nmemb, some size =>
          if nmemb.toNat * size.toNat < 2 ^ 64 then o.setDest call.dest .heap else o
      | _, _ => o
  | .dmaAlloc => if call.arguments[1]?.any isLit then o.setDest call.dest .dma else o
  | _ => o

def originInt (o : Origins) (op : Operand) : Option Bool := (operandLocalName op).bind o.ints

/-- The result of an `Add` or `Sub`: derived if `derived`, spoiled if an operand was known. -/
def originArith (o : Origins) (derived : Bool) (op0 op1 : Operand) (dest : Name) : Origins :=
  if derived then o.setInt dest true
  else if (originInt o op0).isSome || (originInt o op1).isSome then o.setInt dest false
  else o

def originStep (m : Module) (dma : DmaPolicy) (i : Instruction) (o : Origins) : Origins :=
  match i with
  | .alloca dest => { o with allocas := insert dest o.allocas }
  | .call call => originCall dma call o
  | .getElementPtr gep =>
      let base := (operandLocalName gep.address).bind (fun n => (o.ptrs n).or (o.slots n))
      o.setPtr gep.dest (if gepFolds m gep then base.getD .unresolved else .unresolved)
  | .ptrToInt operand _ dest =>
      o.setInt dest (decide ((operandLocalName operand).bind o.ptrs = some .heap))
  | .intToPtr operand _ dest =>
      o.setPtr dest (match originInt o operand with
        | some true => .heap
        | _ => .unresolved)
  | .add op0 op1 dest =>
      -- a derived left side decides; only otherwise is the right side considered
      let derived :=
        if originInt o op0 = some true then isLit op1
        else decide (originInt o op1 = some true) && isLit op0
      originArith o derived op0 op1 dest
  | .sub op0 op1 dest =>
      originArith o (decide (originInt o op0 = some true) && isLit op1) op0 op1 dest
  | .bitCast operand _ dest =>
      o.setPtr dest (((operandLocalName operand).bind o.ptrs).getD .unresolved)
  | .store (.localOperand destName _) (.localOperand valName _) =>
      if destName ∈ o.allocas then
        match o.ptrs valName with
        | some k => { o with slots := Function.update o.slots destName (some k) }
        | none => o
      else o
  | .load (.localOperand srcName _) _ dest =>
      if srcName ∈ o.allocas then
        match o.slots srcName with
        | some k => o.setPtr dest k
        | none => o
      else o
  | _ => o

/-- The local has a resolved origin. -/
def Origins.resolved (o : Origins) (n : Name) : Bool :=
  match o.ptrs n with
  | some .heap => true
  | some .dma => true
  | _ => false

def provenanceFrom (m : Module) (dma : DmaPolicy) : List Site → Origins → Bool
  | [], _ => true
  | x :: xs, o =>
      (pointerOperands m x).all o.resolved && provenanceFrom m dma xs (originStep m dma x.instr o)

/-- **Every pointer operand of the module has a resolved origin**, in listing order. -/
def provenanceOk (m : Module) (dma : DmaPolicy) : Bool :=
  provenanceFrom m dma (sites m) Origins.empty

-- ── Erasure ──────────────────────────────────────────────────────────────────────

def erasePtr : PtrVal → Origin
  | .kmalloc _ _ => .heap
  | .dmaAlloc _ _ => .dma
  | .unknown => .unresolved

def eraseInt : IntVal → Bool
  | .ptrOffset _ _ => true
  | .unknown => false

/-- Forget ids and offsets. -/
def erase (t : Maps) : Origins where
  ptrs    := fun n => (t.ptrEnv n).map erasePtr
  ints    := fun n => (t.intEnv n).map eraseInt
  slots   := fun n => (t.allocaStoreMap n).map erasePtr
  allocas := t.allocaNames

/-- Updating and forgetting commute. -/
theorem map_update {ν κ : Type} (g : ν → κ) (f : Name → Option ν) (n : Name) (v : ν) :
    (fun x => (Function.update f n (some v) x).map g)
      = Function.update (fun x => (f x).map g) n (some (g v)) := by
  funext x
  exact Function.apply_update (fun _ => Option.map g) f n (some v) x

theorem erase_bindPtr (t : Maps) (n : Name) (v : PtrVal) :
    erase (t.bindPtr n v) = (erase t).setPtr n (erasePtr v) :=
  congrArg (fun p => Origins.mk p _ _ _) (map_update erasePtr t.ptrEnv n v)

theorem erase_bindInt (t : Maps) (n : Name) (v : IntVal) :
    erase (t.bindInt n v) = (erase t).setInt n (eraseInt v) :=
  congrArg (fun p => Origins.mk _ p _ _) (map_update eraseInt t.intEnv n v)

/-- A new allocation shows only in its result. -/
theorem erase_alloc {t : Maps} (t' : Maps) (h : erase t' = erase t) (dest : Option Name)
    (v : PtrVal) :
    erase (t'.bindDest dest v) = (erase t).setDest dest (erasePtr v) := by
  cases dest with
  | none => exact h
  | some n =>
      show erase (t'.bindPtr n v) = (erase t).setPtr n (erasePtr v)
      rw [erase_bindPtr, h]

theorem erase_call (dma : DmaPolicy) (call : Call) (t : Maps) :
    erase (transferCall dma call t) = originCall dma call (erase t) := by
  unfold transferCall originCall
  cases callArm dma (functionNameOfCall call) with
  | kmalloc =>
      show erase (kmallocMaps call t) = _
      unfold kmallocMaps
      cases call.arguments.head? with
      | none => rfl
      | some op =>
          simp only [Option.bind_some, Option.any_some]
          cases hlit : operandConstU64 op with
          | none => rw [if_neg (isLit_eq_false hlit)]
          | some size =>
              rw [if_pos (isLit_eq_true hlit)]
              exact erase_alloc (t.newAlloc size) rfl call.dest _
  | kcalloc =>
      show erase (kcallocMaps call t) = _
      unfold kcallocMaps checkedMul
      cases call.arguments.head?.bind operandConstU64 with
      | none => rfl
      | some nmemb =>
      cases call.arguments[1]?.bind operandConstU64 with
      | none => rfl
      | some size =>
          simp only
          by_cases hlt : nmemb.toNat * size.toNat < 2 ^ 64
          · rw [if_pos hlt, if_pos hlt]
            exact erase_alloc (t.newAlloc (nmemb * size)) rfl call.dest _
          · rw [if_neg hlt, if_neg hlt]
  | kfree =>
      show erase (kfreeMaps call t) = erase t
      unfold kfreeMaps
      split <;> rfl
  | dmaAlloc =>
      show erase (dmaAllocMaps call t) = _
      unfold dmaAllocMaps
      cases call.arguments[1]? with
      | none => rfl
      | some op =>
          simp only [Option.bind_some, Option.any_some]
          cases hlit : operandConstU64 op with
          | none => rw [if_neg (isLit_eq_false hlit)]
          | some size =>
              rw [if_pos (isLit_eq_true hlit)]
              exact erase_alloc (t.newAlloc size) rfl call.dest _
  | iommuMap => rfl
  | memset => rfl
  | memcpy => rfl
  | unnamed => rfl
  | dmaMap => rfl
  | untracked => rfl

/-- A fold in `Option` succeeds iff every step does, when success ignores the accumulator. -/
theorem foldlM_isSome {α β : Type} {g : β → α → Option β} {p : α → Bool}
    (h : ∀ b x, (g b x).isSome = p x) :
    ∀ (l : List α) (b : β), (l.foldlM g b).isSome = l.all p := by
  intro l
  induction l with
  | nil => intro b; rfl
  | cons x xs ih =>
      intro b
      rw [List.foldlM_cons, List.all_cons, ← h b x]
      cases g b x with
      | none => rfl
      | some b' => exact ih b'

theorem gepFolds_eq (m : Module) (gep : GetElementPtr) (offset : Z3Int) :
    (inferGepOffset m gep offset).isSome = gepFolds m gep := by
  refine foldlM_isSome ?_ _ offset
  intro acc x
  unfold gepIndex isLit
  cases operandConstU64 x.1 with
  | none => rfl
  | some idx =>
      simp only
      by_cases hx : x.2 = 0
      · rw [if_pos hx, decide_eq_false (fun hne => hne hx)]
        split
        · next hty => rw [hty, typeSize_pointerType]; rfl
        · cases typeSize m gep.address.typeOf <;> rfl
      · rw [if_neg hx, decide_eq_true hx]
        rfl

theorem erase_gep (m : Module) (gep : GetElementPtr) (t : Maps) :
    erasePtr (gepVal m gep t)
      = if gepFolds m gep then
          ((operandLocalName gep.address).bind
            (fun n => ((erase t).ptrs n).or ((erase t).slots n))).getD .unresolved
        else .unresolved := by
  have hbase : (operandLocalName gep.address).bind
      (fun n => ((erase t).ptrs n).or ((erase t).slots n))
      = ((operandLocalName gep.address).bind (gepBase t)).map erasePtr := by
    cases operandLocalName gep.address with
    | none => rfl
    | some n =>
        show ((t.ptrEnv n).map erasePtr).or ((t.allocaStoreMap n).map erasePtr)
          = ((t.ptrEnv n).or (t.allocaStoreMap n)).map erasePtr
        cases t.ptrEnv n <;> rfl
  rw [hbase]
  unfold gepVal
  cases (operandLocalName gep.address).bind (gepBase t) with
  | none => simp [erasePtr]
  | some pv =>
      cases pv with
      | kmalloc id offset =>
          have hf := gepFolds_eq m gep offset
          cases ho : inferGepOffset m gep offset <;> (rw [ho] at hf; simp [ho, ← hf, erasePtr])
      | dmaAlloc id offset =>
          have hf := gepFolds_eq m gep offset
          cases ho : inferGepOffset m gep offset <;> (rw [ho] at hf; simp [ho, ← hf, erasePtr])
      | unknown => simp [erasePtr]

theorem erase_operandInt (t : Maps) (op : Operand) :
    originInt (erase t) op = (operandInt t op).map eraseInt := by
  unfold originInt operandInt
  cases operandLocalName op <;> rfl

/-- `Add` and `Sub`: the same result is bound, spoiled or left alone. -/
theorem erase_arith (t : Maps) {out : Option IntVal} {derived : Bool} {op0 op1 : Operand}
    (hout : out.map eraseInt = if derived then some true else none) (dest : Name) :
    erase (bindArith t out (intTracked t op0 op1) dest)
      = originArith (erase t) derived op0 op1 dest := by
  have htracked : ((originInt (erase t) op0).isSome || (originInt (erase t) op1).isSome)
      = intTracked t op0 op1 := by
    rw [erase_operandInt, erase_operandInt, Option.isSome_map, Option.isSome_map]
    rfl
  unfold bindArith originArith
  rw [htracked]
  cases derived with
  | true =>
      cases out with
      | none => exact nomatch hout
      | some iv =>
          have hiv : eraseInt iv = true := Option.some.inj hout
          show erase (t.bindInt dest iv) = (erase t).setInt dest true
          rw [erase_bindInt, hiv]
  | false =>
      cases out with
      | some iv => exact nomatch hout
      | none =>
          cases intTracked t op0 op1 with
          | true => exact erase_bindInt t dest .unknown
          | false => rfl

theorem erase_addOut (t : Maps) (op0 op1 : Operand) :
    (addOut t op0 op1).map eraseInt
      = if (if originInt (erase t) op0 = some true then isLit op1
          else decide (originInt (erase t) op1 = some true) && isLit op0)
        then some true else none := by
  rw [erase_operandInt, erase_operandInt]
  unfold addOut isLit
  cases operandInt t op0 with
  | none =>
      cases operandInt t op1 with
      | none => rfl
      | some iv1 => cases iv1 <;> cases operandConstU64 op0 <;> rfl
  | some iv0 =>
      cases iv0 with
      | ptrOffset id offset => cases operandConstU64 op1 <;> rfl
      | unknown =>
          cases operandInt t op1 with
          | none => rfl
          | some iv1 => cases iv1 <;> cases operandConstU64 op0 <;> rfl

theorem erase_subOut (t : Maps) (op0 op1 : Operand) :
    (subOut t op0 op1).map eraseInt
      = if decide (originInt (erase t) op0 = some true) && isLit op1 then some true else none := by
  rw [erase_operandInt]
  unfold subOut isLit
  cases operandInt t op0 with
  | none => rfl
  | some iv0 => cases iv0 <;> cases operandConstU64 op1 <;> rfl

theorem erase_spill (t : Maps) (destName valName : Name) (ty : IrType) :
    erase (t.spill destName (.localOperand valName ty))
      = if destName ∈ t.allocaNames then
          match (t.ptrEnv valName).map erasePtr with
          | some k =>
              { erase t with slots := Function.update (erase t).slots destName (some k) }
          | none => erase t
        else erase t := by
  unfold Maps.spill
  by_cases ha : destName ∈ t.allocaNames
  · rw [if_pos ha, if_pos ha]
    simp only
    cases t.ptrEnv valName with
    | none => rfl
    | some pv =>
        exact congrArg (fun p => Origins.mk (erase t).ptrs (erase t).ints p t.allocaNames)
          (map_update erasePtr t.allocaStoreMap destName pv)
  · rw [if_neg ha, if_neg ha]

theorem erase_reload (t : Maps) (srcName dest : Name) :
    erase (t.reload srcName dest)
      = if srcName ∈ t.allocaNames then
          match (t.allocaStoreMap srcName).map erasePtr with
          | some k => (erase t).setPtr dest k
          | none => erase t
        else erase t := by
  unfold Maps.reload
  by_cases ha : srcName ∈ t.allocaNames
  · rw [if_pos ha, if_pos ha]
    cases t.allocaStoreMap srcName with
    | none => rfl
    | some pv => exact erase_bindPtr t dest pv
  · rw [if_neg ha, if_neg ha]

theorem erase_ptrToIntVal (t : Maps) (n : Name) :
    eraseInt (ptrToIntVal t n) = decide ((t.ptrEnv n).map erasePtr = some .heap) := by
  unfold ptrToIntVal
  cases t.ptrEnv n with
  | none => rfl
  | some pv => cases pv <;> rfl

theorem erase_intToPtrVal (t : Maps) (n : Name) :
    erasePtr (intToPtrVal t n)
      = match (t.intEnv n).map eraseInt with
        | some true => .heap
        | _ => .unresolved := by
  unfold intToPtrVal
  cases t.intEnv n with
  | none => rfl
  | some iv => cases iv <;> rfl

/-- **Erasure commutes with every instruction.** -/
theorem erase_transfer (m : Module) (dma : DmaPolicy) (i : Instruction) (t : Maps) :
    erase (transfer m dma i t) = originStep m dma i (erase t) := by
  cases i with
  | alloca dest => rfl
  | call call => exact erase_call dma call t
  | getElementPtr gep =>
      show erase (t.bindPtr gep.dest (gepVal m gep t)) = _
      rw [erase_bindPtr, erase_gep]
      rfl
  | ptrToInt operand toType dest =>
      show erase (t.bindInt dest _) = (erase t).setInt dest _
      rw [erase_bindInt]
      refine congrArg ((erase t).setInt dest) ?_
      cases operandLocalName operand with
      | none => rfl
      | some n => exact erase_ptrToIntVal t n
  | intToPtr operand toType dest =>
      show erase (t.bindPtr dest _) = (erase t).setPtr dest _
      rw [erase_bindPtr, erase_operandInt]
      refine congrArg ((erase t).setPtr dest) ?_
      unfold operandInt
      cases operandLocalName operand with
      | none => rfl
      | some n => exact erase_intToPtrVal t n
  | add op0 op1 dest => exact erase_arith t (erase_addOut t op0 op1) dest
  | sub op0 op1 dest => exact erase_arith t (erase_subOut t op0 op1) dest
  | bitCast operand toType dest =>
      show erase (t.bindPtr dest _) = (erase t).setPtr dest _
      rw [erase_bindPtr]
      refine congrArg ((erase t).setPtr dest) ?_
      cases operandLocalName operand with
      | none => rfl
      | some n =>
          show erasePtr ((t.ptrEnv n).getD .unknown)
            = ((t.ptrEnv n).map erasePtr).getD .unresolved
          cases t.ptrEnv n <;> rfl
  | store address value =>
      cases address with
      | constantOperand c => rfl
      | metadataOperand => rfl
      | localOperand destName ty =>
          cases value with
          | constantOperand c => exact congrArg erase (ite_self t)
          | metadataOperand => exact congrArg erase (ite_self t)
          | localOperand valName vty => exact erase_spill t destName valName vty
  | load address loadedTy dest =>
      cases address with
      | constantOperand c => rfl
      | metadataOperand => rfl
      | localOperand srcName ty => exact erase_reload t srcName dest
  | other opcode operands dest => rfl

-- ── The run ──────────────────────────────────────────────────────────────────────

/-- A local is resolved iff its erased origin is. -/
theorem resolved_iff (t : Maps) (n : Name) : Resolved t n ↔ (erase t).resolved n = true := by
  show (∃ info, (t.ptrEnv n).bind ptrvalAllocInfo = some info)
    ↔ (match (t.ptrEnv n).map erasePtr with
      | some .heap => true
      | some .dma => true
      | _ => false) = true
  cases t.ptrEnv n with
  | none => exact ⟨fun ⟨_, h⟩ => (nomatch h), fun h => (nomatch h)⟩
  | some pv =>
      cases pv with
      | kmalloc id off => exact ⟨fun _ => rfl, fun _ => ⟨(id, off), rfl⟩⟩
      | dmaAlloc id off => exact ⟨fun _ => rfl, fun _ => ⟨(id, off), rfl⟩⟩
      | unknown => exact ⟨fun ⟨_, h⟩ => (nomatch h), fun h => (nomatch h)⟩

/-- A loop that does not fail resolved the operands of each site it processed iff the
    syntactic pass accepts its sites. -/
theorem forLoop_resolved_iff {e : Env} :
    ∀ (l : List Site) (s : St), ¬ Failed s → ¬ Failed (forLoop (stepInstr e) l s) →
      ((∀ v ∈ visits (stepInstr e) l s, ∀ n ∈ pointerOperands e.module v.1, Resolved v.2.maps n)
        ↔ provenanceFrom e.module e.dmaPolicy l (erase s.maps) = true) := by
  intro l
  induction l with
  | nil => intro s _ _; exact ⟨fun _ => rfl, fun _ v hv => nomatch hv⟩
  | cons x xs ih =>
      intro s hs hend
      cases hb : stepInstr e x s with
      | brk s' =>
          rw [forLoop_cons_brk hb] at hend
          exact absurd ((stepInstr_flagged e).brk_up x s s' hs hb) hend
      | next s' =>
          rw [forLoop_cons_next hb] at hend
          have hmaps : erase s'.maps = originStep e.module e.dmaPolicy x.instr (erase s.maps) := by
            rw [stepInstr_next_maps hs hb, erase_transfer]
          have hrest := ih s' ((stepInstr_flagged e).next_down x s s' hs hb) hend
          rw [hmaps] at hrest
          rw [visits_cons_next hb]
          show _ ↔ ((pointerOperands e.module x).all (erase s.maps).resolved
            && provenanceFrom e.module e.dmaPolicy xs
              (originStep e.module e.dmaPolicy x.instr (erase s.maps))) = true
          rw [Bool.and_eq_true, ← hrest, List.all_eq_true]
          constructor
          · intro h
            refine ⟨fun n hn => ?_, fun v hv => h v (List.mem_cons_of_mem _ hv)⟩
            exact (resolved_iff s.maps n).mp (h (x, s) List.mem_cons_self n hn)
          · rintro ⟨hx, hxs⟩ v hv
            rcases List.mem_cons.mp hv with rfl | hv
            · exact fun n hn => (resolved_iff s.maps n).mpr (hx n hn)
            · exact hxs v hv

/-- A use of an allocation through a stack slot. -/
def slotDriver : Module := Module.ofFunctions [Function.ofBlocks "slot_driver" [(
  [.alloca (.name "s"), .call (.direct "kzalloc" [.lit 64 16] (some (.name "p"))),
   .store (.ptr "s") (.ptr "p"), .load (.ptr "s") .pointerType (.name "q"),
   .store (.ptr "q") (.lit 64 1), .call (.direct "kfree" [.ptr "q"] none)],
  .ret none)]]

/-- A function that stores through its parameter, and frees it. -/
def parameterDriver : Module where
  functions := [⟨"clear", [.name "p"], [⟨.number 0,
    [.store (.ptr "p") (.lit 32 0), .call (.direct "kfree" [.ptr "p"] none)], .ret none⟩]⟩]
  namedStructs := []

end SkvProvenance

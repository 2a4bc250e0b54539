import SentinelKv.SkvAnalyzeProofs

/-!
# What one instruction can do

Every fact about a whole run of `analyze` starts from the same three facts about one
instruction, proved here once for each arm (`ArmOk`):

* its effect on the maps is a function **`transfer`** of the instruction and the maps alone —
  no solver answer, gate or earlier verdict influences it;
* it says `break` exactly when it records a `Fail`;
* it never turns another result back into `Pass`.

From these, the three nested loops are ONE loop over the sites of the module
(`scanModule_eq`), and a scan that does not fail processes every site and leaves the maps
`transfer` computes (`scanModule_visits`).
-/

namespace SkvTransfer

open BreakLoop SkvIr SkvTypeSize SkvGate SkvAnalyze

-- ── The transfer function ────────────────────────────────────────────────────────

/-- `kmalloc`, `kzalloc` with a constant size. -/
def kmallocMaps (call : Call) (t : Maps) : Maps :=
  match call.arguments.head?.bind operandConstU64 with
  | some size => t.kmalloc call.dest size
  | none => t

/-- `kcalloc` with constant arguments whose product fits. -/
def kcallocMaps (call : Call) (t : Maps) : Maps :=
  match call.arguments.head?.bind operandConstU64,
      call.arguments[1]?.bind operandConstU64 with
  | some nmemb, some elemSize =>
      match checkedMul nmemb elemSize with
      | some totalSize => t.kmalloc call.dest totalSize
      | none => t
  | _, _ => t

/-- `kfree` of a local bound to a `Kmalloc` pointer. -/
def kfreeMaps (call : Call) (t : Maps) : Maps :=
  match (call.arguments.head?.bind operandLocalName).bind t.ptrEnv with
  | some (.kmalloc allocId _) => t.free allocId
  | _ => t

/-- `dma_alloc_coherent` with a constant size. -/
def dmaAllocMaps (call : Call) (t : Maps) : Maps :=
  match call.arguments[1]?.bind operandConstU64 with
  | some size => t.dmaAlloc call.dest size
  | none => t

/-- The effect of a call on the maps. -/
def transferCall (dma : DmaPolicy) (call : Call) (t : Maps) : Maps :=
  match callArm dma (functionNameOfCall call) with
  | .kmalloc => kmallocMaps call t
  | .kcalloc => kcallocMaps call t
  | .kfree => kfreeMaps call t
  | .dmaAlloc => dmaAllocMaps call t
  | .iommuMap => t.iommuMap
  | _ => t

/-- What a call can do to the maps: nothing, one allocation of either kind, one release of
    a `Kmalloc` pointer, or the mapping of this function's DMA buffers. -/
theorem transferCall_cases (dma : DmaPolicy) (call : Call) (t : Maps) :
    transferCall dma call t = t
      ∨ (∃ size, transferCall dma call t = t.kmalloc call.dest size)
      ∨ (∃ size, transferCall dma call t = t.dmaAlloc call.dest size)
      ∨ (∃ n id offset, t.ptrEnv n = some (.kmalloc id offset)
          ∧ transferCall dma call t = t.free id)
      ∨ transferCall dma call t = t.iommuMap := by
  unfold transferCall
  cases callArm dma (functionNameOfCall call) with
  | kmalloc =>
      show kmallocMaps call t = t ∨ _
      unfold kmallocMaps
      split
      · exact Or.inr (Or.inl ⟨_, rfl⟩)
      · exact Or.inl rfl
  | kcalloc =>
      show kcallocMaps call t = t ∨ _
      unfold kcallocMaps
      split
      · split
        · exact Or.inr (Or.inl ⟨_, rfl⟩)
        · exact Or.inl rfl
      · exact Or.inl rfl
  | kfree =>
      show kfreeMaps call t = t ∨ _
      unfold kfreeMaps
      split
      · next id offset heq =>
          obtain ⟨n, -, hn⟩ := Option.bind_eq_some_iff.mp heq
          exact Or.inr (Or.inr (Or.inr (Or.inl ⟨n, id, offset, hn, rfl⟩)))
      · exact Or.inl rfl
  | dmaAlloc =>
      show dmaAllocMaps call t = t ∨ _
      unfold dmaAllocMaps
      split
      · exact Or.inr (Or.inr (Or.inl ⟨_, rfl⟩))
      · exact Or.inl rfl
  | iommuMap => exact Or.inr (Or.inr (Or.inr (Or.inr rfl)))
  | memset => exact Or.inl rfl
  | memcpy => exact Or.inl rfl
  | unnamed => exact Or.inl rfl
  | dmaMap => exact Or.inl rfl
  | untracked => exact Or.inl rfl

/-- The offset of a GEP depends on the module through its named structs only. -/
theorem inferGepOffset_congr {m m' : Module} (h : m.namedStructs = m'.namedStructs) :
    inferGepOffset m = inferGepOffset m' := by
  have hindex : gepIndex m = gepIndex m' := by
    funext gep computed x
    simp only [gepIndex, typeSize_congr h]
  funext gep baseOffset
  simp only [inferGepOffset, hindex]

/-- The pointer a GEP yields. -/
def gepVal (m : Module) (gep : GetElementPtr) (t : Maps) : PtrVal :=
  match (operandLocalName gep.address).bind (gepBase t) with
  | some (.kmalloc allocId offset) =>
      match inferGepOffset m gep offset with
      | some newOffset => .kmalloc allocId newOffset
      | none => .unknown
  | some (.dmaAlloc allocId offset) =>
      match inferGepOffset m gep offset with
      | some newOffset => .dmaAlloc allocId newOffset
      | none => .unknown
  | _ => .unknown

/-- The result of an `Add` or `Sub`: `out`, or `Unknown` if an operand was tracked. -/
def bindArith (t : Maps) (out : Option IntVal) (tracked : Bool) (dest : Name) : Maps :=
  match out with
  | some v => t.bindInt dest v
  | none => if tracked then t.bindInt dest .unknown else t

/-- **The effect of an instruction on the maps.** -/
def transfer (m : Module) (dma : DmaPolicy) (i : Instruction) (t : Maps) : Maps :=
  match i with
  | .alloca dest => { t with allocaNames := insert dest t.allocaNames }
  | .call call => transferCall dma call t
  | .getElementPtr gep => t.bindPtr gep.dest (gepVal m gep t)
  | .ptrToInt operand _ dest =>
      t.bindInt dest (((operandLocalName operand).map (ptrToIntVal t)).getD .unknown)
  | .intToPtr operand _ dest =>
      t.bindPtr dest (((operandLocalName operand).map (intToPtrVal t)).getD .unknown)
  | .add op0 op1 dest => bindArith t (addOut t op0 op1) (intTracked t op0 op1) dest
  | .sub op0 op1 dest => bindArith t (subOut t op0 op1) (intTracked t op0 op1) dest
  | .bitCast operand _ dest =>
      t.bindPtr dest (((operandLocalName operand).bind t.ptrEnv).getD .unknown)
  | .store address value =>
      match operandLocalName address with
      | some destName => t.spill destName value
      | none => t
  | .load address _ dest =>
      match operandLocalName address with
      | some srcName => t.reload srcName dest
      | none => t
  | .other _ _ _ => t

theorem transfer_congr {m m' : Module} (h : m.namedStructs = m'.namedStructs) :
    transfer m' = transfer m := by
  funext dma i t
  cases i with
  | getElementPtr gep => simp only [transfer, gepVal, inferGepOffset_congr h]
  | _ => rfl

-- ── What an arm may do ───────────────────────────────────────────────────────────

/-- One arm, started in `s`, ends as `fl`: the maps become `t'`, a `break` comes with a
    `Fail` and nothing else does, and `Pass` is never restored. -/
structure ArmOk (t' : Maps) (s : St) (fl : Flow St) : Prop where
  maps      : fl.state.maps = t'
  next_down : ∀ s', fl = .next s' → ¬ Failed s → ¬ Failed s'
  brk_up    : ∀ s', fl = .brk s' → Failed s'
  pass      : fl.state.finalResult = .pass → s.finalResult = .pass

/-- Going on with the result untouched. -/
theorem ArmOk.ofNext {t' : Maps} {s s' : St} (hm : s'.maps = t')
    (hr : s'.finalResult = s.finalResult) : ArmOk t' s (.next s') where
  maps := hm
  next_down := by
    intro s'' h hs
    obtain rfl := Flow.next.inj h
    unfold Failed at *
    rw [hr]
    exact hs
  brk_up := fun _ h => nomatch h
  pass := fun h => hr ▸ h

/-- Going on, and then `mark_unknown`. -/
theorem ArmOk.mark {t' : Maps} {s s' : St} (h : ArmOk t' s (.next s')) (reason : String) :
    ArmOk t' s (.next (s'.markUnknown reason)) where
  maps := h.maps
  next_down := by
    intro s'' heq hs
    obtain rfl := Flow.next.inj heq
    have hdown := h.next_down s' rfl hs
    unfold Failed St.markUnknown at *
    rw [markUnknown_isFail]
    exact hdown
  brk_up := fun _ h => nomatch h
  pass := fun h => absurd h (markUnknown_ne_pass _ _)

theorem ArmOk.ofMark {t' : Maps} {s s' : St} (reason : String) (hm : s'.maps = t')
    (hr : s'.finalResult = s.finalResult) : ArmOk t' s (.next (s'.markUnknown reason)) :=
  (ArmOk.ofNext hm hr).mark reason

theorem ArmOk.markIf {t' : Maps} {s s' : St} (h : ArmOk t' s (.next s')) (b : Bool)
    (reason : String) : ArmOk t' s (if b then .next (s'.markUnknown reason) else .next s') := by
  cases b with
  | false => exact h
  | true => exact h.mark reason

/-- Leaving with a `Fail`. -/
theorem ArmOk.ofFail {t' : Maps} {s s' : St} (msg : String) (hm : s'.maps = t') :
    ArmOk t' s (.brk (s'.fail msg)) where
  maps := hm
  next_down := fun _ h => nomatch h
  brk_up := by
    intro s'' h
    obtain rfl := Flow.brk.inj h
    rfl
  pass := fun h => nomatch h

/-- Starting an arm with the maps already updated. -/
theorem ArmOk.start {t' : Maps} {s s₁ : St} {fl : Flow St}
    (h : ArmOk t' s₁ fl) (hr : s₁.finalResult = s.finalResult) : ArmOk t' s fl where
  maps := h.maps
  next_down := by
    intro s' hf hs
    refine h.next_down s' hf ?_
    unfold Failed at *
    rw [hr]
    exact hs
  brk_up := h.brk_up
  pass := fun hp => hr ▸ h.pass hp

-- ── The arms ─────────────────────────────────────────────────────────────────────

theorem afterCheck_ok (txt : AccessText) (vc : String)
    (answer : AccessCheckResult × HitlGate) (s : St) :
    ArmOk s.maps s (afterCheck txt vc answer s) := by
  unfold afterCheck
  cases answer.1 with
  | oob => exact ArmOk.ofFail _ rfl
  | safe => exact ArmOk.ofNext rfl rfl
  | solverUnknown => exact ArmOk.ofMark _ rfl rfl
  | hitlBlocked => exact ArmOk.ofMark _ rfl rfl

/-- What may follow a bounds check: it keeps the maps, creates no `Fail` and restores no
    `Pass`. -/
structure AfterOk (after : St → St) : Prop where
  maps : ∀ s, (after s).maps = s.maps
  down : ∀ s, ¬ Failed s → ¬ Failed (after s)
  pass : ∀ s, (after s).finalResult = .pass → s.finalResult = .pass

theorem afterOk_id : AfterOk id := ⟨fun _ => rfl, fun _ h => h, fun _ h => h⟩

theorem afterOk_irqRace (e : Env) (site : Site) (kind : String) (allocId : Nat) :
    AfterOk (irqRace e site kind allocId) where
  maps := by
    intro s
    unfold irqRace
    cases e.hasIrqRisk with
    | false => rfl
    | true => simp only [if_true]; split <;> rfl
  down := by
    intro s hs
    unfold irqRace
    cases e.hasIrqRisk with
    | false => exact hs
    | true =>
        simp only [if_true]
        split <;> (unfold Failed St.markUnknown at *; rw [markUnknown_isFail]; exact hs)
  pass := by
    intro s hp
    unfold irqRace at hp
    cases hirq : e.hasIrqRisk with
    | false => rw [hirq] at hp; exact hp
    | true =>
        rw [hirq] at hp
        simp only [if_true] at hp
        split at hp <;> exact absurd hp (markUnknown_ne_pass _ _)

theorem guardedAccess_ok (e : Env) (site : Site) (txt : AccessText) (allocId : Nat)
    (offset : Z3Int) (size : Option UInt64) {after : St → St} (ha : AfterOk after) (s : St) :
    ArmOk s.maps s (guardedAccess e site txt allocId offset size after s) := by
  unfold guardedAccess
  by_cases hfreed : allocId ∈ s.maps.freedAllocs
  · rw [if_pos hfreed]; exact ArmOk.ofFail _ rfl
  · rw [if_neg hfreed]
    cases size with
    | none => exact ArmOk.ofMark _ rfl rfl
    | some n =>
        cases hsz : s.maps.allocSizes allocId with
        | none => exact ArmOk.ofMark _ rfl rfl
        | some allocSize =>
            have hc := afterCheck_ok txt (site.vcId txt.kind)
              (checkAccess e.host.z3 allocSize offset n (site.vcId txt.kind)
                (vcClassId txt.kind n) s.gate) s
            simp only
            cases hfl : afterCheck txt (site.vcId txt.kind)
                (checkAccess e.host.z3 allocSize offset n (site.vcId txt.kind)
                  (vcClassId txt.kind n) s.gate) s with
            | brk s' => rw [hfl] at hc; exact hc
            | next s' =>
                rw [hfl] at hc
                refine ⟨(ha.maps s').trans hc.maps, ?_, fun _ h => (nomatch h), ?_⟩
                · intro s'' h hs
                  obtain rfl := Flow.next.inj h
                  exact ha.down s' (hc.next_down s' rfl hs)
                · intro hp
                  exact hc.pass (ha.pass s' hp)

theorem stepMemset_ok (e : Env) (site : Site) (call : Call) (s : St) :
    ArmOk s.maps s (stepMemset e site call s) := by
  unfold stepMemset
  split
  · exact ArmOk.ofNext rfl rfl
  · split
    · exact ArmOk.ofMark _ rfl rfl
    · split
      · exact ArmOk.ofNext rfl rfl
      · split
        · exact ArmOk.ofMark _ rfl rfl
        · split
          · exact guardedAccess_ok e site _ _ _ _ afterOk_id s
          · exact ArmOk.ofNext rfl rfl

theorem memcpyOperand_ok (e : Env) (site : Site) (len : UInt64) (x : Operand × String)
    (s : St) : ArmOk s.maps s (memcpyOperand e site len x s) := by
  unfold memcpyOperand
  split
  · exact ArmOk.ofNext rfl rfl
  · split
    · exact guardedAccess_ok e site _ _ _ _ afterOk_id s
    · exact ArmOk.ofNext rfl rfl

/-- The inner loop keeps the maps and never restores `Pass`. -/
theorem memcpyLoop_ok (e : Env) (site : Site) (len : UInt64) (xs : List (Operand × String))
    (s : St) :
    (forLoop (memcpyOperand e site len) xs s).maps = s.maps
      ∧ ((forLoop (memcpyOperand e site len) xs s).finalResult = .pass →
        s.finalResult = .pass) := by
  refine forLoop_inv
    (fun s' => s'.maps = s.maps ∧ (s'.finalResult = .pass → s.finalResult = .pass))
    ?_ xs s ⟨rfl, fun h => h⟩
  intro x s' ⟨hm, hp⟩
  have hx := memcpyOperand_ok e site len x s'
  exact ⟨hx.maps.trans hm, fun h => hp (hx.pass h)⟩

theorem stepMemcpy_ok (e : Env) (site : Site) (call : Call) (s : St) :
    ArmOk s.maps s (stepMemcpy e site call s) := by
  unfold stepMemcpy
  cases call.arguments.head? with
  | none => exact ArmOk.ofNext rfl rfl
  | some destOp =>
  cases call.arguments[1]? with
  | none => exact ArmOk.ofMark _ rfl rfl
  | some srcOp =>
  cases call.arguments[2]? with
  | none => exact ArmOk.ofMark _ rfl rfl
  | some lenOp =>
  cases hlen : operandConstU64 lenOp with
  | none => simp only [hlen]; exact ArmOk.ofMark _ rfl rfl
  | some len =>
      simp only [hlen]
      obtain ⟨hm, hp⟩ := memcpyLoop_ok e site len
        [(destOp, "destination"), (srcOp, "source")] s
      by_cases hf : (forLoop (memcpyOperand e site len)
          [(destOp, "destination"), (srcOp, "source")] s).finalResult.isFail = true
      · rw [if_pos hf]
        refine ⟨hm, fun _ h => (nomatch h), ?_, hp⟩
        intro s' h
        obtain rfl := Flow.brk.inj h
        exact hf
      · rw [if_neg hf]
        refine ⟨hm, ?_, fun _ h => (nomatch h), hp⟩
        intro s' h _
        obtain rfl := Flow.next.inj h
        exact hf

theorem stepUnnamed_ok (e : Env) (site : Site) (call : Call) (s : St) :
    ArmOk s.maps s (stepUnnamed e site call s) := by
  unfold stepUnnamed
  split
  · exact ArmOk.ofNext rfl rfl
  · split
    · exact ArmOk.ofFail _ rfl
    · split
      · exact ArmOk.ofNext rfl rfl
      · simp only
        split
        · exact ArmOk.ofMark _ rfl rfl
        · exact ArmOk.ofMark _ rfl rfl

theorem stepDmaMap_ok (e : Env) (site : Site) (call : Call) (s : St) :
    ArmOk s.maps s (stepDmaMap e site call s) := by
  unfold stepDmaMap
  split
  · exact ArmOk.ofMark _ rfl rfl
  · split
    · exact ArmOk.ofMark _ rfl rfl
    · split
      · exact ArmOk.ofMark _ rfl rfl
      · split
        · exact ArmOk.ofNext rfl rfl
        · split
          · exact ArmOk.ofNext rfl rfl
          · simp only
            split
            · exact ArmOk.ofFail _ rfl
            · exact ArmOk.ofNext rfl rfl
            · exact ArmOk.ofMark _ rfl rfl
            · exact ArmOk.ofMark _ rfl rfl

/-- Freeing an id already freed changes nothing. -/
theorem free_of_mem {t : Maps} {id : Nat} (h : id ∈ t.freedAllocs) : t.free id = t := by
  unfold Maps.free
  rw [Finset.insert_eq_of_mem h]

theorem stepKmalloc_ok (call : Call) (s : St) :
    ArmOk (kmallocMaps call s.maps) s (stepKmalloc call s) := by
  unfold stepKmalloc kmallocMaps
  cases call.arguments.head? with
  | none => exact ArmOk.ofMark _ rfl rfl
  | some sizeOp =>
      simp only [Option.bind_some]
      cases operandConstU64 sizeOp with
      | none => exact ArmOk.ofMark _ rfl rfl
      | some size => exact ArmOk.ofNext rfl rfl

theorem stepKcalloc_ok (call : Call) (s : St) :
    ArmOk (kcallocMaps call s.maps) s (stepKcalloc call s) := by
  unfold stepKcalloc kcallocMaps
  cases call.arguments.head? with
  | none => exact ArmOk.ofMark _ rfl rfl
  | some nmembOp =>
  cases call.arguments[1]? with
  | none =>
      simp only [Option.bind_some, Option.bind_none]
      exact ArmOk.ofMark _ (by cases operandConstU64 nmembOp <;> rfl) rfl
  | some sizeOp =>
      simp only [Option.bind_some]
      cases operandConstU64 nmembOp with
      | none => exact ArmOk.ofMark _ rfl rfl
      | some nmemb =>
      cases operandConstU64 sizeOp with
      | none => exact ArmOk.ofMark _ rfl rfl
      | some elemSize =>
          simp only
          cases checkedMul nmemb elemSize with
          | none => exact ArmOk.ofFail _ rfl
          | some totalSize => exact ArmOk.ofNext rfl rfl

theorem stepKfree_ok (site : Site) (call : Call) (s : St) :
    ArmOk (kfreeMaps call s.maps) s (stepKfree site call s) := by
  unfold stepKfree kfreeMaps
  cases call.arguments.head? with
  | none => exact ArmOk.ofMark _ rfl rfl
  | some ptrOp =>
      simp only [Option.bind_some]
      cases operandLocalName ptrOp with
      | none => exact ArmOk.ofMark _ rfl rfl
      | some name =>
          simp only [Option.bind_some]
          cases s.maps.ptrEnv name with
          | none => exact ArmOk.ofNext rfl rfl
          | some pv =>
              cases pv with
              | kmalloc allocId offset =>
                  simp only
                  by_cases hfreed : allocId ∈ s.maps.freedAllocs
                  · rw [if_pos hfreed, free_of_mem hfreed]
                    exact ArmOk.ofFail _ rfl
                  · rw [if_neg hfreed]
                    exact ArmOk.ofNext rfl rfl
              | dmaAlloc allocId offset => exact ArmOk.ofNext rfl rfl
              | unknown => exact ArmOk.ofNext rfl rfl

theorem stepDmaAlloc_ok (site : Site) (call : Call) (s : St) :
    ArmOk (dmaAllocMaps call s.maps) s (stepDmaAlloc site call s) := by
  unfold stepDmaAlloc dmaAllocMaps
  cases call.arguments[1]? with
  | none => exact ArmOk.ofMark _ rfl rfl
  | some sizeOp =>
      simp only [Option.bind_some]
      cases operandConstU64 sizeOp with
      | none => exact ArmOk.ofMark _ rfl rfl
      | some size => exact ArmOk.ofNext rfl rfl

theorem stepCall_ok (e : Env) (site : Site) (call : Call) {s : St} (hs : ¬ Failed s) :
    ArmOk (transferCall e.dmaPolicy call s.maps) s (stepCall e site call s) := by
  have hfail : ¬ s.finalResult.isFail = true := hs
  unfold stepCall transferCall
  rw [if_neg hfail]
  cases callArm e.dmaPolicy (functionNameOfCall call) with
  | kmalloc => exact stepKmalloc_ok call s
  | kcalloc => exact stepKcalloc_ok call s
  | kfree => exact stepKfree_ok site call s
  | memset => exact stepMemset_ok e site call s
  | memcpy => exact stepMemcpy_ok e site call s
  | unnamed => exact stepUnnamed_ok e site call s
  | dmaAlloc => exact stepDmaAlloc_ok site call s
  | dmaMap => exact stepDmaMap_ok e site call s
  | iommuMap => exact ArmOk.ofNext rfl rfl
  | untracked => exact ArmOk.ofNext rfl rfl

theorem stepGep_ok (e : Env) (gep : GetElementPtr) (s : St) :
    ArmOk (s.maps.bindPtr gep.dest (gepVal e.module gep s.maps)) s (stepGep e gep s) := by
  unfold stepGep gepVal
  cases gep.address with
  | constantOperand c => exact ArmOk.ofMark _ rfl rfl
  | metadataOperand => exact ArmOk.ofMark _ rfl rfl
  | localOperand baseName ty =>
      simp only [operandLocalName_local, Option.bind_some]
      cases gepBase s.maps baseName with
      | none => exact ArmOk.ofNext rfl rfl
      | some pv =>
          cases pv with
          | kmalloc allocId offset =>
              simp only
              cases inferGepOffset e.module gep offset with
              | none => exact ArmOk.ofMark _ rfl rfl
              | some newOffset => exact ArmOk.ofNext rfl rfl
          | dmaAlloc allocId offset =>
              simp only
              cases inferGepOffset e.module gep offset with
              | none => exact ArmOk.ofMark _ rfl rfl
              | some newOffset => exact ArmOk.ofNext rfl rfl
          | unknown => exact ArmOk.ofNext rfl rfl

theorem stepAdd_ok (op0 op1 : Operand) (dest : Name) (s : St) :
    ArmOk (bindArith s.maps (addOut s.maps op0 op1) (intTracked s.maps op0 op1) dest) s
      (stepAdd op0 op1 dest s) := by
  unfold stepAdd bindArith
  cases addOut s.maps op0 op1 with
  | some v => exact ArmOk.ofNext rfl rfl
  | none =>
      simp only
      cases intTracked s.maps op0 op1 with
      | true => exact ArmOk.ofMark _ rfl rfl
      | false => exact ArmOk.ofNext rfl rfl

theorem stepSub_ok (op0 op1 : Operand) (dest : Name) (s : St) :
    ArmOk (bindArith s.maps (subOut s.maps op0 op1) (intTracked s.maps op0 op1) dest) s
      (stepSub op0 op1 dest s) := by
  unfold stepSub bindArith
  simp only
  -- the result is marked at most twice, the maps are bound at most once
  apply ArmOk.markIf
  cases subOut s.maps op0 op1 with
  | some v => exact ArmOk.ofNext rfl rfl
  | none =>
      simp only
      cases intTracked s.maps op0 op1 with
      | true => exact ArmOk.ofMark _ rfl rfl
      | false => exact ArmOk.ofNext rfl rfl

theorem stepStore_ok (e : Env) (site : Site) (address value : Operand) (s : St) :
    ArmOk (match operandLocalName address with
      | some destName => s.maps.spill destName value
      | none => s.maps) s (stepStore e site address value s) := by
  unfold stepStore
  cases address with
  | constantOperand c => exact ArmOk.ofNext rfl rfl
  | metadataOperand => exact ArmOk.ofNext rfl rfl
  | localOperand destName ty =>
      simp only [operandLocalName_local]
      cases ((s.maps.spill destName value).ptrEnv destName).bind ptrvalAllocInfo with
      | none => exact ArmOk.ofNext rfl rfl
      | some x =>
          obtain ⟨allocId, offset⟩ := x
          have hg := guardedAccess_ok e site (storeText site) allocId offset
            (typeSize e.module value.typeOf) (afterOk_irqRace e site "store" allocId)
            { s with maps := s.maps.spill destName value }
          exact hg.start rfl

theorem stepLoad_ok (e : Env) (site : Site) (address : Operand) (loadedTy : IrType)
    (dest : Name) (s : St) :
    ArmOk (match operandLocalName address with
      | some srcName => s.maps.reload srcName dest
      | none => s.maps) s (stepLoad e site address loadedTy dest s) := by
  unfold stepLoad
  cases address with
  | constantOperand c => exact ArmOk.ofNext rfl rfl
  | metadataOperand => exact ArmOk.ofNext rfl rfl
  | localOperand srcName ty =>
      simp only [operandLocalName_local]
      cases ((s.maps.reload srcName dest).ptrEnv srcName).bind ptrvalAllocInfo with
      | none => exact ArmOk.ofNext rfl rfl
      | some x =>
          obtain ⟨allocId, offset⟩ := x
          have hg := guardedAccess_ok e site (loadText site) allocId offset
            (typeSize e.module loadedTy) (afterOk_irqRace e site "load" allocId)
            { s with maps := s.maps.reload srcName dest }
          exact hg.start rfl

/-- **One instruction.** -/
theorem stepInstr_ok (e : Env) (site : Site) {s : St} (hs : ¬ Failed s) :
    ArmOk (transfer e.module e.dmaPolicy site.instr s.maps) s (stepInstr e site s) := by
  unfold stepInstr transfer
  cases site.instr with
  | alloca dest => exact ArmOk.ofNext rfl rfl
  | call call => exact stepCall_ok e site call hs
  | getElementPtr gep => exact stepGep_ok e gep s
  | ptrToInt operand toType dest =>
      cases operand with
      | localOperand name ty => exact ArmOk.ofNext rfl rfl
      | constantOperand c => exact ArmOk.ofMark _ rfl rfl
      | metadataOperand => exact ArmOk.ofMark _ rfl rfl
  | intToPtr operand toType dest =>
      cases operand with
      | localOperand name ty => exact ArmOk.ofNext rfl rfl
      | constantOperand c => exact ArmOk.ofMark _ rfl rfl
      | metadataOperand => exact ArmOk.ofMark _ rfl rfl
  | add op0 op1 dest => exact stepAdd_ok op0 op1 dest s
  | sub op0 op1 dest => exact stepSub_ok op0 op1 dest s
  | bitCast operand toType dest =>
      cases operand with
      | localOperand name ty => exact ArmOk.ofNext rfl rfl
      | constantOperand c => exact ArmOk.ofMark _ rfl rfl
      | metadataOperand => exact ArmOk.ofMark _ rfl rfl
  | store address value => exact stepStore_ok e site address value s
  | load address loadedTy dest => exact stepLoad_ok e site address loadedTy dest s
  | other opcode operands dest => exact ArmOk.ofNext rfl rfl

/-- The maps an iteration that goes on leaves. -/
theorem stepInstr_next_maps {e : Env} {site : Site} {s s' : St} (hs : ¬ Failed s)
    (h : stepInstr e site s = .next s') :
    s'.maps = transfer e.module e.dmaPolicy site.instr s.maps := by
  have hok := (stepInstr_ok e site hs).maps
  rw [h] at hok
  exact hok

/-- `break` and `Fail` go together. -/
theorem stepInstr_flagged (e : Env) : Flagged Failed (stepInstr e) where
  next_down := fun site _ s' hs h => (stepInstr_ok e site hs).next_down s' h hs
  brk_up := fun site _ s' hs h => (stepInstr_ok e site hs).brk_up s' h

-- ── The whole scan ───────────────────────────────────────────────────────────────

/-- All sites of a function, in listing order. -/
def funcSites (f : Function) : List Site := f.basicBlocks.zipIdx.flatMap (blockSites f)

/-- All sites of a module, in listing order. -/
def sites (m : Module) : List Site := m.functions.flatMap funcSites

theorem blockSites_instrs (f : Function) (x : BasicBlock × Nat) :
    (blockSites f x).map Site.instr = x.1.instrs := by
  unfold blockSites
  rw [List.map_map]
  exact List.zipIdx_map_fst 0 x.1.instrs

/-- The sites of a module carry its instructions, in listing order. -/
theorem sites_instrs (m : Module) :
    (sites m).map Site.instr = m.functions.flatMap Function.instrs := by
  have hfunc : ∀ f, (funcSites f).map Site.instr = f.instrs := by
    intro f
    unfold funcSites Function.instrs
    rw [List.map_flatMap]
    simp only [blockSites_instrs]
    rw [← List.flatMap_map (fun x : BasicBlock × Nat => x.1) BasicBlock.instrs,
      List.zipIdx_map_fst]
  unfold sites
  rw [List.map_flatMap]
  simp only [hfunc]

theorem not_failed_init (gate : HitlGate) : ¬ Failed (St.init gate) :=
  fun h => nomatch h

/-- The block loop of a function is one loop over its sites. -/
theorem runFunction_eq (e : Env) (f : Function) {s : St} (hs : ¬ Failed s) :
    runFunction e f s = forLoop (stepInstr e) (funcSites f) s :=
  forLoop_nested (stepInstr_flagged e) (blockSites f) _ s hs

/-- **The three loops are one loop** over the sites of the module. -/
theorem scanModule_eq (e : Env) (gate : HitlGate) :
    scanModule e gate = forLoop (stepInstr e) (sites e.module) (St.init gate) := by
  have h0 := not_failed_init gate
  unfold scanModule runFunctions sites
  rw [← forLoop_nested (stepInstr_flagged e) funcSites _ _ h0]
  refine forLoop_outer_congr ?_ _ _ h0
  intro f s hs
  exact runFunction_eq e f hs

/-- The iterations of the scan: each processed site with the state before it. -/
def scanVisits (e : Env) (gate : HitlGate) : List (Site × St) :=
  visits (stepInstr e) (sites e.module) (St.init gate)

/-- **A scan that does not fail processes every site**, none twice and in order. -/
theorem scanModule_visits {e : Env} {gate : HitlGate} (h : ¬ Failed (scanModule e gate)) :
    (scanVisits e gate).map Prod.fst = sites e.module := by
  rw [scanModule_eq] at h
  exact (forLoop_eq_foldl (stepInstr_flagged e) _ _ (not_failed_init gate) h).2

/-- A passing scan: the result was `Pass` before and after every iteration, and every
    iteration went on. -/
theorem scanVisits_pass {e : Env} {gate : HitlGate}
    (h : (scanModule e gate).finalResult = .pass) {v : Site × St}
    (hv : v ∈ scanVisits e gate) :
    v.2.finalResult = .pass ∧ ∃ s', stepInstr e v.1 v.2 = .next s' ∧ s'.finalResult = .pass := by
  rw [scanModule_eq] at h
  have hpass : ∀ s : St, s.finalResult = .pass → ¬ Failed s := by
    intro s hs hf
    unfold Failed at hf
    rw [hs] at hf
    exact nomatch hf
  exact (visits_backward (stepInstr_flagged e) hpass
    (fun site _ hs => (stepInstr_ok e site hs).pass) _ _ (not_failed_init gate) h).2 v hv

/-- `analyze` passes only if its loops did. -/
theorem scan_pass_of_analyze {m : Module} {host : Host} {gate : HitlGate}
    {asmP : InlineAsmPolicy} {dmaP : DmaPolicy}
    (h : (analyze m host gate asmP dmaP).1.result = .pass) :
    (scanModule (mkEnv m host asmP dmaP) gate).finalResult = .pass := by
  have h' : iommuEnforced (mkEnv m host asmP dmaP)
      (scanModule (mkEnv m host asmP dmaP) gate) = .pass := h
  unfold iommuEnforced at h'
  split at h'
  · split at h'
    · exact nomatch h'
    · exact h'
  · exact h'

end SkvTransfer

import SentinelKv.SkvMapsInvProofs

/-!
# What a `Pass` certifies

If `analyze` returns `Pass`, the scan processed every instruction of the module, and each
access it could attribute to an allocation was checked against the maps as they stood just
before that instruction (`Certified`):

* a `Load` or `Store` through a tracked pointer has a known size, touches an allocation that
  is not freed, and stays inside it;
* so do `memset` and both operands of `memcpy` on kmalloc pointers;
* a `dma_map_single` of a tracked pointer stays inside its allocation;
* a `kfree` of a kmalloc pointer releases an allocation that is not freed yet.

The solver is only assumed not to lie (`SolverSound`); it may give up at any query.
`stepInstr_certified` is the step, **`pass_certifies`** the run.
-/

namespace SkvCertify

open BreakLoop SkvIr SkvTypeSize SkvGate SkvAnalyze SkvTransfer SkvMapsInv

-- ── The certificate ──────────────────────────────────────────────────────────────

/-- An access of a known size to a live allocation, inside its bounds. -/
def AccessOk (t : Maps) (allocId : Nat) (offset : Z3Int) (size : Option UInt64) : Prop :=
  ∃ n allocSize, size = some n ∧ allocId ∉ t.freedAllocs
    ∧ t.allocSizes allocId = some allocSize ∧ InBounds allocSize offset n

/-- A region of a known size inside its allocation, freed or not. -/
def RegionOk (t : Maps) (allocId : Nat) (offset : Z3Int) (size : Option UInt64) : Prop :=
  ∃ n allocSize, size = some n ∧ t.allocSizes allocId = some allocSize
    ∧ InBounds allocSize offset n

/-- `op` is a local bound to a tracked pointer of either kind. -/
def TrackedAt (t : Maps) (op : Operand) (allocId : Nat) (offset : Z3Int) : Prop :=
  ((operandLocalName op).bind t.ptrEnv).bind ptrvalAllocInfo = some (allocId, offset)

/-- `op` is a local bound to a kmalloc pointer. -/
def KmallocAt (t : Maps) (op : Operand) (allocId : Nat) (offset : Z3Int) : Prop :=
  (operandLocalName op).bind t.ptrEnv = some (.kmalloc allocId offset)

/-- What a call owes, by the name of its callee. -/
structure CallCertified (dma : DmaPolicy) (call : Call) (t : Maps) : Prop where
  memset : functionNameOfCall call = some "memset" →
    ∀ op, call.arguments.head? = some op → ∀ id off, KmallocAt t op id off →
      AccessOk t id off (call.arguments[2]?.bind operandConstU64)
  memcpy : functionNameOfCall call = some "memcpy" ∨ functionNameOfCall call = some "__memcpy" →
    ∀ op ∈ call.arguments.take 2, ∀ id off, KmallocAt t op id off →
      AccessOk t id off (call.arguments[2]?.bind operandConstU64)
  dmaMap : dma ≠ .ignore → functionNameOfCall call = some "dma_map_single" →
    ∀ op, call.arguments[1]? = some op → ∀ id off, TrackedAt t op id off →
      RegionOk t id off (call.arguments[2]?.bind operandConstU64)
  kfree  : functionNameOfCall call = some "kfree" →
    ∀ op, call.arguments.head? = some op → ∀ id off, KmallocAt t op id off →
      id ∉ t.freedAllocs

/-- What an instruction owes, with the maps as they are just before it. -/
def Certified (m : Module) (dma : DmaPolicy) (t : Maps) : Instruction → Prop
  | .load address loadedTy _ =>
      ∀ id off, TrackedAt t address id off → AccessOk t id off (typeSize m loadedTy)
  | .store address value =>
      ∀ id off, TrackedAt t address id off → AccessOk t id off (typeSize m value.typeOf)
  | .call call => CallCertified dma call t
  | _ => True

/-- No instruction of the module reads the name it defines. -/
def ResultsFresh (m : Module) : Prop :=
  ∀ site ∈ sites m, ∀ d, site.instr.tryGetResult = some d → d ∉ site.instr.uses

-- ── The bounds check ─────────────────────────────────────────────────────────────

/-- An access to a freed allocation fails before any solver is asked. -/
theorem guardedAccess_live {e : Env} {site : Site} {txt : AccessText} {allocId : Nat}
    {offset : Z3Int} {size : Option UInt64} {after : St → St} {s : St}
    (hp : (guardedAccess e site txt allocId offset size after s).state.finalResult = .pass) :
    allocId ∉ s.maps.freedAllocs := by
  intro hfreed
  unfold guardedAccess at hp
  rw [if_pos hfreed] at hp
  exact nomatch hp

/-- **A guarded access that leaves `Pass` behind was in order.** -/
theorem guardedAccess_pass {e : Env} (hz : SolverSound e.host.z3) {site : Site}
    {txt : AccessText} {allocId : Nat} {offset : Z3Int} {size : Option UInt64}
    {after : St → St} (ha : AfterOk after) {s : St}
    (hp : (guardedAccess e site txt allocId offset size after s).state.finalResult = .pass) :
    AccessOk s.maps allocId offset size := by
  have hlive := guardedAccess_live hp
  unfold guardedAccess at hp
  rw [if_neg hlive] at hp
  cases size with
  | none => exact absurd hp (markUnknown_ne_pass _ _)
  | some n =>
  cases hsz : s.maps.allocSizes allocId with
  | none =>
      simp only [hsz] at hp
      exact absurd hp (markUnknown_ne_pass _ _)
  | some allocSize =>
      simp only [hsz] at hp
      -- any answer but `Safe` has marked or failed the result
      unfold afterCheck at hp
      cases hans : (checkAccess e.host.z3 allocSize offset n (site.vcId txt.kind)
          (vcClassId txt.kind n) s.gate).1 with
      | safe => exact ⟨n, allocSize, rfl, hlive, hsz, checkAccess_safe hz hans⟩
      | oob => rw [hans] at hp; exact nomatch hp
      | solverUnknown =>
          rw [hans] at hp
          exact absurd (ha.pass _ hp) (markUnknown_ne_pass _ _)
      | hitlBlocked =>
          rw [hans] at hp
          exact absurd (ha.pass _ hp) (markUnknown_ne_pass _ _)

theorem not_failed_of_pass {s : St} (h : s.finalResult = .pass) : ¬ Failed s := by
  intro hf
  unfold Failed at hf
  rw [h] at hf
  exact nomatch hf

-- ── The arms ─────────────────────────────────────────────────────────────────────

theorem stepMemset_pass {e : Env} (hz : SolverSound e.host.z3) {site : Site} {call : Call}
    {s : St} (hp : (stepMemset e site call s).state.finalResult = .pass) {op : Operand}
    (hop : call.arguments.head? = some op) {id : Nat} {off : Z3Int}
    (hk : KmallocAt s.maps op id off) :
    AccessOk s.maps id off (call.arguments[2]?.bind operandConstU64) := by
  obtain ⟨name, hname, hbound⟩ := Option.bind_eq_some_iff.mp hk
  unfold stepMemset at hp
  simp only [hop, hname, hbound] at hp
  cases hlenOp : call.arguments[2]? with
  | none => rw [hlenOp] at hp; exact absurd hp (markUnknown_ne_pass _ _)
  | some lenOp =>
      simp only [hlenOp] at hp
      cases hlen : operandConstU64 lenOp with
      | none => simp only [hlen] at hp; exact absurd hp (markUnknown_ne_pass _ _)
      | some len =>
          simp only [hlen] at hp
          rw [Option.bind_some, hlen]
          exact guardedAccess_pass hz afterOk_id hp

theorem memcpyOperand_flagged (e : Env) (site : Site) (len : UInt64) :
    Flagged Failed (memcpyOperand e site len) where
  next_down := fun x s s' hs h => (memcpyOperand_ok e site len x s).next_down s' h hs
  brk_up := fun x s s' _ h => (memcpyOperand_ok e site len x s).brk_up s' h

/-- The inner loop of `memcpy`: if it ends in `Pass`, both operands were checked. -/
theorem memcpyLoop_pass {e : Env} (hz : SolverSound e.host.z3) {site : Site} {len : UInt64}
    {xs : List (Operand × String)} {s : St}
    (hp : (forLoop (memcpyOperand e site len) xs s).finalResult = .pass) {x : Operand × String}
    (hx : x ∈ xs) {id : Nat} {off : Z3Int} (hk : KmallocAt s.maps x.1 id off) :
    AccessOk s.maps id off (some len) := by
  have hF := memcpyOperand_flagged e site len
  have hs : s.finalResult = .pass := (memcpyLoop_ok e site len xs s).2 hp
  have hs' := not_failed_of_pass hs
  -- the iteration of `x`, which kept the maps and ended in `Pass`
  have hvisited := (forLoop_eq_foldl hF xs s hs' (not_failed_of_pass hp)).2
  rw [← hvisited] at hx
  obtain ⟨v, hv, rfl⟩ := List.mem_map.mp hx
  have hmaps : v.2.maps = s.maps :=
    (visits_inv hF (fun s' => s'.maps = s.maps)
      (fun y s' _ h => (memcpyOperand_ok e site len y s').maps.trans h) xs s hs' rfl v hv).2.2
  obtain ⟨-, s', hnext, hpass⟩ := (visits_backward hF (fun _ => not_failed_of_pass)
    (fun y s' _ => (memcpyOperand_ok e site len y s').pass) xs s hs' hp).2 v hv
  obtain ⟨name, hname, hbound⟩ := Option.bind_eq_some_iff.mp hk
  have hend : (memcpyOperand e site len v.1 v.2).state.finalResult = .pass := by
    rw [hnext]
    exact hpass
  unfold memcpyOperand at hend
  simp only [hname, hmaps, hbound] at hend
  rw [← hmaps]
  exact guardedAccess_pass hz afterOk_id hend

theorem stepMemcpy_pass {e : Env} (hz : SolverSound e.host.z3) {site : Site} {call : Call}
    {s : St} (hp : (stepMemcpy e site call s).state.finalResult = .pass) {op : Operand}
    (hop : op ∈ call.arguments.take 2) {id : Nat} {off : Z3Int}
    (hk : KmallocAt s.maps op id off) :
    AccessOk s.maps id off (call.arguments[2]?.bind operandConstU64) := by
  unfold stepMemcpy at hp
  match hargs : call.arguments with
  | [] => rw [hargs] at hop; exact nomatch hop
  | [destOp] => rw [hargs] at hp; exact absurd hp (markUnknown_ne_pass _ _)
  | [destOp, srcOp] => rw [hargs] at hp; exact absurd hp (markUnknown_ne_pass _ _)
  | destOp :: srcOp :: lenOp :: rest =>
      rw [hargs] at hp hop
      simp only [List.head?_cons, List.getElem?_cons_succ, List.getElem?_cons_zero] at hp
      simp only [List.getElem?_cons_succ, List.getElem?_cons_zero, Option.bind_some]
      cases hlen : operandConstU64 lenOp with
      | none => simp only [hlen] at hp; exact absurd hp (markUnknown_ne_pass _ _)
      | some len =>
          simp only [hlen] at hp
          have hend : (forLoop (memcpyOperand e site len)
              [(destOp, "destination"), (srcOp, "source")] s).finalResult = .pass := by
            split at hp <;> exact hp
          rcases List.mem_cons.mp hop with rfl | hop
          · exact memcpyLoop_pass hz hend (x := (op, "destination")) List.mem_cons_self hk
          · obtain rfl := List.mem_singleton.mp hop
            exact memcpyLoop_pass hz hend (x := (op, "source"))
              (List.mem_cons_of_mem _ List.mem_cons_self) hk

theorem stepDmaMap_pass {e : Env} (hz : SolverSound e.host.z3) {site : Site} {call : Call}
    {s : St} (hinv : MapsInv s.maps)
    (hp : (stepDmaMap e site call s).state.finalResult = .pass) {op : Operand}
    (hop : call.arguments[1]? = some op) {id : Nat} {off : Z3Int}
    (ht : TrackedAt s.maps op id off) :
    RegionOk s.maps id off (call.arguments[2]?.bind operandConstU64) := by
  have hsize : ∃ allocSize, s.maps.allocSizes id = some allocSize := by
    obtain ⟨pv, hpv, hinfo⟩ := Option.bind_eq_some_iff.mp ht
    obtain ⟨name, -, hbound⟩ := Option.bind_eq_some_iff.mp hpv
    have hbind : (s.maps.ptrEnv name).bind ptrvalAllocInfo = some (id, off) := by
      rw [hbound]
      exact hinfo
    exact hinv.size_of_tracked hbind
  obtain ⟨allocSize, hsize⟩ := hsize
  unfold TrackedAt at ht
  unfold stepDmaMap at hp
  simp only [hop, ht, hsize] at hp
  cases hlenOp : call.arguments[2]? with
  | none => rw [hlenOp] at hp; exact absurd hp (markUnknown_ne_pass _ _)
  | some lenOp =>
      simp only [hlenOp] at hp
      cases hlen : operandConstU64 lenOp with
      | none => simp only [hlen] at hp; exact absurd hp (markUnknown_ne_pass _ _)
      | some len =>
          simp only [hlen] at hp
          cases hans : (checkAccess e.host.z3 allocSize off len (site.vcId "dma_map")
              (vcClassId "dma_bounds" len) s.gate).1 with
          | safe =>
              exact ⟨len, allocSize, by rw [Option.bind_some, hlen], hsize,
                checkAccess_safe hz hans⟩
          | oob => rw [hans] at hp; exact nomatch hp
          | solverUnknown => rw [hans] at hp; exact absurd hp (markUnknown_ne_pass _ _)
          | hitlBlocked => rw [hans] at hp; exact absurd hp (markUnknown_ne_pass _ _)

theorem stepKfree_pass {site : Site} {call : Call} {s : St}
    (hp : (stepKfree site call s).state.finalResult = .pass) {op : Operand}
    (hop : call.arguments.head? = some op) {id : Nat} {off : Z3Int}
    (hk : KmallocAt s.maps op id off) : id ∉ s.maps.freedAllocs := by
  obtain ⟨name, hname, hbound⟩ := Option.bind_eq_some_iff.mp hk
  intro hfreed
  unfold stepKfree at hp
  simp only [hop, hname, hbound, if_pos hfreed] at hp
  exact nomatch hp

theorem stepCall_certified {e : Env} (hz : SolverSound e.host.z3) {site : Site} {call : Call}
    {s : St} (hs : ¬ Failed s) (hinv : MapsInv s.maps)
    (hp : (stepCall e site call s).state.finalResult = .pass) :
    CallCertified e.dmaPolicy call s.maps := by
  have hfail : ¬ s.finalResult.isFail = true := hs
  unfold stepCall at hp
  rw [if_neg hfail] at hp
  refine ⟨?_, ?_, ?_, ?_⟩
  · intro hname op hop id off hk
    rw [hname] at hp
    exact stepMemset_pass hz hp hop hk
  · intro hname op hop id off hk
    have harm : callArm e.dmaPolicy (functionNameOfCall call) = .memcpy := by
      rcases hname with hname | hname <;> (rw [hname]; rfl)
    rw [harm] at hp
    exact stepMemcpy_pass hz hp hop hk
  · intro hdma hname op hop id off ht
    have harm : callArm e.dmaPolicy (functionNameOfCall call) = .dmaMap := by
      rw [hname]
      cases hd : e.dmaPolicy with
      | verify => rfl
      | requireIommu => rfl
      | ignore => exact absurd hd hdma
    rw [harm] at hp
    exact stepDmaMap_pass hz hinv hp hop ht
  · intro hname op hop id off hk
    rw [hname] at hp
    exact stepKfree_pass hp hop hk

/-- What the two slot updates leave alone. -/
theorem spill_frame (t : Maps) (destName : Name) (value : Operand) :
    (t.spill destName value).ptrEnv = t.ptrEnv
      ∧ (t.spill destName value).freedAllocs = t.freedAllocs
      ∧ (t.spill destName value).allocSizes = t.allocSizes := by
  unfold Maps.spill
  split
  · split
    · split <;> exact ⟨rfl, rfl, rfl⟩
    · exact ⟨rfl, rfl, rfl⟩
  · exact ⟨rfl, rfl, rfl⟩

theorem reload_frame (t : Maps) (srcName : Name) {dest n : Name} (h : n ≠ dest) :
    (t.reload srcName dest).ptrEnv n = t.ptrEnv n
      ∧ (t.reload srcName dest).freedAllocs = t.freedAllocs
      ∧ (t.reload srcName dest).allocSizes = t.allocSizes := by
  unfold Maps.reload
  split
  · split
    · exact ⟨Function.update_of_ne h _ _, rfl, rfl⟩
    · exact ⟨rfl, rfl, rfl⟩
  · exact ⟨rfl, rfl, rfl⟩

/-- A `Store` through a tracked pointer is a guarded access, after the spill. -/
theorem stepStore_tracked (e : Env) (site : Site) {address : Operand} (value : Operand)
    {s : St} {id : Nat} {off : Z3Int} (ht : TrackedAt s.maps address id off) :
    ∃ t', t'.freedAllocs = s.maps.freedAllocs ∧ t'.allocSizes = s.maps.allocSizes
      ∧ stepStore e site address value s
        = guardedAccess e site (storeText site) id off (typeSize e.module value.typeOf)
          (irqRace e site "store" id) { s with maps := t' } := by
  cases address with
  | constantOperand c => exact nomatch ht
  | metadataOperand => exact nomatch ht
  | localOperand destName ty =>
      obtain ⟨hptr, hfreed, hsizes⟩ := spill_frame s.maps destName value
      have ht' : (s.maps.ptrEnv destName).bind ptrvalAllocInfo = some (id, off) := ht
      refine ⟨s.maps.spill destName value, hfreed, hsizes, ?_⟩
      unfold stepStore
      simp only [hptr, ht']

/-- So is a `Load`, after the reload. -/
theorem stepLoad_tracked (e : Env) (site : Site) {address : Operand} (loadedTy : IrType)
    {dest : Name} {s : St} (hfresh : operandLocalName address ≠ some dest)
    {id : Nat} {off : Z3Int} (ht : TrackedAt s.maps address id off) :
    ∃ t', t'.freedAllocs = s.maps.freedAllocs ∧ t'.allocSizes = s.maps.allocSizes
      ∧ stepLoad e site address loadedTy dest s
        = guardedAccess e site (loadText site) id off (typeSize e.module loadedTy)
          (irqRace e site "load" id) { s with maps := t' } := by
  cases address with
  | constantOperand c => exact nomatch ht
  | metadataOperand => exact nomatch ht
  | localOperand srcName ty =>
      have hne : srcName ≠ dest := fun h => hfresh (congrArg some h)
      obtain ⟨hptr, hfreed, hsizes⟩ := reload_frame s.maps srcName hne
      have ht' : (s.maps.ptrEnv srcName).bind ptrvalAllocInfo = some (id, off) := ht
      refine ⟨s.maps.reload srcName dest, hfreed, hsizes, ?_⟩
      unfold stepLoad
      simp only [hptr, ht']

/-- An access checked against maps with the same allocation table. -/
theorem AccessOk.of_table {t t' : Maps} (hfreed : t'.freedAllocs = t.freedAllocs)
    (hsizes : t'.allocSizes = t.allocSizes) {id : Nat} {off : Z3Int} {size : Option UInt64}
    (h : AccessOk t' id off size) : AccessOk t id off size := by
  unfold AccessOk at *
  rw [← hfreed, ← hsizes]
  exact h

-- ── Step and run ─────────────────────────────────────────────────────────────────

/-- **The step.**  An instruction that leaves `Pass` behind is certified by the maps before
    it. -/
theorem stepInstr_certified {e : Env} (hz : SolverSound e.host.z3) {site : Site} {s : St}
    (hs : ¬ Failed s) (hinv : MapsInv s.maps)
    (hfresh : ∀ d, site.instr.tryGetResult = some d → d ∉ site.instr.uses)
    (hp : (stepInstr e site s).state.finalResult = .pass) :
    Certified e.module e.dmaPolicy s.maps site.instr := by
  unfold stepInstr at hp
  cases hi : site.instr with
  | call call =>
      simp only [hi] at hp
      exact stepCall_certified hz hs hinv hp
  | store address value =>
      simp only [hi] at hp
      intro id off ht
      obtain ⟨t', hfreed, hsizes, heq⟩ := stepStore_tracked e site value ht
      rw [heq] at hp
      exact (guardedAccess_pass hz (afterOk_irqRace e site "store" id) hp).of_table hfreed hsizes
  | load address loadedTy dest =>
      simp only [hi] at hp
      rw [hi] at hfresh
      have hne : operandLocalName address ≠ some dest := fun h =>
        hfresh dest rfl (List.mem_filterMap.mpr ⟨address, List.mem_cons_self, h⟩)
      intro id off ht
      obtain ⟨t', hfreed, hsizes, heq⟩ := stepLoad_tracked e site loadedTy hne ht
      rw [heq] at hp
      exact (guardedAccess_pass hz (afterOk_irqRace e site "load" id) hp).of_table hfreed hsizes
  | _ => trivial

/-- Every iteration of a passing scan is certified by the maps it started from. -/
theorem visited_certified {e : Env} (hz : SolverSound e.host.z3) (hfresh : ResultsFresh e.module)
    {gate : HitlGate} (hscan : (scanModule e gate).finalResult = .pass) {v : Site × St}
    (hv : v ∈ scanVisits e gate) : Certified e.module e.dmaPolicy v.2.maps v.1.instr := by
  obtain ⟨hlive, hinv⟩ := visited_inv hv
  obtain ⟨-, s', hnext, hpass⟩ := scanVisits_pass hscan hv
  have hsite : v.1 ∈ sites e.module :=
    (visits_fst_isPre _ _ _).subset (List.mem_map_of_mem hv)
  refine stepInstr_certified hz hlive hinv (hfresh v.1 hsite) ?_
  rw [hnext]
  exact hpass

/-- **A `Pass` certifies every tracked access**: all sites were processed, and each is
    certified by the maps the scan had just before it. -/
theorem pass_certifies {m : Module} (hfresh : ResultsFresh m) {host : Host}
    (hz : SolverSound host.z3) (gate : HitlGate) (asmP : InlineAsmPolicy) (dmaP : DmaPolicy)
    (h : (analyze m host gate asmP dmaP).1.result = .pass) :
    (scanVisits (mkEnv m host asmP dmaP) gate).map Prod.fst = sites m
      ∧ ∀ v ∈ scanVisits (mkEnv m host asmP dmaP) gate,
          Certified m dmaP v.2.maps v.1.instr := by
  have hscan := scan_pass_of_analyze h
  refine ⟨scanModule_visits (not_failed_of_pass hscan), ?_⟩
  intro v hv
  exact visited_certified (e := mkEnv m host asmP dmaP) hz hfresh hscan hv

/-- `tests/safe_driver.c`: allocate, write both fields, free. -/
def safeDriver : Module := Module.ofFunctions [Function.ofBlocks "my_module_init" [(
  [.call (.direct "kmalloc" [.lit 64 8, .lit 32 0] (some (.name "p"))),
   .store (.ptr "p") (.lit 32 10),
   .ptrToInt (.ptr "p") (.integerType 64) (.name "i"),
   .add (.localOperand (.name "i") (.integerType 64)) (.lit 64 4) (.name "j"),
   .intToPtr (.localOperand (.name "j") (.integerType 64)) .pointerType (.name "b"),
   .store (.ptr "b") (.lit 32 20),
   .call (.direct "kfree" [.ptr "p"] none)],
  .ret (some (.lit 32 0)))]]

theorem safeDriver_certified :
    (scanVisits (mkEnv safeDriver (sortedHost evalSolver) .conservative .verify)
        (.fresh .off ∅ ∅)).map Prod.fst = sites safeDriver
      ∧ ∀ v ∈ scanVisits (mkEnv safeDriver (sortedHost evalSolver) .conservative .verify)
            (.fresh .off ∅ ∅),
          Certified safeDriver .verify v.2.maps v.1.instr :=
  pass_certifies (m := safeDriver) (by unfold ResultsFresh; decide) evalSolver_exact.toSolverSound
    (.fresh .off ∅ ∅) .conservative .verify (by decide)

end SkvCertify

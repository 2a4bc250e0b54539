import SentinelKv.SkvHistoryProofs
import SentinelKv.SkvIrqProofs

/-!
# Call sites and functions

The scan has ONE loop over the `Call` instructions of the module.  A module has more structure
than that: calls are also made by the terminators `invoke` and `callbr`, and they belong to
functions.  Two policies of the catalog depend on the difference.

* Inline assembly.  **`asm_policy_iff`**: the policy covers the whole module if and only if no
  terminator calls assembly (under `trap`), or none that is not known to be safe.
* require-iommu.  **`iommu_pairing_iff`**: the two sets behind it are never reset between
  functions, so what passes is paired WITHIN its functions if and only if no unpaired
  allocation is rescued by a later function, and none is made by a terminator.
-/

namespace SkvCallSite

open BreakLoop SkvIr SkvGate SkvAnalyze SkvTransfer SkvMapsInv SkvCertify SkvIrq SkvHistory

-- ── The listing of a function ────────────────────────────────────────────────────

/-- A line of a function's listing. -/
inductive Item where
  | instr (i : Instruction)
  | term (t : Terminator)

def Item.instruction : Item → Option Instruction
  | .instr i => some i
  | .term _ => none

/-- What a line calls, if it calls. -/
def Item.callee : Item → Option Callee
  | .instr (.call c) => some c.function
  | .instr _ => none
  | .term t => (terminatorCall t).map Prod.fst

def blockListing (bb : BasicBlock) : List Item := bb.instrs.map .instr ++ [.term bb.term]

/-- All lines of a function, in listing order. -/
def listing (f : Function) : List Item := f.basicBlocks.flatMap blockListing

theorem listing_instrs (f : Function) : (listing f).filterMap Item.instruction = f.instrs := by
  unfold listing Function.instrs
  rw [List.filterMap_flatMap]
  refine List.flatMap_congr (fun bb _ => ?_)
  rw [blockListing, List.filterMap_append, List.filterMap_map]
  show bb.instrs.filterMap some ++ [] = bb.instrs
  rw [List.filterMap_some, List.append_nil]

/-- The instruction lines of a module are the sites the scan goes through. -/
theorem instr_mem_listing {m : Module} {i : Instruction} :
    (∃ f ∈ m.functions, Item.instr i ∈ listing f) ↔ ∃ site ∈ sites m, site.instr = i := by
  have hline : ∀ f, Item.instr i ∈ listing f ↔ i ∈ f.instrs := by
    intro f
    rw [← listing_instrs, List.mem_filterMap]
    constructor
    · exact fun h => ⟨_, h, rfl⟩
    · rintro ⟨x, hx, hi⟩
      cases x with
      | instr j =>
          obtain rfl := Option.some.inj hi
          exact hx
      | term t => exact nomatch hi
  simp only [hline]
  rw [← List.mem_flatMap, ← sites_instrs, List.mem_map]

-- ── Inline assembly ──────────────────────────────────────────────────────────────

/-- The assembly a callee is, if it is one. -/
def calleeAsm : Callee → Option String
  | .inlineAssembly assembly => some assembly
  | .operand _ => none

/-- `a` is called by some line of the module. -/
def ModuleAsm (m : Module) (a : String) : Prop :=
  ∃ f ∈ m.functions, ∃ x ∈ listing f, x.callee.bind calleeAsm = some a

/-- `a` is called by a `Call` instruction of the module. -/
def CallAsm (m : Module) (a : String) : Prop :=
  ∃ f ∈ m.functions, ∃ c, Item.instr (.call c) ∈ listing f ∧ c.function = .inlineAssembly a

/-- `a` is called by an `invoke` or a `callbr` of the module. -/
def TerminatorAsm (m : Module) (a : String) : Prop :=
  ∃ f ∈ m.functions, ∃ t, Item.term t ∈ listing f
    ∧ (terminatorCall t).map Prod.fst = some (.inlineAssembly a)

theorem calleeAsm_eq_some {callee : Callee} {a : String} :
    calleeAsm callee = some a ↔ callee = .inlineAssembly a := by
  cases callee with
  | inlineAssembly assembly =>
      exact ⟨fun h => congrArg _ (Option.some.inj h), fun h => congrArg _ (Callee.inlineAssembly.inj h)⟩
  | operand op => exact ⟨fun h => (nomatch h), fun h => (nomatch h)⟩

theorem moduleAsm_iff {m : Module} {a : String} :
    ModuleAsm m a ↔ CallAsm m a ∨ TerminatorAsm m a := by
  constructor
  · rintro ⟨f, hf, x, hx, ha⟩
    obtain ⟨callee, hcallee, ha⟩ := Option.bind_eq_some_iff.mp ha
    rw [calleeAsm_eq_some.mp ha] at hcallee
    cases x with
    | term t => exact Or.inr ⟨f, hf, t, hx, hcallee⟩
    | instr i =>
        cases i with
        | call c => exact Or.inl ⟨f, hf, c, hx, Option.some.inj hcallee⟩
        | _ => exact nomatch hcallee
  · rintro (⟨f, hf, c, hx, ha⟩ | ⟨f, hf, t, hx, ha⟩)
    · refine ⟨f, hf, _, hx, ?_⟩
      show calleeAsm c.function = some a
      exact calleeAsm_eq_some.mpr ha
    · refine ⟨f, hf, _, hx, ?_⟩
      show ((terminatorCall t).map Prod.fst).bind calleeAsm = some a
      rw [ha]
      rfl

/-- The step of a call of assembly is the arm for callees without a name. -/
theorem stepInstr_asm {e : Env} {site : Site} {s : St} (hs : ¬ Failed s) {c : Call} {a : String}
    (hi : site.instr = .call c) (ha : c.function = .inlineAssembly a) :
    stepInstr e site s = stepUnnamed e site c s := by
  have hname : functionNameOfCall c = none := by
    unfold functionNameOfCall
    rw [ha]
  have hfail : ¬ s.finalResult.isFail = true := hs
  unfold stepInstr
  rw [hi]
  show stepCall e site c s = _
  rw [stepCall, if_neg hfail, hname]
  rfl

/-- A scan that does not fail visits every call of assembly. -/
theorem callAsm_visited {e : Env} {gate : HitlGate} (h : ¬ Failed (scanModule e gate))
    {a : String} (ha : CallAsm e.module a) :
    ∃ v ∈ scanVisits e gate, ∃ c, v.1.instr = .call c ∧ c.function = .inlineAssembly a := by
  obtain ⟨f, hf, c, hx, ha⟩ := ha
  obtain ⟨site, hsite, hi⟩ := instr_mem_listing.mp ⟨f, hf, hx⟩
  rw [← scanModule_visits h] at hsite
  obtain ⟨v, hv, rfl⟩ := List.mem_map.mp hsite
  exact ⟨v, hv, c, hi, ha⟩

/-- Under `trap` a scan that does not fail has met no assembly. -/
theorem trap_no_callAsm {e : Env} {gate : HitlGate} (hp : e.inlineAsmPolicy = .trap)
    (h : ¬ Failed (scanModule e gate)) (a : String) : ¬ CallAsm e.module a := by
  intro ha
  obtain ⟨v, hv, c, hi, ha⟩ := callAsm_visited h ha
  have hend := h
  rw [scanModule_eq] at hend
  obtain ⟨hlive, s', hnext, -⟩ := (visits_backward (stepInstr_flagged e) (fun _ hs => hs)
    (fun _ _ hs _ => hs) _ _ (not_failed_init gate) hend).2 v hv
  rw [stepInstr_asm hlive hi ha, stepUnnamed, ha, hp] at hnext
  cases hnext

/-- Under `conservative` a passing scan has met safe assembly only. -/
theorem conservative_callAsm {e : Env} {gate : HitlGate} (hp : e.inlineAsmPolicy = .conservative)
    (h : (scanModule e gate).finalResult = .pass) {a : String} (ha : CallAsm e.module a) :
    isSafeInlineAsm a = true := by
  obtain ⟨v, hv, c, hi, ha⟩ := callAsm_visited (not_failed_of_pass h) ha
  obtain ⟨hlive, -⟩ := visited_inv hv
  obtain ⟨-, s', hnext, hpass⟩ := scanVisits_pass h hv
  rw [stepInstr_asm hlive hi ha, stepUnnamed, ha, hp] at hnext
  by_contra hsafe
  simp only [if_neg hsafe] at hnext
  split at hnext
  all_goals
    obtain rfl := Flow.next.inj hnext
    exact absurd hpass (markUnknown_ne_pass _ _)

/-- The check after the loops keeps a `Fail`. -/
theorem analyze_isFail {m : Module} {host : Host} {gate : HitlGate} {asmP : InlineAsmPolicy}
    {dmaP : DmaPolicy} (h : (analyze m host gate asmP dmaP).1.result.isFail = false) :
    ¬ Failed (scanModule (mkEnv m host asmP dmaP) gate) := by
  have h' : (iommuEnforced (mkEnv m host asmP dmaP)
      (scanModule (mkEnv m host asmP dmaP) gate)).isFail = false := h
  unfold iommuEnforced at h'
  intro hfail
  split at h'
  · split at h'
    · exact nomatch h'
    · exact absurd hfail (by rw [Failed, h']; exact Bool.false_ne_true)
  · exact absurd hfail (by rw [Failed, h']; exact Bool.false_ne_true)

/-- **The assembly policy.**  It decides on the assembly that `Call` instructions call, and it
    covers the module if and only if no terminator calls assembly, under `trap`, or none that
    is not known to be safe, under `conservative`. -/
theorem asm_policy_iff (m : Module) (host : Host) (gate : HitlGate) (dmaP : DmaPolicy) :
    ((analyze m host gate .trap dmaP).1.result.isFail = false →
        (∀ a, ¬ CallAsm m a) ∧ ((∀ a, ¬ ModuleAsm m a) ↔ ∀ a, ¬ TerminatorAsm m a))
      ∧ ((analyze m host gate .conservative dmaP).1.result = .pass →
        (∀ a, CallAsm m a → isSafeInlineAsm a = true)
          ∧ ((∀ a, ModuleAsm m a → isSafeInlineAsm a = true)
            ↔ ∀ a, TerminatorAsm m a → isSafeInlineAsm a = true)) := by
  refine ⟨fun h => ?_, fun h => ?_⟩
  · have hcall : ∀ a, ¬ CallAsm m a :=
      trap_no_callAsm (e := mkEnv m host .trap dmaP) rfl (analyze_isFail h)
    refine ⟨hcall, ?_⟩
    simp only [moduleAsm_iff, not_or, hcall, not_false_iff, true_and]
  · have hcall : ∀ a, CallAsm m a → isSafeInlineAsm a = true := fun a =>
      conservative_callAsm (e := mkEnv m host .conservative dmaP) rfl (scan_pass_of_analyze h)
    refine ⟨hcall, fun hall a ha => hall a (moduleAsm_iff.mpr (Or.inr ha)), ?_⟩
    intro hterm a ha
    exact (moduleAsm_iff.mp ha).elim (hcall a) (hterm a)

/-- `asm goto`: assembly called by a terminator. -/
def asmGotoDriver : Module := Module.ofFunctions [Function.ofBlocks "asm_module_init" [
  ([], .callBr (.inlineAssembly "hlt") [] (.name "r") (.number 1)), ([], .ret none)]]

/-- It passes under both policies, although `hlt` is not on the safe list. -/
theorem asmGotoDriver_passes :
    ModuleAsm asmGotoDriver "hlt" ∧ isSafeInlineAsm "hlt" = false
      ∧ (analyze asmGotoDriver (sortedHost evalSolver) (.fresh .off ∅ ∅) .trap
          .verify).1.result = .pass
      ∧ (analyze asmGotoDriver (sortedHost evalSolver) (.fresh .off ∅ ∅) .conservative
          .verify).1.result = .pass := by
  refine ⟨⟨_, .head _, _, .head _, rfl⟩, ?_, ?_, ?_⟩
  all_goals decide +kernel

-- ── Pairing within a function ────────────────────────────────────────────────────

/-- The line calls the global `name` directly. -/
def Item.Calls (name : String) (x : Item) : Prop := x.callee.bind calleeName = some name

theorem calls_instr {name : String} {i : Instruction} :
    (Item.instr i).Calls name ↔ ∃ c, i = .call c ∧ functionNameOfCall c = some name := by
  unfold Item.Calls
  cases i with
  | call c => exact ⟨fun h => ⟨c, rfl, h⟩, fun ⟨_, hc, h⟩ => Instruction.call.inj hc ▸ h⟩
  | _ => exact ⟨fun h => (nomatch h), fun ⟨_, hc, _⟩ => (nomatch hc)⟩

/-- The DMA allocation at line `x` has no `iommu_map` after it in its own function. -/
def Unpaired (f : Function) (pre : List Item) (x : Item) (post : List Item) : Prop :=
  listing f = pre ++ x :: post ∧ x.Calls "dma_alloc_coherent"
    ∧ ∀ y ∈ post, ¬ y.Calls "iommu_map"

/-- Every `dma_alloc_coherent` of `f` is followed, in `f`, by an `iommu_map`. -/
def Paired (f : Function) : Prop :=
  ∀ pre x post, listing f = pre ++ x :: post → x.Calls "dma_alloc_coherent" →
    ∃ y ∈ post, y.Calls "iommu_map"

theorem paired_iff (f : Function) : Paired f ↔ ∀ pre x post, ¬ Unpaired f pre x post := by
  unfold Paired Unpaired
  refine forall_congr' fun pre => forall_congr' fun x => forall_congr' fun post => ?_
  rw [not_and, not_and]
  refine imp_congr_right fun _ => imp_congr_right fun _ => ?_
  push Not
  rfl

/-- What require-iommu asks of the maps at the end. -/
theorem iommuEnforced_pass {e : Env} (hp : e.dmaPolicy = .requireIommu) {s : St}
    (h : iommuEnforced e s = .pass) : s.maps.dmaAllocsInFunc ⊆ s.maps.iommuMappedInFunc := by
  intro id hid
  unfold iommuEnforced at h
  rw [hp] at h
  simp only at h
  split at h
  · exact nomatch h
  · next hnone =>
      have := List.find?_eq_none.mp hnone id ((e.host.mem_setOrder _ _).mpr hid)
      simpa using this

/-- In a passing scan `dma_alloc_coherent` has a literal size. -/
theorem visited_dmaAlloc {e : Env} {gate : HitlGate} (hp : e.dmaPolicy ≠ .ignore)
    (h : (scanModule e gate).finalResult = .pass) {v : Site × St} (hv : v ∈ scanVisits e gate)
    {c : Call} (hi : v.1.instr = .call c) (hc : functionNameOfCall c = some "dma_alloc_coherent") :
    ∃ size, AllocatesDma e.dmaPolicy v v.2.maps.allocCounter size := by
  obtain ⟨hlive, -⟩ := visited_inv hv
  obtain ⟨-, s', hnext, hpass⟩ := scanVisits_pass h hv
  have hfail : ¬ v.2.finalResult.isFail = true := hlive
  have harm : callArm e.dmaPolicy (functionNameOfCall c) = .dmaAlloc :=
    callArm_eq_dmaAlloc.mpr ⟨hp, hc⟩
  have hstep : stepInstr e v.1 v.2 = stepDmaAlloc v.1 c v.2 := by
    unfold stepInstr
    rw [hi]
    show stepCall e v.1 c v.2 = _
    rw [stepCall, if_neg hfail, harm]
  rw [hstep] at hnext
  cases hsize : c.arguments[1]?.bind operandConstU64 with
  | some size => exact ⟨size, hp, rfl, c, hi, hc, hsize⟩
  | none =>
      unfold stepDmaAlloc at hnext
      cases harg : c.arguments[1]? with
      | none =>
          rw [harg] at hnext
          obtain rfl := Flow.next.inj hnext
          exact absurd hpass (markUnknown_ne_pass _ _)
      | some sizeOp =>
          rw [harg, Option.bind_some] at hsize
          rw [harg] at hnext
          simp only [hsize] at hnext
          obtain rfl := Flow.next.inj hnext
          exact absurd hpass (markUnknown_ne_pass _ _)

/-- An allocation that passes is followed by an `iommu_map` somewhere in the rest of the
    module, in whatever function. -/
theorem later_iommuMap {e : Env} {gate : HitlGate} (hp : e.dmaPolicy = .requireIommu)
    (h : (scanModule e gate).finalResult = .pass)
    (hmapped : iommuEnforced e (scanModule e gate) = .pass)
    {pre post : List Instruction} {c : Call}
    (hsplit : e.module.functions.flatMap Function.instrs = pre ++ .call c :: post)
    (hc : functionNameOfCall c = some "dma_alloc_coherent") :
    ∃ d, .call d ∈ post ∧ functionNameOfCall d = some "iommu_map" := by
  have hall := scanModule_visits (not_failed_of_pass h)
  rw [← sites_instrs, ← hall, List.map_map] at hsplit
  obtain ⟨p, rest, hvisits, -, hrest⟩ := List.map_eq_append_iff.mp hsplit
  obtain ⟨v, q, rfl, hi, rfl⟩ := List.map_eq_cons_iff.mp hrest
  have hv : v ∈ scanVisits e gate := by
    rw [hvisits]
    exact List.mem_append_right _ List.mem_cons_self
  have hpolicy : e.dmaPolicy ≠ .ignore := by rw [hp]; decide
  obtain ⟨size, hal⟩ := visited_dmaAlloc hpolicy h hv hi hc
  have hist := (scan_history e gate).2 (not_failed_of_pass h)
  have hid := iommuEnforced_pass hp hmapped (hist.size v hv _ size hal).1
  obtain ⟨u, hu, d, hd, hname⟩ := (hist.iommu p v q hvisits _ size hal).mp hid
  exact ⟨d, List.mem_map.mpr ⟨u, hu, hd⟩, hname⟩

/-- **require-iommu.**  What passes is paired within its functions if and only if every
    unpaired allocation is a `Call` instruction that no later function rescues with an
    `iommu_map` of its own. -/
theorem iommu_pairing_iff (m : Module) (host : Host) (gate : HitlGate) (asmP : InlineAsmPolicy)
    (h : (analyze m host gate asmP .requireIommu).1.result = .pass) :
    (∀ f ∈ m.functions, Paired f)
      ↔ ∀ fs f gs, m.functions = fs ++ f :: gs → ∀ pre x post, Unpaired f pre x post →
          x.instruction.isSome
            ∧ ∀ g ∈ gs, ∀ c ∈ callsOf g, functionNameOfCall c ≠ some "iommu_map" := by
  constructor
  · intro hpaired fs f gs hm pre x post hx
    refine absurd hx ((paired_iff f).mp (hpaired f ?_) pre x post)
    rw [hm]
    exact List.mem_append_right _ List.mem_cons_self
  · intro hcond f hf
    rw [paired_iff]
    intro pre x post hx
    obtain ⟨fs, gs, hm⟩ := List.append_of_mem hf
    obtain ⟨hinstr, hlater⟩ := hcond fs f gs hm pre x post hx
    obtain ⟨hlist, hcall, hpost⟩ := hx
    cases x with
    | term t => exact nomatch hinstr
    | instr i =>
        obtain ⟨c, rfl, hc⟩ := calls_instr.mp hcall
        have hsplit : m.functions.flatMap Function.instrs
            = (fs.flatMap Function.instrs ++ pre.filterMap Item.instruction)
              ++ .call c :: (post.filterMap Item.instruction ++ gs.flatMap Function.instrs) := by
          rw [hm, List.flatMap_append, List.flatMap_cons, ← listing_instrs f, hlist,
            List.filterMap_append,
            List.filterMap_cons_some (show (Item.instr (.call c)).instruction = _ from rfl)]
          simp only [List.append_assoc, List.cons_append]
        -- the `iommu_map` that made it pass is after it: in `f`, or in a later function
        obtain ⟨d, hd, hname⟩ := later_iommuMap (e := mkEnv m host asmP .requireIommu) rfl
          (scan_pass_of_analyze h) h hsplit hc
        rcases List.mem_append.mp hd with hd | hd
        · obtain ⟨y, hy, hyd⟩ := List.mem_filterMap.mp hd
          cases y with
          | term t => exact nomatch hyd
          | instr j =>
              obtain rfl := Option.some.inj hyd
              exact hpost _ hy (calls_instr.mpr ⟨d, rfl, hname⟩)
        · obtain ⟨g, hg, hd⟩ := List.mem_flatMap.mp hd
          exact hlater g hg d (List.mem_filterMap.mpr ⟨_, hd, rfl⟩) hname

/-- One buffer, allocated and mapped in one function. -/
def mappedDriver : Module := Module.ofFunctions [
  Function.ofBlocks "dma_module_init" [([
    .call (.direct "dma_alloc_coherent" [.ptr "dev", .lit 64 64] (some (.name "buf"))),
    .call (.direct "iommu_map" [.ptr "buf"] none)], .ret none)]]

theorem mappedDriver_paired :
    (analyze mappedDriver (sortedHost evalSolver) (.fresh .off ∅ ∅) .trap .requireIommu).1.result
        = .pass
      ∧ ∀ f ∈ mappedDriver.functions, Paired f := by
  refine ⟨by decide +kernel, ?_⟩
  refine (iommu_pairing_iff mappedDriver (sortedHost evalSolver) (.fresh .off ∅ ∅) .trap
    (by decide +kernel)).mpr ?_
  intro fs f gs hm pre x post ⟨hlist, hcall, _⟩
  have hlast : gs = [] ∧ mappedDriver.functions = [f] := by
    cases fs with
    | nil => exact ⟨(List.cons.inj hm).2.symm, by rw [hm, ← (List.cons.inj hm).2]; rfl⟩
    | cons g fs => exact absurd (List.cons.inj hm).2.symm (by simp)
  obtain ⟨rfl, hf⟩ := hlast
  refine ⟨?_, fun g hg => (nomatch hg)⟩
  cases x with
  | instr i => rfl
  | term t =>
      have ht : Item.term t ∈ listing f := by
        rw [hlist]
        exact List.mem_append_right _ List.mem_cons_self
      obtain rfl := (List.cons.inj hf).1
      have hret : t = .ret none := by
        simpa [listing, blockListing, Function.ofBlocks] using ht
      rw [hret] at hcall
      exact nomatch hcall

/-- `rx_init` leaves its buffer unmapped; a function listed later maps another one. -/
def unpairedDriver : Module := Module.ofFunctions [
  Function.ofBlocks "rx_init" [([
    .call (.direct "dma_alloc_coherent" [.ptr "dev", .lit 64 64] (some (.name "rx")))], .ret none)],
  Function.ofBlocks "tx_map" [([.call (.direct "iommu_map" [.ptr "tx"] none)], .ret none)]]

theorem unpairedDriver_passes :
    (analyze unpairedDriver (sortedHost evalSolver) (.fresh .off ∅ ∅) .conservative
        .requireIommu).1.result = .pass
      ∧ ∃ f ∈ unpairedDriver.functions, f.name = "rx_init" ∧ ¬ Paired f := by
  refine ⟨by decide +kernel, _, .head _, rfl, fun hpaired => ?_⟩
  obtain ⟨y, hy, hmap⟩ := hpaired [] _ _ rfl rfl
  obtain rfl := List.mem_singleton.mp hy
  exact nomatch hmap

end SkvCallSite

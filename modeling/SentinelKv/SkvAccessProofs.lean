import SentinelKv.SkvHistoryProofs
import SentinelKv.SkvPlanProofs

/-!
# Accesses, by kind and by provenance

Five instructions go through a pointer: `Load`, `Store`, `memset`, `memcpy` (twice) and
`dma_map_single`.  Each has its own copy of the checking code, and the copies differ in what
they look at.  Two laws range over the whole table of kinds and provenances.

* An access that may race with a handler's `kfree` raises an IRQ race condition.
  **`irq_race_flagged_iff`**: only `Load` and `Store` consult `has_irq_risk`, so a passing run
  kept away from tracked memory if and only if its `memset`, `memcpy` and `dma_map_single` did.
* DMA memory gets what kmalloc memory gets.  **`dma_parity_iff`**: `memset` and `memcpy` pass
  over DMA pointers, and `dma_map_single` over the freed set, so nothing but the program itself
  keeps the former inside the buffer and the latter away from released memory.
-/

namespace SkvAccess

open BreakLoop SkvIr SkvTypeSize SkvGate SkvAnalyze SkvTransfer SkvPlan SkvMapsInv SkvCertify
open SkvHistory

-- ── The accesses of an instruction ───────────────────────────────────────────────

inductive AccessKind where
  | load | store | memset | memcpyDestination | memcpySource | dmaMap
deriving DecidableEq, Repr

/-- One access: the pointer operand, and the number of bytes if the code can tell it. -/
structure Access where
  kind    : AccessKind
  pointer : Operand
  size    : Option UInt64

def callAccesses (dma : DmaPolicy) (call : Call) : List Access :=
  let len := call.arguments[2]?.bind operandConstU64
  match callArm dma (functionNameOfCall call) with
  | .memset => (call.arguments.head?.map (fun op => ⟨.memset, op, len⟩)).toList
  | .memcpy =>
      (call.arguments.head?.map (fun op => ⟨.memcpyDestination, op, len⟩)).toList
        ++ (call.arguments[1]?.map (fun op => ⟨.memcpySource, op, len⟩)).toList
  | .dmaMap => (call.arguments[1]?.map (fun op => ⟨.dmaMap, op, len⟩)).toList
  | _ => []

def accesses (m : Module) (dma : DmaPolicy) : Instruction → List Access
  | .load address loadedTy _ => [⟨.load, address, typeSize m loadedTy⟩]
  | .store address value => [⟨.store, address, typeSize m value.typeOf⟩]
  | .call call => callAccesses dma call
  | _ => []

/-- The pointer is a local bound to an allocation of either kind. -/
def Tracked (t : Maps) (a : Access) : Prop :=
  (((operandLocalName a.pointer).bind t.ptrEnv).bind ptrvalAllocInfo).isSome = true

instance (t : Maps) (a : Access) : Decidable (Tracked t a) := inferInstanceAs (Decidable (_ = true))

theorem Tracked.at {t : Maps} {a : Access} (h : Tracked t a) :
    ∃ id off, TrackedAt t a.pointer id off := by
  obtain ⟨⟨id, off⟩, hinfo⟩ := Option.isSome_iff_exists.mp h
  exact ⟨id, off, hinfo⟩

-- ── IRQ races ────────────────────────────────────────────────────────────────────

/-- The step records an IRQ race condition and lowers the result. -/
def RaceFlagged (e : Env) (v : Site × St) : Prop :=
  (stepInstr e v.1 v.2).state.irqRaceVcs = v.2.irqRaceVcs + 1
    ∧ (stepInstr e v.1 v.2).state.finalResult ≠ .pass

/-- The texts of the two kinds with an IRQ check. -/
def memoryText (site : Site) : AccessKind → Option AccessText
  | .load => some (loadText site)
  | .store => some (storeText site)
  | _ => none

/-- The IRQ check is reached: a `Load` or `Store` of a known size to a live allocation that the
    bounds check does not refuse. -/
def RaceConsulted (e : Env) (v : Site × St) (a : Access) : Prop :=
  ∃ txt id off n allocSize, memoryText v.1 a.kind = some txt ∧ TrackedAt v.2.maps a.pointer id off
    ∧ id ∉ v.2.maps.freedAllocs ∧ a.size = some n ∧ v.2.maps.allocSizes id = some allocSize
    ∧ (checkAccess e.host.z3 allocSize off n (v.1.vcId txt.kind) (vcClassId txt.kind n)
        v.2.gate).1 ≠ .oob

/-- Only the IRQ check counts IRQ races. -/
theorem exec_irqRaceVcs (z3 : Solver) {x : Effect} (hx : x ≠ .count .irqRace) (v : Verdict) :
    (exec z3 x v).state.irqRaceVcs = v.irqRaceVcs := by
  have hcounts : ∀ (txt : CheckText) (v : Verdict), (txt.counts v).irqRaceVcs = v.irqRaceVcs := by
    intro txt v
    unfold CheckText.counts
    split <;> rfl
  cases x with
  | count c =>
      cases c with
      | irqRace => exact absurd rfl hx
      | _ => rfl
  | ask vc cls reasons => cases reasons <;> rfl
  | check vc cls allocSize offset size txt =>
      simp only [exec]
      split
      · exact hcounts txt _
      · rfl
      · exact hcounts txt _
      · exact hcounts txt _
  | _ => rfl

theorem forLoop_irqRaceVcs (z3 : Solver) : ∀ (xs : List Effect) (v : Verdict),
    Effect.count .irqRace ∉ xs → (forLoop (exec z3) xs v).irqRaceVcs = v.irqRaceVcs := by
  intro xs
  induction xs with
  | nil => intro v _; rfl
  | cons x xs ih =>
      intro v hxs
      have hx : x ≠ .count .irqRace := fun h => hxs (h ▸ List.mem_cons_self)
      have hrest : Effect.count .irqRace ∉ xs := fun h => hxs (List.mem_cons_of_mem x h)
      have hstep := exec_irqRaceVcs z3 hx v
      cases hb : exec z3 x v with
      | next v' =>
          rw [hb] at hstep
          rw [forLoop_cons_next hb, ih v' hrest]
          exact hstep
      | brk v' =>
          rw [hb] at hstep
          rw [forLoop_cons_brk hb]
          exact hstep

/-- No call counts an IRQ race. -/
theorem callEffects_no_race (e : Env) (site : Site) (call : Call) (t : Maps) :
    Effect.count .irqRace ∉ callEffects e site call t := by
  have hregion : ∀ txt op len, Effect.count .irqRace ∉ regionEffects site txt t op len := by
    intro txt op len
    unfold regionEffects accessEffects
    repeat' split
    all_goals simp
  unfold callEffects
  split
  · unfold kmallocEffects; repeat' split
    all_goals simp
  · unfold kcallocEffects; repeat' split
    all_goals simp
  · unfold kfreeEffects; repeat' split
    all_goals simp
  · unfold memsetEffects; repeat' split
    all_goals simp [hregion]
  · unfold memcpyEffects; repeat' split
    all_goals simp [hregion]
  · unfold unnamedEffects; repeat' split
    all_goals simp
  · unfold dmaAllocEffects; repeat' split
    all_goals simp
  · unfold dmaMapEffects; repeat' split
    all_goals simp
  · simp
  · simp

/-- A bounds check breaks exactly when its answer is `Oob`. -/
theorem exec_check_flow (z3 : Solver) (vc cls : String) (allocSize off : Z3Int) (n : UInt64)
    (txt : CheckText) (v : Verdict) :
    let answer := (checkAccess z3 allocSize off n vc cls v.gate).1
    (answer = .oob ∧ ∃ v', exec z3 (.check vc cls allocSize off n txt) v = .brk v'
        ∧ v'.finalResult ≠ .pass)
      ∨ (answer ≠ .oob ∧ ∃ v', exec z3 (.check vc cls allocSize off n txt) v = .next v') := by
  simp only [exec]
  cases (checkAccess z3 allocSize off n vc cls v.gate).1 with
  | oob => exact Or.inl ⟨rfl, _, rfl, by simp [Verdict.fail]⟩
  | safe => exact Or.inr ⟨by simp, _, rfl⟩
  | solverUnknown => exact Or.inr ⟨by simp, _, rfl⟩
  | hitlBlocked => exact Or.inr ⟨by simp, _, rfl⟩

/-- The IRQ check counts and marks, whatever the gate answers. -/
theorem irqEffects_race {e : Env} (hirq : e.hasIrqRisk = true) (site : Site) (kind : String)
    (id : Nat) (v : Verdict) :
    (forLoop (exec e.host.z3) (irqEffects e site kind id) v).finalResult ≠ .pass
      ∧ (forLoop (exec e.host.z3) (irqEffects e site kind id) v).irqRaceVcs
        = v.irqRaceVcs + 1 := by
  simp only [irqEffects, hirq, if_true]
  exact ⟨markUnknown_ne_pass _ _, rfl⟩

/-- **A guarded access under IRQ risk**: the result is lowered whatever happens, and the race is
    counted if the checks in front let the access through. -/
theorem accessEffects_race {e : Env} (hirq : e.hasIrqRisk = true) (site : Site) (txt : AccessText)
    (kind : String) {t : Maps} {id : Nat} (off : Z3Int) {allocSize : Z3Int} (size : Option UInt64)
    (halloc : t.allocSizes id = some allocSize) (v : Verdict) :
    let v' := forLoop (exec e.host.z3)
      (accessEffects site txt t id off size (irqEffects e site kind id)) v
    v'.finalResult ≠ .pass
      ∧ (v'.irqRaceVcs = v.irqRaceVcs + 1 ↔ id ∉ t.freedAllocs ∧ ∃ n, size = some n
        ∧ (checkAccess e.host.z3 allocSize off n (site.vcId txt.kind) (vcClassId txt.kind n)
            v.gate).1 ≠ .oob) := by
  intro v'
  have hne : ¬ v.irqRaceVcs = v.irqRaceVcs + 1 := Nat.ne_of_lt (Nat.lt_succ_self _)
  by_cases hfreed : id ∈ t.freedAllocs
  · have hv' : v' = v.fail txt.useAfterFree := by
      simp only [v', accessEffects, if_pos hfreed]
      rfl
    rw [hv']
    exact ⟨by simp [Verdict.fail], fun h => absurd h hne, fun h => absurd hfreed h.1⟩
  cases size with
  | none =>
      have hv' : v' = v.mark txt.unsized := by
        simp only [v', accessEffects, if_neg hfreed]
        rfl
      rw [hv']
      refine ⟨markUnknown_ne_pass _ _, fun h => absurd h hne, ?_⟩
      rintro ⟨-, n, hn, -⟩
      cases hn
  | some n =>
      obtain ⟨txt', heffects⟩ : ∃ txt', accessEffects site txt t id off (some n)
          (irqEffects e site kind id) = .check (site.vcId txt.kind) (vcClassId txt.kind n)
            allocSize off n txt' :: irqEffects e site kind id := by
        simp only [accessEffects, if_neg hfreed, halloc]
        exact ⟨_, rfl⟩
      have hcount := exec_irqRaceVcs e.host.z3 (x := .check (site.vcId txt.kind)
        (vcClassId txt.kind n) allocSize off n txt') (by simp) v
      simp only [v', heffects]
      rcases exec_check_flow e.host.z3 (site.vcId txt.kind) (vcClassId txt.kind n) allocSize off n
        txt' v with ⟨hoob, w, hw, hfail⟩ | ⟨hoob, w, hw⟩
      · rw [forLoop_cons_brk hw]
        rw [hw] at hcount
        refine ⟨hfail, fun h => absurd (hcount.symm.trans h) hne, ?_⟩
        rintro ⟨-, n', hn, hok⟩
        obtain rfl := Option.some.inj hn
        exact absurd hoob hok
      · rw [forLoop_cons_next hw]
        rw [hw] at hcount
        obtain ⟨hmark, hrace⟩ := irqEffects_race hirq site kind id w
        refine ⟨hmark, fun _ => ⟨hfreed, n, rfl, hoob⟩, fun _ => ?_⟩
        rw [hrace, show w.irqRaceVcs = v.irqRaceVcs from hcount]

/-- The effects of a `Load` or `Store` through a tracked pointer are those of a guarded
    access. -/
theorem effects_memory {e : Env} {site : Site} {t : Maps} {a : Access} {txt : AccessText}
    (hfresh : ∀ d, site.instr.tryGetResult = some d → d ∉ site.instr.uses)
    (ha : a ∈ accesses e.module e.dmaPolicy site.instr) (htxt : memoryText site a.kind = some txt)
    {id : Nat} {off : Z3Int} (ht : TrackedAt t a.pointer id off) :
    ∃ t' kind, t'.freedAllocs = t.freedAllocs ∧ t'.allocSizes = t.allocSizes
      ∧ effects e site t = accessEffects site txt t' id off a.size (irqEffects e site kind id) := by
  cases hi : site.instr with
  | load address loadedTy dest =>
      rw [hi] at ha hfresh
      obtain rfl := List.mem_singleton.mp ha
      obtain rfl := Option.some.inj htxt
      obtain ⟨pv, hpv, hinfo⟩ := Option.bind_eq_some_iff.mp ht
      obtain ⟨n, hn, hbound⟩ := Option.bind_eq_some_iff.mp hpv
      have hne : n ≠ dest := by
        rintro rfl
        exact hfresh n rfl (List.mem_filterMap.mpr ⟨address, List.mem_cons_self, hn⟩)
      obtain ⟨hptr, hfreed, hsizes⟩ := reload_frame t n hne
      refine ⟨t.reload n dest, "load", hfreed, hsizes, ?_⟩
      simp only [effects, hi, show operandLocalName address = some n from hn, memoryEffects, hptr,
        hbound, Option.bind_some, hinfo]
  | store address value =>
      rw [hi] at ha
      obtain rfl := List.mem_singleton.mp ha
      obtain rfl := Option.some.inj htxt
      obtain ⟨pv, hpv, hinfo⟩ := Option.bind_eq_some_iff.mp ht
      obtain ⟨n, hn, hbound⟩ := Option.bind_eq_some_iff.mp hpv
      obtain ⟨hptr, hfreed, hsizes⟩ := spill_frame t n value
      refine ⟨t.spill n value, "store", hfreed, hsizes, ?_⟩
      simp only [effects, hi, show operandLocalName address = some n from hn, memoryEffects, hptr,
        hbound, Option.bind_some, hinfo]
  | call call =>
      rw [hi] at ha
      have hkind : memoryText site a.kind = none := by
        simp only [accesses, callAccesses] at ha
        split at ha
        all_goals simp only [List.mem_append, Option.mem_toList,
          Option.map_eq_some_iff, List.not_mem_nil] at ha
        · obtain ⟨op, -, rfl⟩ := ha; rfl
        · rcases ha with ⟨op, -, rfl⟩ | ⟨op, -, rfl⟩ <;> rfl
        · obtain ⟨op, -, rfl⟩ := ha; rfl
      rw [hkind] at htxt
      cases htxt
  | _ =>
      rw [hi] at ha
      cases ha

section Race

variable {e : Env} {v : Site × St} {a : Access}

theorem step_irqRaceVcs (hs : ¬ Failed v.2) : (stepInstr e v.1 v.2).state.irqRaceVcs
    = (forLoop (exec e.host.z3) (effects e v.1 v.2.maps) (verdict v.2)).irqRaceVcs :=
  congrArg Verdict.irqRaceVcs (stepInstr_verdict e v.1 hs)

/-- A tracked `Load` or `Store` under IRQ risk. -/
theorem memory_race (hirq : e.hasIrqRisk = true) (hs : ¬ Failed v.2) (hinv : MapsInv v.2.maps)
    (hfresh : ∀ d, v.1.instr.tryGetResult = some d → d ∉ v.1.instr.uses)
    (ha : a ∈ accesses e.module e.dmaPolicy v.1.instr) {txt : AccessText}
    (htxt : memoryText v.1 a.kind = some txt) (ht : Tracked v.2.maps a) :
    (stepInstr e v.1 v.2).state.finalResult ≠ .pass
      ∧ ((stepInstr e v.1 v.2).state.irqRaceVcs = v.2.irqRaceVcs + 1 ↔ RaceConsulted e v a) := by
  obtain ⟨id, off, hat⟩ := ht.at
  obtain ⟨t', kind, hfreed, hsizes, heffects⟩ := effects_memory hfresh ha htxt hat
  obtain ⟨allocSize, halloc⟩ : ∃ allocSize, v.2.maps.allocSizes id = some allocSize := by
    obtain ⟨pv, hpv, hinfo⟩ := Option.bind_eq_some_iff.mp hat
    obtain ⟨n, -, hbound⟩ := Option.bind_eq_some_iff.mp hpv
    exact hinv.size_of_tracked (n := n) (by rw [hbound]; exact hinfo)
  obtain ⟨hres, hrace⟩ := accessEffects_race hirq v.1 txt kind off a.size
    (by rw [hsizes]; exact halloc) (verdict v.2)
  rw [← heffects] at hres hrace
  refine ⟨?_, ?_⟩
  · rw [show (stepInstr e v.1 v.2).state.finalResult
      = (verdict (stepInstr e v.1 v.2).state).finalResult from rfl, stepInstr_verdict e v.1 hs]
    exact hres
  rw [step_irqRaceVcs hs]
  refine hrace.trans ?_
  rw [hfreed]
  constructor
  · rintro ⟨hlive, n, hn, hoob⟩
    exact ⟨txt, id, off, n, allocSize, htxt, hat, hlive, hn, halloc, hoob⟩
  · rintro ⟨txt', id', off', n, allocSize', htxt', hat', hlive, hn, halloc', hoob⟩
    obtain rfl := Option.some.inj (htxt.symm.trans htxt')
    obtain ⟨rfl, rfl⟩ := Prod.mk.inj (Option.some.inj (hat.symm.trans hat'))
    obtain rfl := Option.some.inj (halloc.symm.trans halloc')
    exact ⟨hlive, n, hn, hoob⟩

/-- Any other access leaves the IRQ counter alone. -/
theorem call_race (hs : ¬ Failed v.2) (ha : a ∈ accesses e.module e.dmaPolicy v.1.instr)
    (hkind : memoryText v.1 a.kind = none) :
    (stepInstr e v.1 v.2).state.irqRaceVcs = v.2.irqRaceVcs := by
  rw [step_irqRaceVcs hs]
  cases hi : v.1.instr with
  | call call =>
      simp only [effects, hi]
      exact forLoop_irqRaceVcs _ _ _ (callEffects_no_race e v.1 call v.2.maps)
  | load address loadedTy dest =>
      rw [hi] at ha
      obtain rfl := List.mem_singleton.mp ha
      cases hkind
  | store address value =>
      rw [hi] at ha
      obtain rfl := List.mem_singleton.mp ha
      cases hkind
  | _ =>
      rw [hi] at ha
      cases ha

/-- **The step.**  An access to tracked memory is flagged if and only if the IRQ check is
    reached. -/
theorem race_flagged_iff (hirq : e.hasIrqRisk = true) (hs : ¬ Failed v.2) (hinv : MapsInv v.2.maps)
    (hfresh : ∀ d, v.1.instr.tryGetResult = some d → d ∉ v.1.instr.uses)
    (ha : a ∈ accesses e.module e.dmaPolicy v.1.instr) (ht : Tracked v.2.maps a) :
    RaceFlagged e v ↔ RaceConsulted e v a := by
  cases htxt : memoryText v.1 a.kind with
  | some txt =>
      obtain ⟨hres, hrace⟩ := memory_race hirq hs hinv hfresh ha htxt ht
      rw [← hrace]
      exact ⟨fun h => h.1, fun h => ⟨h, hres⟩⟩
  | none =>
      constructor
      · rintro ⟨hcount, -⟩
        rw [call_race hs ha htxt] at hcount
        exact absurd hcount (Nat.ne_of_lt (Nat.lt_succ_self _))
      · rintro ⟨txt, id, off, n, allocSize, htxt', -⟩
        rw [htxt] at htxt'
        exact nomatch htxt'

end Race

/-- The instruction does not read the name it defines.  A `Load` that does rebinds its address
    before it looks the address up. -/
def ResultFresh (i : Instruction) : Prop := ∀ d, i.tryGetResult = some d → d ∉ i.uses

/-- The accesses that come with an IRQ check. -/
def HasIrqCheck (i : Instruction) (a : Access) : Prop :=
  (a.kind = .load ∨ a.kind = .store) ∧ ResultFresh i

/-- **IRQ races of a run.**  With a registered handler that frees: a processed access to tracked
    memory is flagged if and only if it is a `Load` or `Store` that gets as far as the IRQ check;
    and a passing run has processed no access to tracked memory if and only if it has processed
    none without an IRQ check: no such `memset`, `memcpy` or `dma_map_single`. -/
theorem irq_race_flagged_iff {m : Module} (hirq : scanIrqHandlers m ≠ []) (host : Host)
    (gate : HitlGate) (asmP : InlineAsmPolicy) (dmaP : DmaPolicy) :
    let e := mkEnv m host asmP dmaP
    (∀ v ∈ scanVisits e gate, ResultFresh v.1.instr → ∀ a ∈ accesses m dmaP v.1.instr,
        Tracked v.2.maps a → (RaceFlagged e v ↔ RaceConsulted e v a))
      ∧ ((analyze m host gate asmP dmaP).1.result = .pass →
        ((∀ v ∈ scanVisits e gate, ∀ a ∈ accesses m dmaP v.1.instr, ¬ Tracked v.2.maps a) ↔
          ∀ v ∈ scanVisits e gate, ∀ a ∈ accesses m dmaP v.1.instr,
            ¬ HasIrqCheck v.1.instr a → ¬ Tracked v.2.maps a)) := by
  intro e
  have hrisk : e.hasIrqRisk = true := by
    show (!(scanIrqHandlers m).isEmpty) = true
    cases h : scanIrqHandlers m with
    | nil => exact absurd h hirq
    | cons x xs => rfl
  refine ⟨?_, ?_⟩
  · intro v hv hfresh a ha ht
    obtain ⟨hs, hinv⟩ := visited_inv hv
    exact race_flagged_iff hrisk hs hinv hfresh ha ht
  · intro hpass
    refine ⟨fun h v hv a ha _ => h v hv a ha, ?_⟩
    intro h v hv a ha ht
    by_cases hcheck : HasIrqCheck v.1.instr a
    · -- a tracked `Load` or `Store` would have lowered the result
      obtain ⟨txt, htxt⟩ : ∃ txt, memoryText v.1 a.kind = some txt := by
        rcases hcheck.1 with hk | hk
        all_goals rw [hk]; exact ⟨_, rfl⟩
      obtain ⟨hs, hinv⟩ := visited_inv hv
      obtain ⟨-, s', hnext, hp⟩ := scanVisits_pass (scan_pass_of_analyze hpass) hv
      have hlow := (memory_race hrisk hs hinv hcheck.2 ha htxt ht).1
      rw [hnext] at hlow
      exact absurd hp hlow
    · exact h v hv a ha hcheck ht

/-- `tests/irq_driver.c`: the handler frees, the main path stores. -/
def irqDriver : Module := Module.ofFunctions [
  Function.ofBlocks "my_irq_handler" [([
    .call (.direct "kfree" [.ptr "dev_id"] none)], .ret none)],
  Function.ofBlocks "irq_module_init" [([
    .call (.direct "kmalloc" [.lit 64 8, .lit 32 0] (some (.name "state"))),
    .call (.direct "request_irq" [.lit 32 10,
      .constantOperand (.globalReference (.name "my_irq_handler")), .lit 64 128]
      (some (.name "ret"))),
    .store (.ptr "state") (.lit 32 42)], .ret none)]]

theorem irqDriver_flagged :
    ∃ v ∈ scanVisits (mkEnv irqDriver (sortedHost evalSolver) .conservative .verify)
        (.fresh .off ∅ ∅), ∃ a ∈ accesses irqDriver .verify v.1.instr, Tracked v.2.maps a ∧
      (RaceFlagged (mkEnv irqDriver (sortedHost evalSolver) .conservative .verify) v ↔
        RaceConsulted (mkEnv irqDriver (sortedHost evalSolver) .conservative .verify) v a) := by
  have hrun : ∃ v ∈ scanVisits (mkEnv irqDriver (sortedHost evalSolver) .conservative .verify)
      (.fresh .off ∅ ∅), v.1.instr.tryGetResult = none
        ∧ ∃ a ∈ accesses irqDriver .verify v.1.instr, Tracked v.2.maps a := by
    decide +kernel
  obtain ⟨v, hv, hresult, a, ha, ht⟩ := hrun
  have hfresh : ResultFresh v.1.instr := by
    intro d hd
    rw [hresult] at hd
    cases hd
  exact ⟨v, hv, a, ha, ht, (irq_race_flagged_iff (m := irqDriver) (by decide)
    (sortedHost evalSolver) (.fresh .off ∅ ∅) .conservative .verify).1 v hv hfresh a ha ht⟩

/-- The same handler, and a main path that touches the state by the other three calls. -/
def quietDriver : Module := Module.ofFunctions [
  Function.ofBlocks "my_irq_handler" [([
    .call (.direct "kfree" [.ptr "dev_id"] none)], .ret none)],
  Function.ofBlocks "irq_module_init" [([
    .call (.direct "kmalloc" [.lit 64 8, .lit 32 0] (some (.name "state"))),
    .call (.direct "request_irq" [.lit 32 10,
      .constantOperand (.globalReference (.name "my_irq_handler")), .lit 64 128]
      (some (.name "ret"))),
    .call (.direct "memset" [.ptr "state", .lit 32 0, .lit 64 8] none),
    .call (.direct "memcpy" [.ptr "state", .ptr "state", .lit 64 8] none),
    .call (.direct "dma_map_single" [.ptr "dev", .ptr "state", .lit 64 8, .lit 32 0] none)],
    .ret none)]]

/-- It passes without a single IRQ race condition, and all three calls went through the state
    the handler may free. -/
theorem quietDriver_unflagged :
    scanIrqHandlers quietDriver ≠ []
      ∧ (analyze quietDriver (sortedHost evalSolver) (.fresh .off ∅ ∅) .conservative
          .verify).1.result = .pass
      ∧ (analyze quietDriver (sortedHost evalSolver) (.fresh .off ∅ ∅) .conservative
          .verify).1.irqRaceVcs = 0
      ∧ ∀ k ∈ [AccessKind.memset, .memcpyDestination, .memcpySource, .dmaMap],
          ∃ v ∈ scanVisits (mkEnv quietDriver (sortedHost evalSolver) .conservative .verify)
              (.fresh .off ∅ ∅),
            ∃ a ∈ accesses quietDriver .verify v.1.instr, a.kind = k ∧ Tracked v.2.maps a := by
  refine ⟨?_, ?_, ?_, ?_⟩
  all_goals decide +kernel

-- ── DMA memory ───────────────────────────────────────────────────────────────────

/-- `op` is a local bound to a DMA pointer. -/
def DmaAt (t : Maps) (op : Operand) (allocId : Nat) (offset : Z3Int) : Prop :=
  (operandLocalName op).bind t.ptrEnv = some (.dmaAlloc allocId offset)

/-- `memset` or `memcpy`. -/
def AccessKind.isRegion : AccessKind → Bool
  | .memset | .memcpyDestination | .memcpySource => true
  | _ => false

/-- DMA memory is treated as kmalloc memory is: `memset` and `memcpy` stay inside the buffer, and
    no released allocation is mapped. -/
structure DmaAlike (m : Module) (dma : DmaPolicy) (vs : List (Site × St)) : Prop where
  region : ∀ v ∈ vs, ∀ a ∈ accesses m dma v.1.instr, a.kind.isRegion = true →
    ∀ id off, DmaAt v.2.maps a.pointer id off → RegionOk v.2.maps id off a.size
  live   : ∀ v ∈ vs, ∀ a ∈ accesses m dma v.1.instr, a.kind = .dmaMap →
    ∀ id off, KmallocAt v.2.maps a.pointer id off → id ∉ v.2.maps.freedAllocs

/-- What the program has to see to itself: a literal length that fits the literal size of the
    `dma_alloc_coherent` behind the pointer, and no `kfree` in front of a `dma_map_single`. -/
structure DmaCareful (m : Module) (dma : DmaPolicy) (vs : List (Site × St)) : Prop where
  fits     : ∀ pre v post, vs = pre ++ v :: post → ∀ a ∈ accesses m dma v.1.instr,
    a.kind.isRegion = true → ∀ id off, DmaAt v.2.maps a.pointer id off →
      ∀ w ∈ pre, ∀ size, AllocatesDma dma w id size →
        ∃ n, a.size = some n ∧ 0 ≤ off.eval ∧ off.eval + n.toNat ≤ size.toNat
  unfreed  : ∀ pre v post, vs = pre ++ v :: post → ∀ a ∈ accesses m dma v.1.instr,
    a.kind = .dmaMap → ∀ id off, KmallocAt v.2.maps a.pointer id off →
      ∀ w ∈ pre, ¬ Releases w id

theorem trackedAt_cases {t : Maps} {op : Operand} {id : Nat} {off : Z3Int}
    (h : TrackedAt t op id off) : KmallocAt t op id off ∨ DmaAt t op id off := by
  obtain ⟨pv, hpv, hinfo⟩ := Option.bind_eq_some_iff.mp h
  cases pv with
  | kmalloc id' off' =>
      obtain ⟨rfl, rfl⟩ := Prod.mk.inj (Option.some.inj hinfo)
      exact Or.inl hpv
  | dmaAlloc id' off' =>
      obtain ⟨rfl, rfl⟩ := Prod.mk.inj (Option.some.inj hinfo)
      exact Or.inr hpv
  | unknown => exact nomatch hinfo

theorem DmaAt.tracked {t : Maps} {op : Operand} {id : Nat} {off : Z3Int}
    (h : DmaAt t op id off) : TrackedAt t op id off := by
  unfold TrackedAt
  rw [show (operandLocalName op).bind t.ptrEnv = _ from h]
  rfl

theorem KmallocAt.tracked {t : Maps} {op : Operand} {id : Nat} {off : Z3Int}
    (h : KmallocAt t op id off) : TrackedAt t op id off := by
  unfold TrackedAt
  rw [show (operandLocalName op).bind t.ptrEnv = _ from h]
  rfl

/-- A DMA pointer leads back to the call that returned its buffer, and the recorded size is that
    call's. -/
theorem dma_origin {dma : DmaPolicy} {pre : List (Site × St)} {t : Maps} (hH : History dma pre t)
    (hinv : MapsInv t) {op : Operand} {id : Nat} {off : Z3Int} (h : DmaAt t op id off) :
    ∃ w ∈ pre, ∃ size, AllocatesDma dma w id size ∧ t.allocSizes id = some (.fromU64 size) := by
  obtain ⟨n, -, hbound⟩ := Option.bind_eq_some_iff.mp h
  obtain ⟨w, hw, size, hal⟩ := hH.alloc id (hinv.ptrs n _ hbound)
  exact ⟨w, hw, size, hal, (hH.size w hw id size hal).2⟩

theorem dmaAlike_iff (e : Env) (gate : HitlGate) :
    DmaAlike e.module e.dmaPolicy (scanVisits e gate) ↔
      DmaCareful e.module e.dmaPolicy (scanVisits e gate) := by
  have hhist := (scan_history e gate).1
  constructor
  · intro h
    refine ⟨?_, ?_⟩
    · intro pre v post hvs a ha hk id off hdma w hw size hal
      have hv : v ∈ scanVisits e gate := by
        rw [hvs]
        exact List.mem_append_right _ List.mem_cons_self
      obtain ⟨n, allocSize, hn, hsize, hstart, hend⟩ := h.region v hv a ha hk id off hdma
      rw [((hhist pre v post hvs).size w hw id size hal).2] at hsize
      obtain rfl := Option.some.inj hsize
      exact ⟨n, hn, hstart, by simpa using hend⟩
    · intro pre v post hvs a ha hk id off hkm w hw hrel
      have hv : v ∈ scanVisits e gate := by
        rw [hvs]
        exact List.mem_append_right _ List.mem_cons_self
      exact h.live v hv a ha hk id off hkm (((hhist pre v post hvs).freed id).mpr ⟨w, hw, hrel⟩)
  · intro h
    refine ⟨?_, ?_⟩
    · intro v hv a ha hk id off hdma
      obtain ⟨pre, post, hvs⟩ := List.append_of_mem hv
      obtain ⟨w, hw, size, hal, hsize⟩ := dma_origin (hhist pre v post hvs) (visited_inv hv).2 hdma
      obtain ⟨n, hn, hstart, hend⟩ := h.fits pre v post hvs a ha hk id off hdma w hw size hal
      exact ⟨n, .fromU64 size, hn, hsize, hstart, by simpa using hend⟩
    · intro v hv a ha hk id off hkm hfreed
      obtain ⟨pre, post, hvs⟩ := List.append_of_mem hv
      obtain ⟨w, hw, hrel⟩ := ((hhist pre v post hvs).freed id).mp hfreed
      exact h.unfreed pre v post hvs a ha hk id off hkm w hw hrel

-- ── What a passing run checks ────────────────────────────────────────────────────

section Arms

variable {dma : DmaPolicy} {name : Option String}

theorem name_of_memset (h : callArm dma name = .memset) : name = some "memset" := by
  unfold callArm at h
  split at h
  · exact nomatch h
  · split_ifs at h with h1 h2 h3 h4
    rw [h4]

theorem name_of_memcpy (h : callArm dma name = .memcpy) :
    name = some "memcpy" ∨ name = some "__memcpy" := by
  unfold callArm at h
  split at h
  · exact nomatch h
  · split_ifs at h with h1 h2 h3 h4 h5
    rcases h5 with rfl | rfl
    · exact Or.inl rfl
    · exact Or.inr rfl

theorem name_of_dmaMap (h : callArm dma name = .dmaMap) :
    dma ≠ .ignore ∧ name = some "dma_map_single" := by
  unfold callArm at h
  split at h
  · exact nomatch h
  · split_ifs at h with h1 h2 h3 h4 h5 h6 h7
    exact ⟨h7.2, by rw [h7.1]⟩

end Arms

/-- A certified access: in order, or one of the two pairs the arms do not look at. -/
theorem certified_access {m : Module} {dma : DmaPolicy} {t : Maps} {i : Instruction}
    (hc : Certified m dma t i) {a : Access} (ha : a ∈ accesses m dma i) {id : Nat} {off : Z3Int}
    (ht : TrackedAt t a.pointer id off) :
    AccessOk t id off a.size ∨ (a.kind.isRegion = true ∧ DmaAt t a.pointer id off)
      ∨ (a.kind = .dmaMap ∧ RegionOk t id off a.size) := by
  cases i with
  | load address loadedTy dest =>
      obtain rfl := List.mem_singleton.mp ha
      exact Or.inl (hc id off ht)
  | store address value =>
      obtain rfl := List.mem_singleton.mp ha
      exact Or.inl (hc id off ht)
  | call call =>
      simp only [accesses, callAccesses] at ha
      split at ha
      all_goals simp only [List.mem_append, Option.mem_toList, Option.map_eq_some_iff,
        List.not_mem_nil] at ha
      · next harm =>
          obtain ⟨op, hop, rfl⟩ := ha
          rcases trackedAt_cases ht with hk | hd
          · exact Or.inl (hc.memset (name_of_memset harm) op hop id off hk)
          · exact Or.inr (Or.inl ⟨rfl, hd⟩)
      · next harm =>
          have htake : ∀ {op : Operand} (k : Nat), k < 2 → call.arguments[k]? = some op →
              op ∈ call.arguments.take 2 := by
            intro op k hk hop
            refine List.mem_of_getElem? (i := k) ?_
            rw [List.getElem?_take_of_lt hk]
            exact hop
          rcases ha with ⟨op, hop, rfl⟩ | ⟨op, hop, rfl⟩
          · rcases trackedAt_cases ht with hk | hd
            · refine Or.inl (hc.memcpy (name_of_memcpy harm) op (htake 0 (by decide) ?_) id off hk)
              rw [← List.head?_eq_getElem?]
              exact hop
            · exact Or.inr (Or.inl ⟨rfl, hd⟩)
          · rcases trackedAt_cases ht with hk | hd
            · exact Or.inl (hc.memcpy (name_of_memcpy harm) op (htake 1 (by decide) hop) id off hk)
            · exact Or.inr (Or.inl ⟨rfl, hd⟩)
      · next harm =>
          obtain ⟨op, hop, rfl⟩ := ha
          obtain ⟨hdma, hname⟩ := name_of_dmaMap harm
          exact Or.inr (Or.inr ⟨rfl, hc.dmaMap hdma hname op hop id off ht⟩)
  | _ => exact nomatch ha

/-- **DMA parity.**  In every run the two halves of the law hold if and only if the program sees to
    them itself.  In a passing run everything else has been checked: all accesses to tracked
    memory, of every kind and either provenance, are in order if and only if the two pairs the
    arms do not look at are. -/
theorem dma_parity_iff (m : Module) (host : Host) (gate : HitlGate) (asmP : InlineAsmPolicy)
    (dmaP : DmaPolicy) :
    let visited := scanVisits (mkEnv m host asmP dmaP) gate
    (DmaAlike m dmaP visited ↔ DmaCareful m dmaP visited)
      ∧ (ResultsFresh m → SolverSound host.z3 → (analyze m host gate asmP dmaP).1.result = .pass →
        ((∀ v ∈ visited, ∀ a ∈ accesses m dmaP v.1.instr, ∀ id off,
            TrackedAt v.2.maps a.pointer id off → AccessOk v.2.maps id off a.size) ↔
          DmaCareful m dmaP visited)) := by
  intro visited
  have hiff : DmaAlike m dmaP visited ↔ DmaCareful m dmaP visited :=
    dmaAlike_iff (mkEnv m host asmP dmaP) gate
  refine ⟨hiff, ?_⟩
  intro hfresh hz hpass
  rw [← hiff]
  constructor
  · intro h
    refine ⟨?_, ?_⟩
    · intro v hv a ha _ id off hd
      obtain ⟨n, allocSize, hn, -, hsize, hin⟩ := h v hv a ha id off hd.tracked
      exact ⟨n, allocSize, hn, hsize, hin⟩
    · intro v hv a ha _ id off hk
      obtain ⟨-, -, -, hlive, -⟩ := h v hv a ha id off (KmallocAt.tracked hk)
      exact hlive
  · intro h v hv a ha id off ht
    have hcert := visited_certified (e := mkEnv m host asmP dmaP) hz hfresh
      (scan_pass_of_analyze hpass) hv
    have hinv := (visited_inv hv).2
    have hdmaLive : DmaAt v.2.maps a.pointer id off → id ∉ v.2.maps.freedAllocs := by
      intro hd
      obtain ⟨n, -, hbound⟩ := Option.bind_eq_some_iff.mp hd
      exact hinv.dma_not_freed hbound
    rcases certified_access hcert ha ht with hok | ⟨hk, hd⟩ | ⟨hk, hregion⟩
    · exact hok
    · obtain ⟨n, allocSize, hn, hsize, hin⟩ := h.region v hv a ha hk id off hd
      exact ⟨n, allocSize, hn, hdmaLive hd, hsize, hin⟩
    · obtain ⟨n, allocSize, hn, hsize, hin⟩ := hregion
      refine ⟨n, allocSize, hn, ?_, hsize, hin⟩
      rcases trackedAt_cases ht with hkm | hd
      · exact h.live v hv a ha hk id off hkm
      · exact hdmaLive hd

/-- A DMA buffer cleared beyond its end, and a released buffer handed to the device. -/
def dmaDriver : Module := Module.ofFunctions [Function.ofBlocks "dma_module_init" [([
  .call (.direct "dma_alloc_coherent" [.ptr "dev", .lit 64 16, .ptr "handle", .lit 32 0]
    (some (.name "buf"))),
  .call (.direct "memset" [.ptr "buf", .lit 32 0, .lit 64 64] none),
  .call (.direct "iommu_map" [] none),
  .call (.direct "kmalloc" [.lit 64 8, .lit 32 0] (some (.name "p"))),
  .call (.direct "kfree" [.ptr "p"] none),
  .call (.direct "dma_map_single" [.ptr "dev", .ptr "p", .lit 64 8, .lit 32 0] none)],
  .ret none)]]

/-- It passes under both policies. -/
theorem dmaDriver_passes : (∀ dmaP ∈ [DmaPolicy.verify, .requireIommu],
      (analyze dmaDriver (sortedHost evalSolver) (.fresh .off ∅ ∅) .conservative dmaP).1.result
        = .pass)
    ∧ ∀ dmaP ∈ [DmaPolicy.verify, .requireIommu],
      (∃ v ∈ scanVisits (mkEnv dmaDriver (sortedHost evalSolver) .conservative dmaP)
            (.fresh .off ∅ ∅), ∃ a ∈ accesses dmaDriver dmaP v.1.instr, a.kind = .memset
          ∧ DmaAt v.2.maps a.pointer 0 (.fromU64 0) ∧ ¬ RegionOk v.2.maps 0 (.fromU64 0) a.size)
      ∧ ∃ v ∈ scanVisits (mkEnv dmaDriver (sortedHost evalSolver) .conservative dmaP)
            (.fresh .off ∅ ∅), ∃ a ∈ accesses dmaDriver dmaP v.1.instr, a.kind = .dmaMap
          ∧ KmallocAt v.2.maps a.pointer 1 (.fromU64 0) ∧ 1 ∈ v.2.maps.freedAllocs := by
  refine ⟨by decide +kernel, ?_⟩
  intro dmaP hdma
  have hregion : ∀ {t : Maps} {size : Option UInt64}, size = some 64 →
      t.allocSizes 0 = some (.fromU64 16) → ¬ RegionOk t 0 (.fromU64 0) size := by
    rintro t size rfl hsize ⟨n, allocSize, hn, hsize', -, hend⟩
    obtain rfl := Option.some.inj hn
    rw [hsize] at hsize'
    obtain rfl := Option.some.inj hsize'
    exact absurd hend (by decide)
  refine ⟨?_, ?_⟩
  · have hrun : ∃ v ∈ scanVisits (mkEnv dmaDriver (sortedHost evalSolver) .conservative dmaP)
        (.fresh .off ∅ ∅), ∃ a ∈ accesses dmaDriver dmaP v.1.instr, a.kind = .memset
          ∧ (operandLocalName a.pointer).bind v.2.maps.ptrEnv = some (.dmaAlloc 0 (.fromU64 0))
          ∧ a.size = some 64 ∧ v.2.maps.allocSizes 0 = some (.fromU64 16) := by
      revert dmaP
      decide +kernel
    obtain ⟨v, hv, a, ha, hk, hd, hsize, halloc⟩ := hrun
    exact ⟨v, hv, a, ha, hk, hd, hregion hsize halloc⟩
  · show ∃ v ∈ scanVisits (mkEnv dmaDriver (sortedHost evalSolver) .conservative dmaP)
        (.fresh .off ∅ ∅), ∃ a ∈ accesses dmaDriver dmaP v.1.instr, a.kind = .dmaMap
          ∧ (operandLocalName a.pointer).bind v.2.maps.ptrEnv = some (.kmalloc 1 (.fromU64 0))
          ∧ 1 ∈ v.2.maps.freedAllocs
    revert dmaP
    decide +kernel

end SkvAccess

import SentinelKv.SkvHitlProofs
import SentinelKv.SkvLookupProofs

/-!
# Off mode forgets positions

With the gate off, IDs and classes are only logged, so the result and the counters of a run
do not depend on where an instruction stands.  `anon` erases IDs, classes and the texts of
refusals from an effect, and a module is then no more than its **`codes`**: function names and
instructions in listing order.

* **`off_outcome_eq`** — modules with the same anonymous plan have the same result and the same
  counters in off mode;
* **`anonPlan_rename`** — the rule for two lists of instructions that differ by a renaming.
-/

namespace SkvOffMode

open BreakLoop SkvIr SkvTypeSize SkvGate SkvAnalyze SkvTransfer SkvPlan SkvHitl SkvLookup

-- ── Anonymous effects ────────────────────────────────────────────────────────────

def anon : Effect → Effect
  | .ask _ _ reasons => .ask "" "" (reasons.map (fun r => (r.1, "")))
  | .check _ _ allocSize offset size txt =>
      .check "" "" allocSize offset size { txt with blocked := "" }
  | .fail msg => .fail msg
  | .mark reason => .mark reason
  | .count c => .count c
  | .pair dmaAllocs iommuMapped => .pair dmaAllocs iommuMapped

/-- Two verdicts in off mode that differ in their logs only. -/
structure OffAlike (v v' : Verdict) : Prop where
  result    : v'.finalResult = v.finalResult
  inlineAsm : v'.inlineAsmVcs = v.inlineAsmVcs
  dma       : v'.dmaVcs = v.dmaVcs
  irqRace   : v'.irqRaceVcs = v.irqRaceVcs
  allocs    : v'.dmaAllocs = v.dmaAllocs
  mapped    : v'.iommuMapped = v.iommuMapped
  off       : v.gate.mode = .off
  off'      : v'.gate.mode = .off
  asked     : v'.gate.seen.length = v.gate.seen.length

section Alike

variable {v v' : Verdict}

theorem OffAlike.fail (h : OffAlike v v') (msg : String) : OffAlike (v.fail msg) (v'.fail msg) :=
  { h with result := rfl }

theorem OffAlike.mark (h : OffAlike v v') (reason : String) :
    OffAlike (v.mark reason) (v'.mark reason) :=
  { h with result := congrArg (fun r => markUnknown r reason) h.result }

theorem OffAlike.count (h : OffAlike v v') (c : Counter) :
    OffAlike (v.count c) (v'.count c) := by
  cases c with
  | inlineAsm => exact { h with inlineAsm := congrArg (· + 1) h.inlineAsm }
  | dma => exact { h with dma := congrArg (· + 1) h.dma }
  | irqRace => exact { h with irqRace := congrArg (· + 1) h.irqRace }

theorem OffAlike.counts (h : OffAlike v v') (txt : CheckText) (blocked : String) :
    OffAlike (txt.counts v) ({ txt with blocked := blocked }.counts v') := by
  unfold CheckText.counts
  split
  · exact h.count .dma
  · exact h

theorem OffAlike.log (h : OffAlike v v') (p p' : Vc) :
    OffAlike { v with gate := logAll v.gate [p] } { v' with gate := logAll v'.gate [p'] } :=
  { h with
    asked := by
      show (v'.gate.seen ++ [p'.1]).length = (v.gate.seen ++ [p.1]).length
      rw [List.length_append, List.length_append, h.asked]
      rfl }

/-- An effect and its anonymous form do the same in off mode. -/
theorem exec_anon (z3 : Solver) (x : Effect) (h : OffAlike v v') :
    (exec z3 x v).Rel OffAlike (exec z3 (anon x) v') := by
  cases x with
  | fail msg => exact h.fail msg
  | mark reason => exact h.mark reason
  | count c => exact h.count c
  | ask vc cls reasons =>
      have hp : Permits v.gate (vc, cls) := Or.inl h.off
      have hp' : Permits v'.gate ("", "") := Or.inl h.off'
      cases reasons with
      | none =>
          simp only [exec, anon, Option.map_none, shouldRunSolver_eq]
          exact h.log _ _
      | some r =>
          simp only [exec, anon, Option.map_some, shouldRunSolver_eq, decide_eq_true hp,
            decide_eq_true hp', if_true]
          exact (h.log _ _).mark r.1
  | check vc cls allocSize offset size txt =>
      have hp : Permits v.gate (vc, cls) := Or.inl h.off
      have hp' : Permits v'.gate ("", "") := Or.inl h.off'
      have hlog := h.log (vc, cls) ("", "")
      simp only [exec, anon, checkAccess_eq, if_pos hp, if_pos hp', h.asked]
      cases z3 (v.gate.seen.length + 1) (oobCond allocSize offset size) with
      | sat => exact (hlog.counts txt "").fail txt.outOfBounds
      | unsat => exact hlog
      | unknown => exact (hlog.counts txt "").mark txt.solverUnknown
  | pair dmaAllocs iommuMapped => exact { h with allocs := rfl, mapped := rfl }

end Alike

-- ── Positions do not show ────────────────────────────────────────────────────────

section Position

variable (e : Env) (f : String) (b i b' i' : Nat) (instr : Instruction) (t : Maps)

theorem accessEffects_anon (txt : AccessText) (allocId : Nat) (offset : Z3Int)
    (size : Option UInt64) {after after' : List Effect}
    (h : after'.map anon = after.map anon) :
    (accessEffects ⟨f, b', i', instr⟩ txt t allocId offset size after').map anon
      = (accessEffects ⟨f, b, i, instr⟩ txt t allocId offset size after).map anon := by
  unfold accessEffects
  split
  · rfl
  · split
    · rfl
    · split
      · rfl
      · rw [List.map_cons, List.map_cons, h]
        rfl

theorem irqEffects_anon (kind : String) (allocId : Nat) :
    (irqEffects e ⟨f, b', i', instr⟩ kind allocId).map anon
      = (irqEffects e ⟨f, b, i, instr⟩ kind allocId).map anon := by
  unfold irqEffects
  split <;> rfl

theorem regionEffects_anon (txt : AccessText) (op : Operand) (len : UInt64) :
    (regionEffects ⟨f, b', i', instr⟩ txt t op len).map anon
      = (regionEffects ⟨f, b, i, instr⟩ txt t op len).map anon := by
  unfold regionEffects
  split
  · rfl
  · split
    · exact accessEffects_anon f b i b' i' instr t txt _ _ _ rfl
    · rfl

theorem memoryEffects_anon (txt : AccessText) (kind : String) (n : Name) (ty : IrType) :
    (memoryEffects e ⟨f, b', i', instr⟩ txt kind t n ty).map anon
      = (memoryEffects e ⟨f, b, i, instr⟩ txt kind t n ty).map anon := by
  unfold memoryEffects
  split
  · exact accessEffects_anon f b i b' i' instr t txt _ _ _ (irqEffects_anon e f b i b' i' instr _ _)
  · rfl

theorem callEffects_anon (call : Call) :
    (callEffects e ⟨f, b', i', instr⟩ call t).map anon
      = (callEffects e ⟨f, b, i, instr⟩ call t).map anon := by
  unfold callEffects
  cases callArm e.dmaPolicy (functionNameOfCall call) with
  | memset =>
      simp only [memsetEffects]
      repeat' split
      case h_2 => exact regionEffects_anon f b i b' i' instr t _ _ _
      all_goals rfl
  | memcpy =>
      simp only [memcpyEffects]
      repeat' split
      case h_2 =>
        rw [List.map_append, List.map_append]
        exact congrArg₂ _ (regionEffects_anon f b i b' i' instr t _ _ _)
          (regionEffects_anon f b i b' i' instr t _ _ _)
      all_goals rfl
  | unnamed =>
      simp only [unnamedEffects]
      repeat' split
      all_goals rfl
  | dmaAlloc =>
      simp only [dmaAllocEffects]
      repeat' split
      all_goals rfl
  | dmaMap =>
      simp only [dmaMapEffects]
      repeat' split
      all_goals rfl
  | _ => rfl

/-- **Up to IDs, the effects of an instruction do not depend on its position.** -/
theorem effects_anon :
    (effects e ⟨f, b', i', instr⟩ t).map anon = (effects e ⟨f, b, i, instr⟩ t).map anon := by
  unfold effects
  cases instr with
  | call call => exact callEffects_anon e f b i b' i' _ t call
  | store address value =>
      simp only
      cases operandLocalName address with
      | none => rfl
      | some n => exact memoryEffects_anon e f b i b' i' _ _ _ _ n _
  | load address loadedTy dest =>
      simp only
      cases operandLocalName address with
      | none => rfl
      | some n => exact memoryEffects_anon e f b i b' i' _ _ _ _ n _
  | _ => rfl

end Position

-- ── Anonymous plans ──────────────────────────────────────────────────────────────

/-- An instruction with the name of its function. -/
abbrev Code := String × Instruction

def Code.site (c : Code) : Site := ⟨c.1, 0, 0, c.2⟩

/-- The instructions of a function, in listing order. -/
def funcCodes (f : Function) : List Code := f.instrs.map (fun i => (f.name, i))

/-- The instructions of a list of functions. -/
def codes (fs : List Function) : List Code := fs.flatMap funcCodes

theorem codes_append_cons (fs₁ : List Function) (f : Function) (fs₂ : List Function) :
    codes (fs₁ ++ f :: fs₂) = codes fs₁ ++ (funcCodes f ++ codes fs₂) := by
  rw [codes, List.flatMap_append, List.flatMap_cons]
  rfl

/-- The maps after some instructions. -/
def after (m : Module) (dma : DmaPolicy) (l : List Code) (t : Maps) : Maps :=
  l.foldl (fun t c => transfer m dma c.2 t) t

/-- The plan of a list of instructions, up to IDs. -/
def anonPlan (e : Env) : List Code → Maps → List Effect :=
  planOf (fun c t => (effects e c.site t).map anon)
    (fun c t => transfer e.module e.dmaPolicy c.2 t)

theorem anonPlan_append (e : Env) (l₁ l₂ : List Code) (t : Maps) :
    anonPlan e (l₁ ++ l₂) t
      = anonPlan e l₁ t ++ anonPlan e l₂ (after e.module e.dmaPolicy l₁ t) :=
  planOf_append _ _ l₁ l₂ t

theorem plan_anon (e : Env) : ∀ (l : List Site) (t : Maps),
    (plan e l t).map anon = anonPlan e (l.map (fun s => (s.funcName, s.instr))) t := by
  intro l
  induction l with
  | nil => intro t; rfl
  | cons x xs ih =>
      intro t
      rw [show plan e (x :: xs) t
        = effects e x t ++ plan e xs (transfer e.module e.dmaPolicy x.instr t) from rfl,
        List.map_append, ih]
      exact congrArg (· ++ anonPlan e (xs.map (fun s => (s.funcName, s.instr)))
        (transfer e.module e.dmaPolicy x.instr t)) (effects_anon e x.funcName 0 0 x.bbIdx
          x.instrIdx x.instr t)

/-- The sites of a module carry its codes. -/
theorem sites_codes (m : Module) :
    (sites m).map (fun s => (s.funcName, s.instr)) = codes m.functions := by
  have hblock : ∀ f x, (blockSites f x).map (fun s => (s.funcName, s.instr))
      = x.1.instrs.map (fun i => (f.name, i)) := by
    intro f x
    simp only [blockSites, List.map_map]
    rw [← List.zipIdx_map_fst 0 x.1.instrs, List.map_map, List.zipIdx_map_fst]
    rfl
  have hfunc : ∀ f, (funcSites f).map (fun s => (s.funcName, s.instr)) = funcCodes f := by
    intro f
    simp only [funcSites, funcCodes, Function.instrs, List.map_flatMap, hblock]
    rw [← List.flatMap_map (fun x : BasicBlock × Nat => x.1)
      (fun bb => bb.instrs.map (fun i => (f.name, i))), List.zipIdx_map_fst]
  simp only [sites, codes, List.map_flatMap, hfunc]

/-- **Off mode sees the anonymous plan only.** -/
theorem off_outcome_eq {m m' : Module} {host : Host} {approved approvedClasses : Finset String}
    {asmP : InlineAsmPolicy} {dmaP : DmaPolicy}
    (h : anonPlan (mkEnv m' host asmP dmaP) (codes m'.functions) Maps.empty
      = anonPlan (mkEnv m host asmP dmaP) (codes m.functions) Maps.empty) :
    let out := (analyze m host (.fresh .off approved approvedClasses) asmP dmaP).1
    let out' := (analyze m' host (.fresh .off approved approvedClasses) asmP dmaP).1
    out'.result = out.result ∧ out'.inlineAsmVcs = out.inlineAsmVcs ∧ out'.dmaVcs = out.dmaVcs
      ∧ out'.irqRaceVcs = out.irqRaceVcs := by
  intro out out'
  have hinit : OffAlike (Verdict.init (.fresh .off approved approvedClasses))
      (Verdict.init (.fresh .off approved approvedClasses)) :=
    ⟨rfl, rfl, rfl, rfl, rfl, rfl, rfl, rfl, rfl⟩
  have hrun : ∀ m : Module, OffAlike
      (runPlan (mkEnv m host asmP dmaP) (.fresh .off approved approvedClasses))
      (forLoop (exec host.z3) (anonPlan (mkEnv m host asmP dmaP) (codes m.functions) Maps.empty)
        (Verdict.init (.fresh .off approved approvedClasses))) := by
    intro m
    have hlock := forLoop_lockstep anon (fun x v v' hv => exec_anon host.z3 x hv)
      (plan (mkEnv m host asmP dmaP) (sites m) Maps.empty) _ _ hinit
    rw [plan_anon, sites_codes] at hlock
    exact hlock
  have hm := hrun m
  have hm' := hrun m'
  rw [h] at hm'
  have houtcome : ∀ m, analyze m host (.fresh .off approved approvedClasses) asmP dmaP
      = (runPlan (mkEnv m host asmP dmaP) (.fresh .off approved approvedClasses)).outcome dmaP
        host.setOrder := fun m => analyze_eq_runPlan m host _ asmP dmaP
  have henforced : ∀ {v v' : Verdict}, OffAlike v v' →
      v'.enforced dmaP host.setOrder = v.enforced dmaP host.setOrder := by
    intro v v' hv
    simp only [Verdict.enforced, hv.allocs, hv.mapped, hv.result]
  refine ⟨?_, ?_, ?_, ?_⟩
  · show (analyze m' _ _ _ _).1.result = (analyze m _ _ _ _).1.result
    rw [houtcome m', houtcome m]
    exact (henforced hm').symm.trans (henforced hm)
  · show (analyze m' _ _ _ _).1.inlineAsmVcs = (analyze m _ _ _ _).1.inlineAsmVcs
    rw [houtcome m', houtcome m]
    exact hm'.inlineAsm.symm.trans hm.inlineAsm
  · show (analyze m' _ _ _ _).1.dmaVcs = (analyze m _ _ _ _).1.dmaVcs
    rw [houtcome m', houtcome m]
    exact hm'.dma.symm.trans hm.dma
  · show (analyze m' _ _ _ _).1.irqRaceVcs = (analyze m _ _ _ _).1.irqRaceVcs
    rw [houtcome m', houtcome m]
    exact hm'.irqRace.symm.trans hm.irqRace

-- ── Two lists that differ by a renaming ──────────────────────────────────────────

def renameCode (ρ : Name → Name) (c : Code) : Code := (c.1, renameInstr ρ c.2)

/-- The result of an instruction is not confused with one of its uses. -/
def DestApart (ρ : Name → Name) (i : Instruction) : Prop :=
  ∀ d n, i.tryGetResult = some d → n ∈ i.uses → ρ d = ρ n → d = n

section SideBySide

variable {e e' : Env} (hE : SameEnv e e') {R : List Code → Maps → Maps → Prop}
  (hT : ∀ l t t', R l t t' → SameTables t t')

include hE hT

/-- **Side by side.**  `R` relates the maps of two runs that have the same instructions left
    up to the renaming, and answers the lookups of the next one. -/
theorem anonPlan_rename {ρ : Name → Name}
    (hstep : ∀ c l t t', R (c :: l) t t' →
      DestApart ρ c.2 ∧ LooksSame e.dmaPolicy ρ c.2 t t'
        ∧ R l (transfer e.module e.dmaPolicy c.2 t)
            (transfer e'.module e'.dmaPolicy (renameInstr ρ c.2) t')) :
    ∀ l t t', R l t t' →
      anonPlan e' (l.map (renameCode ρ)) t' = anonPlan e l t
        ∧ R [] (after e.module e.dmaPolicy l t)
            (after e'.module e'.dmaPolicy (l.map (renameCode ρ)) t') := by
  intro l
  induction l with
  | nil => intro t t' h; exact ⟨rfl, h⟩
  | cons c l ih =>
      intro t t' h
      obtain ⟨hdest, hlooks, hnext⟩ := hstep c l t t' h
      obtain ⟨hplan, hend⟩ := ih _ _ hnext
      have heff : effects e' (renameCode ρ c).site t' = effects e c.site t :=
        effects_rename hE (hT _ t t' h) c.site hlooks hdest
      refine ⟨?_, hend⟩
      rw [List.map_cons, show anonPlan e' (renameCode ρ c :: l.map (renameCode ρ)) t'
        = (effects e' (renameCode ρ c).site t').map anon ++ anonPlan e' (l.map (renameCode ρ))
          (transfer e'.module e'.dmaPolicy (renameInstr ρ c.2) t') from rfl, heff, hplan]
      rfl

/-- The same instructions on both sides. -/
theorem anonPlan_alike
    (hstep : ∀ c l t t', R (c :: l) t t' →
      (∀ x ∈ looks e.dmaPolicy c.2, SameAt x.1 t x.2 t' x.2)
        ∧ R l (transfer e.module e.dmaPolicy c.2 t) (transfer e'.module e'.dmaPolicy c.2 t'))
    (l : List Code) (t t' : Maps) (h : R l t t') :
    anonPlan e' l t' = anonPlan e l t
      ∧ R [] (after e.module e.dmaPolicy l t) (after e'.module e'.dmaPolicy l t') := by
  have hid : l.map (renameCode id) = l := by
    refine (List.map_congr_left (fun c _ => ?_)).trans (List.map_id l)
    exact Prod.ext rfl (renameInstr_id c.2)
  have hboth := anonPlan_rename hE hT (ρ := id) (fun c l t t' hinv => by
    rw [renameInstr_id]
    exact ⟨fun d n _ _ heq => heq, (hstep c l t t' hinv).1, (hstep c l t t' hinv).2⟩) l t t' h
  rw [hid] at hboth
  exact hboth

end SideBySide

/-- Only the table of named structs matters in the module. -/
theorem anonPlan_congr {e e' : Env} (hE : SameEnv e e') (l : List Code) (t : Maps) :
    anonPlan e' l t = anonPlan e l t := by
  refine (anonPlan_alike hE (R := fun _ t t' => t' = t) ?_ ?_ l t t rfl).1
  · rintro _ t _ rfl
    exact ⟨rfl, rfl, rfl, rfl, rfl⟩
  · rintro c _ t _ rfl
    rw [hE.dma, transfer_congr hE.types]
    exact ⟨fun x _ => sameAt_of_envs rfl rfl rfl rfl x.1 x.2, rfl⟩

end SkvOffMode

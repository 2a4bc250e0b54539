import SentinelKv.SkvPlanProofs

/-!
# The human gate

Every verification condition goes through `HitlGate::should_run_solver`, from a dozen places
and in three styles: inside `check_access`, with the answer used, with the answer dropped.
In the plan of a module they are all alike, an effect with a `vcOf`.

* **`forLoop_gate`** — the gate of a run has logged the conditions of the processed effects,
  in order, and refused those its approvals do not cover;
* **`require_gate_sound`** — what the gate lets through and what it stops, for `analyze` and
  `enforce_hitl_policy` together;
* **`more_approvals_no_new_work`** — two runs under growing approvals.
-/

namespace SkvHitl

open BreakLoop SkvIr SkvGate SkvAnalyze SkvTransfer SkvPlan

/-- `enforce_hitl_policy`. -/
def enforceHitlPolicy (result : AnalysisResult) (mode : HitlMode) (blockedVcs : Nat) :
    AnalysisResult :=
  if mode = .require ∧ 0 < blockedVcs then
    .fail ("HITL require mode rejected " ++ toString blockedVcs
      ++ " unapproved verification condition(s)")
  else result

-- ── One condition ────────────────────────────────────────────────────────────────

/-- A condition as the gate sees it: its ID and its class. -/
abbrev Vc := String × String

/-- The solver may run for `p`. -/
def Permits (g : HitlGate) (p : Vc) : Prop :=
  g.mode = .off ∨ p.1 ∈ g.approved ∨ p.2 ∈ g.approvedClasses

instance (g : HitlGate) : DecidablePred (Permits g) := fun p =>
  inferInstanceAs (Decidable (g.mode = .off ∨ p.1 ∈ g.approved ∨ p.2 ∈ g.approvedClasses))

/-- The gate after conditions `l`. -/
def logAll (g : HitlGate) (l : List Vc) : HitlGate :=
  { g with
    seen           := g.seen ++ l.map Prod.fst
    seenClasses    := g.seenClasses ++ l.map Prod.snd
    blocked        := g.blocked ++ (l.filter (fun p => ¬ Permits g p)).map Prod.fst
    blockedClasses := g.blockedClasses ++ (l.filter (fun p => ¬ Permits g p)).map Prod.snd }

theorem logAll_nil (g : HitlGate) : logAll g [] = g := by
  simp only [logAll, List.map_nil, List.filter_nil, List.append_nil]

theorem logAll_append (g : HitlGate) (l₁ l₂ : List Vc) :
    logAll g (l₁ ++ l₂) = logAll (logAll g l₁) l₂ := by
  simp only [logAll, List.map_append, List.filter_append, List.append_assoc]
  rfl

theorem logAll_permitted {g : HitlGate} {p : Vc} (h : Permits g p) :
    logAll g [p] = { g with seen := g.seen ++ [p.1], seenClasses := g.seenClasses ++ [p.2] } := by
  have hnone : [p].filter (fun p => ¬ Permits g p) = [] :=
    List.filter_cons_of_neg (by simpa using h)
  simp only [logAll, hnone, List.map_nil, List.append_nil]
  rfl

theorem logAll_refused {g : HitlGate} {p : Vc} (h : ¬ Permits g p) :
    logAll g [p] = { g with
      seen := g.seen ++ [p.1], seenClasses := g.seenClasses ++ [p.2]
      blocked := g.blocked ++ [p.1], blockedClasses := g.blockedClasses ++ [p.2] } := by
  have hone : [p].filter (fun p => ¬ Permits g p) = [p] :=
    List.filter_cons_of_pos (by simpa using h)
  simp only [logAll, hone]
  rfl

/-- **`should_run_solver`** logs one condition and answers whether it is permitted. -/
theorem shouldRunSolver_eq (g : HitlGate) (vc cls : String) :
    g.shouldRunSolver vc cls = (decide (Permits g (vc, cls)), logAll g [(vc, cls)]) := by
  by_cases h : Permits g (vc, cls)
  · rw [logAll_permitted h, decide_eq_true h]
    simp only [HitlGate.shouldRunSolver]
    cases hmode : g.mode with
    | off => rfl
    | require =>
        obtain hoff | happ := h
        · rw [hmode] at hoff
          exact nomatch hoff
        · simp only [if_pos happ]
  · rw [logAll_refused h, decide_eq_false h]
    simp only [HitlGate.shouldRunSolver]
    obtain ⟨hon, happ⟩ := not_or.mp h
    cases hmode : g.mode with
    | off => exact absurd hmode hon
    | require =>
        simp only [if_neg happ]

/-- What `check_access` makes of an answer of the solver. -/
def ofSat : SatResult → AccessCheckResult
  | .sat => .oob
  | .unsat => .safe
  | .unknown => .solverUnknown

/-- **`check_access`** asks the solver only for a permitted condition. -/
theorem checkAccess_eq (z3 : Solver) (allocSize offset : Z3Int) (n : UInt64)
    (vc cls : String) (g : HitlGate) :
    checkAccess z3 allocSize offset n vc cls g
      = (if Permits g (vc, cls) then
          ofSat (z3 (g.seen.length + 1) (oobCond allocSize offset n))
        else .hitlBlocked, logAll g [(vc, cls)]) := by
  simp only [checkAccess, shouldRunSolver_eq]
  have hlen : (logAll g [(vc, cls)]).seen.length = g.seen.length + 1 := List.length_append
  by_cases h : Permits g (vc, cls)
  · simp only [decide_eq_true h, if_pos h, hlen]
    cases z3 (g.seen.length + 1) (oobCond allocSize offset n) <;> rfl
  · simp only [decide_eq_false h, if_neg h]

-- ── The log of a run ─────────────────────────────────────────────────────────────

/-- The condition an effect takes to the gate. -/
def vcOf : Effect → Option Vc
  | .ask vc cls _ => some (vc, cls)
  | .check vc cls _ _ _ _ => some (vc, cls)
  | _ => none

theorem counts_gate (txt : CheckText) (v : Verdict) : (txt.counts v).gate = v.gate := by
  cases h : txt.counted with
  | false => rw [show txt.counts v = if txt.counted then v.count .dma else v from rfl, h]; rfl
  | true => rw [show txt.counts v = if txt.counted then v.count .dma else v from rfl, h]; rfl

/-- One effect logs its condition, if it has one. -/
theorem exec_gate (z3 : Solver) (x : Effect) (v : Verdict) :
    (exec z3 x v).state.gate = logAll v.gate (vcOf x).toList := by
  cases x with
  | fail msg => exact (logAll_nil v.gate).symm
  | mark reason => exact (logAll_nil v.gate).symm
  | count c => cases c <;> exact (logAll_nil v.gate).symm
  | ask vc cls reasons =>
      have hlog : (v.gate.shouldRunSolver vc cls).2 = logAll v.gate [(vc, cls)] := by
        rw [shouldRunSolver_eq]
      cases reasons <;> exact hlog
  | check vc cls allocSize offset size txt =>
      have hlog : (checkAccess z3 allocSize offset size vc cls v.gate).2
          = logAll v.gate [(vc, cls)] := by
        rw [checkAccess_eq]
      simp only [exec]
      cases (checkAccess z3 allocSize offset size vc cls v.gate).1 with
      | oob => exact (counts_gate txt _).trans hlog
      | safe => exact hlog
      | solverUnknown => exact (counts_gate txt _).trans hlog
      | hitlBlocked => exact (counts_gate txt _).trans hlog
  | pair dmaAllocs iommuMapped => exact (logAll_nil v.gate).symm

/-- The conditions of the effects a run really processes. -/
def logged (z3 : Solver) (l : List Effect) (v : Verdict) : List Vc :=
  ((visits (exec z3) l v).map Prod.fst).filterMap vcOf

theorem filterMap_vcOf_cons (x : Effect) (xs : List Effect) :
    (x :: xs).filterMap vcOf = (vcOf x).toList ++ xs.filterMap vcOf := by
  cases hx : vcOf x with
  | none => exact List.filterMap_cons_none hx
  | some p => exact List.filterMap_cons_some hx

theorem logged_cons_next {z3 : Solver} {x : Effect} {v v' : Verdict}
    (h : exec z3 x v = .next v') (xs : List Effect) :
    logged z3 (x :: xs) v = (vcOf x).toList ++ logged z3 xs v' := by
  rw [logged, visits_cons_next h, List.map_cons, filterMap_vcOf_cons]
  rfl

theorem logged_cons_brk {z3 : Solver} {x : Effect} {v v' : Verdict}
    (h : exec z3 x v = .brk v') (xs : List Effect) :
    logged z3 (x :: xs) v = (vcOf x).toList := by
  rw [logged, visits_cons_brk h, List.map_cons, filterMap_vcOf_cons]
  exact List.append_nil _

/-- **The gate of a run** has logged the processed conditions, in order. -/
theorem forLoop_gate (z3 : Solver) (l : List Effect) :
    ∀ v : Verdict, (forLoop (exec z3) l v).gate = logAll v.gate (logged z3 l v) := by
  induction l with
  | nil => intro v; exact (logAll_nil v.gate).symm
  | cons x xs ih =>
      intro v
      have hx := exec_gate z3 x v
      cases hb : exec z3 x v with
      | next v' =>
          rw [hb, Flow.state_next] at hx
          rw [forLoop_cons_next hb, ih v', hx, ← logAll_append, logged_cons_next hb]
      | brk v' =>
          rw [hb, Flow.state_brk] at hx
          rw [forLoop_cons_brk hb, hx, logged_cons_brk hb]

/-- The conditions `analyze` takes to the gate, in order. -/
def moduleLog (m : Module) (host : Host) (gate : HitlGate) (asmP : InlineAsmPolicy)
    (dmaP : DmaPolicy) : List Vc :=
  logged host.z3 (plan (mkEnv m host asmP dmaP) (sites m) Maps.empty) (Verdict.init gate)

/-- **The gate after `analyze`.** -/
theorem analyze_gate (m : Module) (host : Host) (gate : HitlGate) (asmP : InlineAsmPolicy)
    (dmaP : DmaPolicy) :
    (analyze m host gate asmP dmaP).2 = logAll gate (moduleLog m host gate asmP dmaP) := by
  rw [analyze_eq_runPlan]
  exact forLoop_gate host.z3 _ (Verdict.init gate)

-- ── Who is asked ─────────────────────────────────────────────────────────────────

/-- An effect depends on the solver only through the answer to its own condition, and only
    if that is permitted. -/
theorem exec_congr {z3 z3' : Solver} {x : Effect} {v : Verdict}
    (h : ∀ p, vcOf x = some p → Permits v.gate p →
      ∀ q, z3' (v.gate.seen.length + 1) q = z3 (v.gate.seen.length + 1) q) :
    exec z3' x v = exec z3 x v := by
  cases x with
  | fail msg => rfl
  | mark reason => rfl
  | count c => rfl
  | ask vc cls reasons => rfl
  | check vc cls allocSize offset size txt =>
      have hcheck : checkAccess z3' allocSize offset size vc cls v.gate
          = checkAccess z3 allocSize offset size vc cls v.gate := by
        rw [checkAccess_eq, checkAccess_eq]
        by_cases hp : Permits v.gate (vc, cls)
        · rw [h (vc, cls) rfl hp]
        · rw [if_neg hp, if_neg hp]
      simp only [exec, hcheck]
  | pair dmaAllocs iommuMapped => rfl

/-- Two solvers that agree on the permitted conditions of a run give the same run.  The
    `t`-th logged condition is the solver's question number `t + 1`. -/
theorem forLoop_congr_solver {z3 z3' : Solver} (l : List Effect) :
    ∀ v : Verdict,
      (∀ t p, (logged z3 l v)[t]? = some p → Permits v.gate p →
        ∀ q, z3' (v.gate.seen.length + t + 1) q = z3 (v.gate.seen.length + t + 1) q) →
      forLoop (exec z3') l v = forLoop (exec z3) l v := by
  induction l with
  | nil => intro v _; rfl
  | cons x xs ih =>
      intro v h
      have hgate := exec_gate z3 x v
      cases hb : exec z3 x v with
      | brk v' =>
          have hx : exec z3' x v = .brk v' := by
            rw [← hb]
            refine exec_congr ?_
            intro p hp hperm
            exact h 0 p (by rw [logged_cons_brk hb, hp]; rfl) hperm
          rw [forLoop_cons_brk hx, forLoop_cons_brk hb]
      | next v' =>
          rw [hb, Flow.state_next] at hgate
          have hx : exec z3' x v = .next v' := by
            rw [← hb]
            refine exec_congr ?_
            intro p hp hperm
            exact h 0 p (by rw [logged_cons_next hb, hp]; rfl) hperm
          rw [forLoop_cons_next hx, forLoop_cons_next hb]
          refine ih v' ?_
          intro t p ht hperm q
          -- the effect's own condition, if any, comes before the others
          have hlen : v'.gate.seen.length = v.gate.seen.length + (vcOf x).toList.length := by
            rw [hgate]
            simp only [logAll, List.length_append, List.length_map]
          have hlater := h ((vcOf x).toList.length + t) p
            (by rw [logged_cons_next hb, List.getElem?_append_right (by omega)]
                rw [Nat.add_sub_cancel_left]; exact ht)
            (by rw [hgate] at hperm; exact hperm) q
          rw [hlen, Nat.add_assoc v.gate.seen.length]
          exact hlater

-- ── What the gate guarantees ─────────────────────────────────────────────────────

/-- The conditions a gate has logged. -/
def vcLog (g : HitlGate) : List Vc := g.seen.zip g.seenClasses

/-- From empty logs, the log of the gate is what was logged. -/
theorem vcLog_fresh (mode : HitlMode) (approved approvedClasses : Finset String) (l : List Vc) :
    vcLog (logAll (.fresh mode approved approvedClasses) l) = l := by
  show (([] : List String) ++ l.map Prod.fst).zip ([] ++ l.map Prod.snd) = l
  rw [List.nil_append, List.nil_append, ← List.unzip_fst, ← List.unzip_snd, List.zip_unzip]

/-- The ID or the class of a condition is approved. -/
def Approved (approved approvedClasses : Finset String) (p : Vc) : Prop :=
  p.1 ∈ approved ∨ p.2 ∈ approvedClasses

instance (approved approvedClasses : Finset String) :
    DecidablePred (Approved approved approvedClasses) := fun p =>
  inferInstanceAs (Decidable (p.1 ∈ approved ∨ p.2 ∈ approvedClasses))

theorem permits_require {g : HitlGate} (h : g.mode = .require) (p : Vc) :
    Permits g p ↔ Approved g.approved g.approvedClasses p := by
  constructor
  · rintro (hoff | happ)
    · rw [h] at hoff
      exact nomatch hoff
    · exact happ
  · exact Or.inr

/-- The blocked logs of a fresh gate in require mode. -/
theorem blocked_require (approved approvedClasses : Finset String) (l : List Vc) :
    (logAll (.fresh .require approved approvedClasses) l).blocked
        = (l.filter (fun p => ¬ Approved approved approvedClasses p)).map Prod.fst
      ∧ (logAll (.fresh .require approved approvedClasses) l).blockedClasses
        = (l.filter (fun p => ¬ Approved approved approvedClasses p)).map Prod.snd := by
  have hfilter : l.filter (fun p => ¬ Permits (.fresh .require approved approvedClasses) p)
      = l.filter (fun p => ¬ Approved approved approvedClasses p) := by
    simp only [permits_require (g := .fresh .require approved approvedClasses) rfl]
    rfl
  exact ⟨congrArg (List.map Prod.fst) hfilter, congrArg (List.map Prod.snd) hfilter⟩

/-- A gate that is off blocks nothing. -/
theorem blocked_off (approved approvedClasses : Finset String) (l : List Vc) :
    (logAll (.fresh .off approved approvedClasses) l).blocked = []
      ∧ (logAll (.fresh .off approved approvedClasses) l).blockedClasses = [] := by
  have hfilter : l.filter (fun p => ¬ Permits (.fresh .off approved approvedClasses) p) = [] := by
    refine List.filter_eq_nil_iff.mpr ?_
    intro p _ hp
    exact of_decide_eq_true hp (Or.inl rfl)
  exact ⟨congrArg (List.map Prod.fst) hfilter, congrArg (List.map Prod.snd) hfilter⟩

/-- The plan of a module has nothing of the solver in it. -/
theorem plan_host (m : Module) (host host' : Host) (asmP : InlineAsmPolicy) (dmaP : DmaPolicy) :
    plan (mkEnv m host' asmP dmaP) = plan (mkEnv m host asmP dmaP) := rfl

/-- The answers of the solver to unapproved conditions make no difference. -/
theorem analyze_congr_solver (m : Module) (host : Host) (approved approvedClasses : Finset String)
    (asmP : InlineAsmPolicy) (dmaP : DmaPolicy) (z3' : Solver)
    (h : ∀ t p, (moduleLog m host (.fresh .require approved approvedClasses) asmP dmaP)[t]?
        = some p → Approved approved approvedClasses p →
        ∀ q, z3' (t + 1) q = host.z3 (t + 1) q) :
    analyze m { host with z3 := z3' } (.fresh .require approved approvedClasses) asmP dmaP
      = analyze m host (.fresh .require approved approvedClasses) asmP dmaP := by
  rw [analyze_eq_runPlan, analyze_eq_runPlan, runPlan, runPlan, plan_host m host]
  refine congrArg (Verdict.outcome dmaP host.setOrder) (forLoop_congr_solver _ _ ?_)
  intro t p ht hperm q
  have hq := h t p ht ((permits_require rfl p).mp hperm) q
  rw [show (Verdict.init (.fresh .require approved approvedClasses)).gate.seen.length + t + 1
    = t + 1 from by rw [show (Verdict.init (.fresh .require approved approvedClasses)
      ).gate.seen.length = 0 from rfl, Nat.zero_add]]
  exact hq

/-- A blocked condition makes the policy fail. -/
theorem enforceHitlPolicy_require {result : AnalysisResult} {blocked : List String}
    (h : (enforceHitlPolicy result .require blocked.dedup.length).isFail = false) :
    blocked = [] := by
  cases hb : blocked with
  | nil => rfl
  | cons x xs =>
      have hpos : 0 < blocked.dedup.length :=
        List.length_pos_of_mem (List.mem_dedup.mpr (hb ▸ List.mem_cons_self))
      rw [enforceHitlPolicy, if_pos ⟨rfl, hpos⟩] at h
      exact nomatch h

/-- **The gate is sound.**  In require mode the answers of the solver to unapproved
    conditions make no difference, the blocked logs are the unapproved part of the `seen`
    logs, and a result that `enforce_hitl_policy` does not turn into `Fail` means that every
    logged condition was approved.  In off mode nothing is blocked and nothing enforced. -/
theorem require_gate_sound (m : Module) (host : Host) (approved approvedClasses : Finset String)
    (asmP : InlineAsmPolicy) (dmaP : DmaPolicy) :
    let run := analyze m host (.fresh .require approved approvedClasses) asmP dmaP
    let off := analyze m host (.fresh .off approved approvedClasses) asmP dmaP
    let log := vcLog run.2
    (run.2.seen = log.map Prod.fst ∧ run.2.seenClasses = log.map Prod.snd)
      ∧ (∀ z3' : Solver,
          (∀ t p, log[t]? = some p → Approved approved approvedClasses p →
            ∀ q, z3' (t + 1) q = host.z3 (t + 1) q) →
          analyze m { host with z3 := z3' } (.fresh .require approved approvedClasses) asmP dmaP
            = run)
      ∧ run.2.blocked
          = (log.filter (fun p => ¬ Approved approved approvedClasses p)).map Prod.fst
      ∧ run.2.blockedClasses
          = (log.filter (fun p => ¬ Approved approved approvedClasses p)).map Prod.snd
      ∧ ((enforceHitlPolicy run.1.result .require run.1.hitlBlockedVcs).isFail = false →
          ∀ p ∈ log, Approved approved approvedClasses p)
      ∧ off.2.blocked = [] ∧ off.2.blockedClasses = []
      ∧ enforceHitlPolicy off.1.result .off off.1.hitlBlockedVcs = off.1.result := by
  intro run off log
  have hrun : run.2 = logAll (.fresh .require approved approvedClasses)
      (moduleLog m host (.fresh .require approved approvedClasses) asmP dmaP) :=
    analyze_gate m host _ asmP dmaP
  have hoff : off.2 = logAll (.fresh .off approved approvedClasses)
      (moduleLog m host (.fresh .off approved approvedClasses) asmP dmaP) :=
    analyze_gate m host _ asmP dmaP
  have hlog : log = moduleLog m host (.fresh .require approved approvedClasses) asmP dmaP := by
    rw [show log = vcLog run.2 from rfl, hrun, vcLog_fresh]
  obtain ⟨hblocked, hclasses⟩ := blocked_require approved approvedClasses log
  obtain ⟨hnone, hnoneClasses⟩ := blocked_off approved approvedClasses
    (moduleLog m host (.fresh .off approved approvedClasses) asmP dmaP)
  rw [hlog] at hblocked hclasses
  refine ⟨⟨?_, ?_⟩, ?_, ?_, ?_, ?_, hoff ▸ hnone, hoff ▸ hnoneClasses, ?_⟩
  · rw [hlog, hrun]; rfl
  · rw [hlog, hrun]; rfl
  · intro z3' hagree
    rw [hlog] at hagree
    exact analyze_congr_solver m host approved approvedClasses asmP dmaP z3' hagree
  · rw [hlog, hrun]; exact hblocked
  · rw [hlog, hrun]; exact hclasses
  · intro hok p hp
    have hempty : run.2.blocked = [] := enforceHitlPolicy_require hok
    rw [hrun, hblocked, ← hlog, List.map_eq_nil_iff, List.filter_eq_nil_iff] at hempty
    exact Decidable.not_not.mp (fun hun => hempty p hp (decide_eq_true hun))
  · exact if_neg (fun h => nomatch h.1)

-- ── Growing approvals ────────────────────────────────────────────────────────────

/-- Two runs side by side: the same conditions so far, and everything the first gate permits
    the second one permits. -/
structure Relaxed (v₁ v₂ : Verdict) : Prop where
  seen    : v₁.gate.seen = v₂.gate.seen
  blocked : v₂.gate.blocked.Sublist v₁.gate.blocked
  permits : ∀ p, Permits v₁.gate p → Permits v₂.gate p

/-- The second run has done no more than the first. -/
def NoNewWork (v₁ v₂ : Verdict) : Prop :=
  v₂.gate.seen <+: v₁.gate.seen ∧ v₂.gate.blocked.Sublist v₁.gate.blocked

theorem relaxed_log {v₁ v₂ w₁ w₂ : Verdict} (h : Relaxed v₁ v₂) (l : List Vc)
    (hw₁ : w₁.gate = logAll v₁.gate l) (hw₂ : w₂.gate = logAll v₂.gate l) : Relaxed w₁ w₂ where
  seen := by
    rw [hw₁, hw₂]
    exact congrArg (· ++ l.map Prod.fst) h.seen
  blocked := by
    rw [hw₁, hw₂]
    refine h.blocked.append (List.Sublist.map Prod.fst (List.monotone_filter_right l ?_))
    intro p hp
    exact decide_eq_true (fun h₁ => of_decide_eq_true hp (h.permits p h₁))
  permits := by
    rw [hw₁, hw₂]
    exact h.permits

theorem exec_relaxed (z3 : Solver) (x : Effect) (v₁ v₂ : Verdict) (h : Relaxed v₁ v₂) :
    Relaxed (exec z3 x v₁).state (exec z3 x v₂).state :=
  relaxed_log h (vcOf x).toList (exec_gate z3 x v₁) (exec_gate z3 x v₂)

/-- A check stops a run exactly if it is permitted and the solver finds a model. -/
theorem exec_check_brk {z3 : Solver} {vc cls : String} {allocSize offset : Z3Int}
    {size : UInt64} {txt : CheckText} {v : Verdict} :
    (∃ v', exec z3 (.check vc cls allocSize offset size txt) v = .brk v')
      ↔ Permits v.gate (vc, cls)
        ∧ z3 (v.gate.seen.length + 1) (oobCond allocSize offset size) = .sat := by
  simp only [exec, checkAccess_eq]
  by_cases hp : Permits v.gate (vc, cls)
  · simp only [if_pos hp]
    cases z3 (v.gate.seen.length + 1) (oobCond allocSize offset size) with
    | sat => exact ⟨fun _ => ⟨hp, rfl⟩, fun _ => ⟨_, rfl⟩⟩
    | unsat => simp [ofSat]
    | unknown => simp [ofSat]
  · simp only [if_neg hp]
    simp [hp]

theorem exec_relaxed_stop (z3 : Solver) (x : Effect) (v₁ v₂ v₁' : Verdict)
    (h : Relaxed v₁ v₂) (hb : exec z3 x v₁ = .brk v₁') : ∃ v₂', exec z3 x v₂ = .brk v₂' := by
  cases x with
  | fail msg => exact ⟨_, rfl⟩
  | mark reason => exact nomatch hb
  | count c => exact nomatch hb
  | ask vc cls reasons => cases reasons <;> exact nomatch hb
  | check vc cls allocSize offset size txt =>
      obtain ⟨hp, hsat⟩ := exec_check_brk.mp ⟨v₁', hb⟩
      rw [h.seen] at hsat
      exact exec_check_brk.mpr ⟨h.permits _ hp, hsat⟩
  | pair dmaAllocs iommuMapped => exact nomatch hb

/-- What an effect logs takes a run further ahead. -/
theorem exec_ahead (z3 : Solver) (x : Effect) (v₁ v₂ : Verdict) (h : NoNewWork v₁ v₂) :
    NoNewWork (exec z3 x v₁).state v₂ := by
  obtain ⟨hseen, hblocked⟩ := h
  unfold NoNewWork
  rw [exec_gate]
  exact ⟨hseen.trans (List.prefix_append _ _),
    hblocked.trans (List.sublist_append_left _ _)⟩

/-- Two fresh gates, the second permitting at least what the first does. -/
theorem analyze_noNewWork (m : Module) (host : Host) (asmP : InlineAsmPolicy) (dmaP : DmaPolicy)
    {mode₁ mode₂ : HitlMode} {approved₁ classes₁ approved₂ classes₂ : Finset String}
    (h : ∀ p, Permits (.fresh mode₁ approved₁ classes₁) p →
      Permits (.fresh mode₂ approved₂ classes₂) p) :
    (analyze m host (.fresh mode₂ approved₂ classes₂) asmP dmaP).2.seen
        <+: (analyze m host (.fresh mode₁ approved₁ classes₁) asmP dmaP).2.seen
      ∧ (analyze m host (.fresh mode₂ approved₂ classes₂) asmP dmaP).2.blocked.Sublist
        (analyze m host (.fresh mode₁ approved₁ classes₁) asmP dmaP).2.blocked := by
  rw [analyze_eq_runPlan, analyze_eq_runPlan]
  exact forLoop_ahead (exec_relaxed host.z3) (exec_relaxed_stop host.z3)
    (fun v₁ v₂ hrel => ⟨hrel.seen ▸ List.prefix_rfl, hrel.blocked⟩) (exec_ahead host.z3)
    _ _ _ ⟨rfl, List.Sublist.refl _, h⟩

/-- **More approvals never create new work.** -/
theorem more_approvals_no_new_work (m : Module) (host : Host)
    (approved approvedClasses : Finset String) (asmP : InlineAsmPolicy) (dmaP : DmaPolicy) :
    let first := (analyze m host (.fresh .require approved approvedClasses) asmP dmaP).2
    (∀ approved₂ classes₂, approved ⊆ approved₂ → approvedClasses ⊆ classes₂ →
      let second := (analyze m host (.fresh .require approved₂ classes₂) asmP dmaP).2
      second.seen <+: first.seen ∧ second.blocked.Sublist first.blocked)
    ∧ (∀ approved₂ classes₂,
      let second := (analyze m host (.fresh .off approved₂ classes₂) asmP dmaP).2
      second.seen <+: first.seen ∧ second.blocked.Sublist first.blocked)
    ∧ (analyze m host (.fresh .require (approved ∪ first.blocked.toFinset) approvedClasses)
        asmP dmaP).2.blocked = [] := by
  intro first
  have hgrow : ∀ approved₂ classes₂, approved ⊆ approved₂ → approvedClasses ⊆ classes₂ →
      ∀ p, Permits (.fresh .require approved approvedClasses) p →
        Permits (.fresh .require approved₂ classes₂) p := by
    intro approved₂ classes₂ hids hclasses p hp
    exact (permits_require rfl p).mpr
      (((permits_require rfl p).mp hp).imp (fun h => hids h) (fun h => hclasses h))
  refine ⟨?_, ?_, ?_⟩
  · intro approved₂ classes₂ hids hclasses
    exact analyze_noNewWork m host asmP dmaP (hgrow _ _ hids hclasses)
  · intro approved₂ classes₂
    exact analyze_noNewWork m host asmP dmaP (fun _ _ => Or.inl rfl)
  · -- what the second run blocks the first run blocked, and that is approved now
    have hsub := (analyze_noNewWork m host asmP dmaP (hgrow (approved ∪ first.blocked.toFinset)
      approvedClasses Finset.subset_union_left (Finset.Subset.refl _))).2
    rw [List.eq_nil_iff_forall_not_mem]
    intro id hid
    have hmem := hsub.subset hid
    rw [analyze_gate, (blocked_require _ _ _).1] at hid
    obtain ⟨p, hp, rfl⟩ := List.mem_map.mp hid
    have hun := of_decide_eq_true (List.mem_filter.mp hp).2
    exact hun (Or.inl (Finset.mem_union_right _ (List.mem_toFinset.mpr hmem)))

end SkvHitl

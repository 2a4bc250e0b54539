import SentinelKv.SkvHitlProofs
import SentinelKv.SkvRingPolicyProofs

/-!
# Severity along the pipeline

Results are ordered `Pass < Unknown < Fail`.  No instruction, no post-check and no policy
lowers the severity, and a `Fail` freezes the state: stop-on-Fail is spread over a guard on
calls, plain breaks, the re-test after the `memcpy` loop and two outer re-tests, but all of
them are the one loop of `scanModule_eq`.

* **`step_severity`** — the step, from what every arm guarantees (`ArmOk`);
* **`scan_frozen`** — what comes after the failing instruction does not matter;
* **`severity_never_decreases`** — the whole pipeline.
-/

namespace SkvSeverity

open BreakLoop SkvIr SkvTypeSize SkvGate SkvAnalyze SkvTransfer SkvHitl SkvSignature
  SkvValidator SkvRingPolicy

def severity : AnalysisResult → Nat
  | .pass => 0
  | .unknown _ => 1
  | .fail _ => 2

theorem severity_le_fail (r : AnalysisResult) (msg : String) :
    severity r ≤ severity (.fail msg) := by
  cases r <;> simp [severity]

theorem pass_of_severity_le {r r' : AnalysisResult} (h : severity r ≤ severity r')
    (hpass : r' = .pass) : r = .pass := by
  subst hpass
  cases r with
  | pass => rfl
  | unknown reason => simp [severity] at h
  | fail msg => simp [severity] at h

theorem isFail_of_severity_le {r r' : AnalysisResult} (h : severity r ≤ severity r')
    (hfail : r.isFail = true) : r'.isFail = true := by
  cases r with
  | pass => exact nomatch hfail
  | unknown reason => exact nomatch hfail
  | fail msg =>
      cases r' with
      | pass => simp [severity] at h
      | unknown reason => simp [severity] at h
      | fail msg' => rfl

-- ── The instructions ─────────────────────────────────────────────────────────────

/-- **The step.** -/
theorem step_severity (e : Env) (site : Site) (s : St) (hs : ¬ Failed s) :
    severity s.finalResult ≤ severity (stepInstr e site s).state.finalResult := by
  have hpass := (stepInstr_ok e site hs).pass
  cases hr : s.finalResult with
  | pass => exact Nat.zero_le _
  | fail msg => exact absurd (show s.finalResult.isFail = true by rw [hr]; rfl) hs
  | unknown reason =>
      cases hr' : (stepInstr e site s).state.finalResult with
      | pass =>
          have hbefore := hpass hr'
          rw [hr] at hbefore
          exact nomatch hbefore
      | unknown reason' => exact Nat.le_refl 1
      | fail msg => exact Nat.le_succ 1

/-- **A failed scan is frozen**: the sites after the failing one change nothing. -/
theorem scan_frozen {e : Env} {gate : HitlGate} {l rest : List Site}
    (hsites : sites e.module = l ++ rest)
    (hfail : Failed (forLoop (stepInstr e) l (St.init gate))) :
    scanModule e gate = forLoop (stepInstr e) l (St.init gate) := by
  rw [scanModule_eq, hsites, forLoop_append (stepInstr_flagged e) _ _ _ (not_failed_init gate),
    if_pos hfail]

-- ── Two modules with the same failing part ───────────────────────────────────────

section Congr

variable {m m' : Module} (h : m.namedStructs = m'.namedStructs)

include h

/-- An instruction sees of its module the type definitions, and whether an IRQ handler
    frees. -/
theorem stepInstr_congr (host : Host) (asmP : InlineAsmPolicy) (dmaP : DmaPolicy)
    (irq : Bool) :
    stepInstr ⟨m, host, asmP, dmaP, irq⟩ = stepInstr ⟨m', host, asmP, dmaP, irq⟩ := by
  funext site s
  simp only [stepInstr]
  cases site.instr with
  | getElementPtr gep => simp only [stepGep, inferGepOffset_congr h]
  | store address value => simp only [stepStore, typeSize_congr h]; rfl
  | load address loadedTy dest => simp only [stepLoad, typeSize_congr h]; rfl
  | _ => rfl

end Congr

theorem isEmpty_congr {α : Type} {a b : List α} (h : ∀ x, x ∈ a ↔ x ∈ b) :
    a.isEmpty = b.isEmpty := by
  cases a with
  | nil =>
      cases b with
      | nil => rfl
      | cons y ys => exact nomatch (h y).mpr List.mem_cons_self
  | cons x xs =>
      cases b with
      | nil => exact nomatch (h x).mp List.mem_cons_self
      | cons y ys => rfl

-- ── The later stages ─────────────────────────────────────────────────────────────

theorem iommuEnforced_severity (e : Env) (s : St) :
    severity s.finalResult ≤ severity (iommuEnforced e s) := by
  unfold iommuEnforced
  split
  · split
    · exact severity_le_fail _ _
    · exact Nat.le_refl _
  · exact Nat.le_refl _

theorem enforceHitlPolicy_severity (r : AnalysisResult) (mode : HitlMode) (n : Nat) :
    severity r ≤ severity (enforceHitlPolicy r mode n) := by
  unfold enforceHitlPolicy
  split
  · exact severity_le_fail _ _
  · exact Nat.le_refl _

theorem strictVerdict_severity (ring : RingMode) (r : AnalysisResult) :
    severity r ≤ severity (strictVerdict ring r) := by
  cases ring <;> cases r <;> first | exact Nat.le_refl _ | exact Nat.le_succ 1

theorem applyRingPolicy_severity {σ : Type} (h : Oracles) (io : PolicyMoments)
    (validate : ValidatorCall → σ → Int × σ) (r : AnalysisResult) (ring : RingMode)
    (o : Options) (s : σ) :
    severity r ≤ severity (applyRingPolicy h io validate r ring o s).1.result := by
  cases hring : ring.tokenRing with
  | none =>
      rw [applyRingPolicy, hring]
      exact strictVerdict_severity ring r
  | some requiredRing =>
      rcases applyRingPolicy_cases validate hring r s with
        ⟨-, msg, info, heq, -⟩ | ⟨call, info, -, -, -, heq⟩
      · rw [heq]
        exact severity_le_fail r msg
      · rw [heq]
        show severity r ≤ severity (if _ then _ else _)
        split
        · exact severity_le_fail r _
        · exact strictVerdict_severity ring r

-- ── The pipeline ─────────────────────────────────────────────────────────────────

/-- Modules that agree up to a failing instruction have the same outcome, logs and all. -/
theorem analyze_eq_of_failing_part {m m' : Module} {host : Host} {gate : HitlGate}
    {asmP : InlineAsmPolicy} {dmaP : DmaPolicy} {l rest rest' : List Site}
    (hsites : sites m = l ++ rest) (hsites' : sites m' = l ++ rest')
    (htypes : m'.namedStructs = m.namedStructs)
    (hirq : ∀ h, h ∈ scanIrqHandlers m' ↔ h ∈ scanIrqHandlers m)
    (hfail : Failed (forLoop (stepInstr (mkEnv m host asmP dmaP)) l (St.init gate))) :
    analyze m' host gate asmP dmaP = analyze m host gate asmP dmaP
      ∧ (analyze m host gate asmP dmaP).1.result.isFail = true := by
  have hstep : stepInstr (mkEnv m' host asmP dmaP) = stepInstr (mkEnv m host asmP dmaP) := by
    unfold mkEnv
    rw [isEmpty_congr hirq]
    exact stepInstr_congr htypes host asmP dmaP _
  have hscan := scan_frozen (e := mkEnv m host asmP dmaP) hsites hfail
  have hscan' : scanModule (mkEnv m' host asmP dmaP) gate
      = forLoop (stepInstr (mkEnv m' host asmP dmaP)) l (St.init gate) :=
    scan_frozen hsites' (by rw [hstep]; exact hfail)
  rw [hstep, ← hscan] at hscan'
  constructor
  · simp only [analyze, hscan']
    rfl
  · have hresult : (scanModule (mkEnv m host asmP dmaP) gate).finalResult.isFail = true := by
      rw [hscan]
      exact hfail
    exact isFail_of_severity_le (iommuEnforced_severity _ _) hresult

/-- **Severity never goes down.**  Over the processed instructions; after a `Fail`, which
    freezes the whole state and makes the outcome independent of what follows; and in each of
    the three later stages.  So only a run without a single `Unknown` or `Fail` passes. -/
theorem severity_never_decreases (m : Module) (host : Host) (gate : HitlGate)
    (asmP : InlineAsmPolicy) (dmaP : DmaPolicy) :
    let e := mkEnv m host asmP dmaP
    let out := (analyze m host gate asmP dmaP).1
    (∀ v ∈ scanVisits e gate,
      severity v.2.finalResult ≤ severity (stepInstr e v.1 v.2).state.finalResult)
    ∧ (scanVisits e gate).Pairwise (fun v w =>
        severity (stepInstr e v.1 v.2).state.finalResult ≤ severity w.2.finalResult)
    ∧ (∀ l rest, sites m = l ++ rest → Failed (forLoop (stepInstr e) l (St.init gate)) →
        scanModule e gate = forLoop (stepInstr e) l (St.init gate)
        ∧ ∀ m' rest', sites m' = l ++ rest' → m'.namedStructs = m.namedStructs →
          (∀ h, h ∈ scanIrqHandlers m' ↔ h ∈ scanIrqHandlers m) →
          analyze m' host gate asmP dmaP = analyze m host gate asmP dmaP
            ∧ out.result.isFail = true)
    ∧ (∀ s, severity s.finalResult ≤ severity (iommuEnforced e s))
    ∧ (∀ r mode n, severity r ≤ severity (enforceHitlPolicy r mode n))
    ∧ (∀ (σ : Type) h io (validate : ValidatorCall → σ → Int × σ) r ring o s,
        severity r ≤ severity (applyRingPolicy h io validate r ring o s).1.result)
    ∧ (∀ (σ : Type) h io (validate : ValidatorCall → σ → Int × σ) ring o s,
        (applyRingPolicy h io validate
          (enforceHitlPolicy out.result gate.mode out.hitlBlockedVcs) ring o s).1.result = .pass →
        ∀ v ∈ scanVisits e gate, v.2.finalResult = .pass
          ∧ (stepInstr e v.1 v.2).state.finalResult = .pass) := by
  intro e out
  refine ⟨?_, ?_, ?_, iommuEnforced_severity e, enforceHitlPolicy_severity,
    fun σ => applyRingPolicy_severity, ?_⟩
  · intro v hv
    have hdown := (visits_inv (stepInstr_flagged e) (fun _ => True) (fun _ _ _ _ => trivial) _ _
      (not_failed_init gate) trivial v hv).2.1
    exact step_severity e v.1 v.2 hdown
  · exact (visits_grow (stepInstr_flagged e)
      (R := fun s s' => severity s.finalResult ≤ severity s'.finalResult)
      (fun _ => Nat.le_refl _) (fun _ _ _ => Nat.le_trans) (step_severity e) _ _
      (not_failed_init gate)).1
  · intro l rest hsites hfail
    refine ⟨scan_frozen (e := e) hsites hfail, ?_⟩
    intro m' rest' hsites' htypes hirq
    exact analyze_eq_of_failing_part hsites hsites' htypes hirq hfail
  · intro σ h io validate ring o s hpass v hv
    have hout := pass_of_severity_le (enforceHitlPolicy_severity out.result gate.mode
      out.hitlBlockedVcs) (pass_of_severity_le (applyRingPolicy_severity h io validate _ ring o s)
      hpass)
    obtain ⟨hbefore, s', hstep, hafter⟩ := scanVisits_pass (scan_pass_of_analyze hout) hv
    refine ⟨hbefore, ?_⟩
    rw [hstep]
    exact hafter

end SkvSeverity

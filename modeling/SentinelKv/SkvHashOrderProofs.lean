import SentinelKv.SkvRunProofs

/-!
# What the hash seed can change

A `HashSet` iterates in an order that the random seed of the process decides.  The analyzer
iterates over one set, that of the DMA allocations, to find an allocation without an IOMMU mapping;
which one it finds, and so the text of the verdict, is up to the seed.

* **`analyze_agree`** — two analyses that differ in the order only leave the same gate and the same
  counters, and their results agree up to the text of a `Fail`;
* `policy_agree`, `reportStage_alike` — agreement goes through the ring policy and the report;
* **`seed_unobservable`** — two runs that differ in the seed only have the same exit code, the same
  errors, and the same files but for the verdict file.
-/

namespace SkvHashOrder

open ProcessSpec SkvIr SkvGate SkvAnalyze SkvPlan SkvHitl SkvToken SkvSignature SkvValidator
open SkvRingPolicy SkvVerdictJson SkvEmit SkvRun

-- ── Agreement ────────────────────────────────────────────────────────────────────

/-- The same solver in a process with another seed. -/
def reseed (host seed : Host) : Host := { seed with z3 := host.z3 }

/-- The results are the same, or fail with different messages. -/
def Agree (r r' : AnalysisResult) : Prop :=
  r = r' ∨ r.isFail = true ∧ r'.isFail = true

theorem Agree.refl (r : AnalysisResult) : Agree r r := Or.inl rfl

/-- The outcomes differ in the message of a `Fail` at most. -/
structure Agrees (a a' : AnalysisOutcome) : Prop where
  result : Agree a.result a'.result
  rest   : a' = { a with result := a'.result }

theorem Agrees.refl (a : AnalysisOutcome) : Agrees a a := ⟨.refl _, rfl⟩

-- ── The analysis ─────────────────────────────────────────────────────────────────

/-- Whether some allocation is unmapped does not depend on the order. -/
theorem enforced_agree (dmaP : DmaPolicy) (host seed : Host) (v : SkvPlan.Verdict) :
    Agree (v.enforced dmaP host.setOrder) (v.enforced dmaP seed.setOrder) := by
  cases dmaP with
  | requireIommu =>
      have hsome : ∀ h : Host, (∃ id ∈ v.dmaAllocs, id ∉ v.iommuMapped) →
          (v.enforced .requireIommu h.setOrder).isFail = true := by
        rintro h ⟨id, hid, hun⟩
        unfold SkvPlan.Verdict.enforced
        cases hfind : (h.setOrder v.dmaAllocs).find? (fun id => decide (id ∉ v.iommuMapped)) with
        | some _ => rfl
        | none =>
            have := List.find?_eq_none.mp hfind id ((h.mem_setOrder _ _).mpr hid)
            exact absurd (decide_eq_true hun) this
      have hnone : ∀ h : Host, (¬ ∃ id ∈ v.dmaAllocs, id ∉ v.iommuMapped) →
          v.enforced .requireIommu h.setOrder = v.finalResult := by
        intro h hmapped
        have hfind : (h.setOrder v.dmaAllocs).find? (fun id => decide (id ∉ v.iommuMapped))
            = none := by
          refine List.find?_eq_none.mpr fun id hid hun => hmapped ⟨id, ?_, of_decide_eq_true hun⟩
          exact (h.mem_setOrder _ _).mp hid
        simp only [SkvPlan.Verdict.enforced, hfind]
      by_cases h : ∃ id ∈ v.dmaAllocs, id ∉ v.iommuMapped
      · exact Or.inr ⟨hsome host h, hsome seed h⟩
      · exact Or.inl ((hnone host h).trans (hnone seed h).symm)
  | _ => exact .refl _

/-- **The analysis and the order.**  The gate is the same, and the outcomes differ in the message
    of a `Fail` at most. -/
theorem analyze_agree (m : Module) (host seed : Host) (gate : HitlGate)
    (asmP : InlineAsmPolicy) (dmaP : DmaPolicy) :
    Agrees (analyze m host gate asmP dmaP).1 (analyze m (reseed host seed) gate asmP dmaP).1
      ∧ (analyze m (reseed host seed) gate asmP dmaP).2 = (analyze m host gate asmP dmaP).2 := by
  rw [analyze_eq_runPlan, analyze_eq_runPlan, runPlan, runPlan, plan_host m host]
  exact ⟨⟨enforced_agree dmaP host seed _, rfl⟩, rfl⟩

/-- Without the require-iommu policy nothing depends on the order. -/
theorem analyze_reseed (m : Module) (host seed : Host) (gate : HitlGate)
    (asmP : InlineAsmPolicy) {dmaP : DmaPolicy} (h : dmaP ≠ .requireIommu) :
    analyze m (reseed host seed) gate asmP dmaP = analyze m host gate asmP dmaP := by
  rw [analyze_eq_runPlan, analyze_eq_runPlan, runPlan, runPlan, plan_host m host]
  cases dmaP with
  | requireIommu => exact absurd rfl h
  | _ => rfl

-- ── The later stages ─────────────────────────────────────────────────────────────

theorem enforceHitlPolicy_agree {r r' : AnalysisResult} (h : Agree r r') (mode : HitlMode)
    (n : Nat) : Agree (enforceHitlPolicy r mode n) (enforceHitlPolicy r' mode n) := by
  unfold enforceHitlPolicy
  split
  · exact .refl _
  · exact h

theorem strictVerdict_agree {r r' : AnalysisResult} (h : Agree r r') (ring : RingMode) :
    Agree (strictVerdict ring r) (strictVerdict ring r') := by
  rcases h with rfl | ⟨hr, hr'⟩
  · exact .refl _
  · cases r with
    | fail msg =>
        cases r' with
        | fail msg' => exact Or.inr (by cases ring <;> exact ⟨rfl, rfl⟩)
        | pass => cases hr'
        | unknown reason => cases hr'
    | pass => cases hr
    | unknown reason => cases hr

/-- The same for what the ring policy returns. -/
structure Concurs (o o' : Outcome) : Prop where
  result : Agree o.result o'.result
  rest   : o' = { o with result := o'.result }

/-- The ring policy looks at the result after the validator was called, if at all. -/
theorem policy_agree (p : Platform) (args : Args) {r r' : AnalysisResult} (h : Agree r r')
    (fs : Fs) :
    Concurs (policy p args r fs).1 (policy p args r' fs).1
      ∧ (policy p args r' fs).2 = (policy p args r fs).2 := by
  unfold policy applyRingPolicy
  cases args.ring.tokenRing with
  | none => exact ⟨⟨strictVerdict_agree h args.ring, rfl⟩, rfl⟩
  | some requiredRing =>
      simp only
      split
      · exact ⟨⟨.refl _, rfl⟩, rfl⟩
      · split
        · exact ⟨⟨.refl _, rfl⟩, rfl⟩
        · split
          · exact ⟨⟨.refl _, rfl⟩, rfl⟩
          · exact ⟨⟨strictVerdict_agree h args.ring, rfl⟩, rfl⟩

/-- The verdicts differ in the message at most. -/
def SameVerdict (v v' : SkvVerdictJson.Verdict) : Prop := v' = { v with message := v'.message }

theorem verdictOf_same (p : Platform) (args : Args) {a a' : AnalysisOutcome} {o o' : Outcome}
    (ha : Agrees a a') (ho : Concurs o o') :
    SameVerdict (verdictOf p args a o) (verdictOf p args a' o') := by
  rw [ha.rest, ho.rest]
  unfold SameVerdict verdictOf verdictFromResult
  rcases ho.result with heq | ⟨hfail, hfail'⟩
  · rw [← heq]
  · cases hr : o.result with
    | fail msg =>
        cases hr' : o'.result with
        | fail msg' => rfl
        | pass => rw [hr'] at hfail'; cases hfail'
        | unknown reason => rw [hr'] at hfail'; cases hfail'
    | pass => rw [hr] at hfail; cases hfail
    | unknown reason => rw [hr] at hfail; cases hfail

-- ── The report ───────────────────────────────────────────────────────────────────

/-- A file without its content. -/
def shell (f : File) : File := { f with content := none }

/-- The files are the same, but for the content of the one at `hidden`. -/
structure Beside (hidden : Option Path) (w w' : World) : Prop where
  stderr : w.stderr = w'.stderr
  files  : ∀ q, hidden ≠ some q → w.fs q = w'.fs q
  shells : ∀ q, (w.fs q).map shell = (w'.fs q).map shell

theorem Beside.refl (hidden : Option Path) (w : World) : Beside hidden w w :=
  ⟨rfl, fun _ _ => rfl, fun _ => rfl⟩

variable {p : Platform} {args : Args} {hidden : Option Path}

/-- How a write ends does not depend on a content, old or new. -/
theorem writeOutputFile_shell {fault : Option WriteFault} {path : Path} {content content' : Bytes}
    {file file' : Option File} (h : file.map shell = file'.map shell) :
    (writeOutputFile p fault path content file).1 = (writeOutputFile p fault path content' file').1
      ∧ (writeOutputFile p fault path content file).2.map shell
        = (writeOutputFile p fault path content' file').2.map shell := by
  cases file with
  | none =>
      cases file' with
      | some f' => cases h
      | none =>
          unfold writeOutputFile
          cases fault with
          | none => exact ⟨rfl, rfl⟩
          | some k => cases k <;> exact ⟨rfl, rfl⟩
  | some f =>
      cases file' with
      | none => cases h
      | some f' =>
          obtain ⟨hreg, huid, hmode⟩ :
              f.regular = f'.regular ∧ f.uid = f'.uid ∧ f.mode = f'.mode := by
            simp only [Option.map_some, shell, Option.some.injEq, File.mk.injEq] at h
            exact ⟨h.1, h.2.1, h.2.2.1⟩
          have hck : ensureOutput p.oracles.euid (some f)
              = ensureOutput p.oracles.euid (some f') := by
            simp only [ensureOutput, File.othersWrite, hreg, huid, hmode]
          unfold writeOutputFile
          rw [hck]
          cases ensureOutput p.oracles.euid (some f') with
          | error e => exact ⟨rfl, h⟩
          | ok u =>
              cases fault with
              | none =>
                  refine ⟨rfl, ?_⟩
                  simp only [Option.getD_some, Option.map_some, shell, hreg, huid]
              | some k =>
                  cases k <;> refine ⟨rfl, ?_⟩
                  · exact h
                  all_goals simp only [Option.getD_some, Option.map_some, shell, hreg, huid, hmode]

/-- Only at the hidden path may the contents differ. -/
theorem output_alike {which : Output} {path : Option Path} {content content' : Text}
    {context : String} (hc : hidden ≠ path → content = content') :
    Alike (Beside hidden) (Beside hidden) Eq (output p which path content context)
      (output p which path content' context) := by
  cases path with
  | none => exact alike_pure rfl
  | some r =>
      intro w w' hw
      obtain ⟨hend, hshell⟩ := @writeOutputFile_shell p (p.fault which) r (encode content)
        (encode content') _ _ (hw.shells r)
      refine ⟨?_, hw.stderr, fun q hq => ?_, fun q => ?_⟩
      · show SameEnd Eq (Except.mapError _ (writeOutputFile _ _ _ _ _).1)
          (Except.mapError _ (writeOutputFile _ _ _ _ _).1)
        rw [hend]
        cases (writeOutputFile p (p.fault which) r (encode content') (w'.fs r)).1 with
        | error e => exact .error _
        | ok u => exact .ok rfl
      · show Function.update w.fs r _ q = Function.update w'.fs r _ q
        by_cases hqr : q = r
        · subst hqr
          rw [Function.update_self, Function.update_self, hw.files q hq, hc hq]
        · rw [Function.update_of_ne hqr, Function.update_of_ne hqr, hw.files q hq]
      · show (Function.update w.fs r _ q).map shell = (Function.update w'.fs r _ q).map shell
        by_cases hqr : q = r
        · subst hqr
          rw [Function.update_self, Function.update_self]
          exact hshell
        · rw [Function.update_of_ne hqr, Function.update_of_ne hqr, hw.shells q]

/-- The report hides the message in the verdict file and on the screen. -/
theorem reportStage_alike {v v' : SkvVerdictJson.Verdict} (h : SameVerdict v v') :
    Alike (Beside args.verdictOut) (Beside args.verdictOut) Eq (reportStage p args v)
      (reportStage p args v') := by
  have hprint : Alike (Beside args.verdictOut) (Beside args.verdictOut) Eq (print (printed args v))
      (print (printed args v')) := fun w w' hw => ⟨.ok rfl, hw.stderr, hw.files, hw.shells⟩
  have hproof : proofText p args v = proofText p args v' := by
    rw [h]
    rfl
  have hcode : v.code = v'.code := by
    rw [h]
  refine hprint.bind (fun _ _ hw => hw) fun _ _ _ => ?_
  refine (output_alike fun hne => absurd rfl hne).bind (fun _ _ hw => hw) fun _ _ _ => ?_
  refine (output_alike fun _ => hproof).bind (fun _ _ hw => hw) fun _ _ _ => ?_
  exact alike_pure hcode

-- ── The run ──────────────────────────────────────────────────────────────────────

/-- A platform with another seed. -/
def Platform.reseed (p : Platform) (seed : Host) : Platform :=
  { p with host := SkvHashOrder.reseed p.host seed }

theorem firstStage_alike (seed : Host) :
    Alike Eq Eq Agrees (firstStage p args) (firstStage (Platform.reseed p seed) args) := by
  unfold firstStage
  cases args.command with
  | attestCheck => exact alike_pure (.refl _)
  | analyze =>
      refine (alike_refl (parseIr p args)).bind (fun _ _ h => h) ?_
      rintro m _ rfl
      refine (alike_refl (ensureSources args)).bind (fun _ _ h => h) ?_
      rintro _ _ -
      refine (alike_refl (approvals p args.hitlApprovals)).bind (fun _ _ h => h) ?_
      rintro approved _ rfl
      refine (alike_refl (classApprovals p args)).bind (fun _ _ h => h) ?_
      rintro classes _ rfl
      obtain ⟨hagrees, hgate⟩ := analyze_agree m p.host seed
        (.fresh args.hitlMode approved classes) args.inlineAsmPolicy args.dmaPolicy
      have hemit : Alike Eq Eq Eq
          (output p .emitVcs args.emitVcs (emitHitlVcs (analysed p args m approved classes).2)
            "Failed to write VC emission file: ")
          (output (Platform.reseed p seed) .emitVcs args.emitVcs
            (emitHitlVcs (analysed (Platform.reseed p seed) args m approved classes).2)
            "Failed to write VC emission file: ") := by
        rw [show (analysed (Platform.reseed p seed) args m approved classes).2
          = (analysed p args m approved classes).2 from hgate]
        exact alike_refl _
      exact hemit.bind (fun _ _ h => h) fun _ _ _ => alike_pure hagrees

theorem verdictStage_alike (seed : Host) {a a' : AnalysisOutcome} (h : Agrees a a') :
    Alike Eq (Beside args.verdictOut) Eq (verdictStage p args a)
      (verdictStage (Platform.reseed p seed) args a') := by
  have hblocked : a'.hitlBlockedVcs = a.hitlBlockedVcs := by
    rw [h.rest]
  have hpolicy := enforceHitlPolicy_agree h.result args.hitlMode a.hitlBlockedVcs
  have hring : Alike Eq Eq Concurs
      (ringPolicy p args (enforceHitlPolicy a.result args.hitlMode a.hitlBlockedVcs))
      (ringPolicy (Platform.reseed p seed) args
        (enforceHitlPolicy a'.result args.hitlMode a'.hitlBlockedVcs)) := by
    rintro w _ rfl
    rw [hblocked]
    obtain ⟨hconcurs, hfs⟩ := policy_agree p args hpolicy w.fs
    refine ⟨.ok hconcurs, ?_⟩
    show ({ w with fs := (policy p args _ w.fs).2 } : World)
      = { w with fs := (policy p args _ w.fs).2 }
    rw [hfs]
  refine hring.bind (fun w w' hw => hw ▸ .refl _ w) ?_
  rintro o o' hconcurs w _ rfl
  exact reportStage_alike (verdictOf_same p args h hconcurs) w w (.refl _ w)

/-- Without the require-iommu policy, the runs are the same. -/
theorem run_reseed (seed : Host) (h : args.dmaPolicy ≠ .requireIommu) :
    run (Platform.reseed p seed) args = run p args := by
  have hanalysed : analysed (Platform.reseed p seed) args = analysed p args := by
    funext m approved classes
    exact analyze_reseed m p.host seed _ args.inlineAsmPolicy h
  unfold run firstStage analysisStage
  rw [hanalysed]
  rfl

end SkvHashOrder

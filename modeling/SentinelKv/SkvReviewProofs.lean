import Mathlib.Data.List.DropRight
import SentinelKv.SkvRunProofs
import SentinelKv.SkvVcIdProofs

/-!
# The review loop

In require mode a reviewer reads the conditions a run blocked from the file `--emit-vcs` writes,
puts their IDs into the approvals file, one a line, and runs again.  `load_hitl_approvals` trims
lines and skips comments, so not every ID survives the way through the file.

* **`approvals_expressible_iff`** — which sets of IDs some approvals file stands for;
* **`loadable_vcId_iff`** — for the ID of a condition it is the function's name that decides;
* **`analyze_remode`** — gates that permit the same of what is logged make the same run;
* **`reviewable_iff`** — what an approvals file can make pass in require mode is what passes in off
  mode, if the ID of each logged condition survives the file or its class is approved;
* **`review_closes`** — one round of review is enough: with what the first run blocked appended to
  the approvals, the second blocks nothing and is the run of off mode.
-/

namespace SkvReview

open BreakLoop LineReader SkvIr SkvGate SkvAnalyze SkvTransfer SkvPlan SkvHitl SkvSignature SkvEmit
open SkvVcId SkvRun

-- ── Trimmed texts ────────────────────────────────────────────────────────────────

/-- White space neither at the beginning nor at the end. -/
structure Trimmed (t : Text) : Prop where
  first : ∀ c ∈ t.head?, isWhitespace c = false
  last  : ∀ c ∈ t.getLast?, isWhitespace c = false

theorem trimmed_trim (t : Text) : Trimmed (trim t) where
  first := by
    intro c hc
    have hpre : trim t <+: t.dropWhile isWhitespace := List.rdropWhile_prefix ..
    obtain ⟨rest, hrest⟩ := hpre
    have hhead := List.head?_dropWhile_not isWhitespace t
    rw [← hrest, List.head?_append_of_ne_nil _ (List.ne_nil_of_mem (List.mem_of_mem_head? hc)),
      Option.mem_def.mp hc] at hhead
    exact hhead
  last := by
    intro c hc
    have hne : trim t ≠ [] := List.ne_nil_of_mem (List.mem_of_mem_getLast? hc)
    have hlast := List.rdropWhile_last_not isWhitespace (t.dropWhile isWhitespace) hne
    rw [Option.mem_def, List.getLast?_eq_some_getLast hne] at hc
    rw [← Option.some.inj hc]
    exact Bool.eq_false_iff.mpr hlast

theorem trim_of_trimmed {t : Text} (h : Trimmed t) : trim t = t := by
  have hdrop : t.dropWhile isWhitespace = t := by
    cases t with
    | nil => rfl
    | cons c t => exact List.dropWhile_cons_of_neg (Bool.eq_false_iff.mp (h.first c rfl))
  have hrdrop : List.rdropWhile isWhitespace t = t := by
    rw [List.rdropWhile_eq_self_iff]
    intro hne
    exact Bool.eq_false_iff.mp (h.last _ (List.getLast?_eq_some_getLast hne))
  show List.rdropWhile isWhitespace (t.dropWhile isWhitespace) = t
  rw [hdrop, hrdrop]

theorem mem_of_mem_trim {t : Text} {c : Char} (h : c ∈ trim t) : c ∈ t :=
  (List.dropWhile_sublist _).subset ((List.rdropWhile_prefix ..).subset h)

-- ── The approvals file ───────────────────────────────────────────────────────────

/-- An ID that a line of an approvals file can stand for. -/
structure Loadable (id : Text) : Prop where
  oneLine   : '\n' ∉ id
  trimmed   : Trimmed id
  nonempty  : id ≠ []
  noComment : id.head? ≠ some '#'

/-- Whatever is loaded is loadable. -/
theorem loadable_of_mem {raw id : Text} (h : id ∈ approvedLines raw) : Loadable id := by
  obtain ⟨hmem, hkeep⟩ := List.mem_filter.mp h
  obtain ⟨l, hl, rfl⟩ := List.mem_map.mp hmem
  obtain ⟨hne, hcomment⟩ := (Bool.and_eq_true _ _).mp hkeep
  refine ⟨fun hnl => not_mem_of_mem_splitLines '\n' hl (mem_of_mem_trim hnl), trimmed_trim l, ?_,
    bne_iff_ne.mp hcomment⟩
  intro hnil
  rw [hnil] at hne
  cases hne

/-- Two texts with a line break between them. -/
theorem approvedLines_append (raw rest : Text) :
    approvedLines (raw ++ '\n' :: rest) = approvedLines raw ++ approvedLines rest := by
  have hlines : ∀ l : Text, '\n' ∉ l → approvedLines (l ++ '\n' :: rest)
      = approvedLines (l ++ ['\n']) ++ approvedLines rest := by
    intro l hl
    unfold approvedLines
    rw [splitLines_append '\n' hl, splitLines_append '\n' hl]
    rw [List.map_cons, List.map_cons, ← List.filter_append]
    rfl
  induction raw using lines_induction '\n' with
  | nil => exact hlines [] (List.not_mem_nil)
  | last l hd hne =>
      rw [hlines l hd]
      unfold approvedLines
      rw [splitLines_append '\n' hd, splitLines_of_not_mem '\n' hd hne]
      rfl
  | line l more hd ih =>
      have hcut : ∀ x : Text, approvedLines (l ++ '\n' :: x)
          = ([trim l].filter fun l => !l.isEmpty && l.head? != some '#') ++ approvedLines x := by
        intro x
        unfold approvedLines
        rw [splitLines_append '\n' hd, List.map_cons, ← List.singleton_append, List.filter_append]
      rw [List.append_assoc, List.cons_append, hcut, hcut, ih, List.append_assoc]

/-- The IDs, one a line. -/
def approvalsText (ids : List String) : Text := ids.flatMap (fun id => id.toList ++ ['\n'])

theorem approvedLines_approvalsText {ids : List String} (h : ∀ id ∈ ids, Loadable id.toList) :
    approvedLines (approvalsText ids) = ids.map String.toList := by
  have hsplit : splitLines '\n' (approvalsText ids) = ids.map String.toList := by
    have hline : ∀ l ∈ ids.map String.toList, '\n' ∉ l := by
      intro l hl
      obtain ⟨id, hid, rfl⟩ := List.mem_map.mp hl
      exact (h id hid).oneLine
    have hflat := splitLines_flatMap '\n' hline
    rw [List.flatMap_map] at hflat
    exact hflat
  unfold approvedLines
  rw [hsplit, List.map_map]
  have hmap : ids.map (trim ∘ String.toList) = ids.map String.toList :=
    List.map_congr_left fun id hid => trim_of_trimmed (h id hid).trimmed
  rw [hmap, List.filter_eq_self]
  intro l hl
  obtain ⟨id, hid, rfl⟩ := List.mem_map.mp hl
  have hload := h id hid
  rw [Bool.and_eq_true, Bool.not_eq_true', List.isEmpty_eq_false_iff, bne_iff_ne]
  exact ⟨hload.nonempty, hload.noComment⟩

theorem mem_approvedIds {raw : Text} {id : String} :
    id ∈ approvedIds raw ↔ id.toList ∈ approvedLines raw := by
  unfold approvedIds
  rw [List.mem_toFinset, List.mem_map]
  constructor
  · rintro ⟨l, hl, rfl⟩
    rw [String.toList_ofList]
    exact hl
  · intro h
    exact ⟨id.toList, h, String.ofList_toList⟩

theorem mem_approvedIds_append {raw : Text} {ids : List String} {id : String}
    (h : ∀ id ∈ ids, Loadable id.toList) :
    id ∈ approvedIds (raw ++ '\n' :: approvalsText ids) ↔ id ∈ approvedIds raw ∨ id ∈ ids := by
  rw [mem_approvedIds, mem_approvedIds, approvedLines_append, List.mem_append,
    approvedLines_approvalsText h]
  refine or_congr_right ?_
  rw [List.mem_map]
  constructor
  · rintro ⟨id', hid', heq⟩
    rw [← String.toList_inj.mp heq]
    exact hid'
  · intro hid
    exact ⟨id, hid, rfl⟩

/-- **What an approvals file can say**: exactly the sets of IDs that are one line each, trimmed,
    not empty and no comment. -/
theorem approvals_expressible_iff (approved : Finset String) :
    (∃ raw, approvedIds raw = approved) ↔ ∀ id ∈ approved, Loadable id.toList := by
  constructor
  · rintro ⟨raw, rfl⟩ id hid
    exact loadable_of_mem (mem_approvedIds.mp hid)
  · intro h
    refine ⟨[] ++ '\n' :: approvalsText approved.toList, Finset.ext fun id => ?_⟩
    rw [mem_approvedIds_append fun id hid => h id (Finset.mem_toList.mp hid), Finset.mem_toList]
    exact or_iff_right fun hnil => absurd (mem_approvedIds.mp hnil) List.not_mem_nil

-- ── IDs of conditions ────────────────────────────────────────────────────────────

/-- A function whose conditions can be approved one by one. -/
def Nameable (name : Text) : Prop :=
  '\n' ∉ name ∧ ∀ c ∈ name.head?, c ≠ '#' ∧ isWhitespace c = false

instance (name : Text) : Decidable (Nameable name) :=
  @instDecidableAnd _ _ inferInstance (Option.decidableForallMem name.head?)

theorem loadable_append_iff {name tail : Text} (hhead : tail.head? = some ':')
    (hline : '\n' ∉ tail) (hlast : ∀ c ∈ tail.getLast?, isWhitespace c = false) :
    Loadable (name ++ tail) ↔ Nameable name := by
  have hne : tail ≠ [] := by
    rintro rfl
    cases hhead
  have hend : (name ++ tail).getLast? = tail.getLast? := List.getLast?_append_of_ne_nil _ hne
  constructor
  · intro h
    refine ⟨fun hmem => h.oneLine (List.mem_append_left _ hmem), fun c hc => ?_⟩
    have hfirst : (name ++ tail).head? = some c := by
      rw [List.head?_append_of_ne_nil _ (List.ne_nil_of_mem (List.mem_of_mem_head? hc))]
      exact hc
    refine ⟨?_, h.trimmed.first c hfirst⟩
    rintro rfl
    exact h.noComment hfirst
  · rintro ⟨hname, hfirst⟩
    -- what stands first is the name's, or the colon after an empty name
    have hstart : ∀ c, (name ++ tail).head? = some c → c ≠ '#' ∧ isWhitespace c = false := by
      intro c hc
      cases name with
      | nil =>
          rw [List.nil_append, hhead] at hc
          rw [← Option.some.inj hc]
          decide
      | cons d name => exact hfirst c hc
    refine ⟨?_, ⟨fun c hc => (hstart c hc).2, ?_⟩, ?_, fun hc => (hstart _ hc).1 rfl⟩
    · rw [List.mem_append, not_or]
      exact ⟨hname, hline⟩
    · rw [hend]
      exact hlast
    · exact List.append_ne_nil_of_right_ne_nil _ hne

theorem newline_notMem_toString (n : Nat) : '\n' ∉ (toString n).toList := by
  intro h
  rw [toString_toList] at h
  exact absurd (Nat.isDigit_of_mem_toDigits (by decide) (by decide) h) (by decide)

theorem kinds_end : ∀ ks ∈ kindLists, ∀ k ∈ ks, '\n' ∉ k.toList
    ∧ (k.toList.getLast?.map isWhitespace) = some false := by
  decide

/-- **The function's name decides** whether the ID of a condition survives the file. -/
theorem loadable_vcId_iff {ks : List String} (hks : ks ∈ kindLists) {kind : String}
    (hkind : kind ∈ ks) (name : String) (b i : Nat) :
    Loadable (vcId name b i kind).toList ↔ Nameable name.toList := by
  obtain ⟨hline, hlast⟩ := kinds_end ks hks kind hkind
  have hne : kind.toList ≠ [] := by
    intro hnil
    rw [hnil] at hlast
    cases hlast
  -- between the name and the kind stand colons, letters and digits
  obtain ⟨mid, hid, hmid⟩ : ∃ mid, (vcId name b i kind).toList
      = name.toList ++ ((':' :: mid) ++ kind.toList) ∧ '\n' ∉ mid := by
    refine ⟨':' :: 'b' :: 'b' :: ((toString b).toList ++ ':' :: ':' :: 'i' ::
      ((toString i).toList ++ [':', ':'])), ?_, ?_⟩
    · rw [vcId_toList]
      simp only [List.append_assoc, List.cons_append, List.nil_append]
    · simp only [List.mem_append, List.mem_cons, List.not_mem_nil, or_false, not_or]
      exact ⟨by decide, by decide, by decide, newline_notMem_toString b, by decide, by decide,
        by decide, newline_notMem_toString i, by decide, by decide⟩
  rw [hid]
  refine loadable_append_iff rfl ?_ fun c hc => ?_
  · rw [List.mem_append, List.mem_cons, not_or, not_or]
    exact ⟨⟨by decide, hmid⟩, hline⟩
  · rw [List.getLast?_append_of_ne_nil _ hne, Option.mem_def] at hc
    rw [hc] at hlast
    exact Option.some.inj hlast

/-- Every logged condition is raised by an instruction of the module. -/
theorem mem_effects_of_mem_moduleLog {m : Module} {host : Host} {gate : HitlGate}
    {asmP : InlineAsmPolicy} {dmaP : DmaPolicy} {vc : Vc}
    (h : vc ∈ moduleLog m host gate asmP dmaP) :
    ∃ site ∈ sites m, ∃ t, vc ∈ (effects (mkEnv m host asmP dmaP) site t).filterMap vcOf := by
  have hplan : ∀ (l : List Site) (t : Maps),
      vc ∈ (plan (mkEnv m host asmP dmaP) l t).filterMap vcOf →
      ∃ site ∈ l, ∃ t, vc ∈ (effects (mkEnv m host asmP dmaP) site t).filterMap vcOf := by
    intro l
    induction l with
    | nil =>
        intro t hvc
        cases hvc
    | cons x xs ih =>
        intro t hvc
        rw [show plan (mkEnv m host asmP dmaP) (x :: xs) t = effects (mkEnv m host asmP dmaP) x t
          ++ plan (mkEnv m host asmP dmaP) xs (transfer m dmaP x.instr t) from rfl,
          List.filterMap_append] at hvc
        rcases List.mem_append.mp hvc with hvc | hvc
        · exact ⟨x, List.mem_cons_self, t, hvc⟩
        · obtain ⟨site, hsite, hrest⟩ := ih _ hvc
          exact ⟨site, List.mem_cons_of_mem x hsite, hrest⟩
  have hpre := visits_fst_isPre (exec host.z3)
    (plan (mkEnv m host asmP dmaP) (sites m) Maps.empty) (Verdict.init gate)
  exact hplan (sites m) Maps.empty ((hpre.sublist.filterMap vcOf).subset h)

/-- Every logged condition is one of a function of the module. -/
theorem mem_moduleLog {m : Module} {host : Host} {gate : HitlGate} {asmP : InlineAsmPolicy}
    {dmaP : DmaPolicy} {vc : Vc} (h : vc ∈ moduleLog m host gate asmP dmaP) :
    ∃ f ∈ m.functions, ∃ b i, ∃ ks ∈ kindLists, ∃ kind ∈ ks, vc.1 = vcId f.name b i kind := by
  obtain ⟨site, hsite, t, hvc⟩ := mem_effects_of_mem_moduleLog h
  obtain ⟨ks, hks, hids⟩ := effects_raises (mkEnv m host asmP dmaP) site t
  have hid : vc.1 ∈ ks.map site.vcId := by
    rw [← hids]
    exact List.mem_map_of_mem hvc
  obtain ⟨kind, hkind, heq⟩ := List.mem_map.mp hid
  obtain ⟨f, hf, hsite⟩ := List.mem_flatMap.mp hsite
  refine ⟨f, hf, site.bbIdx, site.instrIdx, ks, hks, kind, hkind, ?_⟩
  rw [← heq, ← mem_funcSites hsite]
  rfl

-- ── Two gates, one run ───────────────────────────────────────────────────────────

/-- The same logs under the mode and the approvals of another gate. -/
def remode (g : HitlGate) (v : Verdict) : Verdict :=
  { v with gate :=
    { v.gate with
      mode := g.mode, approved := g.approved, approvedClasses := g.approvedClasses } }

theorem logAll_remode {g : HitlGate} {v : Verdict} {vc : Vc}
    (h : Permits (remode g v).gate vc ↔ Permits v.gate vc) :
    logAll (remode g v).gate [vc]
      = { logAll v.gate [vc] with
          mode := g.mode, approved := g.approved, approvedClasses := g.approvedClasses } := by
  by_cases hp : Permits v.gate vc
  · rw [logAll_permitted (h.mpr hp), logAll_permitted hp]
    rfl
  · rw [logAll_refused (fun hq => hp (h.mp hq)), logAll_refused hp]
    rfl

/-- An effect does the same under a gate that agrees on its condition. -/
theorem exec_remode (z3 : Solver) (g : HitlGate) (x : Effect) (v : Verdict)
    (h : ∀ vc, vcOf x = some vc → (Permits (remode g v).gate vc ↔ Permits v.gate vc)) :
    exec z3 x (remode g v) = (exec z3 x v).map (remode g) := by
  cases x with
  | fail msg => rfl
  | mark reason => rfl
  | count c => cases c <;> rfl
  | ask vc cls reasons =>
      have hp := h (vc, cls) rfl
      cases reasons with
      | none =>
          simp only [exec, shouldRunSolver_eq, logAll_remode hp]
          rfl
      | some r =>
          simp only [exec, shouldRunSolver_eq, logAll_remode hp, hp]
          rfl
  | check vc cls allocSize offset size txt =>
      have hp := h (vc, cls) rfl
      obtain ⟨outOfBounds, solverUnknown, blocked, counted⟩ := txt
      simp only [exec, checkAccess_eq, logAll_remode hp, hp]
      by_cases hperm : Permits v.gate (vc, cls)
      · simp only [if_pos hperm]
        rw [show (remode g v).gate.seen = v.gate.seen from rfl]
        cases z3 (v.gate.seen.length + 1) (oobCond allocSize offset size) <;>
          cases counted <;> rfl
      · simp only [if_neg hperm]
        cases counted <;> rfl
  | pair dmaAllocs iommuMapped => rfl

/-- What a gate permits does not change along a run. -/
theorem visits_permits {z3 : Solver} {l : List Effect} {g : HitlGate} {x : Effect × Verdict}
    (hx : x ∈ visits (exec z3) l (Verdict.init g)) (vc : Vc) :
    Permits x.2.gate vc ↔ Permits g vc := by
  have hkeep := visits_inv (exec_flagged z3)
    (fun v => ∀ vc, Permits v.gate vc ↔ Permits g vc)
    (fun y v _ hv => by rw [exec_gate]; exact hv) l _ (not_vfailed_init _) (fun _ => Iff.rfl) x hx
  exact hkeep.2.2 vc

section Remode

variable {m : Module} {host : Host} {asmP : InlineAsmPolicy} {dmaP : DmaPolicy}

/-- **Gates that permit the same of what is logged make the same run.** -/
theorem analyze_remode {mode mode' : HitlMode} {approved classes approved' classes' : Finset String}
    (h : ∀ vc ∈ moduleLog m host (.fresh mode approved classes) asmP dmaP,
      (Permits (.fresh mode' approved' classes') vc ↔ Permits (.fresh mode approved classes) vc)) :
    (analyze m host (.fresh mode' approved' classes') asmP dmaP).1
        = (analyze m host (.fresh mode approved classes) asmP dmaP).1
      ∧ vcLog (analyze m host (.fresh mode' approved' classes') asmP dmaP).2
        = vcLog (analyze m host (.fresh mode approved classes) asmP dmaP).2 := by
  have hrun : runPlan (mkEnv m host asmP dmaP) (.fresh mode' approved' classes')
      = remode (.fresh mode' approved' classes')
          (runPlan (mkEnv m host asmP dmaP) (.fresh mode approved classes)) := by
    refine (forLoop_map_visits (remode (.fresh mode' approved' classes')) _
      (Verdict.init (.fresh mode approved classes)) ?_).1
    intro x hx
    refine exec_remode host.z3 _ x.1 x.2 fun vc hvc => ?_
    have hmem : vc ∈ moduleLog m host (.fresh mode approved classes) asmP dmaP :=
      List.mem_filterMap.mpr ⟨x.1, List.mem_map.mpr ⟨x, hx, rfl⟩, hvc⟩
    exact (h vc hmem).trans (visits_permits hx vc).symm
  rw [analyze_eq_runPlan, analyze_eq_runPlan, hrun]
  exact ⟨rfl, rfl⟩

theorem vcLog_analyze (mode : HitlMode) (approved classes : Finset String) :
    vcLog (analyze m host (.fresh mode approved classes) asmP dmaP).2
      = moduleLog m host (.fresh mode approved classes) asmP dmaP := by
  rw [analyze_gate, vcLog_fresh]

/-- Off mode is require mode with everything approved, seen from the run in off mode. -/
theorem require_of_off {approved classes : Finset String}
    (h : ∀ vc ∈ vcLog (analyze m host (.fresh .off ∅ ∅) asmP dmaP).2,
      Approved approved classes vc) :
    (analyze m host (.fresh .require approved classes) asmP dmaP).1
      = (analyze m host (.fresh .off ∅ ∅) asmP dmaP).1 := by
  rw [vcLog_analyze] at h
  refine (analyze_remode fun vc hvc => ?_).1
  exact ⟨fun _ => Or.inl rfl, fun _ => (permits_require rfl vc).mpr (h vc hvc)⟩

/-- The same seen from a run in require mode that blocked nothing. -/
theorem off_of_unblocked {approved classes : Finset String}
    (h : (analyze m host (.fresh .require approved classes) asmP dmaP).2.blocked = []) :
    (analyze m host (.fresh .off ∅ ∅) asmP dmaP).1
        = (analyze m host (.fresh .require approved classes) asmP dmaP).1
      ∧ ∀ vc ∈ vcLog (analyze m host (.fresh .off ∅ ∅) asmP dmaP).2,
          Approved approved classes vc := by
  have happroved : ∀ vc ∈ moduleLog m host (.fresh .require approved classes) asmP dmaP,
      Approved approved classes vc := by
    rw [analyze_gate, (blocked_require _ _ _).1, List.map_eq_nil_iff, List.filter_eq_nil_iff] at h
    intro vc hvc
    exact Decidable.not_not.mp (fun hun => h vc hvc (decide_eq_true hun))
  have hpermits : ∀ vc ∈ moduleLog m host (.fresh .require approved classes) asmP dmaP,
      (Permits (.fresh .off ∅ ∅) vc ↔ Permits (.fresh .require approved classes) vc) :=
    fun vc hvc => ⟨fun _ => (permits_require rfl vc).mpr (happroved vc hvc), fun _ => Or.inl rfl⟩
  have hsame := analyze_remode hpermits
  refine ⟨hsame.1, fun vc hvc => ?_⟩
  rw [hsame.2, vcLog_analyze] at hvc
  exact happroved vc hvc

end Remode

-- ── What review can achieve ──────────────────────────────────────────────────────

/-- The result of a run in require mode, with the approvals of a text. -/
def requireResult (m : Module) (host : Host) (raw : Text) (classes : Finset String)
    (asmP : InlineAsmPolicy) (dmaP : DmaPolicy) : AnalysisResult :=
  let a := (analyze m host (.fresh .require (approvedIds raw) classes) asmP dmaP).1
  enforceHitlPolicy a.result .require a.hitlBlockedVcs

/-- A file with all of some IDs that survive it. -/
theorem exists_approvals (l : List String) :
    ∃ raw, ∀ id ∈ l, Loadable id.toList → id ∈ approvedIds raw := by
  induction l with
  | nil =>
      refine ⟨[], fun id hid => ?_⟩
      cases hid
  | cons x xs ih =>
      obtain ⟨raw, hraw⟩ := ih
      by_cases hx : Loadable x.toList
      · have hsingle : ∀ id ∈ [x], Loadable id.toList := fun id hid =>
          (List.mem_singleton.mp hid).symm ▸ hx
        refine ⟨raw ++ '\n' :: approvalsText [x], fun id hid hload => ?_⟩
        rw [mem_approvedIds_append hsingle]
        rcases List.mem_cons.mp hid with rfl | hid
        · exact Or.inr List.mem_cons_self
        · exact Or.inl (hraw id hid hload)
      · refine ⟨raw, fun id hid hload => ?_⟩
        rcases List.mem_cons.mp hid with rfl | hid
        · exact absurd hload hx
        · exact hraw id hid hload

theorem unblocked_off (m : Module) (host : Host) (asmP : InlineAsmPolicy) (dmaP : DmaPolicy) :
    (analyze m host (.fresh .off ∅ ∅) asmP dmaP).1.hitlBlockedVcs = 0 := by
  have hnone : (analyze m host (.fresh .off ∅ ∅) asmP dmaP).2.blocked = [] := by
    rw [analyze_gate]
    exact (blocked_off ∅ ∅ _).1
  show (analyze m host (.fresh .off ∅ ∅) asmP dmaP).2.blocked.dedup.length = 0
  rw [hnone]
  rfl

/-- **What review can achieve.**  Some approvals file makes a module pass in require mode iff the
    module passes in off mode and each condition logged there has an ID that survives the file, or
    an approved class. -/
theorem reviewable_iff (m : Module) (host : Host) (classes : Finset String)
    (asmP : InlineAsmPolicy) (dmaP : DmaPolicy) :
    (∃ raw, requireResult m host raw classes asmP dmaP = .pass) ↔
      (analyze m host (.fresh .off ∅ ∅) asmP dmaP).1.result = .pass
        ∧ ∀ vc ∈ vcLog (analyze m host (.fresh .off ∅ ∅) asmP dmaP).2,
            Loadable vc.1.toList ∨ vc.2 ∈ classes := by
  constructor
  · rintro ⟨raw, hpass⟩
    have hblocked : (analyze m host (.fresh .require (approvedIds raw) classes) asmP
        dmaP).2.blocked = [] :=
      enforceHitlPolicy_require (congrArg AnalysisResult.isFail hpass)
    obtain ⟨hsame, happroved⟩ := off_of_unblocked hblocked
    rw [hsame]
    refine ⟨enforceHitlPolicy_pass hpass, fun vc hvc => ?_⟩
    exact (happroved vc hvc).imp_left fun hid => loadable_of_mem (mem_approvedIds.mp hid)
  · rintro ⟨hpass, hlog⟩
    obtain ⟨raw, hraw⟩ := exists_approvals
      ((vcLog (analyze m host (.fresh .off ∅ ∅) asmP dmaP).2).map Prod.fst)
    have happroved : ∀ vc ∈ vcLog (analyze m host (.fresh .off ∅ ∅) asmP dmaP).2,
        Approved (approvedIds raw) classes vc := fun vc hvc =>
      (hlog vc hvc).imp_left (hraw vc.1 (List.mem_map_of_mem hvc))
    refine ⟨raw, ?_⟩
    simp only [requireResult, require_of_off happroved, unblocked_off]
    exact (if_neg fun h => absurd h.2 (Nat.lt_irrefl 0)).trans hpass

/-- **One round of review is enough.**  In a module whose functions have ordinary names, append the
    IDs the first run blocked, as the emitted array gives them, to the approvals file: the second
    run blocks nothing, and its outcome is that of off mode. -/
theorem review_closes (m : Module) (hnames : ∀ f ∈ m.functions, Nameable f.name.toList)
    (host : Host) (raw : Text) (classes : Finset String) (asmP : InlineAsmPolicy)
    (dmaP : DmaPolicy) :
    let first := analyze m host (.fresh .require (approvedIds raw) classes) asmP dmaP
    let ids := readArray (jsonArray (distinctSorted first.2.blocked))
    let second := analyze m host
      (.fresh .require (approvedIds (raw ++ '\n' :: approvalsText ids)) classes) asmP dmaP
    second.2.blocked = []
      ∧ second.1 = (analyze m host (.fresh .off ∅ ∅) asmP dmaP).1 := by
  intro first ids second
  have hids : ∀ id, id ∈ ids ↔ id ∈ first.2.blocked := by
    intro id
    have hread := readArray_jsonArray (distinctSorted first.2.blocked) []
    rw [List.append_nil, show readArray [] = [] from rfl, List.append_nil] at hread
    rw [show ids = _ from hread]
    exact QuotedList.mem_sortDedup strLe
  have hblocked := (blocked_require (approvedIds raw) classes
    (moduleLog m host (.fresh .require (approvedIds raw) classes) asmP dmaP)).1
  have hload : ∀ id ∈ ids, Loadable id.toList := by
    intro id hid
    rw [hids, show first.2 = _ from analyze_gate m host _ asmP dmaP, hblocked] at hid
    obtain ⟨vc, hvc, rfl⟩ := List.mem_map.mp hid
    obtain ⟨f, hf, b, i, ks, hks, kind, hkind, heq⟩ := mem_moduleLog (List.mem_filter.mp hvc).1
    rw [heq]
    exact (loadable_vcId_iff hks hkind f.name b i).mpr (hnames f hf)
  have hmore : ∀ vc, Permits (.fresh .require (approvedIds raw) classes) vc →
      Permits (.fresh .require (approvedIds (raw ++ '\n' :: approvalsText ids)) classes) vc := by
    intro vc hvc
    refine (permits_require rfl vc).mpr (((permits_require rfl vc).mp hvc).imp_left fun hid => ?_)
    exact (mem_approvedIds_append hload).mpr (Or.inl hid)
  -- what the second run blocks the first blocked, and that is approved now
  have hnone : second.2.blocked = [] := by
    have hsub := (analyze_noNewWork m host asmP dmaP hmore).2
    rw [List.eq_nil_iff_forall_not_mem]
    intro id hid
    have hmem : id ∈ first.2.blocked := hsub.subset hid
    rw [show second.2 = _ from analyze_gate m host _ asmP dmaP, (blocked_require _ _ _).1] at hid
    obtain ⟨vc, hvc, rfl⟩ := List.mem_map.mp hid
    have hun := of_decide_eq_true (List.mem_filter.mp hvc).2
    exact hun (Or.inl ((mem_approvedIds_append hload).mpr (Or.inr ((hids _).mpr hmem))))
  exact ⟨hnone, (off_of_unblocked hnone).1.symm⟩

/-- Two functions, one named like a condition of the other: nothing approved at first, and nothing
    blocked after one round. -/
theorem twinDriver_review_closes :
    (analyze twinDriver (sortedHost evalSolver) (.fresh .require (approvedIds []) ∅) .conservative
        .verify).2.blocked
        = ["probe::bb0::i1::store", "probe::bb0::i1::store::bb0::i1::store"]
      ∧ (let first := analyze twinDriver (sortedHost evalSolver)
          (.fresh .require (approvedIds []) ∅) .conservative .verify
        let ids := readArray (jsonArray (distinctSorted first.2.blocked))
        (analyze twinDriver (sortedHost evalSolver)
          (.fresh .require (approvedIds ([] ++ '\n' :: approvalsText ids)) ∅) .conservative
          .verify).2.blocked = []) :=
  ⟨by decide +kernel, (review_closes twinDriver (by decide)
    (sortedHost evalSolver) [] ∅ .conservative .verify).1⟩

end SkvReview

import SentinelKv.SkvRunProofs

/-!
# Runs one after the other

The replay state outlives a run.  Over any sequence of runs, with any arguments, any clocks, any
write that fails and any change others make to other files in between, the counter recorded at one
replay state is a register that is only ever raised, and each counter accepted against it is
accepted once.

* **`run_step`** — one run is one step of the register, or none;
* **`runs_never_replay`** — the counters accepted over a whole history are strictly increasing, and
  every exit code 0 against the state accepted one;
* **`output_over_state_forgets`** — no output may be at the path of the replay state: the text of a
  verdict or of a proof reads as no counter at all, and the next run accepts any token again.
-/

namespace SkvRuns

open LockedRegister ProcessSpec SkvAnalyze SkvToken SkvSignature SkvValidator SkvRingPolicy
open SkvVerdictJson SkvHitl SkvRun

variable {p : Platform} {args : Args}

-- ── One run ──────────────────────────────────────────────────────────────────────

/-- The counter the policy accepts, from the files it finds. -/
def accepted (p : Platform) (args : Args) (fs : Fs) : Option Int :=
  (policyCall p args fs).bind fun call =>
    if (validated p call fs).1 = 1 then acceptedCounter p.oracles.euid ⟨fs, fs, p.now⟩ call
    else none

/-- The counter a run accepts, whatever its exit code is in the end. -/
def acceptedBy (p : Platform) (args : Args) (w : World) : Option Int :=
  match exec (firstStage p args) w with
  | (.ok _, w₁) => accepted p args w₁.fs
  | (.error _, _) => none

theorem policy_step {q : Path} (hstate : replayState p args = some q) (result : AnalysisResult)
    (fs : Fs) (log : List Int) :
    Register.Step ⟨recorded (fs q), log⟩
      ⟨recorded ((policy p args result fs).2 q), log ++ (accepted p args fs).toList⟩ := by
  have hstay : policyCall p args fs = none → (policy p args result fs).2 = fs →
      Register.Step ⟨recorded (fs q), log⟩
        ⟨recorded ((policy p args result fs).2 q), log ++ (accepted p args fs).toList⟩ := by
    intro hcall hfs
    rw [hfs, accepted, hcall]
    exact Or.inl (congrArg (Register.mk _) (List.append_nil log))
  rcases policy_cases p args result fs with
    ⟨-, hcall, heq⟩ | ⟨hcall, msg, info, heq⟩ | ⟨call, info, hcall, heq⟩
  · exact hstay hcall (congrArg Prod.snd heq)
  · exact hstay hcall (congrArg Prod.snd heq)
  · obtain rfl : q = call.replayStatePath :=
      Option.some.inj (hstate.symm.trans (policyCall_replayState hcall))
    rw [heq, accepted, hcall, Option.bind_some]
    rcases validated_cases (p := p) call fs with ⟨hne, hrec⟩ | ⟨c, hone, hacc, hlt, hrec⟩
    · rw [if_neg hne, hrec]
      exact Or.inl (congrArg (Register.mk _) (List.append_nil log))
    · rw [if_pos hone, hacc, hrec]
      exact Or.inr ⟨c, hlt, rfl⟩

/-- **A run is one step of the register**, if no output is written over the replay state. -/
theorem run_step {q : Path} (hstate : replayState p args = some q) (hout : q ∉ outputs args)
    (w : World) (log : List Int) :
    Register.Step ⟨recorded (w.fs q), log⟩
      ⟨recorded ((main p args w).2.fs q), log ++ (acceptedBy p args w).toList⟩ := by
  have hfirst := keeps_firstStage (p := p) (List.Subset.refl (outputs args)) w q hout
  rw [main_fs, acceptedBy]
  rcases hstage : exec (firstStage p args) w with ⟨e | a, w₁⟩
  · rw [hstage] at hfirst
    rw [run, exec_bind_error hstage, hfirst]
    exact Or.inl (congrArg (Register.mk _) (List.append_nil log))
  · rw [hstage] at hfirst
    -- after the policy only the outputs are written
    have hreport := keeps_reportStage (p := p) (List.Subset.refl (outputs args))
      (verdictAt p args a w₁.fs) { w₁ with fs := judgedFs p args a w₁.fs } q hout
    have hstep := policy_step hstate
      (enforceHitlPolicy a.result args.hitlMode a.hitlBlockedVcs) w₁.fs log
    rw [show (policy p args _ w₁.fs).2 q = _ from hreport.symm, hfirst] at hstep
    rw [run, exec_bind_ok hstage, verdictStage,
      exec_bind_ok (show exec (ringPolicy p args _) w₁ = (.ok _, { w₁ with fs := _ }) from rfl)]
    exact hstep

/-- An exit code 0 outside ring 0 means that a counter was accepted. -/
theorem acceptedBy_of_exit_zero {w : World} (hring : args.ring.tokenRing ≠ none)
    (h : (main p args w).1 = 0) : ∃ c, acceptedBy p args w = some c := by
  have hne : (main p args w).1 ≠ 1 := by
    rw [h]
    decide
  obtain ⟨a, w₁, hfirst, hlast⟩ := main_of_ne_one hne
  obtain ⟨-, -, hcode, -⟩ := verdictStage_ok_iff.mp hlast
  obtain ⟨call, hcall, hone⟩ :=
    (policy_pass (verdictOf_code_eq_zero (hcode.symm.trans h))).2 hring
  rw [acceptedBy, hfirst]
  rcases validated_cases (p := p) call w₁.fs with ⟨hnot, -⟩ | ⟨c, -, hacc, -⟩
  · exact absurd hone hnot
  · refine ⟨c, ?_⟩
    show accepted p args w₁.fs = some c
    rw [accepted, hcall, Option.bind_some, if_pos hone, hacc]

-- ── Histories ────────────────────────────────────────────────────────────────────

/-- What is remembered of a run: the replay state it was given, its exit code, and the counter it
    accepted. -/
structure Record where
  state   : Option Path
  code    : Int
  counter : Option Int

structure History where
  world : World
  log   : List Record

/-- One more run. -/
def History.after (p : Platform) (args : Args) (s : History) : History :=
  ⟨(main p args s.world).2,
    s.log ++ [⟨replayState p args, (main p args s.world).1, acceptedBy p args s.world⟩]⟩

/-- A run that writes no output over the file at `q`, or a change by others that keeps that file.
    Clocks, faults and arguments may be others at every run. -/
inductive Step (q : Path) : History → History → Prop
  | run (p : Platform) (args : Args) (s : History) (hout : q ∉ outputs args) :
      Step q s (s.after p args)
  | outside (s : History) (w' : World) (hkeep : w'.fs q = s.world.fs q) : Step q s ⟨w', s.log⟩

/-- The counters accepted against the state at `q`. -/
def counters (q : Path) (log : List Record) : List Int :=
  log.filterMap fun r => if r.state = some q then r.counter else none

/-- The abstract register a history stands for. -/
def History.register (q : Path) (s : History) : Register Int :=
  ⟨recorded (s.world.fs q), counters q s.log⟩

theorem counters_concat (q : Path) (log : List Record) (r : Record) :
    counters q (log ++ [r])
      = counters q log ++ (if r.state = some q then r.counter else none).toList := by
  unfold counters
  rw [List.filterMap_append]
  refine congrArg (_ ++ ·) ?_
  cases hr : (if r.state = some q then r.counter else none) with
  | none => exact List.filterMap_cons_none hr
  | some c => exact List.filterMap_cons_some hr

/-- Every step of a history is one of the register. -/
theorem step_register {q : Path} {s s' : History} (h : Step q s s') :
    (s.register q).Step (s'.register q) := by
  cases h with
  | run p args s hout =>
      unfold History.register History.after
      rw [counters_concat]
      by_cases hstate : replayState p args = some q
      · rw [if_pos hstate]
        exact run_step hstate hout s.world _
      · rw [if_neg hstate, main_fs, run_frame s.world hout hstate]
        exact Or.inl (congrArg (Register.mk _) (List.append_nil _))
  | outside s w' hkeep =>
      unfold History.register
      rw [hkeep]
      exact Or.inl rfl

/-- The exit codes of a history: 0 against a replay state means that a counter was accepted. -/
def ZeroAccepts (log : List Record) : Prop :=
  ∀ r ∈ log, r.state ≠ none → r.code = 0 → ∃ c, r.counter = some c

theorem step_zeroAccepts {q : Path} {s s' : History} (h : Step q s s') (hs : ZeroAccepts s.log) :
    ZeroAccepts s'.log := by
  cases h with
  | run p args s hout =>
      intro r hr hstate hcode
      rcases List.mem_append.mp hr with hr | hr
      · exact hs r hr hstate hcode
      · obtain rfl := List.mem_singleton.mp hr
        refine acceptedBy_of_exit_zero ?_ hcode
        intro hnone
        refine hstate ?_
        cases hring : args.ring with
        | ring0 => exact if_pos hring
        | ringM1 =>
            rw [hring] at hnone
            cases hnone
        | ringM2 =>
            rw [hring] at hnone
            cases hnone
  | outside s w' hkeep => exact hs

/-- The sample run, twice. -/
def sampleHistory : History :=
  ((⟨sampleWorld, []⟩ : History).after samplePlatform (sampleArgs [7])).after samplePlatform
    (sampleArgs [7])

/-- A text that begins with a brace or a semicolon records no counter. -/
theorem readCounter_no_digits {b : UInt8} (hb : b = 123 ∨ b = 59) (rest : Bytes) :
    SkvReplayState.readCounter (b :: rest) = -1 := by
  rcases hb with rfl | rfl
  · rfl
  · rfl

theorem recorded_outputFile {t : Text} (h : t.head? = some '\x7b' ∨ t.head? = some ';') :
    recorded (some (outputFile p t)) = -1 := by
  cases t with
  | nil =>
      rcases h with h | h
      · cases h
      · cases h
  | cons c t =>
      rcases h with h | h
      · obtain rfl := Option.some.inj h
        exact readCounter_no_digits (Or.inl rfl) _
      · obtain rfl := Option.some.inj h
        exact readCounter_no_digits (Or.inr rfl) _

/-- What a complete write leaves at a path, the validator opens and finds secure. -/
theorem recordCounter_outputFile {t : Text} {c : Int}
    (h : recorded (some (outputFile p t)) < c) :
    (recordCounter p.oracles.euid (some (outputFile p t)) c).1 = true := by
  have hsec : (outputFile p t).secure p.oracles.euid = true := by
    simp [File.secure, File.othersWrite, outputFile]
  have hfresh : SkvReplayState.counterFresh (encode t) c = true :=
    SkvReplayState.counterFresh_iff.mpr h
  simp only [recordCounter, Option.getD_some, outputFile] at hsec ⊢
  simp only [hsec, hfresh, Bool.not_true, Bool.false_eq_true, if_false]

/-- **An output over the replay state forgets it.**  After a run with an exit code other than 1
    whose verdict or proof is written at a path, no counter is recorded there any more, and as a
    replay state the file lets every counter from 0 on pass. -/
theorem output_over_state_forgets {w : World} {q : Path}
    (hq : args.verdictOut = some q ∨ proofPath args = some q) (h : (main p args w).1 ≠ 1) :
    recorded ((main p args w).2.fs q) = -1
      ∧ ∀ c, 0 ≤ c → (recordCounter p.oracles.euid ((main p args w).2.fs q) c).1 = true := by
  obtain ⟨a, w₁, -, hlast⟩ := main_of_ne_one h
  obtain ⟨-, -, -, hworld⟩ := verdictStage_ok_iff.mp hlast
  have hfile : ∃ t : Text, (t.head? = some '\x7b' ∨ t.head? = some ';')
      ∧ (main p args w).2.fs q = some (outputFile p t) := by
    rw [hworld]
    by_cases hproof : proofPath args = some q
    · refine ⟨proofText p args (verdictAt p args a w₁.fs), Or.inr rfl, ?_⟩
      show wrote p (proofPath args) _ _ q = _
      rw [hproof]
      exact Function.update_self _ _ _
    · refine ⟨(verdictAt p args a w₁.fs).toJson ++ ['\n'], Or.inl ?_, ?_⟩
      · rw [toJson_eq]
        rfl
      show wrote p (proofPath args) _ _ q = _
      rw [wrote_of_ne hproof, hq.resolve_right hproof]
      exact Function.update_self _ _ _
  obtain ⟨t, ht, hfile⟩ := hfile
  have hnone := recorded_outputFile (p := p) ht
  rw [hfile]
  refine ⟨hnone, fun c hc => recordCounter_outputFile ?_⟩
  rw [hnone]
  omega

/-- With the verdict over the replay state the sample token is accepted again and again. -/
theorem sample_replayed :
    ((⟨sampleWorld, []⟩ : History).after samplePlatform (sampleArgs [4])
        |>.after samplePlatform (sampleArgs [4])).log.map Record.counter = [some 12, some 12]
      ∧ recorded ((main samplePlatform (sampleArgs [4]) sampleWorld).2.fs [4]) = -1 :=
  ⟨by decide +kernel, (output_over_state_forgets (Or.inl rfl) (by decide +kernel)).1⟩

end SkvRuns

import SentinelKv.LineReaderProofs
import SentinelKv.ProcessSpecProofs
import SentinelKv.SkvEmitProofs
import SentinelKv.SkvHitlProofs

/-!
# One run of the analyzer

`main` and `run` from the parsed arguments to the exit code: the approvals are loaded, the module
is analysed, the conditions are emitted, the ring policy is applied, the verdict is printed and
written.  A step that fails ends the run with exit code 1, and what was written before stays
written.  Nobody else touches a file while the run lasts.

* **`writeOutputFile_ok_iff`** and `output_ok_iff` — when an output is written, and what is at its
  path then; `loadHitlApprovals_ok_iff` — when approvals are loaded, and which;
* `analysisStage_ok_iff`, `verdictStage_ok_iff` — a run that is not stopped, stage by stage;
* **`validated_cases`** — what one call of the validator does to the recorded counter;
* **`exit_zero_sound`** — what exit code 0 vouches for;
* **`exit_code_recorded`** — any exit code but 1 is the code of one verdict, which is what was
  printed and what the verdict file holds;
* **`main_frame`** — however the run ends, only its outputs and the replay state change.
-/

namespace SkvRun

open EarlyReturn (need ensure need_ok_iff ensure_ok_iff pure_ok_iff)
open LineReader ProcessSpec SkvIr SkvGate SkvAnalyze SkvHitl SkvToken SkvSignature SkvValidator
open SkvRingPolicy SkvVerdictJson SkvEmit

-- ── Arguments and surroundings ───────────────────────────────────────────────────

inductive ProofFormat where
  | lfsc | rup

/-- `ProofFormat::label`. -/
def ProofFormat.label : ProofFormat → String
  | .lfsc => "lfsc"
  | .rup => "rup"

/-- The commands that reach a verdict: none, and `attest-check`. -/
inductive Command where
  | analyze | attestCheck
deriving DecidableEq

/-- `Args`. -/
structure Args where
  irPath             : Option Path
  ring               : RingMode
  attestation        : Options
  json               : Bool
  verdictOut         : Option Path
  hitlMode           : HitlMode
  hitlApprovals      : Option Path
  hitlClassApprovals : Option Path
  emitVcs            : Option Path
  runtimeFallback    : RuntimeFallbackPolicy
  proofFormat        : ProofFormat
  emitProof          : Option Path
  inlineAsmPolicy    : InlineAsmPolicy
  dmaPolicy          : DmaPolicy
  command            : Command

/-- How `Module::from_ir_path` ends. -/
inductive Parsed where
  | module (m : Module)
  | failed (e : String)
  | panicked

inductive Output where
  | emitVcs | verdictOut | emitProof

/-- Where the system stops a write; `write n` is after `n` bytes. -/
inductive WriteFault where
  | openFile | setPermissions | write (n : Nat) | sync

/-- What a run finds besides the files. -/
structure Platform where
  oracles : Oracles
  host    : Host
  arch    : TargetArch
  /-- `std::env::consts::ARCH`. -/
  archName : String
  now     : Int
  /-- The mode `open` gives to a new file. -/
  newMode : Nat
  parse   : Fs → Path → Parsed
  fault   : Output → Option WriteFault

structure World where
  fs     : Fs
  stdout : Text
  stderr : Text

abbrev Process (α : Type) := ExceptT String (StateM World) α

-- ── Files ────────────────────────────────────────────────────────────────────────

/-- `str::as_bytes`. -/
def encode (t : Text) : Bytes := t.flatMap String.utf8EncodeChar

/-- What `load_hitl_approvals` keeps of a text.  `lines` also drops a carriage return before the
    line feed, which `trim` would. -/
def approvedLines (raw : Text) : List Text :=
  ((splitLines '\n' raw).map trim).filter (fun l => !l.isEmpty && l.head? != some '#')

def approvedIds (raw : Text) : Finset String := ((approvedLines raw).map String.ofList).toFinset

/-- `load_hitl_approvals`. -/
def loadHitlApprovals (h : Oracles) (path : Path) (fs : Fs) : Except String (Finset String) := do
  ensureSecureOwnedFile h fs path "HITL approvals file"
  let raw ← need (readToString h fs path)
    ("Failed to read HITL approvals file: " ++ h.display path)
  pure (approvedIds raw)

/-- The checks of `write_output_file` on what is at the path. -/
def ensureOutput (euid : Nat) : Option File → Except String Unit
  | none => .ok ()
  | some f => do
      ensure f.regular "output path must be a regular file"
      ensure (f.uid == euid) "output file must be owned by current effective user"
      ensure (!f.othersWrite) "output file must not be group/world writable"

/-- `write_output_file`: how it ends, and what is at the path then. -/
def writeOutputFile (p : Platform) (fault : Option WriteFault) (path : Path) (content : Bytes)
    (file : Option File) : Except String Unit × Option File :=
  match ensureOutput p.oracles.euid file with
  | .error e => (.error e, file)
  | .ok () =>
      let f := file.getD ⟨true, p.oracles.euid, p.newMode, some []⟩
      match fault with
      | some .openFile => (.error ("Failed to open output file: " ++ p.oracles.display path), file)
      -- truncated, and nothing else yet
      | some .setPermissions =>
          (.error ("Failed to set secure permissions on " ++ p.oracles.display path),
            some { f with content := some [] })
      | some (.write n) =>
          (.error ("Failed writing output file: " ++ p.oracles.display path),
            some { f with mode := 0o600, content := some (content.take n) })
      | some .sync =>
          (.error ("Failed syncing output file: " ++ p.oracles.display path),
            some { f with mode := 0o600, content := some content })
      | none => (.ok (), some { f with mode := 0o600, content := some content })

-- ── Steps of a run ───────────────────────────────────────────────────────────────

/-- A step that only looks at the files. -/
def look {α : Type} (f : Fs → Except String α) : Process α := ExceptT.mk (fun w => (f w.fs, w))

/-- `print!`. -/
def print (t : Text) : Process Unit :=
  ExceptT.mk (fun w => (.ok (), { w with stdout := w.stdout ++ t }))

/-- An output, if its path is given.  The context of the error hides the error itself. -/
def output (p : Platform) (which : Output) (path : Option Path) (content : Text)
    (context : String) : Process Unit :=
  match path with
  | none => pure ()
  | some path => ExceptT.mk (fun w =>
      let r := writeOutputFile p (p.fault which) path (encode content) (w.fs path)
      (r.1.mapError (fun _ => context ++ p.oracles.display path),
        { w with fs := Function.update w.fs path r.2 }))

/-- Approvals, if their path is given. -/
def approvals (p : Platform) : Option Path → Process (Finset String)
  | none => pure ∅
  | some path => look (loadHitlApprovals p.oracles path)

def parseIr (p : Platform) (args : Args) : Process Module := look (fun fs => do
  let path ← need args.irPath "IR_PATH is required unless using `features` command"
  match p.parse fs path with
  | .module m => .ok m
  | .failed e => .error ("Failed to parse LLVM IR: " ++ e)
  | .panicked => .error ("LLVM IR parser panicked on input; possible LLVM producer/consumer "
      ++ "mismatch (this binary expects LLVM 19 IR). Use `attest-check` for trust-only validation "
      ++ "or provide LLVM 19-compatible IR"))

/-- Require mode needs an approval source. -/
def ensureSources (args : Args) : Process Unit := look (fun _ =>
  ensure (!(args.hitlMode = .require && args.hitlApprovals.isNone
      && args.hitlClassApprovals.isNone))
    ("--hitl-mode require needs at least one approval source: "
      ++ "--hitl-approvals or --hitl-class-approvals"))

/-- Class approvals are not even loaded when the gate is off. -/
def classApprovals (p : Platform) (args : Args) : Process (Finset String) :=
  match args.hitlMode with
  | .off => pure ∅
  | .require => approvals p args.hitlClassApprovals

/-- The call of `analyze`. -/
def analysed (p : Platform) (args : Args) (m : Module) (approved approvedClasses : Finset String) :
    AnalysisOutcome × HitlGate :=
  analyze m p.host (.fresh args.hitlMode approved approvedClasses) args.inlineAsmPolicy
    args.dmaPolicy

/-- `run` up to the emission of the conditions. -/
def analysisStage (p : Platform) (args : Args) : Process AnalysisOutcome := do
  let m ← parseIr p args
  ensureSources args
  let approved ← approvals p args.hitlApprovals
  let approvedClasses ← classApprovals p args
  let a := analysed p args m approved approvedClasses
  output p .emitVcs args.emitVcs (emitHitlVcs a.2) "Failed to write VC emission file: "
  pure a.1

/-- What `attest-check` has in place of an analysis. -/
def noAnalysis : AnalysisOutcome := ⟨.pass, 0, 0, 0, 0, 0, 0, 0⟩

/-- What comes before the ring policy. -/
def firstStage (p : Platform) (args : Args) : Process AnalysisOutcome :=
  match args.command with
  | .analyze => analysisStage p args
  | .attestCheck => pure noAnalysis

/-- The call of `apply_ring_policy`. -/
def policy (p : Platform) (args : Args) (result : AnalysisResult) (fs : Fs) : Outcome × Fs :=
  applyRingPolicy p.oracles ⟨fun _ => fs, fun _ => fs⟩
    (validateAttestationToken p.oracles.euid ⟨fs, fs, p.now⟩) result args.ring args.attestation fs

def ringPolicy (p : Platform) (args : Args) (result : AnalysisResult) : Process Outcome :=
  ExceptT.mk (fun w =>
    (.ok (policy p args result w.fs).1, { w with fs := (policy p args result w.fs).2 }))

/-- The lines for a human reader. -/
def verdictText (v : Verdict) : Text :=
  (if v.status = "pass" then "[PASS] " else if v.status = "fail" then "[FAIL] "
    else "[UNKNOWN] ").toList ++ v.message.toList
    ++ "\n[INFO] runtime fallback policy: ".toList ++ v.runtimeFallback.toList
    ++ "\n[INFO] HITL mode: ".toList ++ v.hitlMode.toList
    ++ " (seen_vcs=".toList ++ (toString v.hitlSeenVcs).toList
    ++ ", blocked_vcs=".toList ++ (toString v.hitlBlockedVcs).toList
    ++ ", seen_classes=".toList ++ (toString v.hitlSeenClasses).toList
    ++ ", blocked_classes=".toList ++ (toString v.hitlBlockedClasses).toList ++ ")\n".toList

def printed (args : Args) (v : Verdict) : Text :=
  if args.json then v.toJson ++ ['\n'] else verdictText v

def proofText (p : Platform) (args : Args) (v : Verdict) : Text :=
  ";; Sentinel-KV Z3 Proof Trace (Format: ".toList ++ args.proofFormat.label.toList
    ++ ")\n;; Verdict Status: ".toList ++ v.status.toList
    ++ "\n;; Target Arch: ".toList ++ p.archName.toList ++ "\n(proof-trace-placeholder)\n".toList

/-- The call of `verdict_from_result`. -/
def verdictOf (p : Platform) (args : Args) (a : AnalysisOutcome) (o : Outcome) : Verdict :=
  verdictFromResult o (args.runtimeFallback.resolved p.arch) (hitlLabel args.hitlMode)
    ⟨a.hitlSeenVcs, a.hitlBlockedVcs, a.hitlSeenClasses, a.hitlBlockedClasses, a.inlineAsmVcs,
      a.dmaVcs, a.irqRaceVcs⟩

/-- `attest-check` emits no proof. -/
def proofPath (args : Args) : Option Path :=
  match args.command with
  | .analyze => args.emitProof
  | .attestCheck => none

/-- `run` from the verdict on. -/
def reportStage (p : Platform) (args : Args) (v : Verdict) : Process Int := do
  print (printed args v)
  output p .verdictOut args.verdictOut (v.toJson ++ ['\n']) "Failed to write verdict file: "
  output p .emitProof (proofPath args) (proofText p args v) "Failed to write proof trace file: "
  pure v.code

/-- `run` from the ring policy on.  `attest-check` has no blocked conditions, so that the HITL
    policy leaves its result as it is. -/
def verdictStage (p : Platform) (args : Args) (a : AnalysisOutcome) : Process Int := do
  let o ← ringPolicy p args (enforceHitlPolicy a.result args.hitlMode a.hitlBlockedVcs)
  reportStage p args (verdictOf p args a o)

/-- `run`. -/
def run (p : Platform) (args : Args) : Process Int := do
  let a ← firstStage p args
  verdictStage p args a

/-- `main`: the exit code, and the world then. -/
def main (p : Platform) (args : Args) (w : World) : Int × World :=
  match exec (run p args) w with
  | (.ok code, w') => (code, w')
  | (.error e, w') =>
      (1, { w' with stderr := w'.stderr ++ "[ERROR] ".toList ++ e.toList ++ ['\n'] })

-- ── Writing ──────────────────────────────────────────────────────────────────────

variable {p : Platform} {args : Args}

theorem ensureOutput_ok_iff {euid : Nat} {file : Option File} {u : Unit} :
    ensureOutput euid file = .ok u ↔ ∀ f, file = some f → f.secure euid = true := by
  cases file with
  | none =>
      constructor
      · intro _ f hf
        cases hf
      · exact fun _ => rfl
  | some f =>
      simp only [ensureOutput, EarlyReturn.bind_ok_iff, ensure_ok_iff, exists_const,
        Option.some.injEq, forall_eq', File.secure, Bool.and_eq_true, and_assoc]

/-- The file a complete write leaves. -/
def outputFile (p : Platform) (content : Text) : File :=
  ⟨true, p.oracles.euid, 0o600, some (encode content)⟩

/-- **When an output is written**, and what it leaves: a private file with exactly the content. -/
theorem writeOutputFile_ok_iff {fault : Option WriteFault} {path : Path} {content : Text}
    {file file' : Option File} :
    writeOutputFile p fault path (encode content) file = (.ok (), file') ↔
      (∀ f, file = some f → f.secure p.oracles.euid = true) ∧ fault = none
        ∧ file' = some (outputFile p content) := by
  unfold writeOutputFile
  cases hck : ensureOutput p.oracles.euid file with
  | error e =>
      constructor
      · intro h
        cases h
      · rintro ⟨hsec, -⟩
        rw [ensureOutput_ok_iff (u := ()).mpr hsec] at hck
        cases hck
  | ok u =>
      have hsec := ensureOutput_ok_iff.mp hck
      have hopened : ∀ f, file.getD ⟨true, p.oracles.euid, p.newMode, some []⟩ = f →
          f.regular = true ∧ f.uid = p.oracles.euid := by
        rintro f rfl
        cases file with
        | none => exact ⟨rfl, rfl⟩
        | some f =>
            have hf := hsec f rfl
            simp only [File.secure, Bool.and_eq_true, beq_iff_eq] at hf
            exact hf.1
      cases fault with
      | none =>
          obtain ⟨hreg, huid⟩ := hopened _ rfl
          have hfile : some { (file.getD ⟨true, p.oracles.euid, p.newMode, some []⟩) with
              mode := 0o600, content := some (encode content) } = some (outputFile p content) := by
            simp only [hreg, huid, outputFile]
          constructor
          · intro h
            exact ⟨hsec, rfl, (Prod.mk.inj h).2.symm.trans hfile⟩
          · rintro ⟨-, -, rfl⟩
            exact Prod.ext rfl hfile
      | some k =>
          constructor
          · intro h
            cases k <;> cases h
          · rintro ⟨-, h, -⟩
            cases h

/-- Nothing is in the way of an output. -/
def Writable (p : Platform) (which : Output) (fs : Fs) (path : Option Path) : Prop :=
  ∀ q, path = some q → p.fault which = none ∧ ∀ f, fs q = some f → f.secure p.oracles.euid = true

/-- The files after an output. -/
def wrote (p : Platform) (path : Option Path) (content : Text) (fs : Fs) : Fs :=
  match path with
  | none => fs
  | some q => Function.update fs q (some (outputFile p content))

theorem wrote_of_ne {path : Option Path} {content : Text} {fs : Fs} {q : Path}
    (h : path ≠ some q) : wrote p path content fs q = fs q := by
  cases path with
  | none => rfl
  | some r => exact Function.update_of_ne (fun hq => h (congrArg some hq.symm)) _ _

theorem output_ok_iff {which : Output} {path : Option Path} {content : Text} {context : String}
    {w w' : World} {u : Unit} :
    exec (output p which path content context) w = (.ok u, w') ↔
      Writable p which w.fs path ∧ w' = { w with fs := wrote p path content w.fs } := by
  cases path with
  | none =>
      constructor
      · intro h
        refine ⟨fun q hq => ?_, (Prod.mk.inj h).2.symm⟩
        cases hq
      · rintro ⟨-, rfl⟩
        rfl
  | some q =>
      rcases hwr : writeOutputFile p (p.fault which) q (encode content) (w.fs q) with ⟨r, file'⟩
      have hexec : exec (output p which (some q) content context) w
          = (r.mapError (fun _ => context ++ p.oracles.display q),
              { w with fs := Function.update w.fs q file' }) := by
        show (Except.mapError _ (writeOutputFile _ _ _ _ _).1,
          { w with fs := Function.update w.fs q (writeOutputFile _ _ _ _ _).2 }) = _
        rw [hwr]
      rw [hexec]
      constructor
      · intro h
        obtain ⟨hr, hw'⟩ := Prod.mk.inj h
        rw [EarlyReturn.mapError_ok_iff] at hr
        rw [hr] at hwr
        obtain ⟨hsec, hfault, rfl⟩ := writeOutputFile_ok_iff.mp hwr
        refine ⟨fun q' hq' => ?_, hw'.symm⟩
        obtain rfl := Option.some.inj hq'
        exact ⟨hfault, hsec⟩
      · rintro ⟨hok, rfl⟩
        obtain ⟨hfault, hsec⟩ := hok q rfl
        rw [writeOutputFile_ok_iff.mpr ⟨hsec, hfault, rfl⟩] at hwr
        obtain ⟨rfl, rfl⟩ := Prod.mk.inj hwr
        rfl

-- ── Approvals ────────────────────────────────────────────────────────────────────

theorem look_ok_iff {α : Type} {f : Fs → Except String α} {w w' : World} {a : α} :
    exec (look f) w = (.ok a, w') ↔ f w.fs = .ok a ∧ w' = w := by
  rw [show exec (look f) w = (f w.fs, w) from rfl, Prod.mk.injEq]
  exact and_congr_right fun _ => eq_comm

/-- The approvals at a path: nothing without a path, otherwise what a secure file says. -/
def LoadedFrom (p : Platform) (fs : Fs) (path : Option Path) (ids : Finset String) : Prop :=
  match path with
  | none => ids = ∅
  | some q => SecureAt p.oracles fs q
      ∧ ∃ raw, readToString p.oracles fs q = some raw ∧ ids = approvedIds raw

theorem loadHitlApprovals_ok_iff {h : Oracles} {path : Path} {fs : Fs} {ids : Finset String} :
    loadHitlApprovals h path fs = .ok ids ↔
      SecureAt h fs path ∧ ∃ raw, readToString h fs path = some raw ∧ ids = approvedIds raw := by
  unfold loadHitlApprovals
  simp only [EarlyReturn.bind_ok_iff, need_ok_iff, pure_ok_iff, eq_comm (b := ids)]
  constructor
  · rintro ⟨_, hsec, hraw⟩
    exact ⟨ensureSecureOwnedFile_ok_iff.mp hsec, hraw⟩
  · rintro ⟨hsec, hraw⟩
    exact ⟨(), ensureSecureOwnedFile_ok_iff.mpr hsec, hraw⟩

theorem approvals_ok_iff {path : Option Path} {w w' : World} {ids : Finset String} :
    exec (approvals p path) w = (.ok ids, w') ↔ LoadedFrom p w.fs path ids ∧ w' = w := by
  cases path with
  | none =>
      rw [show exec (approvals p none) w = (.ok ∅, w) from rfl, Prod.mk.injEq, Except.ok.injEq]
      exact and_congr eq_comm eq_comm
  | some q =>
      rw [show approvals p (some q) = look (loadHitlApprovals p.oracles q) from rfl, look_ok_iff,
        loadHitlApprovals_ok_iff]
      rfl

/-- The class approvals of a run. -/
def ClassesFrom (p : Platform) (args : Args) (fs : Fs) (ids : Finset String) : Prop :=
  match args.hitlMode with
  | .off => ids = ∅
  | .require => LoadedFrom p fs args.hitlClassApprovals ids

theorem classApprovals_ok_iff {w w' : World} {ids : Finset String} :
    exec (classApprovals p args) w = (.ok ids, w') ↔ ClassesFrom p args w.fs ids ∧ w' = w := by
  unfold classApprovals ClassesFrom
  cases args.hitlMode with
  | off => exact @approvals_ok_iff p none w w' ids
  | require => exact approvals_ok_iff

-- ── A run, stage by stage ────────────────────────────────────────────────────────

theorem parseIr_ok_iff {w w' : World} {m : Module} :
    exec (parseIr p args) w = (.ok m, w') ↔
      (∃ path, args.irPath = some path ∧ p.parse w.fs path = .module m) ∧ w' = w := by
  rw [parseIr, look_ok_iff, EarlyReturn.bind_ok_iff]
  refine and_congr_left fun _ => exists_congr fun path => ?_
  rw [need_ok_iff]
  refine and_congr_right fun _ => ?_
  cases p.parse w.fs path with
  | module m' =>
      simp only [Except.ok.injEq, Parsed.module.injEq]
  | failed e =>
      constructor
      · intro h
        cases h
      · intro h
        cases h
  | panicked =>
      constructor
      · intro h
        cases h
      · intro h
        cases h

theorem ensureSources_ok_iff {w w' : World} {u : Unit} :
    exec (ensureSources args) w = (.ok u, w') ↔
      (args.hitlMode = .require → args.hitlApprovals ≠ none ∨ args.hitlClassApprovals ≠ none)
        ∧ w' = w := by
  rw [ensureSources, look_ok_iff, ensure_ok_iff]
  refine and_congr_left fun _ => ?_
  cases args.hitlMode <;> cases args.hitlApprovals <;> cases args.hitlClassApprovals <;> simp

/-- The analysis of a run that gets as far as the ring policy: the module, the approvals, and the
    files after the emission. -/
structure Analysed (p : Platform) (args : Args) (w : World) (m : Module)
    (approved approvedClasses : Finset String) : Prop where
  parsed  : ∃ path, args.irPath = some path ∧ p.parse w.fs path = .module m
  sources : args.hitlMode = .require → args.hitlApprovals ≠ none ∨ args.hitlClassApprovals ≠ none
  ids     : LoadedFrom p w.fs args.hitlApprovals approved
  classes : ClassesFrom p args w.fs approvedClasses
  emitted : Writable p .emitVcs w.fs args.emitVcs

/-- The files after the emission. -/
def emittedFs (p : Platform) (args : Args) (m : Module) (approved approvedClasses : Finset String)
    (fs : Fs) : Fs :=
  wrote p args.emitVcs (emitHitlVcs (analysed p args m approved approvedClasses).2) fs

theorem analysisStage_ok_iff {w w' : World} {a : AnalysisOutcome} :
    exec (analysisStage p args) w = (.ok a, w') ↔
      ∃ m approved approvedClasses, Analysed p args w m approved approvedClasses
        ∧ a = (analysed p args m approved approvedClasses).1
        ∧ w' = { w with fs := emittedFs p args m approved approvedClasses w.fs } := by
  unfold analysisStage
  simp only [bind_ok_iff, parseIr_ok_iff, ensureSources_ok_iff, approvals_ok_iff,
    classApprovals_ok_iff, output_ok_iff, exec_pure, Prod.mk.injEq, Except.ok.injEq]
  constructor
  · rintro ⟨m, _, ⟨hparse, rfl⟩, -, _, ⟨hsrc, rfl⟩, approved, _, ⟨hids, rfl⟩, classes, _,
      ⟨hcls, rfl⟩, -, _, ⟨hwr, rfl⟩, rfl, rfl⟩
    exact ⟨m, approved, classes, ⟨hparse, hsrc, hids, hcls, hwr⟩, rfl, rfl⟩
  · rintro ⟨m, approved, classes, h, rfl, rfl⟩
    exact ⟨m, w, ⟨h.parsed, rfl⟩, (), w, ⟨h.sources, rfl⟩, approved, w, ⟨h.ids, rfl⟩, classes, w,
      ⟨h.classes, rfl⟩, (), _, ⟨h.emitted, rfl⟩, rfl, rfl⟩

/-- The verdict of a run, from the files at the ring policy. -/
def verdictAt (p : Platform) (args : Args) (a : AnalysisOutcome) (fs : Fs) : Verdict :=
  verdictOf p args a
    (policy p args (enforceHitlPolicy a.result args.hitlMode a.hitlBlockedVcs) fs).1

/-- The files after the ring policy. -/
def judgedFs (p : Platform) (args : Args) (a : AnalysisOutcome) (fs : Fs) : Fs :=
  (policy p args (enforceHitlPolicy a.result args.hitlMode a.hitlBlockedVcs) fs).2

theorem verdictStage_ok_iff {w w' : World} {a : AnalysisOutcome} {code : Int} :
    exec (verdictStage p args a) w = (.ok code, w') ↔
      Writable p .verdictOut (judgedFs p args a w.fs) args.verdictOut
        ∧ Writable p .emitProof (wrote p args.verdictOut
            ((verdictAt p args a w.fs).toJson ++ ['\n']) (judgedFs p args a w.fs)) (proofPath args)
        ∧ code = (verdictAt p args a w.fs).code
        ∧ w' = { w with
            stdout := w.stdout ++ printed args (verdictAt p args a w.fs)
            fs := wrote p (proofPath args) (proofText p args (verdictAt p args a w.fs))
              (wrote p args.verdictOut ((verdictAt p args a w.fs).toJson ++ ['\n'])
                (judgedFs p args a w.fs)) } := by
  unfold verdictStage reportStage
  rw [exec_bind_ok (show exec (ringPolicy p args _) w = (.ok _, { w with fs := _ }) from rfl),
    exec_bind_ok (show exec (print _) _ = (.ok (), _) from rfl)]
  simp only [bind_ok_iff, output_ok_iff, exec_pure, Prod.mk.injEq, Except.ok.injEq]
  constructor
  · rintro ⟨-, _, ⟨hverdict, rfl⟩, -, _, ⟨hproof, rfl⟩, rfl, rfl⟩
    exact ⟨hverdict, hproof, rfl, rfl⟩
  · rintro ⟨hverdict, hproof, rfl, rfl⟩
    exact ⟨(), _, ⟨hverdict, rfl⟩, (), _, ⟨hproof, rfl⟩, rfl, rfl⟩

/-- A verdict's status and exit code belong together. -/
theorem verdictOf_code (a : AnalysisOutcome) (o : Outcome) :
    ((verdictOf p args a o).status, (verdictOf p args a o).code)
      ∈ [("pass", (0 : Int)), ("fail", 10), ("unknown", 20)] := by
  unfold verdictOf verdictFromResult
  cases o.result with
  | pass => exact List.mem_cons_self
  | fail msg => exact List.mem_cons_of_mem _ List.mem_cons_self
  | unknown reason => exact List.mem_cons_of_mem _ (List.mem_cons_of_mem _ List.mem_cons_self)

theorem verdictOf_code_eq_zero {a : AnalysisOutcome} {o : Outcome}
    (h : (verdictOf p args a o).code = 0) : o.result = .pass := by
  unfold verdictOf verdictFromResult at h
  cases hres : o.result with
  | pass => rfl
  | fail msg =>
      simp only [hres] at h
      exact absurd h (by decide)
  | unknown reason =>
      simp only [hres] at h
      exact absurd h (by decide)

/-- An error message is no change to a file. -/
theorem main_fs (w : World) : (main p args w).2.fs = (exec (run p args) w).2.fs := by
  unfold main
  rcases exec (run p args) w with ⟨e | code, w'⟩
  · rfl
  · rfl

/-- **A run that is not stopped**: both stages return. -/
theorem main_of_ne_one {w : World} (h : (main p args w).1 ≠ 1) :
    ∃ a w₁, exec (firstStage p args) w = (.ok a, w₁)
      ∧ exec (verdictStage p args a) w₁ = (.ok (main p args w).1, (main p args w).2) := by
  rcases hrun : exec (run p args) w with ⟨e | code, w'⟩
  · have hmain : (main p args w).1 = 1 := by
      rw [main, hrun]
    exact absurd hmain h
  · have hmain : main p args w = (code, w') := by
      rw [main, hrun]
    rw [hmain]
    exact bind_ok_iff.mp hrun

-- ── The ring policy on the files ─────────────────────────────────────────────────

/-- The call of the validator the policy comes to, if it does. -/
def policyCall (p : Platform) (args : Args) (fs : Fs) : Option ValidatorCall :=
  args.ring.tokenRing.bind fun r =>
    match attestedToken p.oracles (fun _ => fs) args.ring args.attestation with
    | .error _ => none
    | .ok (token, _) =>
        (validatorCall p.oracles (fun _ => fs) args.ring r token args.attestation).toOption

theorem policyCall_eq_some_iff {fs : Fs} {r : Int} (hring : args.ring.tokenRing = some r)
    {call : ValidatorCall} : policyCall p args fs = some call ↔
      Reached p.oracles ⟨fun _ => fs, fun _ => fs⟩ args.ring r args.attestation call := by
  unfold policyCall
  rw [hring, Option.bind_some, reached_iff]
  cases attestedToken p.oracles (fun _ => fs) args.ring args.attestation with
  | error e =>
      constructor
      · intro h
        cases h
      · rintro ⟨token, info, h, -⟩
        cases h
  | ok att =>
      obtain ⟨token, info⟩ := att
      show (validatorCall p.oracles (fun _ => fs) args.ring r token args.attestation).toOption
        = some call ↔ _
      cases hcall : validatorCall p.oracles (fun _ => fs) args.ring r token args.attestation with
      | error e =>
          constructor
          · intro h
            cases h
          · rintro ⟨token', info', hatt, h⟩
            obtain ⟨rfl, rfl⟩ := Prod.mk.inj (Except.ok.inj hatt)
            rw [hcall] at h
            cases h
      | ok call' =>
          constructor
          · intro h
            exact ⟨token, info, rfl, hcall.trans (congrArg Except.ok (Option.some.inj h))⟩
          · rintro ⟨token', info', hatt, h⟩
            obtain ⟨rfl, rfl⟩ := Prod.mk.inj (Except.ok.inj hatt)
            exact congrArg some (Except.ok.inj (hcall.symm.trans h))

/-- The call of the validator, by a caller whom nobody disturbs. -/
def validated (p : Platform) (call : ValidatorCall) (fs : Fs) : Int × Fs :=
  validateAttestationToken p.oracles.euid ⟨fs, fs, p.now⟩ call fs

/-- Ring 0 keeps the result; otherwise the policy fails before the validator, or the validator
    decides. -/
theorem policy_cases (p : Platform) (args : Args) (result : AnalysisResult) (fs : Fs) :
    (args.ring.tokenRing = none ∧ policyCall p args fs = none
        ∧ policy p args result fs = (.of result none, fs))
      ∨ (policyCall p args fs = none
        ∧ ∃ msg info, policy p args result fs = (.of (.fail msg) info, fs))
      ∨ ∃ call info, policyCall p args fs = some call
          ∧ policy p args result fs
            = (.of (if (validated p call fs).1 ≠ 1
                then .fail (args.ring.label ++ " attestation token validation failed")
                else strictVerdict args.ring result) (some info), (validated p call fs).2) := by
  cases hring : args.ring.tokenRing with
  | none =>
      refine Or.inl ⟨rfl, ?_, ?_⟩
      · rw [policyCall, hring]
        rfl
      · have hr0 : args.ring = .ring0 := by
          cases hr : args.ring with
          | ring0 => rfl
          | ringM1 =>
              rw [hr] at hring
              cases hring
          | ringM2 =>
              rw [hr] at hring
              cases hring
        rw [policy, hr0]
        rfl
  | some r =>
      rcases @applyRingPolicy_cases p.oracles ⟨fun _ => fs, fun _ => fs⟩ args.ring r
          args.attestation Fs (validateAttestationToken p.oracles.euid ⟨fs, fs, p.now⟩)
          hring result fs with
        ⟨hnot, msg, info, heq, -⟩ | ⟨call, info, hreach, -, -, heq⟩
      · refine Or.inr (Or.inl ⟨?_, msg, info, heq⟩)
        rw [Option.eq_none_iff_forall_ne_some]
        intro call hcall
        exact hnot call ((policyCall_eq_some_iff hring).mp hcall)
      · exact Or.inr (Or.inr ⟨call, info, (policyCall_eq_some_iff hring).mpr hreach, heq⟩)

/-- The policy passes only what the analysis passed, and outside ring 0 only if the validator was
    called and returned 1. -/
theorem policy_pass {result : AnalysisResult} {fs : Fs}
    (h : (policy p args result fs).1.result = .pass) :
    result = .pass ∧ (args.ring.tokenRing ≠ none →
      ∃ call, policyCall p args fs = some call ∧ (validated p call fs).1 = 1) := by
  rcases policy_cases p args result fs with
    ⟨hring, -, heq⟩ | ⟨-, msg, info, heq⟩ | ⟨call, info, hcall, heq⟩
  · rw [heq] at h
    exact ⟨h, fun hne => absurd hring hne⟩
  · rw [heq] at h
    cases h
  · rw [heq] at h
    by_cases hone : (validated p call fs).1 ≠ 1
    · rw [if_pos hone] at h
      cases h
    · rw [if_neg hone] at h
      refine ⟨?_, fun _ => ⟨call, hcall, not_not.mp hone⟩⟩
      replace h : strictVerdict args.ring result = .pass := h
      cases result with
      | pass => rfl
      | fail msg =>
          cases hr : args.ring <;> rw [hr] at h <;> cases h
      | unknown reason =>
          cases hr : args.ring <;> rw [hr] at h <;> cases h

-- ── The recorded counter ─────────────────────────────────────────────────────────

/-- The counter a replay state file records; an absent one is created empty. -/
def recorded (file : Option File) : Int :=
  match file.bind (fun f => f.content) with
  | some content => SkvReplayState.readCounter content
  | none => -1

/-- The replay section raises the recorded counter to the token's, or leaves it. -/
theorem recordCounter_cases (euid : Nat) (file : Option File) {c : Int} (hc : Decimal.InI64 c) :
    (∃ file', recordCounter euid file c = (false, file') ∧ recorded file' = recorded file)
      ∨ ∃ file', recordCounter euid file c = (true, file') ∧ recorded file < c
          ∧ recorded file' = c := by
  cases hcontent : (file.getD (newState euid)).content with
  | none =>
      refine Or.inl ⟨file, ?_, rfl⟩
      simp only [recordCounter, hcontent]
  | some content =>
      have hread : recorded file = SkvReplayState.readCounter content := by
        cases file with
        | none =>
            obtain rfl := Option.some.inj hcontent
            rfl
        | some f =>
            have hf : f.content = some content := hcontent
            simp only [recorded, Option.bind_some, hf]
      have hsame : recorded (some (file.getD (newState euid))) = recorded file := by
        rw [hread]
        simp only [recorded, Option.bind_some, hcontent]
      cases hsec : (file.getD (newState euid)).secure euid with
      | false =>
          refine Or.inl ⟨_, ?_, hsame⟩
          simp only [recordCounter, hcontent, hsec, Bool.not_false, if_true]
      | true =>
          cases hfresh : SkvReplayState.counterFresh content c with
          | false =>
              refine Or.inl ⟨_, ?_, hsame⟩
              simp only [recordCounter, hcontent, hsec, hfresh, Bool.not_true, Bool.not_false,
                Bool.false_eq_true, if_false, if_true]
          | true =>
              refine Or.inr ⟨some { (file.getD (newState euid)) with
                mode := 0o600, content := some (SkvReplayState.runCalls c
                  SkvReplayState.updateSequence (content, 0)).1 }, ?_, ?_,
                SkvReplayState.readCounter_update hc content⟩
              · simp only [recordCounter, hcontent, hsec, hfresh, Bool.not_true,
                  Bool.false_eq_true, if_false]
              · rw [hread]
                exact SkvReplayState.counterFresh_iff.mp hfresh

/-- The validator leaves everything but the replay state alone. -/
theorem validated_frame {call : ValidatorCall} {fs : Fs} {q : Path}
    (h : q ≠ call.replayStatePath) : (validated p call fs).2 q = fs q := by
  unfold validated validateAttestationToken
  cases acceptedCounter p.oracles.euid ⟨fs, fs, p.now⟩ call with
  | none => rfl
  | some c =>
      by_cases hpath : call.replayStatePath = []
      · simp only [if_pos hpath]
      · simp only [if_neg hpath]
        exact Function.update_of_ne h _ _

/-- **One call of the validator**: it refuses and the recorded counter stays, or it accepts a
    counter above the recorded one and records that. -/
theorem validated_cases (call : ValidatorCall) (fs : Fs) :
    ((validated p call fs).1 ≠ 1
        ∧ recorded ((validated p call fs).2 call.replayStatePath)
          = recorded (fs call.replayStatePath))
      ∨ ∃ c, (validated p call fs).1 = 1
          ∧ acceptedCounter p.oracles.euid ⟨fs, fs, p.now⟩ call = some c
          ∧ recorded (fs call.replayStatePath) < c
          ∧ recorded ((validated p call fs).2 call.replayStatePath) = c := by
  have hrefused : validated p call fs = (0, fs) →
      (validated p call fs).1 ≠ 1 ∧ recorded ((validated p call fs).2 call.replayStatePath)
        = recorded (fs call.replayStatePath) := by
    intro h
    rw [h]
    exact ⟨show (0 : Int) ≠ 1 by decide, rfl⟩
  cases hacc : acceptedCounter p.oracles.euid ⟨fs, fs, p.now⟩ call with
  | none =>
      refine Or.inl (hrefused ?_)
      simp only [validated, validateAttestationToken, hacc]
  | some c =>
      by_cases hpath : call.replayStatePath = []
      · refine Or.inl (hrefused ?_)
        simp only [validated, validateAttestationToken, hacc, if_pos hpath]
      · obtain ⟨-, -, token, -, htoken⟩ := acceptedCounter_eq_some_iff.mp hacc
        have heq : validated p call fs
            = (if (recordCounter p.oracles.euid (fs call.replayStatePath) c).1 then 1 else 0,
                Function.update fs call.replayStatePath
                  (recordCounter p.oracles.euid (fs call.replayStatePath) c).2) := by
          simp only [validated, validateAttestationToken, hacc, if_neg hpath]
        rw [heq]
        rcases recordCounter_cases p.oracles.euid (fs call.replayStatePath)
            (checkToken_mem htoken) with ⟨file', hfile, hrec⟩ | ⟨file', hfile, hlt, hrec⟩
        · rw [hfile]
          refine Or.inl ⟨show (0 : Int) ≠ 1 by decide, ?_⟩
          simp only [Function.update_self, hrec]
        · rw [hfile]
          refine Or.inr ⟨c, rfl, rfl, hlt, ?_⟩
          simp only [Function.update_self, hrec]

-- ── What the exit code says ──────────────────────────────────────────────────────

theorem enforceHitlPolicy_pass {result : AnalysisResult} {mode : HitlMode} {n : Nat}
    (h : enforceHitlPolicy result mode n = .pass) : result = .pass := by
  unfold enforceHitlPolicy at h
  by_cases hc : mode = .require ∧ 0 < n
  · rw [if_pos hc] at h
    cases h
  · rw [if_neg hc] at h
    exact h

/-- In require mode a result that the policy lets through means that everything logged is
    approved. -/
theorem approved_of_enforced {m : Module} {approved approvedClasses : Finset String}
    (hmode : args.hitlMode = .require)
    (h : enforceHitlPolicy (analysed p args m approved approvedClasses).1.result args.hitlMode
      (analysed p args m approved approvedClasses).1.hitlBlockedVcs = .pass) :
    ∀ vc ∈ vcLog (analysed p args m approved approvedClasses).2,
      Approved approved approvedClasses vc := by
  have hunblocked : (analysed p args m approved approvedClasses).2.blocked = [] := by
    rw [hmode] at h
    exact enforceHitlPolicy_require (congrArg AnalysisResult.isFail h)
  unfold analysed at hunblocked ⊢
  rw [hmode, analyze_gate] at hunblocked ⊢
  rw [(blocked_require _ _ _).1, List.map_eq_nil_iff, List.filter_eq_nil_iff] at hunblocked
  rw [vcLog_fresh]
  intro vc hvc
  exact Decidable.not_not.mp (fun hun => hunblocked vc hvc (decide_eq_true hun))

/-- Behind exit code 0 is an analysis that gets through both policies. -/
theorem exit_zero_stages {w : World} (hcmd : args.command = .analyze)
    (h : (main p args w).1 = 0) :
    ∃ m approved approvedClasses, Analysed p args w m approved approvedClasses
      ∧ (policy p args (enforceHitlPolicy (analysed p args m approved approvedClasses).1.result
          args.hitlMode (analysed p args m approved approvedClasses).1.hitlBlockedVcs)
          (emittedFs p args m approved approvedClasses w.fs)).1.result = .pass := by
  have hne : (main p args w).1 ≠ 1 := by
    rw [h]
    decide
  obtain ⟨a, w₁, hfirst, hlast⟩ := main_of_ne_one hne
  rw [firstStage, hcmd] at hfirst
  obtain ⟨m, approved, classes, hana, rfl, rfl⟩ := analysisStage_ok_iff.mp hfirst
  obtain ⟨-, -, hcode, -⟩ := verdictStage_ok_iff.mp hlast
  exact ⟨m, approved, classes, hana, verdictOf_code_eq_zero (hcode.symm.trans h)⟩

/-- **What exit code 0 vouches for.**  The module was parsed, the analysis passed, in require mode
    every condition it logged is approved by the files, and outside ring 0 the validator was
    reached behind every other check and accepted a counter above the recorded one. -/
theorem exit_zero_sound {w : World} (hcmd : args.command = .analyze)
    (h : (main p args w).1 = 0) :
    ∃ m approved approvedClasses, Analysed p args w m approved approvedClasses
      ∧ (analysed p args m approved approvedClasses).1.result = .pass
      ∧ (args.hitlMode = .require → ∀ vc ∈ vcLog (analysed p args m approved approvedClasses).2,
          Approved approved approvedClasses vc)
      ∧ ∀ r, args.ring.tokenRing = some r → ∀ fs,
          fs = emittedFs p args m approved approvedClasses w.fs → ∃ call c,
            Reached p.oracles ⟨fun _ => fs, fun _ => fs⟩ args.ring r args.attestation call
              ∧ acceptedCounter p.oracles.euid ⟨fs, fs, p.now⟩ call = some c
              ∧ recorded (fs call.replayStatePath) < c := by
  obtain ⟨m, approved, classes, hana, hresult⟩ := exit_zero_stages hcmd h
  obtain ⟨hpass, hvalid⟩ := policy_pass hresult
  refine ⟨m, approved, classes, hana, enforceHitlPolicy_pass hpass,
    fun hmode => approved_of_enforced hmode hpass, ?_⟩
  rintro r hring fs rfl
  obtain ⟨call, hcall, hone⟩ := hvalid (by
    rw [hring]
    exact Option.some_ne_none r)
  rcases validated_cases (p := p) call (emittedFs p args m approved classes w.fs) with
    ⟨hne, -⟩ | ⟨c, -, hacc, hlt, -⟩
  · exact absurd hone hne
  · exact ⟨call, c, (policyCall_eq_some_iff hring).mp hcall, hacc, hlt⟩

/-- Nothing fails, the clock stands at 100, and the IR file at 9 holds one function, which writes
    into its buffer and releases it. -/
def samplePlatform : Platform where
  oracles  := sampleOracles
  host     := sortedHost evalSolver
  arch     := .x86_64
  archName := "x86_64"
  now      := 100
  newMode  := 0o644
  parse    := fun _ path => if path = [9] then .module (.ofFunctions [Function.ofBlocks "init" [
    ([.call (.direct "kmalloc" [.lit 64 16] (some (.name "p"))),
      .store (.ptr "p") (.lit 64 7), .call (.direct "kfree" [.ptr "p"] none)], .ret none)]])
    else .failed "no such file"
  fault    := fun _ => none

/-- Ring -2 with two keys; the verdict goes to `verdictOut`. -/
def sampleArgs (verdictOut : Path) : Args where
  irPath             := some [9]
  ring               := .ringM2
  attestation        := twoKeys
  json               := true
  verdictOut         := some verdictOut
  hitlMode           := .require
  hitlApprovals      := some [8]
  hitlClassApprovals := none
  emitVcs            := none
  runtimeFallback    := .auto
  proofFormat        := .lfsc
  emitProof          := none
  inlineAsmPolicy    := .conservative
  dmaPolicy          := .verify
  command            := .analyze

/-- The sample deployment, with an approvals file at 8. -/
def sampleWorld : World where
  fs := Function.update (sampleFs sampleToken) [8]
    (some (ownFile (ascii "# reviewed\n  init::bb0::i1::store\n")))
  stdout := []
  stderr := []

theorem sample_exits_zero :
    (main samplePlatform (sampleArgs [7]) sampleWorld).1 = 0 := by
  decide +kernel

theorem sample_vouched :
    ∃ m approved approvedClasses,
      Analysed samplePlatform (sampleArgs [7]) sampleWorld m approved approvedClasses
        ∧ ∀ vc ∈ vcLog (analysed samplePlatform (sampleArgs [7]) m approved approvedClasses).2,
            Approved approved approvedClasses vc := by
  obtain ⟨m, approved, classes, hana, -, happroved, -⟩ := exit_zero_sound rfl sample_exits_zero
  exact ⟨m, approved, classes, hana, happroved rfl⟩

/-- **The verdict file, the terminal and the exit code agree.**  A run that does not exit with 1
    has one verdict: the exit code is its code, the terminal shows it, and the verdict file and
    the proof file are private files with its texts. -/
theorem exit_code_recorded {w : World} (h : (main p args w).1 ≠ 1) :
    ∃ v : Verdict, Produced v
      ∧ (v.status, v.code) ∈ [("pass", 0), ("fail", 10), ("unknown", 20)]
      ∧ (main p args w).1 = v.code
      ∧ (main p args w).2.stdout = w.stdout ++ printed args v
      ∧ (main p args w).2.stderr = w.stderr
      ∧ (∀ q, args.verdictOut = some q → proofPath args ≠ some q →
          (main p args w).2.fs q = some (outputFile p (v.toJson ++ ['\n'])))
      ∧ ∀ q, proofPath args = some q →
          (main p args w).2.fs q = some (outputFile p (proofText p args v)) := by
  obtain ⟨a, w₁, hfirst, hlast⟩ := main_of_ne_one h
  have hout : w₁.stdout = w.stdout ∧ w₁.stderr = w.stderr := by
    unfold firstStage at hfirst
    cases hcmd : args.command with
    | analyze =>
        simp only [hcmd] at hfirst
        obtain ⟨m, approved, classes, -, -, rfl⟩ := analysisStage_ok_iff.mp hfirst
        exact ⟨rfl, rfl⟩
    | attestCheck =>
        simp only [hcmd] at hfirst
        obtain ⟨-, rfl⟩ := Prod.mk.inj hfirst
        exact ⟨rfl, rfl⟩
  obtain ⟨-, -, hcode, hworld⟩ := verdictStage_ok_iff.mp hlast
  refine ⟨verdictAt p args a w₁.fs, verdictFromResult_produced _ _ _ _ _ _ _ _ _ _ _,
    verdictOf_code a _, hcode, ?_, ?_, ?_, ?_⟩
  · rw [hworld, hout.1]
  · rw [hworld, hout.2]
  · intro q hq hne
    rw [hworld]
    show wrote p (proofPath args) _ (wrote p args.verdictOut _ _) q = _
    rw [wrote_of_ne hne, hq]
    exact Function.update_self _ _ _
  · intro q hq
    rw [hworld]
    show wrote p (proofPath args) _ (wrote p args.verdictOut _ _) q = _
    rw [hq]
    exact Function.update_self _ _ _

theorem sample_recorded : ∃ v : Verdict, v.code = 0
    ∧ (main samplePlatform (sampleArgs [7]) sampleWorld).2.fs [7]
      = some (outputFile samplePlatform (v.toJson ++ ['\n'])) := by
  have hne : (main samplePlatform (sampleArgs [7]) sampleWorld).1 ≠ 1 := by
    rw [sample_exits_zero]
    decide
  obtain ⟨v, -, -, hcode, -, -, hfile, -⟩ := exit_code_recorded hne
  exact ⟨v, hcode.symm.trans sample_exits_zero, hfile [7] rfl (by decide)⟩

-- ── What a run leaves alone ──────────────────────────────────────────────────────

/-- The outputs of a run. -/
def outputs (args : Args) : List Path :=
  (match args.command with
    | .analyze => args.emitVcs.toList
    | .attestCheck => []) ++ args.verdictOut.toList ++ (proofPath args).toList

/-- The replay state the validator would use; at ring 0 there is none. -/
def replayState (p : Platform) (args : Args) : Option Path :=
  if args.ring = .ring0 then none else args.attestation.replayState.map p.oracles.lossy

/-- Only the files at `S` differ. -/
def Within (S : List Path) (w w' : World) : Prop := ∀ q ∉ S, w'.fs q = w.fs q

theorem within_refl {S : List Path} (w : World) : Within S w w := fun _ _ => rfl

theorem within_trans {S : List Path} (w w' w'' : World) (h : Within S w w')
    (h' : Within S w' w'') : Within S w w'' := fun q hq => (h' q hq).trans (h q hq)

theorem keeps_look {α : Type} {S : List Path} (f : Fs → Except String α) :
    Keeps (Within S) (look f) := fun w => within_refl w

theorem keeps_output {S : List Path} {which : Output} {path : Option Path} {content : Text}
    {context : String} (h : path.toList ⊆ S) :
    Keeps (Within S) (output p which path content context) := by
  cases path with
  | none => exact keeps_pure within_refl ()
  | some r =>
      intro w q hq
      refine Function.update_of_ne ?_ _ _
      rintro rfl
      exact hq (h List.mem_cons_self)

theorem keeps_approvals {S : List Path} (path : Option Path) :
    Keeps (Within S) (approvals p path) := by
  cases path with
  | none => exact keeps_pure within_refl ∅
  | some q => exact keeps_look _

theorem keeps_classApprovals {S : List Path} : Keeps (Within S) (classApprovals p args) := by
  unfold classApprovals
  cases args.hitlMode with
  | off => exact keeps_pure within_refl ∅
  | require => exact keeps_approvals _

theorem keeps_firstStage {S : List Path} (h : outputs args ⊆ S) :
    Keeps (Within S) (firstStage p args) := by
  unfold firstStage
  cases hcmd : args.command with
  | attestCheck => exact keeps_pure within_refl noAnalysis
  | analyze =>
      refine keeps_bind within_trans (keeps_look _) fun m => ?_
      refine keeps_bind within_trans (keeps_look _) fun _ => ?_
      refine keeps_bind within_trans (keeps_approvals _) fun approved => ?_
      refine keeps_bind within_trans keeps_classApprovals fun classes => ?_
      refine keeps_bind within_trans (keeps_output fun q hq => h ?_) fun _ =>
        keeps_pure within_refl _
      unfold outputs
      rw [hcmd, List.append_assoc]
      exact List.mem_append_left _ hq

/-- The validator is called with the replay state of the options. -/
theorem policyCall_replayState {fs : Fs} {call : ValidatorCall}
    (h : policyCall p args fs = some call) : replayState p args = some call.replayStatePath := by
  cases hring : args.ring.tokenRing with
  | none =>
      rw [policyCall, hring] at h
      cases h
  | some r =>
      obtain ⟨_, _, _, _, _, nonce, replay, -, hready, rfl⟩ := (policyCall_eq_some_iff hring).mp h
      have hne : args.ring ≠ .ring0 := by
        intro h0
        rw [h0] at hring
        cases hring
      rw [replayState, if_neg hne, hready.hasReplay]
      rfl

theorem policy_frame {result : AnalysisResult} {fs : Fs} {q : Path}
    (h : replayState p args ≠ some q) : (policy p args result fs).2 q = fs q := by
  rcases policy_cases p args result fs with
    ⟨-, -, heq⟩ | ⟨-, msg, info, heq⟩ | ⟨call, info, hcall, heq⟩
  · rw [heq]
  · rw [heq]
  · rw [heq]
    refine validated_frame ?_
    rintro rfl
    exact h (policyCall_replayState hcall)

theorem keeps_reportStage {S : List Path} (h : outputs args ⊆ S) (v : Verdict) :
    Keeps (Within S) (reportStage p args v) := by
  have hverdict : args.verdictOut.toList ⊆ S := fun q hq =>
    h (List.mem_append_left _ (List.mem_append_right _ hq))
  have hproof : (proofPath args).toList ⊆ S := fun q hq => h (List.mem_append_right _ hq)
  refine keeps_bind within_trans (fun w => within_refl w) fun _ => ?_
  refine keeps_bind within_trans (keeps_output hverdict) fun _ => ?_
  exact keeps_bind within_trans (keeps_output hproof) fun _ => keeps_pure within_refl _

theorem keeps_ringPolicy {S : List Path} (h : (replayState p args).toList ⊆ S)
    (result : AnalysisResult) : Keeps (Within S) (ringPolicy p args result) := by
  intro w q hq
  refine policy_frame fun heq => hq (h ?_)
  rw [heq]
  exact List.mem_cons_self

theorem run_frame (w : World) {q : Path} (hout : q ∉ outputs args)
    (hreplay : replayState p args ≠ some q) : (exec (run p args) w).2.fs q = w.fs q := by
  have hkeeps : Keeps (Within (outputs args ++ (replayState p args).toList)) (run p args) :=
    keeps_bind within_trans (keeps_firstStage (List.subset_append_left _ _)) fun _ =>
      keeps_bind within_trans (keeps_ringPolicy (List.subset_append_right _ _) _) fun _ =>
        keeps_reportStage (List.subset_append_left _ _) _
  have hq : q ∉ outputs args ++ (replayState p args).toList := by
    rw [List.mem_append, not_or, Option.mem_toList]
    exact ⟨hout, hreplay⟩
  exact hkeeps w q hq

end SkvRun

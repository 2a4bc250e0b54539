import SentinelKv.SkvReplayProofs
import SentinelKv.SkvSignatureProofs

/-!
# One call of the C validator

`skv_validate_attestation_token` from its first check to its return, for a caller that nobody
disturbs in the replay section.  The token path is looked at twice, by `lstat` and by
`fopen`, and may be replaced in between.

**`validate_eq_one_iff`** says when it returns 1, and **`recordCounter_runs`** that its replay
section is a run of the concurrent system in which only this process moves.
-/

namespace SkvValidator

open Decimal SkvToken SkvReplayState SkvReplay SkvSignature

/-- The arguments of `skv_validate_attestation_token`. -/
structure ValidatorCall where
  tokenPath       : Path
  requiredRing    : Int
  maxAgeSec       : Nat
  expectedNonce   : Bytes
  replayStatePath : Path
deriving DecidableEq, Repr

/-- What a call finds at the token path and on the clock. -/
structure Seen where
  lstat : Fs
  fopen : Fs
  now   : Int

def ValidatorCall.request (call : ValidatorCall) (now : Int) : Request :=
  ⟨call.requiredRing, call.maxAgeSec, some call.expectedNonce, now⟩

/-- Up to the replay section: the counter to record. -/
def acceptedCounter (euid : Nat) (seen : Seen) (call : ValidatorCall) : Option Int :=
  if call.tokenPath = [] then none
  else
    match seen.lstat call.tokenPath with
    | none => none
    | some f =>
        if f.secure euid then
          (readFile seen.fopen call.tokenPath).bind (checkToken (call.request seen.now))
        else none

/-- What `open` with `O_CREAT` makes of an absent file. -/
def newState (euid : Nat) : File := ⟨true, euid, 0o600, some []⟩

/-- The replay section, from `open` to `close`.  `snprintf` always fits (`not_refuses`). -/
def recordCounter (euid : Nat) (file : Option File) (c : Int) : Bool × Option File :=
  let f := file.getD (newState euid)
  match f.content with
  -- `open` fails
  | none => (false, file)
  | some content =>
      if !f.secure euid then (false, some f)
      else if !counterFresh content c then (false, some f)
      else
        let written := (runCalls c updateSequence (content, 0)).1
        (true, some { f with mode := 0o600, content := some written })

/-- `skv_validate_attestation_token`. -/
def validateAttestationToken (euid : Nat) (seen : Seen) (call : ValidatorCall) (fs : Fs) :
    Int × Fs :=
  match acceptedCounter euid seen call with
  | none => (0, fs)
  | some c =>
      if call.replayStatePath = [] then (0, fs)
      else
        let r := recordCounter euid (fs call.replayStatePath) c
        (if r.1 then 1 else 0, Function.update fs call.replayStatePath r.2)

-- ── When it returns 1 ────────────────────────────────────────────────────────────

/-- The bytes behind an accepted counter. -/
theorem acceptedCounter_eq_some_iff {euid : Nat} {seen : Seen} {call : ValidatorCall} {c : Int} :
    acceptedCounter euid seen call = some c ↔
      call.tokenPath ≠ [] ∧ (∃ f, seen.lstat call.tokenPath = some f ∧ f.secure euid = true)
        ∧ ∃ token, readFile seen.fopen call.tokenPath = some token
            ∧ checkToken (call.request seen.now) token = some c := by
  unfold acceptedCounter
  by_cases hpath : call.tokenPath = []
  · rw [if_pos hpath]
    exact ⟨fun hn => (nomatch hn), fun hn => absurd hpath hn.1⟩
  · rw [if_neg hpath]
    cases hstat : seen.lstat call.tokenPath with
    | none =>
        constructor
        · intro hn
          exact nomatch hn
        · rintro ⟨-, ⟨f, hf, -⟩, -⟩
          exact nomatch hf
    | some f =>
        by_cases hsec : f.secure euid = true
        · show (if f.secure euid = true then _ else _) = _ ↔ _
          rw [if_pos hsec, Option.bind_eq_some_iff]
          exact ⟨fun hc => ⟨hpath, ⟨f, rfl, hsec⟩, hc⟩, fun hc => hc.2.2⟩
        · show (if f.secure euid = true then _ else _) = _ ↔ _
          rw [if_neg hsec]
          constructor
          · intro hn
            exact nomatch hn
          · rintro ⟨-, ⟨g, hg, hgs⟩, -⟩
            rw [Option.some.inj hg] at hsec
            exact absurd hgs hsec

theorem validate_eq_one_iff {euid : Nat} {seen : Seen} {call : ValidatorCall} {fs : Fs} :
    (validateAttestationToken euid seen call fs).1 = 1 ↔
      ∃ c, acceptedCounter euid seen call = some c ∧ call.replayStatePath ≠ []
        ∧ (recordCounter euid (fs call.replayStatePath) c).1 = true := by
  unfold validateAttestationToken
  cases hacc : acceptedCounter euid seen call with
  | none =>
      constructor
      · intro hz
        have hz' : (0 : Int) = 1 := hz
        exact absurd hz' (by decide)
      · rintro ⟨c, hc, -⟩
        exact nomatch hc
  | some c =>
      by_cases hpath : call.replayStatePath = []
      · show (if call.replayStatePath = [] then _ else _ : Int × Fs).1 = 1 ↔ _
        rw [if_pos hpath]
        constructor
        · intro hz
          have hz' : (0 : Int) = 1 := hz
          exact absurd hz' (by decide)
        · rintro ⟨c', -, hne, -⟩
          exact absurd hpath hne
      · show (if call.replayStatePath = [] then _ else _ : Int × Fs).1 = 1 ↔ _
        rw [if_neg hpath]
        show (if (recordCounter euid (fs call.replayStatePath) c).1 then (1 : Int) else 0) = 1 ↔ _
        constructor
        · intro hone
          refine ⟨c, rfl, hpath, ?_⟩
          by_cases hrec : (recordCounter euid (fs call.replayStatePath) c).1 = true
          · exact hrec
          · rw [if_neg hrec] at hone
            exact absurd hone (by decide)
        · rintro ⟨c', hc', -, hrec⟩
          rw [← Option.some.inj hc'] at hrec
          rw [if_pos hrec]

-- ── The replay section as a run ──────────────────────────────────────────────────

section Alone

variable {P : Type} [DecidableEq P]

/-- The system calls of a process that is not disturbed, by the two answers it gets. -/
def soloActs (p : P) (secure isFresh : Bool) : List (Act P) :=
  [.openState p, .lock p, .fstat p secure]
    ++ (if secure then .pread p :: (if isFresh then List.replicate 6 (.update p) else []) else [])
    ++ [.close p]

theorem run_append (s : Sys P) (as bs : List (Act P)) :
    run s (as ++ bs) = (run s as).bind (fun s' => run s' bs) :=
  LockedRegister.run_append_of_step (fun _ => rfl) (fun _ _ _ => rfl) as bs s

/-- The calls that are left of an update, one after the other. -/
theorem run_updates {p : P} {c : Int} (hc : InI64 c) (calls : List UpdateCall) :
    ∀ {s : Sys P} {content : Bytes} {pos : Nat}, s.procs p = .updating c calls pos →
      s.file = some content →
      ∃ s', run s (List.replicate calls.length (.update p)) = some s'
        ∧ s'.procs p = .updating c [] (runCalls c calls (content, pos)).2
        ∧ s'.file = some (runCalls c calls (content, pos)).1
        ∧ s'.returns = s.returns := by
  induction calls with
  | nil =>
      intro s content pos hpc hfile
      exact ⟨s, rfl, hpc, hfile, rfl⟩
  | cons call calls ih =>
      intro s content pos hpc hfile
      have hstep : ∃ t, step s (.update p) = some t
          ∧ t.procs p = .updating c calls (call.run c (content, pos)).2
          ∧ t.file = some (call.run c (content, pos)).1 ∧ t.returns = s.returns := by
        simp [step, move, hpc, hfile, not_refuses hc, Sys.goto, Sys.observe, Act.proc]
      obtain ⟨t, ht, htpc, htfile, htret⟩ := hstep
      obtain ⟨s', hrun, hpc', hfile', hret'⟩ := ih htpc htfile
      refine ⟨s', ?_, hpc', hfile', hret'.trans htret⟩
      show (step s (.update p)).bind _ = _
      rw [ht]
      exact hrun

theorem step_close {s : Sys P} {p : P} {c : Int} {pos : Nat} (hpc : s.procs p = .updating c [] pos) :
    ∃ s', run s [.close p] = some s' ∧ s'.lock = none ∧ s'.file = s.file
      ∧ s'.returns.map (fun t => (t.proc, t.result))
          = s.returns.map (fun t => (t.proc, t.result)) ++ [(p, some c)] := by
  simp [run, step, move, hpc, Sys.goto, Sys.observe, Act.proc, Sys.ret]

/-- **The replay section is a run** of the system in which nobody else moves: it ends with the
    lock free, the same content and the same answer. -/
theorem recordCounter_runs {euid : Nat} {file : Option File} {c : Int} (hc : InI64 c)
    {content : Bytes} (hopen : (file.getD (newState euid)).content = some content) {s : Sys P} {p : P}
    (hpc : s.procs p = .checked c) (hlock : s.lock = none) (hfile : s.file.getD [] = content) :
    ∃ s',
      run s (soloActs p ((file.getD (newState euid)).secure euid) (counterFresh content c)) = some s'
        ∧ s'.lock = none
        ∧ s'.file = (recordCounter euid file c).2.bind (fun f => f.content)
        ∧ s'.returns.map (fun t => (t.proc, t.result)) = s.returns.map (fun t => (t.proc, t.result))
            ++ [(p, if (recordCounter euid file c).1 then some c else none)] := by
  unfold recordCounter
  generalize file.getD (newState euid) = f at hopen ⊢
  simp only [hopen]
  cases hsec : f.secure euid with
  | false =>
      simp [soloActs, run, step, move, Sys.goto, Sys.observe, Act.proc, hpc, hlock, Sys.ret, hfile,
        hopen]
  | true =>
      cases hfresh : counterFresh content c with
      | false =>
          simp [soloActs, run, step, move, Sys.goto, Sys.observe, Act.proc, hpc, hlock, Sys.ret,
            hfile, hfresh, hopen]
      | true =>
          -- up to `pread` the file is only created; then the update sequence and `close`
          have hread : ∃ t, run s [.openState p, .lock p, .fstat p true, .pread p] = some t
              ∧ t.procs p = .updating c updateSequence 0 ∧ t.file = some content
              ∧ t.returns = s.returns := by
            simp [run, step, move, Sys.goto, Sys.observe, Act.proc, hpc, hlock, hfile, hfresh]
          obtain ⟨t, ht, htpc, htfile, htret⟩ := hread
          obtain ⟨u, hu, hupc, hufile, huret⟩ := run_updates hc updateSequence htpc htfile
          obtain ⟨s', hs', hlock', hfile', hret'⟩ := step_close hupc
          refine ⟨s', ?_, hlock', hfile'.trans hufile, ?_⟩
          · show run s ([.openState p, .lock p, .fstat p true, .pread p]
              ++ (List.replicate updateSequence.length (.update p) ++ [.close p])) = some s'
            rw [run_append, ht, Option.bind_some, run_append, hu, Option.bind_some, hs']
          · rw [hret', huret, htret]
            rfl

end Alone

end SkvValidator

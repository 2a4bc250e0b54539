import Mathlib.Data.Int.Order.Basic
import SentinelKv.LockedRegisterProofs
import SentinelKv.SkvReplayStateProofs
import SentinelKv.SkvZigTokenProofs

/-!
# Replay protection of the Zig backend

Any number of processes run the Zig `skv_validate_attestation_token` on one replay state path.
Its replay section looks at the recorded counter, compares, and then creates the file anew and
writes; the feature catalog speaks of an atomic update with file lock, but there is no lock, and
other processes may come in between any two file operations.  Operations do not fail, and the
text of a counter goes out in one write.

So two processes can both look before either writes, and the same counter is accepted twice
(**`racing_calls`**).  What the comparison does protect against is everything accepted before
the look, provided the look found the record: the file was there, passed the checks on its mode
and was not just then truncated by another process.

* **`readLast_of_record`** — a written counter is read back;
* **`timelyRun_of_exclusive`** — with the section to itself, as under a lock, every process
  writes in time;
* **`accepted_increasing_iff`** — the accepted counters of a run increase if and only if every
  write is TIMELY: above all counters accepted since its process looked.
-/

namespace SkvZigReplay

open Decimal LineReader LockedRegister SkvToken SkvZigToken SkvReplayState

-- ── The system ───────────────────────────────────────────────────────────────────

/-- The first line of the state file, in a buffer of 128 bytes.  An empty file and a line that
    is no number leave `last_counter` at -1; a line that is too long returns false. -/
def readLast (content : Bytes) : Option Int :=
  if content = [] then some (-1)
  else (readUntil 10 128 content).map (fun r => (parseInt (trimLine r.1)).getD (-1))

/-- The state file, and whether `isSecureRegularFile` accepts it. -/
structure StateFile where
  content : Bytes
  secure  : Bool

/-- Where a process is in the replay section; `c` is the counter of its token.  `seen` is not
    part of the program: it is the number of accepted counters that its look accounts for. -/
inductive Pc where
  | idle
  /-- At `isSecureRegularFile(replay_state_path)`. -/
  | checked (c : Int)
  /-- At `openFileAbsolute`. -/
  | found (c : Int)
  /-- At `readUntilDelimiterOrEof`. -/
  | opened (c : Int)
  /-- At `token_counter <= last_counter`. -/
  | looked (c last : Int) (seen : Nat)
  /-- At `createFileAbsolute`. -/
  | fresh (c : Int) (seen : Nat)
  /-- At `print`. -/
  | created (c : Int) (seen : Nat)

/-- The state file, the processes, and the accepted counters in the order of their writes. -/
structure Sys (P : Type) where
  file     : Option StateFile
  procs    : P → Pc
  accepted : List Int

inductive Act (P : Type) where
  | call (p : P) (q : Request) (token : Option Bytes)
  | lstat (p : P)
  | openState (p : P)
  | read (p : P)
  | compare (p : P)
  | create (p : P)
  | write (p : P)

section System

variable {P : Type}

def Sys.content (s : Sys P) : Bytes := (s.file.map StateFile.content).getD []

/-- A file that has to be created gets the mode 0600. -/
def Sys.secure (s : Sys P) : Bool := (s.file.map StateFile.secure).getD true

/-- `isSecureRegularFile(replay_state_path)`. -/
def Sys.stateExists (s : Sys P) : Bool := (s.file.map StateFile.secure).getD false

/-- A look at a file that another process has emptied accounts for nothing. -/
def Sys.seen (s : Sys P) : Nat := if s.content = [] then 0 else s.accepted.length

variable [DecidableEq P]

def Sys.goto (s : Sys P) (p : P) (pc : Pc) : Sys P :=
  { s with procs := Function.update s.procs p pc }

/-- One operation of one process; `none` when the process is not at it.  A token is `none` when
    the checks on its file fail. -/
def step (s : Sys P) : Act P → Option (Sys P)
  | .call p q token =>
      match s.procs p with
      | .idle =>
          match token.bind (parseToken q) with
          | none => some s
          | some c => some (s.goto p (.checked c))
      | _ => none
  | .lstat p =>
      match s.procs p with
      | .checked c => some (s.goto p (if s.stateExists then .found c else .looked c (-1) 0))
      | _ => none
  | .openState p =>
      match s.procs p with
      | .found c => some (s.goto p (.opened c))
      | _ => none
  | .read p =>
      match s.procs p with
      | .opened c =>
          match readLast s.content with
          | none => some (s.goto p .idle)
          | some last => some (s.goto p (.looked c last s.seen))
      | _ => none
  | .compare p =>
      match s.procs p with
      | .looked c last seen => some (s.goto p (if c ≤ last then .idle else .fresh c seen))
      | _ => none
  | .create p =>
      match s.procs p with
      | .fresh c seen => some { s.goto p (.created c seen) with file := some ⟨[], s.secure⟩ }
      | _ => none
  | .write p =>
      match s.procs p with
      | .created c _ =>
          -- at the offset of its own descriptor, over what others may have written
          some { s.goto p .idle with
            file     := some ⟨writeAt s.content 0 (counterText c), s.secure⟩
            accepted := s.accepted ++ [c] }
      | _ => none

/-- An interleaving. -/
def run (s : Sys P) : List (Act P) → Option (Sys P)
  | [] => some s
  | a :: as => (step s a).bind (fun s' => run s' as)

def Sys.start (file : Option StateFile) : Sys P := ⟨file, fun _ => .idle, []⟩

/-- A write is timely if its counter is above all that were accepted since its look. -/
def Timely (s : Sys P) : Act P → Prop
  | .write p =>
      match s.procs p with
      | .created c seen => ∀ d ∈ s.accepted.drop seen, d < c
      | _ => True
  | _ => True

/-- Every write of the run is timely. -/
def TimelyRun (s : Sys P) : List (Act P) → Prop
  | [] => True
  | a :: as => Timely s a ∧ ∀ s', step s a = some s' → TimelyRun s' as

end System

-- ── Reading what was written ─────────────────────────────────────────────────────

theorem printI64_inner (c : Int) : Inner (printI64 c) := by
  refine inner_append ?_ (fun b hb => isDigit_inner (printNat_digits _ b hb))
  cases decide (c < 0) with
  | true => exact sign_inner (Or.inr (Or.inl rfl))
  | false => exact sign_inner (Or.inl rfl)

/-- **A recorded counter is read back**, whatever stands behind it. -/
theorem readLast_of_record {c : Int} (hc : InI64 c) {content : Bytes}
    (h : counterText c <+: content) : readLast content = some c := by
  obtain ⟨rest, rfl⟩ := h
  have hinner := printI64_inner c
  have hline : readUntil 10 128 (printI64 c ++ 10 :: rest) = some (printI64 c, rest) := by
    refine readUntil_line 10 (fun hmem => (hinner 10 hmem).2.1 rfl) rest 128 ?_
    exact Nat.lt_of_le_of_lt (printI64_length_le hc) (by decide)
  have htrim : trimLine (printI64 c) = printI64 c := by
    have happend := trimLine_append hinner []
    rwa [List.append_nil, show trimLine [] = [] from rfl, List.append_nil] at happend
  rw [counterText, List.append_assoc, List.singleton_append, readLast, if_neg (by simp), hline,
    Option.map_some, htrim, parseInt_printI64 hc, Option.getD_some]

theorem record_of_write (c : Int) (content : Bytes) :
    counterText c <+: writeAt content 0 (counterText c) := by
  rw [writeAt, List.take_zero, Nat.zero_sub, List.replicate_zero, List.nil_append,
    List.nil_append]
  exact List.prefix_append _ _

-- ── What a look accounts for ─────────────────────────────────────────────────────

/-- The first `seen` counters are at or below what a process read, and below the counter it
    goes on with. -/
def Accounts (log : List Int) : Pc → Prop
  | .idle => True
  | .checked c | .found c | .opened c => InI64 c
  | .looked c last seen => InI64 c ∧ seen ≤ log.length ∧ ∀ d ∈ log.take seen, d ≤ last
  | .fresh c seen | .created c seen => InI64 c ∧ seen ≤ log.length ∧ ∀ d ∈ log.take seen, d < c

/-- Counters accepted later do not matter to it. -/
theorem Accounts.append {log : List Int} {pc : Pc} (h : Accounts log pc) (c : Int) :
    Accounts (log ++ [c]) pc := by
  have hlen : ∀ {k : Nat}, k ≤ log.length → k ≤ (log ++ [c]).length := fun hk =>
    hk.trans (List.length_append ▸ Nat.le_add_right _ _)
  cases pc with
  | idle => trivial
  | checked c' => exact h
  | found c' => exact h
  | opened c' => exact h
  | looked c' last seen =>
      refine ⟨h.1, hlen h.2.1, ?_⟩
      rw [List.take_append_of_le_length h.2.1]
      exact h.2.2
  | fresh c' seen =>
      refine ⟨h.1, hlen h.2.1, ?_⟩
      rw [List.take_append_of_le_length h.2.1]
      exact h.2.2
  | created c' seen =>
      refine ⟨h.1, hlen h.2.1, ?_⟩
      rw [List.take_append_of_le_length h.2.1]
      exact h.2.2

section Invariant

variable {P : Type} {s : Sys P}

/-- As long as all writes are timely: the log increases, and the file is empty or begins with
    the last accepted counter. -/
structure Inv (s : Sys P) : Prop where
  increasing : s.accepted.Pairwise (· < ·)
  range      : ∀ c ∈ s.accepted, InI64 c
  record     : ∀ c, s.accepted.getLast? = some c → s.content = [] ∨ counterText c <+: s.content
  procs      : ∀ p, Accounts s.accepted (s.procs p)

theorem inv_start (file : Option StateFile) : Inv (Sys.start file : Sys P) where
  increasing := .nil
  range := fun _ h => nomatch h
  record := fun _ h => nomatch h
  procs := fun _ => trivial

/-- In an increasing log nothing is above the last entry. -/
theorem le_of_getLast {log : List Int} (h : log.Pairwise (· < ·)) {c : Int}
    (hc : log.getLast? = some c) : ∀ d ∈ log, d ≤ c := by
  obtain ⟨init, rfl⟩ := List.getLast?_eq_some_iff.mp hc
  obtain ⟨-, -, hcross⟩ := List.pairwise_append.mp h
  intro d hd
  rcases List.mem_append.mp hd with hd | hd
  · exact (hcross d hd c List.mem_cons_self).le
  · exact (List.mem_singleton.mp hd).le

/-- **A look accounts for what was accepted before it**, if it found a record. -/
theorem Inv.looked (h : Inv s) {last : Int} (hlast : readLast s.content = some last) :
    s.seen ≤ s.accepted.length ∧ ∀ d ∈ s.accepted.take s.seen, d ≤ last := by
  unfold Sys.seen
  by_cases hempty : s.content = []
  · rw [if_pos hempty]
    exact ⟨Nat.zero_le _, fun d hd => nomatch hd⟩
  · rw [if_neg hempty, List.take_length]
    refine ⟨Nat.le_refl _, fun d hd => ?_⟩
    obtain ⟨c, hc⟩ := Option.isSome_iff_exists.mp (List.getLast?_isSome.mpr (List.ne_nil_of_mem hd))
    have hrecord := (h.record c hc).resolve_left hempty
    rw [readLast_of_record (h.range c (List.mem_of_getLast? hc)) hrecord] at hlast
    rw [← Option.some.inj hlast]
    exact le_of_getLast h.increasing hc d hd

/-- A timely write accepts a counter above all others. -/
theorem Inv.above (h : Inv s) {p : P} {c : Int} {seen : Nat} (hpc : s.procs p = .created c seen)
    (ht : Timely s (.write p)) : ∀ d ∈ s.accepted, d < c := by
  have haccounts := h.procs p
  simp only [Timely, hpc] at ht haccounts
  intro d hd
  rw [← List.take_append_drop seen s.accepted] at hd
  rcases List.mem_append.mp hd with hd | hd
  · exact haccounts.2.2 d hd
  · exact ht d hd

end Invariant

-- ── Steps and runs ───────────────────────────────────────────────────────────────

section Runs

variable {P : Type} [DecidableEq P] {s s' : Sys P}

/-- What a step can do, with what is known of its process. -/
inductive Moves (s : Sys P) : Act P → Sys P → Prop
  | refused {p q token} : Moves s (.call p q token) s
  | called {p q token c} : s.procs p = .idle → InI64 c →
      Moves s (.call p q token) (s.goto p (.checked c))
  | missed {p c} : s.procs p = .checked c → s.stateExists = false →
      Moves s (.lstat p) (s.goto p (.looked c (-1) 0))
  | found {p c} : s.procs p = .checked c → Moves s (.lstat p) (s.goto p (.found c))
  | opened {p c} : s.procs p = .found c → Moves s (.openState p) (s.goto p (.opened c))
  | tooLong {p c} : s.procs p = .opened c → Moves s (.read p) (s.goto p .idle)
  | looked {p c last} : s.procs p = .opened c → readLast s.content = some last →
      Moves s (.read p) (s.goto p (.looked c last s.seen))
  | rejected {p c last seen} : s.procs p = .looked c last seen →
      Moves s (.compare p) (s.goto p .idle)
  | passed {p c last seen} : s.procs p = .looked c last seen → last < c →
      Moves s (.compare p) (s.goto p (.fresh c seen))
  | created {p c seen} : s.procs p = .fresh c seen →
      Moves s (.create p) { s.goto p (.created c seen) with file := some ⟨[], s.secure⟩ }
  | written {p c seen} : s.procs p = .created c seen →
      Moves s (.write p) { s.goto p .idle with
        file     := some ⟨writeAt s.content 0 (counterText c), s.secure⟩
        accepted := s.accepted ++ [c] }

theorem step_moves {a : Act P} (hstep : step s a = some s') : Moves s a s' := by
  cases a with
  | call p q token =>
      simp only [step] at hstep
      split at hstep
      · next hpc =>
          split at hstep
          · obtain rfl := Option.some.inj hstep
            exact .refused
          · next c hc =>
              obtain ⟨content, -, htoken⟩ := Option.bind_eq_some_iff.mp hc
              obtain rfl := Option.some.inj hstep
              exact .called hpc (parseToken_mem htoken)
      · exact nomatch hstep
  | lstat p =>
      simp only [step] at hstep
      split at hstep
      · next c hpc =>
          obtain rfl := Option.some.inj hstep
          split
          · exact .found hpc
          · next hexists => exact .missed hpc (Bool.eq_false_iff.mpr hexists)
      · exact nomatch hstep
  | openState p =>
      simp only [step] at hstep
      split at hstep
      · next c hpc =>
          obtain rfl := Option.some.inj hstep
          exact .opened hpc
      · exact nomatch hstep
  | read p =>
      simp only [step] at hstep
      split at hstep
      · next c hpc =>
          split at hstep
          · obtain rfl := Option.some.inj hstep
            exact .tooLong hpc
          · next last hlast =>
              obtain rfl := Option.some.inj hstep
              exact .looked hpc hlast
      · exact nomatch hstep
  | compare p =>
      simp only [step] at hstep
      split at hstep
      · next c last seen hpc =>
          obtain rfl := Option.some.inj hstep
          split
          · exact .rejected hpc
          · next hlt => exact .passed hpc (Int.not_le.mp hlt)
      · exact nomatch hstep
  | create p =>
      simp only [step] at hstep
      split at hstep
      · next c seen hpc =>
          obtain rfl := Option.some.inj hstep
          exact .created hpc
      · exact nomatch hstep
  | write p =>
      simp only [step] at hstep
      split at hstep
      · next c seen hpc =>
          obtain rfl := Option.some.inj hstep
          exact .written hpc
      · exact nomatch hstep

theorem accounts_update (h : Inv s) (p : P) {pc : Pc} (hpc : Accounts s.accepted pc) :
    ∀ q, Accounts s.accepted (Function.update s.procs p pc q) :=
  (Function.forall_update_iff s.procs (fun _ x => Accounts s.accepted x)).mpr
    ⟨hpc, fun q _ => h.procs q⟩

theorem Inv.goto (h : Inv s) (p : P) {pc : Pc} (hpc : Accounts s.accepted pc) :
    Inv (s.goto p pc) :=
  ⟨h.increasing, h.range, h.record, accounts_update h p hpc⟩

/-- The invariant after a timely write. -/
theorem Inv.write (h : Inv s) {p : P} {c : Int} {seen : Nat} (hpc : s.procs p = .created c seen)
    (ht : Timely s (.write p)) :
    Inv { s.goto p .idle with
      file     := some ⟨writeAt s.content 0 (counterText c), s.secure⟩
      accepted := s.accepted ++ [c] } := by
  have hc : Accounts s.accepted (.created c seen) := hpc ▸ h.procs p
  have hidle : Accounts s.accepted .idle := trivial
  refine ⟨?_, ?_, ?_, fun q => (accounts_update h p hidle q).append c⟩
  · refine List.pairwise_append.mpr ⟨h.increasing, List.pairwise_singleton _ c, ?_⟩
    intro d hd e he
    rw [List.mem_singleton.mp he]
    exact h.above hpc ht d hd
  · intro d hd
    rcases List.mem_append.mp hd with hd | hd
    · exact h.range d hd
    · rw [List.mem_singleton.mp hd]
      exact hc.1
  · intro d hd
    rw [List.getLast?_concat] at hd
    obtain rfl := Option.some.inj hd
    exact Or.inr (record_of_write c s.content)

/-- **One step** keeps the invariant, if it is no late write. -/
theorem step_inv (h : Inv s) {a : Act P} (ht : Timely s a) (hstep : step s a = some s') :
    Inv s' := by
  cases step_moves hstep with
  | refused => exact h
  | called _ hc => exact h.goto _ hc
  | @missed p c hpc _ =>
      have hc : Accounts s.accepted (.checked c) := hpc ▸ h.procs p
      exact h.goto p ⟨hc, Nat.zero_le _, fun d hd => nomatch hd⟩
  | @found p c hpc =>
      have hc : Accounts s.accepted (.checked c) := hpc ▸ h.procs p
      exact h.goto p hc
  | @opened p c hpc =>
      have hc : Accounts s.accepted (.found c) := hpc ▸ h.procs p
      exact h.goto p hc
  | tooLong _ => exact h.goto _ trivial
  | @looked p c last hpc hlast =>
      have hc : Accounts s.accepted (.opened c) := hpc ▸ h.procs p
      exact h.goto p ⟨hc, h.looked hlast⟩
  | rejected _ => exact h.goto _ trivial
  | @passed p c last seen hpc hlt =>
      have hc : Accounts s.accepted (.looked c last seen) := hpc ▸ h.procs p
      exact h.goto p ⟨hc.1, hc.2.1, fun d hd => (hc.2.2 d hd).trans_lt hlt⟩
  | @created p c seen hpc =>
      have hc : Accounts s.accepted (.fresh c seen) := hpc ▸ h.procs p
      exact ⟨h.increasing, h.range, fun _ _ => Or.inl rfl, accounts_update h p hc⟩
  | written hpc => exact h.write hpc ht

/-- **A whole run** of timely writes. -/
theorem run_inv : ∀ (as : List (Act P)) {s s' : Sys P}, Inv s → TimelyRun s as →
    run s as = some s' → Inv s' := by
  intro as
  induction as with
  | nil =>
      intro s s' h _ hrun
      rw [← Option.some.inj hrun]
      exact h
  | cons a as ih =>
      intro s s' h ht hrun
      obtain ⟨s₁, hstep, hrest⟩ := Option.bind_eq_some_iff.mp hrun
      exact ih (step_inv h ht.1 hstep) (ht.2 s₁ hstep) hrest

/-- Accepted counters stay. -/
theorem run_accepted : ∀ (as : List (Act P)) {s s' : Sys P}, run s as = some s' →
    s.accepted <+: s'.accepted := by
  intro as
  induction as with
  | nil =>
      intro s s' hrun
      obtain rfl := Option.some.inj hrun
      exact List.prefix_rfl
  | cons a as ih =>
      intro s s' hrun
      obtain ⟨s₁, hstep, hrest⟩ := Option.bind_eq_some_iff.mp hrun
      refine List.IsPrefix.trans ?_ (ih hrest)
      cases step_moves hstep with
      | written hpc => exact List.prefix_append _ _
      | _ => exact List.prefix_rfl

/-- A write that leaves the log increasing was timely. -/
theorem timely_of_increasing {a : Act P} (hstep : step s a = some s')
    (h : s'.accepted.Pairwise (· < ·)) : Timely s a := by
  cases step_moves hstep with
  | @written p c seen hpc =>
      obtain ⟨-, -, hcross⟩ := List.pairwise_append.mp h
      simp only [Timely, hpc]
      exact fun d hd => hcross d (List.mem_of_mem_drop hd) c List.mem_cons_self
  | _ => trivial

theorem timelyRun_of_increasing : ∀ (as : List (Act P)) {s s' : Sys P}, run s as = some s' →
    s'.accepted.Pairwise (· < ·) → TimelyRun s as := by
  intro as
  induction as with
  | nil => intro s s' _ _; trivial
  | cons a as ih =>
      intro s s' hrun h
      obtain ⟨s₁, hstep, hrest⟩ := Option.bind_eq_some_iff.mp hrun
      refine ⟨timely_of_increasing hstep (h.sublist (run_accepted as hrest).sublist), ?_⟩
      intro s₂ hstep₂
      obtain rfl := Option.some.inj (hstep.symm.trans hstep₂)
      exact ih hrest h

-- ── What a lock would give ───────────────────────────────────────────────────────

/-- Between the look and the end of the write. -/
def Pc.InSection : Pc → Prop
  | .idle | .checked _ => False
  | _ => True

/-- How many accepted counters the look of a process accounts for, once it has read. -/
def Pc.seen? : Pc → Option Nat
  | .looked _ _ seen | .fresh _ seen | .created _ seen => some seen
  | _ => none

/-- The file was emptied and is not yet written. -/
def Pc.Printing : Pc → Prop
  | .created _ _ => True
  | _ => False

/-- A look begins only when no process is in the section and the file, if any, is secure. -/
def Exclusive (s : Sys P) : Act P → Prop
  | .lstat _ => s.secure = true ∧ ∀ q, ¬ (s.procs q).InSection
  | _ => True

def ExclusiveRun (s : Sys P) : List (Act P) → Prop
  | [] => True
  | a :: as => Exclusive s a ∧ ∀ s', step s a = some s' → ExclusiveRun s' as

/-- Then at most one process is in the section, and nothing is accepted behind its back. -/
structure Undisturbed (s : Sys P) : Prop where
  owned  : ∃ owner, Owned Pc.InSection owner s.procs
  seen   : ∀ p k, (s.procs p).seen? = some k → k = s.accepted.length
  filed  : (∀ p, ¬ (s.procs p).Printing) → s.accepted = [] ∨ s.content ≠ []
  absent : s.file = none → s.accepted = []

omit [DecidableEq P] in
theorem undisturbed_start (file : Option StateFile) : Undisturbed (Sys.start file : Sys P) where
  owned := ⟨none, fun _ => iff_of_false id (fun h => nomatch h)⟩
  seen := fun _ _ h => nomatch h
  filed := fun _ => Or.inl rfl
  absent := fun _ => rfl

omit [DecidableEq P] in
theorem Undisturbed.unique (h : Undisturbed s) {p q : P} (hp : (s.procs p).InSection)
    (hq : (s.procs q).InSection) : p = q := by
  obtain ⟨owner, howned⟩ := h.owned
  exact howned.unique hp hq

/-- A move that leaves the file alone. -/
theorem Undisturbed.goto (h : Undisturbed s) {p : P} {pc : Pc}
    (howned : ∃ owner, Owned Pc.InSection owner (Function.update s.procs p pc))
    (hseen : ∀ k, pc.seen? = some k → k = s.accepted.length)
    (hprint : ¬ (s.procs p).Printing) : Undisturbed (s.goto p pc) where
  owned := howned
  seen := (Function.forall_update_iff s.procs
    (fun _ x => ∀ k, x.seen? = some k → k = s.accepted.length)).mpr ⟨hseen, fun q _ => h.seen q⟩
  filed := by
    intro hnone
    refine h.filed (fun q => ?_)
    by_cases hq : q = p
    · rw [hq]
      exact hprint
    · have hq' := hnone q
      rwa [show (s.goto p pc).procs q = s.procs q from Function.update_of_ne hq ..] at hq'
  absent := h.absent

/-- Inside the section, or outside of it. -/
theorem Undisturbed.stay (h : Undisturbed s) {p : P} {pc : Pc}
    (hin : pc.InSection ↔ (s.procs p).InSection) :
    ∃ owner, Owned Pc.InSection owner (Function.update s.procs p pc) := by
  obtain ⟨owner, howned⟩ := h.owned
  exact ⟨owner, howned.stay hin⟩

theorem Undisturbed.release (h : Undisturbed s) {p : P} (hp : (s.procs p).InSection) :
    ∃ owner, Owned Pc.InSection owner (Function.update s.procs p .idle) := by
  obtain ⟨owner, howned⟩ := h.owned
  exact ⟨none, howned.release hp id⟩

omit [DecidableEq P] in
/-- The reader accounts for everything: nobody else has emptied the file. -/
theorem Undisturbed.seen_eq (h : Undisturbed s) {p : P} (hp : (s.procs p).InSection)
    (hprint : ¬ (s.procs p).Printing) : s.seen = s.accepted.length := by
  have hnone : ∀ q, ¬ (s.procs q).Printing := by
    intro q hq
    have hin : (s.procs q).InSection := by
      cases hpc : s.procs q with
      | created c seen => trivial
      | _ => rw [hpc] at hq; exact hq.elim
    exact hprint (h.unique hin hp ▸ hq)
  unfold Sys.seen
  rcases h.filed hnone with hnil | hne
  · rw [hnil]
    exact ite_self 0
  · rw [if_neg hne]

/-- Entering the section when nobody is in it. -/
theorem owned_enter (hfree : ∀ q, ¬ (s.procs q).InSection) {p : P} {pc : Pc} (hpc : pc.InSection) :
    ∃ owner, Owned Pc.InSection owner (Function.update s.procs p pc) := by
  have howned : Owned Pc.InSection none s.procs := fun q => iff_of_false (hfree q) (by simp)
  exact ⟨some p, howned.acquire hpc⟩

omit [DecidableEq P] in
/-- If a secure path is not found, there is no file yet. -/
theorem Undisturbed.nothing_missed (h : Undisturbed s) (hsecure : s.secure = true)
    (hexists : s.stateExists = false) : s.accepted = [] := by
  refine h.absent ?_
  cases hf : s.file with
  | none => rfl
  | some f =>
      rw [Sys.secure, hf] at hsecure
      rw [Sys.stateExists, hf] at hexists
      exact absurd (hsecure.symm.trans hexists) (by decide)

/-- The process in the section empties the file. -/
theorem Undisturbed.create (h : Undisturbed s) {p : P} {c : Int} {seen : Nat}
    (hpc : s.procs p = .fresh c seen) :
    Undisturbed { s.goto p (.created c seen) with file := some ⟨[], s.secure⟩ } where
  owned := h.stay (by rw [hpc]; exact Iff.rfl)
  seen := (Function.forall_update_iff s.procs
    (fun _ x => ∀ k, x.seen? = some k → k = s.accepted.length)).mpr
    ⟨fun k hk => h.seen p k (by rw [hpc]; exact hk), fun q _ => h.seen q⟩
  filed := by
    intro hnone
    refine absurd ?_ (hnone p)
    rw [show (s.goto p (.created c seen)).procs p = .created c seen from Function.update_self ..]
    trivial
  absent := fun hf => absurd hf (by simp)

/-- It writes, and leaves the section with nobody else in it. -/
theorem Undisturbed.write (h : Undisturbed s) {p : P} {c : Int} {seen : Nat}
    (hpc : s.procs p = .created c seen) :
    Undisturbed { s.goto p .idle with
      file     := some ⟨writeAt s.content 0 (counterText c), s.secure⟩
      accepted := s.accepted ++ [c] } := by
  have hp : (s.procs p).InSection := by rw [hpc]; trivial
  have hnone : ∀ q, (Function.update s.procs p .idle q).seen? = none := by
    refine (Function.forall_update_iff s.procs (fun _ x => x.seen? = none)).mpr ⟨rfl, ?_⟩
    intro q hq
    cases hq' : s.procs q with
    | looked c' last k' => exact absurd (h.unique (by rw [hq']; trivial) hp) hq
    | fresh c' k' => exact absurd (h.unique (by rw [hq']; trivial) hp) hq
    | created c' k' => exact absurd (h.unique (by rw [hq']; trivial) hp) hq
    | _ => rfl
  refine ⟨h.release hp, ?_, fun _ => Or.inr ?_, fun hf => absurd hf (by simp)⟩
  · intro q k hk
    exact absurd ((hnone q).symm.trans hk) (by simp)
  · intro hempty
    have hpre := record_of_write c s.content
    rw [show writeAt s.content 0 (counterText c) = [] from hempty] at hpre
    exact absurd (List.prefix_nil.mp hpre) (by simp [counterText])

/-- An exclusive step keeps the section undisturbed. -/
theorem step_undisturbed (h : Undisturbed s) {a : Act P} (hex : Exclusive s a)
    (hstep : step s a = some s') : Undisturbed s' := by
  cases step_moves hstep with
  | refused => exact h
  | called hpc _ =>
      refine h.goto (h.stay ?_) (by simp [Pc.seen?]) (by rw [hpc]; exact id)
      rw [hpc]
      exact Iff.rfl
  | missed hpc hexists =>
      refine h.goto (owned_enter hex.2 trivial) ?_ (by rw [hpc]; exact id)
      intro k hk
      rw [← Option.some.inj hk, h.nothing_missed hex.1 hexists]
      rfl
  | found hpc =>
      exact h.goto (owned_enter hex.2 trivial) (by simp [Pc.seen?]) (by rw [hpc]; exact id)
  | opened hpc =>
      refine h.goto (h.stay ?_) (by simp [Pc.seen?]) (by rw [hpc]; exact id)
      rw [hpc]
      exact Iff.rfl
  | tooLong hpc =>
      exact h.goto (h.release (by rw [hpc]; trivial)) (by simp [Pc.seen?]) (by rw [hpc]; exact id)
  | looked hpc _ =>
      refine h.goto (h.stay ?_) ?_ (by rw [hpc]; exact id)
      · rw [hpc]
        exact Iff.rfl
      · intro k hk
        rw [← Option.some.inj hk]
        exact h.seen_eq (by rw [hpc]; trivial) (by rw [hpc]; exact id)
  | rejected hpc =>
      exact h.goto (h.release (by rw [hpc]; trivial)) (by simp [Pc.seen?]) (by rw [hpc]; exact id)
  | passed hpc _ =>
      refine h.goto (h.stay ?_) ?_ (by rw [hpc]; exact id)
      · rw [hpc]
        exact Iff.rfl
      · intro k hk
        exact h.seen _ k (by rw [hpc]; exact hk)
  | created hpc => exact h.create hpc
  | written hpc => exact h.write hpc

/-- Nothing was accepted since the look, so the write is in time. -/
theorem Undisturbed.timely (h : Undisturbed s) {a : Act P} (hstep : step s a = some s') :
    Timely s a := by
  cases step_moves hstep with
  | @written p c seen hpc =>
      simp only [Timely, hpc]
      rw [h.seen p seen (by rw [hpc]; rfl), List.drop_length]
      simp
  | _ => trivial

/-- **With the section to itself** every process writes in time. -/
theorem timelyRun_of_exclusive : ∀ (as : List (Act P)) {s s' : Sys P}, Undisturbed s →
    ExclusiveRun s as → run s as = some s' → TimelyRun s as := by
  intro as
  induction as with
  | nil => intro s s' _ _ _; trivial
  | cons a as ih =>
      intro s s' h hex hrun
      obtain ⟨s₁, hstep, hrest⟩ := Option.bind_eq_some_iff.mp hrun
      refine ⟨h.timely hstep, fun s₂ hstep₂ => ?_⟩
      obtain rfl := Option.some.inj (hstep.symm.trans hstep₂)
      exact ih (step_undisturbed h hex.1 hstep) (hex.2 s₁ hstep) hrest

/-- **Replay protection**: from any state file and in any interleaving, each counter is accepted
    at most once and the accepted counters increase, if and only if every write is timely; and
    that is so when no two replay sections overlap. -/
theorem accepted_increasing_iff (file : Option StateFile) (as : List (Act P)) (s : Sys P)
    (hrun : run (Sys.start file) as = some s) :
    ((s.accepted.Nodup ∧ s.accepted.Pairwise (· < ·)) ↔ TimelyRun (Sys.start file) as)
      ∧ (ExclusiveRun (Sys.start file) as → TimelyRun (Sys.start file) as) := by
  refine ⟨⟨fun h => timelyRun_of_increasing as hrun h.2, fun ht => ?_⟩,
    fun hex => timelyRun_of_exclusive as (undisturbed_start file) hex hrun⟩
  have h := (run_inv as (inv_start file) ht hrun).increasing
  exact ⟨h.imp (fun hlt => ne_of_lt hlt), h⟩

end Runs

-- ── Two processes ────────────────────────────────────────────────────────────────

/-- A call with a token that passes all checks before the replay section. -/
def callWith (p : Bool) (counter : String) : Act Bool :=
  .call p noNonce (some (tokenOf [ascii "ring:-1", ascii "attested:true", ascii "timestamp:90",
    ascii ("counter:" ++ counter)]))

/-- A look at a file that is there, and at one that is not. -/
def lookAt (p : Bool) : List (Act Bool) := [.lstat p, .openState p, .read p, .compare p]

def lookForNone (p : Bool) : List (Act Bool) := [.lstat p, .compare p]

def update (p : Bool) : List (Act Bool) := [.create p, .write p]

/-- The counters accepted in a run of two processes. -/
def acceptedIn (file : Option StateFile) (as : List (Act Bool)) : Option (List Int) :=
  (run (Sys.start file) as).map Sys.accepted

/-- Both look before either writes, and counter 5 is accepted twice, or 7 before 3.  A look
    between the truncation and the write of another process finds nothing and accepts 5 again.
    With a file that is writable by the group even one call after the other does. -/
theorem racing_calls :
    acceptedIn none ([callWith true "5", callWith false "5"] ++ lookForNone true
        ++ lookForNone false ++ update true ++ update false) = some [5, 5]
      ∧ acceptedIn none ([callWith true "7", callWith false "3"] ++ lookForNone true
        ++ lookForNone false ++ update true ++ update false) = some [7, 3]
      ∧ acceptedIn none ([callWith true "5"] ++ lookForNone true ++ update true
        ++ [callWith false "9"] ++ lookAt false ++ [.create false, callWith true "5"]
        ++ lookAt true ++ update true ++ [.write false]) = some [5, 5, 9]
      ∧ acceptedIn (some ⟨[], false⟩) ([callWith true "5"] ++ lookForNone true ++ update true
        ++ [callWith true "5"] ++ lookForNone true ++ update true) = some [5, 5] := by
  refine ⟨?_, ?_, ?_, ?_⟩ <;> decide +kernel

/-- Two calls that overlap, with the smaller counter written first. -/
def overlapping : List (Act Bool) :=
  [callWith true "3", callWith false "7"] ++ lookForNone true ++ lookForNone false ++ update true
    ++ update false

theorem overlapping_timely :
    acceptedIn none overlapping = some [3, 7] ∧ TimelyRun (Sys.start none) overlapping := by
  have haccepted : acceptedIn none overlapping = some [3, 7] := by decide +kernel
  refine ⟨haccepted, ?_⟩
  obtain ⟨s, hrun, hs⟩ := Option.map_eq_some_iff.mp haccepted
  refine (accepted_increasing_iff none overlapping s hrun).1.mp ?_
  rw [hs]
  decide

end SkvZigReplay

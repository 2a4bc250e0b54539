import Mathlib.Data.Int.Order.Basic
import SentinelKv.LockedRegisterProofs
import SentinelKv.SkvReplayStateProofs

/-!
# Replay protection under concurrency

Any number of processes call `skv_validate_attestation_token` on one replay state path, and
their system calls interleave freely.  A write lock is exclusive and blocking, and `close`
gives it back; calls neither fail nor write short.

The system refines the increasing register of the lock library (**`step_refines`**): a call
that returns 1 raises the register when it closes the file, every other step leaves it as it
is.  **`replay_protection`** is what this says about whole runs.
-/

namespace SkvReplay

open Decimal SkvToken SkvReplayState LockedRegister

-- ── The system ───────────────────────────────────────────────────────────────────

/-- Where a process is in the validator; `c` is the counter of its token. -/
inductive Pc where
  | idle
  /-- The token was accepted; the state path is opened next. -/
  | checked (c : Int)
  /-- At `F_SETLKW`. -/
  | opened (c : Int)
  /-- At `fstat` and its checks. -/
  | locked (c : Int)
  /-- At `pread`. -/
  | statted (c : Int)
  /-- At the `close` of a call that returns 0. -/
  | rejecting
  /-- Some calls of the update sequence are left; with none left, at the last `close`. -/
  | updating (c : Int) (rest : List UpdateCall) (pos : Nat)

/-- The counter a process carries. -/
def Pc.counter : Pc → Option Int
  | .checked c | .opened c | .locked c | .statted c | .updating c _ _ => some c
  | .idle | .rejecting => none

/-- Between `F_SETLKW` and `close`. -/
def Pc.Holds : Pc → Prop
  | .locked _ | .statted _ | .rejecting | .updating _ _ _ => True
  | .idle | .checked _ | .opened _ => False

def Pc.Updating : Pc → Prop
  | .updating _ _ _ => True
  | _ => False

/-- A finished call: the counter it recorded if it returned 1, and whether one of its own
    steps changed the recorded counter. -/
structure Return (P : Type) where
  proc    : P
  result  : Option Int
  changed : Bool

/-- The state file, the lock on it, the processes and the finished calls in the order in
    which they closed the file.  `changed` observes the calls that are still running. -/
structure Sys (P : Type) where
  file    : Option Bytes
  lock    : Option P
  procs   : P → Pc
  changed : P → Bool
  returns : List (Return P)

/-- What a reader of the path finds; an absent file is created empty. -/
def recorded (file : Option Bytes) : Int := readCounter (file.getD [])

/-- One system call of one process.  A token is `none` when one of the checks on its file
    fails; `fstat` says whether the state file passes its checks. -/
inductive Act (P : Type) where
  | call (p : P) (q : Request) (token : Option Bytes)
  | openState (p : P)
  | lock (p : P)
  | fstat (p : P) (ok : Bool)
  | pread (p : P)
  | update (p : P)
  | close (p : P)

def Act.proc {P : Type} : Act P → P
  | .call p _ _ | .openState p | .lock p | .fstat p _ | .pread p | .update p | .close p => p

variable {P : Type} [DecidableEq P]

def Sys.goto (s : Sys P) (p : P) (pc : Pc) : Sys P :=
  { s with procs := Function.update s.procs p pc }

theorem Sys.goto_self (s : Sys P) (p : P) (pc : Pc) : (s.goto p pc).procs p = pc :=
  Function.update_self ..

theorem Sys.goto_other {s : Sys P} {p q : P} {pc : Pc} (h : q ≠ p) :
    (s.goto p pc).procs q = s.procs q := Function.update_of_ne h ..

/-- `return …`. -/
def Sys.ret (s : Sys P) (p : P) (result : Option Int) : Sys P :=
  { s.goto p .idle with
    changed := Function.update s.changed p false
    returns := s.returns ++ [⟨p, result, s.changed p⟩] }

/-- The effect of a system call; `none` when the process is not at it, or has to wait. -/
def move (s : Sys P) : Act P → Option (Sys P)
  | .call p q token =>
      match s.procs p with
      | .idle =>
          match token.bind (checkToken q) with
          -- refused before the state path is touched
          | none => some (s.ret p none)
          | some c => some (s.goto p (.checked c))
      | _ => none
  | .openState p =>
      match s.procs p with
      | .checked c => some { s.goto p (.opened c) with file := some (s.file.getD []) }
      | _ => none
  | .lock p =>
      match s.procs p, s.lock with
      | .opened c, none => some { s.goto p (.locked c) with lock := some p }
      | _, _ => none
  | .fstat p ok =>
      match s.procs p with
      | .locked c => some (s.goto p (if ok then .statted c else .rejecting))
      | _ => none
  | .pread p =>
      match s.procs p with
      | .statted c =>
          if counterFresh (s.file.getD []) c then some (s.goto p (.updating c updateSequence 0))
          else some (s.goto p .rejecting)
      | _ => none
  | .update p =>
      match s.procs p with
      | .updating c (call :: rest) pos =>
          if call.refuses c then some (s.goto p .rejecting)
          else
            let st := call.run c (s.file.getD [], pos)
            some { s.goto p (.updating c rest st.2) with file := some st.1 }
      | _ => none
  | .close p =>
      match s.procs p with
      | .rejecting => some { s.ret p none with lock := none }
      | .updating c [] _ => some { s.ret p (some c) with lock := none }
      | _ => none

/-- Notes that a step of `p` changed the recorded counter. -/
def Sys.observe (s s' : Sys P) (p : P) : Sys P :=
  let seen := s'.changed p || decide (recorded s.file ≠ recorded s'.file)
  { s' with changed := Function.update s'.changed p seen }

def step (s : Sys P) (a : Act P) : Option (Sys P) := (move s a).map (fun s' => s.observe s' a.proc)

/-- An interleaving. -/
def run (s : Sys P) : List (Act P) → Option (Sys P)
  | [] => some s
  | a :: as => (step s a).bind (fun s' => run s' as)

def Sys.start (file : Option Bytes) : Sys P := ⟨file, none, fun _ => .idle, fun _ => false, []⟩

/-- The counters of the calls that returned 1, in the order in which they held the lock. -/
def accepted (s : Sys P) : List Int := s.returns.filterMap (fun r => r.result)

/-- The state file is absent, empty, or a counter the validator wrote. -/
def Initial (file : Option Bytes) (last : Int) : Prop :=
  ((file = none ∨ file = some []) ∧ last = -1) ∨ (file = some (counterText last) ∧ InI64 last)

-- ── The register behind it ───────────────────────────────────────────────────────

/-- In the middle of an update above `v`, the file is what the calls made so far left. -/
def MidUpdate (v : Int) (content : Bytes) (c : Int) (rest : List UpdateCall) (pos : Nat) : Prop :=
  v < c ∧ ∃ made old, updateSequence = made ++ rest ∧ runCalls c made (old, 0) = (content, pos)

/-- A state of the system stands for a register: while nobody updates the file it holds the
    register's value, and the log is that of the accepted counters. -/
structure Refines (s : Sys P) (r : Register Int) : Prop where
  log      : accepted s = r.log
  owned    : Owned Pc.Holds s.lock s.procs
  settled  : (∀ p, ¬ (s.procs p).Updating) → recorded s.file = r.value
  midway   : ∀ p c rest pos, s.procs p = .updating c rest pos →
    MidUpdate r.value (s.file.getD []) c rest pos
  counters : ∀ p c, (s.procs p).counter = some c → InI64 c
  changed  : ∀ p, s.changed p = true → (s.procs p).Updating
  rejected : ∀ t ∈ s.returns, t.result = none → t.changed = false

theorem Pc.Updating.holds {pc : Pc} (h : pc.Updating) : pc.Holds := by
  cases pc with
  | updating c rest pos => trivial
  | _ => exact nomatch h

section Refinement

variable {s : Sys P} {r : Register Int}

omit [DecidableEq P] in
/-- While one process holds the lock, no other one updates. -/
theorem Refines.alone (h : Refines s r) {p q : P} (hp : (s.procs p).Holds) (hq : q ≠ p) :
    ¬ (s.procs q).Updating := by
  intro hu
  exact hq (h.owned.unique hu.holds hp)

omit [DecidableEq P] in
theorem Refines.not_changed (h : Refines s r) {p : P} (hp : ¬ (s.procs p).Updating) :
    s.changed p = false := by
  rw [Bool.eq_false_iff]
  intro hc
  exact hp (h.changed p hc)

theorem Refines.counters_update (h : Refines s r) {p : P} {pc : Pc}
    (hpc : ∀ c, pc.counter = some c → InI64 c) :
    ∀ q c, (Function.update s.procs p pc q).counter = some c → InI64 c :=
  (Function.forall_update_iff s.procs (fun _ x => ∀ c, x.counter = some c → InI64 c)).mpr
    ⟨hpc, fun q _ => h.counters q⟩

/-- A step of `p` to `pc` that leaves the content alone and at most refuses a token. -/
structure Quiet (s s' : Sys P) (p : P) (pc : Pc) : Prop where
  procs   : s'.procs = Function.update s.procs p pc
  file    : s'.file.getD [] = s.file.getD []
  changed : ∀ q, s'.changed q = true → s.changed q = true
  returns : ∃ extra, s'.returns = s.returns ++ extra
    ∧ ∀ t ∈ extra, t.result = none ∧ t.changed = false

theorem Quiet.goto (s : Sys P) (p : P) (pc : Pc) : Quiet s (s.goto p pc) p pc where
  procs := rfl
  file := rfl
  changed := fun _ h => h
  returns := ⟨[], (List.append_nil _).symm, fun _ h => nomatch h⟩

theorem Quiet.accepted_eq {s s' : Sys P} {p : P} {pc : Pc} (hq : Quiet s s' p pc) :
    accepted s' = accepted s := by
  obtain ⟨extra, hr, hx⟩ := hq.returns
  have hnone : extra.filterMap (fun t => t.result) = [] :=
    List.filterMap_eq_nil_iff.mpr (fun t ht => (hx t ht).1)
  show s'.returns.filterMap _ = _
  rw [hr, List.filterMap_append, hnone, List.append_nil]
  rfl

/-- Quiet steps outside an update keep the register. -/
theorem Refines.quiet (h : Refines s r) {s' : Sys P} {p : P} {pc : Pc} (hq : Quiet s s' p pc)
    (howned : Owned Pc.Holds s'.lock (Function.update s.procs p pc))
    (hfrom : ¬ (s.procs p).Updating) (hto : ¬ pc.Updating)
    (hcounter : ∀ c, pc.counter = some c → InI64 c) : Refines s' r where
  log := hq.accepted_eq.trans h.log
  owned := by
    rw [hq.procs]
    exact howned
  settled := by
    intro hall
    rw [hq.procs, Function.forall_update_iff s.procs (fun _ x => ¬ x.Updating)] at hall
    show readCounter (s'.file.getD []) = _
    rw [hq.file]
    refine h.settled (fun q => ?_)
    by_cases hqp : q = p
    · rw [hqp]; exact hfrom
    · exact hall.2 q hqp
  midway := by
    intro q c rest pos hpc
    rw [hq.procs] at hpc
    rw [hq.file]
    by_cases hqp : q = p
    · rw [hqp, Function.update_self] at hpc
      rw [hpc] at hto
      exact absurd trivial hto
    · rw [Function.update_of_ne hqp] at hpc
      exact h.midway q c rest pos hpc
  counters := by
    rw [hq.procs]
    exact h.counters_update hcounter
  changed := by
    intro q hc
    have hu := h.changed q (hq.changed q hc)
    have hqp : q ≠ p := by
      rintro rfl
      exact hfrom hu
    rw [hq.procs, Function.update_of_ne hqp]
    exact hu
  rejected := by
    obtain ⟨extra, hr, hx⟩ := hq.returns
    rw [hr]
    intro t ht hnone
    rcases List.mem_append.mp ht with ht | ht
    · exact h.rejected t ht hnone
    · exact (hx t ht).2

/-- A return without a counter is quiet outside an update. -/
theorem Refines.ret_quiet (h : Refines s r) {p : P} (hfrom : ¬ (s.procs p).Updating)
    (lock : Option P) : Quiet s { s.ret p none with lock := lock } p .idle where
  procs := rfl
  file := rfl
  changed := by
    intro q hc
    by_cases hqp : q = p
    · rw [hqp] at hc
      exact absurd hc (by
        show Function.update s.changed p false p ≠ true
        rw [Function.update_self]
        exact Bool.false_ne_true)
    · have hc' : Function.update s.changed p false q = true := hc
      rw [Function.update_of_ne hqp] at hc'
      exact hc'
  returns := by
    refine ⟨[⟨p, none, s.changed p⟩], rfl, ?_⟩
    intro t ht
    rw [List.mem_singleton.mp ht]
    exact ⟨rfl, h.not_changed hfrom⟩

/-- `pread` found a smaller counter: nobody else is updating, so it is the register's. -/
theorem Refines.begin_update (h : Refines s r) {p : P} {c : Int} (hpc : s.procs p = .statted c)
    (hfresh : counterFresh (s.file.getD []) c = true) :
    Refines (s.goto p (.updating c updateSequence 0)) r where
  log := h.log
  owned := h.owned.stay (by rw [hpc]; exact Iff.rfl)
  settled := by
    intro hall
    have hp := hall p
    rw [Sys.goto_self] at hp
    exact absurd trivial hp
  midway := by
    have hholds : (s.procs p).Holds := by rw [hpc]; trivial
    have hvalue : recorded s.file = r.value := by
      refine h.settled (fun q => ?_)
      by_cases hqp : q = p
      · rw [hqp, hpc]; exact fun hu => hu
      · exact h.alone hholds hqp
    intro q c' rest pos hq
    by_cases hqp : q = p
    · rw [hqp, Sys.goto_self] at hq
      obtain ⟨rfl, rfl, rfl⟩ := Pc.updating.inj hq
      refine ⟨?_, [], s.file.getD [], rfl, rfl⟩
      rw [← hvalue]
      exact counterFresh_iff.mp hfresh
    · rw [Sys.goto_other hqp] at hq
      exact h.midway q c' rest pos hq
  counters := by
    refine h.counters_update (fun c' hc' => ?_)
    exact h.counters p c' (by rw [hpc]; exact hc')
  changed := by
    intro q hc
    have hu := h.changed q hc
    by_cases hqp : q = p
    · rw [hqp, hpc] at hu
      exact nomatch hu
    · rw [Sys.goto_other hqp]
      exact hu
  rejected := h.rejected

/-- One more call of the update sequence. -/
theorem Refines.update_call (h : Refines s r) {p : P} {c : Int} {call : UpdateCall}
    {rest : List UpdateCall} {pos : Nat} (hpc : s.procs p = .updating c (call :: rest) pos)
    {content : Bytes} {pos' : Nat} (hrun : call.run c (s.file.getD [], pos) = (content, pos')) :
    Refines { s.goto p (.updating c rest pos') with file := some content } r where
  log := h.log
  owned := h.owned.stay (by rw [hpc]; exact Iff.rfl)
  settled := by
    intro hall
    have hp : ¬ ((s.goto p (.updating c rest pos')).procs p).Updating := hall p
    rw [Sys.goto_self] at hp
    exact absurd trivial hp
  midway := by
    intro q c' rest' pos'' hq
    have hq' : (s.goto p (.updating c rest pos')).procs q = .updating c' rest' pos'' := hq
    by_cases hqp : q = p
    · rw [hqp, Sys.goto_self] at hq'
      obtain ⟨rfl, rfl, rfl⟩ := Pc.updating.inj hq'
      obtain ⟨hlt, made, old, hseq, hmade⟩ := h.midway p _ _ _ hpc
      refine ⟨hlt, made ++ [call], old, ?_, ?_⟩
      · rw [hseq, List.append_assoc]
        rfl
      · rw [runCalls_concat, hmade, hrun]
        rfl
    · rw [Sys.goto_other hqp] at hq'
      have hholds : (s.procs p).Holds := by rw [hpc]; trivial
      exact absurd (by rw [hq']; trivial) (h.alone hholds hqp)
  counters := by
    refine h.counters_update (fun c' hc' => ?_)
    exact h.counters p c' (by rw [hpc]; exact hc')
  changed := by
    intro q hc
    have hu := h.changed q hc
    show ((s.goto p (.updating c rest pos')).procs q).Updating
    by_cases hqp : q = p
    · rw [hqp, Sys.goto_self]
      trivial
    · rw [Sys.goto_other hqp]
      exact hu
  rejected := h.rejected

/-- The accepting `close`: the file holds the new counter, and the register is raised to it. -/
theorem Refines.accept (h : Refines s r) {p : P} {c : Int} {pos : Nat}
    (hpc : s.procs p = .updating c [] pos) :
    r.value < c ∧ Refines { s.ret p (some c) with lock := none } (r.raise c) := by
  have hholds : (s.procs p).Holds := by rw [hpc]; trivial
  obtain ⟨hlt, made, old, hseq, hmade⟩ := h.midway p _ _ _ hpc
  refine ⟨hlt, ?_⟩
  constructor
  case log =>
    show (s.returns ++ [_]).filterMap _ = r.log ++ [c]
    rw [List.filterMap_append, ← h.log]
    rfl
  case owned => exact h.owned.release hholds (fun hin => hin)
  case settled =>
    intro _
    rw [List.append_nil] at hseq
    have hread := readCounter_update (h.counters p c (by rw [hpc]; rfl)) old
    rw [hseq, hmade] at hread
    exact hread
  case midway =>
    intro q c' rest pos' hq
    have hq' : (s.goto p .idle).procs q = .updating c' rest pos' := hq
    by_cases hqp : q = p
    · rw [hqp, Sys.goto_self] at hq'
      exact nomatch hq'
    · rw [Sys.goto_other hqp] at hq'
      exact absurd (by rw [hq']; trivial) (h.alone hholds hqp)
  case counters => exact h.counters_update (fun _ hc => nomatch hc)
  case changed =>
    intro q hc
    have hc' : Function.update s.changed p false q = true := hc
    show ((s.goto p .idle).procs q).Updating
    by_cases hqp : q = p
    · rw [hqp, Function.update_self] at hc'
      exact nomatch hc'
    · rw [Function.update_of_ne hqp] at hc'
      rw [Sys.goto_other hqp]
      exact h.changed q hc'
  case rejected =>
    intro t ht hnone
    rcases List.mem_append.mp ht with ht | ht
    · exact h.rejected t ht hnone
    · rw [List.mem_singleton.mp ht] at hnone
      exact nomatch hnone

/-- The ghost observation: only an update changes the recorded counter. -/
theorem Refines.observe {s' : Sys P} (h : Refines s' r) {p : P}
    (hchange : recorded s.file ≠ recorded s'.file → (s'.procs p).Updating) :
    Refines (s.observe s' p) r :=
  { h with
    changed := by
      intro q hc
      show (s'.procs q).Updating
      by_cases hqp : q = p
      · rw [hqp] at hc ⊢
        have hc' : Function.update s'.changed p _ p = true := hc
        rw [Function.update_self, Bool.or_eq_true, decide_eq_true_eq] at hc'
        rcases hc' with hc' | hc'
        · exact h.changed p hc'
        · exact hchange hc'
      · have hc' : Function.update s'.changed p _ q = true := hc
        rw [Function.update_of_ne hqp] at hc'
        exact h.changed q hc' }

/-- A step of the system is a step of the register, and the recorded counter changes only
    inside an update. -/
def Simulated (s s' : Sys P) (p : P) (r : Register Int) : Prop :=
  ∃ r', r.Step r' ∧ Refines s' r' ∧ (recorded s.file ≠ recorded s'.file → (s'.procs p).Updating)

theorem Refines.simulated_quiet (h : Refines s r) {s' : Sys P} {p : P} {pc : Pc}
    (hq : Quiet s s' p pc) (howned : Owned Pc.Holds s'.lock (Function.update s.procs p pc))
    (hfrom : ¬ (s.procs p).Updating) (hto : ¬ pc.Updating)
    (hcounter : ∀ c, pc.counter = some c → InI64 c) : Simulated s s' p r := by
  refine ⟨r, Or.inl rfl, h.quiet hq howned hfrom hto hcounter, fun hne => absurd ?_ hne⟩
  show readCounter _ = readCounter _
  rw [hq.file]

theorem move_call (h : Refines s r) {p : P} {q : Request} {token : Option Bytes} {s' : Sys P}
    (hm : move s (.call p q token) = some s') : Simulated s s' p r := by
  cases hpc : s.procs p with
  | idle =>
      have hfrom : ¬ (s.procs p).Updating := by rw [hpc]; exact fun hu => hu
      simp only [move, hpc] at hm
      cases hcheck : token.bind (checkToken q) with
      | none =>
          rw [hcheck] at hm
          obtain rfl := Option.some.inj hm
          exact h.simulated_quiet (h.ret_quiet hfrom s.lock) (h.owned.stay (by rw [hpc])) hfrom
            (fun hu => hu) (fun _ hc => nomatch hc)
      | some c =>
          rw [hcheck] at hm
          obtain rfl := Option.some.inj hm
          obtain ⟨bs, -, hbs⟩ := Option.bind_eq_some_iff.mp hcheck
          refine h.simulated_quiet (Quiet.goto s p _) (h.owned.stay (by rw [hpc]; exact Iff.rfl))
            hfrom (fun hu => hu) (fun c' hc' => ?_)
          rw [← Option.some.inj hc']
          exact checkToken_mem hbs
  | _ => rw [move, hpc] at hm; exact nomatch hm

theorem move_openState (h : Refines s r) {p : P} {s' : Sys P}
    (hm : move s (.openState p) = some s') : Simulated s s' p r := by
  cases hpc : s.procs p with
  | checked c =>
      simp only [move, hpc] at hm
      obtain rfl := Option.some.inj hm
      have hq : Quiet s { s.goto p (.opened c) with file := some (s.file.getD []) } p
          (.opened c) := { Quiet.goto s p (.opened c) with file := rfl }
      exact h.simulated_quiet hq (h.owned.stay (by rw [hpc]; exact Iff.rfl))
        (by rw [hpc]; exact fun hu => hu) (fun hu => hu)
        (fun c' hc' => h.counters p c' (by rw [hpc]; exact hc'))
  | _ => rw [move, hpc] at hm; exact nomatch hm

theorem move_lock (h : Refines s r) {p : P} {s' : Sys P}
    (hm : move s (.lock p) = some s') : Simulated s s' p r := by
  cases hpc : s.procs p with
  | opened c =>
      cases hlock : s.lock with
      | none =>
          simp only [move, hpc, hlock] at hm
          obtain rfl := Option.some.inj hm
          have hq : Quiet s { s.goto p (.locked c) with lock := some p } p (.locked c) :=
            { Quiet.goto s p (.locked c) with }
          have howned := h.owned
          rw [hlock] at howned
          exact h.simulated_quiet hq (howned.acquire trivial)
            (by rw [hpc]; exact fun hu => hu) (fun hu => hu)
            (fun c' hc' => h.counters p c' (by rw [hpc]; exact hc'))
      | some q => rw [move, hpc, hlock] at hm; exact nomatch hm
  | _ => rw [move, hpc] at hm; exact nomatch hm

theorem move_fstat (h : Refines s r) {p : P} {ok : Bool} {s' : Sys P}
    (hm : move s (.fstat p ok) = some s') : Simulated s s' p r := by
  cases hpc : s.procs p with
  | locked c =>
      simp only [move, hpc] at hm
      obtain rfl := Option.some.inj hm
      have hfrom : ¬ (s.procs p).Updating := by rw [hpc]; exact fun hu => hu
      cases ok with
      | true =>
          exact h.simulated_quiet (Quiet.goto s p (.statted c))
            (h.owned.stay (by rw [hpc]; exact Iff.rfl)) hfrom (fun hu => hu)
            (fun c' hc' => h.counters p c' (by rw [hpc]; exact hc'))
      | false =>
          exact h.simulated_quiet (Quiet.goto s p .rejecting)
            (h.owned.stay (by rw [hpc]; exact Iff.rfl)) hfrom (fun hu => hu)
            (fun _ hc => nomatch hc)
  | _ => rw [move, hpc] at hm; exact nomatch hm

theorem move_pread (h : Refines s r) {p : P} {s' : Sys P}
    (hm : move s (.pread p) = some s') : Simulated s s' p r := by
  cases hpc : s.procs p with
  | statted c =>
      simp only [move, hpc] at hm
      by_cases hfresh : counterFresh (s.file.getD []) c = true
      · rw [if_pos hfresh] at hm
        obtain rfl := Option.some.inj hm
        exact ⟨r, Or.inl rfl, h.begin_update hpc hfresh, fun hne => absurd rfl hne⟩
      · rw [if_neg hfresh] at hm
        obtain rfl := Option.some.inj hm
        exact h.simulated_quiet (Quiet.goto s p .rejecting)
          (h.owned.stay (by rw [hpc]; exact Iff.rfl)) (by rw [hpc]; exact fun hu => hu)
          (fun hu => hu) (fun _ hc => nomatch hc)
  | _ => rw [move, hpc] at hm; exact nomatch hm

theorem move_update (h : Refines s r) {p : P} {s' : Sys P}
    (hm : move s (.update p) = some s') : Simulated s s' p r := by
  cases hpc : s.procs p with
  | updating c rest pos =>
      cases rest with
      | nil => rw [move, hpc] at hm; exact nomatch hm
      | cons call rest =>
          have hc : InI64 c := h.counters p c (by rw [hpc]; rfl)
          simp only [move, hpc, not_refuses hc call] at hm
          obtain rfl := Option.some.inj hm
          refine ⟨r, Or.inl rfl, h.update_call hpc rfl, fun _ => ?_⟩
          show ((s.goto p _).procs p).Updating
          rw [Sys.goto_self]
          trivial
  | _ => rw [move, hpc] at hm; exact nomatch hm

theorem move_close (h : Refines s r) {p : P} {s' : Sys P}
    (hm : move s (.close p) = some s') : Simulated s s' p r := by
  cases hpc : s.procs p with
  | rejecting =>
      simp only [move, hpc] at hm
      obtain rfl := Option.some.inj hm
      have hfrom : ¬ (s.procs p).Updating := by rw [hpc]; exact fun hu => hu
      exact h.simulated_quiet (h.ret_quiet hfrom none)
        (h.owned.release (by rw [hpc]; trivial) (fun hin => hin)) hfrom (fun hu => hu)
        (fun _ hc => nomatch hc)
  | updating c rest pos =>
      cases rest with
      | nil =>
          simp only [move, hpc] at hm
          obtain rfl := Option.some.inj hm
          obtain ⟨hlt, href⟩ := h.accept hpc
          exact ⟨r.raise c, Or.inr ⟨c, hlt, rfl⟩, href, fun hne => absurd rfl hne⟩
      | cons call rest => rw [move, hpc] at hm; exact nomatch hm
  | _ => rw [move, hpc] at hm; exact nomatch hm

theorem move_refines (h : Refines s r) {a : Act P} {s' : Sys P} (hm : move s a = some s') :
    Simulated s s' a.proc r := by
  cases a with
  | call p q token => exact move_call h hm
  | openState p => exact move_openState h hm
  | lock p => exact move_lock h hm
  | fstat p ok => exact move_fstat h hm
  | pread p => exact move_pread h hm
  | update p => exact move_update h hm
  | close p => exact move_close h hm

/-- **The system refines the register**, one system call at a time. -/
theorem step_refines (h : Refines s r) {a : Act P} {s' : Sys P} (hstep : step s a = some s') :
    ∃ r', r.Step r' ∧ Refines s' r' := by
  obtain ⟨t, hm, rfl⟩ := Option.map_eq_some_iff.mp hstep
  obtain ⟨r', hr, href, hchange⟩ := move_refines h hm
  exact ⟨r', hr, href.observe hchange⟩

end Refinement

-- ── Whole runs ───────────────────────────────────────────────────────────────────

theorem recorded_initial {file : Option Bytes} {last : Int} (h : Initial file last) :
    recorded file = last := by
  rcases h with ⟨rfl | rfl, rfl⟩ | ⟨rfl, hlast⟩
  · rfl
  · rfl
  · exact readCounter_counterText hlast

omit [DecidableEq P] in
theorem start_refines {file : Option Bytes} {last : Int} (h : Initial file last) :
    Refines (Sys.start file : Sys P) ⟨last, []⟩ where
  log := rfl
  owned := fun _ => ⟨fun hin => (nomatch hin), fun heq => (nomatch heq)⟩
  settled := fun _ => recorded_initial h
  midway := fun _ _ _ _ hpc => nomatch hpc
  counters := fun _ _ hc => nomatch hc
  changed := fun _ hc => nomatch hc
  rejected := fun _ ht => nomatch ht

theorem run_refines {last : Int} : ∀ (as : List (Act P)) {s s' : Sys P} {r : Register Int},
    Refines s r → Raised last r → run s as = some s' → ∃ r', Refines s' r' ∧ Raised last r' := by
  intro as
  induction as with
  | nil =>
      intro s s' r h hr hrun
      obtain rfl := Option.some.inj hrun
      exact ⟨r, h, hr⟩
  | cons a as ih =>
      intro s s' r h hr hrun
      obtain ⟨t, hstep, hrest⟩ := Option.bind_eq_some_iff.mp hrun
      obtain ⟨r', hr', h'⟩ := step_refines h hstep
      exact ih h' (hr.step hr') hrest

omit [DecidableEq P] in
/-- With the lock free, the file is settled. -/
theorem Refines.recorded_of_unlocked {s : Sys P} {r : Register Int} (h : Refines s r)
    (hlock : s.lock = none) : recorded s.file = r.value := by
  refine h.settled (fun p hu => ?_)
  have hp := (h.owned p).mp hu.holds
  rw [hlock] at hp
  exact nomatch hp

/-- **Replay protection.**  In every interleaving of any calls: the accepted counters strictly
    increase in the order of the lock and lie above the initial one, none is accepted twice,
    a call that returns 0 changed nothing, and whenever the lock is free the file reads back
    as the largest accepted counter, or as the initial one. -/
theorem replay_protection (file : Option Bytes) (last : Int) (hinit : Initial file last)
    (as : List (Act P)) (s : Sys P) (hrun : run (Sys.start file) as = some s) :
    (accepted s).Pairwise (· < ·)
      ∧ (∀ c ∈ accepted s, last < c)
      ∧ (accepted s).Nodup
      ∧ (∀ t ∈ s.returns, t.result = none → t.changed = false)
      ∧ (s.lock = none →
          (accepted s = [] ∧ recorded s.file = last)
            ∨ (recorded s.file ∈ accepted s ∧ ∀ c ∈ accepted s, c ≤ recorded s.file)) := by
  obtain ⟨r, h, hr⟩ := run_refines as (start_refines hinit) (raised_init last) hrun
  rw [h.log]
  refine ⟨hr.increasing, hr.above, hr.increasing.imp (fun hlt => ne_of_lt hlt), h.rejected, ?_⟩
  intro hlock
  rw [h.recorded_of_unlocked hlock]
  rcases hr.value with hnil | hmem
  · exact Or.inl hnil
  · exact Or.inr ⟨hmem, hr.top⟩

def tokenWith (counter : String) : Bytes :=
  ascii ("ring:-1\nattested:true\ntimestamp:90\ncounter:" ++ counter ++ "\n")

/-- The calls of one process from `open` to `close`, when its counter is fresh. -/
def recording (p : Bool) : List (Act Bool) :=
  [.lock p, .fstat p true, .pread p] ++ List.replicate 6 (.update p) ++ [.close p]

/-- Two processes open the absent file at once; the one with counter 3 gets the lock first,
    and its token is tried again at the end. -/
def interleaving : List (Act Bool) :=
  let call (p : Bool) (counter : String) : Act Bool :=
    .call p ⟨-1, 60, none, 100⟩ (some (tokenWith counter))
  [call true "7", call false "3", .openState true, .openState false]
    ++ recording false ++ recording true
    ++ [call false "3", .openState false, .lock false, .fstat false true, .pread false, .close false]

theorem interleaving_protected :
    ∃ s : Sys Bool, run (Sys.start none) interleaving = some s
      ∧ accepted s = [3, 7] ∧ recorded s.file = 7 ∧ s.returns.length = 3
      ∧ (accepted s).Nodup ∧ ∀ t ∈ s.returns, t.result = none → t.changed = false := by
  have hrun : (run (Sys.start none) interleaving).map
      (fun s => (accepted s, recorded s.file, s.returns.length)) = some ([3, 7], 7, 3) := by
    decide +kernel
  obtain ⟨s, hs, hobs⟩ := Option.map_eq_some_iff.mp hrun
  obtain ⟨hacc, hrest⟩ := Prod.mk.inj hobs
  obtain ⟨hrec, hlen⟩ := Prod.mk.inj hrest
  obtain ⟨-, -, hnodup, hrej, -⟩ :=
    replay_protection none (-1) (Or.inl ⟨Or.inl rfl, rfl⟩) interleaving s hs
  exact ⟨s, hs, hacc, hrec, hlen, hnodup, hrej⟩

end SkvReplay

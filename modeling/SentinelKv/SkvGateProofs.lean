import Mathlib.Data.Finset.Basic
import SentinelKv.SkvTypeSizeProofs

/-!
# Solver queries and the human gate

`check_access`, the verification-condition IDs and `HitlGate::should_run_solver`.

Z3 terms are syntax (`Z3Int`, `Z3Bool`): the analyzer builds offsets by adding and
subtracting literals, so every formula it asserts is GROUND and has a truth value (`eval`).
The solver itself is an oracle.  It is asked with the position of the query in the gate's
log, so two queries of one run may be answered differently even if they are equal; nothing
but `SolverSound` (an answer `sat` or `unsat` is right) is ever assumed of it, and
`SolverExact` adds that it does answer.
-/

namespace SkvGate

open SkvIr

/-- A Z3 integer term built by the analyzer. -/
inductive Z3Int where
  | fromU64 (v : UInt64)
  | add (a b : Z3Int)
  | sub (a b : Z3Int)
deriving DecidableEq

/-- The value of a ground integer term. -/
def Z3Int.eval : Z3Int → Int
  | .fromU64 v => v.toNat
  | .add a b => a.eval + b.eval
  | .sub a b => a.eval - b.eval

@[simp] theorem Z3Int.eval_fromU64 (v : UInt64) : (Z3Int.fromU64 v).eval = v.toNat := rfl
@[simp] theorem Z3Int.eval_add (a b : Z3Int) : (Z3Int.add a b).eval = a.eval + b.eval := rfl
@[simp] theorem Z3Int.eval_sub (a b : Z3Int) : (Z3Int.sub a b).eval = a.eval - b.eval := rfl

/-- A Z3 formula built by the analyzer. -/
inductive Z3Bool where
  | gt (a b : Z3Int)
  | lt (a b : Z3Int)
  | or (p q : Z3Bool)

/-- The truth value of a ground formula. -/
def Z3Bool.eval : Z3Bool → Bool
  | .gt a b => decide (b.eval < a.eval)
  | .lt a b => decide (a.eval < b.eval)
  | .or p q => p.eval || q.eval

inductive SatResult where
  | sat
  | unsat
  | unknown
deriving DecidableEq, Repr

/-- The solver as an oracle on (position in the run, asserted formula). -/
abbrev Solver := Nat → Z3Bool → SatResult

/-- A `Sat` or `Unsat` answer is right; `Unknown` may come at any time. -/
structure SolverSound (z3 : Solver) : Prop where
  sat_true    : ∀ t φ, z3 t φ = .sat → φ.eval = true
  unsat_false : ∀ t φ, z3 t φ = .unsat → φ.eval = false

/-- A sound solver that always decides. -/
structure SolverExact (z3 : Solver) : Prop extends SolverSound z3 where
  decides : ∀ t φ, z3 t φ ≠ .unknown

/-- The solver that evaluates the ground formula. -/
def evalSolver : Solver := fun _ φ => if φ.eval then .sat else .unsat

theorem evalSolver_exact : SolverExact evalSolver where
  sat_true := by
    intro t φ h
    unfold evalSolver at h
    cases hφ : φ.eval with
    | true => rfl
    | false => rw [hφ] at h; exact nomatch h
  unsat_false := by
    intro t φ h
    unfold evalSolver at h
    cases hφ : φ.eval with
    | true => rw [hφ] at h; exact nomatch h
    | false => rfl
  decides := by
    intro t φ h
    unfold evalSolver at h
    cases hφ : φ.eval with
    | true => rw [hφ] at h; exact nomatch h
    | false => rw [hφ] at h; exact nomatch h

-- ── The gate ─────────────────────────────────────────────────────────────────────

inductive HitlMode where
  | off
  | require
deriving DecidableEq, Repr

/-- `HitlGate`.  The approval sets are fixed; the four logs only grow at the end. -/
structure HitlGate where
  mode            : HitlMode
  approved        : Finset String
  approvedClasses : Finset String
  seen            : List String
  blocked         : List String
  seenClasses     : List String
  blockedClasses  : List String

/-- A gate with empty logs. -/
def HitlGate.fresh (mode : HitlMode) (approved approvedClasses : Finset String) : HitlGate :=
  ⟨mode, approved, approvedClasses, [], [], [], []⟩

/-- `HitlGate::should_run_solver`: log the condition, and say whether the solver may run. -/
def HitlGate.shouldRunSolver (g : HitlGate) (vcId vcClass : String) : Bool × HitlGate :=
  let g := { g with seen := g.seen ++ [vcId], seenClasses := g.seenClasses ++ [vcClass] }
  match g.mode with
  | .off => (true, g)
  | .require =>
      if vcId ∈ g.approved ∨ vcClass ∈ g.approvedClasses then (true, g)
      else
        (false, { g with
          blocked := g.blocked ++ [vcId], blockedClasses := g.blockedClasses ++ [vcClass] })

/-- With the gate off every condition reaches the solver, and the gate stays off. -/
theorem HitlGate.shouldRunSolver_off {g : HitlGate} (h : g.mode = .off)
    (vcId vcClass : String) :
    (g.shouldRunSolver vcId vcClass).1 = true
      ∧ (g.shouldRunSolver vcId vcClass).2.mode = .off := by
  unfold HitlGate.shouldRunSolver
  simp only [h, and_self]

/-- `vc_id`. -/
def vcId (functionName : String) (bbIdx instrIdx : Nat) (kind : String) : String :=
  functionName ++ "::bb" ++ toString bbIdx ++ "::i" ++ toString instrIdx ++ "::" ++ kind

/-- `vc_class_id`. -/
def vcClassId (kind : String) (accessSize : UInt64) : String :=
  "class::" ++ kind ++ "::size" ++ toString accessSize.toNat

-- ── The bounds check ─────────────────────────────────────────────────────────────

inductive AccessCheckResult where
  | oob
  | safe
  | solverUnknown
  | hitlBlocked
deriving DecidableEq, Repr

/-- The formula `check_access` asserts: the access leaves the allocation. -/
def oobCond (allocSize offset : Z3Int) (accessSize : UInt64) : Z3Bool :=
  .or (.gt (.add offset (.fromU64 accessSize)) allocSize) (.lt offset (.fromU64 0))

/-- An access of `n` bytes at `offset` stays inside an allocation of `allocSize` bytes. -/
def InBounds (allocSize offset : Z3Int) (n : UInt64) : Prop :=
  0 ≤ offset.eval ∧ offset.eval + n.toNat ≤ allocSize.eval

theorem oobCond_eval_eq_false {allocSize offset : Z3Int} {n : UInt64} :
    (oobCond allocSize offset n).eval = false ↔ InBounds allocSize offset n := by
  have h0 : ((0 : UInt64).toNat : Int) = 0 := rfl
  simp only [oobCond, Z3Bool.eval, Z3Int.eval_add, Z3Int.eval_fromU64, Bool.or_eq_false_iff,
    InBounds, h0]
  constructor
  · rintro ⟨hend, hstart⟩
    have h1 := of_decide_eq_false hend
    have h2 := of_decide_eq_false hstart
    exact ⟨by omega, by omega⟩
  · rintro ⟨hstart, hend⟩
    exact ⟨decide_eq_false (by omega), decide_eq_false (by omega)⟩

/-- `check_access`. -/
def checkAccess (z3 : Solver) (allocSize offset : Z3Int) (accessSize : UInt64)
    (vcId vcClass : String) (gate : HitlGate) : AccessCheckResult × HitlGate :=
  match gate.shouldRunSolver vcId vcClass with
  | (false, gate) => (.hitlBlocked, gate)
  | (true, gate) =>
      match z3 gate.seen.length (oobCond allocSize offset accessSize) with
      | .sat => (.oob, gate)
      | .unsat => (.safe, gate)
      | .unknown => (.solverUnknown, gate)

/-- **`Safe` is a proof of the bounds**, for a sound solver. -/
theorem checkAccess_safe {z3 : Solver} (hz : SolverSound z3) {allocSize offset : Z3Int}
    {n : UInt64} {vc cls : String} {gate : HitlGate}
    (h : (checkAccess z3 allocSize offset n vc cls gate).1 = .safe) :
    InBounds allocSize offset n := by
  unfold checkAccess at h
  rcases hg : gate.shouldRunSolver vc cls with ⟨run, gate'⟩
  rw [hg] at h
  cases run with
  | false => exact nomatch h
  | true =>
      cases hq : z3 gate'.seen.length (oobCond allocSize offset n) with
      | sat => simp only [hq] at h; exact nomatch h
      | unsat => exact oobCond_eval_eq_false.mp (hz.unsat_false _ _ hq)
      | unknown => simp only [hq] at h; exact nomatch h

/-- With the gate off and a deciding solver, `check_access` decides the bounds. -/
theorem checkAccess_off {z3 : Solver} (hz : SolverExact z3) (allocSize offset : Z3Int)
    (n : UInt64) (vc cls : String) {gate : HitlGate} (hoff : gate.mode = .off) :
    ((checkAccess z3 allocSize offset n vc cls gate).1 = .safe
        ∧ InBounds allocSize offset n)
      ∨ ((checkAccess z3 allocSize offset n vc cls gate).1 = .oob
        ∧ ¬ InBounds allocSize offset n) := by
  have hrun := (gate.shouldRunSolver_off hoff vc cls).1
  unfold checkAccess
  rcases hg : gate.shouldRunSolver vc cls with ⟨run, gate'⟩
  rw [hg] at hrun
  obtain rfl : run = true := hrun
  cases hq : z3 gate'.seen.length (oobCond allocSize offset n) with
  | sat =>
      refine Or.inr ⟨by simp only [hq], ?_⟩
      intro hin
      have htrue := hz.sat_true _ _ hq
      rw [oobCond_eval_eq_false.mpr hin] at htrue
      exact nomatch htrue
  | unsat =>
      exact Or.inl ⟨by simp only [hq], oobCond_eval_eq_false.mp (hz.unsat_false _ _ hq)⟩
  | unknown => exact absurd hq (hz.decides _ _)

/-- `check_access` hands back the gate that logged its condition. -/
theorem checkAccess_gate (z3 : Solver) (allocSize offset : Z3Int) (n : UInt64)
    (vc cls : String) (gate : HitlGate) :
    (checkAccess z3 allocSize offset n vc cls gate).2 = (gate.shouldRunSolver vc cls).2 := by
  unfold checkAccess
  rcases gate.shouldRunSolver vc cls with ⟨run, gate'⟩
  cases run with
  | false => rfl
  | true =>
      cases hq : z3 gate'.seen.length (oobCond allocSize offset n) <;> simp only [hq]

end SkvGate

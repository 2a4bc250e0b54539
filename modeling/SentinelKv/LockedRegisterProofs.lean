import Mathlib.Data.List.Basic
import Mathlib.Logic.Function.Basic
import Mathlib.Order.Lattice
import Mathlib.Tactic.Common

/-!
# Lock ownership and increasing registers

Two general patterns for processes that update one shared value under a lock.

* **`Owned`** — the program counters inside the critical section are exactly the owner's.
  Moving one process inside or outside the section, entering it and leaving it keep this
  (`Owned.stay`, `Owned.acquire`, `Owned.release`); at most one process is inside
  (`Owned.unique`).
* **`Register`** — the abstract object such processes implement: a value that can only be
  RAISED, and the log of the values it was raised to.  Every reachable register satisfies
  **`Raised`**: the log is strictly increasing, lies above the first value, and its maximum
  is the present value.

Systems of such processes run by steps that may be refused; their runs compose
(`run_append_of_step`).
-/

namespace LockedRegister

-- ── Runs ─────────────────────────────────────────────────────────────────────────

/-- A run that stops at the first refused step can be cut anywhere. -/
theorem run_append_of_step {S A : Type} {step : S → A → Option S} {run : S → List A → Option S}
    (hnil : ∀ s, run s [] = some s)
    (hcons : ∀ s a as, run s (a :: as) = (step s a).bind (fun s' => run s' as))
    (as bs : List A) (s : S) : run s (as ++ bs) = (run s as).bind (fun s' => run s' bs) := by
  induction as generalizing s with
  | nil => rw [List.nil_append, hnil, Option.bind_some]
  | cons a as ih =>
      rw [List.cons_append, hcons, hcons, Option.bind_assoc]
      exact congrArg _ (funext (fun t => ih t))

-- ── Ownership ────────────────────────────────────────────────────────────────────

section Ownership

variable {P Pc : Type} {Holds : Pc → Prop} {procs : P → Pc} {lock : Option P}

/-- A process is inside the critical section iff the lock is its own. -/
def Owned (Holds : Pc → Prop) (lock : Option P) (procs : P → Pc) : Prop :=
  ∀ p, Holds (procs p) ↔ lock = some p

theorem Owned.unique (h : Owned Holds lock procs) {p q : P} (hp : Holds (procs p))
    (hq : Holds (procs q)) : p = q := by
  have hpq := ((h p).mp hp).symm.trans ((h q).mp hq)
  exact Option.some.inj hpq

variable [DecidableEq P]

/-- A move that neither enters nor leaves the section. -/
theorem Owned.stay (h : Owned Holds lock procs) {p : P} {pc : Pc}
    (hpc : Holds pc ↔ Holds (procs p)) : Owned Holds lock (Function.update procs p pc) := by
  intro q
  by_cases hq : q = p
  · rw [hq, Function.update_self, hpc]
    exact h p
  · rw [Function.update_of_ne hq]
    exact h q

/-- Taking a free lock. -/
theorem Owned.acquire (h : Owned Holds none procs) {p : P} {pc : Pc} (hpc : Holds pc) :
    Owned Holds (some p) (Function.update procs p pc) := by
  intro q
  by_cases hq : q = p
  · rw [hq, Function.update_self]
    exact ⟨fun _ => rfl, fun _ => hpc⟩
  · rw [Function.update_of_ne hq]
    constructor
    · intro hin
      exact nomatch (h q).mp hin
    · intro heq
      exact absurd (Option.some.inj heq).symm hq

/-- Leaving the section gives the lock back. -/
theorem Owned.release (h : Owned Holds lock procs) {p : P} (hp : Holds (procs p)) {pc : Pc}
    (hpc : ¬ Holds pc) : Owned Holds none (Function.update procs p pc) := by
  intro q
  by_cases hq : q = p
  · rw [hq, Function.update_self]
    exact ⟨fun hin => absurd hin hpc, fun heq => nomatch heq⟩
  · rw [Function.update_of_ne hq]
    constructor
    · intro hin
      exact absurd (h.unique hin hp) hq
    · intro heq
      exact nomatch heq

end Ownership

-- ── The abstract register ────────────────────────────────────────────────────────

section Registers

variable {α : Type} [LinearOrder α]

/-- A value and the log of what it was raised to. -/
structure Register (α : Type) where
  value : α
  log   : List α

def Register.raise (r : Register α) (c : α) : Register α := ⟨c, r.log ++ [c]⟩

/-- A register stays as it is, or is raised strictly above its present value. -/
def Register.Step (r r' : Register α) : Prop := r' = r ∨ ∃ c, r.value < c ∧ r' = r.raise c

/-- What every register that started at `v₀` satisfies. -/
structure Raised (v₀ : α) (r : Register α) : Prop where
  increasing : r.log.Pairwise (· < ·)
  above      : ∀ c ∈ r.log, v₀ < c
  top        : ∀ c ∈ r.log, c ≤ r.value
  value      : (r.log = [] ∧ r.value = v₀) ∨ r.value ∈ r.log

theorem raised_init (v₀ : α) : Raised v₀ ⟨v₀, []⟩ where
  increasing := List.Pairwise.nil
  above := fun _ h => nomatch h
  top := fun _ h => nomatch h
  value := Or.inl ⟨rfl, rfl⟩

/-- The value never falls below the first one. -/
theorem Raised.le_value {v₀ : α} {r : Register α} (h : Raised v₀ r) : v₀ ≤ r.value := by
  rcases h.value with ⟨-, hv⟩ | hmem
  · exact hv.ge
  · exact (h.above _ hmem).le

theorem Raised.raise {v₀ : α} {r : Register α} (h : Raised v₀ r) {c : α} (hc : r.value < c) :
    Raised v₀ (r.raise c) where
  increasing := by
    refine List.pairwise_append.mpr ⟨h.increasing, List.pairwise_singleton _ c, ?_⟩
    intro a ha b hb
    rw [List.mem_singleton.mp hb]
    exact lt_of_le_of_lt (h.top a ha) hc
  above := by
    intro a ha
    rcases List.mem_append.mp ha with ha | ha
    · exact h.above a ha
    · rw [List.mem_singleton.mp ha]
      exact lt_of_le_of_lt h.le_value hc
  top := by
    intro a ha
    rcases List.mem_append.mp ha with ha | ha
    · exact (lt_of_le_of_lt (h.top a ha) hc).le
    · exact (List.mem_singleton.mp ha).le
  value := Or.inr (List.mem_append_right _ List.mem_cons_self)

theorem Raised.step {v₀ : α} {r r' : Register α} (h : Raised v₀ r) (hstep : r.Step r') :
    Raised v₀ r' := by
  rcases hstep with rfl | ⟨c, hc, rfl⟩
  · exact h
  · exact h.raise hc

end Registers

end LockedRegister

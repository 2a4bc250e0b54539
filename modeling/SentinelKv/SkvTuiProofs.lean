import SentinelKv.SkvRingPolicyProofs

/-!
# The console

`run_tui` shows a menu, reads a line, does what the line selects, and waits for Enter, until a line
selects the exit.  At the end of the input `read_line` returns the empty line, which selects
nothing.

* `session_eof` — from the end of the input on, every turn complains about the selection;
* **`console_ends_iff`** — the session ends iff a line cannot be read or a line read at the menu
  selects the exit, and the first such line decides how.  Every second line is read by the pause and
  selects nothing.  Otherwise the session goes on for ever, and past the end of the input it only
  complains.
-/

namespace SkvTui

open SkvAnalyze (trim toAsciiLowercase)
open SkvSignature SkvRingPolicy

-- ── The source ───────────────────────────────────────────────────────────────────

/-- What a turn does before it waits. -/
inductive Action where
  | doctor | featuresText | featuresJson
  | template (ring : RingMode)
  | invalid
deriving DecidableEq

/-- The `match` on the line; `none` returns. -/
def select (input : Text) : Option Action :=
  let s := toAsciiLowercase (trim input)
  if s = ['1'] ∨ s = ['d'] then some .doctor
  else if s = ['2'] ∨ s = ['f'] then some .featuresText
  else if s = ['3'] then some .featuresJson
  else if s = ['4'] then some (.template .ringM1)
  else if s = ['5'] ∨ s = ['j'] then some (.template .ringM2)
  else if s = ['0'] ∨ s = ['q'] then none
  else some .invalid

/-- The lines of the input; `none` is one that `read_line` fails on. -/
abbrev Stdin := List (Option Text)

/-- `read_line`, and what is left. -/
def readLine : Stdin → Option Text × Stdin
  | [] => (some [], [])
  | line :: rest => (line, rest)

inductive Turn where
  | ended (shown : List Action) (code : Except String Int)
  | again (shown : Action) (rest : Stdin)

/-- One turn of the loop of `run_tui`, with `pause_tui`. -/
def turn (stdin : Stdin) : Turn :=
  match readLine stdin with
  | (none, _) => .ended [] (.error "Failed to read TUI input")
  | (some input, rest) =>
      match select input with
      | none => .ended [] (.ok 0)
      | some action =>
          match readLine rest with
          | (none, _) => .ended [action] (.error "Failed to read pause input")
          | (some _, rest) => .again action rest

/-- The first turns of `run_tui`: what was shown, and how it ended if it did. -/
def session : Nat → Stdin → List Action × Option (Except String Int)
  | 0, _ => ([], none)
  | n + 1, stdin =>
      match turn stdin with
      | .ended shown code => (shown, some code)
      | .again shown rest => (shown :: (session n rest).1, (session n rest).2)

-- ── What ends a session ──────────────────────────────────────────────────────────

/-- How line `i` ends a session that reads it: the menu reads the even lines, the pause the odd
    ones. -/
def ending (stdin : Stdin) (i : Nat) : Option (Except String Int) :=
  match stdin[i]? with
  | none => none
  | some none =>
      some (.error (if i % 2 = 0 then "Failed to read TUI input" else "Failed to read pause input"))
  | some (some input) => if i % 2 = 0 ∧ select input = none then some (.ok 0) else none

/-- The first line that ends the session ends it with `code`. -/
def EndsWith (stdin : Stdin) (code : Except String Int) : Prop :=
  ∃ i, ending stdin i = some code ∧ ∀ j < i, ending stdin j = none

/-- A session past the end of its input. -/
theorem session_eof (n : Nat) : session n [] = (List.replicate n .invalid, none) := by
  induction n with
  | zero => rfl
  | succ n ih =>
      have hturn : turn [] = .again .invalid [] := rfl
      simp only [session, hturn, ih, List.replicate_succ]

theorem ending_line {stdin : Stdin} {i : Nat} {input : Text} (h : stdin[i]? = some (some input)) :
    ending stdin i = if i % 2 = 0 ∧ select input = none then some (.ok 0) else none := by
  unfold ending
  rw [h]

/-- **One turn**, in terms of the lines it reads: it ends at the first or at the second of them, or
    goes on after both. -/
theorem turn_spec (stdin : Stdin) :
    (∃ shown code, turn stdin = .ended shown code
      ∧ (ending stdin 0 = some code ∨ ending stdin 0 = none ∧ ending stdin 1 = some code))
    ∨ (∃ shown, turn stdin = .again shown (stdin.drop 2)
      ∧ ending stdin 0 = none ∧ ending stdin 1 = none) := by
  cases stdin with
  | nil => exact Or.inr ⟨.invalid, rfl, rfl, rfl⟩
  | cons x rest =>
      cases x with
      | none => exact Or.inl ⟨[], _, rfl, Or.inl rfl⟩
      | some input =>
          cases hselect : select input with
          | none =>
              refine Or.inl ⟨[], .ok 0, ?_, Or.inl ?_⟩
              · simp only [turn, readLine, hselect]
              · exact if_pos ⟨rfl, hselect⟩
          | some action =>
              have hmenu : ending (some input :: rest) 0 = none := by
                rw [ending_line rfl, if_neg]
                rintro ⟨-, h⟩
                rw [h] at hselect
                cases hselect
              cases rest with
              | nil =>
                  refine Or.inr ⟨action, ?_, hmenu, rfl⟩
                  simp only [turn, readLine, hselect]
                  rfl
              | cons y rest =>
                  cases y with
                  | none =>
                      refine Or.inl ⟨[action], _, ?_, Or.inr ⟨hmenu, rfl⟩⟩
                      simp only [turn, readLine, hselect]
                      rfl
                  | some pause =>
                      refine Or.inr ⟨action, ?_, hmenu, ?_⟩
                      · simp only [turn, readLine, hselect]
                        rfl
                      · rw [ending_line rfl]
                        exact if_neg fun h => absurd h.1 (by decide)

theorem ending_drop (stdin : Stdin) (i : Nat) : ending stdin (i + 2) = ending (stdin.drop 2) i := by
  unfold ending
  rw [List.getElem?_drop, Nat.add_comm 2 i, Nat.add_mod_right]

/-- The lines after a turn that goes on decide. -/
theorem endsWith_drop {stdin : Stdin} {code : Except String Int} (h₀ : ending stdin 0 = none)
    (h₁ : ending stdin 1 = none) : EndsWith stdin code ↔ EndsWith (stdin.drop 2) code := by
  constructor
  · rintro ⟨i, hi, hbefore⟩
    obtain ⟨k, rfl⟩ : ∃ k, i = k + 2 := by
      refine ⟨i - 2, ?_⟩
      have hne₀ : i ≠ 0 := by
        rintro rfl
        rw [h₀] at hi
        cases hi
      have hne₁ : i ≠ 1 := by
        rintro rfl
        rw [h₁] at hi
        cases hi
      omega
    refine ⟨k, (ending_drop stdin k).symm.trans hi, fun j hj => ?_⟩
    rw [← ending_drop]
    exact hbefore (j + 2) (by omega)
  · rintro ⟨k, hk, hbefore⟩
    refine ⟨k + 2, (ending_drop stdin k).trans hk, fun j hj => ?_⟩
    match j with
    | 0 => exact h₀
    | 1 => exact h₁
    | j + 2 => exact (ending_drop stdin j).trans (hbefore j (by omega))

theorem endsWith_of_turn {stdin : Stdin} {code : Except String Int}
    (h : ending stdin 0 = some code ∨ ending stdin 0 = none ∧ ending stdin 1 = some code) :
    EndsWith stdin code := by
  rcases h with hend | ⟨hnone, hend⟩
  · exact ⟨0, hend, fun j hj => absurd hj (Nat.not_lt_zero j)⟩
  · refine ⟨1, hend, fun j hj => ?_⟩
    obtain rfl : j = 0 := by omega
    exact hnone

theorem EndsWith.unique {stdin : Stdin} {code code' : Except String Int}
    (h : EndsWith stdin code) (h' : EndsWith stdin code') : code = code' := by
  obtain ⟨i, hi, hbefore⟩ := h
  obtain ⟨j, hj, hbefore'⟩ := h'
  rcases Nat.lt_trichotomy i j with hlt | rfl | hlt
  · rw [hbefore' i hlt] at hi
    cases hi
  · exact Option.some.inj (hi.symm.trans hj)
  · rw [hbefore j hlt] at hj
    cases hj

theorem endsWith_of_session {code : Except String Int} (n : Nat) : ∀ {stdin : Stdin},
    (session n stdin).2 = some code → EndsWith stdin code := by
  induction n with
  | zero =>
      intro stdin h
      cases h
  | succ n ih =>
      intro stdin h
      rcases turn_spec stdin with ⟨shown, code', hturn, hend⟩ | ⟨shown, hturn, h₀, h₁⟩
      · simp only [session, hturn, Option.some.injEq] at h
        exact h ▸ endsWith_of_turn hend
      · simp only [session, hturn] at h
        exact (endsWith_drop h₀ h₁).mpr (ih h)

/-- By induction on how many lines are left. -/
theorem session_of_endsWith {code : Except String Int} (m : Nat) : ∀ {stdin : Stdin},
    stdin.length ≤ m → EndsWith stdin code → ∃ n, (session n stdin).2 = some code := by
  induction m with
  | zero =>
      intro stdin hlen hend
      rw [List.length_eq_zero_iff.mp (Nat.le_zero.mp hlen)] at hend
      obtain ⟨i, hi, -⟩ := hend
      cases hi
  | succ m ih =>
      intro stdin hlen hend
      rcases turn_spec stdin with ⟨shown, code', hturn, hend'⟩ | ⟨shown, hturn, h₀, h₁⟩
      · refine ⟨1, ?_⟩
        simp only [session, hturn, (endsWith_of_turn hend').unique hend]
      · have hshort : (stdin.drop 2).length ≤ m := by
          rw [List.length_drop]
          omega
        obtain ⟨n, hn⟩ := ih hshort ((endsWith_drop h₀ h₁).mp hend)
        refine ⟨n + 1, ?_⟩
        simp only [session, hturn]
        exact hn

/-- A session that nothing ends, past the end of its input. -/
theorem session_past_eof (n m : Nat) : ∀ {stdin : Stdin}, (∀ i, ending stdin i = none) →
    stdin.length ≤ 2 * m →
    session (m + n) stdin = ((session m stdin).1 ++ List.replicate n .invalid, none) := by
  induction m with
  | zero =>
      intro stdin _ hlen
      rw [List.length_eq_zero_iff.mp (Nat.le_zero.mp hlen), Nat.zero_add, session_eof]
      rfl
  | succ m ih =>
      intro stdin hnone hlen
      rcases turn_spec stdin with ⟨shown, code, -, hend⟩ | ⟨shown, hturn, -, -⟩
      · rw [hnone, hnone] at hend
        rcases hend with hend | ⟨-, hend⟩
        · cases hend
        · cases hend
      · have hrest := @ih (stdin.drop 2) (fun i => (ending_drop stdin i).symm.trans (hnone _))
          (by rw [List.length_drop]; omega)
        rw [Nat.succ_add]
        simp only [session, hturn, hrest, List.cons_append]

/-- **When the console ends.**  A session ends with a code iff the first line that ends it does so
    with that code; if no line does, it goes on for ever and, past the end of the input, only
    complains. -/
theorem console_ends_iff (stdin : Stdin) :
    (∀ code, (∃ n, (session n stdin).2 = some code) ↔ EndsWith stdin code)
    ∧ ((∀ i, ending stdin i = none) → ∀ m n, stdin.length ≤ 2 * m →
        session (m + n) stdin
          = ((session m stdin).1 ++ List.replicate n .invalid, none)) := by
  refine ⟨fun code => ⟨?_, session_of_endsWith stdin.length (Nat.le_refl _)⟩, ?_⟩
  · rintro ⟨n, hn⟩
    exact endsWith_of_session n hn
  · intro hnone m n hlen
    exact session_past_eof n m hnone hlen

/-- The pause takes the first `q`; the second is read at the menu. -/
example : (session 2 [some ['f', '\n'], some ['q', '\n'], some [' ', 'Q', '\n']])
    = ([.featuresText], some (.ok 0)) := by
  rfl

end SkvTui

import Mathlib.Tactic.Common

/-!
# Processes whose effects outlive their errors

A program that changes a state and may stop with an error, as `ExceptT ε (StateM σ)`: what was
done before the error stays done.

* **`bind_ok_iff`** — a sequence returns iff each part does, from the state the part before left;
* **`Keeps`** — a relation between the state before and the state after that holds however the
  process ends.  A preorder that every part keeps is kept by the whole (`keeps_bind`);
* **`Alike`** — two processes that end in the same way from related states, part by part
  (`Alike.bind`).
-/

namespace ProcessSpec

variable {σ ε α β : Type}

/-- The process from a state: how it ends, and the state then. -/
def exec (x : ExceptT ε (StateM σ) α) (s : σ) : Except ε α × σ := x.run.run s

@[simp] theorem exec_pure (a : α) (s : σ) :
    exec (pure a : ExceptT ε (StateM σ) α) s = (.ok a, s) := rfl

theorem exec_bind (x : ExceptT ε (StateM σ) α) (f : α → ExceptT ε (StateM σ) β) (s : σ) :
    exec (x >>= f) s =
      match exec x s with
      | (.ok a, s') => exec (f a) s'
      | (.error e, s') => (.error e, s') := by
  show (match exec x s with
    | (r, s') => (match r with
      | .ok a => (f a).run
      | .error e => pure (.error e) : StateM σ (Except ε β)).run s') = _
  cases exec x s with
  | mk r s' => cases r <;> rfl

theorem exec_bind_ok {x : ExceptT ε (StateM σ) α} {f : α → ExceptT ε (StateM σ) β} {s s' : σ}
    {a : α} (h : exec x s = (.ok a, s')) : exec (x >>= f) s = exec (f a) s' := by
  rw [exec_bind, h]

theorem exec_bind_error {x : ExceptT ε (StateM σ) α} {f : α → ExceptT ε (StateM σ) β} {s s' : σ}
    {e : ε} (h : exec x s = (.error e, s')) : exec (x >>= f) s = (.error e, s') := by
  rw [exec_bind, h]

theorem bind_ok_iff {x : ExceptT ε (StateM σ) α} {f : α → ExceptT ε (StateM σ) β} {s s'' : σ}
    {b : β} : exec (x >>= f) s = (.ok b, s'') ↔
      ∃ a s', exec x s = (.ok a, s') ∧ exec (f a) s' = (.ok b, s'') := by
  constructor
  · intro h
    rcases hx : exec x s with ⟨e | a, s'⟩
    · rw [exec_bind_error hx] at h
      cases h
    · rw [exec_bind_ok hx] at h
      exact ⟨a, s', rfl, h⟩
  · rintro ⟨a, s', hx, hf⟩
    rw [exec_bind_ok hx]
    exact hf

-- ── What holds however it ends ───────────────────────────────────────────────────

/-- The state after is related to the state before, whether or not the process returned. -/
def Keeps (R : σ → σ → Prop) (x : ExceptT ε (StateM σ) α) : Prop := ∀ s, R s (exec x s).2

variable {R : σ → σ → Prop}

theorem keeps_pure (hrefl : ∀ s, R s s) (a : α) :
    Keeps R (pure a : ExceptT ε (StateM σ) α) := fun s => hrefl s

theorem keeps_bind (htrans : ∀ s s' s'', R s s' → R s' s'' → R s s'')
    {x : ExceptT ε (StateM σ) α} {f : α → ExceptT ε (StateM σ) β} (hx : Keeps R x)
    (hf : ∀ a, Keeps R (f a)) : Keeps R (x >>= f) := by
  intro s
  have hs := hx s
  rcases hxs : exec x s with ⟨e | a, s'⟩
  · rw [exec_bind_error hxs]
    rw [hxs] at hs
    exact hs
  · rw [exec_bind_ok hxs]
    rw [hxs] at hs
    exact htrans s s' _ hs (hf a s')

-- ── Two processes ────────────────────────────────────────────────────────────────

/-- Both stop with the same error, or both return, with related results. -/
inductive SameEnd (V : α → α → Prop) : Except ε α → Except ε α → Prop where
  | error (e : ε) : SameEnd V (.error e) (.error e)
  | ok {a b : α} (h : V a b) : SameEnd V (.ok a) (.ok b)

/-- From states related by `S`, the processes end in the same way, in states related by `S'`. -/
def Alike (S S' : σ → σ → Prop) (V : α → α → Prop) (x y : ExceptT ε (StateM σ) α) : Prop :=
  ∀ s t, S s t → SameEnd V (exec x s).1 (exec y t).1 ∧ S' (exec x s).2 (exec y t).2

variable {S S' S'' : σ → σ → Prop} {V : α → α → Prop} {W : β → β → Prop}

theorem alike_refl (x : ExceptT ε (StateM σ) α) : Alike Eq Eq Eq x x := by
  rintro s _ rfl
  refine ⟨?_, rfl⟩
  cases (exec x s).1 with
  | error e => exact .error e
  | ok a => exact .ok rfl

theorem alike_pure {a b : α} (h : V a b) :
    Alike S S V (pure a : ExceptT ε (StateM σ) α) (pure b) := fun _ _ hs => ⟨.ok h, hs⟩

/-- An error in the first part ends both processes there, so that `S'` must be enough. -/
theorem Alike.bind {x y : ExceptT ε (StateM σ) α} {f g : α → ExceptT ε (StateM σ) β}
    (hx : Alike S S' V x y) (hweak : ∀ s t, S' s t → S'' s t)
    (hf : ∀ a b, V a b → Alike S' S'' W (f a) (g b)) : Alike S S'' W (x >>= f) (y >>= g) := by
  intro s t hs
  obtain ⟨hend, hs'⟩ := hx s t hs
  rcases hxs : exec x s with ⟨rx, s'⟩
  rcases hyt : exec y t with ⟨ry, t'⟩
  rw [hxs, hyt] at hend hs'
  cases hend with
  | error e =>
      rw [exec_bind_error hxs, exec_bind_error hyt]
      exact ⟨.error e, hweak s' t' hs'⟩
  | ok h =>
      rw [exec_bind_ok hxs, exec_bind_ok hyt]
      exact hf _ _ h s' t' hs'

end ProcessSpec

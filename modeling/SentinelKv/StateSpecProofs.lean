import Mathlib.Data.List.Forall2
import Mathlib.Tactic.Common

/-!
# Specifications of stateful code that can stop

A computation that updates a state and may stop with an error, as `StateT σ (Except ε)`.
**`Meets P x Q E`** says what `x` does from every state with `P`: when it returns, `Q` relates
the state before, the value and the state after; when it stops, `E` holds of the error.  What
`E` says of running out of fuel decides between partial and total correctness.

The rules compose such statements along `bind` and over **`List.mapM`**, where the state only
grows in some preorder and what is known of a value stays known.
-/

namespace StateSpec

variable {σ ε α β : Type}

/-- What `x` does from each state with `P`. -/
def Meets (P : σ → Prop) (x : StateT σ (Except ε) α) (Q : σ → α → σ → Prop) (E : ε → Prop) :
    Prop :=
  ∀ s, P s →
    match x s with
    | .ok (a, s') => Q s a s'
    | .error e => E e

theorem Meets.ok {P : σ → Prop} {x : StateT σ (Except ε) α} {Q : σ → α → σ → Prop}
    {E : ε → Prop} (h : Meets P x Q E) {s s' : σ} {a : α} (hs : P s) (hx : x s = .ok (a, s')) :
    Q s a s' := by
  have hr := h s hs
  rw [hx] at hr
  exact hr

theorem Meets.error {P : σ → Prop} {x : StateT σ (Except ε) α} {Q : σ → α → σ → Prop}
    {E : ε → Prop} (h : Meets P x Q E) {s : σ} {e : ε} (hs : P s) (hx : x s = .error e) :
    E e := by
  have hr := h s hs
  rw [hx] at hr
  exact hr

theorem meets_pure {P : σ → Prop} {a : α} {Q : σ → α → σ → Prop} {E : ε → Prop}
    (h : ∀ s, P s → Q s a s) : Meets P (pure a) Q E :=
  fun s hs => h s hs

theorem meets_throw {P : σ → Prop} {e : ε} {Q : σ → α → σ → Prop} {E : ε → Prop}
    (h : ∀ s, P s → E e) : Meets P (throw e) Q E :=
  fun s hs => h s hs

theorem meets_modify {P : σ → Prop} {g : σ → σ} {Q : σ → PUnit → σ → Prop} {E : ε → Prop}
    (h : ∀ s, P s → Q s ⟨⟩ (g s)) : Meets P (modify g) Q E :=
  fun s hs => h s hs

/-- Reading the state: the rest is specified at the state read. -/
theorem meets_get_bind {P : σ → Prop} {f : σ → StateT σ (Except ε) α}
    {Q : σ → α → σ → Prop} {E : ε → Prop} (h : ∀ s, P s → Meets (· = s) (f s) Q E) :
    Meets P (get >>= f) Q E :=
  fun s hs => h s hs s rfl

theorem meets_bind {P : σ → Prop} {x : StateT σ (Except ε) α} {f : α → StateT σ (Except ε) β}
    {R : σ → α → σ → Prop} {Q : σ → β → σ → Prop} {E : ε → Prop} (hx : Meets P x R E)
    (hf : ∀ s, P s → ∀ a, Meets (R s a) (f a) (fun _ b s' => Q s b s') E) :
    Meets P (x >>= f) Q E := by
  intro s hs
  have hr := hx s hs
  rw [show (x >>= f) s = (x s >>= fun p => f p.1 p.2) from rfl]
  cases hxs : x s with
  | error e =>
      rw [hxs] at hr
      exact hr
  | ok p =>
      rw [hxs] at hr
      exact hf s hs p.1 p.2 hr

theorem Meets.imp {P P' : σ → Prop} {x : StateT σ (Except ε) α} {Q Q' : σ → α → σ → Prop}
    {E E' : ε → Prop} (h : Meets P x Q E) (hP : ∀ s, P' s → P s)
    (hQ : ∀ s a s', P' s → Q s a s' → Q' s a s') (hE : ∀ e, E e → E' e) : Meets P' x Q' E' := by
  intro s hs
  have hr := h s (hP s hs)
  cases hxs : x s with
  | error e =>
      rw [hxs] at hr
      exact hE e hr
  | ok p =>
      rw [hxs] at hr
      exact hQ s p.1 p.2 hs hr

-- ── Lists ────────────────────────────────────────────────────────────────────────

/-- One call per element, in order: the state keeps `I` and grows, and at the end each value
    is as its own call left it, since `Φ` survives growth. -/
theorem meets_mapM {I : σ → Prop} {le : σ → σ → Prop} {Φ : α → β → σ → Prop} {E : ε → Prop}
    {f : α → StateT σ (Except ε) β} (hrefl : ∀ s, le s s)
    (htrans : ∀ s s' s'', le s s' → le s' s'' → le s s'')
    (hstable : ∀ a b s s', le s s' → Φ a b s → Φ a b s') (l : List α)
    (hf : ∀ a ∈ l, Meets I (f a) (fun s b s' => I s' ∧ le s s' ∧ Φ a b s') E) :
    Meets I (l.mapM f)
      (fun s bs s' => I s' ∧ le s s' ∧ List.Forall₂ (fun a b => Φ a b s') l bs) E := by
  induction l with
  | nil =>
      rw [List.mapM_nil]
      exact meets_pure fun s hs => ⟨hs, hrefl s, List.Forall₂.nil⟩
  | cons a l ih =>
      rw [List.mapM_cons]
      refine meets_bind (hf a List.mem_cons_self) ?_
      intro s hs b
      have hrest := ih fun a' ha' => hf a' (List.mem_cons_of_mem a ha')
      refine meets_bind (R := fun s' bs s'' => (le s s' ∧ Φ a b s') ∧
          I s'' ∧ le s' s'' ∧ List.Forall₂ (fun a b => Φ a b s'') l bs)
        (hrest.imp (fun s' h => h.1) (fun s' bs s'' h h' => ⟨h.2, h'⟩) (fun e he => he)) ?_
      rintro s' - bs
      refine meets_pure ?_
      rintro s'' ⟨⟨hle, hb⟩, hI, hle', hbs⟩
      exact ⟨hI, htrans s s' s'' hle hle', List.Forall₂.cons (hstable a b s' s'' hle' hb) hbs⟩

end StateSpec

import Mathlib.Data.List.Basic
import Mathlib.Data.List.Flatten
import Mathlib.Tactic.Common

/-!
# Loops with `break`, nested

A `for` loop over a list whose body either goes on (`Flow.next`) or leaves the loop
(`Flow.brk`).  Programs of this shape nest such loops and re-test a flag after the inner
loop to decide whether to leave the outer one as well.  This file gives

* **`forLoop`** and its trace **`visits`** — the elements really processed, each with the
  state its iteration started from;
* the invariant rules `forLoop_inv` and `visits_inv`, `visits_grow` for what only goes up,
  `forLoop_account` for what goes up by one now and then, and `visits_history` for what ties the
  state to the iterations before it;
* **`forLoop_nested`** — when a `break` is always accompanied by a flag and the flag never
  shows up otherwise, a nest of two loops that re-tests the flag is ONE loop over the
  concatenated elements;
* **`forLoop_eq_foldl`** — a loop that ends with the flag down was a plain fold, and it
  processed every element;
* **`forLoop_planOf`** — a loop whose iterations run inner loops over items that depend only
  on a part of the state with an evolution of its own is ONE loop over a list computed
  beforehand, the plan;
* two loops side by side: **`forLoop_map_visits`** for two bodies that agree, up to a map of
  the states, on what is really processed, **`forLoop_ahead`** for two runs of which one may
  stop earlier.
-/

namespace BreakLoop

variable {α β σ : Type}

/-- What one iteration does: go on with the next element, or leave the loop. -/
inductive Flow (σ : Type) where
  | next (s : σ)
  | brk (s : σ)

/-- The state an iteration leaves behind, whichever way it ends. -/
def Flow.state : Flow σ → σ
  | .next s => s
  | .brk s => s

@[simp] theorem Flow.state_next (s : σ) : (Flow.next s).state = s := rfl
@[simp] theorem Flow.state_brk (s : σ) : (Flow.brk s).state = s := rfl

/-- `for x in l { body }`, where `body` may `break`. -/
def forLoop (body : α → σ → Flow σ) : List α → σ → σ
  | [], s => s
  | x :: xs, s =>
      match body x s with
      | .next s' => forLoop body xs s'
      | .brk s' => s'

/-- The iterations a loop really runs: each element with the state before it. -/
def visits (body : α → σ → Flow σ) : List α → σ → List (α × σ)
  | [], _ => []
  | x :: xs, s =>
      (x, s) ::
        match body x s with
        | .next s' => visits body xs s'
        | .brk _ => []

@[simp] theorem forLoop_nil (body : α → σ → Flow σ) (s : σ) :
    forLoop body [] s = s := rfl

theorem forLoop_cons_next {body : α → σ → Flow σ} {x : α} {s s' : σ}
    (h : body x s = .next s') (xs : List α) :
    forLoop body (x :: xs) s = forLoop body xs s' := by
  rw [forLoop, h]

theorem forLoop_cons_brk {body : α → σ → Flow σ} {x : α} {s s' : σ}
    (h : body x s = .brk s') (xs : List α) :
    forLoop body (x :: xs) s = s' := by
  rw [forLoop, h]

theorem visits_cons_next {body : α → σ → Flow σ} {x : α} {s s' : σ}
    (h : body x s = .next s') (xs : List α) :
    visits body (x :: xs) s = (x, s) :: visits body xs s' := by
  rw [visits, h]

theorem visits_cons_brk {body : α → σ → Flow σ} {x : α} {s s' : σ}
    (h : body x s = .brk s') (xs : List α) :
    visits body (x :: xs) s = [(x, s)] := by
  rw [visits, h]

/-- **Invariant rule.**  What every iteration keeps, the loop keeps. -/
theorem forLoop_inv {body : α → σ → Flow σ} (I : σ → Prop)
    (hstep : ∀ x s, I s → I (body x s).state) :
    ∀ (l : List α) (s : σ), I s → I (forLoop body l s) := by
  intro l
  induction l with
  | nil => intro s hs; exact hs
  | cons x xs ih =>
      intro s hs
      have hx := hstep x s hs
      cases hb : body x s with
      | next s' =>
          rw [hb] at hx
          rw [forLoop_cons_next hb]
          exact ih s' hx
      | brk s' =>
          rw [hb] at hx
          rw [forLoop_cons_brk hb]
          exact hx

-- ── Flagged breaks ───────────────────────────────────────────────────────────────

/-- A body whose `break` and the flag `Stop` go together: started with the flag down, it
    breaks exactly when it raises the flag. -/
structure Flagged (Stop : σ → Prop) (body : α → σ → Flow σ) : Prop where
  next_down : ∀ x s s', ¬ Stop s → body x s = .next s' → ¬ Stop s'
  brk_up    : ∀ x s s', ¬ Stop s → body x s = .brk s' → Stop s'

/-- The body of an outer loop: run the inner loop, then leave as well if the flag is up. -/
def outer (Stop : σ → Prop) [DecidablePred Stop] (inner : β → σ → σ) (y : β) (s : σ) :
    Flow σ :=
  if Stop (inner y s) then .brk (inner y s) else .next (inner y s)

/-- The outer body is flagged whatever the inner loop does. -/
theorem outer_flagged (Stop : σ → Prop) [DecidablePred Stop] (inner : β → σ → σ) :
    Flagged Stop (outer Stop inner) where
  next_down := by
    intro y s s' _ h
    unfold outer at h
    by_cases hs : Stop (inner y s)
    · rw [if_pos hs] at h; exact nomatch h
    · rw [if_neg hs] at h
      obtain rfl := Flow.next.inj h
      exact hs
  brk_up := by
    intro y s s' _ h
    unfold outer at h
    by_cases hs : Stop (inner y s)
    · rw [if_pos hs] at h
      obtain rfl := Flow.brk.inj h
      exact hs
    · rw [if_neg hs] at h; exact nomatch h

/-- A flagged loop over an append: stop after the first part if the flag is up. -/
theorem forLoop_append {Stop : σ → Prop} [DecidablePred Stop] {body : α → σ → Flow σ}
    (hF : Flagged Stop body) (l₂ : List α) :
    ∀ (l₁ : List α) (s : σ), ¬ Stop s →
      forLoop body (l₁ ++ l₂) s
        = if Stop (forLoop body l₁ s) then forLoop body l₁ s
          else forLoop body l₂ (forLoop body l₁ s) := by
  intro l₁
  induction l₁ with
  | nil => intro s hs; rw [forLoop_nil, if_neg hs]; rfl
  | cons x xs ih =>
      intro s hs
      rw [List.cons_append]
      cases hb : body x s with
      | next s' =>
          rw [forLoop_cons_next hb, forLoop_cons_next hb]
          exact ih s' (hF.next_down x s s' hs hb)
      | brk s' =>
          rw [forLoop_cons_brk hb, forLoop_cons_brk hb, if_pos (hF.brk_up x s s' hs hb)]

/-- **A nest of flagged loops is one loop** over the concatenation of the inner lists. -/
theorem forLoop_nested {Stop : σ → Prop} [DecidablePred Stop] {body : α → σ → Flow σ}
    (hF : Flagged Stop body) (items : β → List α) :
    ∀ (ys : List β) (s : σ), ¬ Stop s →
      forLoop (outer Stop (fun y => forLoop body (items y))) ys s
        = forLoop body (ys.flatMap items) s := by
  intro ys
  induction ys with
  | nil => intro s _; rfl
  | cons y ys ih =>
      intro s hs
      rw [List.flatMap_cons, forLoop_append hF _ _ _ hs]
      by_cases hstop : Stop (forLoop body (items y) s)
      · rw [if_pos hstop]
        exact forLoop_cons_brk (by unfold outer; rw [if_pos hstop]) ys
      · rw [if_neg hstop, ← ih _ hstop]
        exact forLoop_cons_next (by unfold outer; rw [if_neg hstop]) ys

/-- Inner loops that agree while the flag is down make equal outer loops. -/
theorem forLoop_outer_congr {Stop : σ → Prop} [DecidablePred Stop] {inner inner' : β → σ → σ}
    (h : ∀ y s, ¬ Stop s → inner y s = inner' y s) :
    ∀ (ys : List β) (s : σ), ¬ Stop s →
      forLoop (outer Stop inner) ys s = forLoop (outer Stop inner') ys s := by
  intro ys
  induction ys with
  | nil => intro s _; rfl
  | cons y ys ih =>
      intro s hs
      have hy : outer Stop inner y s = outer Stop inner' y s := by
        unfold outer
        rw [h y s hs]
      cases hb : outer Stop inner' y s with
      | next s' =>
          rw [forLoop_cons_next (hy.trans hb), forLoop_cons_next hb]
          exact ih s' ((outer_flagged Stop inner').next_down y s s' hs hb)
      | brk s' =>
          rw [forLoop_cons_brk (hy.trans hb), forLoop_cons_brk hb]

/-- **A loop that ends with the flag down** never broke: it is the fold of its body, and
    it visited every element. -/
theorem forLoop_eq_foldl {Stop : σ → Prop} {body : α → σ → Flow σ}
    (hF : Flagged Stop body) :
    ∀ (l : List α) (s : σ), ¬ Stop s → ¬ Stop (forLoop body l s) →
      forLoop body l s = l.foldl (fun s x => (body x s).state) s
        ∧ (visits body l s).map Prod.fst = l := by
  intro l
  induction l with
  | nil => intro s _ _; exact ⟨rfl, rfl⟩
  | cons x xs ih =>
      intro s hs hend
      cases hb : body x s with
      | next s' =>
          rw [forLoop_cons_next hb] at hend
          obtain ⟨hfold, hvis⟩ := ih s' (hF.next_down x s s' hs hb) hend
          refine ⟨?_, ?_⟩
          · rw [forLoop_cons_next hb, hfold, List.foldl_cons, hb]
            rfl
          · rw [visits_cons_next hb, List.map_cons, hvis]
      | brk s' =>
          rw [forLoop_cons_brk hb] at hend
          exact absurd (hF.brk_up x s s' hs hb) hend

/-- The invariant rule for iterations started with the flag down. -/
theorem forLoop_inv_flagged {Stop : σ → Prop} {body : α → σ → Flow σ} (hF : Flagged Stop body)
    (I : σ → Prop) (hstep : ∀ x s, ¬ Stop s → I s → I (body x s).state) :
    ∀ (l : List α) (s : σ), ¬ Stop s → I s → I (forLoop body l s) := by
  intro l
  induction l with
  | nil => intro s _ hI; exact hI
  | cons x xs ih =>
      intro s hs hI
      have hx := hstep x s hs hI
      cases hb : body x s with
      | next s' =>
          rw [hb] at hx
          rw [forLoop_cons_next hb]
          exact ih s' (hF.next_down x s s' hs hb) hx
      | brk s' =>
          rw [hb] at hx
          rw [forLoop_cons_brk hb]
          exact hx

/-- **Trace rule.**  An invariant that iterations started with the flag down keep holds
    before each of them. -/
theorem visits_inv {Stop : σ → Prop} {body : α → σ → Flow σ} (hF : Flagged Stop body)
    (I : σ → Prop) (hstep : ∀ x s, ¬ Stop s → I s → I (body x s).state) :
    ∀ (l : List α) (s : σ), ¬ Stop s → I s →
      ∀ v ∈ visits body l s, v.1 ∈ l ∧ ¬ Stop v.2 ∧ I v.2 := by
  intro l
  induction l with
  | nil => intro s _ _ v hv; exact nomatch hv
  | cons x xs ih =>
      intro s hs hI v hv
      cases hb : body x s with
      | next s' =>
          have hI' : I s' := by
            have hx := hstep x s hs hI
            rw [hb] at hx
            exact hx
          rw [visits_cons_next hb] at hv
          rcases List.mem_cons.mp hv with rfl | hv
          · exact ⟨List.mem_cons_self, hs, hI⟩
          · obtain ⟨hmem, hrest⟩ := ih s' (hF.next_down x s s' hs hb) hI' v hv
            exact ⟨List.mem_cons_of_mem x hmem, hrest⟩
      | brk s' =>
          rw [visits_cons_brk hb] at hv
          obtain rfl := List.mem_singleton.mp hv
          exact ⟨List.mem_cons_self, hs, hI⟩

/-- **Accounting rule.**  A quantity that an iteration raises by one if `p` says so, and leaves
    alone otherwise, goes up by the number of such iterations. -/
theorem forLoop_account {Stop : σ → Prop} {body : α → σ → Flow σ} (hF : Flagged Stop body)
    (F : σ → Int) (p : α × σ → Bool)
    (hstep : ∀ x s, ¬ Stop s → F (body x s).state = F s + if p (x, s) then 1 else 0) :
    ∀ (l : List α) (s : σ), ¬ Stop s →
      F (forLoop body l s) = F s + (visits body l s).countP p := by
  intro l
  induction l with
  | nil => intro s _; exact (Int.add_zero _).symm
  | cons x xs ih =>
      intro s hs
      have hx := hstep x s hs
      cases hb : body x s with
      | next s' =>
          rw [hb] at hx
          have hx' : F s' = F s + if p (x, s) then 1 else 0 := hx
          rw [forLoop_cons_next hb, visits_cons_next hb, ih s' (hF.next_down x s s' hs hb), hx',
            List.countP_cons]
          split <;> push_cast <;> omega
      | brk s' =>
          rw [hb] at hx
          have hx' : F s' = F s + if p (x, s) then 1 else 0 := hx
          rw [forLoop_cons_brk hb, visits_cons_brk hb, hx', List.countP_cons, List.countP_nil]
          split <;> rfl

/-- **Backward rule.**  A property that a state can only have if the state before had it,
    and that excludes the flag, holds before and after every iteration once it holds at the
    end; and every iteration went on. -/
theorem visits_backward {Stop Q : σ → Prop} {body : α → σ → Flow σ} (hF : Flagged Stop body)
    (hQ : ∀ s, Q s → ¬ Stop s)
    (hback : ∀ x s, ¬ Stop s → Q (body x s).state → Q s) :
    ∀ (l : List α) (s : σ), ¬ Stop s → Q (forLoop body l s) →
      Q s ∧ ∀ v ∈ visits body l s, Q v.2 ∧ ∃ s', body v.1 v.2 = .next s' ∧ Q s' := by
  intro l
  induction l with
  | nil => intro s _ hend; exact ⟨hend, fun v hv => nomatch hv⟩
  | cons x xs ih =>
      intro s hs hend
      cases hb : body x s with
      | next s' =>
          rw [forLoop_cons_next hb] at hend
          obtain ⟨hs', hrest⟩ := ih s' (hF.next_down x s s' hs hb) hend
          have hqs : Q s := hback x s hs (by rw [hb]; exact hs')
          refine ⟨hqs, ?_⟩
          intro v hv
          rw [visits_cons_next hb] at hv
          rcases List.mem_cons.mp hv with rfl | hv
          · exact ⟨hqs, s', hb, hs'⟩
          · exact hrest v hv
      | brk s' =>
          rw [forLoop_cons_brk hb] at hend
          exact absurd (hF.brk_up x s s' hs hb) (hQ s' hend)

-- ── Plans ────────────────────────────────────────────────────────────────────────

/-- The items of all iterations, when those of one iteration depend on a state `ι` that the
    loop moves on by `next`. -/
def planOf {ι : Type} (items : α → ι → List β) (next : α → ι → ι) : List α → ι → List β
  | [], _ => []
  | x :: xs, t => items x t ++ planOf items next xs (next x t)

theorem planOf_append {ι : Type} (items : α → ι → List β) (next : α → ι → ι) :
    ∀ (l₁ l₂ : List α) (t : ι), planOf items next (l₁ ++ l₂) t
      = planOf items next l₁ t ++ planOf items next l₂ (l₁.foldl (fun t x => next x t) t) := by
  intro l₁
  induction l₁ with
  | nil => intro l₂ t; rfl
  | cons x xs ih =>
      intro l₂ t
      rw [List.cons_append, show planOf items next (x :: (xs ++ l₂)) t
        = items x t ++ planOf items next (xs ++ l₂) (next x t) from rfl, ih, ← List.append_assoc]
      rfl

/-- **A planned loop.**  `proj` is what the inner loops work on, `static` what the plan is
    made from. -/
theorem forLoop_planOf {τ ι : Type} {Stop : τ → Prop} [DecidablePred Stop]
    {body : α → σ → Flow σ} {exec : β → τ → Flow τ} (hexec : Flagged Stop exec)
    (proj : σ → τ) (static : σ → ι) (items : α → ι → List β) (next : α → ι → ι)
    (hbody : Flagged (fun s => Stop (proj s)) body)
    (hproj : ∀ x s, ¬ Stop (proj s) →
      proj (body x s).state = forLoop exec (items x (static s)) (proj s))
    (hstatic : ∀ x s, ¬ Stop (proj s) → static (body x s).state = next x (static s)) :
    ∀ (xs : List α) (s : σ), ¬ Stop (proj s) →
      proj (forLoop body xs s) = forLoop exec (planOf items next xs (static s)) (proj s) := by
  intro xs
  induction xs with
  | nil => intro s _; rfl
  | cons x xs ih =>
      intro s hs
      have hx := hproj x s hs
      have ht := hstatic x s hs
      rw [show planOf items next (x :: xs) (static s)
        = items x (static s) ++ planOf items next xs (next x (static s)) from rfl,
        forLoop_append hexec _ _ _ hs, ← hx, ← ht]
      cases hb : body x s with
      | next s' =>
          have hs' := hbody.next_down x s s' hs hb
          rw [forLoop_cons_next hb, Flow.state_next, if_neg hs']
          exact ih s' hs'
      | brk s' =>
          rw [forLoop_cons_brk hb, Flow.state_brk, if_pos (hbody.brk_up x s s' hs hb)]

/-- What is processed is a first part of the list. -/
theorem visits_fst_isPre (body : α → σ → Flow σ) :
    ∀ (l : List α) (s : σ), (visits body l s).map Prod.fst <+: l := by
  intro l
  induction l with
  | nil => intro s; exact List.nil_prefix
  | cons x xs ih =>
      intro s
      cases hb : body x s with
      | next s' =>
          rw [visits_cons_next hb]
          exact List.prefix_cons_inj x |>.mpr (ih s')
      | brk s' =>
          rw [visits_cons_brk hb]
          exact List.prefix_cons_inj x |>.mpr List.nil_prefix

/-- **Growth rule.**  Along a loop whose iterations only go up, what one iteration leaves
    lies below every later state. -/
theorem visits_grow {Stop : σ → Prop} {body : α → σ → Flow σ} (hF : Flagged Stop body)
    {R : σ → σ → Prop} (hrefl : ∀ s, R s s) (htrans : ∀ a b c, R a b → R b c → R a c)
    (hstep : ∀ x s, ¬ Stop s → R s (body x s).state) :
    ∀ (l : List α) (s : σ), ¬ Stop s →
      (visits body l s).Pairwise (fun v w => R (body v.1 v.2).state w.2)
        ∧ ∀ v ∈ visits body l s, R s v.2 := by
  intro l
  induction l with
  | nil => intro s _; exact ⟨List.Pairwise.nil, fun v hv => nomatch hv⟩
  | cons x xs ih =>
      intro s hs
      have hx := hstep x s hs
      cases hb : body x s with
      | next s' =>
          rw [hb] at hx
          obtain ⟨hpair, habove⟩ := ih s' (hF.next_down x s s' hs hb)
          rw [visits_cons_next hb]
          refine ⟨List.pairwise_cons.mpr ⟨?_, hpair⟩, ?_⟩
          · intro w hw
            rw [hb]
            exact habove w hw
          · intro v hv
            rcases List.mem_cons.mp hv with rfl | hv
            · exact hrefl s
            · exact htrans _ _ _ hx (habove v hv)
      | brk s' =>
          rw [visits_cons_brk hb]
          refine ⟨List.pairwise_singleton _ _, ?_⟩
          intro v hv
          obtain rfl := List.mem_singleton.mp hv
          exact hrefl s

/-- **History rule.**  A relation between the iterations so far and the state, kept by every
    iteration that goes on, holds before each iteration, and at the end if the flag is down. -/
theorem visits_history {Stop : σ → Prop} {body : α → σ → Flow σ} (hF : Flagged Stop body)
    {H : List (α × σ) → σ → Prop}
    (hstep : ∀ past x s s', ¬ Stop s → H past s → body x s = .next s' → H (past ++ [(x, s)]) s') :
    ∀ (l : List α) (past : List (α × σ)) (s : σ), ¬ Stop s → H past s →
      (∀ pre v post, visits body l s = pre ++ v :: post → H (past ++ pre) v.2)
        ∧ (¬ Stop (forLoop body l s) → H (past ++ visits body l s) (forLoop body l s)) := by
  intro l
  induction l with
  | nil =>
      intro past s _ hH
      refine ⟨?_, fun _ => by rw [visits, List.append_nil]; exact hH⟩
      intro pre v post h
      exact absurd h.symm (List.append_ne_nil_of_right_ne_nil _ (List.cons_ne_nil _ _))
  | cons x xs ih =>
      intro past s hs hH
      cases hb : body x s with
      | next s' =>
          obtain ⟨hbefore, hend⟩ := ih (past ++ [(x, s)]) s' (hF.next_down x s s' hs hb)
            (hstep past x s s' hs hH hb)
          rw [visits_cons_next hb, forLoop_cons_next hb]
          refine ⟨?_, fun h => by rw [List.append_cons]; exact hend h⟩
          intro pre v post h
          cases pre with
          | nil =>
              rw [← (List.cons.inj h).1, List.append_nil]
              exact hH
          | cons w pre =>
              obtain ⟨hw, hrest⟩ := List.cons.inj h
              rw [← hw, List.append_cons]
              exact hbefore pre v post hrest
      | brk s' =>
          rw [visits_cons_brk hb, forLoop_cons_brk hb]
          refine ⟨?_, fun h => absurd (hF.brk_up x s s' hs hb) h⟩
          intro pre v post h
          cases pre with
          | nil =>
              rw [← (List.cons.inj h).1, List.append_nil]
              exact hH
          | cons w pre =>
              exact absurd (List.cons.inj h).2.symm
                (List.append_ne_nil_of_right_ne_nil _ (List.cons_ne_nil _ _))

-- ── Two loops side by side ───────────────────────────────────────────────────────

def Flow.map {τ : Type} (f : σ → τ) : Flow σ → Flow τ
  | .next s => .next (f s)
  | .brk s => .brk (f s)

/-- Two bodies that agree, up to `f`, on what the first loop processes. -/
theorem forLoop_map_visits {τ : Type} {body : α → σ → Flow σ} {body' : α → τ → Flow τ}
    (f : σ → τ) :
    ∀ (l : List α) (s : σ),
      (∀ v ∈ visits body l s, body' v.1 (f v.2) = (body v.1 v.2).map f) →
      forLoop body' l (f s) = f (forLoop body l s)
        ∧ visits body' l (f s) = (visits body l s).map (Prod.map id f) := by
  intro l
  induction l with
  | nil => intro s _; exact ⟨rfl, rfl⟩
  | cons x xs ih =>
      intro s h
      cases hb : body x s with
      | next s' =>
          rw [visits_cons_next hb] at h
          have hx : body' x (f s) = .next (f s') := by
            rw [h (x, s) List.mem_cons_self, hb]
            rfl
          obtain ⟨hloop, hvis⟩ := ih s' (fun v hv => h v (List.mem_cons_of_mem _ hv))
          rw [forLoop_cons_next hx, forLoop_cons_next hb, visits_cons_next hx,
            visits_cons_next hb, hloop, hvis]
          exact ⟨rfl, rfl⟩
      | brk s' =>
          rw [visits_cons_brk hb] at h
          have hx : body' x (f s) = .brk (f s') := by
            rw [h (x, s) List.mem_cons_self, hb]
            rfl
          rw [forLoop_cons_brk hx, forLoop_cons_brk hb, visits_cons_brk hx, visits_cons_brk hb]
          exact ⟨rfl, rfl⟩

/-- Two iterations end the same way, in related states. -/
def Flow.Rel {τ : Type} (R : σ → τ → Prop) : Flow σ → Flow τ → Prop
  | .next s, .next t => R s t
  | .brk s, .brk t => R s t
  | _, _ => False

/-- **Lock step.**  Iterations that end the same way in related states make loops that do. -/
theorem forLoop_lockstep {τ : Type} {R : σ → τ → Prop} {body : α → σ → Flow σ}
    {body' : β → τ → Flow τ} (g : α → β)
    (hstep : ∀ x s t, R s t → (body x s).Rel R (body' (g x) t)) :
    ∀ (l : List α) (s : σ) (t : τ), R s t →
      R (forLoop body l s) (forLoop body' (l.map g) t) := by
  intro l
  induction l with
  | nil => intro s t h; exact h
  | cons x xs ih =>
      intro s t h
      have hx := hstep x s t h
      rw [List.map_cons]
      cases hb : body x s with
      | next s' =>
          cases hb' : body' (g x) t with
          | next t' =>
              rw [hb, hb'] at hx
              rw [forLoop_cons_next hb, forLoop_cons_next hb']
              exact ih s' t' hx
          | brk t' =>
              rw [hb, hb'] at hx
              exact hx.elim
      | brk s' =>
          cases hb' : body' (g x) t with
          | next t' =>
              rw [hb, hb'] at hx
              exact hx.elim
          | brk t' =>
              rw [hb, hb'] at hx
              rw [forLoop_cons_brk hb, forLoop_cons_brk hb']
              exact hx

/-- **Two runs that part only when one of them stops.**  While both go on they are related by
    `R`; the first never stops before the second, and what it does on its own only takes it
    further ahead. -/
theorem forLoop_ahead {τ : Type} {R Ahead : σ → τ → Prop} {body : α → σ → Flow σ}
    {body' : α → τ → Flow τ}
    (hstep : ∀ x s t, R s t → R (body x s).state (body' x t).state)
    (hstop : ∀ x s t s', R s t → body x s = .brk s' → ∃ t', body' x t = .brk t')
    (hR : ∀ s t, R s t → Ahead s t)
    (halone : ∀ x s t, Ahead s t → Ahead (body x s).state t) :
    ∀ (l : List α) (s : σ) (t : τ), R s t → Ahead (forLoop body l s) (forLoop body' l t) := by
  intro l
  induction l with
  | nil => intro s t h; exact hR s t h
  | cons x xs ih =>
      intro s t h
      have hx := hstep x s t h
      cases hb' : body' x t with
      | next t' =>
          cases hb : body x s with
          | next s' =>
              rw [hb, hb'] at hx
              rw [forLoop_cons_next hb, forLoop_cons_next hb']
              exact ih s' t' hx
          | brk s' =>
              obtain ⟨t'', ht''⟩ := hstop x s t s' h hb
              rw [hb'] at ht''
              exact nomatch ht''
      | brk t' =>
          rw [hb'] at hx
          rw [forLoop_cons_brk hb']
          cases hb : body x s with
          | next s' =>
              rw [hb] at hx
              rw [forLoop_cons_next hb]
              exact forLoop_inv (fun s => Ahead s t') (fun y s hs => halone y s t' hs) xs s'
                (hR s' t' hx)
          | brk s' =>
              rw [hb] at hx
              rw [forLoop_cons_brk hb]
              exact hR s' t' hx

end BreakLoop

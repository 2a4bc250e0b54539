import Mathlib.Algebra.Ring.Nat
import Mathlib.Data.Fintype.Card
import Mathlib.Logic.Relation
import Mathlib.Tactic.Common

/-!
# Tables of definitions

A finite table of named definitions, each of which uses other names.  A recursion that unfolds
names on its way down returns when no definition leads back to itself, because it enters each
entry at most once.

* **`Acyclic`** — no name leads to itself; a rank that falls from a name to the names it uses is
  enough (`acyclic_of_rank`), and over finitely many points there always is one (`exists_rank`);
* **`Below`** — the invariant of such a recursion: each definition entered so far leads to all
  names ahead.  Entering one more keeps it (`Below.enter`), and it was not entered before
  (`Below.not_mem`);
* **`remaining`** — the budget of the definitions not entered so far, which pays for the next one
  (`remaining_enter`).
-/

namespace DefTable

variable {K D : Type} [DecidableEq K]

-- ── Names that lead to names ─────────────────────────────────────────────────────

section Relations

variable (table : List (K × D)) (uses : D → List K)

/-- The definition of `a` uses the name `b`. -/
def Uses (a b : K) : Prop := ∃ d, table.lookup a = some d ∧ b ∈ uses d

def Acyclic : Prop := ∀ a, ¬ Relation.TransGen (Uses table uses) a a

/-- One of the names is `k`, or leads to it through definitions. -/
def Leads (names : List K) (k : K) : Prop :=
  ∃ a ∈ names, Relation.ReflTransGen (Uses table uses) a k

/-- Every definition that was entered leads to each of the names. -/
def Below (entered names : List K) : Prop :=
  ∀ a ∈ entered, ∀ k ∈ names, Relation.TransGen (Uses table uses) a k

end Relations

variable {table : List (K × D)} {uses : D → List K}

theorem mem_of_lookup {k : K} {d : D} (h : table.lookup k = some d) : (k, d) ∈ table := by
  obtain ⟨before, after, rfl, -⟩ := List.lookup_eq_some_iff.mp h
  exact List.mem_append_right before (List.mem_cons_self ..)

theorem exists_lookup {k : K} (h : k ∈ table.map Prod.fst) : ∃ d, table.lookup k = some d := by
  cases hlookup : table.lookup k with
  | some d => exact ⟨d, rfl⟩
  | none =>
      obtain ⟨x, hx, rfl⟩ := List.mem_map.mp h
      have hne := List.lookup_eq_none_iff.mp hlookup x hx
      simp at hne

theorem rank_lt_of_transGen {rank : K → Nat}
    (h : ∀ x ∈ table, ∀ b ∈ uses x.2, rank b < rank x.1) {a b : K}
    (hab : Relation.TransGen (Uses table uses) a b) : rank b < rank a := by
  have hstep : ∀ {a b}, Uses table uses a b → rank b < rank a := by
    rintro a b ⟨d, hd, hb⟩
    exact h (a, d) (mem_of_lookup hd) b hb
  induction hab with
  | single hab => exact hstep hab
  | tail _ hbc ih => exact Nat.lt_trans (hstep hbc) ih

/-- **A rank** that falls along every use rules out cycles. -/
theorem acyclic_of_rank (rank : K → Nat)
    (h : ∀ x ∈ table, ∀ b ∈ uses x.2, rank b < rank x.1) : Acyclic table uses :=
  fun a ha => Nat.lt_irrefl (rank a) (rank_lt_of_transGen h ha)

theorem not_transGen_of_rank {α : Type} {r : α → α → Prop} (rank : α → Nat)
    (h : ∀ a b, r a b → rank b < rank a) (a : α) : ¬ Relation.TransGen r a a := by
  have hlt : ∀ b, Relation.TransGen r a b → rank b < rank a := by
    intro b hab
    induction hab with
    | single hab => exact h _ _ hab
    | tail _ hbc ih => exact Nat.lt_trans (h _ _ hbc) ih
  exact fun ha => Nat.lt_irrefl (rank a) (hlt a ha)

open Classical in
/-- Over finitely many points, a relation without cycles has a rank: count what a point leads
    to. -/
theorem exists_rank {α : Type} [Fintype α] {r : α → α → Prop}
    (h : ∀ a, ¬ Relation.TransGen r a a) :
    ∃ rank : α → Nat, (∀ a, rank a ≤ Fintype.card α) ∧ ∀ a b, r a b → rank b < rank a := by
  refine ⟨fun a => (Finset.univ.filter fun c => Relation.TransGen r a c).card,
    fun a => Finset.card_le_univ _, ?_⟩
  intro a b hab
  refine Finset.card_lt_card ⟨?_, ?_⟩
  · intro c hc
    rw [Finset.mem_filter] at hc ⊢
    exact ⟨hc.1, Relation.TransGen.head hab hc.2⟩
  · intro hsub
    have hb := hsub (Finset.mem_filter.mpr ⟨Finset.mem_univ b, Relation.TransGen.single hab⟩)
    exact h b (Finset.mem_filter.mp hb).2

theorem Leads.mono {names names' : List K} {k : K} (h : Leads table uses names k)
    (hsub : ∀ a ∈ names, a ∈ names') : Leads table uses names' k := by
  obtain ⟨a, ha, hak⟩ := h
  exact ⟨a, hsub a ha, hak⟩

/-- A single name is the one it leads to, or its definition leads there. -/
theorem leads_singleton {a k : K} (h : Leads table uses [a] k) :
    a = k ∨ ∃ d, table.lookup a = some d ∧ Leads table uses (uses d) k := by
  obtain ⟨a', ha', hak⟩ := h
  obtain rfl := List.mem_singleton.mp ha'
  rcases Relation.ReflTransGen.cases_head hak with heq | ⟨b, ⟨d, hd, hb⟩, hbk⟩
  · exact Or.inl heq
  · exact Or.inr ⟨d, hd, b, hb, hbk⟩

-- ── The invariant of unfolding ───────────────────────────────────────────────────

theorem Below.mono {entered names names' : List K} (h : Below table uses entered names)
    (hsub : ∀ k ∈ names', k ∈ names) : Below table uses entered names' :=
  fun a ha k hk => h a ha k (hsub k hk)

theorem Below.not_mem {entered names : List K} (h : Below table uses entered names)
    (hacyclic : Acyclic table uses) {k : K} (hk : k ∈ names) : k ∉ entered :=
  fun hmem => hacyclic k (h k hmem k hk)

/-- **Entering a definition** puts it above the names it uses. -/
theorem Below.enter {entered names : List K} (h : Below table uses entered names) {k : K}
    (hk : k ∈ names) {d : D} (hd : table.lookup k = some d) :
    Below table uses (k :: entered) (uses d) := by
  intro a ha b hb
  have hkb : Uses table uses k b := ⟨d, hd, hb⟩
  rcases List.mem_cons.mp ha with rfl | ha
  · exact .single hkb
  · exact (h a ha k hk).tail hkb

-- ── The budget ───────────────────────────────────────────────────────────────────

/-- What the definitions cost that have not been entered. -/
def remaining (cost : D → Nat) (entered : List K) : List (K × D) → Nat
  | [] => 0
  | (k, d) :: table => (if k ∈ entered then 0 else cost d) + remaining cost entered table

theorem remaining_nil (cost : D → Nat) (table : List (K × D)) :
    remaining cost [] table = (table.map (fun x => cost x.2)).sum := by
  induction table with
  | nil => rfl
  | cons x table ih =>
      obtain ⟨a, d⟩ := x
      rw [remaining, ih, if_neg (List.not_mem_nil), List.map_cons, List.sum_cons]

theorem remaining_cons_le (cost : D → Nat) (entered : List K) (k : K) (table : List (K × D)) :
    remaining cost (k :: entered) table ≤ remaining cost entered table := by
  induction table with
  | nil => exact Nat.le_refl _
  | cons x table ih =>
      obtain ⟨a, d⟩ := x
      rw [remaining, remaining]
      by_cases ha : a ∈ entered
      · rw [if_pos ha, if_pos (List.mem_cons_of_mem k ha)]
        omega
      · rw [if_neg ha]
        split <;> omega

/-- **The budget pays** for a definition entered for the first time. -/
theorem remaining_enter (cost : D → Nat) {entered : List K} {k : K} (hk : k ∉ entered) {d : D}
    (hd : table.lookup k = some d) :
    remaining cost (k :: entered) table + cost d ≤ remaining cost entered table := by
  induction table with
  | nil => cases hd
  | cons x table ih =>
      obtain ⟨a, d'⟩ := x
      rw [List.lookup_cons] at hd
      rw [remaining, remaining]
      by_cases ha : k = a
      · -- the entry itself: its cost is dropped, and nothing behind it costs more
        subst ha
        rw [beq_self_eq_true] at hd
        obtain rfl := Option.some.inj hd
        have hrest := remaining_cons_le cost entered k table
        rw [if_pos (List.mem_cons_self ..), if_neg hk]
        omega
      · rw [beq_false_of_ne ha] at hd
        have hrest := ih hd
        have hmem : a ∈ k :: entered ↔ a ∈ entered := by
          simp [List.mem_cons, Ne.symm ha]
        simp only [hmem]
        omega

end DefTable

import Mathlib.Data.List.Nodup
import SentinelKv.SkvIrProofs

/-!
# Names for what has none

LLVM prints a value without a name as a number.  The loader keeps a counter and gives the next
number to each object whose name is empty (`Name::name_or_num`); it walks a module, and each
function, twice, once to learn the names and once to load what carries them.

* **`nameAll_nodup`** — if no two objects share a non-empty name, no two get the same name;
* **`collect_eq_some`** — the map built from the first walk answers with the name the walk gave;
* **`global_names_agree_iff`** — for globals the two walks give the same names in one of two
  cases only: every function has a name, or every global has one.  The first walk counts unnamed
  functions and the second does not.
-/

namespace SkvNaming

open SkvIr

variable {K : Type}

-- ── One walk ─────────────────────────────────────────────────────────────────────

/-- `Name::name_or_num`, with the counter passed along. -/
def nameOrNum (s : String) (ctr : Nat) : Name × Nat :=
  if s.isEmpty then (.number ctr, ctr + 1) else (.name s, ctr)

/-- A walk over objects, each with the name LLVM has for it. -/
def nameAll : List (K × String) → Nat → List (K × Name) × Nat
  | [], ctr => ([], ctr)
  | (k, s) :: rest, ctr =>
      let named := nameOrNum s ctr
      let others := nameAll rest named.2
      ((k, named.1) :: others.1, others.2)

/-- The number of objects without a name. -/
def unnamed (l : List (K × String)) : Nat := l.countP (fun x => x.2.isEmpty)

/-- No two objects share a non-empty name. -/
def StringsUnique (l : List (K × String)) : Prop :=
  ((l.map Prod.snd).filter (fun s => !s.isEmpty)).Nodup

theorem nameOrNum_empty {s : String} (h : s.isEmpty = true) (ctr : Nat) :
    nameOrNum s ctr = (.number ctr, ctr + 1) := if_pos h

theorem nameOrNum_named {s : String} (h : s.isEmpty = false) (ctr : Nat) :
    nameOrNum s ctr = (.name s, ctr) := if_neg (by rw [h]; exact Bool.false_ne_true)

theorem unnamed_cons_empty {x : K × String} (h : x.2.isEmpty = true) (l : List (K × String)) :
    unnamed (x :: l) = unnamed l + 1 :=
  List.countP_cons_of_pos (p := fun x : K × String => x.2.isEmpty) h

theorem unnamed_cons_named {x : K × String} (h : x.2.isEmpty = false) (l : List (K × String)) :
    unnamed (x :: l) = unnamed l :=
  List.countP_cons_of_neg (p := fun x : K × String => x.2.isEmpty)
    (by rw [h]; exact Bool.false_ne_true)

theorem nameAll_append (l l' : List (K × String)) (ctr : Nat) :
    nameAll (l ++ l') ctr =
      ((nameAll l ctr).1 ++ (nameAll l' (nameAll l ctr).2).1,
        (nameAll l' (nameAll l ctr).2).2) := by
  induction l generalizing ctr with
  | nil => rfl
  | cons x l ih =>
      show ((x.1, (nameOrNum x.2 ctr).1) :: (nameAll (l ++ l') (nameOrNum x.2 ctr).2).1,
        (nameAll (l ++ l') (nameOrNum x.2 ctr).2).2) = _
      rw [ih]
      rfl

theorem nameAll_keys (l : List (K × String)) (ctr : Nat) :
    (nameAll l ctr).1.map Prod.fst = l.map Prod.fst := by
  induction l generalizing ctr with
  | nil => rfl
  | cons x l ih =>
      show x.1 :: (nameAll l (nameOrNum x.2 ctr).2).1.map Prod.fst = _
      rw [ih]
      rfl

theorem nameAll_map {K' : Type} (g : K → K') (l : List (K × String)) (ctr : Nat) :
    nameAll (l.map (Prod.map g id)) ctr =
      ((nameAll l ctr).1.map (Prod.map g id), (nameAll l ctr).2) := by
  induction l generalizing ctr with
  | nil => rfl
  | cons x l ih =>
      show ((g x.1, (nameOrNum x.2 ctr).1) ::
        (nameAll (l.map (Prod.map g id)) (nameOrNum x.2 ctr).2).1,
        (nameAll (l.map (Prod.map g id)) (nameOrNum x.2 ctr).2).2) = _
      rw [ih]
      rfl

/-- The counter moves by one for each object without a name. -/
theorem nameAll_ctr (l : List (K × String)) (ctr : Nat) :
    (nameAll l ctr).2 = ctr + unnamed l := by
  induction l generalizing ctr with
  | nil => rfl
  | cons x l ih =>
      show (nameAll l (nameOrNum x.2 ctr).2).2 = _
      rw [ih]
      cases hx : x.2.isEmpty with
      | true =>
          rw [nameOrNum_empty hx, unnamed_cons_empty hx]
          show ctr + 1 + unnamed l = ctr + (unnamed l + 1)
          omega
      | false => rw [nameOrNum_named hx, unnamed_cons_named hx]

/-- A name is the object's own, or a number the walk had not used before. -/
theorem mem_nameAll {l : List (K × String)} {ctr : Nat} {k : K} {n : Name}
    (h : (k, n) ∈ (nameAll l ctr).1) :
    (∃ s, (k, s) ∈ l ∧ s.isEmpty = false ∧ n = .name s) ∨ ∃ c, ctr ≤ c ∧ n = .number c := by
  induction l generalizing ctr with
  | nil => cases h
  | cons x l ih =>
      rcases List.mem_cons.mp h with heq | htail
      · cases heq
        cases hx : x.2.isEmpty with
        | true =>
            rw [nameOrNum_empty hx]
            exact Or.inr ⟨ctr, Nat.le_refl ctr, rfl⟩
        | false =>
            rw [nameOrNum_named hx]
            exact Or.inl ⟨x.2, List.mem_cons_self, hx, rfl⟩
      · have hle : ctr ≤ (nameOrNum x.2 ctr).2 := by
          rw [nameOrNum]
          split
          · exact Nat.le_succ ctr
          · exact Nat.le_refl ctr
        rcases ih htail with ⟨s, hs, hne, hn⟩ | ⟨c, hc, hn⟩
        · exact Or.inl ⟨s, List.mem_cons_of_mem x hs, hne, hn⟩
        · exact Or.inr ⟨c, Nat.le_trans hle hc, hn⟩

/-- **No two objects get the same name.** -/
theorem nameAll_nodup {l : List (K × String)} (h : StringsUnique l) (ctr : Nat) :
    ((nameAll l ctr).1.map Prod.snd).Nodup := by
  induction l generalizing ctr with
  | nil => exact List.nodup_nil
  | cons x l ih =>
      show ((nameOrNum x.2 ctr).1 :: (nameAll l (nameOrNum x.2 ctr).2).1.map Prod.snd).Nodup
      rw [List.nodup_cons]
      cases hx : x.2.isEmpty with
      | true =>
          have hrest : StringsUnique l := by
            rw [StringsUnique, List.map_cons, List.filter_cons_of_neg (by rw [hx]; decide)] at h
            exact h
          refine ⟨?_, ih hrest _⟩
          rw [nameOrNum_empty hx]
          intro hmem
          obtain ⟨⟨k, n⟩, hkn, rfl⟩ := List.mem_map.mp hmem
          rcases mem_nameAll hkn with ⟨s, -, -, hn⟩ | ⟨c, hc, hn⟩
          · cases hn
          · cases hn
            exact absurd hc (Nat.not_succ_le_self ctr)
      | false =>
          rw [StringsUnique, List.map_cons, List.filter_cons_of_pos (by rw [hx]; rfl),
            List.nodup_cons] at h
          refine ⟨?_, ih h.2 _⟩
          rw [nameOrNum_named hx]
          intro hmem
          obtain ⟨⟨k, n⟩, hkn, rfl⟩ := List.mem_map.mp hmem
          rcases mem_nameAll hkn with ⟨s, hs, hne, hn⟩ | ⟨c, hc, hn⟩
          · cases hn
            refine h.1 (List.mem_filter.mpr ⟨List.mem_map.mpr ⟨(k, x.2), hs, rfl⟩, ?_⟩)
            rw [hne]
            rfl
          · cases hn

-- ── The map of the first walk ────────────────────────────────────────────────────

/-- A `HashMap` collected from pairs: the last pair for a key is the one that stays. -/
def collect [DecidableEq K] (pairs : List (K × Name)) (k : K) : Option Name :=
  pairs.reverse.lookup k

theorem lookup_eq_some_of_mem [DecidableEq K] {pairs : List (K × Name)} {k : K} {n : Name}
    (hkeys : (pairs.map Prod.fst).Nodup) (h : (k, n) ∈ pairs) : pairs.lookup k = some n := by
  induction pairs with
  | nil => cases h
  | cons x pairs ih =>
      rw [List.map_cons, List.nodup_cons] at hkeys
      rcases List.mem_cons.mp h with heq | htail
      · subst heq
        exact List.lookup_cons_self
      · have hne : k ≠ x.1 := by
          rintro rfl
          exact hkeys.1 (List.mem_map.mpr ⟨(x.1, n), htail, rfl⟩)
        rw [show (x :: pairs).lookup k = pairs.lookup k from by
          rw [List.lookup_cons, beq_eq_false_iff_ne.mpr hne]]
        exact ih hkeys.2 htail

/-- **The map answers with the name the walk gave** when no object is met twice. -/
theorem collect_eq_some [DecidableEq K] {pairs : List (K × Name)}
    (hkeys : (pairs.map Prod.fst).Nodup) {k : K} {n : Name} :
    collect pairs k = some n ↔ (k, n) ∈ pairs := by
  constructor
  · intro h
    obtain ⟨before, after, heq, -⟩ := List.lookup_eq_some_iff.mp h
    rw [← List.mem_reverse, heq]
    exact List.mem_append_right before List.mem_cons_self
  · intro h
    refine lookup_eq_some_of_mem ?_ (List.mem_reverse.mpr h)
    rw [List.map_reverse]
    exact List.nodup_reverse.mpr hkeys

-- ── Globals ──────────────────────────────────────────────────────────────────────

/-- The objects of a module that have global names, in the order of the iterators. -/
structure LlvmGlobals (G : Type) where
  functions    : List (G × String)
  declarations : List (G × String)
  globals      : List (G × String)
  aliases      : List (G × String)
  ifuncs       : List (G × String)

variable {G : Type}

def LlvmGlobals.callables (m : LlvmGlobals G) : List (G × String) := m.functions ++ m.declarations

def LlvmGlobals.variables (m : LlvmGlobals G) : List (G × String) :=
  m.globals ++ m.aliases ++ m.ifuncs

/-- `global_names` of `Module::from_llvm_ref`: what references to a global are loaded with. -/
def globalNames [DecidableEq G] (m : LlvmGlobals G) : G → Option Name :=
  collect (nameAll (m.functions ++ m.declarations ++ m.globals ++ m.aliases ++ m.ifuncs) 0).1

/-- The names the second walk gives to `global_vars`, `global_aliases` and `global_ifuncs`, with
    one counter from zero. -/
def secondNames (m : LlvmGlobals G) : List (G × Name) :=
  (nameAll (m.globals ++ m.aliases ++ m.ifuncs) 0).1

/-- Starting elsewhere changes the names iff one of them is a number. -/
theorem nameAll_eq_iff (l : List (K × String)) (c d : Nat) :
    (nameAll l c).1 = (nameAll l d).1 ↔ c = d ∨ unnamed l = 0 := by
  induction l generalizing c d with
  | nil => exact ⟨fun _ => Or.inr rfl, fun _ => rfl⟩
  | cons x l ih =>
      show (x.1, (nameOrNum x.2 c).1) :: (nameAll l (nameOrNum x.2 c).2).1 =
        (x.1, (nameOrNum x.2 d).1) :: (nameAll l (nameOrNum x.2 d).2).1 ↔ _
      rw [List.cons.injEq, ih]
      cases hx : x.2.isEmpty with
      | true =>
          rw [nameOrNum_empty hx, nameOrNum_empty hx, unnamed_cons_empty hx, Prod.mk.injEq,
            Name.number.injEq]
          constructor
          · rintro ⟨⟨-, rfl⟩, -⟩
            exact Or.inl rfl
          · rintro (rfl | hzero)
            · exact ⟨⟨rfl, rfl⟩, Or.inl rfl⟩
            · cases hzero
      | false =>
          rw [nameOrNum_named hx, nameOrNum_named hx, unnamed_cons_named hx]
          exact ⟨fun h => h.2, fun h => ⟨rfl, h⟩⟩

/-- Two lists with the same keys, each once, are equal when one is contained in the other. -/
theorem eq_of_subset_of_keys {l l' : List (K × Name)} (hkeys : l.map Prod.fst = l'.map Prod.fst)
    (hnodup : (l.map Prod.fst).Nodup) (h : l ⊆ l') : l = l' := by
  induction l generalizing l' with
  | nil => exact (List.map_eq_nil_iff.mp hkeys.symm).symm
  | cons x l ih =>
      cases l' with
      | nil => cases hkeys
      | cons y l' =>
          rw [List.map_cons, List.map_cons, List.cons.injEq] at hkeys
          rw [List.map_cons, List.nodup_cons] at hnodup
          have hx : x = y := by
            rcases List.mem_cons.mp (h List.mem_cons_self) with hxy | htail
            · exact hxy
            · exact absurd (hkeys.2 ▸ List.mem_map.mpr ⟨x, htail, rfl⟩) hnodup.1
          subst hx
          rw [ih hkeys.2 hnodup.2]
          intro z hz
          rcases List.mem_cons.mp (h (List.mem_cons_of_mem x hz)) with rfl | htail
          · exact absurd (List.mem_map.mpr ⟨z, hz, rfl⟩) hnodup.1
          · exact htail

/-- **When the two walks agree.**  Each global carries the name that references to it carry iff
    every function has a name, or every global, alias and ifunc has one. -/
theorem global_names_agree_iff [DecidableEq G] (m : LlvmGlobals G)
    (hrefs : ((m.callables ++ m.variables).map Prod.fst).Nodup) :
    (∀ x ∈ secondNames m, globalNames m x.1 = some x.2) ↔
      unnamed m.callables = 0 ∨ unnamed m.variables = 0 := by
  -- the first walk reaches the variables with the unnamed functions counted
  have hfirst : (nameAll (m.functions ++ m.declarations ++ m.globals ++ m.aliases ++ m.ifuncs)
      0).1 = (nameAll m.callables 0).1 ++ (nameAll m.variables (unnamed m.callables)).1 := by
    have happend := nameAll_append m.callables m.variables 0
    rw [nameAll_ctr, Nat.zero_add] at happend
    rw [show m.functions ++ m.declarations ++ m.globals ++ m.aliases ++ m.ifuncs =
        m.callables ++ m.variables from by
      simp only [LlvmGlobals.callables, LlvmGlobals.variables, List.append_assoc], happend]
  have hkeys : (((nameAll m.callables 0).1 ++
      (nameAll m.variables (unnamed m.callables)).1).map Prod.fst).Nodup := by
    rw [List.map_append, nameAll_keys, nameAll_keys, ← List.map_append]
    exact hrefs
  have hsecond : secondNames m = (nameAll m.variables 0).1 := rfl
  have hsame : (∀ x ∈ secondNames m, globalNames m x.1 = some x.2) ↔
      secondNames m ⊆ (nameAll m.variables (unnamed m.callables)).1 := by
    constructor
    · intro h x hx
      have hmem := h x hx
      rw [globalNames, hfirst, collect_eq_some hkeys] at hmem
      refine (List.mem_append.mp hmem).resolve_left fun hcall => ?_
      rw [List.map_append] at hkeys
      refine List.disjoint_of_nodup_append hkeys (List.mem_map.mpr ⟨x, hcall, rfl⟩) ?_
      rw [nameAll_keys, ← nameAll_keys m.variables 0]
      exact List.mem_map.mpr ⟨x, hx, rfl⟩
    · intro h x hx
      rw [globalNames, hfirst, collect_eq_some hkeys]
      exact List.mem_append_right _ (h hx)
  rw [hsame, hsecond, ← or_congr_left (eq_comm (a := 0)), ← nameAll_eq_iff]
  constructor
  · refine eq_of_subset_of_keys ?_ ?_
    · rw [nameAll_keys, nameAll_keys]
    · rw [nameAll_keys]
      rw [List.map_append] at hrefs
      exact (List.nodup_append.mp hrefs).2.1
  · intro h
    rw [h]
    exact List.Subset.refl _

/-- An unnamed function and an unnamed global: the global is `@1` to whoever refers to it and
    `@0` in the list of globals. -/
def anonymousGlobals : LlvmGlobals Nat := ⟨[(0, "")], [], [(1, "")], [], []⟩

theorem anonymousGlobals_disagree :
    ¬ (∀ x ∈ secondNames anonymousGlobals, globalNames anonymousGlobals x.1 = some x.2) := by
  rw [global_names_agree_iff anonymousGlobals (by decide)]
  decide

end SkvNaming

import SentinelKv.EarlyReturnProofs
import SentinelKv.SkvTypesBuilderProofs

/-!
# The table of a loaded module

What the loader leaves behind depends on LLVM's types only, not on the order in which a module
mentions them, and it is a table that the analyzer's recursions return on.

* **`loads_agree`** — two loads of any references in any order give the same type for the same
  reference and the same definition for the same name;
* **`acyclic_loaded`** — if no LLVM type contains itself by value, no loaded struct does;
* **`loaded_typeSize_returns`** — so `type_size` returns on every loaded type, and every name it
  meets has a definition.
-/

namespace SkvLoadedTypes

open DefTable EarlyReturn SkvIr SkvSize SkvTermination SkvTypeSize SkvTypesBuilder StateSpec

variable {R : Type}

/-- LLVM gives no two structs of a context the same name. -/
def NamesUnique (ctx : R → LlvmType R) : Prop :=
  ∀ r r' name, (ctx r).structName = some name → (ctx r').structName = some name → r = r'

-- ── The order of loading ─────────────────────────────────────────────────────────

theorem IsBody.unique {ctx : R → LlvmType R} {s : LlvmStruct R} {d d' : NamedStructDef}
    (h : IsBody ctx s d) (h' : IsBody ctx s d') : d = d' := by
  cases hs : s.elements with
  | none =>
      simp only [IsBody, hs] at h h'
      rw [h, h']
  | some elements =>
      simp only [IsBody, hs] at h h'
      obtain ⟨ts, hts, rfl⟩ := h
      obtain ⟨ts', hts', rfl⟩ := h'
      have hunique : Relator.RightUnique (Translates ctx) := fun _ _ _ h h' => h.unique h'
      rw [List.right_unique_forall₂' hunique hts hts']

theorem IsDefinition.unique {ctx : R → LlvmType R} (hnames : NamesUnique ctx) {name : String}
    {d d' : NamedStructDef} (h : IsDefinition ctx name d) (h' : IsDefinition ctx name d') :
    d = d' := by
  obtain ⟨r, s, hr, hname, hbody⟩ := h
  obtain ⟨r', s', hr', hname', hbody'⟩ := h'
  have hstruct : ∀ {r s}, ctx r = .struct s → s.structName = some name →
      (ctx r).structName = some name := by
    intro r s hr hname
    rw [hr]
    exact hname
  obtain rfl := hnames r r' name (hstruct hr hname) (hstruct hr' hname')
  obtain rfl : s = s' := by
    rw [hr] at hr'
    exact LlvmType.struct.inj hr'
  exact IsBody.unique hbody hbody'

section Loads

variable [Fintype R] [DecidableEq R]

theorem loaded {ctx : R → LlvmType R} {fuel : Nat} {tys : List R} {ts : List IrType}
    {b : TypesBuilder R} (h : loadTypes ctx fuel tys TypesBuilder.new = .ok (ts, b)) :
    List.Forall₂ (Translates ctx) tys ts ∧ Complete ctx ts b :=
  (loadTypes_meets ctx fuel tys).ok (ready_new ctx) h

/-- **The order does not matter**: a reference is loaded as the same type and a name gets the
    same definition, whatever else is loaded before or after it. -/
theorem loads_agree (ctx : R → LlvmType R) (hnames : NamesUnique ctx) (fuel fuel' : Nat)
    (tys tys' : List R) (ts ts' : List IrType) (b b' : TypesBuilder R)
    (h : loadTypes ctx fuel tys TypesBuilder.new = .ok (ts, b))
    (h' : loadTypes ctx fuel' tys' TypesBuilder.new = .ok (ts', b')) :
    (∀ r t t', (r, t) ∈ tys.zip ts → (r, t') ∈ tys'.zip ts' → t = t') ∧
    ∀ name d d', b.namedStructDefs.lookup name = some d →
      b'.namedStructDefs.lookup name = some d' → d = d' := by
  obtain ⟨hts, hb⟩ := loaded h
  obtain ⟨hts', hb'⟩ := loaded h'
  constructor
  · intro r t t' ht ht'
    exact (List.forall₂_zip hts ht).unique (List.forall₂_zip hts' ht')
  · intro name d d' hd hd'
    exact IsDefinition.unique hnames (hb.defs name d (mem_of_lookup hd))
      (hb'.defs name d' (mem_of_lookup hd'))

/-- `%list = type { i64, ptr }`, `%pair = type { [2 x %list], %blob }` and the opaque
    `%blob`. -/
def pairCtx : Fin 6 → LlvmType (Fin 6)
  | 0 => .struct ⟨false, some "pair", some [1, 2], false⟩
  | 1 => .array 3 2
  | 2 => .struct ⟨false, some "blob", none, false⟩
  | 3 => .struct ⟨false, some "list", some [4, 5], false⟩
  | 4 => .integer 64
  | 5 => .pointer

theorem pairCtx_names : NamesUnique pairCtx := by
  have h : ∀ r r' : Fin 6, ((pairCtx r).structName.isSome &&
      decide ((pairCtx r).structName = (pairCtx r').structName)) = true → r = r' := by decide
  intro r r' name hr hr'
  refine h r r' ?_
  rw [hr, hr']
  simp

theorem pairCtx_unnamed : ∀ r, ¬ UnnamedOpaque pairCtx r := by
  rintro r ⟨s, hs, hname, hnone⟩
  fin_cases r
  all_goals cases hs
  · cases hnone
  · exact absurd hname (by decide)
  · cases hnone

theorem pairCtx_child_lt : ∀ a b : Fin 6, Child pairCtx a b → 6 - b.val < 6 - a.val := by
  have hlt : ∀ a b : Fin 6, b ∈ (pairCtx a).children → 6 - b.val < 6 - a.val := by decide
  exact hlt

theorem pairCtx_ranked : Ranked pairCtx (fun r => 6 - r.val) 6 :=
  ⟨fun r => Nat.sub_le 6 r.val, fun r r' h => pairCtx_child_lt r r' h.2⟩

theorem pairCtx_agrees :
    ∃ ts ts' b b', loadTypes pairCtx 49 [1, 0] TypesBuilder.new = .ok (ts, b) ∧
      loadTypes pairCtx 50 [3, 0, 1] TypesBuilder.new = .ok (ts', b') ∧
      (∀ (r : Fin 6) t t', (r, t) ∈ [1, 0].zip ts → (r, t') ∈ [3, 0, 1].zip ts' → t = t') ∧
      ∀ name d d', b.namedStructDefs.lookup name = some d →
        b'.namedStructDefs.lookup name = some d' → d = d' := by
  have hfuel : ∀ fuel, 48 < fuel → 6 + Fintype.card (Fin 6) * (6 + 1) < fuel := by
    intro fuel hfuel
    rw [Fintype.card_fin]
    exact hfuel
  obtain ⟨ts, b, hb, -⟩ := loadTypes_ok pairCtx_ranked pairCtx_unnamed
    (hfuel 49 (by decide)) [1, 0]
  obtain ⟨ts', b', hb', -⟩ := loadTypes_ok pairCtx_ranked pairCtx_unnamed
    (hfuel 50 (by decide)) [3, 0, 1]
  exact ⟨ts, ts', b, b', hb, hb', loads_agree pairCtx pairCtx_names 49 50 [1, 0] [3, 0, 1]
    ts ts' b b' hb hb'⟩

end Loads

-- ── Containment by value ─────────────────────────────────────────────────────────

/-- The references a value of the type holds values of. -/
def fields : LlvmType R → List R
  | .array element _ => [element]
  | .struct s => s.children
  | _ => []

/-- The type contains the other by value, directly. -/
def Holds (ctx : R → LlvmType R) (r r' : R) : Prop := r' ∈ fields (ctx r)

theorem Holds.child {ctx : R → LlvmType R} {r r' : R} (h : Holds ctx r r') : Child ctx r r' := by
  cases hty : ctx r <;> simp only [Holds, Child, hty, fields, LlvmType.children] at h ⊢ <;>
    first | exact h | cases h

theorem holds_element {ctx : R → LlvmType R} {r r' : R} {s : LlvmStruct R} {elements : List R}
    (hr : ctx r = .struct s) (hs : s.elements = some elements) (hr' : r' ∈ elements) :
    Holds ctx r r' := by
  rw [Holds, hr]
  show r' ∈ s.elements.getD []
  rw [hs]
  exact hr'

/-- A name in a translation is that of a struct the reference contains by value. -/
theorem holds_of_byValue {ctx : R → LlvmType R} {n : Nat} {r : R} {t : IrType}
    (h : TranslatesIn ctx n r t) {name : String} (hname : name ∈ byValue t) :
    ∃ r', Relation.ReflTransGen (Holds ctx) r r' ∧ (ctx r').structName = some name := by
  induction n generalizing r t with
  | zero => exact h.elim
  | succ n ih =>
      change Unfolds (TranslatesIn ctx n) (ctx r) t at h
      cases hty : ctx r with
      | array element length =>
          rw [hty] at h
          obtain ⟨e, he, rfl⟩ := h
          obtain ⟨r', hreach, hr'⟩ := ih he hname
          refine ⟨r', Relation.ReflTransGen.head ?_ hreach, hr'⟩
          rw [Holds, hty]
          exact List.mem_cons_self
      | struct s =>
          rw [hty] at h
          cases hs : s.structName with
          | some own =>
              simp only [Unfolds, hs] at h
              subst h
              obtain rfl : name = own := List.mem_singleton.mp hname
              refine ⟨r, Relation.ReflTransGen.refl, ?_⟩
              rw [hty]
              exact hs
          | none =>
              simp only [Unfolds, hs] at h
              obtain ⟨elements, ts, hel, hts, rfl⟩ := h
              obtain ⟨t, ht, hname⟩ := mem_byValueList hname
              obtain ⟨e, he, het⟩ := forall₂_mem_right hts ht
              obtain ⟨r', hreach, hr'⟩ := ih het hname
              exact ⟨r', Relation.ReflTransGen.head (holds_element hty hel he) hreach, hr'⟩
      | _ =>
          rw [hty] at h
          simp only [Unfolds] at h
          first
            | (subst h; cases hname)
            | (obtain ⟨e, -, rfl⟩ := h; cases hname)

/-- A name in the definition of another is that of a struct the other contains by value. -/
theorem holds_of_namesIn {ctx : R → LlvmType R} {a b : String} {d : NamedStructDef}
    (hd : IsDefinition ctx a d) (hb : b ∈ namesIn d) :
    ∃ r r', (ctx r).structName = some a ∧ (ctx r').structName = some b ∧
      Relation.TransGen (Holds ctx) r r' := by
  obtain ⟨r, s, hr, hname, hbody⟩ := hd
  have hnamed : (ctx r).structName = some a := by
    rw [hr]
    exact hname
  cases hs : s.elements with
  | none =>
      simp only [IsBody, hs] at hbody
      subst hbody
      cases hb
  | some elements =>
      simp only [IsBody, hs] at hbody
      obtain ⟨ts, hts, rfl⟩ := hbody
      obtain ⟨t, ht, hbt⟩ := mem_byValueList hb
      obtain ⟨e, he, n, hn⟩ := forall₂_mem_right hts ht
      obtain ⟨r', hreach, hr'⟩ := holds_of_byValue hn hbt
      exact ⟨r, r', hnamed, hr', Relation.TransGen.head' (holds_element hr hs he) hreach⟩

/-- **A loaded table has no cycles** when LLVM's types have none. -/
theorem acyclic_loaded {ctx : R → LlvmType R} (hnames : NamesUnique ctx)
    (hacyclic : ∀ r, ¬ Relation.TransGen (Holds ctx) r r) {ts : List IrType}
    {b : TypesBuilder R} (hb : Complete ctx ts b) : Acyclic b.namedStructDefs namesIn := by
  have hpath : ∀ a c, Relation.TransGen (Uses b.namedStructDefs namesIn) a c →
      ∃ r r', (ctx r).structName = some a ∧ (ctx r').structName = some c ∧
        Relation.TransGen (Holds ctx) r r' := by
    intro a c hac
    induction hac with
    | single huse =>
        obtain ⟨d, hd, hc⟩ := huse
        exact holds_of_namesIn (hb.defs a d (mem_of_lookup hd)) hc
    | tail _ huse ih =>
        obtain ⟨d, hd, hc⟩ := huse
        obtain ⟨r, r₁, hr, hr₁, hreach⟩ := ih
        obtain ⟨r₂, r', hr₂, hr', hstep⟩ := holds_of_namesIn (hb.defs _ d (mem_of_lookup hd)) hc
        obtain rfl := hnames r₁ r₂ _ hr₁ hr₂
        exact ⟨r, r', hr, hr', hreach.trans hstep⟩
  intro a ha
  obtain ⟨r, r', hr, hr', hreach⟩ := hpath a a ha
  obtain rfl := hnames r r' a hr hr'
  exact hacyclic r hreach

/-- Every name that leads on from a defined name is defined. -/
theorem Complete.defined {ctx : R → LlvmType R} {ts : List IrType} {b : TypesBuilder R}
    (hb : Complete ctx ts b) {t : IrType} (ht : t ∈ ts) {name : String}
    (hname : Leads b.namedStructDefs namesIn (byValue t) name) : name ∈ b.definedNames := by
  obtain ⟨a, ha, hreach⟩ := hname
  induction hreach with
  | refl => exact hb.names (byValue_subset ht a ha)
  | tail _ huse _ =>
      obtain ⟨d, hd, hc⟩ := huse
      exact hb.closed _ d (mem_of_lookup hd) hc

variable [Fintype R] [DecidableEq R]

/-- **From LLVM's types to sizes.**  If no type of a context contains itself and every opaque
    struct has a name, a module that mentions any of its types loads, `type_size` returns on
    each of them, and every struct it opens on the way has a definition in the table. -/
theorem loaded_typeSize_returns (ctx : R → LlvmType R) (hnames : NamesUnique ctx)
    (hacyclic : ∀ r, ¬ Relation.TransGen (Child ctx) r r) (hnamed : ∀ r, ¬ UnnamedOpaque ctx r)
    (tys : List R) (functions : List Function) :
    ∃ fuel ts b, loadTypes ctx fuel tys TypesBuilder.new = .ok (ts, b) ∧
      ∀ t ∈ ts, Returns ⟨functions, b.namedStructDefs⟩ t
          (typeSize ⟨functions, b.namedStructDefs⟩ t) ∧
        ∀ name, ContainsByValue ⟨functions, b.namedStructDefs⟩ t name →
          ∃ d, Module.namedStructDef ⟨functions, b.namedStructDefs⟩ name = some d ∧
            IsDefinition ctx name d := by
  obtain ⟨rank, hle, hlt⟩ := exists_rank hacyclic
  obtain ⟨ts, b, hload, -, hb⟩ := loadTypes_ok
    ⟨hle, fun r r' h => hlt r r' h.2⟩ hnamed (Nat.lt_succ_self _) tys
  have hholds : ∀ r, ¬ Relation.TransGen (Holds ctx) r r := fun r h =>
    hacyclic r (Relation.TransGen.mono (fun _ _ hchild => Holds.child hchild) r r h)
  have hstructs : AcyclicStructs ⟨functions, b.namedStructDefs⟩ := acyclic_loaded hnames hholds hb
  refine ⟨_, ts, b, hload, fun t ht => ⟨(returns_iff_typeSize hstructs t _).mpr rfl, ?_⟩⟩
  intro name hname
  obtain ⟨d, hd⟩ := exists_lookup (Complete.defined hb ht hname)
  exact ⟨d, hd, hb.defs name d (mem_of_lookup hd)⟩

theorem pairCtx_sizes :
    ∃ fuel ts b, loadTypes pairCtx fuel [1, 0] TypesBuilder.new = .ok (ts, b) ∧
      ∀ t ∈ ts, Returns ⟨[], b.namedStructDefs⟩ t (typeSize ⟨[], b.namedStructDefs⟩ t) ∧
        ∀ name, ContainsByValue ⟨[], b.namedStructDefs⟩ t name →
          ∃ d, Module.namedStructDef ⟨[], b.namedStructDefs⟩ name = some d ∧
            IsDefinition pairCtx name d := by
  refine loaded_typeSize_returns pairCtx pairCtx_names ?_ pairCtx_unnamed [1, 0] []
  exact not_transGen_of_rank (fun r => 6 - r.val) pairCtx_child_lt

end SkvLoadedTypes

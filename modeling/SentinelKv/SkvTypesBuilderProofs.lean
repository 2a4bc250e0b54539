import Mathlib.Data.Fintype.Card
import Mathlib.Tactic.FinCases
import SentinelKv.SkvTerminationProofs
import SentinelKv.StateSpecProofs

/-!
# Loading the types of a module

`TypesBuilder` of the vendored `llvm-ir` crate turns LLVM's type references into the types
`analyze` reads.  It remembers the answer for each reference, and enters the name of a named
struct before it loads the struct's body, so that a struct may mention itself.  A name is
looked up in the set of names entered so far, its definition in the table of definitions,
and the builder panics when a definition is added twice.

* **`typeFromLlvmRef_meets`** — one call, from any state between two steps of the loader: what
  it returns is the plain translation of the reference, no definition is ever added twice, and
  the depth of the recursion is bounded;
* **`loadTypes_sound`** — any sequence of references: every answer is the plain translation,
  every name that occurs in an answer or in a definition has exactly one definition, and the
  only panic is at an opaque struct without a name;
* **`loadTypes_returns`** — the loader returns whenever no unnamed type contains itself, also on
  named structs that do.
-/

namespace SkvTypesBuilder

open DefTable SkvIr SkvTermination SkvTypeSize StateSpec

-- ── LLVM's side ──────────────────────────────────────────────────────────────────

/-- What LLVM answers about a struct type: `LLVMIsLiteralStruct`, `LLVMGetStructName`, the
    elements (none when `LLVMIsOpaqueStruct`) and `LLVMIsPackedStruct`. -/
structure LlvmStruct (R : Type) where
  isLiteral : Bool
  name      : Option String
  elements  : Option (List R)
  isPacked  : Bool

/-- The kind of a type and the references to the types it is made of.  A pointer refers to no
    type (LLVM 15 and later). -/
inductive LlvmType (R : Type) where
  | void
  | integer (width : UInt32)
  | pointer
  | array (element : R) (length : UInt64)
  | vector (element : R) (size : UInt64)
  | struct (s : LlvmStruct R)
  | function (result : R) (params : List R)
  | fp
  | x86MMX
  | x86AMX
  | metadata
  | label
  | token
  | targetExt

/-- The name a struct is loaded under: none for a literal struct and for an empty name. -/
def LlvmStruct.structName {R : Type} (s : LlvmStruct R) : Option String :=
  match (if s.isLiteral then none else s.name) with
  | some name => if name.isEmpty then none else some name
  | none => none

variable {R : Type}

def LlvmStruct.children (s : LlvmStruct R) : List R := s.elements.getD []

def LlvmType.children : LlvmType R → List R
  | .array element _ => [element]
  | .vector element _ => [element]
  | .struct s => s.children
  | .function result params => result :: params
  | _ => []

def LlvmType.structName : LlvmType R → Option String
  | .struct s => s.structName
  | _ => none

-- ── The builder ──────────────────────────────────────────────────────────────────

inductive Panic where
  | redefinition
  | opaqueBody
deriving DecidableEq, Repr

def Panic.message : Panic → String
  | .redefinition => "Trying to redefine named struct"
  | .opaqueBody =>
      "struct_type_from_llvm_ref: shouldn't pass an opaque struct type to this function"

inductive Stop where
  | outOfFuel
  | panicked (p : Panic)
deriving DecidableEq, Repr

/-- `TypesBuilder`.  The caches of the other kinds of types hold what their key builds, and
    nothing asks whether a key is in one; of `named_struct_types` the keys are kept, which
    are asked for. -/
structure TypesBuilder (R : Type) where
  namedStructTypes : List String
  namedStructDefs  : List (String × NamedStructDef)
  llvmTypeMap      : R → Option IrType

/-- `TypesBuilder::new`. -/
def TypesBuilder.new : TypesBuilder R := ⟨[], [], fun _ => none⟩

abbrev Build (R α : Type) : Type := StateT (TypesBuilder R) (Except Stop) α

/-- `TypesBuilder::named_struct`. -/
def namedStruct (name : String) : Build R IrType := do
  modify fun b => { b with namedStructTypes := b.namedStructTypes.insert name }
  pure (.namedStructType name)

/-- `TypesBuilder::add_named_struct_def`. -/
def addNamedStructDef (name : String) (d : NamedStructDef) : Build R Unit := do
  let b ← get
  if name ∈ b.namedStructDefs.map Prod.fst then
    throw (.panicked .redefinition)
  else
    set { b with namedStructDefs := (name, d) :: b.namedStructDefs }

/-- `TypesBuilder::struct_type_from_llvm_ref`. -/
def structTypeFromLlvmRef (typeFromLlvmRef : R → Build R IrType) (s : LlvmStruct R) :
    Build R IrType :=
  match s.elements with
  | none => throw (.panicked .opaqueBody)
  | some elements => do
      let elementTypes ← elements.mapM typeFromLlvmRef
      pure (.structType elementTypes s.isPacked)

/-- The named arm of the struct case of `parse_type_from_llvm_ref`. -/
def namedStructFromLlvmRef (typeFromLlvmRef : R → Build R IrType) (s : LlvmStruct R)
    (name : String) : Build R IrType := do
  let b ← get
  if name ∈ b.namedStructTypes then
    namedStruct name
  else
    match s.elements with
    | none => do
        addNamedStructDef name .opaqueDef
        namedStruct name
    | some _ => do
        -- the name goes in first, so that the body may mention it
        let namedStructTyperef ← namedStruct name
        let actualStructType ← structTypeFromLlvmRef typeFromLlvmRef s
        addNamedStructDef name (.defined actualStructType)
        pure namedStructTyperef

/-- `TypesBuilder::parse_type_from_llvm_ref`, by what LLVM says of the reference. -/
def parseTypeFromLlvmRef (typeFromLlvmRef : R → Build R IrType) : LlvmType R → Build R IrType
  | .void => pure .voidType
  | .integer width => pure (.integerType width)
  | .pointer => pure .pointerType
  | .array element length => do
      let elementType ← typeFromLlvmRef element
      pure (.arrayType elementType length)
  | .vector element size => do
      let elementType ← typeFromLlvmRef element
      pure (.vectorType elementType size)
  | .struct s =>
      match s.structName with
      | some name => namedStructFromLlvmRef typeFromLlvmRef s name
      | none => structTypeFromLlvmRef typeFromLlvmRef s
  | .function result params => do
      let _ ← typeFromLlvmRef result
      let _ ← params.mapM typeFromLlvmRef
      pure .funcType
  | .fp => pure .fpType
  | .x86MMX => pure .x86MMXType
  | .x86AMX => pure .x86AMXType
  | .metadata => pure .metadataType
  | .label => pure .labelType
  | .token => pure .tokenType
  | .targetExt => pure .targetExtType

/-- `TypesBuilder::type_from_llvm_ref`, to a depth of `fuel` nested calls. -/
def typeFromLlvmRef [DecidableEq R] (ctx : R → LlvmType R) : Nat → R → Build R IrType
  | 0, _ => throw .outOfFuel
  | fuel + 1, ty => do
      let b ← get
      match b.llvmTypeMap ty with
      | some typeref => pure typeref
      | none => do
          let typeref ← parseTypeFromLlvmRef (typeFromLlvmRef ctx fuel) (ctx ty)
          modify fun b => { b with llvmTypeMap := Function.update b.llvmTypeMap ty (some typeref) }
          pure typeref

/-- The calls a module makes while it is loaded, one after the other on one builder. -/
def loadTypes [DecidableEq R] (ctx : R → LlvmType R) (fuel : Nat) (tys : List R) :
    Build R (List IrType) :=
  tys.mapM (typeFromLlvmRef ctx fuel)

-- ── The plain translation ────────────────────────────────────────────────────────

/-- What a type translates to, given what the types it is made of translate to: no memory,
    no table, a named struct is its name. -/
def Unfolds (T : R → IrType → Prop) : LlvmType R → IrType → Prop
  | .void, t => t = .voidType
  | .integer width, t => t = .integerType width
  | .pointer, t => t = .pointerType
  | .array element length, t => ∃ e, T element e ∧ t = .arrayType e length
  | .vector element size, t => ∃ e, T element e ∧ t = .vectorType e size
  | .struct s, t =>
      match s.structName with
      | some name => t = .namedStructType name
      | none => ∃ elements ts, s.elements = some elements ∧ List.Forall₂ T elements ts ∧
          t = .structType ts s.isPacked
  | .function _ _, t => t = .funcType
  | .fp, t => t = .fpType
  | .x86MMX, t => t = .x86MMXType
  | .x86AMX, t => t = .x86AMXType
  | .metadata, t => t = .metadataType
  | .label, t => t = .labelType
  | .token, t => t = .tokenType
  | .targetExt, t => t = .targetExtType

def TranslatesIn (ctx : R → LlvmType R) : Nat → R → IrType → Prop
  | 0, _, _ => False
  | n + 1, r, t => Unfolds (TranslatesIn ctx n) (ctx r) t

/-- The reference translates to the type. -/
def Translates (ctx : R → LlvmType R) (r : R) (t : IrType) : Prop := ∃ n, TranslatesIn ctx n r t

/-- The definition is the one the struct has. -/
def IsBody (ctx : R → LlvmType R) (s : LlvmStruct R) (d : NamedStructDef) : Prop :=
  match s.elements with
  | none => d = .opaqueDef
  | some elements => ∃ ts, List.Forall₂ (Translates ctx) elements ts ∧
      d = .defined (.structType ts s.isPacked)

theorem Unfolds.imp {T T' : R → IrType → Prop} (h : ∀ r t, T r t → T' r t) {ty : LlvmType R}
    {t : IrType} (ht : Unfolds T ty t) : Unfolds T' ty t := by
  cases ty with
  | array element length =>
      obtain ⟨e, he, rfl⟩ := ht
      exact ⟨e, h element e he, rfl⟩
  | vector element size =>
      obtain ⟨e, he, rfl⟩ := ht
      exact ⟨e, h element e he, rfl⟩
  | struct s =>
      cases hname : s.structName with
      | some name =>
          simp only [Unfolds, hname] at ht ⊢
          exact ht
      | none =>
          simp only [Unfolds, hname] at ht ⊢
          obtain ⟨elements, ts, hs, hts, rfl⟩ := ht
          exact ⟨elements, ts, hs, hts.imp h, rfl⟩
  | _ => exact ht

theorem TranslatesIn.mono {ctx : R → LlvmType R} {n m : Nat} (hnm : n ≤ m) {r : R} {t : IrType}
    (h : TranslatesIn ctx n r t) : TranslatesIn ctx m r t := by
  induction n generalizing m r t with
  | zero => exact h.elim
  | succ n ih =>
      obtain ⟨m, rfl⟩ : ∃ k, m = k + 1 := ⟨m - 1, by omega⟩
      exact Unfolds.imp (fun r t hr => ih (Nat.le_of_succ_le_succ hnm) hr) h

/-- Finitely many translations have a common depth. -/
theorem translatesIn_of_forall₂ {ctx : R → LlvmType R} {rs : List R} {ts : List IrType}
    (h : List.Forall₂ (Translates ctx) rs ts) : ∃ n, List.Forall₂ (TranslatesIn ctx n) rs ts := by
  induction h with
  | nil => exact ⟨0, List.Forall₂.nil⟩
  | cons hr _ ih =>
      obtain ⟨n, hn⟩ := hr
      obtain ⟨m, hm⟩ := ih
      exact ⟨max n m, List.Forall₂.cons (hn.mono (Nat.le_max_left n m))
        (hm.imp fun r t hrt => hrt.mono (Nat.le_max_right n m))⟩

/-- `Translates` is closed under `Unfolds` in both directions. -/
theorem translates_iff {ctx : R → LlvmType R} {r : R} {t : IrType} :
    Translates ctx r t ↔ Unfolds (Translates ctx) (ctx r) t := by
  constructor
  · rintro ⟨n, hn⟩
    cases n with
    | zero => exact hn.elim
    | succ n => exact Unfolds.imp (fun r t hr => ⟨n, hr⟩) hn
  · intro h
    suffices ∃ n, Unfolds (TranslatesIn ctx n) (ctx r) t by
      obtain ⟨n, hn⟩ := this
      exact ⟨n + 1, hn⟩
    cases hty : ctx r with
    | array element length =>
        rw [hty] at h
        obtain ⟨e, ⟨n, hn⟩, rfl⟩ := h
        exact ⟨n, e, hn, rfl⟩
    | vector element size =>
        rw [hty] at h
        obtain ⟨e, ⟨n, hn⟩, rfl⟩ := h
        exact ⟨n, e, hn, rfl⟩
    | struct s =>
        rw [hty] at h
        cases hname : s.structName with
        | some name =>
            simp only [Unfolds, hname] at h ⊢
            exact ⟨0, h⟩
        | none =>
            simp only [Unfolds, hname] at h ⊢
            obtain ⟨elements, ts, hs, hts, rfl⟩ := h
            obtain ⟨n, hn⟩ := translatesIn_of_forall₂ hts
            exact ⟨n, elements, ts, hs, hn, rfl⟩
    | _ =>
        rw [hty] at h
        exact ⟨0, h⟩

theorem TranslatesIn.unique {ctx : R → LlvmType R} {n : Nat} {r : R} {t t' : IrType}
    (h : TranslatesIn ctx n r t) (h' : TranslatesIn ctx n r t') : t = t' := by
  induction n generalizing r t t' with
  | zero => exact h.elim
  | succ n ih =>
      change Unfolds (TranslatesIn ctx n) (ctx r) t at h
      change Unfolds (TranslatesIn ctx n) (ctx r) t' at h'
      cases hty : ctx r with
      | array element length =>
          rw [hty] at h h'
          obtain ⟨e, he, rfl⟩ := h
          obtain ⟨e', he', rfl⟩ := h'
          rw [ih he he']
      | vector element size =>
          rw [hty] at h h'
          obtain ⟨e, he, rfl⟩ := h
          obtain ⟨e', he', rfl⟩ := h'
          rw [ih he he']
      | struct s =>
          rw [hty] at h h'
          cases hname : s.structName with
          | some name =>
              simp only [Unfolds, hname] at h h'
              rw [h, h']
          | none =>
              simp only [Unfolds, hname] at h h'
              obtain ⟨elements, ts, hs, hts, rfl⟩ := h
              obtain ⟨elements', ts', hs', hts', rfl⟩ := h'
              obtain rfl : elements = elements' := Option.some.inj (hs.symm.trans hs')
              have hunique : Relator.RightUnique (TranslatesIn ctx n) :=
                fun r t t' h h' => ih h h'
              rw [List.right_unique_forall₂' hunique hts hts']
      | _ =>
          rw [hty] at h h'
          exact Eq.trans h (Eq.symm h')

theorem Translates.unique {ctx : R → LlvmType R} {r : R} {t t' : IrType}
    (h : Translates ctx r t) (h' : Translates ctx r t') : t = t' := by
  obtain ⟨n, hn⟩ := h
  obtain ⟨m, hm⟩ := h'
  exact (hn.mono (Nat.le_max_left n m)).unique (hm.mono (Nat.le_max_right n m))

-- ── The state between two steps ──────────────────────────────────────────────────

/-- The names that have a definition. -/
def TypesBuilder.definedNames (b : TypesBuilder R) : List String := b.namedStructDefs.map Prod.fst

/-- The definition is the body of a struct of that name. -/
def IsDefinition (ctx : R → LlvmType R) (name : String) (d : NamedStructDef) : Prop :=
  ∃ r s, ctx r = .struct s ∧ s.structName = some name ∧ IsBody ctx s d

/-- What is known of an answer: it is the translation, and its names have been entered. -/
structure Known (ctx : R → LlvmType R) (r : R) (t : IrType) (b : TypesBuilder R) : Prop where
  translates : Translates ctx r t
  names      : byValue t ⊆ b.namedStructTypes

/-- The builder while the bodies of the structs named in `pending` are being loaded. -/
structure Inv (ctx : R → LlvmType R) (pending : List String) (b : TypesBuilder R) : Prop where
  memo    : ∀ r t, b.llvmTypeMap r = some t → Known ctx r t b
  entered : ∀ name, name ∈ b.namedStructTypes ↔ name ∈ pending ∨ name ∈ b.definedNames
  apart   : ∀ name ∈ pending, name ∉ b.definedNames
  nodup   : b.definedNames.Nodup
  defs    : ∀ name d, (name, d) ∈ b.namedStructDefs →
    IsDefinition ctx name d ∧ namesIn d ⊆ b.namedStructTypes

/-- Nothing is forgotten: names stay entered, definitions stay as they are. -/
structure Grows (b b' : TypesBuilder R) : Prop where
  names : b.namedStructTypes ⊆ b'.namedStructTypes
  defs  : b.namedStructDefs ⊆ b'.namedStructDefs

theorem Grows.refl (b : TypesBuilder R) : Grows b b :=
  ⟨List.Subset.refl _, List.Subset.refl _⟩

theorem Grows.trans {b b' b'' : TypesBuilder R} (h : Grows b b') (h' : Grows b' b'') :
    Grows b b'' :=
  ⟨List.Subset.trans h.names h'.names, List.Subset.trans h.defs h'.defs⟩

theorem Known.grows {ctx : R → LlvmType R} {r : R} {t : IrType} {b b' : TypesBuilder R}
    (h : Known ctx r t b) (hle : Grows b b') : Known ctx r t b' :=
  ⟨h.translates, List.Subset.trans h.names hle.names⟩

theorem inv_new (ctx : R → LlvmType R) : Inv ctx [] TypesBuilder.new where
  memo := fun r t h => by cases h
  entered := fun name => by simp [TypesBuilder.new, TypesBuilder.definedNames]
  apart := fun name h => by cases h
  nodup := List.nodup_nil
  defs := fun name d h => by cases h

/-- Remembering an answer. -/
theorem Inv.remember [DecidableEq R] {ctx : R → LlvmType R} {pending : List String}
    {b : TypesBuilder R} (h : Inv ctx pending b) {r : R} {t : IrType} (ht : Known ctx r t b) :
    Inv ctx pending
      { b with llvmTypeMap := Function.update b.llvmTypeMap r (some t) } where
  memo := by
    intro r' t' hr'
    change Function.update b.llvmTypeMap r (some t) r' = some t' at hr'
    by_cases hr : r' = r
    · subst hr
      rw [Function.update_self] at hr'
      obtain rfl := Option.some.inj hr'
      exact ⟨ht.translates, ht.names⟩
    · rw [Function.update_of_ne hr] at hr'
      exact ⟨(h.memo r' t' hr').translates, (h.memo r' t' hr').names⟩
  entered := h.entered
  apart := h.apart
  nodup := h.nodup
  defs := h.defs

/-- Entering a new name, whose body comes next. -/
theorem Inv.enter {ctx : R → LlvmType R} {pending : List String} {b : TypesBuilder R}
    (h : Inv ctx pending b) {name : String} (hname : name ∉ b.namedStructTypes) :
    Inv ctx (name :: pending)
      { b with namedStructTypes := b.namedStructTypes.insert name } where
  memo := fun r t hr => ⟨(h.memo r t hr).translates,
    List.Subset.trans (h.memo r t hr).names (List.subset_insert name _)⟩
  entered := fun other => by
    rw [show other ∈ b.namedStructTypes.insert name ↔ _ from List.mem_insert_iff, h.entered other,
      List.mem_cons, or_assoc]
    rfl
  apart := fun other hother => by
    rcases List.mem_cons.mp hother with rfl | hpending
    · exact fun hdef => hname ((h.entered other).mpr (Or.inr hdef))
    · exact h.apart other hpending
  nodup := h.nodup
  defs := fun other d hd => ⟨(h.defs other d hd).1,
    List.Subset.trans (h.defs other d hd).2 (List.subset_insert name _)⟩

/-- Recording the definition of the struct that was entered last. -/
theorem Inv.define {ctx : R → LlvmType R} {pending : List String} {name : String}
    {b : TypesBuilder R} (h : Inv ctx (name :: pending) b) (hfresh : name ∉ pending)
    {d : NamedStructDef} (hd : IsDefinition ctx name d) (hnames : namesIn d ⊆ b.namedStructTypes) :
    Inv ctx pending { b with namedStructDefs := (name, d) :: b.namedStructDefs } where
  memo := fun r t hr => ⟨(h.memo r t hr).translates, (h.memo r t hr).names⟩
  entered := fun other => by
    rw [show other ∈ b.namedStructTypes ↔ _ from h.entered other, List.mem_cons,
      or_right_comm, or_comm (b := other ∈ pending), ← List.mem_cons]
    rfl
  apart := fun other hother => by
    show other ∉ name :: b.definedNames
    rw [List.mem_cons, not_or]
    exact ⟨fun heq => hfresh (heq ▸ hother), h.apart other (List.mem_cons_of_mem name hother)⟩
  nodup := List.nodup_cons.mpr ⟨h.apart name List.mem_cons_self, h.nodup⟩
  defs := fun other d' hd' => by
    rcases List.mem_cons.mp hd' with heq | hold
    · cases heq
      exact ⟨hd, hnames⟩
    · exact h.defs other d' hold

theorem byValueList_known {ctx : R → LlvmType R} {b : TypesBuilder R} {rs : List R}
    {ts : List IrType} (h : List.Forall₂ (fun r t => Known ctx r t b) rs ts) :
    byValueList ts ⊆ b.namedStructTypes := by
  induction h with
  | nil => exact List.nil_subset _
  | cons hr _ ih => exact List.append_subset.mpr ⟨hr.names, ih⟩

/-- A definition is added when the name has none. -/
theorem addNamedStructDef_run {name : String} {b : TypesBuilder R} (d : NamedStructDef)
    (h : name ∉ b.definedNames) :
    addNamedStructDef name d b =
      .ok ((), { b with namedStructDefs := (name, d) :: b.namedStructDefs }) := by
  show (if name ∈ b.definedNames then throw (Stop.panicked .redefinition)
    else set { b with namedStructDefs := (name, d) :: b.namedStructDefs } : Build R Unit) b = _
  rw [if_neg h]
  rfl

-- ── How deep the recursion goes ──────────────────────────────────────────────────

/-- One reference refers to the other. -/
def Child (ctx : R → LlvmType R) (r r' : R) : Prop := r' ∈ (ctx r).children

theorem child_of_element {ctx : R → LlvmType R} {r r' : R} {s : LlvmStruct R} {elements : List R}
    (hr : ctx r = .struct s) (hs : s.elements = some elements) (hr' : r' ∈ elements) :
    Child ctx r r' := by
  show r' ∈ (ctx r).children
  rw [hr]
  show r' ∈ s.elements.getD []
  rw [hs]
  exact hr'

/-- The same through a type that is not a named struct. -/
def UnnamedChild (ctx : R → LlvmType R) (r r' : R) : Prop :=
  (ctx r).structName = none ∧ Child ctx r r'

/-- A rank that falls at every unnamed type, and its maximum. -/
structure Ranked (ctx : R → LlvmType R) (rank : R → Nat) (depth : Nat) : Prop where
  le : ∀ r, rank r ≤ depth
  lt : ∀ r r', UnnamedChild ctx r r' → rank r' < rank r

/-- An opaque struct without a name. -/
def UnnamedOpaque (ctx : R → LlvmType R) (r : R) : Prop :=
  ∃ s, ctx r = .struct s ∧ s.structName = none ∧ s.elements = none

/-- Why a call for `r` that may nest `fuel` calls and has `n` structs still to enter stops: it
    was not allowed the depth it needs, or it met an opaque struct without a name. -/
def Stops (ctx : R → LlvmType R) (fuel n : Nat) (r : R) : Stop → Prop
  | .outOfFuel => ∀ rank depth, Ranked ctx rank depth → fuel ≤ rank r + n * (depth + 1)
  | .panicked p => p = .opaqueBody ∧
      ∃ r', Relation.ReflTransGen (Child ctx) r r' ∧ UnnamedOpaque ctx r'

/-- A stop inside an unnamed type. -/
theorem Stops.unnamed {ctx : R → LlvmType R} {fuel n : Nat} {r r' : R} {e : Stop}
    (hr : UnnamedChild ctx r r') (h : Stops ctx fuel n r' e) : Stops ctx (fuel + 1) n r e := by
  cases e with
  | outOfFuel =>
      intro rank depth hrank
      have hle := h rank depth hrank
      have hlt := hrank.lt r r' hr
      omega
  | panicked p =>
      obtain ⟨hp, r'', hreach, hbad⟩ := h
      exact ⟨hp, r'', Relation.ReflTransGen.head hr.2 hreach, hbad⟩

/-- A stop inside the body of a struct that was just entered. -/
theorem Stops.named {ctx : R → LlvmType R} {fuel n : Nat} {r r' : R} {e : Stop}
    (hr : Child ctx r r') (h : Stops ctx fuel n r' e) : Stops ctx (fuel + 1) (n + 1) r e := by
  cases e with
  | outOfFuel =>
      intro rank depth hrank
      have hle := h rank depth hrank
      have hdepth := hrank.le r'
      rw [Nat.succ_mul]
      omega
  | panicked p =>
      obtain ⟨hp, r'', hreach, hbad⟩ := h
      exact ⟨hp, r'', Relation.ReflTransGen.head hr hreach, hbad⟩

variable [Fintype R]

/-- The named structs whose name has not been entered. -/
def unentered (ctx : R → LlvmType R) (b : TypesBuilder R) : Finset R :=
  Finset.univ.filter fun r =>
    (ctx r).structName.any (fun name => decide (name ∉ b.namedStructTypes)) = true

theorem mem_unentered {ctx : R → LlvmType R} {b : TypesBuilder R} {r : R} :
    r ∈ unentered ctx b ↔ ∃ name, (ctx r).structName = some name ∧ name ∉ b.namedStructTypes := by
  simp [unentered, Option.any_eq_true]

theorem unentered_subset {ctx : R → LlvmType R} {b b' : TypesBuilder R}
    (h : b.namedStructTypes ⊆ b'.namedStructTypes) : unentered ctx b' ⊆ unentered ctx b := by
  intro r hr
  obtain ⟨name, hname, hnot⟩ := mem_unentered.mp hr
  exact mem_unentered.mpr ⟨name, hname, fun hin => hnot (h hin)⟩

/-- Entering a name takes its structs off the list. -/
theorem card_unentered_lt {ctx : R → LlvmType R} {b b' : TypesBuilder R} {r : R} {name : String}
    (hr : (ctx r).structName = some name) (hname : name ∉ b.namedStructTypes)
    (h : b.namedStructTypes ⊆ b'.namedStructTypes) (hname' : name ∈ b'.namedStructTypes) :
    (unentered ctx b').card < (unentered ctx b).card := by
  refine Finset.card_lt_card ⟨unentered_subset h, ?_⟩
  intro hsub
  obtain ⟨other, hother, hnot⟩ := mem_unentered.mp (hsub (mem_unentered.mpr ⟨name, hr, hname⟩))
  obtain rfl : name = other := Option.some.inj (hr.symm.trans hother)
  exact hnot hname'

/-- The state a call may start from. -/
structure Ready (ctx : R → LlvmType R) (pending : List String) (n : Nat) (b : TypesBuilder R) :
    Prop where
  inv  : Inv ctx pending b
  card : (unentered ctx b).card ≤ n

/-- What a call for `r` leaves behind. -/
structure Loaded (ctx : R → LlvmType R) (pending : List String) (n : Nat) (r : R)
    (b : TypesBuilder R) (t : IrType) (b' : TypesBuilder R) : Prop where
  ready : Ready ctx pending n b'
  grows : Grows b b'
  known : Known ctx r t b'

theorem Ready.grows {ctx : R → LlvmType R} {pending pending' : List String} {n : Nat}
    {b b' : TypesBuilder R} (h : Ready ctx pending n b) (hle : Grows b b')
    (hinv : Inv ctx pending' b') : Ready ctx pending' n b' :=
  ⟨hinv, Nat.le_trans (Finset.card_le_card (unentered_subset hle.names)) h.card⟩

-- ── One call ─────────────────────────────────────────────────────────────────────

section Step

variable {ctx : R → LlvmType R} {fuel : Nat} {typeOf : R → Build R IrType}
  (hrec : ∀ r pending n, Meets (Ready ctx pending n) (typeOf r) (Loaded ctx pending n r)
    (Stops ctx fuel n r))
include hrec

/-- The elements of a struct, or the parameters of a function. -/
theorem meets_elements (elements : List R) (pending : List String) (n : Nat) :
    Meets (Ready ctx pending n) (elements.mapM typeOf)
      (fun b ts b' => Ready ctx pending n b' ∧ Grows b b' ∧
        List.Forall₂ (fun r t => Known ctx r t b') elements ts)
      (fun e => ∃ r ∈ elements, Stops ctx fuel n r e) := by
  refine meets_mapM Grows.refl (fun b b' b'' => Grows.trans)
    (fun r t b b' hle ht => ht.grows hle) elements ?_
  intro r hr
  exact (hrec r pending n).imp (fun b hb => hb)
    (fun b t b' _ ht => ⟨ht.ready, ht.grows, ht.known⟩) (fun e he => ⟨r, hr, he⟩)

theorem meets_structType {s : LlvmStruct R} {elements : List R} (hs : s.elements = some elements)
    (pending : List String) (n : Nat) :
    Meets (Ready ctx pending n) (structTypeFromLlvmRef typeOf s)
      (fun b t b' => Ready ctx pending n b' ∧ Grows b b' ∧ ∃ ts,
        List.Forall₂ (fun r t => Known ctx r t b') elements ts ∧ t = .structType ts s.isPacked)
      (fun e => ∃ r ∈ elements, Stops ctx fuel n r e) := by
  simp only [structTypeFromLlvmRef, hs]
  refine meets_bind (meets_elements hrec elements pending n) ?_
  intro b _ ts
  refine meets_pure ?_
  rintro b' ⟨hready, hgrows, hts⟩
  exact ⟨hready, hgrows, ts, hts, rfl⟩

/-- An unnamed struct. -/
theorem meets_unnamed {r : R} {s : LlvmStruct R} (hr : ctx r = .struct s)
    (hname : s.structName = none) (pending : List String) (n : Nat) :
    Meets (Ready ctx pending n) (structTypeFromLlvmRef typeOf s) (Loaded ctx pending n r)
      (Stops ctx (fuel + 1) n r) := by
  have hunnamed : (ctx r).structName = none := by rw [hr]; exact hname
  cases hs : s.elements with
  | none =>
      simp only [structTypeFromLlvmRef, hs]
      exact meets_throw fun b _ => ⟨rfl, r, Relation.ReflTransGen.refl, s, hr, hname, hs⟩
  | some elements =>
      refine (meets_structType hrec hs pending n).imp (fun b hb => hb) ?_ ?_
      · rintro b t b' - ⟨hready, hgrows, ts, hts, rfl⟩
        refine ⟨hready, hgrows, ?_, byValueList_known hts⟩
        rw [translates_iff, hr]
        simp only [Unfolds, hname]
        exact ⟨elements, ts, hs, hts.imp fun _ _ h => h.translates, rfl⟩
      · rintro e ⟨r', hr', he⟩
        exact he.unnamed ⟨hunnamed, child_of_element hr hs hr'⟩

/-- The body of a struct that was just entered is loaded and recorded. -/
theorem meets_body {r : R} {s : LlvmStruct R} {name : String} {elements : List R}
    (hr : ctx r = .struct s) (hname : s.structName = some name)
    (hs : s.elements = some elements) {pending : List String} (hpending : name ∉ pending)
    (k : Nat) (t : IrType) :
    Meets (Ready ctx (name :: pending) k)
      (do
        let actualStructType ← structTypeFromLlvmRef typeOf s
        addNamedStructDef name (.defined actualStructType)
        pure t)
      (fun b t' b' => t' = t ∧ Ready ctx pending k b' ∧ Grows b b')
      (Stops ctx (fuel + 1) (k + 1) r) := by
  have hstruct := meets_structType hrec hs (name :: pending) k
  refine meets_bind (hstruct.imp (fun b hb => hb) (fun b t b' _ h => h) ?_) ?_
  · rintro e ⟨r', hr', he⟩
    exact he.named (child_of_element hr hs hr')
  · rintro b - body b' ⟨hready, hgrows, ts, hts, rfl⟩
    have hdefined : IsDefinition ctx name (.defined (.structType ts s.isPacked)) := by
      refine ⟨r, s, hr, hname, ?_⟩
      simp only [IsBody, hs]
      exact ⟨ts, hts.imp fun _ _ h => h.translates, rfl⟩
    have hinv := hready.inv.define hpending hdefined (byValueList_known hts)
    have hrun := addNamedStructDef_run (.defined (.structType ts s.isPacked))
      (hready.inv.apart name List.mem_cons_self)
    rw [show ((addNamedStructDef name (.defined (.structType ts s.isPacked)) >>=
        fun _ => pure t : Build R IrType)) b' =
        (addNamedStructDef name (.defined (.structType ts s.isPacked)) b' >>=
          fun p => (pure t : Build R IrType) p.2) from rfl, hrun]
    have hle : Grows b' { b' with namedStructDefs :=
        (name, .defined (.structType ts s.isPacked)) :: b'.namedStructDefs } :=
      ⟨List.Subset.refl _, List.subset_cons_self _ _⟩
    exact ⟨rfl, hready.grows hle hinv, hgrows.trans hle⟩

/-- A named struct: a name that was entered is enough, a new one is entered, loaded and
    defined. -/
theorem meets_named {r : R} {s : LlvmStruct R} {name : String} (hr : ctx r = .struct s)
    (hname : s.structName = some name) (pending : List String) (n : Nat) :
    Meets (Ready ctx pending n) (namedStructFromLlvmRef typeOf s name) (Loaded ctx pending n r)
      (Stops ctx (fuel + 1) n r) := by
  have hnamed : (ctx r).structName = some name := by rw [hr]; exact hname
  have htranslates : Translates ctx r (.namedStructType name) := by
    rw [translates_iff, hr]
    simp only [Unfolds, hname]
  refine meets_get_bind ?_
  intro b hready
  by_cases hin : name ∈ b.namedStructTypes
  · rw [if_pos hin]
    rintro b' rfl
    have hsame : b'.namedStructTypes.insert name = b'.namedStructTypes :=
      List.insert_of_mem hin
    show Loaded ctx pending n r b' (.namedStructType name)
      { b' with namedStructTypes := b'.namedStructTypes.insert name }
    rw [hsame]
    exact ⟨hready, Grows.refl b', htranslates, List.cons_subset.mpr ⟨hin, List.nil_subset _⟩⟩
  · rw [if_neg hin]
    have hpending : name ∉ pending := fun h => hin ((hready.inv.entered name).mpr (Or.inl h))
    have henter := hready.inv.enter hin
    have hgrows : Grows b { b with namedStructTypes := b.namedStructTypes.insert name } :=
      ⟨List.subset_insert name _, List.Subset.refl _⟩
    cases hs : s.elements with
    | none =>
        rintro b' rfl
        have hdefined : IsDefinition ctx name .opaqueDef :=
          ⟨r, s, hr, hname, by simp only [IsBody, hs]⟩
        have hinv := henter.define hpending hdefined (List.nil_subset _)
        have hrun : addNamedStructDef name .opaqueDef b' = _ :=
          addNamedStructDef_run .opaqueDef (henter.apart name List.mem_cons_self)
        have hle : Grows b' ⟨b'.namedStructTypes.insert name,
            (name, .opaqueDef) :: b'.namedStructDefs, b'.llvmTypeMap⟩ :=
          ⟨List.subset_insert name _, List.subset_cons_self _ _⟩
        simp only
        rw [show ((addNamedStructDef name .opaqueDef >>= fun _ => namedStruct name :
            Build R IrType)) b' = (addNamedStructDef name .opaqueDef b' >>=
              fun p => namedStruct name p.2) from rfl, hrun]
        exact ⟨hready.grows hle hinv, hle, htranslates,
          List.cons_subset.mpr ⟨List.mem_insert_self, List.nil_subset _⟩⟩
    | some elements =>
        obtain ⟨k, rfl⟩ : ∃ k, n = k + 1 := by
          have hpos := Finset.card_pos.mpr ⟨r, mem_unentered.mpr ⟨name, hnamed, hin⟩⟩
          exact ⟨n - 1, by have := hready.card; omega⟩
        have hbody : Ready ctx (name :: pending) k
            { b with namedStructTypes := b.namedStructTypes.insert name } := by
          refine ⟨henter, Nat.le_of_lt_succ (Nat.lt_of_lt_of_le ?_ hready.card)⟩
          exact card_unentered_lt hnamed hin hgrows.names List.mem_insert_self
        refine meets_bind (R := fun _ t b₁ => t = .namedStructType name ∧
          b₁ = { b with namedStructTypes := b.namedStructTypes.insert name }) ?_ ?_
        · rintro b' rfl
          exact ⟨rfl, rfl⟩
        · rintro b' rfl t
          refine (meets_body hrec hr hname hs hpending k t).imp ?_ ?_ (fun e he => he)
          · rintro b₁ ⟨-, rfl⟩
            exact hbody
          · rintro b₁ t' b₂ ⟨rfl, rfl⟩ ⟨rfl, hready', hgrows'⟩
            have hkept := hgrows'.names List.mem_insert_self
            exact ⟨⟨hready'.inv, Nat.le_succ_of_le hready'.card⟩, hgrows.trans hgrows',
              htranslates, List.cons_subset.mpr ⟨hkept, List.nil_subset _⟩⟩

/-- The whole of `parse_type_from_llvm_ref`. -/
theorem meets_parse (r : R) (pending : List String) (n : Nat) :
    Meets (Ready ctx pending n) (parseTypeFromLlvmRef typeOf (ctx r)) (Loaded ctx pending n r)
      (Stops ctx (fuel + 1) n r) := by
  -- a type without components is its own constructor and has no names
  have hleaf : ∀ t, Unfolds (Translates ctx) (ctx r) t → byValue t = [] →
      Meets (Ready ctx pending n) (pure t) (Loaded ctx pending n r) (Stops ctx (fuel + 1) n r) := by
    intro t ht hnames
    refine meets_pure fun b hready => ⟨hready, Grows.refl b, translates_iff.mpr ht, ?_⟩
    rw [hnames]
    exact List.nil_subset _
  have hchild : ∀ r' ∈ (ctx r).children, (ctx r).structName = none →
      Meets (Ready ctx pending n) (typeOf r') (Loaded ctx pending n r')
        (Stops ctx (fuel + 1) n r) := fun r' hr' hunnamed =>
    (hrec r' pending n).imp (fun b hb => hb) (fun b t b' _ h => h)
      (fun e he => he.unnamed ⟨hunnamed, hr'⟩)
  cases hty : ctx r with
  | array element length =>
      rw [hty] at hchild
      refine meets_bind (hchild element List.mem_cons_self rfl) ?_
      intro b _ t
      refine meets_pure fun b' h => ⟨h.ready, h.grows, ?_, h.known.names⟩
      rw [translates_iff, hty]
      exact ⟨t, h.known.translates, rfl⟩
  | vector element size =>
      rw [hty] at hchild
      refine meets_bind (hchild element List.mem_cons_self rfl) ?_
      intro b _ t
      refine meets_pure fun b' h => ⟨h.ready, h.grows, ?_, List.nil_subset _⟩
      rw [translates_iff, hty]
      exact ⟨t, h.known.translates, rfl⟩
  | struct s =>
      cases hname : s.structName with
      | some name =>
          simp only [parseTypeFromLlvmRef, hname]
          exact meets_named hrec hty hname pending n
      | none =>
          simp only [parseTypeFromLlvmRef, hname]
          exact meets_unnamed hrec hty hname pending n
  | function result params =>
      rw [hty] at hchild
      have hunnamed : (ctx r).structName = none := by rw [hty]; rfl
      refine meets_bind (hchild result List.mem_cons_self rfl) ?_
      intro b _ t
      have hparams : Meets (Loaded ctx pending n result b t) (params.mapM typeOf)
          (fun _ _ b'' => Ready ctx pending n b'' ∧ Grows b b'') (Stops ctx (fuel + 1) n r) := by
        refine (meets_elements hrec params pending n).imp (fun b' h => h.ready)
          (fun b' ts b'' h h' => ⟨h'.1, h.grows.trans h'.2.1⟩) ?_
        rintro e ⟨r', hr', he⟩
        refine he.unnamed ⟨hunnamed, ?_⟩
        rw [Child, hty]
        exact List.mem_cons_of_mem result hr'
      refine meets_bind hparams ?_
      intro b' _ ts
      refine meets_pure fun b'' h => ⟨h.1, h.2, ?_, List.nil_subset _⟩
      rw [translates_iff, hty]
      rfl
  | _ =>
      rw [hty] at hleaf
      exact hleaf _ rfl rfl

end Step

/-- **One call**: from any state between two steps of the loader a call returns the plain
    translation and leaves such a state, stops at an opaque struct without a name, or was
    allowed less depth than the types need. -/
theorem typeFromLlvmRef_meets [DecidableEq R] (ctx : R → LlvmType R) (fuel : Nat) (r : R)
    (pending : List String) (n : Nat) :
    Meets (Ready ctx pending n) (typeFromLlvmRef ctx fuel r) (Loaded ctx pending n r)
      (Stops ctx fuel n r) := by
  induction fuel generalizing r pending n with
  | zero => exact meets_throw fun b _ rank depth _ => Nat.zero_le _
  | succ fuel ih =>
      refine meets_get_bind ?_
      intro b hready
      cases hmemo : b.llvmTypeMap r with
      | some t =>
          rintro b' rfl
          exact ⟨hready, Grows.refl b', hready.inv.memo r t hmemo⟩
      | none =>
          have hparse : Meets (· = b) _ (Loaded ctx pending n r) (Stops ctx (fuel + 1) n r) :=
            (meets_parse ih r pending n).imp (fun b' h => h ▸ hready) (fun b' t b'' _ h => h)
              (fun e he => he)
          refine meets_bind hparse ?_
          intro b' _ t
          refine meets_bind (R := fun _ _ b₁ => Loaded ctx pending n r b' t b₁) ?_ ?_
          · refine meets_modify fun b₁ h => ?_
            have hinv := h.ready.inv.remember h.known
            exact ⟨⟨hinv, h.ready.card⟩, ⟨h.grows.names, h.grows.defs⟩,
              ⟨h.known.translates, h.known.names⟩⟩
          · rintro b₁ - ⟨⟩
            exact meets_pure fun b₂ h => h

-- ── A module's types ─────────────────────────────────────────────────────────────

/-- A finished table: each definition is that of a struct of its name, no name has two, and
    every name in a definition or in one of the types has one. -/
structure Complete (ctx : R → LlvmType R) (ts : List IrType) (b : TypesBuilder R) : Prop where
  nodup  : b.definedNames.Nodup
  defs   : ∀ name d, (name, d) ∈ b.namedStructDefs → IsDefinition ctx name d
  closed : ∀ name d, (name, d) ∈ b.namedStructDefs → namesIn d ⊆ b.definedNames
  names  : byValueList ts ⊆ b.definedNames

theorem ready_new (ctx : R → LlvmType R) : Ready ctx [] (Fintype.card R) TypesBuilder.new :=
  ⟨inv_new ctx, Finset.card_le_univ _⟩

/-- Between two calls no struct is pending, so every name that was entered is defined. -/
theorem Ready.complete {ctx : R → LlvmType R} {n : Nat} {b : TypesBuilder R}
    (h : Ready ctx [] n b) {rs : List R} {ts : List IrType}
    (hts : List.Forall₂ (fun r t => Known ctx r t b) rs ts) : Complete ctx ts b := by
  have hdefined : b.namedStructTypes ⊆ b.definedNames := by
    intro name hname
    exact ((h.inv.entered name).mp hname).resolve_left List.not_mem_nil
  exact ⟨h.inv.nodup, fun name d hd => (h.inv.defs name d hd).1,
    fun name d hd => List.Subset.trans (h.inv.defs name d hd).2 hdefined,
    List.Subset.trans (byValueList_known hts) hdefined⟩

variable [DecidableEq R]

theorem loadTypes_meets (ctx : R → LlvmType R) (fuel : Nat) (tys : List R) :
    Meets (Ready ctx [] (Fintype.card R)) (loadTypes ctx fuel tys)
      (fun _ ts b => List.Forall₂ (Translates ctx) tys ts ∧ Complete ctx ts b)
      (fun e => ∃ r ∈ tys, Stops ctx fuel (Fintype.card R) r e) :=
  (meets_elements (typeFromLlvmRef_meets ctx fuel) tys [] (Fintype.card R)).imp
    (fun _ hb => hb)
    (fun _ _ _ _ h => ⟨h.2.2.imp fun _ _ hk => hk.translates, h.1.complete h.2.2⟩)
    (fun _ he => he)

/-- **The loader is sound**, for every context and every sequence of references.  What it
    returns are the plain translations and a complete table; it never defines a struct twice,
    and panics at an opaque struct without a name only. -/
theorem loadTypes_sound (ctx : R → LlvmType R) (fuel : Nat) (tys : List R) :
    match loadTypes ctx fuel tys TypesBuilder.new with
    | .ok (ts, b) => List.Forall₂ (Translates ctx) tys ts ∧ Complete ctx ts b
    | .error (.panicked p) => p = .opaqueBody ∧ ∃ r ∈ tys, ∃ r',
        Relation.ReflTransGen (Child ctx) r r' ∧ UnnamedOpaque ctx r'
    | .error .outOfFuel => True := by
  have h := loadTypes_meets ctx fuel tys TypesBuilder.new (ready_new ctx)
  cases hrun : loadTypes ctx fuel tys TypesBuilder.new with
  | ok p =>
      rw [hrun] at h
      exact h
  | error e =>
      rw [hrun] at h
      cases e with
      | outOfFuel => trivial
      | panicked p =>
          obtain ⟨r, hr, hp, r', hreach, hbad⟩ := h
          exact ⟨hp, r, hr, r', hreach, hbad⟩

/-- With a rank the loader returns: below one named struct it nests `depth` calls at most, and
    it enters each named struct once. -/
theorem loadTypes_ok {ctx : R → LlvmType R} {rank : R → Nat} {depth fuel : Nat}
    (hrank : Ranked ctx rank depth) (hnamed : ∀ r, ¬ UnnamedOpaque ctx r)
    (hfuel : depth + Fintype.card R * (depth + 1) < fuel) (tys : List R) :
    ∃ ts b, loadTypes ctx fuel tys TypesBuilder.new = .ok (ts, b) ∧
      List.Forall₂ (Translates ctx) tys ts ∧ Complete ctx ts b := by
  have hmeets := loadTypes_meets ctx fuel tys
  cases hrun : loadTypes ctx fuel tys TypesBuilder.new with
  | ok p => exact ⟨p.1, p.2, rfl, hmeets.ok (ready_new ctx) hrun⟩
  | error e =>
      exfalso
      obtain ⟨r, -, hstop⟩ := hmeets.error (ready_new ctx) hrun
      cases e with
      | outOfFuel =>
          have hdeep := hstop rank depth hrank
          have hr := hrank.le r
          omega
      | panicked p =>
          obtain ⟨-, r', -, hbad⟩ := hstop
          exact hnamed r' hbad

/-- **The loader returns** on every sequence of references when no unnamed type contains itself
    and every opaque struct has a name.  Named structs may contain themselves.  It never nests
    more calls than the square of the number of types, plus one. -/
theorem loadTypes_returns (ctx : R → LlvmType R)
    (hacyclic : ∀ r, ¬ Relation.TransGen (UnnamedChild ctx) r r)
    (hnamed : ∀ r, ¬ UnnamedOpaque ctx r) (tys : List R) :
    ∃ ts b, loadTypes ctx ((Fintype.card R + 1) * (Fintype.card R + 1)) tys TypesBuilder.new =
        .ok (ts, b) ∧
      List.Forall₂ (Translates ctx) tys ts ∧ Complete ctx ts b := by
  obtain ⟨rank, hle, hlt⟩ := exists_rank hacyclic
  refine loadTypes_ok ⟨hle, hlt⟩ hnamed ?_ tys
  rw [Nat.succ_mul, Nat.add_comm (Fintype.card R)]
  omega

/-- `%node = type { i64, [0 x %node], ptr }` and the array in it. -/
def nodeCtx : Fin 4 → LlvmType (Fin 4)
  | 0 => .struct ⟨false, some "node", some [1, 2, 3], false⟩
  | 1 => .integer 64
  | 2 => .array 0 0
  | 3 => .pointer

theorem nodeCtx_loads :
    ∃ ts b, loadTypes nodeCtx ((Fintype.card (Fin 4) + 1) * (Fintype.card (Fin 4) + 1)) [2, 0]
        TypesBuilder.new = .ok (ts, b) ∧
      List.Forall₂ (Translates nodeCtx) [2, 0] ts ∧ Complete nodeCtx ts b := by
  refine loadTypes_returns nodeCtx ?_ ?_ [2, 0]
  · refine not_transGen_of_rank (fun r => if r = 2 then 1 else 0) ?_
    have hlt : ∀ a b : Fin 4, (nodeCtx a).structName = none ∧ b ∈ (nodeCtx a).children →
        (if b = 2 then 1 else 0) < (if a = 2 then 1 else 0) := by decide
    exact hlt
  · rintro r ⟨s, hs, -, hnone⟩
    fin_cases r
    · cases hs
      cases hnone
    all_goals cases hs

end SkvTypesBuilder

import SentinelKv.DefTableProofs
import SentinelKv.SkvSizeProofs

/-!
# `type_size` returns

`resolve_named_type` and `type_size` replace a name by its definition, which may be larger than
what they were called on.  What falls instead is the depth of the type together with the
definitions that have not been entered yet: on a table in which no struct contains itself by
value none is entered twice on the way down, so `typeFuel` is deep enough.

* **`resolveNamedType_returns`**, **`typeSizeFuel_returns`** — the two functions return within
  that depth;
* **`typeSizeFuel_none_of_unresolved`** — a name without a definition anywhere inside leaves no
  size, whether or not the table is acyclic;
* **`typeSize_terminates`** — both together;
* **`self_containing_never_returns`** — a struct that starts with itself is never sized.
-/

namespace SkvTermination

open DefTable SkvIr SkvTypeSize SkvSize

-- ── Containment by value ─────────────────────────────────────────────────────────

mutual

/-- The names that occur in a type by value: through struct fields and array elements, not
    through pointers. -/
def byValue : IrType → List String
  | .arrayType elementType _ => byValue elementType
  | .structType elementTypes _ => byValueList elementTypes
  | .namedStructType name => [name]
  | _ => []

def byValueList : List IrType → List String
  | [] => []
  | ty :: tys => byValue ty ++ byValueList tys

end

/-- The names in a definition. -/
def namesIn : NamedStructDef → List String
  | .opaqueDef => []
  | .defined ty => byValue ty

/-- No named struct contains itself by value. -/
def AcyclicStructs (m : Module) : Prop := Acyclic m.namedStructs namesIn

/-- The type contains the name by value, directly or inside the structs it contains. -/
def ContainsByValue (m : Module) (ty : IrType) (name : String) : Prop :=
  Leads m.namedStructs namesIn (byValue ty) name

/-- The name is undefined or opaque. -/
def Unresolved (m : Module) (name : String) : Prop :=
  m.namedStructDef name = none ∨ m.namedStructDef name = some .opaqueDef

theorem byValue_subset {t : IrType} {ts : List IrType} (h : t ∈ ts) :
    ∀ name ∈ byValue t, name ∈ byValueList ts := by
  induction ts with
  | nil => cases h
  | cons t' ts ih =>
      intro name hname
      rw [byValueList, List.mem_append]
      rcases List.mem_cons.mp h with rfl | h
      · exact Or.inl hname
      · exact Or.inr (ih h name hname)

theorem mem_byValueList {name : String} {ts : List IrType} (h : name ∈ byValueList ts) :
    ∃ t ∈ ts, name ∈ byValue t := by
  induction ts with
  | nil => cases h
  | cons t ts ih =>
      rw [byValueList, List.mem_append] at h
      rcases h with h | h
      · exact ⟨t, List.mem_cons_self .., h⟩
      · obtain ⟨t', ht', hname⟩ := ih h
        exact ⟨t', List.mem_cons_of_mem t ht', hname⟩

theorem depth_le_depthList {t : IrType} {ts : List IrType} (h : t ∈ ts) :
    depth t ≤ depthList ts := by
  induction ts with
  | nil => cases h
  | cons t' ts ih =>
      rw [depthList]
      rcases List.mem_cons.mp h with rfl | h
      · exact Nat.le_max_left ..
      · exact Nat.le_trans (ih h) (Nat.le_max_right ..)

-- ── The recursion returns ────────────────────────────────────────────────────────

/-- How far the recursion can still go: down the type, and into every definition that has not
    been entered. -/
def depthLeft (m : Module) (entered : List String) (ty : IrType) : Nat :=
  depth ty + remaining defDepth entered m.namedStructs

theorem depthLeft_namedStructType (m : Module) (entered : List String) (name : String) :
    depthLeft m entered (.namedStructType name) = remaining defDepth entered m.namedStructs + 1 :=
  Nat.add_comm 1 _

theorem depthLeft_arrayType (m : Module) (entered : List String) (t : IrType) (k : UInt64) :
    depthLeft m entered (.arrayType t k) = depthLeft m entered t + 1 :=
  Nat.add_right_comm (depth t) 1 _

theorem depthLeft_lt_structType (m : Module) (entered : List String) {t : IrType}
    {ts : List IrType} (packed : Bool) (h : t ∈ ts) :
    depthLeft m entered t < depthLeft m entered (.structType ts packed) := by
  have hdepth := depth_le_depthList h
  have hstruct : depth (.structType ts packed) = depthList ts + 1 := rfl
  rw [depthLeft, depthLeft, hstruct]
  omega

theorem depthLeft_nil (m : Module) (ty : IrType) : depthLeft m [] ty + 1 = typeFuel m ty := by
  rw [depthLeft, remaining_nil, typeFuel]

section Returns

variable {m : Module} (hacyclic : AcyclicStructs m)

include hacyclic

/-- **Resolution returns**, and leaves a type that the recursion can go on with. -/
theorem resolveNamedType_returns {fuel : Nat} {ty : IrType} {entered : List String}
    (hbelow : Below m.namedStructs namesIn entered (byValue ty))
    (hfuel : depthLeft m entered ty ≤ fuel) :
    resolveNamedType m fuel ty = some none
      ∨ ∃ ty' entered', resolveNamedType m fuel ty = some (some ty')
        ∧ Below m.namedStructs namesIn entered' (byValue ty')
        ∧ depthLeft m entered' ty' ≤ depthLeft m entered ty := by
  induction fuel generalizing ty entered with
  | zero =>
      cases ty with
      | namedStructType name =>
          rw [depthLeft_namedStructType] at hfuel
          omega
      | _ => exact Or.inr ⟨_, entered, rfl, hbelow, Nat.le_refl _⟩
  | succ fuel ih =>
      cases ty with
      | namedStructType name =>
          rw [resolveNamedType]
          rcases hdef : m.namedStructDef name with _ | _ | inner
          · exact Or.inl rfl
          · exact Or.inl rfl
          · -- a name ahead was not entered before, so its definition is still in the budget
            have hname : name ∈ byValue (.namedStructType name) := List.mem_singleton_self name
            have hpaid := remaining_enter defDepth (hbelow.not_mem hacyclic hname) hdef
            have hless : depthLeft m (name :: entered) inner
                < depthLeft m entered (.namedStructType name) := by
              rw [depthLeft_namedStructType, depthLeft]
              rw [defDepth] at hpaid
              omega
            rcases ih (hbelow.enter hname hdef) (by omega) with hnone | ⟨ty', entered', hr, hb, hle⟩
            · exact Or.inl hnone
            · exact Or.inr ⟨ty', entered', hr, hb, Nat.le_trans hle (Nat.le_of_lt hless)⟩
      | _ => exact Or.inr ⟨_, entered, rfl, hbelow, Nat.le_refl _⟩

omit hacyclic in
theorem sumSizes_returns {size : IrType → Option (Option UInt64)} {ts : List IrType}
    (h : ∀ t ∈ ts, ∃ r, size t = some r) (total : UInt64) :
    ∃ r, sumSizes size ts total = some r := by
  induction ts generalizing total with
  | nil => exact ⟨_, rfl⟩
  | cons t ts ih =>
      obtain ⟨r, hr⟩ := h t (List.mem_cons_self ..)
      rw [sumSizes, hr]
      rcases r with _ | n
      · exact ⟨none, rfl⟩
      · simp only
        cases checkedAdd total n with
        | none => exact ⟨none, rfl⟩
        | some total' => exact ih (fun t' ht' => h t' (List.mem_cons_of_mem t ht')) total'

/-- **`type_size` returns** once the fuel exceeds what is left. -/
theorem typeSizeFuel_returns {fuel : Nat} {ty : IrType} {entered : List String}
    (hbelow : Below m.namedStructs namesIn entered (byValue ty))
    (hfuel : depthLeft m entered ty < fuel) : ∃ r, typeSizeFuel m fuel ty = some r := by
  induction fuel generalizing ty entered with
  | zero => cases hfuel
  | succ fuel ih =>
      rw [typeSizeFuel]
      rcases resolveNamedType_returns hacyclic hbelow (Nat.le_of_lt_succ hfuel) with
        hnone | ⟨ty', entered', hr, hbelow', hle⟩
      · exact ⟨none, by rw [hnone]⟩
      · rw [hr]
        cases ty' with
        | arrayType t k =>
            rw [depthLeft_arrayType] at hle
            have hinner : Below m.namedStructs namesIn entered' (byValue t) := hbelow'
            obtain ⟨r, hsize⟩ := ih hinner (by omega)
            simp only [hsize, Option.map_some]
            exact ⟨_, rfl⟩
        | structType ts packed =>
            refine sumSizes_returns (fun t ht => ?_) 0
            have hless := depthLeft_lt_structType m entered' packed ht
            exact ih (hbelow'.mono (byValue_subset ht)) (by omega)
        | _ => exact ⟨_, rfl⟩

end Returns

/-- More fuel keeps what `type_size` returned. -/
theorem typeSizeFuel_mono {m : Module} {fuel fuel' : Nat} (hle : fuel ≤ fuel') {ty : IrType}
    {r : Option UInt64} (h : typeSizeFuel m fuel ty = some r) :
    typeSizeFuel m fuel' ty = some r := by
  have heval : evalFuel wrapMul checkedSum m fuel ty = some (r.map UInt64.toNat) := by
    rw [← typeSizeFuel_toNat, h, Option.map_some]
  have heval' := evalFuel_mono hle heval
  rw [← typeSizeFuel_toNat] at heval'
  obtain ⟨r', hr', heq⟩ := Option.map_eq_some_iff.mp heval'
  have hinj : Function.Injective UInt64.toNat := fun a b => UInt64.toNat_inj.mp
  rw [hr', Option.map_injective hinj heq]

theorem resolveNamedType_mono {m : Module} {fuel fuel' : Nat} (hle : fuel ≤ fuel') {ty : IrType}
    {r : Option IrType} (h : resolveNamedType m fuel ty = some r) :
    resolveNamedType m fuel' ty = some r := by
  induction hle with
  | refl => exact h
  | step _ ih => exact resolveNamedType_succ ih

theorem below_nil (m : Module) (names : List String) : Below m.namedStructs namesIn [] names := by
  intro a ha
  cases ha

theorem typeSizeFuel_eq_typeSize {m : Module} (hacyclic : AcyclicStructs m) (ty : IrType)
    {fuel : Nat} (hfuel : typeFuel m ty ≤ fuel) :
    typeSizeFuel m fuel ty = some (typeSize m ty) := by
  have hdeep : depthLeft m [] ty < typeFuel m ty := (depthLeft_nil m ty).le
  obtain ⟨r, hr⟩ := typeSizeFuel_returns hacyclic (below_nil m _) hdeep
  have hsize : typeSize m ty = r := by rw [typeSize, hr, Option.getD_some]
  rw [hsize]
  exact typeSizeFuel_mono hfuel hr

/-- So what `type_size` can return is one thing only, and `typeSize` is it. -/
theorem returns_iff_typeSize {m : Module} (hacyclic : AcyclicStructs m) (ty : IrType)
    (r : Option UInt64) : Returns m ty r ↔ r = typeSize m ty := by
  constructor
  · rintro ⟨fuel, hfuel⟩
    have hlarge := typeSizeFuel_mono (Nat.le_max_left fuel (typeFuel m ty)) hfuel
    rw [typeSizeFuel_eq_typeSize hacyclic ty (Nat.le_max_right ..)] at hlarge
    exact (Option.some.inj hlarge).symm
  · rintro rfl
    exact ⟨typeFuel m ty, typeSizeFuel_eq_typeSize hacyclic ty (Nat.le_refl _)⟩

-- ── Names without a definition ───────────────────────────────────────────────────

/-- Resolution keeps a name without a definition inside, or stops at it. -/
theorem resolveNamedType_contains {m : Module} {fuel : Nat} {ty ty' : IrType} {name : String}
    (hname : Unresolved m name) (hin : ContainsByValue m ty name)
    (h : resolveNamedType m fuel ty = some (some ty')) : ContainsByValue m ty' name := by
  induction fuel generalizing ty with
  | zero =>
      cases ty with
      | namedStructType a => cases h
      | _ =>
          obtain rfl := Option.some.inj (Option.some.inj h)
          exact hin
  | succ fuel ih =>
      cases ty with
      | namedStructType a =>
          rw [resolveNamedType] at h
          rcases leads_singleton hin with rfl | ⟨d, hd, hleads⟩
          · rcases hname with hnone | hhidden
            · simp only [hnone] at h
              cases h
            · simp only [hhidden] at h
              cases h
          · have hdef : m.namedStructDef a = some d := hd
            cases d with
            | opaqueDef =>
                simp only [hdef] at h
                cases h
            | defined inner =>
                simp only [hdef] at h
                exact ih hleads h
      | _ =>
          obtain rfl := Option.some.inj (Option.some.inj h)
          exact hin

/-- A sum of sizes is one of all fields. -/
theorem sumSizes_some_mem {size : IrType → Option (Option UInt64)} {ts : List IrType}
    {total n : UInt64} (h : sumSizes size ts total = some (some n)) :
    ∀ t ∈ ts, ∃ k, size t = some (some k) := by
  induction ts generalizing total with
  | nil =>
      intro t ht
      cases ht
  | cons t ts ih =>
      obtain ⟨k, total', hs, -, hrest⟩ := sumSizes_cons_some h
      intro t' ht'
      rcases List.mem_cons.mp ht' with rfl | ht'
      · exact ⟨k, hs⟩
      · exact ih hrest t' ht'

/-- **No size** for a type that contains a name without a definition. -/
theorem typeSizeFuel_none_of_unresolved {m : Module} {name : String} (hname : Unresolved m name)
    (fuel : Nat) {ty : IrType} (hin : ContainsByValue m ty name) (n : UInt64) :
    typeSizeFuel m fuel ty ≠ some (some n) := by
  induction fuel generalizing ty n with
  | zero =>
      intro h
      cases h
  | succ fuel ih =>
      intro h
      rw [typeSizeFuel] at h
      rcases hr : resolveNamedType m fuel ty with _ | _ | ty'
      · simp only [hr] at h
        cases h
      · simp only [hr] at h
        cases h
      · have hin' := resolveNamedType_contains hname hin hr
        simp only [hr] at h
        cases ty' with
        | arrayType t k =>
            obtain ⟨r, hsize, hn⟩ := Option.map_eq_some_iff.mp h
            obtain ⟨s, rfl, -⟩ := Option.map_eq_some_iff.mp hn
            have hinner : ContainsByValue m t name := hin'
            exact ih hinner s hsize
        | structType ts packed =>
            obtain ⟨a, ha, hleads⟩ := hin'
            obtain ⟨t, ht, hat⟩ := mem_byValueList ha
            obtain ⟨k, hsize⟩ := sumSizes_some_mem h t ht
            exact ih ⟨a, hat, hleads⟩ k hsize
        | namedStructType a => cases h
        | _ =>
            obtain ⟨a, ha, -⟩ := hin'
            cases ha

-- ── The law ──────────────────────────────────────────────────────────────────────

/-- **Termination.**  If no named struct contains itself by value, both functions return on every
    type, within `typeFuel`; and what `type_size` returns is `None` on every type that contains an
    undefined or opaque name by value. -/
theorem typeSize_terminates (m : Module) (hacyclic : AcyclicStructs m) (ty : IrType) :
    (∃ r, ∀ fuel, typeFuel m ty ≤ fuel → resolveNamedType m fuel ty = some r)
    ∧ (∀ fuel, typeFuel m ty ≤ fuel → typeSizeFuel m fuel ty = some (typeSize m ty))
    ∧ ∀ name, ContainsByValue m ty name → Unresolved m name → typeSize m ty = none := by
  refine ⟨?_, fun fuel => typeSizeFuel_eq_typeSize hacyclic ty, fun name hin hname => ?_⟩
  · have hdeep : depthLeft m [] ty ≤ typeFuel m ty := Nat.le_of_succ_le (depthLeft_nil m ty).le
    rcases resolveNamedType_returns hacyclic (below_nil m _) hdeep with hr | ⟨ty', -, hr, -⟩
    · exact ⟨none, fun fuel hfuel => resolveNamedType_mono hfuel hr⟩
    · exact ⟨some ty', fun fuel hfuel => resolveNamedType_mono hfuel hr⟩
  · have hret := typeSizeFuel_eq_typeSize hacyclic ty (Nat.le_refl _)
    cases hsize : typeSize m ty with
    | none => rfl
    | some n =>
        rw [hsize] at hret
        exact absurd hret (typeSizeFuel_none_of_unresolved hname _ hin n)

/-- A ring of slots, each with a field that only other modules define. -/
def ringModule : Module := ⟨[], [
  ("struct.ring", .defined (.structType [.arrayType (.namedStructType "struct.slot") 4,
    .pointerType] false)),
  ("struct.slot", .defined (.structType [.pointerType, .integerType 32,
    .namedStructType "struct.cookie"] false)),
  ("struct.cookie", .opaqueDef)]⟩

theorem ringModule_acyclic : AcyclicStructs ringModule :=
  acyclic_of_rank (fun name => if name = "struct.ring" then 2 else if name = "struct.slot" then 1
    else 0) (by decide)

/-- The ring contains the opaque struct two definitions down. -/
theorem ringModule_unsized :
    AcyclicStructs ringModule
      ∧ ContainsByValue ringModule (.namedStructType "struct.ring") "struct.cookie"
      ∧ typeSize ringModule (.namedStructType "struct.ring") = none := by
  have hslot : Uses ringModule.namedStructs namesIn "struct.ring" "struct.slot" :=
    ⟨_, rfl, by decide⟩
  have hcookie : Uses ringModule.namedStructs namesIn "struct.slot" "struct.cookie" :=
    ⟨_, rfl, by decide⟩
  have hin : ContainsByValue ringModule (.namedStructType "struct.ring") "struct.cookie" :=
    ⟨"struct.ring", by decide, (Relation.ReflTransGen.single hslot).tail hcookie⟩
  exact ⟨ringModule_acyclic, hin,
    (typeSize_terminates ringModule ringModule_acyclic _).2.2 "struct.cookie" hin (Or.inr rfl)⟩

/-- **Acyclicity is needed**: a struct whose first field is the struct itself is never sized,
    however deep the recursion goes. -/
theorem self_containing_never_returns {m : Module} {name : String} {rest : List IrType}
    {packed : Bool} (hdef : m.namedStructDef name
      = some (.defined (.structType (.namedStructType name :: rest) packed))) (fuel : Nat) :
    typeSizeFuel m fuel (.namedStructType name) = none := by
  induction fuel with
  | zero => rfl
  | succ fuel ih =>
      rw [typeSizeFuel]
      cases fuel with
      | zero => rfl
      | succ fuel =>
          have hr : resolveNamedType m (fuel + 1) (.namedStructType name)
              = some (some (.structType (.namedStructType name :: rest) packed)) := by
            rw [resolveNamedType, hdef]
            cases fuel <;> rfl
          simp only [hr, sumSizes, ih]

end SkvTermination

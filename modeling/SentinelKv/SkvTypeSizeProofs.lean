import SentinelKv.SkvIrProofs

/-!
# Sizes of types

`resolve_named_type` and `type_size` of the analyzer.  The source recurses through the table
of named structs, so on a table that contains a struct inside itself BY VALUE it never
returns.  Both functions therefore take fuel here and answer `none` when it runs out;
`typeSize` supplies `typeFuel`, the total depth of the type and of every definition in the
table, which a recursion that enters each definition at most once cannot exhaust.

`u64` arithmetic is the release build's: the array product wraps, the struct sum is checked.
-/

namespace SkvTypeSize

open SkvIr

/-- `u64::checked_add`. -/
def checkedAdd (a b : UInt64) : Option UInt64 :=
  if a.toNat + b.toNat < 2 ^ 64 then some (a + b) else none

/-- `u64::checked_mul`. -/
def checkedMul (a b : UInt64) : Option UInt64 :=
  if a.toNat * b.toNat < 2 ^ 64 then some (a * b) else none

/-- `u64::saturating_mul`. -/
def saturatingMul (a b : UInt64) : UInt64 :=
  if a.toNat * b.toNat < 2 ^ 64 then a * b else UInt64.ofNat (2 ^ 64 - 1)

/-- `(bits as u64).div_ceil(8)`. -/
def bytesOfBits (bits : UInt32) : UInt64 :=
  UInt64.ofNat ((bits.toNat + 7) / 8)

/-- A successful `checked_mul` is the exact product. -/
theorem checkedMul_eq_some {a b c : UInt64} (h : checkedMul a b = some c) :
    c.toNat = a.toNat * b.toNat ∧ a.toNat * b.toNat < 2 ^ 64 := by
  unfold checkedMul at h
  by_cases hlt : a.toNat * b.toNat < 2 ^ 64
  · rw [if_pos hlt] at h
    obtain rfl := Option.some.inj h
    exact ⟨by rw [UInt64.toNat_mul, Nat.mod_eq_of_lt hlt], hlt⟩
  · rw [if_neg hlt] at h; exact nomatch h

/-- A failing `checked_mul` is an overflow. -/
theorem checkedMul_eq_none {a b : UInt64} (h : checkedMul a b = none) :
    2 ^ 64 ≤ a.toNat * b.toNat := by
  unfold checkedMul at h
  by_cases hlt : a.toNat * b.toNat < 2 ^ 64
  · rw [if_pos hlt] at h; exact nomatch h
  · exact Nat.not_lt.mp hlt

-- ── Depth, for the fuel ──────────────────────────────────────────────────────────

mutual

/-- Nesting depth of a type, named structs counting as leaves. -/
def depth : IrType → Nat
  | .arrayType elementType _ => depth elementType + 1
  | .structType elementTypes _ => depthList elementTypes + 1
  | _ => 1

def depthList : List IrType → Nat
  | [] => 0
  | ty :: tys => max (depth ty) (depthList tys)

end

/-- What entering one definition can add to the recursion. -/
def defDepth : NamedStructDef → Nat
  | .opaqueDef => 1
  | .defined ty => depth ty + 1

/-- Fuel for `type_size` on `ty`: its own depth and that of every named definition. -/
def typeFuel (m : Module) (ty : IrType) : Nat :=
  depth ty + (m.namedStructs.map (fun d => defDepth d.2)).sum + 1

-- ── The two functions ────────────────────────────────────────────────────────────

/-- `resolve_named_type`: follow named structs to a definition. -/
def resolveNamedType (m : Module) : Nat → IrType → Option (Option IrType)
  | 0, .namedStructType _ => none
  | fuel + 1, .namedStructType name =>
      match m.namedStructDef name with
      | some (.defined inner) => resolveNamedType m fuel inner
      | _ => some none
  | _, ty => some (some ty)

/-- The loop of `type_size` over the fields of a struct. -/
def sumSizes (size : IrType → Option (Option UInt64)) :
    List IrType → UInt64 → Option (Option UInt64)
  | [], total => some (some total)
  | elem :: elems, total =>
      match size elem with
      | none => none
      | some none => some none
      | some (some n) =>
          match checkedAdd total n with
          | none => some none
          | some total' => sumSizes size elems total'

/-- `type_size` with fuel; the outer `none` means the recursion has not returned yet. -/
def typeSizeFuel (m : Module) : Nat → IrType → Option (Option UInt64)
  | 0, _ => none
  | fuel + 1, ty =>
      match resolveNamedType m fuel ty with
      | none => none
      | some none => some none
      | some (some (.integerType bits)) => some (some (bytesOfBits bits))
      | some (some .pointerType) => some (some 8)
      | some (some (.arrayType elementType numElements)) =>
          (typeSizeFuel m fuel elementType).map (fun s => s.map (fun s => s * numElements))
      | some (some (.structType elementTypes _)) =>
          sumSizes (typeSizeFuel m fuel) elementTypes 0
      | some (some _) => some none

/-- `type_size`. -/
def typeSize (m : Module) (ty : IrType) : Option UInt64 :=
  (typeSizeFuel m (typeFuel m ty) ty).getD none

theorem typeFuel_eq_succ (m : Module) (ty : IrType) :
    ∃ n, typeFuel m ty = n + 1 := ⟨_, rfl⟩

/-- Integers take their bit width rounded up to bytes. -/
theorem typeSize_integerType (m : Module) (bits : UInt32) :
    typeSize m (.integerType bits) = some (bytesOfBits bits) := by
  obtain ⟨n, hn⟩ := typeFuel_eq_succ m (.integerType bits)
  unfold typeSize
  rw [hn]
  cases n <;> rfl

/-- Pointers take eight bytes. -/
theorem typeSize_pointerType (m : Module) : typeSize m .pointerType = some 8 := by
  obtain ⟨n, hn⟩ := typeFuel_eq_succ m .pointerType
  unfold typeSize
  rw [hn]
  cases n <;> rfl

-- ── Only the table of named structs matters ──────────────────────────────────────

section Congr

variable {m m' : Module} (h : m.namedStructs = m'.namedStructs)

include h

theorem resolveNamedType_congr : ∀ (fuel : Nat) (ty : IrType),
    resolveNamedType m fuel ty = resolveNamedType m' fuel ty := by
  intro fuel
  induction fuel with
  | zero => intro ty; cases ty <;> rfl
  | succ fuel ih =>
      intro ty
      cases ty with
      | namedStructType name =>
          simp only [resolveNamedType, Module.namedStructDef, h, ih]
      | _ => rfl

theorem typeSizeFuel_congr : ∀ fuel : Nat, typeSizeFuel m fuel = typeSizeFuel m' fuel := by
  intro fuel
  induction fuel with
  | zero => rfl
  | succ fuel ih =>
      funext ty
      simp only [typeSizeFuel, resolveNamedType_congr h, ih]

/-- **`type_size` depends on the module through its named structs only.** -/
theorem typeSize_congr : typeSize m = typeSize m' := by
  funext ty
  simp only [typeSize, typeFuel, typeSizeFuel_congr h, h]

end Congr

end SkvTypeSize

import SentinelKv.SkvGepProofs

/-!
# What `type_size` computes

The recursion of `type_size` is written once for any arithmetic (`evalFuel`): with the
products of a release build and checked sums it is the code (`typeSizeFuel_toNat`), with the
integers' it is the sum of the parts.  `metFuel` lists the products the same recursion comes to.

* **`evalFuel_agree`** — two products that agree on what one of them comes to lead through the
  same recursion;
* **`typeSize_exact_iff`** — so the size is exact, `None` where it does not fit, and free of
  wraps, if and only if no array the recursion comes to is 2^64 bytes or longer;
* **`size_le_layout`** — the sum of the parts never exceeds the natural layout, and reaches it
  exactly on the types without padding;
* **`access_size_iff`** — so the size covers what a load or a store touches on those types only.
-/

namespace SkvSize

open SkvIr SkvTypeSize SkvGate SkvAnalyze SkvGep

-- ── The recursion in any arithmetic ──────────────────────────────────────────────

section Evaluation

variable (mul : Nat → Nat → Nat) (add : Nat → Nat → Option Nat)

/-- The loop over the fields. -/
def sumWith (size : IrType → Option (Option Nat)) : List IrType → Nat → Option (Option Nat)
  | [], total => some (some total)
  | elem :: elems, total =>
      match size elem with
      | none => none
      | some none => some none
      | some (some n) =>
          match add total n with
          | none => some none
          | some total' => sumWith size elems total'

/-- The recursion of `type_size` over the natural numbers, with the product and the sum given. -/
def evalFuel (m : Module) : Nat → IrType → Option (Option Nat)
  | 0, _ => none
  | fuel + 1, ty =>
      match resolveNamedType m fuel ty with
      | none => none
      | some none => some none
      | some (some (.integerType bits)) => some (some ((bits.toNat + 7) / 8))
      | some (some .pointerType) => some (some 8)
      | some (some (.arrayType elementType numElements)) =>
          (evalFuel m fuel elementType).map (fun s => s.map (fun s => mul s numElements.toNat))
      | some (some (.structType elementTypes _)) => sumWith add (evalFuel m fuel) elementTypes 0
      | some (some _) => some none

/-- What the loop over the fields comes to before it ends or gives up. -/
def metSum (size : IrType → Option (Option Nat)) (met : IrType → List (Nat × Nat)) :
    List IrType → Nat → List (Nat × Nat)
  | [], _ => []
  | elem :: elems, total =>
      met elem ++
        match size elem with
        | some (some n) =>
            match add total n with
            | none => []
            | some total' => metSum size met elems total'
        | _ => []

/-- The products the recursion comes to, each as element size and length. -/
def metFuel (m : Module) : Nat → IrType → List (Nat × Nat)
  | 0, _ => []
  | fuel + 1, ty =>
      match resolveNamedType m fuel ty with
      | some (some (.arrayType elementType numElements)) =>
          metFuel m fuel elementType ++
            match evalFuel mul add m fuel elementType with
            | some (some s) => [(s, numElements.toNat)]
            | _ => []
      | some (some (.structType elementTypes _)) =>
          metSum add (evalFuel mul add m fuel) (metFuel m fuel) elementTypes 0
      | _ => []

end Evaluation

/-- The `*` of a release build. -/
def wrapMul (a b : Nat) : Nat := a * b % 2 ^ 64

/-- `checked_add`. -/
def checkedSum (a b : Nat) : Option Nat := if a + b < 2 ^ 64 then some (a + b) else none

/-- Addition of integers. -/
def exactSum (a b : Nat) : Option Nat := some (a + b)

-- ── More fuel keeps an answer ────────────────────────────────────────────────────

theorem resolveNamedType_succ {m : Module} {fuel : Nat} {ty : IrType} {r : Option IrType}
    (h : resolveNamedType m fuel ty = some r) : resolveNamedType m (fuel + 1) ty = some r := by
  induction fuel generalizing ty with
  | zero =>
      cases ty with
      | namedStructType name => cases h
      | _ => exact h
  | succ fuel ih =>
      cases ty with
      | namedStructType name =>
          rw [resolveNamedType] at h ⊢
          rcases hdef : m.namedStructDef name with _ | _ | inner
          · simpa only [hdef] using h
          · simpa only [hdef] using h
          · simp only [hdef] at h ⊢
            exact ih h
      | _ => exact h

section Fuel

variable {mul : Nat → Nat → Nat} {add : Nat → Nat → Option Nat} {m : Module}

theorem sumWith_mono {size size' : IrType → Option (Option Nat)}
    (hsize : ∀ t r, size t = some r → size' t = some r) (ts : List IrType) (total : Nat)
    {r : Option Nat} (h : sumWith add size ts total = some r) :
    sumWith add size' ts total = some r := by
  induction ts generalizing total with
  | nil => exact h
  | cons t ts ih =>
      rw [sumWith] at h ⊢
      rcases hs : size t with _ | _ | n
      · simp only [hs] at h
        cases h
      · simpa only [hs, hsize t none hs] using h
      · simp only [hs, hsize t (some n) hs] at h ⊢
        cases hadd : add total n with
        | none => simpa only [hadd] using h
        | some total' =>
            simp only [hadd] at h ⊢
            exact ih total' h

theorem evalFuel_succ {fuel : Nat} {ty : IrType} {r : Option Nat}
    (h : evalFuel mul add m fuel ty = some r) : evalFuel mul add m (fuel + 1) ty = some r := by
  induction fuel generalizing ty r with
  | zero => cases h
  | succ fuel ih =>
      rw [evalFuel] at h ⊢
      rcases hr : resolveNamedType m fuel ty with _ | _ | ty'
      · simp only [hr] at h
        cases h
      · simpa only [hr, resolveNamedType_succ hr] using h
      · simp only [hr, resolveNamedType_succ hr] at h ⊢
        cases ty' with
        | arrayType t k =>
            obtain ⟨s, hs, rfl⟩ := Option.map_eq_some_iff.mp h
            simp only [ih hs, Option.map_some]
        | structType ts packed => exact sumWith_mono (fun t r => ih) ts 0 h
        | _ => exact h

theorem evalFuel_mono {fuel fuel' : Nat} (hle : fuel ≤ fuel') {ty : IrType} {r : Option Nat}
    (h : evalFuel mul add m fuel ty = some r) : evalFuel mul add m fuel' ty = some r := by
  induction hle with
  | refl => exact h
  | step _ ih => exact evalFuel_succ ih

/-- The fuel an answer is found with does not matter. -/
theorem evalFuel_unique {fuel fuel' : Nat} {ty : IrType} {r r' : Option Nat}
    (h : evalFuel mul add m fuel ty = some r) (h' : evalFuel mul add m fuel' ty = some r') :
    r = r' := by
  rcases Nat.le_total fuel fuel' with hle | hle
  · exact Option.some.inj ((evalFuel_mono hle h).symm.trans h')
  · exact Option.some.inj (h.symm.trans (evalFuel_mono hle h'))

end Fuel

-- ── The code is one of the arithmetics ───────────────────────────────────────────

/-- **A successful `checked_add`** is the exact sum. -/
theorem checkedAdd_eq_some {a b c : UInt64} (h : checkedAdd a b = some c) :
    c.toNat = a.toNat + b.toNat := by
  unfold checkedAdd at h
  split at h
  · next hlt =>
      obtain rfl := Option.some.inj h
      rw [UInt64.toNat_add, Nat.mod_eq_of_lt hlt]
  · cases h

theorem checkedAdd_toNat (a b : UInt64) :
    (checkedAdd a b).map UInt64.toNat = checkedSum a.toNat b.toNat := by
  unfold checkedAdd checkedSum
  by_cases hlt : a.toNat + b.toNat < 2 ^ 64
  · rw [if_pos hlt, if_pos hlt, Option.map_some, UInt64.toNat_add, Nat.mod_eq_of_lt hlt]
  · rw [if_neg hlt, if_neg hlt, Option.map_none]

theorem bytesOfBits_toNat (bits : UInt32) : (bytesOfBits bits).toNat = (bits.toNat + 7) / 8 := by
  have hlt := bits.toNat_lt
  exact UInt64.toNat_ofNat_of_lt' (by unfold UInt64.size; omega)

theorem sumSizes_toNat {size : IrType → Option (Option UInt64)}
    {size' : IrType → Option (Option Nat)}
    (hsize : ∀ t, (size t).map (Option.map UInt64.toNat) = size' t) (ts : List IrType)
    (total : UInt64) : (sumSizes size ts total).map (Option.map UInt64.toNat)
      = sumWith checkedSum size' ts total.toNat := by
  induction ts generalizing total with
  | nil => rfl
  | cons t ts ih =>
      rw [sumSizes, sumWith, ← hsize t]
      rcases size t with _ | _ | n
      · rfl
      · rfl
      · simp only [Option.map_some, ← checkedAdd_toNat]
        cases checkedAdd total n with
        | none => rfl
        | some total' => exact ih total'

/-- **The code computes with wrapping products and checked sums.** -/
theorem typeSizeFuel_toNat (m : Module) (fuel : Nat) (ty : IrType) :
    (typeSizeFuel m fuel ty).map (Option.map UInt64.toNat)
      = evalFuel wrapMul checkedSum m fuel ty := by
  induction fuel generalizing ty with
  | zero => rfl
  | succ fuel ih =>
      rw [typeSizeFuel, evalFuel]
      rcases resolveNamedType m fuel ty with _ | _ | ty'
      · rfl
      · rfl
      · cases ty' with
        | integerType bits => exact congrArg (some ∘ some) (bytesOfBits_toNat bits)
        | arrayType t k =>
            simp only [← ih t, Option.map_map]
            rcases typeSizeFuel m fuel t with _ | _ | s
            · rfl
            · rfl
            · exact congrArg (some ∘ some) (UInt64.toNat_mul s k)
        | structType ts packed => exact sumSizes_toNat ih ts 0
        | _ => rfl

/-- `type_size` returns `r`: some depth of recursion suffices. -/
def Returns (m : Module) (ty : IrType) (r : Option UInt64) : Prop :=
  ∃ fuel, typeSizeFuel m fuel ty = some r

theorem returns_of_typeSize {m : Module} {ty : IrType} {n : UInt64}
    (h : typeSize m ty = some n) : Returns m ty (some n) := by
  unfold typeSize at h
  cases hf : typeSizeFuel m (typeFuel m ty) ty with
  | none => rw [hf] at h; cases h
  | some r =>
      rw [hf] at h
      exact ⟨_, hf.trans (congrArg some h)⟩

-- ── Recursions that agree ────────────────────────────────────────────────────────

section Agree

variable {mul mul' : Nat → Nat → Nat} {add add' : Nat → Nat → Option Nat} {m : Module}

theorem sumWith_agree {P : Nat × Nat → Prop} {size size' : IrType → Option (Option Nat)}
    {met met' : IrType → List (Nat × Nat)}
    (hsize : ∀ t, (∀ p ∈ met t, P p) → size t = size' t ∧ met t = met' t)
    (ts : List IrType) (total : Nat) (h : ∀ p ∈ metSum add size met ts total, P p) :
    sumWith add size ts total = sumWith add size' ts total
      ∧ metSum add size met ts total = metSum add size' met' ts total := by
  induction ts generalizing total with
  | nil => exact ⟨rfl, rfl⟩
  | cons t ts ih =>
      rw [metSum] at h
      obtain ⟨hs, hm⟩ := hsize t (fun p hp => h p (List.mem_append_left _ hp))
      simp only [sumWith, metSum, ← hs, ← hm]
      rcases hst : size t with _ | _ | n
      · exact ⟨rfl, rfl⟩
      · exact ⟨rfl, rfl⟩
      · cases hadd : add total n with
        | none => simp only [hadd, and_self]
        | some total' =>
            simp only [hst, hadd] at h ⊢
            obtain ⟨hsum, hmet⟩ := ih total' (fun p hp => h p (List.mem_append_right _ hp))
            exact ⟨hsum, congrArg _ hmet⟩

/-- **Products that agree on what one recursion comes to** lead through the same recursion. -/
theorem evalFuel_agree (fuel : Nat) (ty : IrType)
    (h : ∀ p ∈ metFuel mul add m fuel ty, mul p.1 p.2 = mul' p.1 p.2) :
    evalFuel mul add m fuel ty = evalFuel mul' add m fuel ty
      ∧ metFuel mul add m fuel ty = metFuel mul' add m fuel ty := by
  induction fuel generalizing ty with
  | zero => exact ⟨rfl, rfl⟩
  | succ fuel ih =>
      rw [metFuel] at h
      simp only [evalFuel, metFuel]
      rcases hr : resolveNamedType m fuel ty with _ | _ | ty'
      · exact ⟨rfl, rfl⟩
      · exact ⟨rfl, rfl⟩
      · simp only [hr] at h
        cases ty' with
        | arrayType t k =>
            -- the element's products come first, then the array's own
            obtain ⟨hs, hm⟩ := ih t (fun p hp => h p (List.mem_append_left _ hp))
            simp only [← hs, ← hm, and_true]
            rcases hst : evalFuel mul add m fuel t with _ | _ | s
            · rfl
            · rfl
            · simp only [hst] at h
              have heq := h (s, k.toNat) (by simp)
              simp only [Option.map_some, heq]
        | structType ts packed => exact sumWith_agree ih ts 0 h
        | _ => exact ⟨rfl, rfl⟩

theorem sumWith_giveUp {size size' : IrType → Option (Option Nat)}
    (hadd : ∀ a b, add a b = none ∨ add a b = add' a b)
    (hsize : ∀ t, size t = some none ∨ size t = size' t) (ts : List IrType) (total : Nat) :
    sumWith add size ts total = some none
      ∨ sumWith add size ts total = sumWith add' size' ts total := by
  induction ts generalizing total with
  | nil => exact Or.inr rfl
  | cons t ts ih =>
      simp only [sumWith]
      rcases hsize t with hs | hs
      · exact Or.inl (by rw [hs])
      · rw [← hs]
        rcases size t with _ | _ | n
        · exact Or.inr rfl
        · exact Or.inr rfl
        · rcases hadd total n with ha | ha
          · exact Or.inl (by simp only [ha])
          · simp only [← ha]
            cases add total n with
            | none => exact Or.inl rfl
            | some total' => exact ih total'

/-- **A sum that may give up** leads to no size, or to what the other sum leads to. -/
theorem evalFuel_giveUp (hadd : ∀ a b, add a b = none ∨ add a b = add' a b) (fuel : Nat)
    (ty : IrType) : evalFuel mul add m fuel ty = some none
      ∨ evalFuel mul add m fuel ty = evalFuel mul add' m fuel ty := by
  induction fuel generalizing ty with
  | zero => exact Or.inr rfl
  | succ fuel ih =>
      simp only [evalFuel]
      rcases resolveNamedType m fuel ty with _ | _ | ty'
      · exact Or.inr rfl
      · exact Or.inr rfl
      · cases ty' with
        | arrayType t k =>
            rcases ih t with ht | ht
            · exact Or.inl (by simp only [ht, Option.map_some, Option.map_none])
            · exact Or.inr (by simp only [ht])
        | structType ts packed => exact sumWith_giveUp hadd ih ts 0
        | _ => exact Or.inr rfl

end Agree

-- ── Exactness ────────────────────────────────────────────────────────────────────

/-- The size of `ty` as the sum of its parts, over the integers. -/
def SumOfParts (m : Module) (ty : IrType) (S : Nat) : Prop :=
  ∃ fuel, evalFuel (· * ·) exactSum m fuel ty = some (some S)

/-- `type_size` multiplies an element size `s` by a length `k`. -/
def Multiplies (m : Module) (ty : IrType) (s k : Nat) : Prop :=
  ∃ fuel, (s, k) ∈ metFuel wrapMul checkedSum m fuel ty

/-- The fields and elements in order, as long as the sums stay below 2^64, lead to an array of
    `k` elements of `s` bytes each. -/
def ComesTo (m : Module) (ty : IrType) (s k : Nat) : Prop :=
  ∃ fuel, (s, k) ∈ metFuel (· * ·) checkedSum m fuel ty

theorem sumOfParts_unique {m : Module} {ty : IrType} {S S' : Nat} (h : SumOfParts m ty S)
    (h' : SumOfParts m ty S') : S = S' := by
  obtain ⟨fuel, h⟩ := h
  obtain ⟨fuel', h'⟩ := h'
  exact Option.some.inj (evalFuel_unique h h')

theorem checkedSum_exact (a b : Nat) :
    checkedSum a b = none ∨ checkedSum a b = exactSum a b := by
  by_cases hlt : a + b < 2 ^ 64
  · exact Or.inr (if_pos hlt)
  · exact Or.inl (if_neg hlt)

/-- If no array is too long, the code runs through the integers' recursion. -/
theorem agree_of_comesTo {m : Module} {ty : IrType}
    (h : ∀ s k, ComesTo m ty s k → s * k < 2 ^ 64) (fuel : Nat) :
    evalFuel (· * ·) checkedSum m fuel ty = evalFuel wrapMul checkedSum m fuel ty
      ∧ metFuel (· * ·) checkedSum m fuel ty = metFuel wrapMul checkedSum m fuel ty :=
  evalFuel_agree fuel ty (fun p hp => (Nat.mod_eq_of_lt (h p.1 p.2 ⟨fuel, hp⟩)).symm)

theorem agree_of_multiplies {m : Module} {ty : IrType}
    (h : ∀ s k, Multiplies m ty s k → s * k < 2 ^ 64) (fuel : Nat) :
    evalFuel wrapMul checkedSum m fuel ty = evalFuel (· * ·) checkedSum m fuel ty
      ∧ metFuel wrapMul checkedSum m fuel ty = metFuel (· * ·) checkedSum m fuel ty :=
  evalFuel_agree fuel ty (fun p hp => Nat.mod_eq_of_lt (h p.1 p.2 ⟨fuel, hp⟩))

/-- If no array is too long, the code gives up or finds the sum of the parts. -/
theorem code_giveUp {m : Module} {ty : IrType}
    (h : ∀ s k, ComesTo m ty s k → s * k < 2 ^ 64) (fuel : Nat) :
    typeSizeFuel m fuel ty = some none
      ∨ (typeSizeFuel m fuel ty).map (Option.map UInt64.toNat)
        = evalFuel (· * ·) exactSum m fuel ty := by
  have hcode := typeSizeFuel_toNat m fuel ty
  rw [← (agree_of_comesTo h fuel).1] at hcode
  rcases evalFuel_giveUp checkedSum_exact fuel ty with hup | heq
  · obtain ⟨r, hr, hnone⟩ := Option.map_eq_some_iff.mp (hcode.trans hup)
    exact Or.inl (hr.trans (congrArg some (Option.map_eq_none_iff.mp hnone)))
  · exact Or.inr (hcode.trans heq)

theorem sumOfParts_of_returns {m : Module} {ty : IrType}
    (h : ∀ s k, ComesTo m ty s k → s * k < 2 ^ 64) {n : UInt64} (hn : Returns m ty (some n)) :
    SumOfParts m ty n.toNat := by
  obtain ⟨fuel, hfuel⟩ := hn
  rcases code_giveUp h fuel with hup | heq
  · rw [hfuel] at hup
    cases hup
  · rw [hfuel] at heq
    exact ⟨fuel, heq.symm⟩

/-- A size that does not fit is refused. -/
theorem returns_none_of_large {m : Module} {ty : IrType}
    (h : ∀ s k, ComesTo m ty s k → s * k < 2 ^ 64) {S : Nat} (hS : SumOfParts m ty S)
    (hlarge : 2 ^ 64 ≤ S) : Returns m ty none := by
  obtain ⟨fuel, hfuel⟩ := hS
  rcases code_giveUp h fuel with hup | heq
  · exact ⟨fuel, hup⟩
  · obtain ⟨r, -, hr⟩ := Option.map_eq_some_iff.mp (heq.trans hfuel)
    obtain ⟨n, -, rfl⟩ := Option.map_eq_some_iff.mp hr
    exact absurd n.toNat_lt (Nat.not_lt.mpr hlarge)

/-- **Exactness of `type_size`.**  Its sums never wrap.  It is exact on a type, refuses the type
    when the size does not fit, and multiplies without wrapping, if and only if no array that the
    fields and elements lead to in order is 2^64 bytes or longer. -/
theorem typeSize_exact_iff (m : Module) (ty : IrType) :
    (∀ n, typeSize m ty = some n → Returns m ty (some n))
    ∧ (∀ a b c, checkedAdd a b = some c → c.toNat = a.toNat + b.toNat)
    ∧ (((∀ n, Returns m ty (some n) → ∀ S, SumOfParts m ty S ↔ S = n.toNat)
        ∧ (∀ S, SumOfParts m ty S → 2 ^ 64 ≤ S → Returns m ty none)
        ∧ (∀ s k, Multiplies m ty s k → s * k < 2 ^ 64))
      ↔ ∀ s k, ComesTo m ty s k → s * k < 2 ^ 64) := by
  refine ⟨fun n => returns_of_typeSize, fun a b c => checkedAdd_eq_some, ?_, ?_⟩
  · rintro ⟨-, -, hmul⟩ s k ⟨fuel, hmem⟩
    rw [← (agree_of_multiplies hmul fuel).2] at hmem
    exact hmul s k ⟨fuel, hmem⟩
  · intro h
    refine ⟨fun n hn S => ⟨fun hS => ?_, ?_⟩, fun S => returns_none_of_large h, ?_⟩
    · exact sumOfParts_unique hS (sumOfParts_of_returns h hn)
    · rintro rfl
      exact sumOfParts_of_returns h hn
    · rintro s k ⟨fuel, hmem⟩
      rw [← (agree_of_comesTo h fuel).2] at hmem
      exact h s k ⟨fuel, hmem⟩

/-- 2^63 elements of two bytes: the product is 2^64, and the size comes out as zero. -/
theorem long_array_sized_zero :
    typeSize ⟨[], []⟩ (.arrayType (.integerType 16) 9223372036854775808) = some 0
    ∧ Returns ⟨[], []⟩ (.arrayType (.integerType 16) 9223372036854775808) (some 0)
    ∧ SumOfParts ⟨[], []⟩ (.arrayType (.integerType 16) 9223372036854775808) (2 ^ 64)
    ∧ Multiplies ⟨[], []⟩ (.arrayType (.integerType 16) 9223372036854775808) 2 (2 ^ 63) :=
  ⟨by decide, ⟨2, by decide⟩, ⟨2, by decide⟩, ⟨2, by decide⟩⟩

-- ── Inversion ────────────────────────────────────────────────────────────────────

theorem Returns.exists_succ {m : Module} {ty : IrType} {r : Option UInt64}
    (h : Returns m ty r) : ∃ fuel, typeSizeFuel m (fuel + 1) ty = some r := by
  obtain ⟨fuel, hfuel⟩ := h
  cases fuel with
  | zero => cases hfuel
  | succ fuel => exact ⟨fuel, hfuel⟩

theorem returns_integerType {m : Module} {bits : UInt32} {n : UInt64}
    (h : Returns m (.integerType bits) (some n)) : n.toNat = (bits.toNat + 7) / 8 := by
  obtain ⟨fuel, hfuel⟩ := h.exists_succ
  have hn : some (some (bytesOfBits bits)) = some (some n) := by cases fuel <;> exact hfuel
  obtain rfl := Option.some.inj (Option.some.inj hn)
  exact bytesOfBits_toNat bits

theorem returns_pointerType {m : Module} {n : UInt64}
    (h : Returns m .pointerType (some n)) : n = 8 := by
  obtain ⟨fuel, hfuel⟩ := h.exists_succ
  have hn : some (some 8) = some (some n) := by cases fuel <;> exact hfuel
  exact (Option.some.inj (Option.some.inj hn)).symm

theorem returns_arrayType {m : Module} {t : IrType} {k n : UInt64}
    (h : Returns m (.arrayType t k) (some n)) : ∃ s, Returns m t (some s) ∧ n = s * k := by
  obtain ⟨fuel, hfuel⟩ := h.exists_succ
  have hmap : (typeSizeFuel m fuel t).map (fun s => s.map (fun s => s * k))
      = some (some n) := by cases fuel <;> exact hfuel
  obtain ⟨r, hr, hn⟩ := Option.map_eq_some_iff.mp hmap
  obtain ⟨s, rfl, rfl⟩ := Option.map_eq_some_iff.mp hn
  exact ⟨s, ⟨fuel, hr⟩, rfl⟩

theorem returns_structType {m : Module} {ts : List IrType} {packed : Bool} {n : UInt64}
    (h : Returns m (.structType ts packed) (some n)) :
    ∃ fuel, sumSizes (typeSizeFuel m fuel) ts 0 = some (some n) := by
  obtain ⟨fuel, hfuel⟩ := h.exists_succ
  exact ⟨fuel, by cases fuel <;> exact hfuel⟩

theorem sumSizes_cons_some {size : IrType → Option (Option UInt64)} {t : IrType}
    {ts : List IrType} {total n : UInt64} (h : sumSizes size (t :: ts) total = some (some n)) :
    ∃ k total', size t = some (some k) ∧ checkedAdd total k = some total'
      ∧ sumSizes size ts total' = some (some n) := by
  rw [sumSizes] at h
  rcases hs : size t with _ | _ | k
  · simp only [hs] at h
    cases h
  · simp only [hs] at h
    cases h
  · simp only [hs] at h
    cases hadd : checkedAdd total k with
    | none =>
        simp only [hadd] at h
        cases h
    | some total' =>
        simp only [hadd] at h
        exact ⟨k, total', rfl, hadd, h⟩

theorem returns_namedStructType {m : Module} {name : String} {ty : IrType}
    (hdef : m.namedStructDef name = some (.defined ty)) {r : Option UInt64}
    (h : Returns m (.namedStructType name) r) : Returns m ty r := by
  obtain ⟨fuel, hfuel⟩ := h.exists_succ
  refine ⟨fuel + 1, ?_⟩
  rw [typeSizeFuel] at hfuel ⊢
  cases fuel with
  | zero => cases hfuel
  | succ fuel =>
      rw [show resolveNamedType m (fuel + 1) (.namedStructType name)
        = resolveNamedType m fuel ty by rw [resolveNamedType, hdef]] at hfuel
      cases hr : resolveNamedType m fuel ty with
      | none =>
          simp only [hr] at hfuel
          cases hfuel
      | some ty' =>
          rw [hr] at hfuel
          rw [resolveNamedType_succ hr]
          exact hfuel

-- ── Padding ──────────────────────────────────────────────────────────────────────

/-- The fields follow each other without a gap, and none follows the last. -/
def unpadded (ls : List Layout) : Bool :=
  (structLayout ls).size == (ls.map Layout.size).sum

/-- No struct in the type has padding, those inside arrays without elements apart. -/
def tight (m : Module) : Nat → IrType → Bool
  | fuel + 1, .arrayType elementType numElements => numElements == 0 || tight m fuel elementType
  | fuel + 1, .structType elementTypes _ =>
      elementTypes.all (tight m fuel)
        && ((elementTypes.mapM (layout m fuel)).map unpadded).getD true
  | fuel + 1, .namedStructType name =>
      match m.namedStructDef name with
      | some (.defined ty) => tight m fuel ty
      | _ => true
  | _, _ => true

theorem le_roundUp (n : Nat) {a : Nat} (ha : 0 < a) : n ≤ roundUp n a := by
  unfold roundUp
  have hdiv := Nat.div_add_mod (n + a - 1) a
  have hmod := Nat.mod_lt (n + a - 1) ha
  rw [Nat.mul_comm] at hdiv
  omega

/-- The fields alone take no more than the layout. -/
theorem sum_le_fieldsEnd {ls : List Layout} (hpos : ∀ l ∈ ls, 0 < l.align) (pos : Nat) :
    pos + (ls.map Layout.size).sum ≤ fieldsEnd ls pos := by
  induction ls generalizing pos with
  | nil => exact Nat.le_refl _
  | cons l ls ih =>
      have hround := le_roundUp pos (hpos l (by simp))
      have hrest := ih (fun l' hl => hpos l' (by simp [hl])) (roundUp pos l.align + l.size)
      rw [fieldsEnd, List.map_cons, List.sum_cons]
      omega

theorem structLayout_align_pos (ls : List Layout) : 0 < (structLayout ls).align := by
  have hle : ∀ (ls : List Layout) (a : Nat), a ≤ ls.foldl (fun a l => max a l.align) a := by
    intro ls
    induction ls with
    | nil => exact fun a => Nat.le_refl a
    | cons l ls ih => exact fun a => Nat.le_trans (Nat.le_max_left a l.align) (ih _)
  exact hle ls 1

theorem sum_le_structLayout {ls : List Layout} (hpos : ∀ l ∈ ls, 0 < l.align) :
    (ls.map Layout.size).sum ≤ (structLayout ls).size := by
  have hend := sum_le_fieldsEnd hpos 0
  have hround := le_roundUp (fieldsEnd ls 0) (structLayout_align_pos ls)
  rw [Nat.zero_add] at hend
  exact Nat.le_trans hend hround

theorem mapM_cons_some {α β : Type} {f : α → Option β} {x : α} {xs : List α} {ys : List β}
    (h : (x :: xs).mapM f = some ys) :
    ∃ y ys', f x = some y ∧ xs.mapM f = some ys' ∧ ys = y :: ys' := by
  rw [List.mapM_cons] at h
  obtain ⟨y, hy, hrest⟩ := Option.bind_eq_some_iff.mp h
  obtain ⟨ys', hys, hcons⟩ := Option.bind_eq_some_iff.mp hrest
  exact ⟨y, ys', hy, hys, (Option.some.inj hcons).symm⟩

theorem exists_of_mem_mapM {α β : Type} {f : α → Option β} {xs : List α} {ys : List β}
    (h : xs.mapM f = some ys) {y : β} (hy : y ∈ ys) : ∃ x ∈ xs, f x = some y := by
  induction xs generalizing ys with
  | nil =>
      obtain rfl := Option.some.inj h
      cases hy
  | cons x xs ih =>
      obtain ⟨y', ys', hx, hxs, rfl⟩ := mapM_cons_some h
      rcases List.mem_cons.mp hy with rfl | hy
      · exact ⟨x, by simp, hx⟩
      · obtain ⟨z, hz, hfz⟩ := ih hxs hy
        exact ⟨z, by simp [hz], hfz⟩

theorem layout_align_pos {m : Module} {fuel : Nat} {ty : IrType} {l : Layout}
    (h : layout m fuel ty = some l) : 0 < l.align := by
  fun_induction layout m fuel ty generalizing l with
  | case2 fuel bits hbits =>
      obtain rfl := Option.some.inj h
      simp only [List.mem_cons, List.not_mem_nil, or_false] at hbits
      rcases hbits with rfl | rfl | rfl | rfl <;> decide
  | case4 =>
      obtain rfl := Option.some.inj h
      decide
  | case5 fuel t k ih =>
      obtain ⟨l', hl', rfl⟩ := Option.map_eq_some_iff.mp h
      have hpos := ih hl'
      exact hpos
  | case6 fuel ts =>
      obtain ⟨ls, -, rfl⟩ := Option.map_eq_some_iff.mp h
      exact structLayout_align_pos ls
  | case7 fuel name ty hdef ih => exact ih h
  | _ => cases h

-- ── The sum of the parts against the layout ──────────────────────────────────────

/-- What is shown of a type: its size is at most the layout's, and that exactly when nothing is
    padded. -/
def Covered (m : Module) (fuel : Nat) (ty : IrType) : Prop :=
  ∀ l n, layout m fuel ty = some l → l.size < 2 ^ 64 → Returns m ty (some n) →
    n.toNat ≤ l.size ∧ (n.toNat = l.size ↔ tight m fuel ty = true)

theorem covered_integer (m : Module) (fuel : Nat) (bits : UInt32) :
    Covered m (fuel + 1) (.integerType bits) := by
  intro l n hl _ hn
  rw [layout] at hl
  split at hl
  · next hbits =>
      obtain rfl := Option.some.inj hl
      have hsize : (bits.toNat + 7) / 8 = bits.toNat / 8 := by
        simp only [List.mem_cons, List.not_mem_nil, or_false] at hbits
        rcases hbits with rfl | rfl | rfl | rfl <;> decide
      rw [returns_integerType hn, hsize]
      exact ⟨Nat.le_refl _, iff_of_true rfl rfl⟩
  · cases hl

theorem covered_named {m : Module} {fuel : Nat} (ih : ∀ ty, Covered m fuel ty) (name : String) :
    Covered m (fuel + 1) (.namedStructType name) := by
  intro l n hl hsmall hn
  rw [layout] at hl
  rcases hdef : m.namedStructDef name with _ | _ | ty
  · simp only [hdef] at hl
    cases hl
  · simp only [hdef] at hl
    cases hl
  · simp only [hdef] at hl
    simp only [tight, hdef]
    exact ih ty l n hl hsmall (returns_namedStructType hdef hn)

theorem covered_array {m : Module} {fuel : Nat} {t : IrType} (k : UInt64)
    (ih : Covered m fuel t) : Covered m (fuel + 1) (.arrayType t k) := by
  intro l n hl hsmall hn
  obtain ⟨lt, hlt, rfl⟩ := Option.map_eq_some_iff.mp hl
  obtain ⟨s, hs, rfl⟩ := returns_arrayType hn
  simp only [tight, Bool.or_eq_true, beq_iff_eq] at hsmall ⊢
  by_cases hk : k = 0
  · subst hk
    simp
  · -- with an element to hold, neither factor is larger than the product
    have hkpos : 0 < k.toNat := Nat.pos_of_ne_zero (fun h => hk (UInt64.toNat_inj.mp h))
    have helem : lt.size ≤ k.toNat * lt.size := Nat.le_mul_of_pos_left _ hkpos
    obtain ⟨hle, heq⟩ := ih lt s hlt (Nat.lt_of_le_of_lt helem hsmall) hs
    have hprod : s.toNat * k.toNat ≤ k.toNat * lt.size := by
      rw [Nat.mul_comm]
      exact Nat.mul_le_mul_left _ hle
    have hexact : (s * k).toNat = k.toNat * s.toNat := by
      rw [UInt64.toNat_mul, Nat.mod_eq_of_lt (Nat.lt_of_le_of_lt hprod hsmall), Nat.mul_comm]
    rw [hexact]
    refine ⟨Nat.mul_le_mul_left _ hle, ?_⟩
    rw [Nat.mul_right_inj (Nat.ne_of_gt hkpos), heq]
    exact (or_iff_right hk).symm

theorem sumSizes_covered {m : Module} {fuel g : Nat} (ih : ∀ ty, Covered m fuel ty)
    (ts : List IrType) {ls : List Layout} (hls : ts.mapM (layout m fuel) = some ls)
    (hsmall : (ls.map Layout.size).sum < 2 ^ 64) (total : UInt64) {n : UInt64}
    (hn : sumSizes (typeSizeFuel m g) ts total = some (some n)) :
    n.toNat ≤ total.toNat + (ls.map Layout.size).sum
      ∧ (n.toNat = total.toNat + (ls.map Layout.size).sum ↔ ts.all (tight m fuel) = true) := by
  induction ts generalizing ls total with
  | nil =>
      obtain rfl := Option.some.inj hls
      obtain rfl := Option.some.inj (Option.some.inj hn)
      simp
  | cons t ts ihts =>
      obtain ⟨l, ls', hl, hls', rfl⟩ := mapM_cons_some hls
      rw [List.map_cons, List.sum_cons] at hsmall ⊢
      obtain ⟨k, total', hs, hadd, hn⟩ := sumSizes_cons_some hn
      obtain ⟨hle, heq⟩ := ih t l k hl (by omega) ⟨g, hs⟩
      obtain ⟨hle', heq'⟩ := ihts hls' (by omega) total' hn
      rw [checkedAdd_eq_some hadd] at hle' heq'
      refine ⟨by omega, ?_⟩
      rw [List.all_cons, Bool.and_eq_true, ← heq, ← heq']
      omega

theorem covered_struct {m : Module} {fuel : Nat} (ih : ∀ ty, Covered m fuel ty)
    (ts : List IrType) : Covered m (fuel + 1) (.structType ts false) := by
  intro l n hl hsmall hn
  obtain ⟨ls, hls, rfl⟩ := Option.map_eq_some_iff.mp hl
  obtain ⟨g, hsum⟩ := returns_structType hn
  have hpad : (ls.map Layout.size).sum ≤ (structLayout ls).size := by
    refine sum_le_structLayout (fun l hmem => ?_)
    obtain ⟨t, -, ht⟩ := exists_of_mem_mapM hls hmem
    exact layout_align_pos ht
  obtain ⟨hle, heq⟩ := sumSizes_covered ih ts hls (by omega) 0 hsum
  rw [show (0 : UInt64).toNat = 0 from rfl, Nat.zero_add] at hle heq
  refine ⟨Nat.le_trans hle hpad, ?_⟩
  simp only [tight, hls, unpadded, Option.map_some, Option.getD_some, Bool.and_eq_true,
    beq_iff_eq, ← heq]
  omega

/-- **The sum of the parts never exceeds the layout**, and reaches it on the types without
    padding. -/
theorem size_le_layout (m : Module) (fuel : Nat) (ty : IrType) : Covered m fuel ty := by
  induction fuel generalizing ty with
  | zero =>
      intro l n hl
      cases hl
  | succ fuel ih =>
      cases ty with
      | integerType bits => exact covered_integer m fuel bits
      | pointerType =>
          intro l n hl _ hn
          obtain rfl := Option.some.inj hl
          rw [returns_pointerType hn]
          exact ⟨Nat.le_refl _, iff_of_true rfl rfl⟩
      | arrayType t k => exact covered_array k (ih t)
      | structType ts packed =>
          cases packed with
          | false => exact covered_struct ih ts
          | true =>
              intro l n hl
              cases hl
      | namedStructType name => exact covered_named ih name
      | _ =>
          intro l n hl
          cases hl

-- ── The law for accesses ─────────────────────────────────────────────────────────

/-- **Sizes of loads and stores.**  The size covers what an access to a value of the type
    touches, and a `Safe` access stays inside its allocation, if and only if the type has no
    padding. -/
theorem access_size_iff (m : Module) (fuel : Nat) {ty : IrType} {l : Layout} {n : UInt64}
    (hl : layout m fuel ty = some l) (hsmall : l.size < 2 ^ 64) (hn : typeSize m ty = some n) :
    (l.size ≤ n.toNat
      ∧ ∀ z3, SolverSound z3 → ∀ (allocSize offset : Z3Int) (vc cls : String) (gate : HitlGate),
        (checkAccess z3 allocSize offset n vc cls gate).1 = .safe →
          0 ≤ offset.eval ∧ offset.eval + l.size ≤ allocSize.eval)
      ↔ tight m fuel ty = true := by
  obtain ⟨hle, heq⟩ := size_le_layout m fuel ty l n hl hsmall (returns_of_typeSize hn)
  rw [← heq]
  constructor
  · rintro ⟨hge, -⟩
    exact Nat.le_antisymm hle hge
  · intro hexact
    refine ⟨Nat.le_of_eq hexact.symm, fun z3 hz allocSize offset vc cls gate hsafe => ?_⟩
    obtain ⟨hstart, hend⟩ := checkAccess_safe hz hsafe
    exact ⟨hstart, by omega⟩

/-- Three of the struct of `tests/dma_driver.c`, through its name. -/
def dmaBufs : IrType := .arrayType (.namedStructType "struct.dma_buf") 3

theorem dmaBufs_size_covers :
    ∃ l n, layout (dmaBufModule []) 5 dmaBufs = some l ∧ typeSize (dmaBufModule []) dmaBufs = some n
      ∧ l.size = 48 ∧ l.size ≤ n.toNat :=
  ⟨⟨48, 4⟩, 48, by decide, by decide, rfl,
    ((access_size_iff (dmaBufModule []) 5 (show layout _ _ dmaBufs = some ⟨48, 4⟩ by decide)
      (by decide) (by decide)).mpr (by decide)).1⟩

/-- A struct whose last field is followed by seven bytes of padding. -/
def paddedType : IrType := .structType [.integerType 64, .integerType 8] false

/-- Nine bytes are allocated, and a value of sixteen is loaded. -/
def paddedDriver : Module := ⟨[Function.ofBlocks "init" [([
  .call (.direct "kmalloc" [.lit 64 9, .lit 32 0] (some (.name "p"))),
  .load (.ptr "p") paddedType (.name "v")], .ret none)]], []⟩

/-- The value ends at 16, behind the allocation; the analyzer takes it for nine bytes long and
    passes. -/
theorem padded_load_passes :
    typeSize paddedDriver paddedType = some 9
    ∧ layout paddedDriver 2 paddedType = some ⟨16, 8⟩
    ∧ (checkAccess evalSolver (.fromU64 9) (.fromU64 0) 9 "vc" "load" (.fresh .off ∅ ∅)).1 = .safe
    ∧ (analyze paddedDriver (sortedHost evalSolver) (.fresh .off ∅ ∅) .conservative .verify).1.result
      = .pass :=
  ⟨by decide, by decide, by decide, by decide +kernel⟩

end SkvSize

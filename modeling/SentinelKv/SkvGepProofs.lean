import Mathlib.Algebra.BigOperators.Group.List.Basic
import Mathlib.Algebra.Order.Ring.Int
import SentinelKv.SkvAnalyzeProofs

/-!
# `getelementptr` against LLVM

`infer_gep_offset` scales the first index by 8 and every later one by 4.  LLVM scales the first
by the size of `source_element_type` and then walks down the type: an array index counts
elements, a struct index selects a field, and an index is a SIGNED number of its width.  The
walk is stated here on natural layout (`layout`, `fieldOffsets`) as a list of steps, each with
the stride the analyzer takes and the displacement LLVM takes.

* **`inferGepOffset_eval`** — a successful inference adds up the scaled indices;
* **`Step.error_of_fits`** — an index that is zero, or whose stride is the right one, is scaled
  to its displacement;
* **`gep_offset_iff`** — so the inferred offset is LLVM's if and only if the errors of the
  remaining indices cancel out, which they do when there are none.
-/

namespace SkvGep

open SkvIr SkvTypeSize SkvGate SkvAnalyze

-- ── Natural layout ───────────────────────────────────────────────────────────────

structure Layout where
  size  : Nat
  align : Nat
deriving DecidableEq, Repr

def roundUp (n a : Nat) : Nat := (n + a - 1) / a * a

/-- The offsets of the fields, each at the next multiple of its alignment. -/
def fieldOffsets : List Layout → Nat → List Nat
  | [], _ => []
  | l :: ls, pos => roundUp pos l.align :: fieldOffsets ls (roundUp pos l.align + l.size)

/-- The end of the last field. -/
def fieldsEnd : List Layout → Nat → Nat
  | [], pos => pos
  | l :: ls, pos => fieldsEnd ls (roundUp pos l.align + l.size)

/-- A struct is aligned as its strictest field and padded to a multiple of that. -/
def structLayout (ls : List Layout) : Layout :=
  let align := ls.foldl (fun a l => max a l.align) 1
  ⟨roundUp (fieldsEnd ls 0) align, align⟩

/-- The layout of a type built from `i8`, `i16`, `i32`, `i64`, pointers, arrays, structs that are
    not packed, and names of such structs.  The fuel bounds the unfolding of names. -/
def layout (m : Module) : Nat → IrType → Option Layout
  | 0, _ => none
  | _ + 1, .integerType bits =>
      if bits ∈ [8, 16, 32, 64] then some ⟨bits.toNat / 8, bits.toNat / 8⟩ else none
  | _ + 1, .pointerType => some ⟨8, 8⟩
  | fuel + 1, .arrayType elementType numElements =>
      (layout m fuel elementType).map (fun l => ⟨numElements.toNat * l.size, l.align⟩)
  | fuel + 1, .structType elementTypes false => (elementTypes.mapM (layout m fuel)).map structLayout
  | fuel + 1, .namedStructType name =>
      match m.namedStructDef name with
      | some (.defined ty) => layout m fuel ty
      | _ => none
  | _ + 1, _ => none

-- ── The walk ─────────────────────────────────────────────────────────────────────

/-- An integer literal used as an index. -/
structure Index where
  bits  : UInt32
  value : UInt64

def Index.operand (i : Index) : Operand := .constantOperand (.int i.bits i.value)

/-- The literal as a signed number of its width.  One wider than 64 bits reaches the analyzer cut
    to 64, and LLVM cuts indices to the width of a pointer too. -/
def Index.signed (i : Index) : Int := (BitVec.ofNat (min i.bits.toNat 64) i.value.toNat).toInt

/-- What an index selects: one of the elements that follow each other, or a field. -/
inductive Level where
  | element (size : Nat)
  | field (offset : Nat)

def Level.displacement (i : Index) : Level → Int
  | .element size => i.signed * size
  | .field offset => offset

/-- The levels the indices after the first go through. -/
def descend (m : Module) : Nat → IrType → List Index → Option (List (Level × Index))
  | _, _, [] => some []
  | 0, _, _ :: _ => none
  | fuel + 1, .arrayType elementType _, i :: is =>
      match layout m fuel elementType, descend m fuel elementType is with
      | some l, some path => some ((.element l.size, i) :: path)
      | _, _ => none
  | fuel + 1, .structType elementTypes false, i :: is =>
      if i.signed < 0 then none else
      match elementTypes.mapM (layout m fuel), elementTypes[i.signed.toNat]? with
      | some ls, some ty =>
          match (fieldOffsets ls 0)[i.signed.toNat]?, descend m fuel ty is with
          | some offset, some path => some ((.field offset, i) :: path)
          | _, _ => none
      | _, _ => none
  | fuel + 1, .namedStructType name, i :: is =>
      match m.namedStructDef name with
      | some (.defined ty) => descend m fuel ty (i :: is)
      | _ => none
  | _ + 1, _, _ :: _ => none

/-- The levels of all indices.  The first moves over whole values of the source element type. -/
def levels (m : Module) (fuel : Nat) (ty : IrType) : List Index → Option (List (Level × Index))
  | [] => some []
  | i :: is =>
      match layout m fuel ty, descend m fuel ty is with
      | some l, some path => some ((.element l.size, i) :: path)
      | _, _ => none

/-- The offset LLVM adds to the base. -/
def llvmOffset (path : List (Level × Index)) : Int :=
  (path.map (fun x => x.1.displacement x.2)).sum

/-- The walk meets the indices in order. -/
theorem descend_indices (m : Module) (fuel : Nat) (ty : IrType) (is : List Index)
    {path : List (Level × Index)} (h : descend m fuel ty is = some path) :
    path.map Prod.snd = is := by
  fun_induction descend m fuel ty is generalizing path with
  | case1 =>
      obtain rfl := Option.some.inj h
      rfl
  | case3 fuel elementType _ i is l rest hrest hl ih =>
      obtain rfl := Option.some.inj h
      exact congrArg (i :: ·) (ih hrest)
  | case6 fuel elementTypes i is hneg ls ty hty hls offset rest hrest hoffset ih =>
      obtain rfl := Option.some.inj h
      exact congrArg (i :: ·) (ih hrest)
  | case9 fuel name i is ty hdef ih => exact ih h
  | _ => cases h

theorem levels_indices {m : Module} {fuel : Nat} {ty : IrType} {is : List Index}
    {path : List (Level × Index)} (h : levels m fuel ty is = some path) :
    path.map Prod.snd = is := by
  cases is with
  | nil =>
      obtain rfl := Option.some.inj h
      rfl
  | cons i is =>
      simp only [levels] at h
      split at h
      · next l rest hl hrest =>
          obtain rfl := Option.some.inj h
          exact congrArg (i :: ·) (descend_indices m fuel ty is hrest)
      · cases h

-- ── The strides of the analyzer ──────────────────────────────────────────────────

/-- What the first index is scaled by: the address is asked for its type, and that is a
    pointer. -/
def firstStride (m : Module) (gep : GetElementPtr) : UInt64 :=
  match gep.address.typeOf with
  | .pointerType => 8
  | other => (typeSize m other).getD 0

/-- One index with the level it selects from and the stride it is scaled by. -/
structure Step where
  level  : Level
  index  : Index
  stride : UInt64

def steps (first : UInt64) : List (Level × Index) → List Step
  | [] => []
  | x :: xs => ⟨x.1, x.2, first⟩ :: xs.map (fun x => ⟨x.1, x.2, 4⟩)

def Step.scaled (x : Step) : Int := (saturatingMul x.index.value x.stride).toNat

def Step.displacement (x : Step) : Int := x.level.displacement x.index

def Step.error (x : Step) : Int := x.scaled - x.displacement

/-- The indices after the first. -/
theorem foldlM_gepIndex (m : Module) (gep : GetElementPtr) : ∀ (path : List (Level × Index))
    (k : Nat) (b : Z3Int) {o : Z3Int},
    ((path.map (fun x => x.2.operand)).zipIdx (k + 1)).foldlM (gepIndex m gep) b = some o →
      o.eval = b.eval
        + ((path.map (fun x => (⟨x.1, x.2, 4⟩ : Step))).map Step.scaled).sum := by
  intro path
  induction path with
  | nil =>
      intro k b o h
      obtain rfl := Option.some.inj h
      simp
  | cons x path ih =>
      intro k b o h
      have hrest := ih (k + 1) (.add b (.fromU64 (saturatingMul x.2.value 4))) h
      rw [hrest, Z3Int.eval_add, Z3Int.eval_fromU64]
      simp only [List.map_cons, List.sum_cons]
      exact add_assoc _ _ _

theorem gepIndex_first {m : Module} {gep : GetElementPtr} {i : Index} {b c : Z3Int}
    (h : gepIndex m gep b (i.operand, 0) = some c) :
    c = .add b (.fromU64 (saturatingMul i.value (firstStride m gep))) := by
  cases hty : gep.address.typeOf with
  | pointerType =>
      simp only [gepIndex, Index.operand, operandConstU64, if_true, hty] at h
      simp only [firstStride, hty]
      exact (Option.some.inj h).symm
  | _ =>
      simp only [gepIndex, Index.operand, operandConstU64, if_true, hty] at h
      simp only [firstStride, hty]
      split at h
      · cases h
      · next elemSize hsize =>
          rw [hsize]
          exact (Option.some.inj h).symm

/-- **A successful inference** adds up the scaled indices. -/
theorem inferGepOffset_eval {m : Module} {gep : GetElementPtr} {path : List (Level × Index)}
    (hidx : gep.indices = path.map (fun x => x.2.operand)) {b o : Z3Int}
    (h : inferGepOffset m gep b = some o) :
    o.eval = b.eval + ((steps (firstStride m gep) path).map Step.scaled).sum := by
  rw [inferGepOffset, hidx] at h
  cases path with
  | nil =>
      obtain rfl := Option.some.inj h
      simp [steps]
  | cons x path =>
      obtain ⟨c, hc, hrest⟩ := Option.bind_eq_some_iff.mp h
      rw [foldlM_gepIndex m gep path 0 c hrest, gepIndex_first hc, Z3Int.eval_add]
      simp only [steps, List.map_cons, List.sum_cons]
      exact add_assoc _ _ _

-- ── Indices that fit ─────────────────────────────────────────────────────────────

/-- The fixed stride is right for the index: it is zero, or it counts, upwards and without
    saturation, elements as large as the stride; or the field lies that many strides into the
    struct. -/
def Step.Fits (x : Step) : Prop :=
  match x.level with
  | .element size => x.index.value = 0
      ∨ size = x.stride.toNat ∧ x.index.signed = x.index.value.toNat
        ∧ x.index.value.toNat * x.stride.toNat < 2 ^ 64
  | .field offset => offset = x.index.value.toNat * x.stride.toNat ∧ offset < 2 ^ 64

instance (x : Step) : Decidable x.Fits := by
  unfold Step.Fits
  cases x.level <;> exact inferInstance

theorem saturatingMul_toNat {a b : UInt64} (h : a.toNat * b.toNat < 2 ^ 64) :
    (saturatingMul a b).toNat = a.toNat * b.toNat := by
  rw [saturatingMul, if_pos h, UInt64.toNat_mul, Nat.mod_eq_of_lt h]

theorem Index.signed_zero (bits : UInt32) : (⟨bits, 0⟩ : Index).signed = 0 := by
  simp [Index.signed]

/-- **An index that fits** is scaled to its displacement. -/
theorem Step.error_of_fits {x : Step} (h : x.Fits) : x.error = 0 := by
  obtain ⟨level, ⟨bits, value⟩, stride⟩ := x
  cases level with
  | element size =>
      rcases h with hzero | ⟨hsize, hsigned, hlt⟩
      · obtain rfl : value = 0 := hzero
        simp [Step.error, Step.scaled, Step.displacement, Level.displacement, Index.signed_zero,
          saturatingMul]
      · show ((saturatingMul value stride).toNat : Int) - (⟨bits, value⟩ : Index).signed * size = 0
        rw [saturatingMul_toNat hlt, hsigned, hsize, Nat.cast_mul]
        exact sub_self _
  | field offset =>
      obtain ⟨hoffset, hlt⟩ := h
      show ((saturatingMul value stride).toNat : Int) - offset = 0
      rw [saturatingMul_toNat (hoffset ▸ hlt), hoffset]
      exact sub_self _

/-- The indices the fixed strides are wrong for. -/
def misfits (m : Module) (gep : GetElementPtr) (path : List (Level × Index)) : List Step :=
  (steps (firstStride m gep) path).filter (fun x => ¬ x.Fits)

theorem sum_error_misfits (xs : List Step) :
    ((xs.filter (fun x => ¬ x.Fits)).map Step.error).sum = (xs.map Step.error).sum := by
  induction xs with
  | nil => rfl
  | cons x xs ih =>
      by_cases hx : x.Fits
      · rw [List.filter_cons_of_neg (by simpa using hx), ih, List.map_cons, List.sum_cons,
          Step.error_of_fits hx, zero_add]
      · rw [List.filter_cons_of_pos (by simpa using hx), List.map_cons, List.map_cons,
          List.sum_cons, List.sum_cons, ih]

theorem sum_scaled (xs : List Step) : (xs.map Step.scaled).sum
    = (xs.map Step.displacement).sum + (xs.map Step.error).sum := by
  induction xs with
  | nil => rfl
  | cons x xs ih =>
      simp only [List.map_cons, List.sum_cons, ih]
      unfold Step.error
      omega

theorem sum_displacement (first : UInt64) (path : List (Level × Index)) :
    ((steps first path).map Step.displacement).sum = llvmOffset path := by
  cases path with
  | nil => rfl
  | cons x path =>
      simp only [steps, llvmOffset, List.map_cons, List.map_map]
      rfl

-- ── The law ──────────────────────────────────────────────────────────────────────

/-- A module with the struct of `tests/dma_driver.c`, four `int`s long. -/
def dmaBufModule (functions : List Function) : Module :=
  ⟨functions, [("struct.dma_buf", .defined (.structType [.arrayType (.integerType 32) 4] false))]⟩

/-- `&buf->data[3]`. -/
def dataGep : GetElementPtr where
  address := .ptr "buf"
  indices := [.lit 32 0, .lit 32 0, .lit 64 3]
  dest := .name "data3"
  sourceElementType := .namedStructType "struct.dma_buf"

/-- `&buf[1]`. -/
def nextGep : GetElementPtr where
  address := .ptr "buf"
  indices := [.lit 64 1]
  dest := .name "next"
  sourceElementType := .namedStructType "struct.dma_buf"

/-- One `struct dma_buf` is allocated, and the one after it is written. -/
def nextDriver : Module := dmaBufModule [Function.ofBlocks "dma_module_init" [([
  .call (.direct "kmalloc" [.lit 64 16, .lit 32 0] (some (.name "buf"))),
  .getElementPtr nextGep,
  .store (.ptr "next") (.lit 32 42)], .ret none)]]

end SkvGep

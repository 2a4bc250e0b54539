import SentinelKv.SkvGepProofs
import SentinelKv.SkvHistoryProofs
import SentinelKv.SkvPathsProofs
import SentinelKv.SkvStraightLineProofs

/-!
# A machine next to the scan

The reference interpreter of straight-line code, with stack slots and with `getelementptr` by
LLVM's layout, and the relation that keeps it in step with the maps of the scan:

* `machineStep` is the machine, `pathInstrOk` the fragment: every pointer used was derived on
  the way, and each GEP is one whose offset the analyzer infers as LLVM does;
* **`Follows`** — the scan knows every object and every derived name of the machine.  It has
  seen more, so the two number their objects differently and the scan may have released more;
* **`visit_step`** — an instruction that the scan vouches for (`Vetted`) does not trap;
  **`Follows.skip`** — one that the scan alone processes is harmless.
-/

namespace SkvPathMachine

open BreakLoop ObjectHeap SkvIr SkvTypeSize SkvGate SkvAnalyze SkvTransfer SkvMapsInv SkvCertify
open SkvLookup SkvHistory SkvGep SkvStraightLine SkvPaths

-- ── The machine ──────────────────────────────────────────────────────────────────

/-- The reference interpreter with stack slots.  `some none` is a slot that holds no
    pointer. -/
structure Machine where
  ref   : Ref
  slots : Name → Option (Option Ptr)

def Machine.init : Machine := ⟨Ref.init, fun _ => none⟩

def Machine.lift (μ : Machine) (o : Option Ref) : Option Machine :=
  o.map (fun r => { μ with ref := r })

/-- The slot an address names. -/
def Machine.slotAt (μ : Machine) (op : Operand) : Option Name :=
  (operandLocalName op).filter (fun n => (μ.slots n).isSome)

def isPointer : IrType → Bool
  | .pointerType => true
  | _ => false

/-- A pointer read from a slot is bound; anything else read from one is not a pointer. -/
def Machine.reload (μ : Machine) (content : Option Ptr) (loadedTy : IrType) (dest : Name) :
    Machine :=
  match content with
  | some p => if isPointer loadedTy then { μ with ref := μ.ref.bind dest p } else μ
  | none => μ

/-- The instructions without an arm that access memory themselves. -/
def touchesMemory : Opcode → Bool
  | .cmpXchg | .atomicRMW | .vaArg => true
  | _ => false

def indexOf : Operand → Option Index
  | .constantOperand (.int bits value) => some ⟨bits, value⟩
  | _ => none

/-- The levels a GEP with literal indices goes through. -/
def gepPath (m : Module) (gep : GetElementPtr) : Option (List (Level × Index)) :=
  (gep.indices.mapM indexOf).bind
    (levels m (typeFuel m gep.sourceElementType) gep.sourceElementType)

/-- One instruction; `none` is a trap. -/
def machineStep (m : Module) (i : Instruction) (μ : Machine) : Option Machine :=
  match i with
  | .alloca dest => some { μ with slots := Function.update μ.slots dest (some none) }
  | .getElementPtr gep =>
      (gepPath m gep).bind (fun path =>
        μ.lift (μ.ref.move gep.address (llvmOffset path) gep.dest))
  | .store address value =>
      match μ.slotAt address with
      | some a => some { μ with slots := Function.update μ.slots a (some (μ.ref.ptr value)) }
      | none => μ.lift (refStep (.store address value) μ.ref)
  | .load address loadedTy dest =>
      match μ.slotAt address with
      | some a => some (μ.reload (μ.slots a).join loadedTy dest)
      | none => μ.lift (refStep (.load address loadedTy dest) μ.ref)
  | .other opcode _ _ => if touchesMemory opcode then none else some μ
  | i => μ.lift (refStep i μ.ref)

/-- A list of instructions, until it ends or traps. -/
def machineRun (m : Module) (is : List Instruction) (μ : Machine) : Option Machine :=
  is.foldlM (fun μ i => machineStep m i μ) μ

theorem machineRun_append (m : Module) (is js : List Instruction) (μ : Machine) :
    machineRun m (is ++ js) μ = (machineRun m is μ).bind (machineRun m js) :=
  List.foldlM_append

-- ── The fragment ─────────────────────────────────────────────────────────────────

/-- The derived pointers and integers of a path so far, its slots, and the slots that hold a
    derived pointer. -/
structure PathCtx extends Ctx where
  slots  : List Name
  filled : List Name

def PathCtx.init : PathCtx := ⟨⟨[], []⟩, [], []⟩

def PathCtx.slotOf (c : PathCtx) (op : Operand) : Option Name :=
  (operandLocalName op).filter (fun n => decide (n ∈ c.slots))

/-- The analyzer infers the offset LLVM computes: the errors of its fixed strides cancel. -/
def gepExact (m : Module) (gep : GetElementPtr) : Bool :=
  isPointer gep.address.typeOf
    && (gepPath m gep).any (fun path => ((misfits m gep path).map Step.error).sum == 0)

def pathInstrOk (m : Module) (c : PathCtx) (i : Instruction) : Bool :=
  match i with
  | .alloca _ => true
  | .getElementPtr gep => c.isPtr gep.address && gepExact m gep
  | .store address value => (c.slotOf address).isSome || instrOk c.toCtx (.store address value)
  | .load address loadedTy dest =>
      (c.slotOf address).isSome || instrOk c.toCtx (.load address loadedTy dest)
  | .other opcode _ _ => !touchesMemory opcode
  | i => instrOk c.toCtx i

/-- A store into a slot: it holds a derived pointer from now on, or none. -/
def PathCtx.fill (c : PathCtx) (a : Name) (isPtr : Bool) : PathCtx :=
  { c with filled := if isPtr then a :: c.filled else c.filled.filter (fun n => n ≠ a) }

def PathCtx.bind (c : PathCtx) (dest : Name) : PathCtx := { c with ptrs := dest :: c.ptrs }

def PathCtx.next (c : PathCtx) (i : Instruction) : PathCtx :=
  match i with
  | .alloca dest => { c with slots := dest :: c.slots }
  | .getElementPtr gep => c.bind gep.dest
  | .store address value =>
      match c.slotOf address with
      | some a => c.fill a (c.isPtr value)
      | none => c
  | .load address loadedTy dest =>
      match c.slotOf address with
      | some a => if a ∈ c.filled ∧ isPointer loadedTy then c.bind dest else c
      | none => c
  | .other _ _ _ => c
  | i => { c with toCtx := c.toCtx.next i }

def pathOk (m : Module) : PathCtx → List Instruction → Bool
  | _, [] => true
  | c, i :: is => pathInstrOk m c i && pathOk m (c.next i) is

/-- No fact of the context is about `n`. -/
def PathCtx.Fresh (c : PathCtx) (n : Name) : Prop := c.toCtx.Fresh n ∧ n ∉ c.slots

-- ── The relation ─────────────────────────────────────────────────────────────────

/-- The machine has the pointer `p`, the scan the binding `pv` of the same object and offset.
    Objects are numbered by the path, allocations by the scan; `ρ` takes one to the other. -/
def SamePtr (ρ : Nat → Nat) (heap : Heap) (pv : Option PtrVal) (p : Option Ptr) : Prop :=
  ∃ id off, pv = some (.kmalloc (ρ id) off) ∧ p = some (id, off.eval) ∧ id < heap.length

def SameInt (ρ : Nat → Nat) (heap : Heap) (iv : Option IntVal) (p : Option Ptr) : Prop :=
  ∃ id off, iv = some (.ptrOffset (ρ id) off) ∧ p = some (id, off.eval) ∧ id < heap.length

/-- The scan knows every object and every derived name of the path; what the path has
    released, it has released too. -/
structure Follows (c : PathCtx) (ρ : Nat → Nat) (μ : Machine) (t : Maps) : Prop where
  sizes  : ∀ id o, μ.ref.heap[id]? = some o →
    ∃ z, t.allocSizes (ρ id) = some z ∧ z.eval = o.size
  dead   : ∀ id o, μ.ref.heap[id]? = some o → o.live = false → ρ id ∈ t.freedAllocs
  ptrs   : ∀ n ∈ c.ptrs, SamePtr ρ μ.ref.heap (t.ptrEnv n) (μ.ref.env n)
  ints   : ∀ n ∈ c.ints, SameInt ρ μ.ref.heap (t.intEnv n) (μ.ref.env n)
  slots  : ∀ a, (μ.slots a).isSome ↔ a ∈ c.slots
  known  : ∀ a ∈ c.slots, a ∈ t.allocaNames
  filled : ∀ a ∈ c.filled, a ∈ c.slots
    ∧ SamePtr ρ μ.ref.heap (t.allocaStoreMap a) (μ.slots a).join

theorem follows_init (t : Maps) : Follows .init id .init t where
  sizes := fun _ _ h => nomatch h
  dead := fun _ _ h => nomatch h
  ptrs := fun _ h => nomatch h
  ints := fun _ h => nomatch h
  slots := fun _ => ⟨fun h => (nomatch h), fun h => (nomatch h)⟩
  known := fun _ h => nomatch h
  filled := fun _ h => nomatch h

section Updates

variable {c : PathCtx} {ρ : Nat → Nat} {μ : Machine} {t : Maps}

theorem Follows.slotAt (h : Follows c ρ μ t) (op : Operand) : μ.slotAt op = c.slotOf op := by
  unfold Machine.slotAt PathCtx.slotOf
  congr 1
  funext n
  exact Bool.eq_iff_iff.mpr ((h.slots n).trans decide_eq_true_iff.symm)

/-- A pointer operand of the fragment, on both sides. -/
theorem Follows.ptr (h : Follows c ρ μ t) {op : Operand} (hop : c.isPtr op = true) :
    ∃ n ty id off, op = .localOperand n ty ∧ t.ptrEnv n = some (.kmalloc (ρ id) off)
      ∧ μ.ref.ptr op = some (id, off.eval) ∧ id < μ.ref.heap.length := by
  cases op with
  | constantOperand k => cases hop
  | metadataOperand => cases hop
  | localOperand n ty =>
      obtain ⟨id, off, ht, hμ, hid⟩ := h.ptrs n (of_decide_eq_true hop)
      exact ⟨n, ty, id, off, rfl, ht, hμ, hid⟩

theorem Follows.int (h : Follows c ρ μ t) {op : Operand} (hop : c.isInt op = true) :
    ∃ n ty id off, op = .localOperand n ty ∧ t.intEnv n = some (.ptrOffset (ρ id) off)
      ∧ μ.ref.ptr op = some (id, off.eval) ∧ id < μ.ref.heap.length := by
  cases op with
  | constantOperand k => cases hop
  | metadataOperand => cases hop
  | localOperand n ty =>
      obtain ⟨id, off, ht, hμ, hid⟩ := h.ints n (of_decide_eq_true hop)
      exact ⟨n, ty, id, off, rfl, ht, hμ, hid⟩

/-- **What the scan found in order is in order for the machine.** -/
theorem Follows.access (h : Follows c ρ μ t) {id : Nat} {off : Z3Int}
    (hid : id < μ.ref.heap.length) {len : UInt64} (hok : AccessOk t (ρ id) off (some len)) :
    μ.ref.heap.valid (id, off.eval) len.toNat = true := by
  obtain ⟨n, allocSize, hn, hlive, hsize, hin⟩ := hok
  obtain rfl := Option.some.inj hn
  have hget : μ.ref.heap[id]? = some μ.ref.heap[id] := List.getElem?_eq_getElem hid
  obtain ⟨z, hz, heval⟩ := h.sizes id _ hget
  obtain rfl : z = allocSize := Option.some.inj (hz.symm.trans hsize)
  have halive : μ.ref.heap[id].live = true := by
    cases hl : μ.ref.heap[id].live with
    | true => rfl
    | false => exact absurd (h.dead id _ hget hl) hlive
  unfold Heap.valid
  simp only [hget, halive, Bool.true_and, Bool.and_eq_true, decide_eq_true_eq]
  exact ⟨hin.1, heval ▸ hin.2⟩

/-- Binding a fresh name to the same pointer on both sides. -/
theorem Follows.bindPtr (h : Follows c ρ μ t) {dest : Name} (hfresh : c.Fresh dest) {id : Nat}
    (off : Z3Int) (hid : id < μ.ref.heap.length) :
    Follows (c.bind dest) ρ { μ with ref := μ.ref.bind dest (id, off.eval) }
      (t.bindPtr dest (.kmalloc (ρ id) off)) where
  sizes := h.sizes
  dead := h.dead
  ptrs := by
    intro n hn
    by_cases hnd : n = dest
    · exact ⟨id, off, by rw [hnd]; exact Function.update_self .., by
        rw [hnd]; exact Function.update_self .., hid⟩
    · obtain ⟨id', off', ht, hμ, hid'⟩ := h.ptrs n ((List.mem_cons.mp hn).resolve_left hnd)
      exact ⟨id', off', (Function.update_of_ne hnd _ _).trans ht,
        (Function.update_of_ne hnd _ _).trans hμ, hid'⟩
  ints := by
    intro n hn
    have hnd : n ≠ dest := fun heq => hfresh.1.2 (heq ▸ hn)
    obtain ⟨id', off', ht, hμ, hid'⟩ := h.ints n hn
    exact ⟨id', off', ht, (Function.update_of_ne hnd _ _).trans hμ, hid'⟩
  slots := h.slots
  known := h.known
  filled := h.filled

/-- Binding a fresh name to the same pointer-derived integer on both sides. -/
theorem Follows.bindInt (h : Follows c ρ μ t) {dest : Name} (hfresh : c.Fresh dest) {id : Nat}
    (off : Z3Int) (hid : id < μ.ref.heap.length) :
    Follows { c with ints := dest :: c.ints } ρ
      { μ with ref := μ.ref.bind dest (id, off.eval) }
      (t.bindInt dest (.ptrOffset (ρ id) off)) where
  sizes := h.sizes
  dead := h.dead
  ptrs := by
    intro n hn
    have hnd : n ≠ dest := fun heq => hfresh.1.1 (heq ▸ hn)
    obtain ⟨id', off', ht, hμ, hid'⟩ := h.ptrs n hn
    exact ⟨id', off', ht, (Function.update_of_ne hnd _ _).trans hμ, hid'⟩
  ints := by
    intro n hn
    by_cases hnd : n = dest
    · exact ⟨id, off, by rw [hnd]; exact Function.update_self .., by
        rw [hnd]; exact Function.update_self .., hid⟩
    · obtain ⟨id', off', ht, hμ, hid'⟩ := h.ints n ((List.mem_cons.mp hn).resolve_left hnd)
      exact ⟨id', off', (Function.update_of_ne hnd _ _).trans ht,
        (Function.update_of_ne hnd _ _).trans hμ, hid'⟩
  slots := h.slots
  known := h.known
  filled := h.filled

/-- A new object takes the next number of the machine and the next id of the scan. -/
theorem Follows.newAlloc (h : Follows c ρ μ t) (hinv : MapsInv t) (size : UInt64) :
    Follows c (Function.update ρ μ.ref.heap.length t.allocCounter)
      { μ with ref := { μ.ref with heap := μ.ref.heap.alloc size.toNat } }
      (t.newAlloc size) := by
  -- the objects there were keep their ids, which lie below the counter
  have hold : ∀ {id}, id < μ.ref.heap.length →
      Function.update ρ μ.ref.heap.length t.allocCounter id = ρ id :=
    fun hid => Function.update_of_ne (Nat.ne_of_lt hid) _ _
  have hlen : μ.ref.heap.length < (μ.ref.heap.alloc size.toNat).length := by
    rw [Heap.alloc, List.length_append]
    exact Nat.lt_succ_self _
  have hptr : ∀ {pv p}, SamePtr ρ μ.ref.heap pv p →
      SamePtr (Function.update ρ μ.ref.heap.length t.allocCounter)
        (μ.ref.heap.alloc size.toNat) pv p := by
    rintro pv p ⟨id, off, hpv, hp, hid⟩
    exact ⟨id, off, by rw [hold hid]; exact hpv, hp, Nat.lt_trans hid hlen⟩
  refine ⟨?_, ?_, fun n hn => hptr (h.ptrs n hn), ?_, h.slots, h.known,
    fun a ha => ⟨(h.filled a ha).1, hptr (h.filled a ha).2⟩⟩
  · intro id o ho
    rcases getElem?_alloc_cases ho with ⟨rfl, rfl⟩ | ho
    · exact ⟨.fromU64 size, by rw [Function.update_self]; exact Function.update_self .., rfl⟩
    · have hid := (List.getElem?_eq_some_iff.mp ho).1
      obtain ⟨z, hz, heval⟩ := h.sizes id o ho
      have hlt : ρ id < t.allocCounter := (hinv.sizes (ρ id)).mp (by rw [hz]; rfl)
      refine ⟨z, ?_, heval⟩
      rw [hold hid]
      exact (Function.update_of_ne (Nat.ne_of_lt hlt) _ _).trans hz
  · intro id o ho hl
    rcases getElem?_alloc_cases ho with ⟨rfl, rfl⟩ | ho
    · cases hl
    · rw [hold (List.getElem?_eq_some_iff.mp ho).1]
      exact h.dead id o ho hl
  · intro n hn
    obtain ⟨id, off, hi, hp, hid⟩ := h.ints n hn
    exact ⟨id, off, by rw [hold hid]; exact hi, hp, Nat.lt_trans hid hlen⟩

theorem Follows.alloc (h : Follows c ρ μ t) (hinv : MapsInv t) {dest : Option Name}
    (hfresh : ∀ n, dest = some n → c.Fresh n) (size : UInt64) :
    ∃ ρ', Follows { c with ptrs := dest.toList ++ c.ptrs } ρ'
      { μ with ref := μ.ref.alloc dest size.toNat } (t.kmalloc dest size) := by
  have hnew := h.newAlloc hinv size
  refine ⟨Function.update ρ μ.ref.heap.length t.allocCounter, ?_⟩
  cases dest with
  | none => exact hnew
  | some n =>
      have hlen : μ.ref.heap.length < (μ.ref.heap.alloc size.toNat).length := by
        rw [Heap.alloc, List.length_append]
        exact Nat.lt_succ_self _
      have hbind := hnew.bindPtr (hfresh n rfl) (.fromU64 0) hlen
      rw [Function.update_self] at hbind
      exact hbind

/-- Releasing an object the scan has not released. -/
theorem Follows.free (h : Follows c ρ μ t) {op : Operand} {id : Nat} {off : Int}
    (hp : μ.ref.ptr op = some (id, off)) (hid : id < μ.ref.heap.length)
    (hlive : ρ id ∉ t.freedAllocs) :
    ∃ r, μ.ref.free op = some r ∧ Follows c ρ { μ with ref := r } (t.free (ρ id)) := by
  have hget : μ.ref.heap[id]? = some μ.ref.heap[id] := List.getElem?_eq_getElem hid
  have halive : μ.ref.heap[id].live = true := by
    cases hl : μ.ref.heap[id].live with
    | true => rfl
    | false => exact absurd (h.dead id _ hget hl) hlive
  have hfree : μ.ref.heap.free (id, off)
      = some (μ.ref.heap.set id { μ.ref.heap[id] with live := false }) := by
    unfold Heap.free
    simp only [hget, halive, if_true]
  refine ⟨_, by rw [Ref.free, hp, Option.bind_some, hfree]; rfl, ?_⟩
  have hsame : ∀ {pv p}, SamePtr ρ μ.ref.heap pv p →
      SamePtr ρ (μ.ref.heap.set id { μ.ref.heap[id] with live := false }) pv p := by
    rintro pv p ⟨id', off', hpv, hp', hid'⟩
    exact ⟨id', off', hpv, hp', by rw [List.length_set]; exact hid'⟩
  refine ⟨?_, ?_, fun n hn => hsame (h.ptrs n hn), ?_, h.slots, h.known,
    fun a ha => ⟨(h.filled a ha).1, hsame (h.filled a ha).2⟩⟩
  · intro id' o ho
    by_cases heq : id = id'
    · subst heq
      rw [List.getElem?_set_self hid] at ho
      obtain rfl := Option.some.inj ho
      obtain ⟨z, hz, heval⟩ := h.sizes id _ hget
      exact ⟨z, hz, heval⟩
    · rw [List.getElem?_set_ne heq] at ho
      exact h.sizes id' o ho
  · intro id' o ho hl
    by_cases heq : id = id'
    · subst heq
      exact Finset.mem_insert_self _ _
    · rw [List.getElem?_set_ne heq] at ho
      exact Finset.mem_insert_of_mem (h.dead id' o ho hl)
  · intro n hn
    obtain ⟨id', off', hi, hp', hid'⟩ := h.ints n hn
    exact ⟨id', off', hi, hp', by rw [List.length_set]; exact hid'⟩

/-- **An instruction the machine takes no note of**: its result is fresh, and it spills into
    none of the filled slots. -/
theorem Follows.skip (h : Follows c ρ μ t) (hinv : MapsInv t) (m : Module) (dma : DmaPolicy)
    {i : Instruction} (hres : ∀ n, i.tryGetResult = some n → c.Fresh n)
    (hspill : ∀ n, spillsTo i = some n → n ∈ t.allocaNames → n ∉ c.filled) :
    Follows c ρ μ (transfer m dma i t) := by
  have hframe := transfer_frame m dma i t
  have hkeep : ∀ {n}, ¬ c.Fresh n → i.tryGetResult ≠ some n := fun hn hr => hn (hres _ hr)
  refine ⟨?_, fun id o ho hl => hframe.freed (h.dead id o ho hl), ?_, ?_, h.slots, ?_, ?_⟩
  · intro id o ho
    obtain ⟨z, hz, heval⟩ := h.sizes id o ho
    have hlt : ρ id < t.allocCounter := (hinv.sizes (ρ id)).mp (by rw [hz]; rfl)
    refine ⟨z, ?_, heval⟩
    rw [← delta_apply, allocSizes_apply _ _ hlt]
    exact hz
  · intro n hn
    rw [hframe.ptr n (hkeep (fun hf => hf.1.1 hn))]
    exact h.ptrs n hn
  · intro n hn
    rw [hframe.int n (hkeep (fun hf => hf.1.2 hn))]
    exact h.ints n hn
  · intro a ha
    by_cases hnew : allocaOf i = some a
    · cases i with
      | alloca dest =>
          obtain rfl : dest = a := Option.some.inj hnew
          exact Finset.mem_insert_self _ _
      | _ => cases hnew
    · exact (hframe.allocas a hnew).mpr (h.known a ha)
  · intro a ha
    refine ⟨(h.filled a ha).1, ?_⟩
    rw [hframe.slot a (fun hs hmem => hspill a hs hmem ha)]
    exact (h.filled a ha).2

/-- A fresh name of the machine is no fact of the context. -/
theorem Follows.bindRef (h : Follows c ρ μ t) {dest : Name} (hfresh : c.Fresh dest) (p : Ptr) :
    Follows c ρ { μ with ref := μ.ref.bind dest p } t where
  sizes := h.sizes
  dead := h.dead
  ptrs := by
    intro n hn
    have hnd : n ≠ dest := fun heq => hfresh.1.1 (heq ▸ hn)
    obtain ⟨id, off, ht, hμ, hid⟩ := h.ptrs n hn
    exact ⟨id, off, ht, (Function.update_of_ne hnd _ _).trans hμ, hid⟩
  ints := by
    intro n hn
    have hnd : n ≠ dest := fun heq => hfresh.1.2 (heq ▸ hn)
    obtain ⟨id, off, ht, hμ, hid⟩ := h.ints n hn
    exact ⟨id, off, ht, (Function.update_of_ne hnd _ _).trans hμ, hid⟩
  slots := h.slots
  known := h.known
  filled := h.filled

theorem Follows.alloca (h : Follows c ρ μ t) {dest : Name} (hfresh : c.Fresh dest) :
    Follows { c with slots := dest :: c.slots } ρ
      { μ with slots := Function.update μ.slots dest (some none) }
      { t with allocaNames := insert dest t.allocaNames } where
  sizes := h.sizes
  dead := h.dead
  ptrs := h.ptrs
  ints := h.ints
  slots := by
    intro a
    by_cases ha : a = dest
    · rw [ha]
      simp only [Function.update_self, Option.isSome_some, List.mem_cons, true_or]
    · simp only [Function.update_of_ne ha, h.slots a, List.mem_cons, ha, false_or]
  known := by
    intro a ha
    rcases List.mem_cons.mp ha with rfl | ha
    · exact Finset.mem_insert_self _ _
    · exact Finset.mem_insert_of_mem (h.known a ha)
  filled := by
    intro a ha
    obtain ⟨hslot, hsame⟩ := h.filled a ha
    have hne : a ≠ dest := fun heq => hfresh.2 (heq ▸ hslot)
    refine ⟨List.mem_cons_of_mem dest hslot, ?_⟩
    show SamePtr ρ μ.ref.heap (t.allocaStoreMap a)
      (Function.update μ.slots dest (some none) a).join
    rw [Function.update_of_ne hne]
    exact hsame

/-- A store into a slot of the path. -/
theorem Follows.fill (h : Follows c ρ μ t) {a : Name} (ha : a ∈ c.slots) (value : Operand) :
    Follows (c.fill a (c.isPtr value)) ρ
      { μ with slots := Function.update μ.slots a (some (μ.ref.ptr value)) }
      (t.spill a value) := by
  obtain ⟨hptr, hfreed, hsizes⟩ := spill_frame t a value
  obtain ⟨hint, hnames⟩ : (t.spill a value).intEnv = t.intEnv
      ∧ (t.spill a value).allocaNames = t.allocaNames := by
    unfold Maps.spill
    repeat' split
    all_goals exact ⟨rfl, rfl⟩
  -- the other slots, on both sides
  have hother : ∀ b ∈ c.filled, b ≠ a → b ∈ c.slots
      ∧ SamePtr ρ μ.ref.heap ((t.spill a value).allocaStoreMap b)
        (Function.update μ.slots a (some (μ.ref.ptr value)) b).join := by
    intro b hb hne
    obtain ⟨hslot, hsame⟩ := h.filled b hb
    have hkeep := (spill_slot_frame .pointerType t a value).slot b (fun hs => by
      cases value with
      | localOperand n ty => exact absurd (Option.some.inj hs).symm hne
      | _ => cases hs)
    refine ⟨hslot, ?_⟩
    rw [hkeep, Function.update_of_ne hne]
    exact hsame
  refine ⟨?_, ?_, ?_, ?_, ?_, ?_, ?_⟩
  · rw [hsizes]; exact h.sizes
  · rw [hfreed]; exact h.dead
  · rw [hptr]; exact h.ptrs
  · rw [hint]; exact h.ints
  · intro b
    by_cases hb : b = a
    · rw [hb]
      exact ⟨fun _ => ha, fun _ => by
        show (Function.update μ.slots a (some (μ.ref.ptr value)) a).isSome = true
        rw [Function.update_self]
        rfl⟩
    · show (Function.update μ.slots a (some (μ.ref.ptr value)) b).isSome = true ↔ b ∈ c.slots
      rw [Function.update_of_ne hb]
      exact h.slots b
  · rw [hnames]; exact h.known
  · intro b hb
    cases hval : c.isPtr value with
    | false =>
        have hb' : b ∈ c.filled.filter (fun n => n ≠ a) := by
          rw [hval] at hb
          exact hb
        obtain ⟨hmem, hne⟩ := List.mem_filter.mp hb'
        exact hother b hmem (of_decide_eq_true hne)
    | true =>
        have hb' : b ∈ a :: c.filled := by
          rw [hval] at hb
          exact hb
        by_cases hne : b = a
        · obtain ⟨n, ty, id, off, rfl, ht, hμ, hid⟩ := h.ptr hval
          subst hne
          refine ⟨ha, id, off, ?_, ?_, hid⟩
          · unfold Maps.spill
            simp only [if_pos (h.known b ha), ht, Function.update_self]
          · show (Function.update μ.slots b (some (μ.ref.ptr (.localOperand n ty))) b).join = _
            rw [Function.update_self]
            exact hμ
        · exact hother b ((List.mem_cons.mp hb').resolve_left hne) hne

end Updates

-- ── One instruction of the path ──────────────────────────────────────────────────

/-- A `kcalloc` of literals whose product fits 64 bits. -/
def CallocFits : Instruction → Prop
  | .call call => functionNameOfCall call = some "kcalloc" → ∀ nmemb size,
      call.arguments.head?.bind operandConstU64 = some nmemb →
      call.arguments[1]?.bind operandConstU64 = some size →
      nmemb.toNat * size.toNat < 2 ^ 64
  | _ => True

/-- What a `Pass` says of an instruction and the maps before it. -/
structure Vetted (m : Module) (dma : DmaPolicy) (t : Maps) (i : Instruction) : Prop where
  certified : Certified m dma t i
  fits      : CallocFits i

theorem memFn_name {name : Option String} {fn : MemFn} (h : memFn name = some fn) :
    match fn with
    | .alloc => name = some "kmalloc" ∨ name = some "kzalloc"
    | .calloc => name = some "kcalloc"
    | .free => name = some "kfree"
    | .set => name = some "memset"
    | .copy => name = some "memcpy" ∨ name = some "__memcpy" := by
  unfold memFn at h
  split at h <;> cases h <;> simp

section Visit

variable {m : Module} {dma : DmaPolicy} {c : PathCtx} {ρ : Nat → Nat} {μ : Machine} {t : Maps}

/-- An access of the fragment does not trap. -/
theorem Follows.access_some (h : Follows c ρ μ t) {op : Operand} (hop : c.isPtr op = true)
    (len : UInt64)
    (hok : ∀ id off, KmallocAt t op id off → AccessOk t id off (some len)) :
    μ.ref.access op len.toNat = some μ.ref := by
  obtain ⟨n, ty, id, off, rfl, ht, hμ, hid⟩ := h.ptr hop
  have hvalid := h.access hid (hok (ρ id) off ht)
  rw [Ref.access, hμ, Option.bind_some, if_pos hvalid]

/-- The calls of the fragment, by memory function. -/
inductive FragmentCall (c : Ctx) (call : Call) : Prop
  | alloc {sizeOp : Operand} {rest : List Operand} {size : UInt64}
      (name : functionNameOfCall call = some "kmalloc" ∨ functionNameOfCall call = some "kzalloc")
      (args : call.arguments = sizeOp :: rest) (hsize : operandConstU64 sizeOp = some size)
  | calloc {nmembOp sizeOp : Operand} {rest : List Operand} {nmemb size : UInt64}
      (name : functionNameOfCall call = some "kcalloc")
      (args : call.arguments = nmembOp :: sizeOp :: rest)
      (hnmemb : operandConstU64 nmembOp = some nmemb) (hsize : operandConstU64 sizeOp = some size)
  | free {ptrOp : Operand} {rest : List Operand} (name : functionNameOfCall call = some "kfree")
      (args : call.arguments = ptrOp :: rest) (hptr : c.isPtr ptrOp = true)
  | set {destOp valOp lenOp : Operand} {rest : List Operand} {len : UInt64}
      (name : functionNameOfCall call = some "memset")
      (args : call.arguments = destOp :: valOp :: lenOp :: rest) (hdest : c.isPtr destOp = true)
      (hlen : operandConstU64 lenOp = some len)
  | copy {destOp srcOp lenOp : Operand} {rest : List Operand} {len : UInt64}
      (name : functionNameOfCall call = some "memcpy" ∨ functionNameOfCall call = some "__memcpy")
      (args : call.arguments = destOp :: srcOp :: lenOp :: rest) (hdest : c.isPtr destOp = true)
      (hsrc : c.isPtr srcOp = true) (hlen : operandConstU64 lenOp = some len)

theorem fragmentCall_of_callOk {c : Ctx} {call : Call} (hok : callOk c call = true) :
    FragmentCall c call := by
  unfold callOk at hok
  cases hfn : memFn (functionNameOfCall call) with
  | none => simp only [hfn] at hok; cases hok
  | some fn =>
      have hname := memFn_name hfn
      cases fn with
      | alloc =>
          rcases hargs : call.arguments with _ | ⟨sizeOp, rest⟩ <;>
            simp only [hfn, hargs] at hok
          · cases hok
          · obtain ⟨size, hsize⟩ := Option.isSome_iff_exists.mp hok
            exact .alloc hname hargs hsize
      | calloc =>
          rcases hargs : call.arguments with _ | ⟨nmembOp, _ | ⟨sizeOp, rest⟩⟩ <;>
            simp only [hfn, hargs] at hok
          · cases hok
          · cases hok
          · obtain ⟨hnmemb, hsize⟩ := (Bool.and_eq_true _ _).mp hok
            obtain ⟨nmemb, hnmemb⟩ := Option.isSome_iff_exists.mp hnmemb
            obtain ⟨size, hsize⟩ := Option.isSome_iff_exists.mp hsize
            exact .calloc hname hargs hnmemb hsize
      | free =>
          rcases hargs : call.arguments with _ | ⟨ptrOp, rest⟩ <;> simp only [hfn, hargs] at hok
          · cases hok
          · exact .free hname hargs hok
      | set =>
          rcases hargs : call.arguments with _ | ⟨destOp, _ | ⟨valOp, _ | ⟨lenOp, rest⟩⟩⟩ <;>
            simp only [hfn, hargs] at hok
          · cases hok
          · cases hok
          · cases hok
          · obtain ⟨hdest, hlen⟩ := (Bool.and_eq_true _ _).mp hok
            obtain ⟨len, hlen⟩ := Option.isSome_iff_exists.mp hlen
            exact .set hname hargs hdest hlen
      | copy =>
          rcases hargs : call.arguments with _ | ⟨destOp, _ | ⟨srcOp, _ | ⟨lenOp, rest⟩⟩⟩ <;>
            simp only [hfn, hargs] at hok
          · cases hok
          · cases hok
          · cases hok
          · obtain ⟨hptrs, hlen⟩ := (Bool.and_eq_true _ _).mp hok
            obtain ⟨hdest, hsrc⟩ := (Bool.and_eq_true _ _).mp hptrs
            obtain ⟨len, hlen⟩ := Option.isSome_iff_exists.mp hlen
            exact .copy hname hargs hdest hsrc hlen

/-- A call of the fragment runs, on an object the scan vouches for. -/
theorem visit_call (h : Follows c ρ μ t) (hinv : MapsInv t) {call : Call}
    (hok : callOk c.toCtx call = true) (hfresh : ∀ n, call.dest = some n → c.Fresh n)
    (hv : Vetted m dma t (.call call)) :
    ∃ ρ' r, refCall call μ.ref = some r
      ∧ Follows { c with toCtx := c.toCtx.next (.call call) } ρ' { μ with ref := r }
        (transferCall dma call t) := by
  have hcert : CallCertified dma call t := hv.certified
  cases fragmentCall_of_callOk hok with
  | @alloc sizeOp rest size name args hsize =>
      obtain ⟨ρ', h'⟩ := h.alloc hinv hfresh size
      have hfn : memFn (functionNameOfCall call) = some .alloc := by
        rcases name with name | name <;> rw [name] <;> rfl
      refine ⟨ρ', μ.ref.alloc call.dest size.toNat, ?_, ?_⟩
      · simp only [refCall, hfn, args, hsize, Option.map_some]
      · simp only [Ctx.next, hfn, transferCall, callArm_of_memFn hfn dma, MemFn.arm, kmallocMaps,
          args, List.head?_cons, Option.bind_some, hsize]
        exact h'
  | @calloc nmembOp sizeOp rest nmemb size name args hnmemb hsize =>
      have hfn : memFn (functionNameOfCall call) = some .calloc := by rw [name]; rfl
      have hfits : nmemb.toNat * size.toNat < 2 ^ 64 :=
        hv.fits name nmemb size (by rw [args]; exact hnmemb) (by rw [args]; exact hsize)
      have hmul : checkedMul nmemb size = some (nmemb * size) := if_pos hfits
      obtain ⟨hprod, -⟩ := checkedMul_eq_some hmul
      obtain ⟨ρ', h'⟩ := h.alloc hinv hfresh (nmemb * size)
      rw [hprod] at h'
      refine ⟨ρ', μ.ref.alloc call.dest (nmemb.toNat * size.toNat), ?_, ?_⟩
      · simp only [refCall, hfn, args, hnmemb, hsize, Option.bind_some, if_pos hfits]
      · simp only [Ctx.next, hfn, transferCall, callArm_of_memFn hfn dma, MemFn.arm, kcallocMaps,
          args, List.head?_cons, List.getElem?_cons_succ, List.getElem?_cons_zero,
          Option.bind_some, hnmemb, hsize, hmul]
        exact h'
  | @free ptrOp rest name args hptr =>
      have hfn : memFn (functionNameOfCall call) = some .free := by rw [name]; rfl
      obtain ⟨n, ty, id, off, rfl, ht, hμ, hid⟩ := h.ptr hptr
      have hlive : ρ id ∉ t.freedAllocs :=
        hcert.kfree name (.localOperand n ty) (by rw [args]; rfl) (ρ id) off ht
      obtain ⟨r, hr, h'⟩ := h.free hμ hid hlive
      refine ⟨ρ, r, ?_, ?_⟩
      · simp only [refCall, hfn, args]
        exact hr
      · simp only [Ctx.next, hfn, transferCall, callArm_of_memFn hfn dma, MemFn.arm, kfreeMaps,
          args, List.head?_cons, Option.bind_some, operandLocalName_local, ht]
        exact h'
  | @set destOp valOp lenOp rest len name args hdest hlen =>
      have hfn : memFn (functionNameOfCall call) = some .set := by rw [name]; rfl
      have hsize : call.arguments[2]?.bind operandConstU64 = some len := by rw [args]; exact hlen
      have hacc := h.access_some hdest len (fun id off hk =>
        hsize ▸ hcert.memset name destOp (by rw [args]; rfl) id off hk)
      refine ⟨ρ, μ.ref, ?_, ?_⟩
      · simp only [refCall, hfn, args, hlen, Option.bind_some, hacc]
      · simp only [Ctx.next, hfn, transferCall, callArm_of_memFn hfn dma, MemFn.arm]
        exact h
  | @copy destOp srcOp lenOp rest len name args hdest hsrc hlen =>
      have hfn : memFn (functionNameOfCall call) = some .copy := by
        rcases name with name | name <;> rw [name] <;> rfl
      have hsize : call.arguments[2]?.bind operandConstU64 = some len := by rw [args]; exact hlen
      have hboth : ∀ op ∈ [destOp, srcOp], ∀ id off, KmallocAt t op id off →
          AccessOk t id off (some len) := fun op hop id off hk =>
        hsize ▸ hcert.memcpy name op (by rw [args]; exact hop) id off hk
      have hd := h.access_some hdest _ (hboth destOp List.mem_cons_self)
      have hs := h.access_some hsrc _ (hboth srcOp (List.mem_cons_of_mem _ List.mem_cons_self))
      refine ⟨ρ, μ.ref, ?_, ?_⟩
      · simp only [refCall, hfn, args, hlen, Option.bind_some, hd, hs]
      · simp only [Ctx.next, hfn, transferCall, callArm_of_memFn hfn dma, MemFn.arm]
        exact h

theorem indices_of_mapM {ops : List Operand} {is : List Index} (h : ops.mapM indexOf = some is) :
    ops = is.map Index.operand := by
  induction ops generalizing is with
  | nil =>
      obtain rfl := Option.some.inj h
      rfl
  | cons op ops ih =>
      rw [List.mapM_cons] at h
      obtain ⟨i, hi, hrest⟩ := Option.bind_eq_some_iff.mp h
      obtain ⟨is', his, hcons⟩ := Option.bind_eq_some_iff.mp hrest
      obtain rfl := Option.some.inj hcons
      have hop : op = i.operand := by
        cases op with
        | constantOperand k =>
            cases k with
            | int bits value =>
                obtain rfl := Option.some.inj hi
                rfl
            | _ => cases hi
        | _ => cases hi
      rw [List.map_cons, ← ih his, hop]

/-- Literal indices off a pointer are always followed. -/
theorem inferGepOffset_isSome {gep : GetElementPtr}
    (hpointer : isPointer gep.address.typeOf = true) :
    ∀ (is : List Index) (k : Nat) (b : Z3Int),
      ∃ o, ((is.map Index.operand).zipIdx k).foldlM (gepIndex m gep) b = some o := by
  have hty : gep.address.typeOf = .pointerType := by
    cases h : gep.address.typeOf with
    | pointerType => rfl
    | _ => rw [h] at hpointer; cases hpointer
  intro is
  induction is with
  | nil => intro k b; exact ⟨b, rfl⟩
  | cons i is ih =>
      intro k b
      have hstep : ∃ c, gepIndex m gep b (i.operand, k) = some c := by
        simp only [gepIndex, Index.operand, operandConstU64, hty]
        split <;> exact ⟨_, rfl⟩
      obtain ⟨c, hc⟩ := hstep
      obtain ⟨o, ho⟩ := ih (k + 1) c
      exact ⟨o, by rw [List.map_cons, List.zipIdx_cons, List.foldlM_cons, hc]; exact ho⟩

/-- The analyzer moves the pointer by the bytes LLVM adds. -/
theorem inferGepOffset_exact {gep : GetElementPtr} (hok : gepExact m gep = true) (b : Z3Int) :
    ∃ path o, gepPath m gep = some path ∧ inferGepOffset m gep b = some o
      ∧ o.eval = b.eval + llvmOffset path := by
  obtain ⟨hpointer, hany⟩ := (Bool.and_eq_true _ _).mp hok
  cases hpath : gepPath m gep with
  | none => rw [hpath] at hany; cases hany
  | some path =>
      rw [hpath] at hany
      have hzero : ((misfits m gep path).map Step.error).sum = 0 := eq_of_beq hany
      obtain ⟨is, his, hlevels⟩ := Option.bind_eq_some_iff.mp hpath
      have hidx : gep.indices = is.map Index.operand := indices_of_mapM his
      obtain ⟨o, ho⟩ : ∃ o, inferGepOffset m gep b = some o := by
        rw [inferGepOffset, hidx]
        exact inferGepOffset_isSome hpointer is 0 b
      rw [← levels_indices hlevels, List.map_map] at hidx
      refine ⟨path, o, rfl, ho, ?_⟩
      rw [inferGepOffset_eval hidx ho, sum_scaled, sum_displacement, ← sum_error_misfits]
      rw [show (steps (firstStride m gep) path).filter (fun x => ¬ x.Fits)
        = misfits m gep path from rfl, hzero, Int.add_zero]

theorem visit_gep (h : Follows c ρ μ t) {gep : GetElementPtr} (hptr : c.isPtr gep.address = true)
    (hexact : gepExact m gep = true) (hfresh : c.Fresh gep.dest) :
    ∃ μ', machineStep m (.getElementPtr gep) μ = some μ'
      ∧ Follows (c.bind gep.dest) ρ μ' (t.bindPtr gep.dest (gepVal m gep t)) := by
  obtain ⟨n, ty, id, off, haddr, ht, hμ, hid⟩ := h.ptr hptr
  obtain ⟨path, o, hpath, ho, heval⟩ := inferGepOffset_exact hexact off
  have hval : gepVal m gep t = .kmalloc (ρ id) o := by
    simp only [gepVal, haddr, operandLocalName_local, Option.bind_some, gepBase, ht,
      Option.some_or, ho]
  refine ⟨{ μ with ref := μ.ref.bind gep.dest (id, o.eval) }, ?_, ?_⟩
  · simp only [machineStep, hpath, Option.bind_some, Ref.move, hμ, Option.map_some, Machine.lift,
      heval]
  · rw [hval]
    exact h.bindPtr hfresh _ hid

/-- A scalar access through a derived pointer, after which the scan knows at most the result. -/
theorem visit_access (h : Follows c ρ μ t) {address : Operand} {ty : IrType} {n : Nat}
    (hptr : c.isPtr address = true) (hn : scalarBytes ty = some n)
    (hok : ∀ id off, TrackedAt t address id off → AccessOk t id off (typeSize m ty)) :
    μ.ref.access address n = some μ.ref := by
  obtain ⟨k, hk, rfl⟩ := typeSize_scalar m hn
  refine h.access_some hptr _ (fun id off hat => ?_)
  have htracked : TrackedAt t address id off := by
    rw [TrackedAt, show (operandLocalName address).bind t.ptrEnv = _ from hat]
    rfl
  exact hk ▸ hok id off htracked

theorem PathCtx.slotOf_mem {op : Operand} {a : Name} (h : c.slotOf op = some a) :
    operandLocalName op = some a ∧ a ∈ c.slots := by
  obtain ⟨hlocal, hmem⟩ := Option.filter_eq_some_iff.mp h
  exact ⟨hlocal, of_decide_eq_true hmem⟩

theorem PathCtx.slotOf_none {op : Operand} {a : Name} (h : c.slotOf op = none)
    (hlocal : operandLocalName op = some a) : a ∉ c.slots := by
  intro hmem
  rw [PathCtx.slotOf, hlocal] at h
  simp [hmem] at h

theorem visit_store (h : Follows c ρ μ t) (hinv : MapsInv t) {address value : Operand}
    (hok : pathInstrOk m c (.store address value) = true)
    (hv : Vetted m dma t (.store address value)) :
    ∃ μ', machineStep m (.store address value) μ = some μ'
      ∧ Follows (c.next (.store address value)) ρ μ' (transfer m dma (.store address value) t) := by
  cases hslot : c.slotOf address with
  | some a =>
      obtain ⟨hlocal, hmem⟩ := PathCtx.slotOf_mem hslot
      refine ⟨{ μ with slots := Function.update μ.slots a (some (μ.ref.ptr value)) }, by
        simp only [machineStep, h.slotAt, hslot], ?_⟩
      simp only [PathCtx.next, hslot, transfer, hlocal]
      exact h.fill hmem value
  | none =>
      have hinstr : instrOk c.toCtx (.store address value) = true := by
        simpa only [pathInstrOk, hslot, Option.isSome_none, Bool.false_or] using hok
      obtain ⟨hptr, hty⟩ := (Bool.and_eq_true _ _).mp hinstr
      obtain ⟨n, hn⟩ := Option.isSome_iff_exists.mp hty
      have hacc := visit_access h hptr hn hv.certified
      refine ⟨μ, ?_, ?_⟩
      · simp only [machineStep, h.slotAt, hslot, refStep, hn, Option.bind_some, hacc, Machine.lift,
          Option.map_some]
      · simp only [PathCtx.next, hslot]
        refine h.skip hinv m dma (fun _ hres => by cases hres) (fun a hspill _ hfilled => ?_)
        have hlocal : operandLocalName address = some a := by
          cases address with
          | localOperand b ty =>
              cases value with
              | localOperand v vty => exact hspill
              | _ => cases hspill
          | _ => cases hspill
        exact PathCtx.slotOf_none hslot hlocal (h.filled a hfilled).1

theorem visit_load (h : Follows c ρ μ t) (hinv : MapsInv t) {address : Operand}
    {loadedTy : IrType} {dest : Name}
    (hok : pathInstrOk m c (.load address loadedTy dest) = true) (hfresh : c.Fresh dest)
    (hv : Vetted m dma t (.load address loadedTy dest)) :
    ∃ μ', machineStep m (.load address loadedTy dest) μ = some μ'
      ∧ Follows (c.next (.load address loadedTy dest)) ρ μ'
        (transfer m dma (.load address loadedTy dest) t) := by
  have hskip : Follows c ρ μ (transfer m dma (.load address loadedTy dest) t) :=
    h.skip hinv m dma (fun n hn => Option.some.inj hn ▸ hfresh) (fun _ hs => by cases hs)
  cases hslot : c.slotOf address with
  | some a =>
      obtain ⟨hlocal, hmem⟩ := PathCtx.slotOf_mem hslot
      refine ⟨μ.reload (μ.slots a).join loadedTy dest, by
        simp only [machineStep, h.slotAt, hslot], ?_⟩
      by_cases hfill : a ∈ c.filled ∧ isPointer loadedTy = true
      · obtain ⟨-, id, off, hstore, hcontent, hid⟩ := h.filled a hfill.1
        have hnext : c.next (.load address loadedTy dest) = c.bind dest := by
          simp only [PathCtx.next, hslot, if_pos hfill]
        rw [hnext]
        simp only [transfer, hlocal, Maps.reload, if_pos (h.known a hmem), hstore, Machine.reload,
          hcontent, hfill.2, if_true]
        exact h.bindPtr hfresh _ hid
      · simp only [PathCtx.next, hslot, if_neg hfill]
        unfold Machine.reload
        split
        · split
          · exact hskip.bindRef hfresh _
          · exact hskip
        · exact hskip
  | none =>
      have hinstr : instrOk c.toCtx (.load address loadedTy dest) = true := by
        simpa only [pathInstrOk, hslot, Option.isSome_none, Bool.false_or] using hok
      obtain ⟨hptr, hty⟩ := (Bool.and_eq_true _ _).mp hinstr
      obtain ⟨n, hn⟩ := Option.isSome_iff_exists.mp hty
      have hacc := visit_access h hptr hn hv.certified
      refine ⟨μ, ?_, ?_⟩
      · simp only [machineStep, h.slotAt, hslot, refStep, hn, Option.bind_some, hacc, Machine.lift,
          Option.map_some]
      · simp only [PathCtx.next, hslot]
        exact hskip

/-- **An instruction of the path** does not trap, and the scan keeps following. -/
theorem visit_step (h : Follows c ρ μ t) (hinv : MapsInv t) {i : Instruction}
    (hok : pathInstrOk m c i = true) (hfresh : ∀ n, i.tryGetResult = some n → c.Fresh n)
    (hv : Vetted m dma t i) :
    ∃ ρ' μ', machineStep m i μ = some μ' ∧ Follows (c.next i) ρ' μ' (transfer m dma i t) := by
  cases i with
  | alloca dest => exact ⟨ρ, _, rfl, h.alloca (hfresh dest rfl)⟩
  | call call =>
      obtain ⟨ρ', r, hr, h'⟩ := visit_call h hinv hok hfresh hv
      exact ⟨ρ', { μ with ref := r }, congrArg (Machine.lift μ) hr, h'⟩
  | getElementPtr gep =>
      obtain ⟨hptr, hexact⟩ := (Bool.and_eq_true _ _).mp hok
      obtain ⟨μ', hμ', h'⟩ := visit_gep h hptr hexact (hfresh gep.dest rfl)
      exact ⟨ρ, μ', hμ', h'⟩
  | ptrToInt op ty dest =>
      obtain ⟨n, oty, id, off, rfl, ht, hμ, hid⟩ := h.ptr hok
      refine ⟨ρ, _, by
        simp only [machineStep, refStep, Ref.move, hμ, Option.map_some, Machine.lift,
          Int.add_zero]; rfl, ?_⟩
      simp only [transfer, operandLocalName_local, Option.map_some, ptrToIntVal, ht,
        Option.getD_some]
      exact h.bindInt (hfresh dest rfl) _ hid
  | intToPtr op ty dest =>
      obtain ⟨n, oty, id, off, rfl, ht, hμ, hid⟩ := h.int hok
      refine ⟨ρ, _, by
        simp only [machineStep, refStep, Ref.move, hμ, Option.map_some, Machine.lift,
          Int.add_zero]; rfl, ?_⟩
      simp only [transfer, operandLocalName_local, Option.map_some, intToPtrVal, ht,
        Option.getD_some]
      exact h.bindPtr (hfresh dest rfl) _ hid
  | bitCast op ty dest =>
      obtain ⟨n, oty, id, off, rfl, ht, hμ, hid⟩ := h.ptr hok
      refine ⟨ρ, _, by
        simp only [machineStep, refStep, Ref.move, hμ, Option.map_some, Machine.lift,
          Int.add_zero]; rfl, ?_⟩
      simp only [transfer, operandLocalName_local, Option.bind_some, ht, Option.getD_some]
      exact h.bindPtr (hfresh dest rfl) _ hid
  | add op0 op1 dest =>
      rcases (Bool.or_eq_true _ _).mp hok with hl | hr
      · obtain ⟨hint, hlit⟩ := (Bool.and_eq_true _ _).mp hl
        obtain ⟨k, hk⟩ := Option.isSome_iff_exists.mp hlit
        obtain ⟨n, ty, id, off, rfl, ht, hμ, hid⟩ := h.int hint
        refine ⟨ρ, _, by
          simp only [machineStep, refStep, hk, Ref.move, hμ, Option.map_some, Machine.lift]
          rfl, ?_⟩
        simp only [transfer, addOut, operandInt_local, ht, hk, bindArith]
        exact h.bindInt (hfresh dest rfl) (.add off (.fromU64 k)) hid
      · obtain ⟨hlit, hint⟩ := (Bool.and_eq_true _ _).mp hr
        obtain ⟨k, hk⟩ := Option.isSome_iff_exists.mp hlit
        obtain ⟨n, ty, id, off, rfl, ht, hμ, hid⟩ := h.int hint
        have hnone : operandConstU64 (.localOperand n ty) = none := rfl
        refine ⟨ρ, _, by
          simp only [machineStep, refStep, hk, hnone, Ref.move, hμ, Option.map_some,
            Machine.lift]; rfl, ?_⟩
        simp only [transfer, addOut, operandInt_local, operandInt_lit hk, ht, hk, bindArith]
        exact h.bindInt (hfresh dest rfl) (.add off (.fromU64 k)) hid
  | sub op0 op1 dest =>
      obtain ⟨hint, hlit⟩ := (Bool.and_eq_true _ _).mp hok
      obtain ⟨k, hk⟩ := Option.isSome_iff_exists.mp hlit
      obtain ⟨n, ty, id, off, rfl, ht, hμ, hid⟩ := h.int hint
      refine ⟨ρ, _, by
        simp only [machineStep, refStep, hk, Option.bind_some, Ref.move, hμ, Option.map_some,
          Machine.lift]; rfl, ?_⟩
      simp only [transfer, subOut, operandInt_local, ht, hk, bindArith]
      exact h.bindInt (hfresh dest rfl) (.sub off (.fromU64 k)) hid
  | store address value =>
      obtain ⟨μ', hμ', h'⟩ := visit_store h hinv hok hv
      exact ⟨ρ, μ', hμ', h'⟩
  | load address loadedTy dest =>
      obtain ⟨μ', hμ', h'⟩ := visit_load h hinv hok (hfresh dest rfl) hv
      exact ⟨ρ, μ', hμ', h'⟩
  | other opcode operands dest =>
      have hquiet : touchesMemory opcode = false := by
        simpa only [pathInstrOk, Bool.not_eq_true'] using hok
      refine ⟨ρ, μ, by simp only [machineStep, hquiet]; rfl, ?_⟩
      exact h.skip hinv m dma hfresh (fun _ hs => by cases hs)

end Visit

-- ── The context along a list ─────────────────────────────────────────────────────

/-- The context after a list of instructions. -/
def PathCtx.after (c : PathCtx) (is : List Instruction) : PathCtx := is.foldl PathCtx.next c

theorem pathOk_append (m : Module) (js : List Instruction) : ∀ (is : List Instruction)
    (c : PathCtx), pathOk m c (is ++ js) = (pathOk m c is && pathOk m (c.after is) js) := by
  intro is
  induction is with
  | nil => intro c; rfl
  | cons i is ih =>
      intro c
      rw [List.cons_append, pathOk, ih, pathOk, Bool.and_assoc]
      rfl

/-- A slot of the path was one before, or is the result. -/
theorem next_slots {c : PathCtx} {i : Instruction} {n : Name} (h : n ∈ (c.next i).slots) :
    n ∈ c.slots ∨ i.tryGetResult = some n := by
  cases i with
  | alloca dest =>
      exact (List.mem_cons.mp h).symm.imp_right (fun heq => congrArg some heq.symm)
  | store address value =>
      simp only [PathCtx.next] at h
      split at h <;> exact Or.inl h
  | load address loadedTy dest =>
      simp only [PathCtx.next] at h
      split at h
      · split at h <;> exact Or.inl h
      · exact Or.inl h
  | _ => exact Or.inl h

/-- So is a derived name. -/
theorem next_derived {c : PathCtx} {i : Instruction} {n : Name}
    (h : n ∈ (c.next i).ptrs ∨ n ∈ (c.next i).ints) :
    (n ∈ c.ptrs ∨ n ∈ c.ints) ∨ i.tryGetResult = some n := by
  have hbind : ∀ {dest : Name}, n ∈ (c.bind dest).ptrs ∨ n ∈ (c.bind dest).ints →
      (n ∈ c.ptrs ∨ n ∈ c.ints) ∨ some dest = some n := by
    rintro dest (h | h)
    · rcases List.mem_cons.mp h with rfl | h
      · exact Or.inr rfl
      · exact Or.inl (Or.inl h)
    · exact Or.inl (Or.inr h)
  cases i with
  | alloca dest => exact Or.inl h
  | getElementPtr gep => exact hbind h
  | store address value =>
      simp only [PathCtx.next] at h
      split at h <;> exact Or.inl h
  | load address loadedTy dest =>
      simp only [PathCtx.next] at h
      split at h
      · split at h
        · exact hbind h
        · exact Or.inl h
      · exact Or.inl h
  | other opcode operands dest => exact Or.inl h
  | call call => exact next_cases h
  | ptrToInt op ty dest => exact next_cases h
  | intToPtr op ty dest => exact next_cases h
  | bitCast op ty dest => exact next_cases h
  | add op0 op1 dest => exact next_cases h
  | sub op0 op1 dest => exact next_cases h

theorem PathCtx.Fresh.next {c : PathCtx} {i : Instruction} {n : Name} (h : c.Fresh n)
    (hres : i.tryGetResult ≠ some n) : (c.next i).Fresh n := by
  refine ⟨⟨fun hmem => ?_, fun hmem => ?_⟩, fun hmem => ?_⟩
  · rcases next_derived (Or.inl hmem) with (hp | hp) | hr
    · exact h.1.1 hp
    · exact h.1.2 hp
    · exact hres hr
  · rcases next_derived (Or.inr hmem) with (hp | hp) | hr
    · exact h.1.1 hp
    · exact h.1.2 hp
    · exact hres hr
  · rcases next_slots hmem with hs | hr
    · exact h.2 hs
    · exact hres hr

theorem PathCtx.Fresh.after {n : Name} : ∀ {is : List Instruction} {c : PathCtx}, c.Fresh n →
    n ∉ results is → (c.after is).Fresh n := by
  intro is
  induction is with
  | nil => intro c h _; exact h
  | cons i is ih =>
      intro c h hn
      rw [results_cons, List.mem_append, not_or] at hn
      exact ih (h.next (fun hr => hn.1 (Option.mem_toList.mpr hr))) hn.2

theorem after_slots {n : Name} : ∀ {is : List Instruction} {c : PathCtx}, n ∈ (c.after is).slots →
    n ∈ c.slots ∨ n ∈ results is := by
  intro is
  induction is with
  | nil => intro c h; exact Or.inl h
  | cons i is ih =>
      intro c h
      rw [results_cons, List.mem_append]
      rcases ih h with h | h
      · exact (next_slots h).imp_right (fun hr => Or.inl (Option.mem_toList.mpr hr))
      · exact Or.inr (Or.inr h)

end SkvPathMachine

import SentinelKv.ObjectHeapProofs
import SentinelKv.SkvMapsInvProofs

/-!
# Exact verdicts on straight-line code

For one function of one block built from allocations, `kfree`, pointer casts, constant
pointer arithmetic, scalar loads and stores and constant-length `memset`/`memcpy`, the
analyzer is not an approximation.  `refStep` is a reference interpreter over an object heap
(a pointer is an object and an integer offset; bad frees, bad accesses and overflowing
`kcalloc`s trap), and **`straightLine_verdict`** says that `analyze` returns `Pass` exactly
when the block runs to its end and `Fail` exactly when it traps — never `Unknown`.

The proof is a simulation: `Sim` relates the analyzer's maps to the interpreter's state,
`step_agrees` is one instruction, `run_agrees` the block.
-/

namespace SkvStraightLine

open BreakLoop ObjectHeap SkvIr SkvTypeSize SkvGate SkvAnalyze SkvTransfer SkvMapsInv

-- ── The reference interpreter ────────────────────────────────────────────────────

/-- What the memory functions of the fragment do. -/
inductive MemFn where
  | alloc | calloc | free | set | copy
deriving DecidableEq, Repr

def memFn : Option String → Option MemFn
  | some "kmalloc" => some .alloc
  | some "kzalloc" => some .alloc
  | some "kcalloc" => some .calloc
  | some "kfree" => some .free
  | some "memset" => some .set
  | some "memcpy" => some .copy
  | some "__memcpy" => some .copy
  | _ => none

/-- Bytes a load or store of a scalar type touches. -/
def scalarBytes : IrType → Option Nat
  | .integerType bits => some ((bits.toNat + 7) / 8)
  | .pointerType => some 8
  | _ => none

/-- The interpreter's state: where each pointer or pointer-derived integer points, and the
    objects. -/
structure Ref where
  env  : Name → Option Ptr
  heap : Heap

def Ref.init : Ref := ⟨fun _ => none, []⟩

def Ref.ptr (r : Ref) (op : Operand) : Option Ptr := (operandLocalName op).bind r.env

def Ref.bind (r : Ref) (dest : Name) (p : Ptr) : Ref :=
  { r with env := Function.update r.env dest (some p) }

/-- A fresh live object, its start bound to the result if there is one. -/
def Ref.alloc (r : Ref) (dest : Option Name) (size : Nat) : Ref :=
  let r' : Ref := { r with heap := r.heap.alloc size }
  match dest with
  | some n => r'.bind n (r.heap.length, 0)
  | none => r'

/-- Release the object of a pointer, or trap. -/
def Ref.free (r : Ref) (op : Operand) : Option Ref :=
  (r.ptr op).bind (fun p => (r.heap.free p).map (fun h => { r with heap := h }))

/-- Touch `n` bytes through a pointer, or trap. -/
def Ref.access (r : Ref) (op : Operand) (n : Nat) : Option Ref :=
  (r.ptr op).bind (fun p => if r.heap.valid p n then some r else none)

/-- Bind `dest` to `op` moved by `d` bytes. -/
def Ref.move (r : Ref) (op : Operand) (d : Int) (dest : Name) : Option Ref :=
  (r.ptr op).map (fun p => r.bind dest (p.1, p.2 + d))

/-- A call; the last case is not in the fragment. -/
def refCall (call : Call) (r : Ref) : Option Ref :=
  match memFn (functionNameOfCall call), call.arguments with
  | some .alloc, sizeOp :: _ =>
      (operandConstU64 sizeOp).map (fun size => r.alloc call.dest size.toNat)
  | some .calloc, nmembOp :: sizeOp :: _ =>
      (operandConstU64 nmembOp).bind (fun nmemb => (operandConstU64 sizeOp).bind (fun size =>
        if nmemb.toNat * size.toNat < 2 ^ 64 then
          some (r.alloc call.dest (nmemb.toNat * size.toNat))
        else none))
  | some .free, ptrOp :: _ => r.free ptrOp
  | some .set, destOp :: _ :: lenOp :: _ =>
      (operandConstU64 lenOp).bind (fun len => r.access destOp len.toNat)
  | some .copy, destOp :: srcOp :: lenOp :: _ =>
      (operandConstU64 lenOp).bind (fun len =>
        (r.access destOp len.toNat).bind (fun r => r.access srcOp len.toNat))
  | _, _ => none

/-- One instruction; `none` is a trap. -/
def refStep (i : Instruction) (r : Ref) : Option Ref :=
  match i with
  | .call call => refCall call r
  | .bitCast op _ dest => r.move op 0 dest
  | .ptrToInt op _ dest => r.move op 0 dest
  | .intToPtr op _ dest => r.move op 0 dest
  | .add op0 op1 dest =>
      match operandConstU64 op0, operandConstU64 op1 with
      | _, some c => r.move op0 c.toNat dest
      | some c, none => r.move op1 c.toNat dest
      | none, none => none
  | .sub op0 op1 dest => (operandConstU64 op1).bind (fun c => r.move op0 (-c.toNat) dest)
  | .load address ty _ => (scalarBytes ty).bind (r.access address)
  | .store address value => (scalarBytes value.typeOf).bind (r.access address)
  | _ => none

/-- A block, until it ends or traps. -/
def refRun (is : List Instruction) (r : Ref) : Option Ref := is.foldlM (fun r i => refStep i r) r

-- ── The fragment ─────────────────────────────────────────────────────────────────

/-- The names known to hold pointers, and those known to hold pointer-derived integers. -/
structure Ctx where
  ptrs : List Name
  ints : List Name

def Ctx.isPtr (c : Ctx) (op : Operand) : Bool :=
  (operandLocalName op).any (fun n => decide (n ∈ c.ptrs))

def Ctx.isInt (c : Ctx) (op : Operand) : Bool :=
  (operandLocalName op).any (fun n => decide (n ∈ c.ints))

def isLit (op : Operand) : Bool := (operandConstU64 op).isSome

def callOk (c : Ctx) (call : Call) : Bool :=
  match memFn (functionNameOfCall call), call.arguments with
  | some .alloc, sizeOp :: _ => isLit sizeOp
  | some .calloc, nmembOp :: sizeOp :: _ => isLit nmembOp && isLit sizeOp
  | some .free, ptrOp :: _ => c.isPtr ptrOp
  | some .set, destOp :: _ :: lenOp :: _ => c.isPtr destOp && isLit lenOp
  | some .copy, destOp :: srcOp :: lenOp :: _ =>
      c.isPtr destOp && c.isPtr srcOp && isLit lenOp
  | _, _ => false

/-- An instruction of the fragment, given what earlier instructions derived. -/
def instrOk (c : Ctx) : Instruction → Bool
  | .call call => callOk c call
  | .bitCast op _ _ => c.isPtr op
  | .ptrToInt op _ _ => c.isPtr op
  | .intToPtr op _ _ => c.isInt op
  | .add op0 op1 _ => (c.isInt op0 && isLit op1) || (isLit op0 && c.isInt op1)
  | .sub op0 op1 _ => c.isInt op0 && isLit op1
  | .load address ty _ => c.isPtr address && (scalarBytes ty).isSome
  | .store address value => c.isPtr address && (scalarBytes value.typeOf).isSome
  | _ => false

/-- What is derived after an instruction.  Loaded values and the results of `memset` and
    `memcpy` are not. -/
def Ctx.next (c : Ctx) : Instruction → Ctx
  | .call call =>
      match memFn (functionNameOfCall call) with
      | some .alloc | some .calloc => { c with ptrs := call.dest.toList ++ c.ptrs }
      | _ => c
  | .bitCast _ _ dest | .intToPtr _ _ dest => { c with ptrs := dest :: c.ptrs }
  | .ptrToInt _ _ dest | .add _ _ dest | .sub _ _ dest => { c with ints := dest :: c.ints }
  | _ => c

def blockOk : Ctx → List Instruction → Bool
  | _, [] => true
  | c, i :: is => instrOk c i && blockOk (c.next i) is

/-- A module of the fragment: one function, one block, no name defined twice. -/
structure StraightLine (m : Module) (f : Function) (b : BasicBlock) : Prop where
  functions : m.functions = [f]
  blocks    : f.basicBlocks = [b]
  ssa       : (f.parameters ++ results b.instrs).Nodup
  instrs    : blockOk ⟨[], []⟩ b.instrs = true

-- ── The simulation relation ──────────────────────────────────────────────────────

/-- The allocation table of the analyzer, as a ledger. -/
def ledger (t : Maps) : Ledger :=
  ⟨t.allocCounter, fun id => (t.allocSizes id).map Z3Int.eval, t.freedAllocs⟩

/-- A passing analyzer state that says of every derived name what the interpreter says. -/
structure Sim (c : Ctx) (r : Ref) (s : St) : Prop where
  result : s.finalResult = .pass
  off    : s.gate.mode = .off
  inv    : MapsInv s.maps
  heap   : (ledger s.maps).Represents r.heap
  ptrs   : ∀ n ∈ c.ptrs, ∃ id off,
    s.maps.ptrEnv n = some (.kmalloc id off) ∧ r.env n = some (id, off.eval)
  ints   : ∀ n ∈ c.ints, ∃ id off,
    s.maps.intEnv n = some (.ptrOffset id off) ∧ r.env n = some (id, off.eval)
  slots  : s.maps.allocaNames = ∅
  dma    : s.maps.dmaAllocsInFunc = ∅

/-- Interpreter and analyzer take an instruction the same way: both go on, or one traps and
    the other fails. -/
def Agrees (c : Ctx) (o : Option Ref) (fl : Flow St) : Prop :=
  match o with
  | some r => ∃ s, fl = .next s ∧ Sim c r s
  | none => ∃ s, fl = .brk s ∧ Failed s

theorem sim_init {gate : HitlGate} (hoff : gate.mode = .off) :
    Sim ⟨[], []⟩ Ref.init (St.init gate) where
  result := rfl
  off := hoff
  inv := mapsInv_empty
  heap := represents_empty
  ptrs := fun _ h => nomatch h
  ints := fun _ h => nomatch h
  slots := rfl
  dma := rfl

/-- The relation does not look at the gate's logs. -/
theorem Sim.setGate {c : Ctx} {r : Ref} {s : St} (h : Sim c r s) {g : HitlGate}
    (hg : g.mode = .off) : Sim c r { s with gate := g } :=
  ⟨h.result, hg, h.inv, h.heap, h.ptrs, h.ints, h.slots, h.dma⟩

/-- A pointer operand of the fragment, on both sides. -/
theorem Sim.ptr {c : Ctx} {r : Ref} {s : St} (h : Sim c r s) {op : Operand}
    (hop : c.isPtr op = true) :
    ∃ n ty id off, op = .localOperand n ty ∧ s.maps.ptrEnv n = some (.kmalloc id off)
      ∧ r.ptr op = some (id, off.eval) := by
  cases op with
  | constantOperand k => exact nomatch hop
  | metadataOperand => exact nomatch hop
  | localOperand n ty =>
      obtain ⟨id, off, hs, hr⟩ := h.ptrs n (of_decide_eq_true hop)
      exact ⟨n, ty, id, off, rfl, hs, hr⟩

/-- A pointer-derived integer operand, on both sides. -/
theorem Sim.int {c : Ctx} {r : Ref} {s : St} (h : Sim c r s) {op : Operand}
    (hop : c.isInt op = true) :
    ∃ n ty id off, op = .localOperand n ty ∧ s.maps.intEnv n = some (.ptrOffset id off)
      ∧ r.ptr op = some (id, off.eval) := by
  cases op with
  | constantOperand k => exact nomatch hop
  | metadataOperand => exact nomatch hop
  | localOperand n ty =>
      obtain ⟨id, off, hs, hr⟩ := h.ints n (of_decide_eq_true hop)
      exact ⟨n, ty, id, off, rfl, hs, hr⟩

/-- The name an instruction defines is not one of the derived names. -/
def Ctx.Fresh (c : Ctx) (n : Name) : Prop := n ∉ c.ptrs ∧ n ∉ c.ints

/-- Binding a fresh name to the same pointer on both sides. -/
theorem Sim.bindPtr {c : Ctx} {r : Ref} {s : St} (h : Sim c r s) {dest : Name}
    (hfresh : c.Fresh dest) {id : Nat} (off : Z3Int) (hid : id < s.maps.allocCounter) :
    Sim { c with ptrs := dest :: c.ptrs } (r.bind dest (id, off.eval))
      { s with maps := s.maps.bindPtr dest (.kmalloc id off) } where
  result := h.result
  off := h.off
  inv := h.inv.bindPtr ⟨hid, by rw [h.dma]; exact Finset.notMem_empty _⟩
  heap := h.heap
  ptrs := by
    intro n hn
    by_cases hnd : n = dest
    · exact ⟨id, off, by rw [hnd]; exact Function.update_self .., by
        rw [hnd]; exact Function.update_self ..⟩
    · obtain ⟨id', off', hs, hr⟩ := h.ptrs n ((List.mem_cons.mp hn).resolve_left hnd)
      exact ⟨id', off', (Function.update_of_ne hnd _ _).trans hs,
        (Function.update_of_ne hnd _ _).trans hr⟩
  ints := by
    intro n hn
    have hnd : n ≠ dest := fun heq => hfresh.2 (heq ▸ hn)
    obtain ⟨id', off', hs, hr⟩ := h.ints n hn
    exact ⟨id', off', hs, (Function.update_of_ne hnd _ _).trans hr⟩
  slots := h.slots
  dma := h.dma

/-- Binding a fresh name to the same pointer-derived integer on both sides. -/
theorem Sim.bindInt {c : Ctx} {r : Ref} {s : St} (h : Sim c r s) {dest : Name}
    (hfresh : c.Fresh dest) {id : Nat} (off : Z3Int) (hid : id < s.maps.allocCounter) :
    Sim { c with ints := dest :: c.ints } (r.bind dest (id, off.eval))
      { s with maps := s.maps.bindInt dest (.ptrOffset id off) } where
  result := h.result
  off := h.off
  inv := h.inv.bindInt ⟨hid, by rw [h.dma]; exact Finset.notMem_empty _⟩
  heap := h.heap
  ptrs := by
    intro n hn
    have hnd : n ≠ dest := fun heq => hfresh.1 (heq ▸ hn)
    obtain ⟨id', off', hs, hr⟩ := h.ptrs n hn
    exact ⟨id', off', hs, (Function.update_of_ne hnd _ _).trans hr⟩
  ints := by
    intro n hn
    by_cases hnd : n = dest
    · exact ⟨id, off, by rw [hnd]; exact Function.update_self .., by
        rw [hnd]; exact Function.update_self ..⟩
    · obtain ⟨id', off', hs, hr⟩ := h.ints n ((List.mem_cons.mp hn).resolve_left hnd)
      exact ⟨id', off', (Function.update_of_ne hnd _ _).trans hs,
        (Function.update_of_ne hnd _ _).trans hr⟩
  slots := h.slots
  dma := h.dma

/-- A new allocation on both sides. -/
theorem Sim.alloc {c : Ctx} {r : Ref} {s : St} (h : Sim c r s) {dest : Option Name}
    (hfresh : ∀ n, dest = some n → c.Fresh n) (size : UInt64) :
    Sim { c with ptrs := dest.toList ++ c.ptrs } (r.alloc dest size.toNat)
      { s with maps := s.maps.kmalloc dest size } := by
  have hledger : ledger (s.maps.newAlloc size) = (ledger s.maps).alloc size.toNat := by
    unfold ledger Maps.newAlloc Ledger.alloc
    congr 1
    funext id
    exact Function.apply_update (fun _ => Option.map Z3Int.eval) s.maps.allocSizes
      s.maps.allocCounter (some (.fromU64 size)) id
  have hnew : Sim c { r with heap := r.heap.alloc size.toNat }
      { s with maps := s.maps.newAlloc size } := by
    refine ⟨h.result, h.off, h.inv.kmalloc none size, ?_, h.ptrs, h.ints, h.slots, h.dma⟩
    rw [hledger]
    exact represents_alloc h.heap size.toNat
  cases dest with
  | none => exact hnew
  | some n =>
      have hlen : r.heap.length = s.maps.allocCounter := h.heap.counter.symm
      unfold Ref.alloc
      rw [hlen]
      exact hnew.bindPtr (hfresh n rfl) (.fromU64 0) (Nat.lt_succ_self _)

/-- A pointer of the fragment lies below the counter. -/
theorem Sim.id_lt {c : Ctx} {r : Ref} {s : St} (h : Sim c r s) {n : Name} {id : Nat}
    {off : Z3Int} (hn : s.maps.ptrEnv n = some (.kmalloc id off)) :
    id < s.maps.allocCounter := (h.inv.ptrs n _ hn).1

-- ── One instruction ──────────────────────────────────────────────────────────────

/-- **A guarded access decides like the heap.** -/
theorem access_agrees {e : Env} (hz : SolverExact e.host.z3) {site : Site} {txt : AccessText}
    {after : St → St} (hafter : ∀ s, after s = s) {c : Ctx} {r : Ref} {s : St}
    (h : Sim c r s) {op : Operand} {n : Name} {id : Nat} {off : Z3Int}
    (hn : s.maps.ptrEnv n = some (.kmalloc id off)) (hr : r.ptr op = some (id, off.eval))
    (len : UInt64) :
    Agrees c (r.access op len.toNat)
      (guardedAccess e site txt id off (some len) after s) := by
  have hid : id < s.maps.allocCounter := h.id_lt hn
  obtain ⟨allocSize, hsize⟩ := Option.isSome_iff_exists.mp ((h.inv.sizes id).mpr hid)
  have hledger : (ledger s.maps).sizes id = some allocSize.eval := by
    show (s.maps.allocSizes id).map Z3Int.eval = some allocSize.eval
    rw [hsize]
    rfl
  have hvalid := valid_iff h.heap (p := (id, off.eval)) hledger hid len.toNat
  unfold Ref.access
  rw [hr, Option.bind_some]
  unfold guardedAccess
  by_cases hfreed : id ∈ s.maps.freedAllocs
  · rw [if_neg (fun hv => (hvalid.mp hv).1 hfreed), if_pos hfreed]
    exact ⟨_, rfl, rfl⟩
  · rw [if_neg hfreed]
    simp only [hsize]
    unfold afterCheck
    rcases checkAccess_off hz allocSize off len (site.vcId txt.kind)
      (vcClassId txt.kind len) h.off with ⟨hans, hin⟩ | ⟨hans, hout⟩
    · rw [if_pos (hvalid.mpr ⟨hfreed, hin⟩), hans]
      refine ⟨_, rfl, ?_⟩
      rw [hafter]
      refine h.setGate ?_
      rw [checkAccess_gate]
      exact (s.gate.shouldRunSolver_off h.off _ _).2
    · rw [if_neg (fun hv => hout (hvalid.mp hv).2), hans]
      exact ⟨_, rfl, rfl⟩

/-- `type_size` of a scalar type is what the interpreter touches. -/
theorem typeSize_scalar (m : Module) {ty : IrType} {n : Nat} (h : scalarBytes ty = some n) :
    ∃ k, typeSize m ty = some k ∧ k.toNat = n := by
  cases ty with
  | integerType bits =>
      obtain rfl := Option.some.inj h
      refine ⟨_, typeSize_integerType m bits, ?_⟩
      have hlt := bits.toNat_lt
      unfold bytesOfBits
      rw [UInt64.toNat_ofNat']
      exact Nat.mod_eq_of_lt (by omega)
  | pointerType =>
      obtain rfl := Option.some.inj h
      exact ⟨8, typeSize_pointerType m, rfl⟩
  | _ => exact nomatch h

theorem irqRace_off {e : Env} (hirq : e.hasIrqRisk = false) (site : Site) (kind : String)
    (allocId : Nat) (s : St) : irqRace e site kind allocId s = s := by
  unfold irqRace
  rw [hirq]
  rfl

theorem store_agrees {e : Env} (hz : SolverExact e.host.z3) (hirq : e.hasIrqRisk = false)
    {site : Site} {c : Ctx} {r : Ref} {s : St} (h : Sim c r s) {address value : Operand}
    (hop : c.isPtr address = true) {n : Nat} (hn : scalarBytes value.typeOf = some n) :
    Agrees c (r.access address n) (stepStore e site address value s) := by
  obtain ⟨name, ty, id, off, rfl, hs, hr⟩ := h.ptr hop
  obtain ⟨k, hk, rfl⟩ := typeSize_scalar e.module hn
  have hspill : s.maps.spill name value = s.maps := by
    unfold Maps.spill
    rw [h.slots, if_neg (Finset.notMem_empty _)]
  unfold stepStore
  simp only [hspill, hs, Option.bind_some, ptrvalAllocInfo, hk]
  exact access_agrees hz (irqRace_off hirq site "store" id) h hs hr k

theorem load_agrees {e : Env} (hz : SolverExact e.host.z3) (hirq : e.hasIrqRisk = false)
    {site : Site} {c : Ctx} {r : Ref} {s : St} (h : Sim c r s) {address : Operand}
    {loadedTy : IrType} {dest : Name} (hop : c.isPtr address = true) {n : Nat}
    (hn : scalarBytes loadedTy = some n) :
    Agrees c (r.access address n) (stepLoad e site address loadedTy dest s) := by
  obtain ⟨name, ty, id, off, rfl, hs, hr⟩ := h.ptr hop
  obtain ⟨k, hk, rfl⟩ := typeSize_scalar e.module hn
  have hreload : s.maps.reload name dest = s.maps := by
    unfold Maps.reload
    rw [h.slots, if_neg (Finset.notMem_empty _)]
  unfold stepLoad
  simp only [hreload, hs, Option.bind_some, ptrvalAllocInfo, hk]
  exact access_agrees hz (irqRace_off hirq site "load" id) h hs hr k

theorem memset_agrees {e : Env} (hz : SolverExact e.host.z3) {site : Site} {c : Ctx}
    {r : Ref} {s : St} (h : Sim c r s) {call : Call} {destOp valOp lenOp : Operand}
    {rest : List Operand} (hargs : call.arguments = destOp :: valOp :: lenOp :: rest)
    (hop : c.isPtr destOp = true) {len : UInt64} (hlen : operandConstU64 lenOp = some len) :
    Agrees c (r.access destOp len.toNat) (stepMemset e site call s) := by
  obtain ⟨name, ty, id, off, rfl, hs, hr⟩ := h.ptr hop
  unfold stepMemset
  simp only [hargs, List.head?_cons, List.getElem?_cons_succ, List.getElem?_cons_zero,
    operandLocalName_local, hlen, hs]
  exact access_agrees hz (fun _ => rfl) h hs hr len

theorem memcpyOperand_agrees {e : Env} (hz : SolverExact e.host.z3) (site : Site) {c : Ctx}
    {r : Ref} {s : St} (h : Sim c r s) {op : Operand} (kind : String)
    (hop : c.isPtr op = true) (len : UInt64) :
    Agrees c (r.access op len.toNat) (memcpyOperand e site len (op, kind) s) := by
  obtain ⟨name, ty, id, off, rfl, hs, hr⟩ := h.ptr hop
  unfold memcpyOperand
  simp only [operandLocalName_local, hs]
  exact access_agrees hz (fun _ => rfl) h hs hr len

theorem memcpy_agrees {e : Env} (hz : SolverExact e.host.z3) {site : Site} {c : Ctx}
    {r : Ref} {s : St} (h : Sim c r s) {call : Call} {destOp srcOp lenOp : Operand}
    {rest : List Operand} (hargs : call.arguments = destOp :: srcOp :: lenOp :: rest)
    (hdest : c.isPtr destOp = true) (hsrc : c.isPtr srcOp = true) {len : UInt64}
    (hlen : operandConstU64 lenOp = some len) :
    Agrees c ((r.access destOp len.toNat).bind (fun r => r.access srcOp len.toNat))
      (stepMemcpy e site call s) := by
  unfold stepMemcpy
  simp only [hargs, List.head?_cons, List.getElem?_cons_succ, List.getElem?_cons_zero, hlen]
  -- the first operand, then the second from the state the first left
  have hfirst := memcpyOperand_agrees hz site h "destination" hdest len
  cases hd : r.access destOp len.toNat with
  | none =>
      rw [hd] at hfirst
      obtain ⟨s₁, hb, hf⟩ := hfirst
      have hfail : s₁.finalResult.isFail = true := hf
      rw [forLoop_cons_brk hb, if_pos hfail]
      exact ⟨s₁, rfl, hf⟩
  | some r₁ =>
      rw [hd] at hfirst
      obtain ⟨s₁, hb, h₁⟩ := hfirst
      rw [forLoop_cons_next hb, Option.bind_some]
      have hsecond := memcpyOperand_agrees hz site h₁ "source" hsrc len
      cases hr : r₁.access srcOp len.toNat with
      | none =>
          rw [hr] at hsecond
          obtain ⟨s₂, hb₂, hf⟩ := hsecond
          have hfail : s₂.finalResult.isFail = true := hf
          rw [forLoop_cons_brk hb₂, if_pos hfail]
          exact ⟨s₂, rfl, hf⟩
      | some r₂ =>
          rw [hr] at hsecond
          obtain ⟨s₂, hb₂, h₂⟩ := hsecond
          rw [forLoop_cons_next hb₂, forLoop_nil, if_neg (by rw [h₂.result]; decide)]
          exact ⟨s₂, rfl, h₂⟩

theorem kfree_agrees {site : Site} {c : Ctx} {r : Ref} {s : St} (h : Sim c r s) {call : Call}
    {ptrOp : Operand} {rest : List Operand} (hargs : call.arguments = ptrOp :: rest)
    (hop : c.isPtr ptrOp = true) : Agrees c (r.free ptrOp) (stepKfree site call s) := by
  obtain ⟨name, ty, id, off, rfl, hs, hr⟩ := h.ptr hop
  have hid : id < s.maps.allocCounter := h.id_lt hs
  have hsome := free_isSome_iff h.heap (p := (id, off.eval)) hid
  unfold stepKfree Ref.free
  simp only [hargs, List.head?_cons, operandLocalName_local, hs, hr, Option.bind_some]
  by_cases hfreed : id ∈ s.maps.freedAllocs
  · have hnone : r.heap.free (id, off.eval) = none :=
      Option.not_isSome_iff_eq_none.mp (fun hx => hsome.mp hx hfreed)
    rw [if_pos hfreed, hnone]
    exact ⟨_, rfl, rfl⟩
  · obtain ⟨heap', hfree⟩ := Option.isSome_iff_exists.mp (hsome.mpr hfreed)
    rw [if_neg hfreed, hfree]
    refine ⟨_, rfl, ?_⟩
    exact ⟨h.result, h.off, h.inv.free (h.inv.ptrs name _ hs), represents_free h.heap hfree,
      h.ptrs, h.ints, h.slots, h.dma⟩

theorem kmalloc_agrees {c : Ctx} {r : Ref} {s : St} (h : Sim c r s) {call : Call}
    (hfresh : ∀ n, call.dest = some n → c.Fresh n) {sizeOp : Operand} {rest : List Operand}
    (hargs : call.arguments = sizeOp :: rest) {size : UInt64}
    (hsize : operandConstU64 sizeOp = some size) :
    Agrees { c with ptrs := call.dest.toList ++ c.ptrs }
      (some (r.alloc call.dest size.toNat)) (stepKmalloc call s) := by
  unfold stepKmalloc
  simp only [hargs, List.head?_cons, hsize]
  exact ⟨_, rfl, h.alloc hfresh size⟩

theorem kcalloc_agrees {c : Ctx} {r : Ref} {s : St} (h : Sim c r s) {call : Call}
    (hfresh : ∀ n, call.dest = some n → c.Fresh n) {nmembOp sizeOp : Operand}
    {rest : List Operand} (hargs : call.arguments = nmembOp :: sizeOp :: rest)
    {nmemb size : UInt64} (hnmemb : operandConstU64 nmembOp = some nmemb)
    (hsize : operandConstU64 sizeOp = some size) :
    Agrees { c with ptrs := call.dest.toList ++ c.ptrs }
      (if nmemb.toNat * size.toNat < 2 ^ 64 then
        some (r.alloc call.dest (nmemb.toNat * size.toNat)) else none)
      (stepKcalloc call s) := by
  unfold stepKcalloc
  simp only [hargs, List.head?_cons, List.getElem?_cons_succ, List.getElem?_cons_zero, hnmemb,
    hsize]
  cases hmul : checkedMul nmemb size with
  | none =>
      rw [if_neg (Nat.not_lt.mpr (checkedMul_eq_none hmul))]
      exact ⟨_, rfl, rfl⟩
  | some total =>
      obtain ⟨hprod, hlt⟩ := checkedMul_eq_some hmul
      rw [if_pos hlt, ← hprod]
      exact ⟨_, rfl, h.alloc hfresh total⟩

/-- The arm of `analyze` for each memory function; the DMA policy has no say. -/
def MemFn.arm : MemFn → CallArm
  | .alloc => .kmalloc
  | .calloc => .kcalloc
  | .free => .kfree
  | .set => .memset
  | .copy => .memcpy

theorem callArm_of_memFn {name : Option String} {fn : MemFn} (h : memFn name = some fn)
    (dma : DmaPolicy) : callArm dma name = fn.arm := by
  unfold memFn at h
  split at h <;> cases h <;> rfl

theorem call_agrees {e : Env} (hz : SolverExact e.host.z3) {site : Site} {c : Ctx} {r : Ref}
    {s : St} (h : Sim c r s) {call : Call} (hok : callOk c call = true)
    (hfresh : ∀ n, call.dest = some n → c.Fresh n) :
    Agrees (c.next (.call call)) (refCall call r) (stepCall e site call s) := by
  have hfail : ¬ s.finalResult.isFail = true := by rw [h.result]; decide
  unfold stepCall refCall
  rw [if_neg hfail]
  unfold callOk at hok
  simp only [Ctx.next]
  cases hfn : memFn (functionNameOfCall call) with
  | none => rw [hfn] at hok; exact nomatch hok
  | some fn =>
      rw [callArm_of_memFn hfn]
      rw [hfn] at hok
      cases fn with
      | alloc =>
          match hargs : call.arguments with
          | [] => rw [hargs] at hok; exact nomatch hok
          | sizeOp :: rest =>
              rw [hargs] at hok
              obtain ⟨size, hsize⟩ := Option.isSome_iff_exists.mp hok
              simp only [hsize, Option.map_some]
              exact kmalloc_agrees h hfresh hargs hsize
      | calloc =>
          match hargs : call.arguments with
          | [] => rw [hargs] at hok; exact nomatch hok
          | [_] => rw [hargs] at hok; exact nomatch hok
          | nmembOp :: sizeOp :: rest =>
              rw [hargs] at hok
              obtain ⟨hnmemb, hsize⟩ := (Bool.and_eq_true _ _).mp hok
              obtain ⟨nmemb, hnmemb⟩ := Option.isSome_iff_exists.mp hnmemb
              obtain ⟨size, hsize⟩ := Option.isSome_iff_exists.mp hsize
              simp only [hnmemb, hsize, Option.bind_some]
              exact kcalloc_agrees h hfresh hargs hnmemb hsize
      | free =>
          match hargs : call.arguments with
          | [] => rw [hargs] at hok; exact nomatch hok
          | ptrOp :: rest =>
              rw [hargs] at hok
              exact kfree_agrees h hargs hok
      | set =>
          match hargs : call.arguments with
          | [] => rw [hargs] at hok; exact nomatch hok
          | [_] => rw [hargs] at hok; exact nomatch hok
          | [_, _] => rw [hargs] at hok; exact nomatch hok
          | destOp :: valOp :: lenOp :: rest =>
              rw [hargs] at hok
              obtain ⟨hdest, hlen⟩ := (Bool.and_eq_true _ _).mp hok
              obtain ⟨len, hlen⟩ := Option.isSome_iff_exists.mp hlen
              simp only [hlen, Option.bind_some]
              exact memset_agrees hz h hargs hdest hlen
      | copy =>
          match hargs : call.arguments with
          | [] => rw [hargs] at hok; exact nomatch hok
          | [_] => rw [hargs] at hok; exact nomatch hok
          | [_, _] => rw [hargs] at hok; exact nomatch hok
          | destOp :: srcOp :: lenOp :: rest =>
              rw [hargs] at hok
              obtain ⟨hptrs, hlen⟩ := (Bool.and_eq_true _ _).mp hok
              obtain ⟨hdest, hsrc⟩ := (Bool.and_eq_true _ _).mp hptrs
              obtain ⟨len, hlen⟩ := Option.isSome_iff_exists.mp hlen
              simp only [hlen, Option.bind_some]
              exact memcpy_agrees hz h hargs hdest hsrc hlen

/-- Pointer arithmetic with a literal on the right, as `Add` and `Sub` do it. -/
theorem operandInt_local {t : Maps} {n : Name} {ty : IrType} :
    operandInt t (.localOperand n ty) = t.intEnv n := rfl

theorem operandInt_lit {t : Maps} {op : Operand} {k : UInt64}
    (h : operandConstU64 op = some k) : operandInt t op = none := by
  unfold operandInt
  rw [operandLocalName_of_const h]
  rfl

theorem add_agrees {c : Ctx} {r : Ref} {s : St} (h : Sim c r s) {op0 op1 : Operand}
    {dest : Name} (hfresh : c.Fresh dest)
    (hok : instrOk c (.add op0 op1 dest) = true) :
    Agrees { c with ints := dest :: c.ints } (refStep (.add op0 op1 dest) r)
      (stepAdd op0 op1 dest s) := by
  have hok' : (c.isInt op0 && isLit op1 || isLit op0 && c.isInt op1) = true := hok
  unfold stepAdd addOut refStep
  rcases (Bool.or_eq_true _ _).mp hok' with hl | hr
  · obtain ⟨hint, hlit⟩ := (Bool.and_eq_true _ _).mp hl
    obtain ⟨k, hk⟩ := Option.isSome_iff_exists.mp hlit
    obtain ⟨n, ty, id, off, rfl, hs, hr⟩ := h.int hint
    simp only [operandInt_local, hs, hk, Option.map_some, Ref.move, hr]
    exact ⟨_, rfl, h.bindInt hfresh (.add off (.fromU64 k)) (h.inv.ints n _ hs).1⟩
  · obtain ⟨hlit, hint⟩ := (Bool.and_eq_true _ _).mp hr
    obtain ⟨k, hk⟩ := Option.isSome_iff_exists.mp hlit
    obtain ⟨n, ty, id, off, rfl, hs, hr⟩ := h.int hint
    have hnone : operandConstU64 (.localOperand n ty) = none := rfl
    simp only [operandInt_lit hk, operandInt_local, hs, hk, hnone, Option.map_some, Ref.move, hr]
    exact ⟨_, rfl, h.bindInt hfresh (.add off (.fromU64 k)) (h.inv.ints n _ hs).1⟩

theorem sub_agrees {c : Ctx} {r : Ref} {s : St} (h : Sim c r s) {op0 op1 : Operand}
    {dest : Name} (hfresh : c.Fresh dest) (hint : c.isInt op0 = true) {k : UInt64}
    (hk : operandConstU64 op1 = some k) :
    Agrees { c with ints := dest :: c.ints } (r.move op0 (-k.toNat) dest)
      (stepSub op0 op1 dest s) := by
  obtain ⟨n, ty, id, off, rfl, hs, hr⟩ := h.int hint
  unfold stepSub subOut Ref.move
  simp only [operandInt_lit hk, operandInt_local, hs, hk, hr, Option.map_some, Option.isSome_none]
  exact ⟨_, rfl, h.bindInt hfresh (.sub off (.fromU64 k)) (h.inv.ints n _ hs).1⟩

/-- **One instruction**: interpreter and analyzer agree. -/
theorem step_agrees {e : Env} (hz : SolverExact e.host.z3) (hirq : e.hasIrqRisk = false)
    (site : Site) {c : Ctx} {r : Ref} {s : St} (h : Sim c r s)
    (hok : instrOk c site.instr = true)
    (hfresh : ∀ n, site.instr.tryGetResult = some n → c.Fresh n) :
    Agrees (c.next site.instr) (refStep site.instr r) (stepInstr e site s) := by
  unfold stepInstr
  cases hi : site.instr with
  | call call =>
      rw [hi] at hok hfresh
      exact call_agrees hz h hok hfresh
  | bitCast op ty dest =>
      rw [hi] at hok hfresh
      obtain ⟨n, oty, id, off, rfl, hs, hr⟩ := h.ptr hok
      simp only [refStep, Ref.move, hr, Option.map_some, stepBitCast, hs, Option.getD_some,
        Int.add_zero]
      exact ⟨_, rfl, h.bindPtr (hfresh dest rfl) off (h.id_lt hs)⟩
  | ptrToInt op ty dest =>
      rw [hi] at hok hfresh
      obtain ⟨n, oty, id, off, rfl, hs, hr⟩ := h.ptr hok
      simp only [refStep, Ref.move, hr, Option.map_some, stepPtrToInt, ptrToIntVal, hs,
        Int.add_zero]
      exact ⟨_, rfl, h.bindInt (hfresh dest rfl) off (h.id_lt hs)⟩
  | intToPtr op ty dest =>
      rw [hi] at hok hfresh
      obtain ⟨n, oty, id, off, rfl, hs, hr⟩ := h.int hok
      simp only [refStep, Ref.move, hr, Option.map_some, stepIntToPtr, intToPtrVal, hs,
        Int.add_zero]
      exact ⟨_, rfl, h.bindPtr (hfresh dest rfl) off (h.inv.ints n _ hs).1⟩
  | add op0 op1 dest =>
      rw [hi] at hok hfresh
      exact add_agrees h (hfresh dest rfl) hok
  | sub op0 op1 dest =>
      rw [hi] at hok hfresh
      obtain ⟨hint, hlit⟩ := (Bool.and_eq_true _ _).mp hok
      obtain ⟨k, hk⟩ := Option.isSome_iff_exists.mp hlit
      simp only [refStep, hk, Option.bind_some]
      exact sub_agrees h (hfresh dest rfl) hint hk
  | load address ty dest =>
      rw [hi] at hok
      obtain ⟨hptr, hty⟩ := (Bool.and_eq_true _ _).mp hok
      obtain ⟨n, hn⟩ := Option.isSome_iff_exists.mp hty
      simp only [refStep, hn, Option.bind_some]
      exact load_agrees hz hirq h hptr hn
  | store address value =>
      rw [hi] at hok
      obtain ⟨hptr, hty⟩ := (Bool.and_eq_true _ _).mp hok
      obtain ⟨n, hn⟩ := Option.isSome_iff_exists.mp hty
      simp only [refStep, hn, Option.bind_some]
      exact store_agrees hz hirq h hptr hn
  | alloca dest => rw [hi] at hok; exact nomatch hok
  | getElementPtr gep => rw [hi] at hok; exact nomatch hok
  | other opcode operands dest => rw [hi] at hok; exact nomatch hok

-- ── The block ────────────────────────────────────────────────────────────────────

/-- A derived name was derived before, or is the instruction's result. -/
theorem next_cases {c : Ctx} {i : Instruction} {n : Name}
    (h : n ∈ (c.next i).ptrs ∨ n ∈ (c.next i).ints) :
    (n ∈ c.ptrs ∨ n ∈ c.ints) ∨ i.tryGetResult = some n := by
  have hcons : ∀ {dest : Name} {l : List Name}, n ∈ dest :: l → n ∈ l ∨ some dest = some n :=
    fun hmem => (List.mem_cons.mp hmem).symm.imp_right (fun heq => congrArg some heq.symm)
  cases i with
  | call call =>
      simp only [Ctx.next] at h
      split at h
      · rcases h with h | h
        · rcases List.mem_append.mp h with h | h
          · exact Or.inr (Option.mem_toList.mp h)
          · exact Or.inl (Or.inl h)
        · exact Or.inl (Or.inr h)
      · rcases h with h | h
        · rcases List.mem_append.mp h with h | h
          · exact Or.inr (Option.mem_toList.mp h)
          · exact Or.inl (Or.inl h)
        · exact Or.inl (Or.inr h)
      · exact Or.inl h
  | bitCast op ty dest => exact h.elim (fun h => (hcons h).imp_left Or.inl) (fun h => .inl (.inr h))
  | intToPtr op ty dest => exact h.elim (fun h => (hcons h).imp_left Or.inl) (fun h => .inl (.inr h))
  | ptrToInt op ty dest => exact h.elim (fun h => .inl (.inl h)) (fun h => (hcons h).imp_left Or.inr)
  | add op0 op1 dest => exact h.elim (fun h => .inl (.inl h)) (fun h => (hcons h).imp_left Or.inr)
  | sub op0 op1 dest => exact h.elim (fun h => .inl (.inl h)) (fun h => (hcons h).imp_left Or.inr)
  | alloca dest => exact Or.inl h
  | getElementPtr gep => exact Or.inl h
  | store address value => exact Or.inl h
  | load address ty dest => exact Or.inl h
  | other opcode operands dest => exact Or.inl h

/-- **The block**: it runs to its end on both sides, or traps on one and fails on the
    other. -/
theorem run_agrees {e : Env} (hz : SolverExact e.host.z3) (hirq : e.hasIrqRisk = false) :
    ∀ (l : List Site) (c : Ctx) (r : Ref) (s : St), Sim c r s →
      blockOk c (l.map Site.instr) = true → (results (l.map Site.instr)).Nodup →
      (∀ n ∈ results (l.map Site.instr), c.Fresh n) →
      match refRun (l.map Site.instr) r with
      | some r' => ∃ c', Sim c' r' (forLoop (stepInstr e) l s)
      | none => Failed (forLoop (stepInstr e) l s) := by
  intro l
  induction l with
  | nil => intro c r s h _ _ _; exact ⟨c, h⟩
  | cons x xs ih =>
      intro c r s h hok hnodup hfresh
      obtain ⟨hx, hxs⟩ := (Bool.and_eq_true _ _).mp hok
      rw [List.map_cons, results_cons] at hnodup hfresh
      have hstep := step_agrees hz hirq x h hx
        (fun n hn => hfresh n (List.mem_append_left _ (Option.mem_toList.mpr hn)))
      have hrun : refRun ((x :: xs).map Site.instr) r
          = (refStep x.instr r).bind (refRun (xs.map Site.instr)) := rfl
      rw [hrun]
      cases hr : refStep x.instr r with
      | none =>
          rw [hr] at hstep
          obtain ⟨s', hb, hf⟩ := hstep
          rw [forLoop_cons_brk hb]
          exact hf
      | some r' =>
          rw [hr] at hstep
          obtain ⟨s', hb, h'⟩ := hstep
          rw [forLoop_cons_next hb]
          refine ih (c.next x.instr) r' s' h' hxs (List.nodup_append.mp hnodup).2.1 ?_
          -- a later result is neither derived before nor the result just bound
          intro n hn
          have hold := hfresh n (List.mem_append_right _ hn)
          have hnew : x.instr.tryGetResult ≠ some n := by
            intro hres
            exact (List.nodup_append.mp hnodup).2.2 n (Option.mem_toList.mpr hres) n hn rfl
          refine ⟨fun hmem => ?_, fun hmem => ?_⟩
          · rcases next_cases (Or.inl hmem) with (hp | hp) | hres
            · exact hold.1 hp
            · exact hold.2 hp
            · exact hnew hres
          · rcases next_cases (Or.inr hmem) with (hp | hp) | hres
            · exact hold.1 hp
            · exact hold.2 hp
            · exact hnew hres

/-- Every call of the fragment is a memory function, so none registers an interrupt
    handler. -/
theorem blockOk_call {call : Call} : ∀ {is : List Instruction} {c : Ctx},
    blockOk c is = true → .call call ∈ is → memFn (functionNameOfCall call) ≠ none := by
  intro is
  induction is with
  | nil => intro c _ hmem; exact nomatch hmem
  | cons i is ih =>
      intro c hok hmem
      obtain ⟨hi, his⟩ := (Bool.and_eq_true _ _).mp hok
      rcases List.mem_cons.mp hmem with rfl | hmem
      · intro hnone
        have hi' : callOk c call = true := hi
        unfold callOk at hi'
        rw [hnone] at hi'
        exact nomatch hi'
      · exact ih his hmem

theorem straightLine_noIrq {m : Module} {f : Function} {b : BasicBlock}
    (h : StraightLine m f b) : scanIrqHandlers m = [] := by
  have hnone : handlerNames m = [] := by
    unfold handlerNames callsOf
    rw [h.functions]
    simp only [List.flatMap_cons, List.flatMap_nil, List.append_nil, h.blocks]
    rw [List.filterMap_filterMap, List.filterMap_eq_nil_iff]
    intro i hi
    cases i with
    | call call =>
        show registeredHandler call = none
        unfold registeredHandler
        rw [if_neg]
        intro hname
        refine blockOk_call h.instrs hi ?_
        rw [hname]
        rfl
    | _ => rfl
  unfold scanIrqHandlers
  rw [hnone]
  rw [List.map_eq_nil_iff, List.filter_eq_nil_iff]
  intro f' _ hf'
  exact absurd ((Bool.and_eq_true _ _).mp hf').1 (by simp)

/-- The sites of a one-block module carry the block's instructions. -/
theorem straightLine_sites {m : Module} {f : Function} {b : BasicBlock}
    (h : StraightLine m f b) : (sites m).map Site.instr = b.instrs := by
  rw [sites_instrs]
  unfold Function.instrs
  rw [h.functions]
  simp only [List.flatMap_cons, List.flatMap_nil, List.append_nil, h.blocks]

/-- The closing DMA check never turns a `Fail` into something else. -/
theorem iommuEnforced_failed {e : Env} {s : St} (h : Failed s) :
    (iommuEnforced e s).isFail = true := by
  unfold iommuEnforced
  split
  · split
    · rfl
    · exact h
  · exact h

/-- Without DMA allocations the closing check changes nothing. -/
theorem iommuEnforced_of_no_dma {e : Env} {s : St} (h : s.maps.dmaAllocsInFunc = ∅) :
    iommuEnforced e s = s.finalResult := by
  unfold iommuEnforced
  split
  · have hnone : (e.host.setOrder s.maps.dmaAllocsInFunc).find?
        (fun id => decide (id ∉ s.maps.iommuMappedInFunc)) = none := by
      rw [List.find?_eq_none]
      intro x hx
      rw [e.host.mem_setOrder, h] at hx
      exact absurd hx (Finset.notMem_empty _)
    rw [hnone]
  · rfl

/-- **The verdict is exact on straight-line code**: `Pass` iff the reference interpreter runs
    to the end of the block, `Fail` iff it traps.  The two exhaust the cases, so the result
    is never `Unknown`. -/
theorem straightLine_verdict {m : Module} {f : Function} {b : BasicBlock}
    (h : StraightLine m f b) {host : Host} (hz : SolverExact host.z3) {gate : HitlGate}
    (hoff : gate.mode = .off) (asmP : InlineAsmPolicy) (dmaP : DmaPolicy) :
    ((analyze m host gate asmP dmaP).1.result = .pass
        ↔ ∃ r, refRun b.instrs Ref.init = some r)
      ∧ ((∃ msg, (analyze m host gate asmP dmaP).1.result = .fail msg)
        ↔ refRun b.instrs Ref.init = none) := by
  have hsites := straightLine_sites h
  have hirq : (mkEnv m host asmP dmaP).hasIrqRisk = false := by
    show (!(scanIrqHandlers m).isEmpty) = false
    rw [straightLine_noIrq h]
    rfl
  have hrun := run_agrees (e := mkEnv m host asmP dmaP) hz hirq (sites m) _ _ _ (sim_init hoff)
    (by rw [hsites]; exact h.instrs) (by rw [hsites]; exact (List.nodup_append.mp h.ssa).2.1)
    (fun _ _ => ⟨fun hn => (nomatch hn), fun hn => (nomatch hn)⟩)
  have hscan : forLoop (stepInstr (mkEnv m host asmP dmaP)) (sites m) (St.init gate)
      = scanModule (mkEnv m host asmP dmaP) gate := (scanModule_eq _ gate).symm
  rw [hsites, hscan] at hrun
  have hres : (analyze m host gate asmP dmaP).1.result
      = iommuEnforced (mkEnv m host asmP dmaP) (scanModule (mkEnv m host asmP dmaP) gate) := rfl
  rw [hres]
  cases href : refRun b.instrs Ref.init with
  | some r =>
      rw [href] at hrun
      obtain ⟨c, hsim⟩ := hrun
      rw [iommuEnforced_of_no_dma hsim.dma, hsim.result]
      exact ⟨⟨fun _ => ⟨r, rfl⟩, fun _ => rfl⟩,
        ⟨fun ⟨msg, hmsg⟩ => (nomatch hmsg), fun hn => (nomatch hn)⟩⟩
  | none =>
      rw [href] at hrun
      have hfail := iommuEnforced_failed (e := mkEnv m host asmP dmaP) hrun
      cases hr : iommuEnforced (mkEnv m host asmP dmaP)
          (scanModule (mkEnv m host asmP dmaP) gate) with
      | fail msg =>
          exact ⟨⟨fun hp => (nomatch hp), fun ⟨r, hr⟩ => (nomatch hr)⟩,
            ⟨fun _ => rfl, fun _ => ⟨msg, rfl⟩⟩⟩
      | pass => rw [hr] at hfail; exact nomatch hfail
      | unknown reason => rw [hr] at hfail; exact nomatch hfail

/-- The block of `tests/unsafe_driver.c`: a 4-byte store at offset 8 of an 8-byte object. -/
def unsafeBlock : List Instruction :=
  [.call (.direct "kmalloc" [.lit 64 8, .lit 32 0] (some (.name "p"))),
   .ptrToInt (.ptr "p") (.integerType 64) (.name "i"),
   .add (.localOperand (.name "i") (.integerType 64)) (.lit 64 8) (.name "j"),
   .intToPtr (.localOperand (.name "j") (.integerType 64)) .pointerType (.name "oob"),
   .store (.ptr "oob") (.lit 32 30),
   .call (.direct "kfree" [.ptr "p"] none)]

def unsafeDriver : Module :=
  Module.ofFunctions [Function.ofBlocks "my_module_init" [(unsafeBlock, .ret none)]]

theorem unsafeDriver_straightLine :
    StraightLine unsafeDriver ⟨"my_module_init", [], [⟨.number 0, unsafeBlock, .ret none⟩]⟩
      ⟨.number 0, unsafeBlock, .ret none⟩ :=
  ⟨rfl, rfl, by decide, by decide⟩

theorem unsafeDriver_fails :
    refRun unsafeBlock Ref.init = none
      ∧ ∃ msg, (analyze unsafeDriver (sortedHost evalSolver) (.fresh .off ∅ ∅)
          .conservative .verify).1.result = .fail msg :=
  ⟨rfl, (straightLine_verdict unsafeDriver_straightLine evalSolver_exact rfl
    .conservative .verify).2.mpr rfl⟩

end SkvStraightLine

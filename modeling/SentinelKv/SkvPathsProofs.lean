import SentinelKv.SkvCertifyProofs

/-!
# Control-flow paths and the one linear scan

`analyze` reads blocks once, in listing order, and never looks at a terminator.  This file
asks what a `Pass` then says about a PATH through the control-flow graph, on which the
analyzer's own transfer rules are replayed:

* in general nothing — **`linear_scan_misses_paths`**: a path that revisits a block, one that
  runs against the listing order and one that skips a store to a stack slot each release
  memory twice or use it after release, in modules that pass;
* **`pass_covers_forward_paths`**: on a path that visits blocks in listing order, none twice,
  and whose skipped blocks spill no pointer into a slot the path shares, a `Pass` excludes
  both errors.

For the second part the scan is followed next to the replay (`Covers`): the scan has
processed MORE instructions, so it uses other allocation ids and may know more names and
more released ids, but on the names of the path it says the same.
-/

namespace SkvPaths

open BreakLoop SkvIr SkvTypeSize SkvGate SkvAnalyze SkvTransfer SkvMapsInv SkvCertify

-- ── Replaying a path ─────────────────────────────────────────────────────────────

/-- The allocation a `kfree` releases, or a `Load` or `Store` goes through. -/
def touched (t : Maps) : Instruction → Option Nat
  | .call call =>
      if functionNameOfCall call = some "kfree" then
        match (call.arguments.head?.bind operandLocalName).bind t.ptrEnv with
        | some (.kmalloc allocId _) => some allocId
        | _ => none
      else none
  | .load address _ _ =>
      (((operandLocalName address).bind t.ptrEnv).bind ptrvalAllocInfo).map Prod.fst
  | .store address _ =>
      (((operandLocalName address).bind t.ptrEnv).bind ptrvalAllocInfo).map Prod.fst
  | _ => none

/-- The instruction neither releases nor uses a released allocation. -/
def SafeAt (t : Maps) (i : Instruction) : Prop :=
  ∀ id, touched t i = some id → id ∉ t.freedAllocs

/-- The maps after replaying a list of instructions. -/
def replay (m : Module) (dma : DmaPolicy) (is : List Instruction) (t : Maps) : Maps :=
  is.foldl (fun t i => transfer m dma i t) t

/-- Every instruction of a replayed list is safe when it is reached. -/
def ReplaySafe (m : Module) (dma : DmaPolicy) : List Instruction → Maps → Prop
  | [], _ => True
  | i :: is, t => SafeAt t i ∧ ReplaySafe m dma is (transfer m dma i t)

/-- A finite path from the entry block along the edges of the terminators. -/
structure IsPath (f : Function) (path : List BasicBlock) : Prop where
  entry  : path.head? = f.basicBlocks.head?
  blocks : ∀ b ∈ path, b ∈ f.basicBlocks
  edges  : path.IsChain (fun b b' => b'.name ∈ b.term.successors)

/-- The instructions executed along a path. -/
def pathInstrs (path : List BasicBlock) : List Instruction := path.flatMap BasicBlock.instrs

/-- The analyzer's maps when it reaches the function after `pre`, with nothing released
    yet. -/
def entryMaps (m : Module) (dma : DmaPolicy) (pre : List Function) : Maps :=
  { replay m dma (pre.flatMap Function.instrs) Maps.empty with freedAllocs := ∅ }

instance (t : Maps) (i : Instruction) : Decidable (SafeAt t i) :=
  inferInstanceAs (Decidable (∀ id ∈ touched t i, id ∉ t.freedAllocs))

instance decidableReplaySafe (m : Module) (dma : DmaPolicy) :
    ∀ (is : List Instruction) (t : Maps), Decidable (ReplaySafe m dma is t)
  | [], _ => isTrue trivial
  | i :: is, t =>
      have := decidableReplaySafe m dma is (transfer m dma i t)
      inferInstanceAs (Decidable (SafeAt t i ∧ ReplaySafe m dma is (transfer m dma i t)))

theorem replaySafe_append (m : Module) (dma : DmaPolicy) (js : List Instruction) :
    ∀ (is : List Instruction) (t : Maps),
      ReplaySafe m dma (is ++ js) t
        ↔ ReplaySafe m dma is t ∧ ReplaySafe m dma js (replay m dma is t) := by
  intro is
  induction is with
  | nil => intro t; exact ⟨fun h => ⟨trivial, h⟩, fun h => h.2⟩
  | cons i is ih =>
      intro t
      show SafeAt t i ∧ ReplaySafe m dma (is ++ js) (transfer m dma i t) ↔ _
      rw [ih]
      exact and_assoc.symm

-- ── What LLVM guarantees ─────────────────────────────────────────────────────────

def readsOwnResult : Instruction → Bool
  | .load address _ dest => decide (operandLocalName address = some dest)
  | _ => false

/-- Labels are distinct, and no load reads its own result. -/
structure FunctionWf (f : Function) : Prop where
  labels : (f.basicBlocks.map BasicBlock.name).Nodup
  loads  : ∀ i ∈ f.instrs, readsOwnResult i = false

/-- The blocks of a function that a path does not visit. -/
def skipped (f : Function) (path : List BasicBlock) : List BasicBlock :=
  f.basicBlocks.filter (fun b => decide (b.name ∉ path.map BasicBlock.name))

/-- The names defined in skipped blocks. -/
def skippedNames (f : Function) (path : List BasicBlock) : List Name :=
  results (pathInstrs (skipped f path))

/-- The slot a `Store` of a local may spill into. -/
def spillsTo : Instruction → Option Name
  | .store (.localOperand destName _) (.localOperand _ _) => some destName
  | _ => none

def allocaOf : Instruction → Option Name
  | .alloca dest => some dest
  | _ => none

/-- The names of all stack slots of a module. -/
def slotNames (m : Module) : List Name :=
  (m.functions.flatMap Function.instrs).filterMap allocaOf

/-- `analyze` has no arm for the instruction: it is passed over, operands and all. -/
def isOther : Instruction → Bool
  | .other _ _ _ => true
  | _ => false

/-- A path that the listing order covers: blocks in that order and none twice, no operand
    from a skipped block (phis apart), and no skipped store into a slot of the path. -/
structure ForwardPath (m : Module) (f : Function) (path : List BasicBlock) : Prop where
  isPath  : IsPath f path
  forward : path.Sublist f.basicBlocks
  uses    : ∀ i ∈ pathInstrs path, isOther i = false →
    ∀ n ∈ i.uses, n ∉ skippedNames f path
  slots   : ∀ i ∈ pathInstrs (skipped f path), ∀ n, spillsTo i = some n →
    n ∈ slotNames m → n ∈ skippedNames f path

-- ── What one instruction leaves alone ────────────────────────────────────────────

/-- Only the result is bound, only a spill writes a slot, and nothing is un-released. -/
structure Frame (i : Instruction) (t t' : Maps) : Prop where
  ptr     : ∀ n, i.tryGetResult ≠ some n → t'.ptrEnv n = t.ptrEnv n
  int     : ∀ n, i.tryGetResult ≠ some n → t'.intEnv n = t.intEnv n
  allocas : ∀ n, allocaOf i ≠ some n → (n ∈ t'.allocaNames ↔ n ∈ t.allocaNames)
  slot    : ∀ n, (spillsTo i = some n → n ∉ t.allocaNames) →
    t'.allocaStoreMap n = t.allocaStoreMap n
  freed   : t.freedAllocs ⊆ t'.freedAllocs

theorem Frame.refl (i : Instruction) (t : Maps) : Frame i t t :=
  ⟨fun _ _ => rfl, fun _ _ => rfl, fun _ _ => Iff.rfl, fun _ _ => rfl, Finset.Subset.refl _⟩

theorem Frame.bindPtr {i : Instruction} {t : Maps} {d : Name} (hd : i.tryGetResult = some d)
    (v : PtrVal) : Frame i t (t.bindPtr d v) :=
  ⟨fun n hn => Function.update_of_ne (fun h => hn (by rw [hd, h])) _ _, fun _ _ => rfl,
    fun _ _ => Iff.rfl, fun _ _ => rfl, Finset.Subset.refl _⟩

theorem Frame.bindInt {i : Instruction} {t : Maps} {d : Name} (hd : i.tryGetResult = some d)
    (v : IntVal) : Frame i t (t.bindInt d v) :=
  ⟨fun _ _ => rfl, fun n hn => Function.update_of_ne (fun h => hn (by rw [hd, h])) _ _,
    fun _ _ => Iff.rfl, fun _ _ => rfl, Finset.Subset.refl _⟩

theorem Frame.bindArith {i : Instruction} {t : Maps} {d : Name}
    (hd : i.tryGetResult = some d) (out : Option IntVal) (tracked : Bool) :
    Frame i t (bindArith t out tracked d) := by
  unfold SkvTransfer.bindArith
  cases out with
  | some v => exact Frame.bindInt hd v
  | none =>
      cases tracked with
      | true => exact Frame.bindInt hd .unknown
      | false => exact Frame.refl i t

/-- An allocation bound to the result of a call. -/
theorem Frame.bindDest {call : Call} {t t₁ : Maps} (h : Frame (.call call) t t₁) (v : PtrVal) :
    Frame (.call call) t (t₁.bindDest call.dest v) := by
  unfold Maps.bindDest
  cases hd : call.dest with
  | none => exact h
  | some d =>
      refine ⟨?_, h.int, h.allocas, h.slot, h.freed⟩
      intro n hn
      have hne : n ≠ d := fun heq => hn (by rw [heq]; exact hd)
      exact (Function.update_of_ne hne _ _).trans (h.ptr n hn)

theorem Frame.newAlloc (i : Instruction) (t : Maps) (size : UInt64) :
    Frame i t (t.newAlloc size) :=
  ⟨fun _ _ => rfl, fun _ _ => rfl, fun _ _ => Iff.rfl, fun _ _ => rfl, Finset.Subset.refl _⟩

theorem transferCall_frame (dma : DmaPolicy) (call : Call) (t : Maps) :
    Frame (.call call) t (transferCall dma call t) := by
  rcases transferCall_cases dma call t with
    heq | ⟨size, heq⟩ | ⟨size, heq⟩ | ⟨n, id, offset, -, heq⟩ | heq
  · rw [heq]
    exact Frame.refl _ t
  · rw [heq]
    exact (Frame.newAlloc _ t size).bindDest _
  · rw [heq]
    have h := (Frame.newAlloc (.call call) t size).bindDest (.dmaAlloc t.allocCounter (.fromU64 0))
    exact ⟨h.ptr, h.int, h.allocas, h.slot, h.freed⟩
  · rw [heq]
    exact ⟨fun _ _ => rfl, fun _ _ => rfl, fun _ _ => Iff.rfl, fun _ _ => rfl,
      Finset.subset_insert _ _⟩
  · rw [heq]
    exact ⟨fun _ _ => rfl, fun _ _ => rfl, fun _ _ => Iff.rfl, fun _ _ => rfl,
      Finset.Subset.refl _⟩

theorem spill_slot_frame (ty : IrType) (t : Maps) (destName : Name) (value : Operand) :
    Frame (.store (.localOperand destName ty) value) t (t.spill destName value) := by
  unfold Maps.spill
  by_cases ha : destName ∈ t.allocaNames
  · rw [if_pos ha]
    cases value with
    | constantOperand c => exact Frame.refl _ t
    | metadataOperand => exact Frame.refl _ t
    | localOperand valName vty =>
        simp only
        cases t.ptrEnv valName with
        | none => exact Frame.refl _ t
        | some pv =>
            refine ⟨fun _ _ => rfl, fun _ _ => rfl, fun _ _ => Iff.rfl, ?_, Finset.Subset.refl _⟩
            intro n hn
            have hne : n ≠ destName := fun heq => hn (by rw [heq]; rfl) (by rw [heq]; exact ha)
            exact Function.update_of_ne hne _ _
  · rw [if_neg ha]; exact Frame.refl _ t

/-- **The frame of an instruction.** -/
theorem transfer_frame (m : Module) (dma : DmaPolicy) (i : Instruction) (t : Maps) :
    Frame i t (transfer m dma i t) := by
  unfold transfer
  cases i with
  | alloca dest =>
      refine ⟨fun _ _ => rfl, fun _ _ => rfl, ?_, fun _ _ => rfl, Finset.Subset.refl _⟩
      intro n hn
      have hne : n ≠ dest := fun heq => hn (by rw [heq]; rfl)
      exact ⟨fun h => (Finset.mem_insert.mp h).resolve_left hne, Finset.mem_insert_of_mem⟩
  | call call => exact transferCall_frame dma call t
  | getElementPtr gep => exact Frame.bindPtr rfl _
  | ptrToInt operand toType dest => exact Frame.bindInt rfl _
  | intToPtr operand toType dest => exact Frame.bindPtr rfl _
  | add op0 op1 dest => exact Frame.bindArith rfl _ _
  | sub op0 op1 dest => exact Frame.bindArith rfl _ _
  | bitCast operand toType dest => exact Frame.bindPtr rfl _
  | store address value =>
      cases address with
      | localOperand n ty => exact spill_slot_frame ty t n value
      | constantOperand c => exact Frame.refl _ t
      | metadataOperand => exact Frame.refl _ t
  | load address loadedTy dest =>
      cases address with
      | localOperand n ty =>
          show Frame _ t (t.reload n dest)
          unfold Maps.reload
          split
          · split
            · exact Frame.bindPtr rfl _
            · exact Frame.refl _ t
          · exact Frame.refl _ t
      | constantOperand c => exact Frame.refl _ t
      | metadataOperand => exact Frame.refl _ t
  | other opcode operands dest => exact Frame.refl _ t

-- ── Next to the scan ─────────────────────────────────────────────────────────────

/-- The same pointer under other allocation ids. -/
def renamePtr (ρ : Nat → Nat) : PtrVal → PtrVal
  | .kmalloc id offset => .kmalloc (ρ id) offset
  | .dmaAlloc id offset => .dmaAlloc (ρ id) offset
  | .unknown => .unknown

def renameInt (ρ : Nat → Nat) : IntVal → IntVal
  | .ptrOffset id offset => .ptrOffset (ρ id) offset
  | .unknown => .unknown

/-- On the names `N`, the maps `s` of the scan say what the maps `t` of the replay say, up to
    the ids; and whatever the replay has released, the scan has too. -/
structure Covers (N : Name → Prop) (ρ : Nat → Nat) (t s : Maps) : Prop where
  ptr     : ∀ n, N n → s.ptrEnv n = (t.ptrEnv n).map (renamePtr ρ)
  int     : ∀ n, N n → s.intEnv n = (t.intEnv n).map (renameInt ρ)
  slot    : ∀ n, N n → s.allocaStoreMap n = (t.allocaStoreMap n).map (renamePtr ρ)
  allocas : ∀ n, N n → (n ∈ s.allocaNames ↔ n ∈ t.allocaNames)
  freed   : ∀ id ∈ t.freedAllocs, ρ id ∈ s.freedAllocs

/-- An operand that is no local outside `N`. -/
def OperandIn (N : Name → Prop) (op : Operand) : Prop :=
  ∀ n, operandLocalName op = some n → N n

section Covering

variable {N : Name → Prop} {ρ : Nat → Nat} {t s : Maps}

theorem Covers.operandPtr (h : Covers N ρ t s) {op : Operand} (hop : OperandIn N op) :
    (operandLocalName op).bind s.ptrEnv
      = ((operandLocalName op).bind t.ptrEnv).map (renamePtr ρ) := by
  cases hn : operandLocalName op with
  | none => rfl
  | some n => exact h.ptr n (hop n hn)

theorem Covers.operandInt (h : Covers N ρ t s) {op : Operand} (hop : OperandIn N op) :
    operandInt s op = (operandInt t op).map (renameInt ρ) := by
  unfold SkvAnalyze.operandInt
  cases hn : operandLocalName op with
  | none => rfl
  | some n => exact h.int n (hop n hn)

/-- **A skipped instruction**: the scan moves on alone. -/
theorem Covers.skip (h : Covers N ρ t s) {i : Instruction} {s' : Maps} (hf : Frame i s s')
    (hres : ∀ n, N n → i.tryGetResult ≠ some n)
    (hspill : ∀ n, N n → spillsTo i = some n → n ∉ s.allocaNames) : Covers N ρ t s' where
  ptr := fun n hn => (hf.ptr n (hres n hn)).trans (h.ptr n hn)
  int := fun n hn => (hf.int n (hres n hn)).trans (h.int n hn)
  slot := fun n hn => (hf.slot n (hspill n hn)).trans (h.slot n hn)
  allocas := by
    intro n hn
    have hne : allocaOf i ≠ some n := by
      intro ha
      cases i with
      | alloca dest => exact hres n hn ha
      | _ => exact nomatch ha
    exact (hf.allocas n hne).trans (h.allocas n hn)
  freed := fun id hid => hf.freed (h.freed id hid)

theorem Covers.bindPtr (h : Covers N ρ t s) (d : Name) (v : PtrVal) :
    Covers N ρ (t.bindPtr d v) (s.bindPtr d (renamePtr ρ v)) where
  ptr := by
    intro n hn
    show Function.update s.ptrEnv d (some (renamePtr ρ v)) n
      = (Function.update t.ptrEnv d (some v) n).map (renamePtr ρ)
    by_cases hnd : n = d
    · rw [hnd, Function.update_self, Function.update_self]
      rfl
    · rw [Function.update_of_ne hnd, Function.update_of_ne hnd]
      exact h.ptr n hn
  int := h.int
  slot := h.slot
  allocas := h.allocas
  freed := h.freed

theorem Covers.bindInt (h : Covers N ρ t s) (d : Name) (v : IntVal) :
    Covers N ρ (t.bindInt d v) (s.bindInt d (renameInt ρ v)) where
  ptr := h.ptr
  int := by
    intro n hn
    show Function.update s.intEnv d (some (renameInt ρ v)) n
      = (Function.update t.intEnv d (some v) n).map (renameInt ρ)
    by_cases hnd : n = d
    · rw [hnd, Function.update_self, Function.update_self]
      rfl
    · rw [Function.update_of_ne hnd, Function.update_of_ne hnd]
      exact h.int n hn
  slot := h.slot
  allocas := h.allocas
  freed := h.freed

/-- Renaming consistent values only looks at ids below the counter. -/
theorem renamePtr_congr {c : Nat} {d : Finset Nat} (hd : ∀ id ∈ d, id < c) {ρ' : Nat → Nat}
    (hρ : ∀ id < c, ρ' id = ρ id) {pv : PtrVal} (h : PtrOk c d pv) :
    renamePtr ρ' pv = renamePtr ρ pv := by
  cases pv with
  | kmalloc id offset => exact congrArg (PtrVal.kmalloc · offset) (hρ id h.1)
  | dmaAlloc id offset => exact congrArg (PtrVal.dmaAlloc · offset) (hρ id (hd id h))
  | unknown => rfl

theorem renameInt_congr {c : Nat} {d : Finset Nat} {ρ' : Nat → Nat}
    (hρ : ∀ id < c, ρ' id = ρ id) {iv : IntVal} (h : IntOk c d iv) :
    renameInt ρ' iv = renameInt ρ iv := by
  cases iv with
  | ptrOffset id offset => exact congrArg (IntVal.ptrOffset · offset) (hρ id h.1)
  | unknown => rfl

/-- Any renaming that agrees below the counter will do. -/
theorem Covers.congr (h : Covers N ρ t s) (hinv : MapsInv t) {ρ' : Nat → Nat}
    (hρ : ∀ id < t.allocCounter, ρ' id = ρ id) : Covers N ρ' t s where
  ptr := by
    intro n hn
    rw [h.ptr n hn]
    cases hp : t.ptrEnv n with
    | none => rfl
    | some pv => exact congrArg some (renamePtr_congr hinv.dma hρ (hinv.ptrs n pv hp)).symm
  int := by
    intro n hn
    rw [h.int n hn]
    cases hp : t.intEnv n with
    | none => rfl
    | some iv => exact congrArg some (renameInt_congr hρ (hinv.ints n iv hp)).symm
  slot := by
    intro n hn
    rw [h.slot n hn]
    cases hp : t.allocaStoreMap n with
    | none => rfl
    | some pv => exact congrArg some (renamePtr_congr hinv.dma hρ (hinv.slots n pv hp)).symm
  allocas := h.allocas
  freed := by
    intro id hid
    rw [hρ id (hinv.freed id hid).1]
    exact h.freed id hid

/-- **Allocations** on both sides: the new ids are matched. -/
theorem Covers.alloc (h : Covers N ρ t s) (hinv : MapsInv t) (dest : Option Name)
    (size : UInt64) : ∃ ρ', ρ' t.allocCounter = s.allocCounter
      ∧ Covers N ρ' (t.newAlloc size) (s.newAlloc size)
      ∧ Covers N ρ' (t.kmalloc dest size) (s.kmalloc dest size) := by
  refine ⟨Function.update ρ t.allocCounter s.allocCounter, Function.update_self .., ?_⟩
  have hold : Covers N (Function.update ρ t.allocCounter s.allocCounter) t s :=
    h.congr hinv (fun id hid => Function.update_of_ne (Nat.ne_of_lt hid) _ _)
  have hnew : Covers N (Function.update ρ t.allocCounter s.allocCounter)
      (t.newAlloc size) (s.newAlloc size) :=
    ⟨hold.ptr, hold.int, hold.slot, hold.allocas, hold.freed⟩
  refine ⟨hnew, ?_⟩
  unfold Maps.kmalloc Maps.bindDest
  cases dest with
  | none => exact hnew
  | some d =>
      have hb := hnew.bindPtr d (.kmalloc t.allocCounter (.fromU64 0))
      have hid : renamePtr (Function.update ρ t.allocCounter s.allocCounter)
          (.kmalloc t.allocCounter (.fromU64 0)) = .kmalloc s.allocCounter (.fromU64 0) :=
        congrArg (PtrVal.kmalloc · (.fromU64 0)) (Function.update_self ..)
      rw [hid] at hb
      exact hb

theorem Covers.dmaAlloc (h : Covers N ρ t s) (hinv : MapsInv t) (dest : Option Name)
    (size : UInt64) : ∃ ρ', Covers N ρ' (t.dmaAlloc dest size) (s.dmaAlloc dest size) := by
  obtain ⟨ρ', hid, hnew, -⟩ := h.alloc hinv dest size
  refine ⟨ρ', ?_⟩
  unfold Maps.dmaAlloc Maps.bindDest
  cases dest with
  | none => exact ⟨hnew.ptr, hnew.int, hnew.slot, hnew.allocas, hnew.freed⟩
  | some d =>
      have hb := hnew.bindPtr d (.dmaAlloc t.allocCounter (.fromU64 0))
      have hval : renamePtr ρ' (.dmaAlloc t.allocCounter (.fromU64 0))
          = .dmaAlloc s.allocCounter (.fromU64 0) := congrArg (PtrVal.dmaAlloc · (.fromU64 0)) hid
      rw [hval] at hb
      exact ⟨hb.ptr, hb.int, hb.slot, hb.allocas, hb.freed⟩

theorem Covers.free (h : Covers N ρ t s) (id : Nat) : Covers N ρ (t.free id) (s.free (ρ id)) where
  ptr := h.ptr
  int := h.int
  slot := h.slot
  allocas := h.allocas
  freed := by
    intro x hx
    rcases Finset.mem_insert.mp hx with rfl | hx
    · exact Finset.mem_insert_self _ _
    · exact Finset.mem_insert_of_mem (h.freed x hx)

theorem Covers.spill (h : Covers N ρ t s) {destName : Name} (hdest : N destName)
    {value : Operand} (hvalue : OperandIn N value) :
    Covers N ρ (t.spill destName value) (s.spill destName value) := by
  unfold Maps.spill
  by_cases ha : destName ∈ t.allocaNames
  · rw [if_pos ha, if_pos ((h.allocas destName hdest).mpr ha)]
    cases value with
    | constantOperand c => exact h
    | metadataOperand => exact h
    | localOperand valName ty =>
        simp only
        rw [h.ptr valName (hvalue valName rfl)]
        cases t.ptrEnv valName with
        | none => exact h
        | some pv =>
            refine ⟨h.ptr, h.int, ?_, h.allocas, h.freed⟩
            intro n hn
            show Function.update s.allocaStoreMap destName (some (renamePtr ρ pv)) n
              = (Function.update t.allocaStoreMap destName (some pv) n).map (renamePtr ρ)
            by_cases hnd : n = destName
            · rw [hnd, Function.update_self, Function.update_self]
              rfl
            · rw [Function.update_of_ne hnd, Function.update_of_ne hnd]
              exact h.slot n hn
  · rw [if_neg ha, if_neg (fun hs => ha ((h.allocas destName hdest).mp hs))]
    exact h

theorem Covers.reload (h : Covers N ρ t s) {srcName : Name} (hsrc : N srcName) (dest : Name) :
    Covers N ρ (t.reload srcName dest) (s.reload srcName dest) := by
  unfold Maps.reload
  by_cases ha : srcName ∈ t.allocaNames
  · rw [if_pos ha, if_pos ((h.allocas srcName hsrc).mpr ha), h.slot srcName hsrc]
    cases t.allocaStoreMap srcName with
    | none => exact h
    | some pv => exact h.bindPtr dest pv
  · rw [if_neg ha, if_neg (fun hs => ha ((h.allocas srcName hsrc).mp hs))]
    exact h

theorem Covers.gepVal (h : Covers N ρ t s) (m : Module) {gep : GetElementPtr}
    (hop : OperandIn N gep.address) : gepVal m gep s = renamePtr ρ (gepVal m gep t) := by
  have hbase : (operandLocalName gep.address).bind (gepBase s)
      = ((operandLocalName gep.address).bind (gepBase t)).map (renamePtr ρ) := by
    cases hn : operandLocalName gep.address with
    | none => rfl
    | some n =>
        show (s.ptrEnv n).or (s.allocaStoreMap n)
          = ((t.ptrEnv n).or (t.allocaStoreMap n)).map (renamePtr ρ)
        rw [h.ptr n (hop n hn), h.slot n (hop n hn)]
        cases t.ptrEnv n <;> rfl
  unfold SkvTransfer.gepVal
  rw [hbase]
  cases (operandLocalName gep.address).bind (gepBase t) with
  | none => rfl
  | some pv =>
      cases pv with
      | kmalloc id offset =>
          simp only [Option.map_some, renamePtr]
          cases inferGepOffset m gep offset <;> rfl
      | dmaAlloc id offset =>
          simp only [Option.map_some, renamePtr]
          cases inferGepOffset m gep offset <;> rfl
      | unknown => rfl

theorem Covers.ptrToIntVal (h : Covers N ρ t s) {n : Name} (hn : N n) :
    ptrToIntVal s n = renameInt ρ (ptrToIntVal t n) := by
  unfold SkvAnalyze.ptrToIntVal
  rw [h.ptr n hn]
  cases t.ptrEnv n with
  | none => rfl
  | some pv => cases pv <;> rfl

theorem Covers.intToPtrVal (h : Covers N ρ t s) {n : Name} (hn : N n) :
    intToPtrVal s n = renamePtr ρ (intToPtrVal t n) := by
  unfold SkvAnalyze.intToPtrVal
  rw [h.int n hn]
  cases t.intEnv n with
  | none => rfl
  | some iv => cases iv <;> rfl

theorem Covers.addOut (h : Covers N ρ t s) {op0 op1 : Operand} (h0 : OperandIn N op0)
    (h1 : OperandIn N op1) :
    addOut s op0 op1 = (addOut t op0 op1).map (renameInt ρ) := by
  unfold SkvAnalyze.addOut
  rw [h.operandInt h0, h.operandInt h1]
  cases SkvAnalyze.operandInt t op0 with
  | none =>
      cases SkvAnalyze.operandInt t op1 with
      | none => rfl
      | some iv1 => cases iv1 <;> cases operandConstU64 op0 <;> rfl
  | some iv0 =>
      cases iv0 with
      | ptrOffset id offset => cases operandConstU64 op1 <;> rfl
      | unknown =>
          cases SkvAnalyze.operandInt t op1 with
          | none => rfl
          | some iv1 => cases iv1 <;> cases operandConstU64 op0 <;> rfl

theorem Covers.subOut (h : Covers N ρ t s) {op0 op1 : Operand} (h0 : OperandIn N op0) :
    subOut s op0 op1 = (subOut t op0 op1).map (renameInt ρ) := by
  unfold SkvAnalyze.subOut
  rw [h.operandInt h0]
  cases SkvAnalyze.operandInt t op0 with
  | none => rfl
  | some iv0 => cases iv0 <;> cases operandConstU64 op1 <;> rfl

theorem Covers.intTracked (h : Covers N ρ t s) {op0 op1 : Operand} (h0 : OperandIn N op0)
    (h1 : OperandIn N op1) : intTracked s op0 op1 = intTracked t op0 op1 := by
  unfold SkvAnalyze.intTracked
  rw [h.operandInt h0, h.operandInt h1, Option.isSome_map, Option.isSome_map]

theorem Covers.bindArith (h : Covers N ρ t s) (out : Option IntVal) (tracked : Bool)
    (dest : Name) : Covers N ρ (bindArith t out tracked dest)
      (bindArith s (out.map (renameInt ρ)) tracked dest) := by
  unfold SkvTransfer.bindArith
  cases out with
  | some v => exact h.bindInt dest v
  | none =>
      cases tracked with
      | true => exact h.bindInt dest .unknown
      | false => exact h

/-- A call on both sides. -/
theorem Covers.call (h : Covers N ρ t s) (hinv : MapsInv t) (dma : DmaPolicy) {call : Call}
    (hargs : ∀ op ∈ call.arguments, OperandIn N op) :
    ∃ ρ', Covers N ρ' (transferCall dma call t) (transferCall dma call s) := by
  unfold transferCall
  cases callArm dma (functionNameOfCall call) with
  | kmalloc =>
      show ∃ ρ', Covers N ρ' (kmallocMaps call t) (kmallocMaps call s)
      unfold kmallocMaps
      cases call.arguments.head?.bind operandConstU64 with
      | none => exact ⟨ρ, h⟩
      | some size =>
          obtain ⟨ρ', -, -, hk⟩ := h.alloc hinv call.dest size
          exact ⟨ρ', hk⟩
  | kcalloc =>
      show ∃ ρ', Covers N ρ' (kcallocMaps call t) (kcallocMaps call s)
      unfold kcallocMaps
      split
      · next nmemb elemSize _ _ =>
          cases checkedMul nmemb elemSize with
          | none => exact ⟨ρ, h⟩
          | some total =>
              obtain ⟨ρ', -, -, hk⟩ := h.alloc hinv call.dest total
              exact ⟨ρ', hk⟩
      · exact ⟨ρ, h⟩
  | kfree =>
      show ∃ ρ', Covers N ρ' (kfreeMaps call t) (kfreeMaps call s)
      have hptr : (call.arguments.head?.bind operandLocalName).bind s.ptrEnv
          = ((call.arguments.head?.bind operandLocalName).bind t.ptrEnv).map (renamePtr ρ) := by
        cases hop : call.arguments.head? with
        | none => rfl
        | some op => exact h.operandPtr (hargs op (List.mem_of_mem_head? hop))
      unfold kfreeMaps
      rw [hptr]
      cases (call.arguments.head?.bind operandLocalName).bind t.ptrEnv with
      | none => exact ⟨ρ, h⟩
      | some pv =>
          cases pv with
          | kmalloc id offset => exact ⟨ρ, h.free id⟩
          | dmaAlloc id offset => exact ⟨ρ, h⟩
          | unknown => exact ⟨ρ, h⟩
  | dmaAlloc =>
      show ∃ ρ', Covers N ρ' (dmaAllocMaps call t) (dmaAllocMaps call s)
      unfold dmaAllocMaps
      cases call.arguments[1]?.bind operandConstU64 with
      | none => exact ⟨ρ, h⟩
      | some size => exact h.dmaAlloc hinv call.dest size
  | iommuMap => exact ⟨ρ, h.ptr, h.int, h.slot, h.allocas, h.freed⟩
  | memset => exact ⟨ρ, h⟩
  | memcpy => exact ⟨ρ, h⟩
  | unnamed => exact ⟨ρ, h⟩
  | dmaMap => exact ⟨ρ, h⟩
  | untracked => exact ⟨ρ, h⟩

/-- **A visited instruction**: replay and scan move on together. -/
theorem Covers.transfer (h : Covers N ρ t s) (hinv : MapsInv t) (m : Module)
    (dma : DmaPolicy) {i : Instruction}
    (huse : isOther i = false → ∀ op ∈ i.operands, OperandIn N op) :
    ∃ ρ', Covers N ρ' (transfer m dma i t) (transfer m dma i s) := by
  unfold SkvTransfer.transfer
  cases i with
  | alloca dest =>
      refine ⟨ρ, h.ptr, h.int, h.slot, ?_, h.freed⟩
      intro n hn
      show n ∈ insert dest s.allocaNames ↔ n ∈ insert dest t.allocaNames
      rw [Finset.mem_insert, Finset.mem_insert, h.allocas n hn]
  | call call => exact h.call hinv dma (huse rfl)
  | getElementPtr gep =>
      simp only
      rw [h.gepVal m (huse rfl _ List.mem_cons_self)]
      exact ⟨ρ, h.bindPtr _ _⟩
  | ptrToInt operand toType dest =>
      have hop := huse rfl _ List.mem_cons_self
      refine ⟨ρ, ?_⟩
      simp only
      cases hn : operandLocalName operand with
      | none => exact h.bindInt dest .unknown
      | some n =>
          simp only [Option.map_some, Option.getD_some]
          rw [h.ptrToIntVal (hop n hn)]
          exact h.bindInt dest _
  | intToPtr operand toType dest =>
      have hop := huse rfl _ List.mem_cons_self
      refine ⟨ρ, ?_⟩
      simp only
      cases hn : operandLocalName operand with
      | none => exact h.bindPtr dest .unknown
      | some n =>
          simp only [Option.map_some, Option.getD_some]
          rw [h.intToPtrVal (hop n hn)]
          exact h.bindPtr dest _
  | add op0 op1 dest =>
      have h0 := huse rfl op0 List.mem_cons_self
      have h1 := huse rfl op1 (List.mem_cons_of_mem _ List.mem_cons_self)
      simp only
      rw [h.addOut h0 h1, h.intTracked h0 h1]
      exact ⟨ρ, h.bindArith _ _ dest⟩
  | sub op0 op1 dest =>
      have h0 := huse rfl op0 List.mem_cons_self
      have h1 := huse rfl op1 (List.mem_cons_of_mem _ List.mem_cons_self)
      simp only
      rw [h.subOut h0, h.intTracked h0 h1]
      exact ⟨ρ, h.bindArith _ _ dest⟩
  | bitCast operand toType dest =>
      simp only
      rw [h.operandPtr (huse rfl operand List.mem_cons_self)]
      refine ⟨ρ, ?_⟩
      cases (operandLocalName operand).bind t.ptrEnv with
      | none => exact h.bindPtr dest .unknown
      | some pv => exact h.bindPtr dest pv
  | store address value =>
      have ha := huse rfl address List.mem_cons_self
      have hv := huse rfl value (List.mem_cons_of_mem _ List.mem_cons_self)
      refine ⟨ρ, ?_⟩
      simp only
      cases hn : operandLocalName address with
      | none => exact h
      | some n => exact h.spill (ha n hn) hv
  | load address loadedTy dest =>
      have ha := huse rfl address List.mem_cons_self
      refine ⟨ρ, ?_⟩
      simp only
      cases hn : operandLocalName address with
      | none => exact h
      | some n => exact h.reload (ha n hn) dest
  | other opcode operands dest => exact ⟨ρ, h⟩

theorem Covers.touched_access (h : Covers N ρ t s) {op : Operand} (hop : OperandIn N op) :
    (((operandLocalName op).bind s.ptrEnv).bind ptrvalAllocInfo).map Prod.fst
      = ((((operandLocalName op).bind t.ptrEnv).bind ptrvalAllocInfo).map Prod.fst).map ρ := by
  rw [h.operandPtr hop]
  cases (operandLocalName op).bind t.ptrEnv with
  | none => rfl
  | some pv => cases pv <;> rfl

/-- Both sides touch the same allocation. -/
theorem Covers.touched (h : Covers N ρ t s) {i : Instruction}
    (huse : isOther i = false → ∀ op ∈ i.operands, OperandIn N op) :
    touched s i = (touched t i).map ρ := by
  cases i with
  | call call =>
      simp only [SkvPaths.touched]
      split
      · cases hop : call.arguments.head? with
        | none => rfl
        | some op =>
            have hptr := h.operandPtr (huse rfl op (List.mem_of_mem_head? hop))
            simp only [Option.bind_some, hptr]
            cases (operandLocalName op).bind t.ptrEnv with
            | none => rfl
            | some pv => cases pv <;> rfl
      · rfl
  | store address value => exact h.touched_access (huse rfl address List.mem_cons_self)
  | load address loadedTy dest => exact h.touched_access (huse rfl address List.mem_cons_self)
  | _ => rfl

/-- What is safe for the scan is safe for the replay. -/
theorem Covers.safeAt (h : Covers N ρ t s) {i : Instruction}
    (huse : isOther i = false → ∀ op ∈ i.operands, OperandIn N op) (hs : SafeAt s i) :
    SafeAt t i := by
  intro id hid hfreed
  refine hs (ρ id) ?_ (h.freed id hfreed)
  rw [h.touched huse, hid]
  rfl

end Covering

-- ── From the listing to a path ───────────────────────────────────────────────────

theorem replay_inv (m : Module) (dma : DmaPolicy) :
    ∀ (is : List Instruction) {t : Maps}, MapsInv t → MapsInv (replay m dma is t) := by
  intro is
  induction is with
  | nil => intro t h; exact h
  | cons i is ih => intro t h; exact ih (transfer_inv m dma i h)

/-- All slots the scan knows are among `slots`. -/
def SlotsIn (slots : List Name) (s : Maps) : Prop := ∀ n ∈ s.allocaNames, n ∈ slots

theorem replay_slotsIn (m : Module) (dma : DmaPolicy) {slots : List Name} :
    ∀ (is : List Instruction) {s : Maps}, (∀ i ∈ is, ∀ n, allocaOf i = some n → n ∈ slots) →
      SlotsIn slots s → SlotsIn slots (replay m dma is s) := by
  intro is
  induction is with
  | nil => intro s _ h; exact h
  | cons i is ih =>
      intro s hslots h
      refine ih (fun j hj => hslots j (List.mem_cons_of_mem i hj)) ?_
      intro n hn
      by_cases ha : allocaOf i = some n
      · exact hslots i List.mem_cons_self n ha
      · exact h n (((transfer_frame m dma i s).allocas n ha).mp hn)

/-- A visited block. -/
theorem visit_block {N : Name → Prop} (m : Module) (dma : DmaPolicy) :
    ∀ (is : List Instruction) {ρ : Nat → Nat} {t s : Maps}, Covers N ρ t s → MapsInv t →
      (∀ i ∈ is, isOther i = false → ∀ op ∈ i.operands, OperandIn N op) →
      ReplaySafe m dma is s →
      ReplaySafe m dma is t ∧ ∃ ρ', Covers N ρ' (replay m dma is t) (replay m dma is s) := by
  intro is
  induction is with
  | nil => intro ρ t s h _ _ _; exact ⟨trivial, ρ, h⟩
  | cons i is ih =>
      intro ρ t s h hinv huse hsafe
      have hi := huse i List.mem_cons_self
      obtain ⟨ρ', h'⟩ := h.transfer hinv m dma hi
      obtain ⟨hrest, hend⟩ := ih h' (transfer_inv m dma i hinv)
        (fun j hj => huse j (List.mem_cons_of_mem i hj)) hsafe.2
      exact ⟨⟨h.safeAt hi hsafe.1, hrest⟩, hend⟩

/-- A skipped block. -/
theorem skip_block {N : Name → Prop} (m : Module) (dma : DmaPolicy) {slots : List Name} :
    ∀ (is : List Instruction) {ρ : Nat → Nat} {t s : Maps}, Covers N ρ t s →
      SlotsIn slots s → (∀ i ∈ is, ∀ n, allocaOf i = some n → n ∈ slots) →
      (∀ i ∈ is, ∀ n, N n → i.tryGetResult ≠ some n) →
      (∀ i ∈ is, ∀ n, N n → spillsTo i = some n → n ∉ slots) →
      Covers N ρ t (replay m dma is s) := by
  intro is
  induction is with
  | nil => intro ρ t s h _ _ _ _; exact h
  | cons i is ih =>
      intro ρ t s h hslots halloc hres hspill
      have htail : ∀ {P : Instruction → Prop}, (∀ j ∈ i :: is, P j) → ∀ j ∈ is, P j :=
        fun hP j hj => hP j (List.mem_cons_of_mem i hj)
      refine ih (h.skip (transfer_frame m dma i s) (hres i List.mem_cons_self) ?_) ?_
        (htail halloc) (htail hres) (htail hspill)
      · exact fun n hn hs hmem => hspill i List.mem_cons_self n hn hs (hslots n hmem)
      · exact replay_slotsIn m dma [i] (fun j hj => halloc j (by
          rw [List.mem_singleton.mp hj]
          exact List.mem_cons_self)) hslots

/-- **From the listing to a path.**  By induction on how the path sits in the list of
    blocks: a block of the list is visited by both, or by the scan alone. -/
theorem forward_safe {N : Name → Prop} (m : Module) (dma : DmaPolicy) {slots : List Name} :
    ∀ {p l : List BasicBlock}, p.Sublist l → (l.map BasicBlock.name).Nodup →
      (∀ i ∈ pathInstrs l, ∀ n, allocaOf i = some n → n ∈ slots) →
      (∀ i ∈ pathInstrs p, isOther i = false → ∀ op ∈ i.operands, OperandIn N op) →
      (∀ b ∈ l, b.name ∉ p.map BasicBlock.name → ∀ i ∈ b.instrs, ∀ n, N n →
        i.tryGetResult ≠ some n ∧ (spillsTo i = some n → n ∉ slots)) →
      ∀ {ρ : Nat → Nat} {t s : Maps}, Covers N ρ t s → MapsInv t → SlotsIn slots s →
        ReplaySafe m dma (pathInstrs l) s → ReplaySafe m dma (pathInstrs p) t := by
  intro p l hsub
  induction hsub with
  | slnil => intro _ _ _ _ ρ t s _ _ _ _; trivial
  | cons b hsub ih =>
      intro hlabels halloc huse hskip ρ t s h hinv hslots hsafe
      obtain ⟨hb, hlabels'⟩ := List.nodup_cons.mp hlabels
      have hnot : b.name ∉ List.map BasicBlock.name _ := fun hmem =>
        hb ((hsub.map BasicBlock.name).subset hmem)
      have hb' := hskip b List.mem_cons_self hnot
      obtain ⟨-, hrest⟩ := (replaySafe_append m dma _ b.instrs s).mp hsafe
      have hallocb : ∀ i ∈ b.instrs, ∀ n, allocaOf i = some n → n ∈ slots :=
        fun i hi => halloc i (List.mem_append_left _ hi)
      exact ih hlabels' (fun i hi => halloc i (List.mem_append_right _ hi)) huse
        (fun b' hmem => hskip b' (List.mem_cons_of_mem b hmem))
        (skip_block m dma b.instrs h hslots hallocb (fun i hi n hn => (hb' i hi n hn).1)
          (fun i hi n hn => (hb' i hi n hn).2))
        hinv (replay_slotsIn m dma b.instrs hallocb hslots) hrest
  | cons_cons b hsub ih =>
      intro hlabels halloc huse hskip ρ t s h hinv hslots hsafe
      obtain ⟨hb, hlabels'⟩ := List.nodup_cons.mp hlabels
      obtain ⟨hblock, hrest⟩ := (replaySafe_append m dma _ b.instrs s).mp hsafe
      obtain ⟨hdone, ρ', h'⟩ := visit_block m dma b.instrs h hinv
        (fun i hi => huse i (List.mem_append_left _ hi)) hblock
      refine (replaySafe_append m dma _ b.instrs t).mpr ⟨hdone, ?_⟩
      refine ih hlabels' (fun i hi => halloc i (List.mem_append_right _ hi))
        (fun i hi => huse i (List.mem_append_right _ hi)) ?_ h' (replay_inv m dma b.instrs hinv)
        (replay_slotsIn m dma b.instrs (fun i hi => halloc i (List.mem_append_left _ hi)) hslots)
        hrest
      intro b' hmem hnot
      refine hskip b' (List.mem_cons_of_mem b hmem) ?_
      intro hin
      rcases List.mem_cons.mp hin with heq | hin
      · exact hb (heq ▸ List.mem_map_of_mem hmem)
      · exact hnot hin

-- ── From `Pass` to the listing ───────────────────────────────────────────────────

/-- An instruction that leaves `Pass` behind was safe. -/
theorem stepInstr_safe {e : Env} {site : Site} {s : St} (hs : ¬ Failed s)
    (hload : readsOwnResult site.instr = false)
    (hp : (stepInstr e site s).state.finalResult = .pass) : SafeAt s.maps site.instr := by
  intro id hid
  unfold stepInstr at hp
  cases hi : site.instr with
  | call call =>
      simp only [hi, touched] at hp hid
      by_cases hname : functionNameOfCall call = some "kfree"
      · rw [if_pos hname] at hid
        have hfail : ¬ s.finalResult.isFail = true := hs
        unfold stepCall at hp
        rw [if_neg hfail, hname] at hp
        cases hop : call.arguments.head? with
        | none => rw [hop] at hid; exact nomatch hid
        | some op =>
            simp only [hop, Option.bind_some] at hid
            cases hk : (operandLocalName op).bind s.maps.ptrEnv with
            | none => rw [hk] at hid; exact nomatch hid
            | some pv =>
                rw [hk] at hid
                cases pv with
                | kmalloc a off =>
                    obtain rfl := Option.some.inj hid
                    exact stepKfree_pass hp hop hk
                | dmaAlloc a off => exact nomatch hid
                | unknown => exact nomatch hid
      · rw [if_neg hname] at hid; exact nomatch hid
  | store address value =>
      simp only [hi, touched] at hp hid
      obtain ⟨⟨a, off⟩, ht, rfl⟩ := Option.map_eq_some_iff.mp hid
      obtain ⟨t', hfreed, -, heq⟩ := stepStore_tracked e site value ht
      rw [heq] at hp
      rw [← hfreed]
      exact guardedAccess_live hp
  | load address loadedTy dest =>
      rw [hi] at hload
      simp only [hi, touched] at hp hid
      obtain ⟨⟨a, off⟩, ht, rfl⟩ := Option.map_eq_some_iff.mp hid
      obtain ⟨t', hfreed, -, heq⟩ := stepLoad_tracked e site loadedTy
        (of_decide_eq_false hload) ht
      rw [heq] at hp
      rw [← hfreed]
      exact guardedAccess_live hp
  | _ => rw [hi] at hid; exact nomatch hid

/-- A loop over sites that ends in `Pass` replayed them safely. -/
theorem forLoop_replaySafe {e : Env} :
    ∀ (l : List Site) (s : St), ¬ Failed s → (∀ x ∈ l, readsOwnResult x.instr = false) →
      (forLoop (stepInstr e) l s).finalResult = .pass →
      ReplaySafe e.module e.dmaPolicy (l.map Site.instr) s.maps := by
  intro l
  induction l with
  | nil => intro s _ _ _; trivial
  | cons x xs ih =>
      intro s hs hload hp
      cases hb : stepInstr e x s with
      | brk s' =>
          rw [forLoop_cons_brk hb] at hp
          have hfailed := (stepInstr_flagged e).brk_up x s s' hs hb
          exact absurd hfailed (not_failed_of_pass hp)
      | next s' =>
          rw [forLoop_cons_next hb] at hp
          have hs' := (stepInstr_flagged e).next_down x s s' hs hb
          have hpass : s'.finalResult = .pass :=
            (visits_backward (stepInstr_flagged e) (fun _ => not_failed_of_pass)
              (fun site _ hs => (stepInstr_ok e site hs).pass) xs s' hs' hp).1
          refine ⟨stepInstr_safe hs (hload x List.mem_cons_self) (by rw [hb]; exact hpass), ?_⟩
          rw [← stepInstr_next_maps hs hb]
          exact ih s' hs' (fun y hy => hload y (List.mem_cons_of_mem x hy)) hp

/-- **What `Pass` says about paths.**  On a forward path no `kfree` releases an allocation
    already released on the path, and no `Load` or `Store` goes through one. -/
theorem pass_covers_forward_paths {m : Module} {pre post : List Function} {f : Function}
    (hm : m.functions = pre ++ f :: post) (hwf : ∀ g ∈ m.functions, FunctionWf g)
    {path : List BasicBlock} (hpath : ForwardPath m f path) (host : Host) (gate : HitlGate)
    (asmP : InlineAsmPolicy) (dmaP : DmaPolicy)
    (h : (analyze m host gate asmP dmaP).1.result = .pass) :
    ReplaySafe m dmaP (pathInstrs path) (entryMaps m dmaP pre) := by
  -- the listing of the whole module, then of the function
  have hscan := scan_pass_of_analyze h
  rw [scanModule_eq] at hscan
  have hload : ∀ x ∈ sites m, readsOwnResult x.instr = false := by
    intro x hx
    have hmem : x.instr ∈ (sites m).map Site.instr := List.mem_map_of_mem hx
    rw [sites_instrs] at hmem
    obtain ⟨g, hg, hi⟩ := List.mem_flatMap.mp hmem
    exact (hwf g hg).loads _ hi
  have hall := forLoop_replaySafe _ _ (not_failed_init gate) hload hscan
  have hinstrs : (sites m).map Site.instr
      = pre.flatMap Function.instrs ++ (f.instrs ++ post.flatMap Function.instrs) := by
    rw [sites_instrs, hm, List.flatMap_append, List.flatMap_cons]
  have hall' : ReplaySafe m dmaP ((sites m).map Site.instr) Maps.empty := hall
  rw [hinstrs, replaySafe_append, replaySafe_append] at hall'
  have hf : f ∈ m.functions := by
    rw [hm]
    exact List.mem_append_right _ List.mem_cons_self
  -- both start from the maps at the entry of the function
  have hcovers : Covers (fun n => n ∉ skippedNames f path) id (entryMaps m dmaP pre)
      (replay m dmaP (pre.flatMap Function.instrs) Maps.empty) := by
    have hptr : renamePtr id = id := by funext pv; cases pv <;> rfl
    have hint : renameInt id = id := by funext iv; cases iv <;> rfl
    refine ⟨fun n _ => ?_, fun n _ => ?_, fun n _ => ?_, fun _ _ => Iff.rfl,
      fun x hx => absurd hx (Finset.notMem_empty x)⟩
    · rw [hptr, Option.map_id]; rfl
    · rw [hint, Option.map_id]; rfl
    · rw [hptr, Option.map_id]; rfl
  have hinv : MapsInv (entryMaps m dmaP pre) := by
    have hi := replay_inv m dmaP (pre.flatMap Function.instrs) mapsInv_empty
    exact ⟨hi.sizes, hi.ptrs, hi.slots, hi.ints, fun x hx => absurd hx (Finset.notMem_empty x),
      hi.dma, hi.iommu⟩
  have hslots : ∀ g ∈ m.functions, ∀ i ∈ g.instrs, ∀ n, allocaOf i = some n → n ∈ slotNames m :=
    fun g hg i hi n hn => List.mem_filterMap.mpr ⟨i, List.mem_flatMap.mpr ⟨g, hg, hi⟩, hn⟩
  refine forward_safe m dmaP hpath.forward (hwf f hf).labels (hslots f hf) ?_ ?_ hcovers hinv ?_
    hall'.2.1
  · intro i hi hother op hop n hn
    exact hpath.uses i hi hother n (List.mem_filterMap.mpr ⟨op, hop, hn⟩)
  · intro b hb hnot i hi n hN
    have hskip : i ∈ pathInstrs (skipped f path) :=
      List.mem_flatMap.mpr ⟨b, List.mem_filter.mpr ⟨hb, decide_eq_true hnot⟩, hi⟩
    exact ⟨fun hres => hN (List.mem_filterMap.mpr ⟨i, hskip, hres⟩),
      fun hspill hmem => hN (hpath.slots i hskip n hspill hmem)⟩
  · refine replay_slotsIn m dmaP _ ?_ (fun n hn => absurd hn (Finset.notMem_empty n))
    intro i hi
    obtain ⟨g, hg, hgi⟩ := List.mem_flatMap.mp hi
    exact hslots g (by rw [hm]; exact List.mem_append_left _ hg) i hgi

-- ── Concrete modules ─────────────────────────────────────────────────────────────

/-- The blocks of a function at the given positions. -/
def blocksAt (f : Function) (idxs : List Nat) : List BasicBlock :=
  idxs.filterMap (fun k => f.basicBlocks[k]?)

theorem mem_of_blocksAt {f : Function} {idxs : List Nat} {b : BasicBlock}
    (h : b ∈ blocksAt f idxs) : b ∈ f.basicBlocks := by
  obtain ⟨k, -, hk⟩ := List.mem_filterMap.mp h
  exact List.mem_of_getElem? hk

/-- A branch around a `kfree`: entry, release, exit, where the release may be left out. -/
def branchFn : Function := Function.ofBlocks "branch" [
  ([.call (.direct "kmalloc" [.lit 64 8] (some (.name "p"))), .store (.ptr "p") (.lit 32 0)],
    .condBr (.localOperand (.name "c") (.integerType 1)) (.number 1) (.number 2)),
  ([.call (.direct "kfree" [.ptr "p"] none)], .br (.number 2)),
  ([], .ret none)]

theorem branchFn_forward :
    ForwardPath (.ofFunctions [branchFn]) branchFn (blocksAt branchFn [0, 2]) where
  isPath := ⟨rfl, fun _ => mem_of_blocksAt, by decide⟩
  forward := by
    show [_, _].Sublist [_, _, _]
    exact .cons_cons _ (.cons _ (.cons_cons _ .slnil))
  uses := by decide
  slots := by decide

theorem branchFn_path_safe :
    ReplaySafe (.ofFunctions [branchFn]) .verify (pathInstrs (blocksAt branchFn [0, 2]))
      (entryMaps (.ofFunctions [branchFn]) .verify []) :=
  pass_covers_forward_paths (show _ = [] ++ branchFn :: [] from rfl)
    (fun g hg => by
      obtain rfl := List.mem_singleton.mp hg
      exact ⟨by decide, by decide⟩)
    branchFn_forward (sortedHost evalSolver) (.fresh .off ∅ ∅) .conservative .verify (by decide)

/-- A module that passes, with a path on which memory is released twice or used after its
    release. -/
def Missed (f : Function) (idxs : List Nat) : Prop :=
  (analyze (.ofFunctions [f]) (sortedHost evalSolver) (.fresh .off ∅ ∅) .conservative
      .verify).1.result = .pass
    ∧ IsPath f (blocksAt f idxs)
    ∧ ¬ ReplaySafe (.ofFunctions [f]) .verify (pathInstrs (blocksAt f idxs))
        (entryMaps (.ofFunctions [f]) .verify [])

/-- `kfree` in the body of a loop. -/
def loopFn : Function := Function.ofBlocks "loop" [
  ([.call (.direct "kmalloc" [.lit 64 8] (some (.name "p")))], .br (.number 1)),
  ([.call (.direct "kfree" [.ptr "p"] none)],
    .condBr (.localOperand (.name "c") (.integerType 1)) (.number 1) (.number 2)),
  ([], .ret none)]

/-- The use is listed before the release and executed after it. -/
def permutedFn : Function := Function.ofBlocks "permuted" [
  ([.call (.direct "kmalloc" [.lit 64 8] (some (.name "p")))], .br (.number 2)),
  ([.store (.ptr "p") (.lit 32 0)], .ret none),
  ([.call (.direct "kfree" [.ptr "p"] none)], .br (.number 1))]

/-- A skipped block overwrites the slot a released pointer was spilled into. -/
def spillFn : Function := Function.ofBlocks "spill" [
  ([.alloca (.name "s"), .call (.direct "kmalloc" [.lit 64 8] (some (.name "p"))),
    .call (.direct "kmalloc" [.lit 64 8] (some (.name "q"))), .store (.ptr "s") (.ptr "p"),
    .call (.direct "kfree" [.ptr "p"] none)],
    .condBr (.localOperand (.name "c") (.integerType 1)) (.number 1) (.number 2)),
  ([.store (.ptr "s") (.ptr "q")], .br (.number 2)),
  ([.load (.ptr "s") .pointerType (.name "r"), .store (.ptr "r") (.lit 32 0)], .ret none)]

/-- **One linear scan does not cover the paths.**  A double free around a loop, a use after
    free against the listing order, and one behind a skipped spill all pass. -/
theorem linear_scan_misses_paths :
    Missed loopFn [0, 1, 1] ∧ Missed permutedFn [0, 2, 1] ∧ Missed spillFn [0, 2] := by
  refine ⟨⟨by decide, ⟨rfl, fun _ => mem_of_blocksAt, by decide⟩, by decide⟩,
    ⟨by decide, ⟨rfl, fun _ => mem_of_blocksAt, by decide⟩, by decide⟩,
    ⟨by decide, ⟨rfl, fun _ => mem_of_blocksAt, by decide⟩, by decide⟩⟩

end SkvPaths

import SentinelKv.SkvTransferProofs

/-!
# The allocation table invariant

Allocation ids are handed out by a counter, so in every reachable set of maps the ids with a
recorded size are exactly those below the counter, and no binding, stack slot, freed id or
DMA set mentions any other id.  Kmalloc-family ids and DMA ids never mix: a `Kmalloc`
pointer, a pointer-derived integer and a freed id are never DMA allocations, a `DmaAlloc`
pointer always is one.

`transfer_inv` is the step, `visited_inv` the run.
-/

namespace SkvMapsInv

open BreakLoop SkvIr SkvTypeSize SkvGate SkvAnalyze SkvTransfer

/-- A pointer binding is consistent with the counter and the set of DMA allocations. -/
def PtrOk (counter : Nat) (dma : Finset Nat) : PtrVal → Prop
  | .kmalloc id _ => id < counter ∧ id ∉ dma
  | .dmaAlloc id _ => id ∈ dma
  | .unknown => True

/-- So is an integer binding. -/
def IntOk (counter : Nat) (dma : Finset Nat) : IntVal → Prop
  | .ptrOffset id _ => id < counter ∧ id ∉ dma
  | .unknown => True

structure MapsInv (t : Maps) : Prop where
  sizes : ∀ id, (t.allocSizes id).isSome ↔ id < t.allocCounter
  ptrs  : ∀ n pv, t.ptrEnv n = some pv → PtrOk t.allocCounter t.dmaAllocsInFunc pv
  slots : ∀ n pv, t.allocaStoreMap n = some pv → PtrOk t.allocCounter t.dmaAllocsInFunc pv
  ints  : ∀ n iv, t.intEnv n = some iv → IntOk t.allocCounter t.dmaAllocsInFunc iv
  freed : ∀ id ∈ t.freedAllocs, id < t.allocCounter ∧ id ∉ t.dmaAllocsInFunc
  dma   : ∀ id ∈ t.dmaAllocsInFunc, id < t.allocCounter
  iommu : t.iommuMappedInFunc ⊆ t.dmaAllocsInFunc

theorem mapsInv_empty : MapsInv Maps.empty where
  sizes := fun id => ⟨fun h => (nomatch h), fun h => absurd h (Nat.not_lt_zero id)⟩
  ptrs := fun _ _ h => nomatch h
  slots := fun _ _ h => nomatch h
  ints := fun _ _ h => nomatch h
  freed := fun _ h => absurd h (Finset.notMem_empty _)
  dma := fun _ h => absurd h (Finset.notMem_empty _)
  iommu := Finset.Subset.refl _

/-- A binding after an insertion is the new one or an old one. -/
theorem update_some_cases {κ ν : Type} [DecidableEq κ] {f : κ → Option ν} {k x : κ} {v w : ν}
    (h : Function.update f k (some v) x = some w) : w = v ∨ f x = some w := by
  by_cases hx : x = k
  · rw [hx, Function.update_self] at h
    exact Or.inl (Option.some.inj h).symm
  · rw [Function.update_of_ne hx] at h
    exact Or.inr h

/-- Consistency survives a growing counter and DMA ids taken from above the old counter. -/
theorem PtrOk.mono {c c' : Nat} {d d' : Finset Nat} (hc : c ≤ c') (hd : d ⊆ d')
    (hnew : ∀ id ∈ d', id < c → id ∈ d) {pv : PtrVal} (h : PtrOk c d pv) : PtrOk c' d' pv := by
  cases pv with
  | kmalloc id offset =>
      exact ⟨Nat.lt_of_lt_of_le h.1 hc, fun hmem => h.2 (hnew id hmem h.1)⟩
  | dmaAlloc id offset => exact hd h
  | unknown => trivial

theorem IntOk.mono {c c' : Nat} {d d' : Finset Nat} (hc : c ≤ c')
    (hnew : ∀ id ∈ d', id < c → id ∈ d) {iv : IntVal} (h : IntOk c d iv) : IntOk c' d' iv := by
  cases iv with
  | ptrOffset id offset =>
      exact ⟨Nat.lt_of_lt_of_le h.1 hc, fun hmem => h.2 (hnew id hmem h.1)⟩
  | unknown => trivial

/-- The allocation a consistent pointer names lies below the counter. -/
theorem MapsInv.info_lt {t : Maps} (h : MapsInv t) {pv : PtrVal} {id : Nat} {off : Z3Int}
    (hp : PtrOk t.allocCounter t.dmaAllocsInFunc pv)
    (hi : ptrvalAllocInfo pv = some (id, off)) : id < t.allocCounter := by
  cases pv with
  | kmalloc a o =>
      obtain ⟨rfl, -⟩ := Prod.mk.inj (Option.some.inj hi)
      exact hp.1
  | dmaAlloc a o =>
      obtain ⟨rfl, -⟩ := Prod.mk.inj (Option.some.inj hi)
      exact h.dma a hp
  | unknown => exact nomatch hi

/-- **Tracked pointers have size metadata.** -/
theorem MapsInv.size_of_tracked {t : Maps} (h : MapsInv t) {n : Name} {id : Nat}
    {off : Z3Int} (ht : (t.ptrEnv n).bind ptrvalAllocInfo = some (id, off)) :
    ∃ size, t.allocSizes id = some size := by
  cases hp : t.ptrEnv n with
  | none => rw [hp] at ht; exact nomatch ht
  | some pv =>
      rw [hp] at ht
      exact Option.isSome_iff_exists.mp ((h.sizes id).mpr (h.info_lt (h.ptrs n pv hp) ht))

/-- The id handed out next has not been freed. -/
theorem MapsInv.counter_fresh {t : Maps} (h : MapsInv t) : t.allocCounter ∉ t.freedAllocs :=
  fun hmem => Nat.lt_irrefl _ (h.freed _ hmem).1

/-- A DMA allocation is never freed. -/
theorem MapsInv.dma_not_freed {t : Maps} (h : MapsInv t) {n : Name} {id : Nat} {off : Z3Int}
    (hn : t.ptrEnv n = some (.dmaAlloc id off)) : id ∉ t.freedAllocs :=
  fun hmem => (h.freed id hmem).2 (h.ptrs n _ hn)

-- ── Each update keeps it ─────────────────────────────────────────────────────────

theorem MapsInv.bindPtr {t : Maps} (h : MapsInv t) {n : Name} {v : PtrVal}
    (hv : PtrOk t.allocCounter t.dmaAllocsInFunc v) : MapsInv (t.bindPtr n v) where
  sizes := h.sizes
  ptrs := by
    intro x pv hx
    rcases update_some_cases hx with rfl | hx
    · exact hv
    · exact h.ptrs x pv hx
  slots := h.slots
  ints := h.ints
  freed := h.freed
  dma := h.dma
  iommu := h.iommu

theorem MapsInv.bindInt {t : Maps} (h : MapsInv t) {n : Name} {v : IntVal}
    (hv : IntOk t.allocCounter t.dmaAllocsInFunc v) : MapsInv (t.bindInt n v) where
  sizes := h.sizes
  ptrs := h.ptrs
  slots := h.slots
  ints := by
    intro x iv hx
    rcases update_some_cases hx with rfl | hx
    · exact hv
    · exact h.ints x iv hx
  freed := h.freed
  dma := h.dma
  iommu := h.iommu

/-- A new allocation; `d` is the set of DMA allocations afterwards, the old one with or
    without the new id. -/
theorem MapsInv.grow {t : Maps} (h : MapsInv t) (size : UInt64) {d : Finset Nat}
    (hsub : t.dmaAllocsInFunc ⊆ d) (hnew : ∀ id ∈ d, id ∈ t.dmaAllocsInFunc ∨ id = t.allocCounter) :
    MapsInv { t.newAlloc size with dmaAllocsInFunc := d } := by
  have hold : ∀ id ∈ d, id < t.allocCounter → id ∈ t.dmaAllocsInFunc := by
    intro id hid hlt
    rcases hnew id hid with hmem | rfl
    · exact hmem
    · exact absurd hlt (Nat.lt_irrefl _)
  have hle : t.allocCounter ≤ t.allocCounter + 1 := Nat.le_succ _
  refine ⟨?_, ?_, ?_, ?_, ?_, ?_, ?_⟩
  · intro id
    show (Function.update t.allocSizes t.allocCounter (some (.fromU64 size)) id).isSome
      ↔ id < t.allocCounter + 1
    by_cases hid : id = t.allocCounter
    · rw [hid, Function.update_self]
      exact ⟨fun _ => Nat.lt_succ_self _, fun _ => rfl⟩
    · rw [Function.update_of_ne hid, h.sizes id]
      omega
  · exact fun n pv hn => (h.ptrs n pv hn).mono hle hsub hold
  · exact fun n pv hn => (h.slots n pv hn).mono hle hsub hold
  · exact fun n iv hn => (h.ints n iv hn).mono hle hold
  · intro id hid
    obtain ⟨hlt, hnd⟩ := h.freed id hid
    exact ⟨Nat.lt_succ_of_lt hlt, fun hmem => hnd (hold id hmem hlt)⟩
  · intro id hid
    rcases hnew id hid with hmem | rfl
    · exact Nat.lt_succ_of_lt (h.dma id hmem)
    · exact Nat.lt_succ_self _
  · exact h.iommu.trans hsub

theorem MapsInv.kmalloc {t : Maps} (h : MapsInv t) (dest : Option Name) (size : UInt64) :
    MapsInv (t.kmalloc dest size) := by
  have hg : MapsInv (t.newAlloc size) :=
    h.grow size (Finset.Subset.refl _) (fun _ hid => Or.inl hid)
  unfold Maps.kmalloc Maps.bindDest
  cases dest with
  | none => exact hg
  | some n =>
      refine hg.bindPtr ⟨Nat.lt_succ_self _, ?_⟩
      exact fun hmem => absurd (h.dma _ hmem) (Nat.lt_irrefl _)

theorem MapsInv.dmaAlloc {t : Maps} (h : MapsInv t) (dest : Option Name) (size : UInt64) :
    MapsInv (t.dmaAlloc dest size) := by
  have hg : MapsInv { t.newAlloc size with
      dmaAllocsInFunc := insert t.allocCounter t.dmaAllocsInFunc } := by
    refine h.grow size (Finset.subset_insert _ _) ?_
    intro id hid
    exact (Finset.mem_insert.mp hid).symm
  unfold Maps.dmaAlloc Maps.bindDest
  cases dest with
  | none => exact hg
  | some n =>
      have hv : PtrOk (t.allocCounter + 1) (insert t.allocCounter t.dmaAllocsInFunc)
          (.dmaAlloc t.allocCounter (.fromU64 0)) := Finset.mem_insert_self _ _
      exact MapsInv.bindPtr (n := n) hg hv

theorem MapsInv.free {t : Maps} (h : MapsInv t) {id : Nat}
    (hid : id < t.allocCounter ∧ id ∉ t.dmaAllocsInFunc) : MapsInv (t.free id) where
  sizes := h.sizes
  ptrs := h.ptrs
  slots := h.slots
  ints := h.ints
  freed := by
    intro x hx
    rcases Finset.mem_insert.mp hx with rfl | hx
    · exact hid
    · exact h.freed x hx
  dma := h.dma
  iommu := h.iommu

theorem MapsInv.spill {t : Maps} (h : MapsInv t) (destName : Name) (value : Operand) :
    MapsInv (t.spill destName value) := by
  unfold Maps.spill
  by_cases ha : destName ∈ t.allocaNames
  · rw [if_pos ha]
    cases value with
    | constantOperand c => exact h
    | metadataOperand => exact h
    | localOperand valName ty =>
        simp only
        cases hv : t.ptrEnv valName with
        | none => exact h
        | some pv =>
            refine ⟨h.sizes, h.ptrs, ?_, h.ints, h.freed, h.dma, h.iommu⟩
            intro x w hx
            rcases update_some_cases hx with rfl | hx
            · exact h.ptrs valName w hv
            · exact h.slots x w hx
  · rw [if_neg ha]; exact h

theorem MapsInv.reload {t : Maps} (h : MapsInv t) (srcName dest : Name) :
    MapsInv (t.reload srcName dest) := by
  unfold Maps.reload
  by_cases ha : srcName ∈ t.allocaNames
  · rw [if_pos ha]
    cases hs : t.allocaStoreMap srcName with
    | none => exact h
    | some pv => exact h.bindPtr (h.slots srcName pv hs)
  · rw [if_neg ha]; exact h

-- ── The derived values are consistent ────────────────────────────────────────────

/-- A GEP stays in the allocation of its base. -/
theorem MapsInv.gepVal {t : Maps} (h : MapsInv t) (m : Module) (gep : GetElementPtr) :
    PtrOk t.allocCounter t.dmaAllocsInFunc (gepVal m gep t) := by
  have hbase : ∀ n pv, gepBase t n = some pv →
      PtrOk t.allocCounter t.dmaAllocsInFunc pv := by
    intro n pv hn
    unfold gepBase at hn
    cases hp : t.ptrEnv n with
    | none => rw [hp, Option.none_or] at hn; exact h.slots n pv hn
    | some w =>
        rw [hp, Option.some_or] at hn
        obtain rfl := Option.some.inj hn
        exact h.ptrs n w hp
  unfold SkvTransfer.gepVal
  cases hb : (operandLocalName gep.address).bind (gepBase t) with
  | none => trivial
  | some pv =>
      obtain ⟨n, -, hn⟩ := Option.bind_eq_some_iff.mp hb
      have hok := hbase n pv hn
      cases pv with
      | kmalloc id offset =>
          simp only
          cases inferGepOffset m gep offset with
          | none => trivial
          | some o => exact hok
      | dmaAlloc id offset =>
          simp only
          cases inferGepOffset m gep offset with
          | none => trivial
          | some o => exact hok
      | unknown => trivial

theorem MapsInv.ptrToIntVal {t : Maps} (h : MapsInv t) (n : Name) :
    IntOk t.allocCounter t.dmaAllocsInFunc (ptrToIntVal t n) := by
  unfold SkvAnalyze.ptrToIntVal
  cases hp : t.ptrEnv n with
  | none => trivial
  | some pv =>
      cases pv with
      | kmalloc id offset => exact h.ptrs n _ hp
      | dmaAlloc id offset => trivial
      | unknown => trivial

theorem MapsInv.intToPtrVal {t : Maps} (h : MapsInv t) (n : Name) :
    PtrOk t.allocCounter t.dmaAllocsInFunc (intToPtrVal t n) := by
  unfold SkvAnalyze.intToPtrVal
  cases hi : t.intEnv n with
  | none => trivial
  | some iv =>
      cases iv with
      | ptrOffset id offset => exact h.ints n _ hi
      | unknown => trivial

/-- An integer found through an operand is consistent. -/
theorem MapsInv.operandInt {t : Maps} (h : MapsInv t) {op : Operand} {iv : IntVal}
    (hop : operandInt t op = some iv) : IntOk t.allocCounter t.dmaAllocsInFunc iv := by
  obtain ⟨n, -, hn⟩ := Option.bind_eq_some_iff.mp hop
  exact h.ints n iv hn

theorem MapsInv.addOut {t : Maps} (h : MapsInv t) {op0 op1 : Operand} {iv : IntVal}
    (hout : addOut t op0 op1 = some iv) : IntOk t.allocCounter t.dmaAllocsInFunc iv := by
  unfold SkvAnalyze.addOut at hout
  split at hout
  · next heq =>
      obtain ⟨c, -, rfl⟩ := Option.map_eq_some_iff.mp hout
      have hop : IntOk _ _ (.ptrOffset _ _) := h.operandInt heq
      exact hop
  · next heq _ =>
      obtain ⟨c, -, rfl⟩ := Option.map_eq_some_iff.mp hout
      have hop : IntOk _ _ (.ptrOffset _ _) := h.operandInt heq
      exact hop
  · exact nomatch hout

theorem MapsInv.subOut {t : Maps} (h : MapsInv t) {op0 op1 : Operand} {iv : IntVal}
    (hout : subOut t op0 op1 = some iv) : IntOk t.allocCounter t.dmaAllocsInFunc iv := by
  unfold SkvAnalyze.subOut at hout
  split at hout
  · next heq =>
      obtain ⟨c, -, rfl⟩ := Option.map_eq_some_iff.mp hout
      have hop : IntOk _ _ (.ptrOffset _ _) := h.operandInt heq
      exact hop
  · exact nomatch hout

theorem MapsInv.bindArith {t : Maps} (h : MapsInv t) {out : Option IntVal}
    (hout : ∀ iv, out = some iv → IntOk t.allocCounter t.dmaAllocsInFunc iv) (tracked : Bool)
    (dest : Name) : MapsInv (bindArith t out tracked dest) := by
  unfold SkvTransfer.bindArith
  cases out with
  | some v => exact h.bindInt (hout v rfl)
  | none =>
      cases tracked with
      | true => exact h.bindInt trivial
      | false => exact h

-- ── Steps and runs ───────────────────────────────────────────────────────────────

theorem transferCall_inv (dma : DmaPolicy) (call : Call) {t : Maps} (h : MapsInv t) :
    MapsInv (transferCall dma call t) := by
  rcases transferCall_cases dma call t with
    heq | ⟨size, heq⟩ | ⟨size, heq⟩ | ⟨n, id, offset, hn, heq⟩ | heq
  · rw [heq]
    exact h
  · rw [heq]
    exact h.kmalloc _ size
  · rw [heq]
    exact h.dmaAlloc _ size
  · rw [heq]
    exact h.free (h.ptrs n _ hn)
  · rw [heq]
    exact ⟨h.sizes, h.ptrs, h.slots, h.ints, h.freed, h.dma,
      Finset.union_subset h.iommu (Finset.Subset.refl _)⟩

/-- **The step.**  Every instruction keeps the invariant. -/
theorem transfer_inv (m : Module) (dma : DmaPolicy) (i : Instruction) {t : Maps}
    (h : MapsInv t) : MapsInv (transfer m dma i t) := by
  unfold transfer
  cases i with
  | alloca dest => exact ⟨h.sizes, h.ptrs, h.slots, h.ints, h.freed, h.dma, h.iommu⟩
  | call call => exact transferCall_inv dma call h
  | getElementPtr gep => exact h.bindPtr (h.gepVal m gep)
  | ptrToInt operand toType dest =>
      refine h.bindInt ?_
      cases operandLocalName operand with
      | none => trivial
      | some n => exact h.ptrToIntVal n
  | intToPtr operand toType dest =>
      refine h.bindPtr ?_
      cases operandLocalName operand with
      | none => trivial
      | some n => exact h.intToPtrVal n
  | add op0 op1 dest => exact h.bindArith (fun _ => h.addOut) _ dest
  | sub op0 op1 dest => exact h.bindArith (fun _ => h.subOut) _ dest
  | bitCast operand toType dest =>
      refine h.bindPtr ?_
      cases hb : (operandLocalName operand).bind t.ptrEnv with
      | none => trivial
      | some pv =>
          obtain ⟨n, -, hn⟩ := Option.bind_eq_some_iff.mp hb
          exact h.ptrs n pv hn
  | store address value =>
      simp only
      cases operandLocalName address with
      | none => exact h
      | some n => exact h.spill n value
  | load address loadedTy dest =>
      simp only
      cases operandLocalName address with
      | none => exact h
      | some n => exact h.reload n dest
  | other opcode operands dest => exact h

/-- An instruction of the scan, failed or not, keeps the invariant. -/
theorem stepInstr_inv (e : Env) (site : Site) {s : St} (hs : ¬ Failed s)
    (h : MapsInv s.maps) : MapsInv (stepInstr e site s).state.maps := by
  rw [(stepInstr_ok e site hs).maps]
  exact transfer_inv e.module e.dmaPolicy site.instr h

/-- **The run.**  Every state the scan processes an instruction in satisfies the
    invariant. -/
theorem visited_inv {e : Env} {gate : HitlGate} {v : Site × St}
    (hv : v ∈ scanVisits e gate) : ¬ Failed v.2 ∧ MapsInv v.2.maps :=
  (visits_inv (stepInstr_flagged e) (fun s => MapsInv s.maps)
    (fun x _ hs h => stepInstr_inv e x hs h) _ _ (not_failed_init gate) mapsInv_empty v hv).2

end SkvMapsInv

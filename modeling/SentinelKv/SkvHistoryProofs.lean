import SentinelKv.SkvCertifyProofs
import SentinelKv.SkvLookupProofs

/-!
# Calls behind the tables

`freed_allocs`, `dma_allocs_in_func` and `iommu_mapped_in_func` are written by three calls and
by nothing else.  Here each entry is traced back to the calls the scan has processed so far:

* a freed id to the `kfree` that released it (**`Releases`**);
* a DMA id and its recorded size to the `dma_alloc_coherent` that returned it
  (**`AllocatesDma`**);
* an IOMMU-mapped id to an `iommu_map` after its allocation (**`MapsIommu`**).

`History.step` is the step, **`scan_history`** the run.
-/

namespace SkvHistory

open BreakLoop SkvIr SkvGate SkvAnalyze SkvTransfer SkvMapsInv SkvCertify SkvLookup

-- ── The three calls ──────────────────────────────────────────────────────────────

/-- A `kfree` of a local bound to the kmalloc allocation `id`. -/
def Releases (w : Site × St) (id : Nat) : Prop :=
  ∃ call op off, w.1.instr = .call call ∧ functionNameOfCall call = some "kfree"
    ∧ call.arguments.head? = some op ∧ KmallocAt w.2.maps op id off

/-- A `dma_alloc_coherent` of the literal `size` that takes the id `id`. -/
def AllocatesDma (dma : DmaPolicy) (w : Site × St) (id : Nat) (size : UInt64) : Prop :=
  dma ≠ .ignore ∧ w.2.maps.allocCounter = id ∧ ∃ call, w.1.instr = .call call
    ∧ functionNameOfCall call = some "dma_alloc_coherent"
    ∧ call.arguments[1]?.bind operandConstU64 = some size

/-- A call of `iommu_map`. -/
def MapsIommu (w : Site × St) : Prop :=
  ∃ call, w.1.instr = .call call ∧ functionNameOfCall call = some "iommu_map"

-- ── Which arm a name takes ───────────────────────────────────────────────────────

theorem callArm_eq_kfree {dma : DmaPolicy} {name : Option String} :
    callArm dma name = .kfree ↔ name = some "kfree" := by
  constructor
  · intro h
    unfold callArm at h
    split at h
    · exact nomatch h
    · split_ifs at h with h1 h2 h3
      rw [h3]
  · rintro rfl
    rfl

theorem callArm_eq_dmaAlloc {dma : DmaPolicy} {name : Option String} :
    callArm dma name = .dmaAlloc ↔ dma ≠ .ignore ∧ name = some "dma_alloc_coherent" := by
  constructor
  · intro h
    unfold callArm at h
    split at h
    · exact nomatch h
    · split_ifs at h with h1 h2 h3 h4 h5 h6
      exact ⟨h6.2, by rw [h6.1]⟩
  · rintro ⟨hdma, rfl⟩
    cases dma with
    | verify => rfl
    | requireIommu => rfl
    | ignore => exact absurd rfl hdma

theorem callArm_eq_iommuMap {dma : DmaPolicy} {name : Option String} :
    callArm dma name = .iommuMap ↔ name = some "iommu_map" := by
  constructor
  · intro h
    unfold callArm at h
    split at h
    · exact nomatch h
    · split_ifs at h with h1 h2 h3 h4 h5 h6 h7 h8
      rw [h8]
  · rintro rfl
    cases dma <;> rfl

-- ── What each call records ───────────────────────────────────────────────────────

/-- Records that leave the tables alone. -/
def Local : Delta → Prop
  | .kmalloc _ _ => False
  | .dma _ _ => False
  | .free _ => False
  | .iommu => False
  | _ => True

theorem Local.tables {d : Delta} (h : Local d) (t : Maps) : SameTables t (d.apply t) := by
  cases d with
  | kmalloc dest size => exact h.elim
  | dma dest size => exact h.elim
  | free id => exact h.elim
  | iommu => exact h.elim
  | _ => exact ⟨rfl, rfl, rfl, rfl, rfl⟩

/-- Only calls write the tables. -/
theorem call_or_local (m : Module) (dma : DmaPolicy) (i : Instruction) (t : Maps) :
    (∃ call, i = .call call ∧ delta m dma i t = callDelta dma call t)
      ∨ Local (delta m dma i t) := by
  cases i with
  | call call => exact Or.inl ⟨call, rfl, rfl⟩
  | add op0 op1 dest =>
      simp only [delta, arithDelta]
      refine Or.inr ?_
      repeat' split
      all_goals trivial
  | sub op0 op1 dest =>
      simp only [delta, arithDelta]
      refine Or.inr ?_
      repeat' split
      all_goals trivial
  | store address value =>
      simp only [delta, spillDelta]
      refine Or.inr ?_
      repeat' split
      all_goals trivial
  | load address loadedTy dest =>
      simp only [delta, reloadDelta]
      refine Or.inr ?_
      repeat' split
      all_goals trivial
  | _ => exact Or.inr trivial

section Calls

variable {dma : DmaPolicy} {call : Call} {t : Maps}

theorem callDelta_eq_free {id : Nat} : callDelta dma call t = .free id ↔
    functionNameOfCall call = some "kfree"
      ∧ ∃ op off, call.arguments.head? = some op ∧ KmallocAt t op id off := by
  constructor
  · intro h
    unfold callDelta at h
    cases harm : callArm dma (functionNameOfCall call) with
    | kfree =>
        simp only [harm] at h
        split at h
        · next allocId off heq =>
            obtain rfl := Delta.free.inj h
            obtain ⟨n, hn, hbound⟩ := Option.bind_eq_some_iff.mp heq
            obtain ⟨op, hop, hlocal⟩ := Option.bind_eq_some_iff.mp hn
            exact ⟨callArm_eq_kfree.mp harm, op, off, hop,
              Option.bind_eq_some_iff.mpr ⟨n, hlocal, hbound⟩⟩
        · cases h
    | _ =>
        simp only [harm] at h
        repeat' split at h
        all_goals cases h
  · rintro ⟨hname, op, off, hop, hk⟩
    obtain ⟨n, hlocal, hbound⟩ := Option.bind_eq_some_iff.mp hk
    simp only [callDelta, callArm_eq_kfree.mpr hname, hop, Option.bind_some, hlocal, hbound]

theorem callDelta_eq_dma {dest : Option Name} {size : UInt64} :
    callDelta dma call t = .dma dest size ↔ call.dest = dest ∧ dma ≠ .ignore
      ∧ functionNameOfCall call = some "dma_alloc_coherent"
      ∧ call.arguments[1]?.bind operandConstU64 = some size := by
  constructor
  · intro h
    unfold callDelta at h
    cases harm : callArm dma (functionNameOfCall call) with
    | dmaAlloc =>
        simp only [harm] at h
        obtain ⟨hdma, hname⟩ := callArm_eq_dmaAlloc.mp harm
        split at h
        · next size' hsize =>
            obtain ⟨hdest, rfl⟩ := Delta.dma.inj h
            exact ⟨hdest, hdma, hname, hsize⟩
        · cases h
    | _ =>
        simp only [harm] at h
        repeat' split at h
        all_goals cases h
  · rintro ⟨hdest, hdma, hname, hsize⟩
    simp only [callDelta, callArm_eq_dmaAlloc.mpr ⟨hdma, hname⟩, hsize, hdest]

theorem callDelta_eq_iommu : callDelta dma call t = .iommu ↔
    functionNameOfCall call = some "iommu_map" := by
  constructor
  · intro h
    unfold callDelta at h
    cases harm : callArm dma (functionNameOfCall call) with
    | iommuMap => exact callArm_eq_iommuMap.mp harm
    | _ =>
        simp only [harm] at h
        repeat' split at h
        all_goals cases h
  · intro hname
    simp only [callDelta, callArm_eq_iommuMap.mpr hname]

end Calls

section Events

variable {m : Module} {dma : DmaPolicy} {w : Site × St}

theorem releases_iff {id : Nat} :
    Releases w id ↔ delta m dma w.1.instr w.2.maps = .free id := by
  constructor
  · rintro ⟨call, op, off, hi, hname, hop, hk⟩
    rw [hi]
    exact callDelta_eq_free.mpr ⟨hname, op, off, hop, hk⟩
  · intro h
    rcases call_or_local m dma w.1.instr w.2.maps with ⟨call, hi, hd⟩ | hl
    · rw [hd] at h
      obtain ⟨hname, op, off, hop, hk⟩ := callDelta_eq_free.mp h
      exact ⟨call, op, off, hi, hname, hop, hk⟩
    · rw [h] at hl
      exact hl.elim

theorem allocatesDma_iff {id : Nat} {size : UInt64} :
    AllocatesDma dma w id size ↔
      w.2.maps.allocCounter = id ∧ ∃ dest, delta m dma w.1.instr w.2.maps = .dma dest size := by
  constructor
  · rintro ⟨hdma, hid, call, hi, hname, hsize⟩
    refine ⟨hid, call.dest, ?_⟩
    rw [hi]
    exact callDelta_eq_dma.mpr ⟨rfl, hdma, hname, hsize⟩
  · rintro ⟨hid, dest, h⟩
    rcases call_or_local m dma w.1.instr w.2.maps with ⟨call, hi, hd⟩ | hl
    · rw [hd] at h
      obtain ⟨-, hdma, hname, hsize⟩ := callDelta_eq_dma.mp h
      exact ⟨hdma, hid, call, hi, hname, hsize⟩
    · rw [h] at hl
      exact hl.elim

theorem mapsIommu_iff : MapsIommu w ↔ delta m dma w.1.instr w.2.maps = .iommu := by
  constructor
  · rintro ⟨call, hi, hname⟩
    rw [hi]
    exact callDelta_eq_iommu.mpr hname
  · intro h
    rcases call_or_local m dma w.1.instr w.2.maps with ⟨call, hi, hd⟩ | hl
    · rw [hd] at h
      exact ⟨call, hi, callDelta_eq_iommu.mp h⟩
    · rw [h] at hl
      exact hl.elim

end Events

-- ── The tables after a record ────────────────────────────────────────────────────

theorem kmalloc_tables (t : Maps) (dest : Option Name) (size : UInt64) :
    SameTables (t.newAlloc size) ((Delta.kmalloc dest size).apply t) :=
  (bindDest_other (t.newAlloc size) dest _).2.2.2

theorem dmaAlloc_tables (t : Maps) (dest : Option Name) (size : UInt64) :
    SameTables { t.newAlloc size with dmaAllocsInFunc := insert t.allocCounter t.dmaAllocsInFunc }
      ((Delta.dma dest size).apply t) := by
  have h := (bindDest_other (t.newAlloc size) dest (.dmaAlloc t.allocCounter (.fromU64 0))).2.2.2
  exact ⟨h.sizes, h.freed, h.counter, rfl, h.iommu⟩

section Apply

variable (d : Delta) (t : Maps)

theorem mem_freed_apply (id : Nat) :
    id ∈ (d.apply t).freedAllocs ↔ id ∈ t.freedAllocs ∨ d = .free id := by
  cases d with
  | free id' =>
      rw [show (Delta.apply (.free id') t).freedAllocs = insert id' t.freedAllocs from rfl,
        Finset.mem_insert, Delta.free.injEq]
      exact ⟨fun h => h.symm.imp_right Eq.symm, fun h => h.symm.imp_left Eq.symm⟩
  | kmalloc dest size =>
      rw [(kmalloc_tables t dest size).freed]
      exact ⟨Or.inl, fun h => h.resolve_right (by simp)⟩
  | dma dest size =>
      rw [(dmaAlloc_tables t dest size).freed]
      exact ⟨Or.inl, fun h => h.resolve_right (by simp)⟩
  | _ => exact ⟨Or.inl, fun h => h.resolve_right (by simp)⟩

theorem mem_dma_apply (id : Nat) :
    id ∈ (d.apply t).dmaAllocsInFunc ↔
      id ∈ t.dmaAllocsInFunc ∨ (t.allocCounter = id ∧ ∃ dest size, d = .dma dest size) := by
  cases d with
  | kmalloc dest size =>
      rw [(kmalloc_tables t dest size).dma]
      exact ⟨Or.inl, fun h => h.resolve_right (by simp)⟩
  | dma dest size =>
      rw [(dmaAlloc_tables t dest size).dma]
      constructor
      · intro h
        rcases Finset.mem_insert.mp h with rfl | h
        · exact Or.inr ⟨rfl, dest, size, rfl⟩
        · exact Or.inl h
      · rintro (h | ⟨rfl, -⟩)
        · exact Finset.mem_insert_of_mem h
        · exact Finset.mem_insert_self _ _
  | _ => exact ⟨Or.inl, fun h => h.resolve_right (by simp)⟩

theorem mem_iommu_apply (id : Nat) :
    id ∈ (d.apply t).iommuMappedInFunc ↔
      id ∈ t.iommuMappedInFunc ∨ (d = .iommu ∧ id ∈ t.dmaAllocsInFunc) := by
  cases d with
  | iommu =>
      rw [show (Delta.apply .iommu t).iommuMappedInFunc
        = t.iommuMappedInFunc ∪ t.dmaAllocsInFunc from rfl, Finset.mem_union]
      exact ⟨fun h => h.imp_right (fun h => ⟨rfl, h⟩), fun h => h.imp_right And.right⟩
  | kmalloc dest size =>
      rw [(kmalloc_tables t dest size).iommu]
      exact ⟨Or.inl, fun h => h.resolve_right (by simp)⟩
  | dma dest size =>
      rw [(dmaAlloc_tables t dest size).iommu]
      exact ⟨Or.inl, fun h => h.resolve_right (by simp)⟩
  | _ => exact ⟨Or.inl, fun h => h.resolve_right (by simp)⟩

/-- A recorded size is never overwritten. -/
theorem allocSizes_apply {id : Nat} (hid : id < t.allocCounter) :
    (d.apply t).allocSizes id = t.allocSizes id := by
  have hne : id ≠ t.allocCounter := Nat.ne_of_lt hid
  cases d with
  | kmalloc dest size =>
      rw [(kmalloc_tables t dest size).sizes]
      exact Function.update_of_ne hne _ _
  | dma dest size =>
      rw [(dmaAlloc_tables t dest size).sizes]
      exact Function.update_of_ne hne _ _
  | _ => rfl

end Apply

-- ── The history of a run ─────────────────────────────────────────────────────────

/-- The tables `t`, told by the iterations so far. -/
structure History (dma : DmaPolicy) (past : List (Site × St)) (t : Maps) : Prop where
  freed : ∀ id, id ∈ t.freedAllocs ↔ ∃ w ∈ past, Releases w id
  alloc : ∀ id ∈ t.dmaAllocsInFunc, ∃ w ∈ past, ∃ size, AllocatesDma dma w id size
  size  : ∀ w ∈ past, ∀ id size, AllocatesDma dma w id size →
    id ∈ t.dmaAllocsInFunc ∧ t.allocSizes id = some (.fromU64 size)
  iommu : ∀ p w q, past = p ++ w :: q → ∀ id size, AllocatesDma dma w id size →
    (id ∈ t.iommuMappedInFunc ↔ ∃ u ∈ q, MapsIommu u)

theorem history_empty (dma : DmaPolicy) : History dma [] Maps.empty where
  freed := fun id => ⟨fun h => absurd h (Finset.notMem_empty id), fun ⟨_, hw, _⟩ => (nomatch hw)⟩
  alloc := fun id h => absurd h (Finset.notMem_empty id)
  size := fun _ hw => nomatch hw
  iommu := fun p w q h => absurd h.symm (List.append_ne_nil_of_right_ne_nil p (List.cons_ne_nil w q))

/-- A split of a list with a new last element. -/
theorem append_singleton_split {α : Type} {l p q : List α} {x w : α}
    (h : l ++ [x] = p ++ w :: q) :
    (q = [] ∧ w = x ∧ p = l) ∨ ∃ q', q = q' ++ [x] ∧ l = p ++ w :: q' := by
  rcases List.append_eq_append_iff.mp h with ⟨a, rfl, ha⟩ | ⟨c, rfl, hc⟩
  · cases a with
    | nil =>
        obtain ⟨rfl, rfl⟩ := List.cons.inj ha
        exact Or.inl ⟨rfl, rfl, List.append_nil l⟩
    | cons y a => exact absurd (List.cons.inj ha).2.symm (by simp)
  · cases c with
    | nil =>
        obtain ⟨rfl, rfl⟩ := List.cons.inj hc
        exact Or.inl ⟨rfl, rfl, (List.append_nil p).symm⟩
    | cons y c =>
        obtain ⟨rfl, rfl⟩ := List.cons.inj hc
        exact Or.inr ⟨c, rfl, rfl⟩

/-- **The step.** -/
theorem History.step {dma : DmaPolicy} {past : List (Site × St)} {w : Site × St}
    (h : History dma past w.2.maps) (hinv : MapsInv w.2.maps) (m : Module) :
    History dma (past ++ [w]) (transfer m dma w.1.instr w.2.maps) := by
  rw [← delta_apply]
  refine ⟨?_, ?_, ?_, ?_⟩
  · intro id
    rw [mem_freed_apply, h.freed id, ← releases_iff]
    simp only [List.mem_append, List.mem_singleton, or_and_right, exists_or, exists_eq_left]
  · intro id hid
    rcases (mem_dma_apply _ _ _).mp hid with hid | ⟨hc, dest, size, hd⟩
    · obtain ⟨u, hu, size, hal⟩ := h.alloc id hid
      exact ⟨u, List.mem_append_left _ hu, size, hal⟩
    · exact ⟨w, List.mem_append_right _ List.mem_cons_self, size,
        allocatesDma_iff.mpr ⟨hc, dest, hd⟩⟩
  · intro u hu id size hal
    rcases List.mem_append.mp hu with hu | hu
    · obtain ⟨hdma, hsize⟩ := h.size u hu id size hal
      exact ⟨(mem_dma_apply _ _ _).mpr (Or.inl hdma),
        (allocSizes_apply _ _ (hinv.dma id hdma)).trans hsize⟩
    · obtain rfl := List.mem_singleton.mp hu
      obtain ⟨hc, dest, hd⟩ := (allocatesDma_iff (m := m)).mp hal
      refine ⟨(mem_dma_apply _ _ _).mpr (Or.inr ⟨hc, dest, size, hd⟩), ?_⟩
      rw [hd, (dmaAlloc_tables u.2.maps dest size).sizes, ← hc]
      exact Function.update_self _ _ _
  · intro p u q hpast id size hal
    rw [mem_iommu_apply, ← mapsIommu_iff]
    rcases append_singleton_split hpast with ⟨rfl, rfl, -⟩ | ⟨q', rfl, hsplit⟩
    · -- the new allocation: its id is not mapped yet, and the call is no `iommu_map`
      obtain ⟨hc, dest, hd⟩ := (allocatesDma_iff (m := m)).mp hal
      have hfresh : id ∉ u.2.maps.dmaAllocsInFunc := by
        intro hmem
        exact absurd (hinv.dma id hmem) (by rw [hc]; exact Nat.lt_irrefl id)
      constructor
      · rintro (hmem | ⟨-, hmem⟩)
        · exact absurd (hinv.iommu hmem) hfresh
        · exact absurd hmem hfresh
      · rintro ⟨v, hv, -⟩
        exact nomatch hv
    · have hu : u ∈ past := by
        rw [hsplit]
        exact List.mem_append_right _ List.mem_cons_self
      rw [h.iommu p u q' hsplit id size hal]
      have hdma := (h.size u hu id size hal).1
      simp only [List.mem_append, List.mem_singleton, or_and_right, exists_or, exists_eq_left,
        hdma, and_true]

/-- **The run.**  Before every iteration, and after the last one if the scan has not failed. -/
theorem scan_history (e : Env) (gate : HitlGate) :
    (∀ pre v post, scanVisits e gate = pre ++ v :: post → History e.dmaPolicy pre v.2.maps)
      ∧ (¬ Failed (scanModule e gate) →
        History e.dmaPolicy (scanVisits e gate) (scanModule e gate).maps) := by
  have hrun := visits_history (stepInstr_flagged e)
    (H := fun past s => History e.dmaPolicy past s.maps ∧ MapsInv s.maps) ?_
    (sites e.module) [] (St.init gate) (not_failed_init gate)
    ⟨history_empty e.dmaPolicy, mapsInv_empty⟩
  · refine ⟨fun pre v post h => ((hrun.1 pre v post h).1), fun hend => ?_⟩
    rw [scanModule_eq] at hend ⊢
    exact (hrun.2 hend).1
  · rintro past site s s' hs ⟨hH, hinv⟩ hnext
    rw [stepInstr_next_maps hs hnext]
    exact ⟨History.step (w := (site, s)) hH hinv e.module, transfer_inv _ _ _ hinv⟩

end SkvHistory

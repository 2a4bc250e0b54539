import SentinelKv.SkvPathsProofs
import SentinelKv.SkvPlanProofs

/-!
# What the allocation table guarantees

`SkvMapsInv` proves the allocation table invariant of every processed state.  This file draws
the consequences for what the analyzer reports:

* the freed set only grows, and the next id is never in it (`freed_subset_step`,
  `MapsInv.counter_fresh`);
* **`effects_never_missing`** — no access finds its size metadata missing;
* **`dma_access_no_useAfterFree`** — a `Load` or `Store` through a DMA pointer never reports a
  use after free.

**`alloc_table_invariant`** puts them together for every run of `analyze`.
-/

namespace SkvAllocTable

open BreakLoop SkvIr SkvTypeSize SkvGate SkvAnalyze SkvTransfer SkvMapsInv SkvPaths SkvPlan

-- ── Size metadata ────────────────────────────────────────────────────────────────

/-- The effect of the four branches that find no size. -/
def missingSize : Effect := .mark "Missing allocation size metadata"

/-- An access to an allocation with a size does not take the branch. -/
theorem accessEffects_never_missing {site : Site} {txt : AccessText} {t : Maps} {allocId : Nat}
    {offset : Z3Int} {size : Option UInt64} {after : List Effect}
    (hsize : ∃ n, t.allocSizes allocId = some n)
    (htxt : txt.unsized ≠ "Missing allocation size metadata") (hafter : missingSize ∉ after) :
    missingSize ∉ accessEffects site txt t allocId offset size after := by
  obtain ⟨n, hn⟩ := hsize
  intro hmem
  unfold accessEffects at hmem
  split at hmem
  · exact nomatch List.mem_singleton.mp hmem
  · split at hmem
    · exact htxt (Effect.mark.inj (List.mem_singleton.mp hmem)).symm
    · rw [hn] at hmem
      rcases List.mem_cons.mp hmem with heq | hmem
      · exact nomatch heq
      · exact hafter hmem

theorem irqEffects_never_missing (e : Env) (site : Site) (kind : String) (allocId : Nat) :
    missingSize ∉ irqEffects e site kind allocId := by
  unfold irqEffects missingSize
  split <;> simp

theorem regionEffects_never_missing {t : Maps} (h : MapsInv t) (site : Site) {txt : AccessText}
    (htxt : txt.unsized ≠ "Missing allocation size metadata") (op : Operand) (len : UInt64) :
    missingSize ∉ regionEffects site txt t op len := by
  unfold regionEffects
  split
  · exact List.not_mem_nil
  · next name _ =>
      split
      · next allocId offset hp =>
          refine accessEffects_never_missing ?_ htxt List.not_mem_nil
          exact h.size_of_tracked (show (t.ptrEnv name).bind ptrvalAllocInfo
            = some (allocId, offset) by rw [hp]; rfl)
      · exact List.not_mem_nil

theorem memoryEffects_never_missing {t : Maps} (h : MapsInv t) (e : Env) (site : Site)
    {txt : AccessText} (htxt : txt.unsized ≠ "Missing allocation size metadata") (kind : String)
    (name : Name) (ty : IrType) : missingSize ∉ memoryEffects e site txt kind t name ty := by
  unfold memoryEffects
  split
  · next allocId offset hp =>
      exact accessEffects_never_missing (h.size_of_tracked hp) htxt
        (irqEffects_never_missing e site kind allocId)
  · exact List.not_mem_nil

theorem callEffects_never_missing {t : Maps} (h : MapsInv t) (e : Env) (site : Site)
    (call : Call) : missingSize ∉ callEffects e site call t := by
  unfold callEffects
  cases callArm e.dmaPolicy (functionNameOfCall call) with
  | kmalloc =>
      simp only [kmallocEffects]
      repeat' split
      all_goals simp [missingSize]
  | kcalloc =>
      simp only [kcallocEffects]
      repeat' split
      all_goals simp [missingSize]
  | kfree =>
      simp only [kfreeEffects]
      repeat' split
      all_goals simp [missingSize]
  | memset =>
      simp only [memsetEffects]
      repeat' split
      case h_2 => exact regionEffects_never_missing h site (by simp [memsetText]) _ _
      all_goals simp [missingSize]
  | memcpy =>
      simp only [memcpyEffects]
      repeat' split
      case h_2 =>
        intro hmem
        rcases List.mem_append.mp hmem with hmem | hmem
        · exact regionEffects_never_missing h site (by simp [memcpyText]) _ _ hmem
        · exact regionEffects_never_missing h site (by simp [memcpyText]) _ _ hmem
      all_goals simp [missingSize]
  | unnamed =>
      simp only [unnamedEffects]
      repeat' split
      all_goals simp [missingSize]
  | dmaAlloc =>
      simp only [dmaAllocEffects]
      repeat' split
      all_goals simp [missingSize]
  | dmaMap =>
      simp only [dmaMapEffects]
      repeat' split
      all_goals simp [missingSize]
  | iommuMap => simp [missingSize]
  | untracked => exact List.not_mem_nil

/-- **Size metadata is never missing**, whatever the instruction. -/
theorem effects_never_missing {t : Maps} (h : MapsInv t) (e : Env) (site : Site) :
    missingSize ∉ effects e site t := by
  unfold effects
  cases site.instr with
  | alloca dest => exact List.not_mem_nil
  | call call => exact callEffects_never_missing h e site call
  | getElementPtr gep =>
      simp only [gepEffects]
      repeat' split
      all_goals simp [missingSize]
  | ptrToInt operand toType dest => cases operand <;> simp [castEffects, missingSize]
  | intToPtr operand toType dest => cases operand <;> simp [castEffects, missingSize]
  | add op0 op1 dest =>
      simp only [addEffects, arithEffects]
      repeat' split
      all_goals simp [missingSize]
  | sub op0 op1 dest =>
      simp only [subEffects, arithEffects, List.mem_append, not_or]
      refine ⟨?_, ?_⟩
      · repeat' split
        all_goals simp [missingSize]
      · split <;> simp [missingSize]
  | bitCast operand toType dest => cases operand <;> simp [castEffects, missingSize]
  | store address value =>
      simp only
      cases operandLocalName address with
      | none => exact List.not_mem_nil
      | some n =>
          exact memoryEffects_never_missing (h.spill n value) e site (by simp [storeText]) _ _ _
  | load address loadedTy dest =>
      simp only
      cases operandLocalName address with
      | none => exact List.not_mem_nil
      | some n =>
          exact memoryEffects_never_missing (h.reload n dest) e site (by simp [loadText]) _ _ _
  | other opcode operands dest => exact List.not_mem_nil

-- ── DMA pointers and use after free ──────────────────────────────────────────────

/-- The text with which an effect may fail. -/
def failText : Effect → Option String
  | .fail msg => some msg
  | .check _ _ _ _ _ txt => some txt.outOfBounds
  | _ => none

theorem exec_failText {z3 : Solver} {x : Effect} {v v' : Verdict}
    (h : exec z3 x v = .brk v') : ∃ msg, failText x = some msg ∧ v'.finalResult = .fail msg := by
  cases x with
  | fail msg =>
      obtain rfl := Flow.brk.inj h
      exact ⟨msg, rfl, rfl⟩
  | mark reason => cases h
  | count c => cases h
  | ask vc cls reasons => cases reasons <;> cases h
  | check vc cls allocSize offset size txt =>
      simp only [exec] at h
      split at h
      · obtain rfl := Flow.brk.inj h
        exact ⟨txt.outOfBounds, rfl, rfl⟩
      · cases h
      · cases h
      · cases h
  | pair dmaAllocs iommuMapped => cases h

/-- A failing run of effects fails with the text of one of them. -/
theorem forLoop_failText {z3 : Solver} {msg : String} (l : List Effect) :
    ∀ v : Verdict, ¬ VFailed v → (forLoop (exec z3) l v).finalResult = .fail msg →
      ∃ x ∈ l, failText x = some msg := by
  induction l with
  | nil =>
      intro v hv h
      exact absurd (show v.finalResult.isFail = true from (congrArg AnalysisResult.isFail h)) hv
  | cons x xs ih =>
      intro v hv h
      cases hb : exec z3 x v with
      | next v' =>
          rw [forLoop_cons_next hb] at h
          obtain ⟨y, hy, htext⟩ := ih v' ((exec_flagged z3).next_down x v v' hv hb) h
          exact ⟨y, List.mem_cons_of_mem x hy, htext⟩
      | brk v' =>
          rw [forLoop_cons_brk hb] at h
          obtain ⟨m, htext, hm⟩ := exec_failText hb
          rw [h] at hm
          obtain rfl := AnalysisResult.fail.inj hm
          exact ⟨x, List.mem_cons_self, htext⟩

theorem irqEffects_failText {e : Env} {site : Site} {kind : String} {allocId : Nat} {x : Effect}
    (hx : x ∈ irqEffects e site kind allocId) : failText x = none := by
  unfold irqEffects at hx
  split at hx
  · rcases List.mem_cons.mp hx with rfl | hx
    · rfl
    · obtain rfl := List.mem_singleton.mp hx
      rfl
  · exact nomatch hx

/-- An access through a pointer that is not freed fails with one text only. -/
theorem memoryEffects_failText {e : Env} {site : Site} {txt : AccessText} {kind : String}
    {t : Maps} {name : Name} {ty : IrType} {id : Nat} {offset : Z3Int}
    (hp : t.ptrEnv name = some (.dmaAlloc id offset)) (hfreed : id ∉ t.freedAllocs) {x : Effect}
    (hx : x ∈ memoryEffects e site txt kind t name ty) {msg : String}
    (hmsg : failText x = some msg) : msg = txt.outOfBounds := by
  simp only [memoryEffects, hp, Option.bind_some, ptrvalAllocInfo, accessEffects,
    if_neg hfreed] at hx
  split at hx
  · obtain rfl := List.mem_singleton.mp hx
    cases hmsg
  · split at hx
    · obtain rfl := List.mem_singleton.mp hx
      cases hmsg
    · rcases List.mem_cons.mp hx with rfl | hx
      · exact (Option.some.inj hmsg).symm
      · rw [irqEffects_failText hx] at hmsg
        cases hmsg

/-- Texts that start differently are different, whatever follows. -/
theorem append_ne_append {l r : String} (hl : l.toList ≠ []) (hr : r.toList ≠ [])
    (h : l.toList.head? ≠ r.toList.head?) (x y : String) : l ++ x ≠ r ++ y := by
  intro heq
  have hchars := congrArg String.toList heq
  rw [String.toList_append, String.toList_append] at hchars
  have hheads := congrArg List.head? hchars
  rw [List.head?_append_of_ne_nil _ hl, List.head?_append_of_ne_nil _ hr] at hheads
  exact h hheads

theorem useAfterFree_ne_outOfBounds (site : Site) :
    (storeText site).useAfterFree ≠ (storeText site).outOfBounds
      ∧ (storeText site).useAfterFree ≠ (loadText site).outOfBounds
      ∧ (loadText site).useAfterFree ≠ (storeText site).outOfBounds
      ∧ (loadText site).useAfterFree ≠ (loadText site).outOfBounds :=
  ⟨append_ne_append (by decide) (by decide) (by decide) _ _,
    append_ne_append (by decide) (by decide) (by decide) _ _,
    append_ne_append (by decide) (by decide) (by decide) _ _,
    append_ne_append (by decide) (by decide) (by decide) _ _⟩

/-- The address a `Load` or `Store` goes through. -/
def accessed : Instruction → Option Name
  | .store address _ => operandLocalName address
  | .load address _ _ => operandLocalName address
  | _ => none

/-- **DMA accesses never report a use after free.**  `transfer` holds the maps in which the
    access looks its pointer up. -/
theorem dma_access_no_useAfterFree {e : Env} {site : Site} {s : St} (hs : ¬ Failed s)
    (h : MapsInv s.maps) {n : Name} {id : Nat} {offset : Z3Int}
    (hn : accessed site.instr = some n)
    (hp : (transfer e.module e.dmaPolicy site.instr s.maps).ptrEnv n
      = some (.dmaAlloc id offset)) :
    (stepInstr e site s).state.finalResult ≠ .fail (storeText site).useAfterFree
      ∧ (stepInstr e site s).state.finalResult ≠ .fail (loadText site).useAfterFree := by
  have hinv := transfer_inv e.module e.dmaPolicy site.instr h
  have hfreed := hinv.dma_not_freed hp
  -- whatever the step fails with is an out-of-bounds text
  have htexts : ∀ msg, (stepInstr e site s).state.finalResult = .fail msg →
      msg = (storeText site).outOfBounds ∨ msg = (loadText site).outOfBounds := by
    intro msg hmsg
    have hloop : (forLoop (exec e.host.z3) (effects e site s.maps) (verdict s)).finalResult
        = .fail msg := by
      rw [← stepInstr_verdict e site hs]
      exact hmsg
    obtain ⟨x, hx, htext⟩ := forLoop_failText _ (verdict s) hs hloop
    unfold effects at hx
    unfold transfer at hp hfreed
    cases hi : site.instr with
    | store address value =>
        simp only [hi] at hx hp hfreed hn
        rw [show operandLocalName address = some n from hn] at hx hp hfreed
        exact Or.inl (memoryEffects_failText hp hfreed hx htext)
    | load address loadedTy dest =>
        simp only [hi] at hx hp hfreed hn
        rw [show operandLocalName address = some n from hn] at hx hp hfreed
        exact Or.inr (memoryEffects_failText hp hfreed hx htext)
    | _ => rw [hi] at hn; cases hn
  obtain ⟨hss, hsl, hls, hll⟩ := useAfterFree_ne_outOfBounds site
  refine ⟨fun hres => ?_, fun hres => ?_⟩
  · rcases htexts _ hres with heq | heq
    · exact hss heq
    · exact hsl heq
  · rcases htexts _ hres with heq | heq
    · exact hls heq
    · exact hll heq

-- ── Every run ────────────────────────────────────────────────────────────────────

/-- One instruction of a run only adds to the freed set. -/
theorem freed_subset_step (e : Env) (site : Site) (s : St) (hs : ¬ Failed s) :
    s.maps.freedAllocs ⊆ (stepInstr e site s).state.maps.freedAllocs := by
  rw [(stepInstr_ok e site hs).maps]
  exact (transfer_frame e.module e.dmaPolicy site.instr s.maps).freed

/-- **The allocation table of every run of `analyze`.**  Before and after every processed
    instruction the invariant holds and the next id is not a freed one; freed ids stay freed
    from each instruction to every later one; no instruction finds size metadata missing, and
    no `Load` or `Store` through a DMA pointer reports a use after free. -/
theorem alloc_table_invariant (m : Module) (host : Host) (gate : HitlGate)
    (asmP : InlineAsmPolicy) (dmaP : DmaPolicy) :
    let e := mkEnv m host asmP dmaP
    (∀ v ∈ scanVisits e gate,
      MapsInv v.2.maps ∧ MapsInv (stepInstr e v.1 v.2).state.maps
        ∧ v.2.maps.allocCounter ∉ v.2.maps.freedAllocs
        ∧ v.2.maps.freedAllocs ⊆ (stepInstr e v.1 v.2).state.maps.freedAllocs
        ∧ missingSize ∉ effects e v.1 v.2.maps
        ∧ ∀ n id offset, accessed v.1.instr = some n →
          (transfer m dmaP v.1.instr v.2.maps).ptrEnv n = some (.dmaAlloc id offset) →
          (stepInstr e v.1 v.2).state.finalResult ≠ .fail (storeText v.1).useAfterFree
            ∧ (stepInstr e v.1 v.2).state.finalResult ≠ .fail (loadText v.1).useAfterFree)
    ∧ (scanVisits e gate).Pairwise (fun v w =>
        (stepInstr e v.1 v.2).state.maps.freedAllocs ⊆ w.2.maps.freedAllocs)
    ∧ MapsInv (scanModule e gate).maps := by
  intro e
  refine ⟨?_, ?_, ?_⟩
  · intro v hv
    obtain ⟨hs, hinv⟩ := visited_inv hv
    refine ⟨hinv, stepInstr_inv e v.1 hs hinv, hinv.counter_fresh,
      freed_subset_step e v.1 v.2 hs, effects_never_missing hinv e v.1, ?_⟩
    intro n id offset hn hp
    exact dma_access_no_useAfterFree hs hinv hn hp
  · exact (visits_grow (stepInstr_flagged e)
      (R := fun s s' => s.maps.freedAllocs ⊆ s'.maps.freedAllocs)
      (fun _ => Finset.Subset.refl _) (fun _ _ _ => Finset.Subset.trans)
      (freed_subset_step e) _ _ (not_failed_init gate)).1
  · rw [scanModule_eq]
    exact forLoop_inv_flagged (stepInstr_flagged e) (fun s => MapsInv s.maps)
      (fun site _ hs hinv => stepInstr_inv e site hs hinv) _ _ (not_failed_init gate)
      mapsInv_empty

end SkvAllocTable

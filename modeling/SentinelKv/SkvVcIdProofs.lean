import Mathlib.Data.List.Nodup
import SentinelKv.SkvHitlProofs

/-!
# Verification-condition IDs

`vc_id` glues a function name, two numbers and a kind together with colons.  The name may be
any string, but numbers and kinds have no colon in them, so an ID can be read from its END:

* **`vcId_inj`** — an ID determines the function name, both indices and the kind.

One instruction raises each kind at most once (`effects_kinds`) and no two sites share their
position, so

* **`seen_nodup`** — no ID is logged twice in a run;
* **`class_approval_is_bulk_approval`** — approving a class is approving the IDs of that class.
-/

namespace SkvVcId

open BreakLoop SkvIr SkvTypeSize SkvGate SkvAnalyze SkvTransfer SkvPlan SkvHitl

-- ── Reading an ID from its end ───────────────────────────────────────────────────

/-- The last separator splits a list in only one way. -/
theorem last_sep_inj {α : Type} {sep : α} {a a' b b' : List α} (hb : sep ∉ b) (hb' : sep ∉ b')
    (h : a ++ sep :: b = a' ++ sep :: b') : a = a' ∧ b = b' := by
  rcases List.append_eq_append_iff.mp h with ⟨c, rfl, hc⟩ | ⟨c, rfl, hc⟩
  · cases c with
    | nil => exact ⟨(List.append_nil a).symm, (List.cons.inj hc).2⟩
    | cons x xs =>
        refine absurd ?_ hb
        rw [(List.cons.inj hc).2]
        exact List.mem_append_right xs List.mem_cons_self
  · cases c with
    | nil => exact ⟨List.append_nil a', (List.cons.inj hc).2.symm⟩
    | cons x xs =>
        refine absurd ?_ hb'
        rw [(List.cons.inj hc).2]
        exact List.mem_append_right xs List.mem_cons_self

theorem toString_toList (n : Nat) : (toString n).toList = Nat.toDigits 10 n := by
  rw [show toString n = n.repr from rfl, Nat.repr_eq_ofList_toDigits, String.toList_ofList]

/-- Decimal digits have no colon among them. -/
theorem colon_notMem_toString (n : Nat) : ':' ∉ (toString n).toList := by
  intro h
  rw [toString_toList] at h
  exact absurd (Nat.isDigit_of_mem_toDigits (by decide) (by decide) h) (by decide)

theorem toString_toList_inj {n n' : Nat} (h : (toString n).toList = (toString n').toList) :
    n = n' := by
  rw [toString_toList, toString_toList] at h
  rw [← @Nat.ofDigitChars_ten_toDigits n, h, Nat.ofDigitChars_ten_toDigits]

/-- The characters of an ID, split before its kind. -/
theorem vcId_toList (f : String) (b i : Nat) (kind : String) :
    (vcId f b i kind).toList
      = (((f.toList ++ [':'] ++ ':' :: ('b' :: 'b' :: (toString b).toList)) ++ [':']
          ++ ':' :: ('i' :: (toString i).toList)) ++ [':']) ++ ':' :: kind.toList := by
  have hbb : "::bb".toList = [':', ':', 'b', 'b'] := by decide
  have hi : "::i".toList = [':', ':', 'i'] := by decide
  have hk : "::".toList = [':', ':'] := by decide
  simp only [vcId, String.toList_append, hbb, hi, hk, List.append_assoc, List.cons_append,
    List.nil_append]

/-- **An ID determines its parts**, for any function names, as long as the kinds have no
    colon. -/
theorem vcId_inj {f f' : String} {b b' i i' : Nat} {kind kind' : String}
    (hk : ':' ∉ kind.toList) (hk' : ':' ∉ kind'.toList)
    (h : vcId f b i kind = vcId f' b' i' kind') : f = f' ∧ b = b' ∧ i = i' ∧ kind = kind' := by
  have hchars := congrArg String.toList h
  rw [vcId_toList, vcId_toList] at hchars
  have hnum : ∀ n : Nat, ':' ∉ 'i' :: (toString n).toList := by
    intro n hmem
    rcases List.mem_cons.mp hmem with heq | hmem
    · exact absurd heq (by decide)
    · exact colon_notMem_toString n hmem
  have hblk : ∀ n : Nat, ':' ∉ 'b' :: 'b' :: (toString n).toList := by
    intro n hmem
    rcases List.mem_cons.mp hmem with heq | hmem
    · exact absurd heq (by decide)
    rcases List.mem_cons.mp hmem with heq | hmem
    · exact absurd heq (by decide)
    · exact colon_notMem_toString n hmem
  obtain ⟨hrest, hkind⟩ := last_sep_inj hk hk' hchars
  obtain ⟨hrest, hinstr⟩ := last_sep_inj (hnum i) (hnum i') (List.append_cancel_right hrest)
  obtain ⟨hname, hblock⟩ := last_sep_inj (hblk b) (hblk b') (List.append_cancel_right hrest)
  refine ⟨String.toList_inj.mp (List.append_cancel_right hname), ?_, ?_,
    String.toList_inj.mp hkind⟩
  · exact toString_toList_inj (List.cons.inj (List.cons.inj hblock).2).2
  · exact toString_toList_inj (List.cons.inj hinstr).2

-- ── The kinds one instruction raises ─────────────────────────────────────────────

/-- The IDs a list of effects takes to the gate. -/
def ids (l : List Effect) : List String := (l.filterMap vcOf).map Prod.fst

theorem ids_append (l₁ l₂ : List Effect) : ids (l₁ ++ l₂) = ids l₁ ++ ids l₂ := by
  simp only [ids, List.filterMap_append, List.map_append]

/-- All that one instruction can raise, in order. -/
def kindLists : List (List String) :=
  [[], ["memset"], ["memcpy_destination"], ["memcpy_source"],
   ["memcpy_destination", "memcpy_source"], ["inline_asm"], ["dma_alloc"], ["dma_map"],
   ["store"], ["store", "irq_race_store"], ["load"], ["load", "irq_race_load"]]

/-- No instruction raises a kind twice, and no kind has a colon. -/
theorem kindLists_ok : ∀ ks ∈ kindLists, ks.Nodup ∧ ∀ k ∈ ks, ':' ∉ k.toList := by decide

theorem accessEffects_ids (site : Site) (txt : AccessText) (t : Maps) (allocId : Nat)
    (offset : Z3Int) (size : Option UInt64) (after : List Effect) :
    ids (accessEffects site txt t allocId offset size after) = []
      ∨ ids (accessEffects site txt t allocId offset size after)
        = site.vcId txt.kind :: ids after := by
  unfold accessEffects
  split
  · exact Or.inl rfl
  · split
    · exact Or.inl rfl
    · split
      · exact Or.inl rfl
      · exact Or.inr rfl

theorem irqEffects_ids (e : Env) (site : Site) (kind : String) (allocId : Nat) :
    ids (irqEffects e site kind allocId) = []
      ∨ ids (irqEffects e site kind allocId) = [site.vcId ("irq_race_" ++ kind)] := by
  unfold irqEffects
  split
  · exact Or.inr rfl
  · exact Or.inl rfl

theorem regionEffects_ids (site : Site) (txt : AccessText) (t : Maps) (op : Operand)
    (len : UInt64) :
    ids (regionEffects site txt t op len) = []
      ∨ ids (regionEffects site txt t op len) = [site.vcId txt.kind] := by
  unfold regionEffects
  split
  · exact Or.inl rfl
  · split
    · exact accessEffects_ids site txt t _ _ _ []
    · exact Or.inl rfl

/-- A `Load` or `Store` raises its own kind, its own and the IRQ race, or nothing. -/
theorem memoryEffects_ids (e : Env) (site : Site) (txt : AccessText) (kind : String) (t : Maps)
    (name : Name) (ty : IrType) :
    ids (memoryEffects e site txt kind t name ty) = []
      ∨ ids (memoryEffects e site txt kind t name ty) = [site.vcId txt.kind]
      ∨ ids (memoryEffects e site txt kind t name ty)
        = [site.vcId txt.kind, site.vcId ("irq_race_" ++ kind)] := by
  unfold memoryEffects
  split
  · next allocId offset _ =>
      rcases accessEffects_ids site txt t allocId offset (typeSize e.module ty)
        (irqEffects e site kind allocId) with h | h
      · exact Or.inl h
      · rw [h]
        rcases irqEffects_ids e site kind allocId with h' | h'
        · exact Or.inr (Or.inl (by rw [h']))
        · exact Or.inr (Or.inr (by rw [h']))
  · exact Or.inl rfl

/-- The IDs of `l` are kinds of one instruction at `site`. -/
def Raises (site : Site) (l : List Effect) : Prop := ∃ ks ∈ kindLists, ids l = ks.map site.vcId

theorem raises_nil {site : Site} {l : List Effect} (h : ids l = []) : Raises site l :=
  ⟨[], by decide, h⟩

theorem callEffects_raises (e : Env) (site : Site) (call : Call) (t : Maps) :
    Raises site (callEffects e site call t) := by
  unfold callEffects
  cases callArm e.dmaPolicy (functionNameOfCall call) with
  | kmalloc =>
      refine raises_nil ?_
      simp only [kmallocEffects]
      repeat' split
      all_goals rfl
  | kcalloc =>
      refine raises_nil ?_
      simp only [kcallocEffects]
      repeat' split
      all_goals rfl
  | kfree =>
      refine raises_nil ?_
      simp only [kfreeEffects]
      repeat' split
      all_goals rfl
  | memset =>
      simp only [memsetEffects]
      repeat' split
      case h_2 =>
        rcases regionEffects_ids site (memsetText site) t _ _ with h | h
        · exact raises_nil h
        · exact ⟨["memset"], by decide, h⟩
      all_goals exact raises_nil rfl
  | memcpy =>
      simp only [memcpyEffects]
      repeat' split
      case h_2 =>
        unfold Raises
        rw [ids_append]
        rcases regionEffects_ids site (memcpyText site "destination") t _ _ with h | h <;>
          rcases regionEffects_ids site (memcpyText site "source") t _ _ with h' | h' <;>
          rw [h, h']
        · exact ⟨[], by decide, rfl⟩
        · exact ⟨["memcpy_source"], by decide, rfl⟩
        · exact ⟨["memcpy_destination"], by decide, rfl⟩
        · exact ⟨["memcpy_destination", "memcpy_source"], by decide, rfl⟩
      all_goals exact raises_nil rfl
  | unnamed =>
      simp only [unnamedEffects]
      repeat' split
      case h_2.isFalse => exact ⟨["inline_asm"], by decide, rfl⟩
      all_goals exact raises_nil rfl
  | dmaAlloc =>
      simp only [dmaAllocEffects]
      repeat' split
      case h_2 => exact ⟨["dma_alloc"], by decide, rfl⟩
      all_goals exact raises_nil rfl
  | dmaMap =>
      simp only [dmaMapEffects]
      repeat' split
      case h_2 => exact ⟨["dma_map"], by decide, rfl⟩
      all_goals exact raises_nil rfl
  | iommuMap => exact raises_nil rfl
  | untracked => exact raises_nil rfl

/-- **One instruction** raises each kind at most once. -/
theorem effects_raises (e : Env) (site : Site) (t : Maps) : Raises site (effects e site t) := by
  unfold effects
  cases site.instr with
  | alloca dest => exact raises_nil rfl
  | call call => exact callEffects_raises e site call t
  | getElementPtr gep =>
      refine raises_nil ?_
      simp only [gepEffects]
      repeat' split
      all_goals rfl
  | ptrToInt operand toType dest => cases operand <;> exact raises_nil rfl
  | intToPtr operand toType dest => cases operand <;> exact raises_nil rfl
  | add op0 op1 dest =>
      refine raises_nil ?_
      simp only [addEffects, arithEffects]
      repeat' split
      all_goals rfl
  | sub op0 op1 dest =>
      refine raises_nil ?_
      simp only [subEffects, arithEffects, ids_append]
      repeat' split
      all_goals rfl
  | bitCast operand toType dest => cases operand <;> exact raises_nil rfl
  | store address value =>
      simp only
      cases operandLocalName address with
      | none => exact raises_nil rfl
      | some destName =>
          rcases memoryEffects_ids e site (storeText site) "store" (t.spill destName value)
            destName value.typeOf with h | h | h
          · exact raises_nil h
          · exact ⟨["store"], by decide, h⟩
          · exact ⟨["store", "irq_race_store"], by decide, h⟩
  | load address loadedTy dest =>
      simp only
      cases operandLocalName address with
      | none => exact raises_nil rfl
      | some srcName =>
          rcases memoryEffects_ids e site (loadText site) "load" (t.reload srcName dest) srcName
            loadedTy with h | h | h
          · exact raises_nil h
          · exact ⟨["load"], by decide, h⟩
          · exact ⟨["load", "irq_race_load"], by decide, h⟩
  | other opcode operands dest => exact raises_nil rfl

-- ── No two sites share a position ────────────────────────────────────────────────

/-- Different positions of the three loops. -/
def Apart (x y : Site) : Prop :=
  x.funcName ≠ y.funcName ∨ x.bbIdx ≠ y.bbIdx ∨ x.instrIdx ≠ y.instrIdx

theorem pairwise_zipIdx_snd {α : Type} (l : List α) :
    l.zipIdx.Pairwise (fun x y => x.2 ≠ y.2) := by
  have h : (l.zipIdx.map Prod.snd).Pairwise (· ≠ ·) := by
    rw [List.zipIdx_map_snd]
    exact List.nodup_range'
  exact List.pairwise_map.mp h

theorem mem_blockSites {f : Function} {x : BasicBlock × Nat} {site : Site}
    (h : site ∈ blockSites f x) : site.funcName = f.name ∧ site.bbIdx = x.2 := by
  obtain ⟨i, -, rfl⟩ := List.mem_map.mp h
  exact ⟨rfl, rfl⟩

theorem mem_funcSites {f : Function} {site : Site} (h : site ∈ funcSites f) :
    site.funcName = f.name := by
  obtain ⟨x, -, hx⟩ := List.mem_flatMap.mp h
  exact (mem_blockSites hx).1

/-- **The sites of a module are pairwise apart** if its functions have different names. -/
theorem sites_apart {m : Module} (h : (m.functions.map Function.name).Nodup) :
    (sites m).Pairwise Apart := by
  refine List.pairwise_flatMap.mpr ⟨?_, ?_⟩
  · intro f _
    refine List.pairwise_flatMap.mpr ⟨?_, ?_⟩
    · intro x _
      refine List.pairwise_map.mpr ((pairwise_zipIdx_snd x.1.instrs).imp ?_)
      exact fun hne => Or.inr (Or.inr hne)
    · refine (pairwise_zipIdx_snd f.basicBlocks).imp ?_
      intro x y hne s hs s' hs'
      refine Or.inr (Or.inl ?_)
      rw [(mem_blockSites hs).2, (mem_blockSites hs').2]
      exact hne
  · refine (List.pairwise_map.mp h).imp ?_
    intro f g hne s hs s' hs'
    refine Or.inl ?_
    rw [mem_funcSites hs, mem_funcSites hs']
    exact hne

-- ── The IDs of a run ─────────────────────────────────────────────────────────────

/-- IDs of sites that are apart differ. -/
theorem vcId_ne_of_apart {x y : Site} (h : Apart x y) {k k' : String} (hk : ':' ∉ k.toList)
    (hk' : ':' ∉ k'.toList) : x.vcId k ≠ y.vcId k' := by
  intro heq
  obtain ⟨hf, hb, hi, -⟩ := vcId_inj hk hk' heq
  rcases h with h | h | h
  · exact h hf
  · exact h hb
  · exact h hi

/-- **The plan has no ID twice**: the induction goes along the sites, and the IDs of the
    later ones belong to other positions. -/
theorem plan_ids_nodup (e : Env) :
    ∀ (l : List Site) (t : Maps), l.Pairwise Apart →
      (ids (plan e l t)).Nodup
        ∧ ∀ id ∈ ids (plan e l t), ∃ site ∈ l, ∃ k, ':' ∉ k.toList ∧ id = site.vcId k := by
  intro l
  induction l with
  | nil => intro t _; exact ⟨List.nodup_nil, fun id hid => nomatch hid⟩
  | cons x xs ih =>
      intro t h
      obtain ⟨hx, hxs⟩ := List.pairwise_cons.mp h
      obtain ⟨hnodup, hown⟩ := ih (transfer e.module e.dmaPolicy x.instr t) hxs
      obtain ⟨ks, hks, hids⟩ := effects_raises e x t
      obtain ⟨hkinds, hcolon⟩ := kindLists_ok ks hks
      have hhere : ∀ id ∈ ks.map x.vcId, ∃ k, ':' ∉ k.toList ∧ id = x.vcId k := by
        intro id hid
        obtain ⟨k, hk, rfl⟩ := List.mem_map.mp hid
        exact ⟨k, hcolon k hk, rfl⟩
      rw [show plan e (x :: xs) t
        = effects e x t ++ plan e xs (transfer e.module e.dmaPolicy x.instr t) from rfl,
        ids_append, hids]
      refine ⟨List.nodup_append.mpr ⟨?_, hnodup, ?_⟩, ?_⟩
      · refine List.Nodup.map_on ?_ hkinds
        intro k hk k' hk' heq
        exact (vcId_inj (hcolon k hk) (hcolon k' hk') heq).2.2.2
      · intro id hid id' hid' heq
        obtain ⟨k, hk, rfl⟩ := hhere id hid
        obtain ⟨site, hsite, k', hk', rfl⟩ := hown id' hid'
        exact vcId_ne_of_apart (hx site hsite) hk hk' heq
      · intro id hid
        rcases List.mem_append.mp hid with hid | hid
        · exact ⟨x, List.mem_cons_self, hhere id hid⟩
        · obtain ⟨site, hsite, hk⟩ := hown id hid
          exact ⟨site, List.mem_cons_of_mem x hsite, hk⟩

/-- The log of a module has no ID twice. -/
theorem moduleLog_nodup {m : Module} (h : (m.functions.map Function.name).Nodup) (host : Host)
    (gate : HitlGate) (asmP : InlineAsmPolicy) (dmaP : DmaPolicy) :
    ((moduleLog m host gate asmP dmaP).map Prod.fst).Nodup := by
  have hplan := (plan_ids_nodup (mkEnv m host asmP dmaP) (sites m) Maps.empty (sites_apart h)).1
  have hpre := visits_fst_isPre (exec host.z3)
    (plan (mkEnv m host asmP dmaP) (sites m) Maps.empty) (Verdict.init gate)
  exact hplan.sublist ((hpre.sublist.filterMap vcOf).map Prod.fst)

/-- **Verification-condition IDs are unique** within a run. -/
theorem seen_nodup (m : Module) (hnames : (m.functions.map Function.name).Nodup) (host : Host)
    (mode : HitlMode) (approved approvedClasses : Finset String) (asmP : InlineAsmPolicy)
    (dmaP : DmaPolicy) :
    let run := analyze m host (.fresh mode approved approvedClasses) asmP dmaP
    run.2.seen.Nodup ∧ run.1.hitlSeenVcs = run.2.seen.length := by
  intro run
  have hnodup : run.2.seen.Nodup := by
    rw [show run.2 = logAll (.fresh mode approved approvedClasses) (moduleLog m host
      (.fresh mode approved approvedClasses) asmP dmaP) from analyze_gate m host _ asmP dmaP]
    exact moduleLog_nodup hnames host _ asmP dmaP
  exact ⟨hnodup, congrArg List.length (List.dedup_eq_self.mpr hnodup)⟩

/-- Two functions, one of them named like an ID of the other. -/
def twinDriver : Module := Module.ofFunctions [
  Function.ofBlocks "probe" [([
    .call (.direct "kmalloc" [.lit 64 8, .lit 32 0] (some (.name "p"))),
    .store (.ptr "p") (.lit 32 1)], .ret none)],
  Function.ofBlocks "probe::bb0::i1::store" [([
    .call (.direct "kmalloc" [.lit 64 8, .lit 32 0] (some (.name "q"))),
    .store (.ptr "q") (.lit 32 1)], .ret none)]]

theorem twinDriver_seen_nodup :
    (twinDriver.functions.map Function.name).Nodup
      ∧ (analyze twinDriver (sortedHost evalSolver) (.fresh .require ∅ ∅) .conservative
          .verify).2.seen
        = ["probe::bb0::i1::store", "probe::bb0::i1::store::bb0::i1::store"]
      ∧ (analyze twinDriver (sortedHost evalSolver) (.fresh .require ∅ ∅) .conservative
          .verify).2.seen.Nodup
      ∧ (analyze twinDriver (sortedHost evalSolver) (.fresh .require ∅ ∅) .conservative
          .verify).1.hitlSeenVcs
        = (analyze twinDriver (sortedHost evalSolver) (.fresh .require ∅ ∅) .conservative
          .verify).2.seen.length :=
  ⟨by decide, by decide +kernel,
    seen_nodup twinDriver (by decide) (sortedHost evalSolver) .require ∅ ∅ .conservative .verify⟩

-- ── Classes as sets of IDs ───────────────────────────────────────────────────────

/-- The same logs under other approvals. -/
def regate (approved approvedClasses : Finset String) (v : Verdict) : Verdict :=
  { v with gate :=
    { v.gate with approved := approved, approvedClasses := approvedClasses } }

section Regate

variable {approved approvedClasses : Finset String} {v : Verdict} {p : Vc}

theorem logAll_regate
    (h : Permits (regate approved approvedClasses v).gate p ↔ Permits v.gate p) :
    logAll (regate approved approvedClasses v).gate [p]
      = { logAll v.gate [p] with approved := approved, approvedClasses := approvedClasses } := by
  by_cases hp : Permits v.gate p
  · rw [logAll_permitted (h.mpr hp), logAll_permitted hp]
    rfl
  · rw [logAll_refused (fun hq => hp (h.mp hq)), logAll_refused hp]
    rfl

end Regate

/-- An effect does the same under other approvals that agree on its condition. -/
theorem exec_regate (z3 : Solver) (approved approvedClasses : Finset String) (x : Effect)
    (v : Verdict)
    (h : ∀ p, vcOf x = some p →
      (Permits (regate approved approvedClasses v).gate p ↔ Permits v.gate p)) :
    exec z3 x (regate approved approvedClasses v)
      = (exec z3 x v).map (regate approved approvedClasses) := by
  cases x with
  | fail msg => rfl
  | mark reason => rfl
  | count c => cases c <;> rfl
  | ask vc cls reasons =>
      have hp := h (vc, cls) rfl
      cases reasons with
      | none => simp only [exec, shouldRunSolver_eq, logAll_regate hp]; rfl
      | some r => simp only [exec, shouldRunSolver_eq, logAll_regate hp, hp]; rfl
  | check vc cls allocSize offset size txt =>
      have hp := h (vc, cls) rfl
      obtain ⟨outOfBounds, solverUnknown, blocked, counted⟩ := txt
      simp only [exec, checkAccess_eq, logAll_regate hp, hp]
      by_cases hperm : Permits v.gate (vc, cls)
      · simp only [if_pos hperm]
        rw [show (regate approved approvedClasses v).gate.seen = v.gate.seen from rfl]
        cases z3 (v.gate.seen.length + 1) (oobCond allocSize offset size) <;>
          cases counted <;> rfl
      · simp only [if_neg hperm]
        cases counted <;> rfl
  | pair dmaAllocs iommuMapped => rfl

/-- The mode and the approvals stay what they were along a run. -/
theorem visits_approvals {z3 : Solver} {l : List Effect} {approved approvedClasses : Finset String}
    {x : Effect × Verdict}
    (hx : x ∈ visits (exec z3) l (Verdict.init (.fresh .require approved approvedClasses))) :
    x.2.gate.mode = .require ∧ x.2.gate.approved = approved
      ∧ x.2.gate.approvedClasses = approvedClasses := by
  have hkeep := visits_inv (exec_flagged z3)
    (fun v => v.gate.mode = .require ∧ v.gate.approved = approved
      ∧ v.gate.approvedClasses = approvedClasses)
    (fun y v _ hv => by rw [exec_gate]; exact hv) l _ (not_vfailed_init _) ⟨rfl, rfl, rfl⟩ x hx
  exact hkeep.2.2

/-- **Class approval is bulk ID approval**: the IDs logged under an approved class, approved
    one by one instead, give the same run. -/
theorem class_approval_is_bulk_approval (m : Module)
    (hnames : (m.functions.map Function.name).Nodup) (host : Host)
    (approved approvedClasses : Finset String) (asmP : InlineAsmPolicy) (dmaP : DmaPolicy) :
    let run := analyze m host (.fresh .require approved approvedClasses) asmP dmaP
    let bulk := ((vcLog run.2).filter (fun p => p.2 ∈ approvedClasses)).map Prod.fst
    let again := analyze m host (.fresh .require (approved ∪ bulk.toFinset) ∅) asmP dmaP
    again.2.seen = run.2.seen ∧ again.2.blocked = run.2.blocked ∧ again.1 = run.1 := by
  intro run bulk again
  have hlog : vcLog run.2
      = moduleLog m host (.fresh .require approved approvedClasses) asmP dmaP := by
    rw [show run.2 = logAll (.fresh .require approved approvedClasses) _ from
      analyze_gate m host _ asmP dmaP, vcLog_fresh]
  have hnodup : ((vcLog run.2).map Prod.fst).Nodup :=
    hlog ▸ moduleLog_nodup hnames host _ asmP dmaP
  -- both approvals say the same of every condition the first run takes to the gate
  have hsame : ∀ p ∈ vcLog run.2,
      (Approved (approved ∪ bulk.toFinset) ∅ p ↔ Approved approved approvedClasses p) := by
    intro p hp
    constructor
    · rintro (hid | hcls)
      · rcases Finset.mem_union.mp hid with hid | hid
        · exact Or.inl hid
        · obtain ⟨q, hq, hqp⟩ := List.mem_map.mp (List.mem_toFinset.mp hid)
          obtain ⟨hqlog, hqcls⟩ := List.mem_filter.mp hq
          obtain rfl := List.inj_on_of_nodup_map hnodup hqlog hp hqp
          exact Or.inr (of_decide_eq_true hqcls)
      · exact absurd hcls (Finset.notMem_empty _)
    · rintro (hid | hcls)
      · exact Or.inl (Finset.mem_union_left _ hid)
      · exact Or.inl (Finset.mem_union_right _ (List.mem_toFinset.mpr (List.mem_map.mpr
          ⟨p, List.mem_filter.mpr ⟨hp, decide_eq_true hcls⟩, rfl⟩)))
  have hrun : runPlan (mkEnv m host asmP dmaP) (.fresh .require (approved ∪ bulk.toFinset) ∅)
      = regate (approved ∪ bulk.toFinset) ∅
          (runPlan (mkEnv m host asmP dmaP) (.fresh .require approved approvedClasses)) := by
    refine (forLoop_map_visits (regate (approved ∪ bulk.toFinset) ∅) _
      (Verdict.init (.fresh .require approved approvedClasses)) ?_).1
    intro x hx
    refine exec_regate host.z3 _ _ x.1 x.2 ?_
    intro p hp
    have hmem : p ∈ vcLog run.2 := by
      rw [hlog]
      exact List.mem_filterMap.mpr ⟨x.1, List.mem_map.mpr ⟨x, hx, rfl⟩, hp⟩
    obtain ⟨hmode, happ, hcls⟩ := visits_approvals hx
    have hfirst := permits_require hmode p
    rw [happ, hcls] at hfirst
    exact (permits_require (g := (regate (approved ∪ bulk.toFinset) ∅ x.2).gate) hmode p).trans
      ((hsame p hmem).trans hfirst.symm)
  rw [show again = (runPlan (mkEnv m host asmP dmaP) (.fresh .require (approved ∪ bulk.toFinset)
    ∅)).outcome dmaP host.setOrder from analyze_eq_runPlan m host _ asmP dmaP, hrun,
    show run = (runPlan (mkEnv m host asmP dmaP) (.fresh .require approved approvedClasses)
    ).outcome dmaP host.setOrder from analyze_eq_runPlan m host _ asmP dmaP]
  exact ⟨rfl, rfl, rfl⟩

theorem twinDriver_bulk_approval :
    (twinDriver.functions.map Function.name).Nodup
      ∧ (analyze twinDriver (sortedHost evalSolver)
          (.fresh .require ∅ {"class::store::size4"}) .conservative .verify).1.result = .pass
      ∧ (let run := analyze twinDriver (sortedHost evalSolver)
          (.fresh .require ∅ {"class::store::size4"}) .conservative .verify
        let bulk := ((vcLog run.2).filter
          (fun p => p.2 ∈ ({"class::store::size4"} : Finset String))).map Prod.fst
        let again := analyze twinDriver (sortedHost evalSolver)
          (.fresh .require (∅ ∪ bulk.toFinset) ∅) .conservative .verify
        again.2.seen = run.2.seen ∧ again.2.blocked = run.2.blocked ∧ again.1 = run.1) :=
  ⟨by decide, by decide +kernel, class_approval_is_bulk_approval twinDriver (by decide)
    (sortedHost evalSolver) ∅ {"class::store::size4"} .conservative .verify⟩

end SkvVcId

import SentinelKv.SkvPathMachineProofs

/-!
# Memory safety along a path

A `Pass` is a statement about one linear scan.  Here it becomes one about EXECUTION: along a
forward path of any function of a module that passes, the machine does not trap.

* `stepInstr_vetted`, `forLoop_vetted` — a scan that ends in `Pass` vouches for each instruction
  of the listing;
* `run_block` is a block of the path, `pass_block` one the scan alone processes, and
  `forward_run` puts them together by induction on how the path sits in the listing;
* `vetted_runs_forward_path` is that for a module, **`pass_runs_forward_paths`** for `analyze`:
  out-of-bounds accesses, uses after free, double frees and overflowing `kcalloc`s are all
  excluded, in every function and whatever the gate lets through.
-/

namespace SkvPathSafety

open BreakLoop SkvIr SkvTypeSize SkvGate SkvAnalyze SkvTransfer SkvMapsInv SkvCertify
open SkvStraightLine SkvPaths SkvPathMachine

-- ── From the listing to the path ─────────────────────────────────────────────────

/-- Every instruction of a replayed list satisfies `P`, with the maps before it. -/
def ReplayAll (P : Maps → Instruction → Prop) (m : Module) (dma : DmaPolicy) :
    List Instruction → Maps → Prop
  | [], _ => True
  | i :: is, t => P t i ∧ ReplayAll P m dma is (transfer m dma i t)

theorem replayAll_append {P : Maps → Instruction → Prop} (m : Module) (dma : DmaPolicy)
    (js : List Instruction) : ∀ (is : List Instruction) (t : Maps),
      ReplayAll P m dma (is ++ js) t
        ↔ ReplayAll P m dma is t ∧ ReplayAll P m dma js (replay m dma is t) := by
  intro is
  induction is with
  | nil => intro t; exact ⟨fun h => ⟨trivial, h⟩, fun h => h.2⟩
  | cons i is ih =>
      intro t
      show P t i ∧ ReplayAll P m dma (is ++ js) (transfer m dma i t) ↔ _
      rw [ih]
      exact and_assoc.symm

section Blocks

variable {m : Module} {dma : DmaPolicy}

/-- A block of the path. -/
theorem run_block : ∀ {is : List Instruction} {c : PathCtx} {ρ : Nat → Nat} {μ : Machine}
    {t : Maps}, Follows c ρ μ t → MapsInv t → pathOk m c is = true → (results is).Nodup →
      (∀ n ∈ results is, c.Fresh n) → ReplayAll (Vetted m dma) m dma is t →
      ∃ ρ' μ', machineRun m is μ = some μ' ∧ Follows (c.after is) ρ' μ' (replay m dma is t) := by
  intro is
  induction is with
  | nil => intro c ρ μ t h _ _ _ _ _; exact ⟨ρ, μ, rfl, h⟩
  | cons i is ih =>
      intro c ρ μ t h hinv hok hnodup hfresh hall
      obtain ⟨hi, his⟩ := (Bool.and_eq_true _ _).mp hok
      rw [results_cons] at hnodup hfresh
      obtain ⟨-, hrest, hdisj⟩ := List.nodup_append.mp hnodup
      obtain ⟨ρ₁, μ₁, hstep, h₁⟩ := visit_step h hinv hi
        (fun n hn => hfresh n (List.mem_append_left _ (Option.mem_toList.mpr hn))) hall.1
      obtain ⟨ρ₂, μ₂, hrun, h₂⟩ := ih h₁ (transfer_inv m dma i hinv) his hrest
        (fun n hn => (hfresh n (List.mem_append_right _ hn)).next
          (fun hr => hdisj n (Option.mem_toList.mpr hr) n hn rfl)) hall.2
      exact ⟨ρ₂, μ₂, by rw [machineRun, List.foldlM_cons, hstep]; exact hrun, h₂⟩

/-- A block the scan alone processes. -/
theorem pass_block {c : PathCtx} {ρ : Nat → Nat} {μ : Machine} {slots : List Name} :
    ∀ {is : List Instruction} {t : Maps}, Follows c ρ μ t → MapsInv t → SlotsIn slots t →
      (∀ i ∈ is, ∀ n, allocaOf i = some n → n ∈ slots) → (∀ n ∈ results is, c.Fresh n) →
      (∀ i ∈ is, ∀ n, spillsTo i = some n → n ∈ slots → n ∉ c.filled) →
      Follows c ρ μ (replay m dma is t) := by
  intro is
  induction is with
  | nil => intro t h _ _ _ _ _; exact h
  | cons i is ih =>
      intro t h hinv hslots halloc hfresh hspill
      rw [results_cons] at hfresh
      refine ih (h.skip hinv m dma ?_ ?_) (transfer_inv m dma i hinv) ?_
        (fun j hj => halloc j (List.mem_cons_of_mem i hj))
        (fun n hn => hfresh n (List.mem_append_right _ hn))
        (fun j hj => hspill j (List.mem_cons_of_mem i hj))
      · exact fun n hn => hfresh n (List.mem_append_left _ (Option.mem_toList.mpr hn))
      · exact fun n hs hmem => hspill i List.mem_cons_self n hs (hslots n hmem)
      · exact replay_slotsIn m dma [i] (fun j hj => halloc j (by
          rw [List.mem_singleton.mp hj]
          exact List.mem_cons_self)) hslots

/-- **From the listing to the path**, by induction on how the path sits in the list of blocks.
    `N` holds the names of the path. -/
theorem forward_run {N slots : List Name} : ∀ {p l : List BasicBlock}, p.Sublist l →
    (l.map BasicBlock.name).Nodup → (results (pathInstrs l)).Nodup →
    (∀ i ∈ pathInstrs l, ∀ n, allocaOf i = some n → n ∈ slots) →
    (∀ b ∈ l, b.name ∉ p.map BasicBlock.name → ∀ i ∈ b.instrs, ∀ n, spillsTo i = some n →
      n ∈ slots → n ∉ N) →
    (∀ n ∈ results (pathInstrs p), n ∈ N) →
    ∀ {c : PathCtx} {ρ : Nat → Nat} {μ : Machine} {t : Maps}, Follows c ρ μ t → MapsInv t →
      SlotsIn slots t → (∀ n ∈ c.slots, n ∈ N) → (∀ n ∈ results (pathInstrs l), c.Fresh n) →
      pathOk m c (pathInstrs p) = true → ReplayAll (Vetted m dma) m dma (pathInstrs l) t →
      ∃ μ', machineRun m (pathInstrs p) μ = some μ' := by
  intro p l hsub
  induction hsub with
  | slnil => intro _ _ _ _ _ c ρ μ t _ _ _ _ _ _ _; exact ⟨μ, rfl⟩
  | @cons p l b hsub ih =>
      intro hlabels hnodup halloc hspill hN c ρ μ t h hinv hslots hcN hfresh hok hall
      have hsplit : results (pathInstrs (b :: l)) = results b.instrs ++ results (pathInstrs l) :=
        List.filterMap_append
      rw [hsplit] at hnodup hfresh
      obtain ⟨hb, hlabels'⟩ := List.nodup_cons.mp hlabels
      have hnot : b.name ∉ p.map BasicBlock.name := fun hmem =>
        hb ((hsub.map BasicBlock.name).subset hmem)
      have hallocb : ∀ i ∈ b.instrs, ∀ n, allocaOf i = some n → n ∈ slots :=
        fun i hi => halloc i (List.mem_append_left _ hi)
      have hfollow : Follows c ρ μ (replay m dma b.instrs t) := pass_block h hinv hslots hallocb
        (fun n hn => hfresh n (List.mem_append_left _ hn))
        (fun i hi n hs hmem hfill => hspill b List.mem_cons_self hnot i hi n hs hmem
          (hcN n (h.filled n hfill).1))
      exact ih hlabels' (List.nodup_append.mp hnodup).2.1
        (fun i hi => halloc i (List.mem_append_right _ hi))
        (fun b' hmem => hspill b' (List.mem_cons_of_mem b hmem)) hN hfollow
        (replay_inv m dma b.instrs hinv) (replay_slotsIn m dma b.instrs hallocb hslots) hcN
        (fun n hn => hfresh n (List.mem_append_right _ hn)) hok
        ((replayAll_append m dma _ b.instrs t).mp hall).2
  | @cons_cons p l b hsub ih =>
      intro hlabels hnodup halloc hspill hN c ρ μ t h hinv hslots hcN hfresh hok hall
      have hsplit : ∀ l, results (pathInstrs (b :: l))
          = results b.instrs ++ results (pathInstrs l) := fun _ => List.filterMap_append
      rw [hsplit] at hnodup hfresh hN
      obtain ⟨hb, hlabels'⟩ := List.nodup_cons.mp hlabels
      obtain ⟨hnodupb, hnodupl, hdisj⟩ := List.nodup_append.mp hnodup
      have hokb : (pathOk m c b.instrs && pathOk m (c.after b.instrs) (pathInstrs p)) = true :=
        (pathOk_append m _ _ _).symm.trans hok
      obtain ⟨hok₁, hok₂⟩ := (Bool.and_eq_true _ _).mp hokb
      obtain ⟨hallb, halll⟩ := (replayAll_append m dma _ b.instrs t).mp hall
      obtain ⟨ρ₁, μ₁, hrun, h₁⟩ := run_block h hinv hok₁ hnodupb
        (fun n hn => hfresh n (List.mem_append_left _ hn)) hallb
      have hrest := ih hlabels' hnodupl (fun i hi => halloc i (List.mem_append_right _ hi))
        (fun b' hmem hnot => hspill b' (List.mem_cons_of_mem b hmem) (fun hin => by
          rcases List.mem_cons.mp hin with heq | hin
          · exact hb (heq ▸ List.mem_map_of_mem hmem)
          · exact hnot hin))
        (fun n hn => hN n (List.mem_append_right _ hn)) h₁ (replay_inv m dma b.instrs hinv)
        (replay_slotsIn m dma b.instrs (fun i hi => halloc i (List.mem_append_left _ hi)) hslots)
        (fun n hn => (after_slots hn).elim (hcN n)
          (fun hr => hN n (List.mem_append_left _ hr)))
        (fun n hn => (hfresh n (List.mem_append_right _ hn)).after
          (fun hin => hdisj n hin n hn rfl)) hok₂ halll
      obtain ⟨μ₂, hμ₂⟩ := hrest
      refine ⟨μ₂, ?_⟩
      rw [show pathInstrs (b :: p) = b.instrs ++ pathInstrs p from rfl, machineRun_append, hrun]
      exact hμ₂

end Blocks

-- ── From `Pass` to the listing ───────────────────────────────────────────────────

theorem stepCall_callocFits {e : Env} {site : Site} {call : Call} {s : St} (hs : ¬ Failed s)
    (hp : (stepCall e site call s).state.finalResult = .pass) : CallocFits (.call call) := by
  intro hname nmemb size hn hsz
  have hfail : ¬ s.finalResult.isFail = true := hs
  obtain ⟨nmembOp, hnop, hn⟩ := Option.bind_eq_some_iff.mp hn
  obtain ⟨sizeOp, hsop, hsz⟩ := Option.bind_eq_some_iff.mp hsz
  unfold stepCall at hp
  rw [if_neg hfail, hname] at hp
  have hp' : (stepKcalloc call s).state.finalResult = .pass := hp
  simp only [stepKcalloc, hnop, hsop, hn, hsz] at hp'
  cases hmul : checkedMul nmemb size with
  | none => rw [hmul] at hp'; cases hp'
  | some total => exact (checkedMul_eq_some hmul).2

/-- **The step.**  An instruction that leaves `Pass` behind is vetted by the maps before it. -/
theorem stepInstr_vetted {e : Env} (hz : SolverSound e.host.z3) {site : Site} {s : St}
    (hs : ¬ Failed s) (hinv : MapsInv s.maps)
    (hfresh : ∀ d, site.instr.tryGetResult = some d → d ∉ site.instr.uses)
    (hp : (stepInstr e site s).state.finalResult = .pass) :
    Vetted e.module e.dmaPolicy s.maps site.instr := by
  refine ⟨stepInstr_certified hz hs hinv hfresh hp, ?_⟩
  unfold stepInstr at hp
  cases hi : site.instr with
  | call call =>
      rw [hi] at hp
      exact stepCall_callocFits hs hp
  | _ => trivial

/-- **The run.**  A loop over sites that ends in `Pass` has vetted each of them. -/
theorem forLoop_vetted {e : Env} (hz : SolverSound e.host.z3) : ∀ (l : List Site) (s : St),
    ¬ Failed s → MapsInv s.maps →
    (∀ x ∈ l, ∀ d, x.instr.tryGetResult = some d → d ∉ x.instr.uses) →
    (forLoop (stepInstr e) l s).finalResult = .pass →
    ReplayAll (Vetted e.module e.dmaPolicy) e.module e.dmaPolicy (l.map Site.instr) s.maps := by
  intro l
  induction l with
  | nil => intro s _ _ _ _; trivial
  | cons x xs ih =>
      intro s hs hinv hfresh hp
      cases hb : stepInstr e x s with
      | brk s' =>
          rw [forLoop_cons_brk hb] at hp
          exact absurd ((stepInstr_flagged e).brk_up x s s' hs hb) (not_failed_of_pass hp)
      | next s' =>
          rw [forLoop_cons_next hb] at hp
          have hs' := (stepInstr_flagged e).next_down x s s' hs hb
          have hpass : s'.finalResult = .pass :=
            (visits_backward (stepInstr_flagged e) (fun _ => not_failed_of_pass)
              (fun site _ hs => (stepInstr_ok e site hs).pass) xs s' hs' hp).1
          have hmaps := stepInstr_next_maps hs hb
          refine ⟨stepInstr_vetted hz hs hinv (hfresh x List.mem_cons_self)
            (by rw [hb]; exact hpass), ?_⟩
          rw [← hmaps]
          exact ih s' hs' (hmaps ▸ transfer_inv _ _ _ hinv)
            (fun y hy => hfresh y (List.mem_cons_of_mem x hy)) hp

-- ── The theorem ──────────────────────────────────────────────────────────────────

/-- Path and skipped blocks make up the function. -/
theorem path_append_skipped_perm {f : Function} {path : List BasicBlock}
    (hlabels : (f.basicBlocks.map BasicBlock.name).Nodup) (hsub : path.Sublist f.basicBlocks) :
    (path ++ skipped f path).Perm f.basicBlocks := by
  have hblocks : f.basicBlocks.Nodup := hlabels.of_map _
  have hdisj : ∀ b ∈ path, ∀ b' ∈ skipped f path, b ≠ b' := by
    rintro b hb b' hb' rfl
    exact of_decide_eq_true (List.mem_filter.mp hb').2 (List.mem_map_of_mem hb)
  have hnodup : (path ++ skipped f path).Nodup :=
    List.nodup_append.mpr ⟨hblocks.sublist hsub, hblocks.filter _, hdisj⟩
  refine (List.perm_ext_iff_of_nodup hnodup hblocks).mpr (fun b => ?_)
  rw [List.mem_append]
  constructor
  · rintro (hb | hb)
    · exact hsub.subset hb
    · exact (List.mem_filter.mp hb).1
  · intro hb
    by_cases hname : b.name ∈ path.map BasicBlock.name
    · obtain ⟨b', hb', heq⟩ := List.mem_map.mp hname
      exact Or.inl (List.inj_on_of_nodup_map hlabels (hsub.subset hb') hb heq ▸ hb')
    · exact Or.inr (List.mem_filter.mpr ⟨hb, decide_eq_true hname⟩)

/-- A name of the path is not defined in a skipped block. -/
theorem path_results_not_skipped {f : Function} {path : List BasicBlock}
    (hlabels : (f.basicBlocks.map BasicBlock.name).Nodup) (hsub : path.Sublist f.basicBlocks)
    (hssa : (results f.instrs).Nodup) {n : Name} (hn : n ∈ results (pathInstrs path)) :
    n ∉ skippedNames f path := by
  have hperm : (results (pathInstrs (path ++ skipped f path))).Perm (results f.instrs) :=
    ((path_append_skipped_perm hlabels hsub).flatMap_right _).filterMap _
  have hsplit : results (pathInstrs (path ++ skipped f path))
      = results (pathInstrs path) ++ skippedNames f path := by
    unfold pathInstrs results skippedNames
    rw [List.flatMap_append, List.filterMap_append]
    rfl
  have hnodup := hperm.nodup_iff.mpr hssa
  rw [hsplit] at hnodup
  exact fun hmem => (List.nodup_append.mp hnodup).2.2 n hn n hmem rfl

/-- The scan of a module that passes has vetted the whole listing. -/
theorem vetted_of_pass {m : Module} (hfresh : ResultsFresh m) {host : Host}
    (hz : SolverSound host.z3) {gate : HitlGate} {asmP : InlineAsmPolicy} {dmaP : DmaPolicy}
    (h : (analyze m host gate asmP dmaP).1.result = .pass) :
    ReplayAll (Vetted m dmaP) m dmaP ((sites m).map Site.instr) Maps.empty := by
  have hscan := scan_pass_of_analyze h
  rw [scanModule_eq] at hscan
  exact forLoop_vetted (e := mkEnv m host asmP dmaP) hz _ _ (not_failed_init gate) mapsInv_empty
    hfresh hscan

/-- Along a forward path of a vetted listing the machine does not trap. -/
theorem vetted_runs_forward_path {m : Module} {f : Function} (hf : f ∈ m.functions)
    (hlabels : (f.basicBlocks.map BasicBlock.name).Nodup) (hssa : (results f.instrs).Nodup)
    {path : List BasicBlock} (hpath : ForwardPath m f path)
    (hok : pathOk m .init (pathInstrs path) = true) {dmaP : DmaPolicy}
    (hall : ReplayAll (Vetted m dmaP) m dmaP ((sites m).map Site.instr) Maps.empty) :
    ∃ μ, machineRun m (pathInstrs path) .init = some μ := by
  obtain ⟨pre, post, hm⟩ := List.append_of_mem hf
  -- the listing of the whole module, cut at the function
  have hinstrs : (sites m).map Site.instr
      = pre.flatMap Function.instrs ++ (f.instrs ++ post.flatMap Function.instrs) := by
    rw [sites_instrs, hm, List.flatMap_append, List.flatMap_cons]
  rw [hinstrs, replayAll_append, replayAll_append] at hall
  have hslots : ∀ g ∈ m.functions, ∀ i ∈ g.instrs, ∀ n, allocaOf i = some n → n ∈ slotNames m :=
    fun g hg i hi n hn => List.mem_filterMap.mpr ⟨i, List.mem_flatMap.mpr ⟨g, hg, hi⟩, hn⟩
  refine forward_run (N := results (pathInstrs path)) hpath.forward hlabels hssa (hslots f hf) ?_
    (fun _ hn => hn) (follows_init _) (replay_inv m dmaP _ mapsInv_empty) ?_
    (fun _ hn => (nomatch hn)) ?_ hok hall.2.1
  · intro b hb hnot i hi n hs hmem hn
    have hskip : i ∈ pathInstrs (skipped f path) :=
      List.mem_flatMap.mpr ⟨b, List.mem_filter.mpr ⟨hb, decide_eq_true hnot⟩, hi⟩
    exact path_results_not_skipped hlabels hpath.forward hssa hn
      (hpath.slots i hskip n hs hmem)
  · refine replay_slotsIn m dmaP _ ?_ (fun n hn => absurd hn (Finset.notMem_empty n))
    intro i hi
    obtain ⟨g, hg, hgi⟩ := List.mem_flatMap.mp hi
    exact hslots g (by rw [hm]; exact List.mem_append_left _ hg) i hgi
  · exact fun _ _ => ⟨⟨fun hn => (nomatch hn), fun hn => (nomatch hn)⟩, fun hn => (nomatch hn)⟩

/-- Compiled without optimisation: the pointer lives in a slot, one branch writes its second
    word, the other works on a buffer of its own, and the exit releases it. -/
def slotFn : Function := Function.ofBlocks "slot" [
  ([.alloca (.name "a"), .call (.direct "kmalloc" [.lit 64 16] (some (.name "p"))),
    .store (.ptr "a") (.ptr "p"),
    .other .iCmp [.localOperand (.name "n") (.integerType 32), .lit 32 0] (some (.name "c"))],
    .condBr (.localOperand (.name "c") (.integerType 1)) (.number 1) (.number 2)),
  ([.load (.ptr "a") .pointerType (.name "q"),
    .getElementPtr ⟨.ptr "q", [.lit 64 1], .name "g", .integerType 64⟩,
    .store (.ptr "g") (.lit 64 7)], .br (.number 3)),
  ([.call (.direct "kmalloc" [.lit 64 8] (some (.name "r"))),
    .call (.direct "kfree" [.ptr "r"] none)], .br (.number 3)),
  ([.load (.ptr "a") .pointerType (.name "s"), .call (.direct "kfree" [.ptr "s"] none)],
    .ret none)]

theorem slotFn_forward :
    ForwardPath (.ofFunctions [slotFn]) slotFn (blocksAt slotFn [0, 1, 3]) where
  isPath := ⟨rfl, fun _ => mem_of_blocksAt, by decide⟩
  forward := by
    show [_, _, _].Sublist [_, _, _, _]
    exact .cons_cons _ (.cons_cons _ (.cons _ (.cons_cons _ .slnil)))
  uses := by decide
  slots := by decide

end SkvPathSafety

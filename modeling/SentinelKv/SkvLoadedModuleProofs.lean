import SentinelKv.SkvCertifyProofs
import SentinelKv.SkvLoadedFunctionProofs

/-!
# What the analyzer may assume of a loaded module

The analyzer's results take for granted that labels and results are distinct and that no
instruction reads its own result.  The loader gives names, so these are facts about the loader.

* **`loaded_function_wf`** — in every loaded function no name is defined twice, no two blocks share
  a label, every branch leads to a block of the function, and every operand names a parameter or a
  result of the function;
* **`FromLlvm.fresh`** — no loaded instruction reads its own result, unless LLVM's does.
-/

namespace SkvLoadedModule

open EarlyReturn SkvIr SkvTransfer SkvCertify SkvNaming SkvFunctionLoader SkvLoadedFunction

variable {V B : Type}

-- ── Results, operands and successors ─────────────────────────────────────────────

/-- The values an instruction refers to, the incoming ones of a phi included. -/
def refersTo (i : LlvmInst V B) : List (LlvmValue V B) := i.operands ++ i.incoming.map Prod.fst

/-- All instructions of LLVM's function, terminators apart. -/
def insts (f : LlvmFunction V B) : List (LlvmInst V B) := f.blocks.flatMap LlvmBlock.body

/-- `Terminator::try_get_result`. -/
def termTryGetResult : Terminator → Option Name
  | .invoke _ _ result _ _ => some result
  | .catchSwitch _ _ result => some result
  | .callBr _ _ result _ => some result
  | _ => none

section As

variable {L : LlvmValue V B → Operand → Prop} {T : B → Name → Prop}

theorem InstAs.result {d : Name} {i : LlvmInst V B} {x : Instruction} (h : InstAs L T d i x) :
    x.tryGetResult = if hasDest i then some d else none := by
  cases h with
  | call ho hf hlen hargs =>
      rw [hasDest, ho]
      cases i.returnsVoid <;> rfl
  | phi ho hin => rw [hasDest_other ho (by decide)]; rfl
  | landingPad ho => rw [hasDest_other ho (by decide)]; rfl
  | catchPad ho hlast hv hlen hargs => rw [hasDest_other ho (by decide)]; rfl
  | cleanupPad ho hfirst hv hlen hargs => rw [hasDest_other ho (by decide)]; rfl
  | other ho hplain hlen hops => rw [hasDest_other ho (ne_fence_of_isPlain hplain)]; rfl
  | alloca ho | getElementPtr ho | ptrToInt ho | intToPtr ho | bitCast ho | add ho | sub ho
  | store ho | load ho | fence ho =>
      rw [hasDest, ho]
      rfl

/-- Every operand of a loaded instruction is one of LLVM's. -/
theorem InstAs.operand {d : Name} {i : LlvmInst V B} {x : Instruction} (h : InstAs L T d i x)
    {y : Operand} (hy : y ∈ x.operands) : ∃ v ∈ refersTo i, L v y := by
  have hall : ∀ {vs : List (LlvmValue V B)} {ys : List Operand}, List.Forall₂ L vs ys →
      (∀ v ∈ vs, v ∈ i.operands) → y ∈ ys → ∃ v ∈ refersTo i, L v y := by
    intro vs ys hvs hsub hmem
    obtain ⟨v, hv, hL⟩ := forall₂_mem_right hvs hmem
    exact ⟨v, List.mem_append_left _ (hsub v hv), hL⟩
  have hone : ∀ {v : LlvmValue V B} {y' : Operand}, L v y' → v ∈ i.operands → y = y' →
      ∃ v ∈ refersTo i, L v y := by
    rintro v y' hL hv rfl
    exact ⟨v, List.mem_append_left _ hv, hL⟩
  have htake : ∀ n, ∀ v ∈ i.operands.take n, v ∈ i.operands := fun n v hv => List.mem_of_mem_take hv
  cases h with
  | alloca => cases hy
  | call ho hf hlen hargs => exact hall hargs (htake _) hy
  | getElementPtr ho hops hv hvs =>
      refine hall (List.Forall₂.cons hv hvs) ?_ hy
      rw [hops]
      exact fun _ h => h
  | ptrToInt ho hops hv | intToPtr ho hops hv | bitCast ho hops hv | load ho hops hv =>
      refine hall (List.Forall₂.cons hv .nil) ?_ hy
      rw [hops]
      exact fun _ h => h
  | add ho hops hv hw | sub ho hops hv hw =>
      refine hall (List.Forall₂.cons hv (.cons hw .nil)) ?_ hy
      rw [hops]
      exact fun _ h => h
  | store ho hops hv hw =>
      refine hall (List.Forall₂.cons hw (.cons hv .nil)) ?_ hy
      rw [hops]
      intro v hmem
      rcases List.mem_cons.mp hmem with rfl | hmem
      · exact List.mem_cons_of_mem _ List.mem_cons_self
      · exact List.mem_cons.mpr (Or.inl (List.mem_singleton.mp hmem))
  | fence => cases hy
  | phi ho hin =>
      obtain ⟨p, hp, hL, -⟩ := forall₂_mem_right hin hy
      exact ⟨p.1, List.mem_append_right _ (List.mem_map.mpr ⟨p, hp, rfl⟩), hL⟩
  | landingPad => cases hy
  | catchPad ho hlast hv hlen hargs =>
      rcases List.mem_cons.mp hy with hy | hy
      · exact hone hv (List.mem_of_getElem? hlast) hy
      · exact hall hargs (htake _) hy
  | cleanupPad ho hfirst hv hlen hargs =>
      rcases List.mem_cons.mp hy with hy | hy
      · exact hone hv (List.mem_of_getElem? hfirst) hy
      · exact hall hargs (htake _) hy
  | other ho hplain hlen hops => exact hall hops (fun _ h => h) hy

theorem TermAs.result {r : Name} {t : LlvmTerm V B} {x : Terminator} (h : TermAs L T r t x) :
    termTryGetResult x = if termHasResult t then some r else none := by
  cases h with
  | retVoid ho | ret ho | br ho | condBr ho | switch ho | indirectBr ho | invoke ho | resume ho
  | unreachable ho | cleanupRet ho | cleanupRetUnwind ho | catchRet ho | catchSwitch ho
  | catchSwitchUnwind ho | callBr ho =>
      rw [termHasResult, ho]
      rfl

/-- Every successor of a loaded terminator is the name of a block. -/
theorem TermAs.successor {r : Name} {t : LlvmTerm V B} {x : Terminator} (h : TermAs L T r t x)
    {n : Name} (hn : n ∈ x.successors) : ∃ b, T b n := by
  have hall : ∀ {bs : List B} {ns : List Name}, List.Forall₂ T bs ns → n ∈ ns → ∃ b, T b n := by
    intro bs ns hbs hmem
    obtain ⟨b, -, hb⟩ := forall₂_mem_right hbs hmem
    exact ⟨b, hb⟩
  cases h with
  | retVoid | ret | resume | unreachable | cleanupRet => cases hn
  | br ho hops hb => exact hall (.cons hb .nil) hn
  | condBr ho hops hv h₁ h₂ => exact hall (.cons h₂ (.cons h₁ .nil)) hn
  | switch ho hop hv hsucc hb hbs => exact hall (.cons hb hbs) hn
  | indirectBr ho hop hv hbs => exact hall hbs hn
  | invoke ho hf hlen hargs h₁ hunwind h₂ => exact hall (.cons h₁ (.cons h₂ .nil)) hn
  | cleanupRetUnwind ho hops hv hunwind hb => exact hall (.cons hb .nil) hn
  | catchRet ho hop hv hsucc hb => exact hall (.cons hb .nil) hn
  | catchSwitch ho hop hv hbs hunwind =>
      rw [Terminator.successors, Option.toList_none, List.append_nil] at hn
      exact hall hbs hn
  | catchSwitchUnwind ho hop hv hbs hunwind hb =>
      rcases List.mem_append.mp hn with hn | hn
      · exact hall hbs hn
      · exact hall (.cons hb .nil) hn
  | callBr ho hf hlen hargs h₁ => exact hall (.cons h₁ .nil) hn

end As

-- ── The names of a loaded function ───────────────────────────────────────────────

/-- The names a block defines. -/
def blockResults (b : BasicBlock) : List Name :=
  results b.instrs ++ (termTryGetResult b.term).toList

/-- The names a function defines: its parameters and the results of its instructions and
    terminators. -/
def definedNames (F : Function) : List Name := F.parameters ++ F.basicBlocks.flatMap blockResults

/-- The references with a result. -/
def blockRefs (bb : LlvmBlock V B) : List V :=
  (bb.body.filter hasDest).map LlvmInst.ref ++
    if termHasResult bb.term then [bb.term.ref] else []

def definedRefs (f : LlvmFunction V B) : List V :=
  f.params.map Prod.fst ++ f.blocks.flatMap blockRefs

/-- Only what has a result has a name; LLVM gives no name to a value of type void. -/
def NamedHaveResults (f : LlvmFunction V B) : Prop :=
  ∀ bb ∈ f.blocks, (∀ i ∈ bb.body, needsName i = true → hasDest i = true) ∧
    (termNeedsName bb.term = true → termHasResult bb.term = true)

section Renamed

variable {f : LlvmFunction V B} {σ : V → Name} {β : B → Name} {F : Function}
  {L : LlvmValue V B → Operand → Prop} {T : B → Name → Prop}

theorem results_of_as {is : List (LlvmInst V B)} {xs : List Instruction}
    (h : List.Forall₂ (fun i x => InstAs L T (σ i.ref) i x) is xs) :
    results xs = (is.filter hasDest).map fun i => σ i.ref := by
  induction h with
  | nil => rfl
  | @cons i x is xs hi _ ih =>
      rw [results_cons, InstAs.result hi, ih]
      cases hdest : hasDest i with
      | true =>
          rw [List.filter_cons_of_pos hdest]
          rfl
      | false =>
          rw [List.filter_cons_of_neg (by rw [hdest]; exact Bool.false_ne_true)]
          rfl

theorem blockResults_of_as {bb : LlvmBlock V B} {b : BasicBlock} (h : BlockAs L T σ bb b) :
    blockResults b = (blockRefs bb).map σ := by
  rw [blockResults, blockRefs, results_of_as h.instrs, TermAs.result h.term, List.map_append,
    List.map_map]
  cases termHasResult bb.term <;> rfl

theorem flatMap_blockResults {bbs : List (LlvmBlock V B)} {bs : List BasicBlock}
    (h : List.Forall₂ (BlockAs L T σ) bbs bs) :
    bs.flatMap blockResults = (bbs.flatMap blockRefs).map σ := by
  induction h with
  | nil => rfl
  | cons hb _ ih =>
      rw [List.flatMap_cons, List.flatMap_cons, List.map_append, ih, blockResults_of_as hb]

theorem labels_of_as {bbs : List (LlvmBlock V B)} {bs : List BasicBlock}
    (h : List.Forall₂ (BlockAs L (LabelAs f β) σ) bbs bs) :
    bs.map BasicBlock.name = (bbs.map LlvmBlock.ref).map β := by
  induction h with
  | nil => rfl
  | cons hb _ ih => rw [List.map_cons, List.map_cons, List.map_cons, ih, hb.name.name]

theorem Renamed.definedNames (h : Renamed f σ β F) :
    definedNames F = (definedRefs f).map σ := by
  rw [SkvLoadedModule.definedNames, definedRefs, h.parameters, flatMap_blockResults h.blocks,
    List.map_append, List.map_map]
  rfl

/-- What has a result is among what gets a name, in the same order. -/
theorem blockRefs_sublist (bb : LlvmBlock V B) :
    ((blockRefs bb).map Sum.inl).Sublist ((blockSymbols bb).map Prod.fst) := by
  have hbody : (bb.body.filter hasDest).Sublist (bb.body.filter needsName) := by
    refine List.monotone_filter_right _ ?_
    intro i hi
    rw [needsName_eq, hi, Bool.or_true]
  have hterm : (if termHasResult bb.term then [bb.term.ref] else []).Sublist
      ((if termNeedsName bb.term then [(bb.term.ref, bb.term.name)] else []).map Prod.fst) := by
    cases hresult : termHasResult bb.term with
    | true =>
        rw [termNeedsName_eq, hresult, Bool.or_true]
        exact List.Sublist.refl _
    | false => exact List.nil_sublist _
  have hvalues : (blockRefs bb).Sublist ((namedValues bb).map Prod.fst) := by
    rw [namedValues, List.map_append, List.map_map]
    exact (hbody.map LlvmInst.ref).append hterm
  have hmap := hvalues.map (Sum.inl (β := B))
  rw [List.map_map] at hmap
  refine List.Sublist.cons _ ?_
  rw [List.map_map]
  exact hmap

theorem definedRefs_sublist (f : LlvmFunction V B) :
    ((definedRefs f).map Sum.inl).Sublist ((symbols f).map Prod.fst) := by
  rw [definedRefs, symbols, List.map_append, List.map_append]
  refine List.Sublist.append (by rw [List.map_map, List.map_map]; exact List.Sublist.refl _) ?_
  induction f.blocks with
  | nil => exact List.Sublist.refl _
  | cons bb bbs ih =>
      rw [List.flatMap_cons, List.flatMap_cons, List.map_append, List.map_append]
      exact (blockRefs_sublist bb).append ih

theorem blockLabels_sublist (f : LlvmFunction V B) :
    ((f.blocks.map LlvmBlock.ref).map Sum.inr).Sublist ((symbols f).map Prod.fst) := by
  rw [symbols, List.map_append]
  refine List.Sublist.trans ?_ (List.sublist_append_right _ _)
  induction f.blocks with
  | nil => exact List.Sublist.refl _
  | cons bb bbs ih =>
      rw [List.flatMap_cons, List.map_append]
      exact List.Sublist.append (List.Sublist.cons_cons _ (List.nil_sublist _)) ih

theorem defines_of_mem {v : V} (h : v ∈ definedRefs f) : Defines f v :=
  (definedRefs_sublist f).subset (List.mem_map_of_mem h)

theorem hasBlock_of_mem {b : B} (h : b ∈ f.blocks.map LlvmBlock.ref) : HasBlock f b :=
  (blockLabels_sublist f).subset (List.mem_map_of_mem h)

/-- **Single assignment**: no name is defined twice. -/
theorem Renamed.nodup (h : Renamed f σ β F) (hrefs : RefsUnique f) (hapart : NamesApart f σ β) :
    (SkvLoadedModule.definedNames F).Nodup := by
  rw [Renamed.definedNames h]
  refine List.Nodup.map_on (fun u hu v hv => hapart.values u v (defines_of_mem hu)
    (defines_of_mem hv)) ?_
  exact ((definedRefs_sublist f).nodup hrefs).of_map _

theorem Renamed.labels_nodup (h : Renamed f σ β F) (hrefs : RefsUnique f)
    (hapart : NamesApart f σ β) : (F.basicBlocks.map BasicBlock.name).Nodup := by
  rw [labels_of_as h.blocks]
  refine List.Nodup.map_on (fun b hb c hc => hapart.blocks b c (hasBlock_of_mem hb)
    (hasBlock_of_mem hc)) ?_
  exact ((blockLabels_sublist f).nodup hrefs).of_map _

-- ── Nothing dangles ──────────────────────────────────────────────────────────────

theorem mem_blocks_of_hasBlock {b : B} (h : HasBlock f b) : b ∈ f.blocks.map LlvmBlock.ref := by
  rw [HasBlock, symbols, List.map_append, List.mem_append] at h
  rcases h with h | h
  · obtain ⟨x, hx, heq⟩ := List.mem_map.mp h
    obtain ⟨p, -, rfl⟩ := List.mem_map.mp hx
    cases heq
  · obtain ⟨x, hx, heq⟩ := List.mem_map.mp h
    obtain ⟨bb, hbb, hx⟩ := List.mem_flatMap.mp hx
    rcases List.mem_cons.mp hx with rfl | hx
    · cases heq
      exact List.mem_map.mpr ⟨bb, hbb, rfl⟩
    · obtain ⟨p, -, rfl⟩ := List.mem_map.mp hx
      cases heq

theorem mem_definedRefs (hnamed : NamedHaveResults f) {v : V} (h : Defines f v) :
    v ∈ definedRefs f := by
  rw [Defines, symbols, List.map_append, List.mem_append] at h
  rw [definedRefs, List.mem_append]
  rcases h with h | h
  · obtain ⟨x, hx, heq⟩ := List.mem_map.mp h
    obtain ⟨p, hp, rfl⟩ := List.mem_map.mp hx
    cases heq
    exact Or.inl (List.mem_map.mpr ⟨p, hp, rfl⟩)
  · refine Or.inr ?_
    obtain ⟨x, hx, heq⟩ := List.mem_map.mp h
    obtain ⟨bb, hbb, hx⟩ := List.mem_flatMap.mp hx
    refine List.mem_flatMap.mpr ⟨bb, hbb, ?_⟩
    rcases List.mem_cons.mp hx with rfl | hx
    · cases heq
    · obtain ⟨p, hp, rfl⟩ := List.mem_map.mp hx
      cases heq
      rcases List.mem_append.mp hp with hp | hp
      · obtain ⟨i, hi, rfl⟩ := List.mem_map.mp hp
        obtain ⟨hbody, hneeds⟩ := List.mem_filter.mp hi
        refine List.mem_append_left _ (List.mem_map.mpr ⟨i, List.mem_filter.mpr ?_, rfl⟩)
        exact ⟨hbody, (hnamed bb hbb).1 i hbody hneeds⟩
      · cases hneeds : termNeedsName bb.term with
        | false =>
            rw [hneeds] at hp
            cases hp
        | true =>
            rw [hneeds] at hp
            rw [List.mem_singleton.mp hp]
            refine List.mem_append_right _ ?_
            rw [(hnamed bb hbb).2 hneeds]
            exact List.mem_cons_self

/-- Branches stay inside the function. -/
theorem Renamed.successors (h : Renamed f σ β F) {b : BasicBlock} (hb : b ∈ F.basicBlocks)
    {n : Name} (hn : n ∈ b.term.successors) : n ∈ F.basicBlocks.map BasicBlock.name := by
  obtain ⟨bb, -, hbas⟩ := forall₂_mem_right h.blocks hb
  obtain ⟨c, hc⟩ := TermAs.successor hbas.term hn
  rw [labels_of_as h.blocks, hc.name]
  exact List.mem_map_of_mem (mem_blocks_of_hasBlock hc.block)

/-- A name an instruction reads is that of a value LLVM's instruction refers to. -/
theorem Renamed.uses (h : Renamed f σ β F) {x : Instruction} (hx : x ∈ F.instrs) :
    ∃ i ∈ insts f, x.tryGetResult = (if hasDest i then some (σ i.ref) else none) ∧
      ∀ n ∈ x.uses, ∃ v ty, .value v ty ∈ refersTo i ∧ Defines f v ∧ n = σ v := by
  obtain ⟨b, hb, hxb⟩ := List.mem_flatMap.mp hx
  obtain ⟨bb, hbb, hbas⟩ := forall₂_mem_right h.blocks hb
  obtain ⟨i, hi, hinst⟩ := forall₂_mem_right hbas.instrs hxb
  refine ⟨i, List.mem_flatMap.mpr ⟨bb, hbb, hi⟩, InstAs.result hinst, ?_⟩
  intro n hn
  obtain ⟨y, hy, hname⟩ := List.mem_filterMap.mp hn
  obtain ⟨v, hv, hvy⟩ := InstAs.operand hinst hy
  cases hvy with
  | constant c => cases hname
  | metadata => cases hname
  | @value v hdef ty =>
      cases hname
      exact ⟨v, ty, hv, hdef, rfl⟩

end Renamed

-- ── Every loaded function ────────────────────────────────────────────────────────

variable [DecidableEq V] [DecidableEq B]

theorem countFn_loads : ∃ F, functionFromLlvmRef countFn = .ok F := ⟨_, rfl⟩

theorem countFn_named : NamedHaveResults countFn := by
  have h : countFn.blocks.all (fun bb => bb.body.all (fun i => !needsName i || hasDest i) &&
      (!termNeedsName bb.term || termHasResult bb.term)) = true := by decide
  intro bb hbb
  have hblock := List.all_eq_true.mp h bb hbb
  rw [Bool.and_eq_true] at hblock
  constructor
  · intro i hi hneeds
    have hinst := List.all_eq_true.mp hblock.1 i hi
    rw [hneeds] at hinst
    exact hinst
  · intro hneeds
    have hterm := hblock.2
    rw [hneeds] at hterm
    exact hterm

/-- The value is the one with this reference. -/
def isValue (v : V) : LlvmValue V B → Bool
  | .value w _ => decide (w = v)
  | _ => false

/-- No instruction of LLVM's function refers to its own result. -/
def NoSelfReference (f : LlvmFunction V B) : Prop :=
  ∀ i ∈ insts f, hasDest i = true → (refersTo i).any (isValue i.ref) = false

/-- An instruction of a loaded function reads its own result only if LLVM's does. -/
theorem loaded_fresh {f : LlvmFunction V B} (hrefs : RefsUnique f)
    (hstrings : StringsUnique (symbols f)) (hself : NoSelfReference f) {F : Function}
    (hok : functionFromLlvmRef f = .ok F) {x : Instruction} (hx : x ∈ F.instrs) {d : Name}
    (hd : x.tryGetResult = some d) : d ∉ x.uses := by
  intro huse
  obtain ⟨i, hi, hresult, huses⟩ := Renamed.uses ((function_ok_iff hrefs).mp hok) hx
  obtain ⟨v, ty, hv, hdef, rfl⟩ := huses d huse
  rw [hresult] at hd
  cases hdest : hasDest i with
  | false =>
      rw [hdest] at hd
      cases hd
  | true =>
      rw [hdest, if_pos rfl] at hd
      have hown : i.ref ∈ definedRefs f := by
        obtain ⟨bb, hbb, hib⟩ := List.mem_flatMap.mp hi
        refine List.mem_append_right _ (List.mem_flatMap.mpr ⟨bb, hbb, ?_⟩)
        exact List.mem_append_left _
          (List.mem_map.mpr ⟨i, List.mem_filter.mpr ⟨hib, hdest⟩, rfl⟩)
      have heq := (namesApart hrefs hstrings).values i.ref v (defines_of_mem hown) hdef
        (Option.some.inj hd)
      have hfree := List.any_eq_false.mp (hself i hi hdest) _ hv
      exact hfree (decide_eq_true heq.symm)

/-- A module and the LLVM functions it was loaded from.  That references and names are used once,
    and that no instruction refers to its own result, is LLVM's own verifier's business. -/
structure FromLlvm (fs : List (LlvmFunction V B)) (m : Module) : Prop where
  functions : List.Forall₂ (fun f F => functionFromLlvmRef f = .ok F) fs m.functions
  refs      : ∀ f ∈ fs, RefsUnique f
  strings   : ∀ f ∈ fs, StringsUnique (symbols f)
  self      : ∀ f ∈ fs, NoSelfReference f

theorem FromLlvm.fresh {fs : List (LlvmFunction V B)} {m : Module} (h : FromLlvm fs m) :
    ResultsFresh m := by
  intro site hsite d hd
  have hmem : site.instr ∈ m.functions.flatMap Function.instrs := by
    rw [← sites_instrs]
    exact List.mem_map_of_mem hsite
  obtain ⟨F, hF, hx⟩ := List.mem_flatMap.mp hmem
  obtain ⟨f, hf, hok⟩ := forall₂_mem_right h.functions hF
  exact loaded_fresh (h.refs f hf) (h.strings f hf) (h.self f hf) hok hx hd

/-- The results of the instructions are among the names a function defines. -/
theorem results_sublist (F : Function) : (results F.instrs).Sublist (definedNames F) := by
  refine List.Sublist.trans ?_ (List.sublist_append_right _ _)
  unfold Function.instrs
  induction F.basicBlocks with
  | nil => exact List.Sublist.refl _
  | cons b bs ih =>
      rw [List.flatMap_cons, List.flatMap_cons, results, List.filterMap_append]
      exact (List.sublist_append_left _ _).append ih

/-- What the analyzer's results ask of one function of a loaded module. -/
theorem FromLlvm.function {fs : List (LlvmFunction V B)} {m : Module} (h : FromLlvm fs m)
    {F : Function} (hF : F ∈ m.functions) :
    (F.basicBlocks.map BasicBlock.name).Nodup ∧ (results F.instrs).Nodup := by
  obtain ⟨f, hf, hok⟩ := forall₂_mem_right h.functions hF
  have hrenamed := (function_ok_iff (h.refs f hf)).mp hok
  have hapart := namesApart (h.refs f hf) (h.strings f hf)
  exact ⟨Renamed.labels_nodup hrenamed (h.refs f hf) hapart,
    (results_sublist F).nodup (Renamed.nodup hrenamed (h.refs f hf) hapart)⟩

end SkvLoadedModule

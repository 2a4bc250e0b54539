import SentinelKv.SkvFunctionLoaderProofs

/-!
# A loaded function is LLVM's function under one renaming

The second walk of `Function::from_llvm_ref` names each block and each result anew, while operands
and labels take the names of the first walk.  Here the two are shown to be one naming.

* **`instructions_ok_iff`**, **`block_ok_iff`** — with the maps of the first walk, the second
  gives every result and every block the name the maps have for it;
* **`function_loads_iff`** — the loader returns `F` iff `F` is the function under one renaming of
  its values and blocks, which gives no two of them the same name; it panics iff there is none.
-/

namespace SkvLoadedFunction

open EarlyReturn SkvIr SkvNaming SkvFunctionLoader

variable {V B : Type}

-- ── One block ────────────────────────────────────────────────────────────────────

/-- The values of a list of instructions that need a name. -/
def namedInsts (is : List (LlvmInst V B)) : List (V × String) :=
  (is.filter needsName).map fun i => (i.ref, i.name)

/-- The name the maps have for a value. -/
def valueName (fc : FunctionContext V B) (v : V) : Name := (fc.valNames v).getD (.number 0)

/-- A loaded block: its name, each instruction and the terminator. -/
structure BlockAs (L : LlvmValue V B → Operand → Prop) (T : B → Name → Prop) (σ : V → Name)
    (bb : LlvmBlock V B) (b : BasicBlock) : Prop where
  name   : T bb.ref b.name
  instrs : List.Forall₂ (fun i x => InstAs L T (σ i.ref) i x) bb.body b.instrs
  term   : TermAs L T (σ bb.term.ref) bb.term b.term

theorem needsName_eq (i : LlvmInst V B) : needsName i = (!i.name.isEmpty || hasDest i) := rfl

theorem termNeedsName_eq (t : LlvmTerm V B) :
    termNeedsName t = (!t.name.isEmpty || termHasResult t) := rfl

section As

variable {L L' : LlvmValue V B → Operand → Prop} {T T' : B → Name → Prop}

theorem CalleeAs.imp (hL : ∀ v y, L v y → L' v y) {c : LlvmCallee V B} {y : Callee}
    (h : CalleeAs L c y) : CalleeAs L' c y := by
  cases h with
  | inlineAsm assembly => exact .inlineAsm assembly
  | called hv => exact .called (hL _ _ hv)

/-- More operands and labels may be known, and an instruction without a result does not look at
    the name. -/
theorem InstAs.imp (hL : ∀ v y, L v y → L' v y) (hT : ∀ b n, T b n → T' b n) {d d' : Name}
    {i : LlvmInst V B} (hd : hasDest i = true → d = d') {x : Instruction}
    (h : InstAs L T d i x) : InstAs L' T' d' i x := by
  cases h with
  | alloca ho hops hv =>
      obtain rfl := hd (by rw [hasDest, ho])
      exact .alloca ho hops (hL _ _ hv)
  | call ho hf hlen hargs =>
      have hcall : InstAs L' T' d' i _ := .call ho (CalleeAs.imp hL hf) hlen (hargs.imp hL)
      cases hvoid : i.returnsVoid with
      | true =>
          rw [hvoid] at hcall
          exact hcall
      | false =>
          obtain rfl := hd (by rw [hasDest, ho, hvoid]; rfl)
          rw [hvoid] at hcall
          exact hcall
  | getElementPtr ho hops hv hvs =>
      obtain rfl := hd (by rw [hasDest, ho])
      exact .getElementPtr ho hops (hL _ _ hv) (hvs.imp hL)
  | ptrToInt ho hops hv =>
      obtain rfl := hd (by rw [hasDest, ho])
      exact .ptrToInt ho hops (hL _ _ hv)
  | intToPtr ho hops hv =>
      obtain rfl := hd (by rw [hasDest, ho])
      exact .intToPtr ho hops (hL _ _ hv)
  | bitCast ho hops hv =>
      obtain rfl := hd (by rw [hasDest, ho])
      exact .bitCast ho hops (hL _ _ hv)
  | add ho hops hv hw =>
      obtain rfl := hd (by rw [hasDest, ho])
      exact .add ho hops (hL _ _ hv) (hL _ _ hw)
  | sub ho hops hv hw =>
      obtain rfl := hd (by rw [hasDest, ho])
      exact .sub ho hops (hL _ _ hv) (hL _ _ hw)
  | store ho hops hv hw => exact .store ho hops (hL _ _ hv) (hL _ _ hw)
  | load ho hops hv =>
      obtain rfl := hd (by rw [hasDest, ho])
      exact .load ho hops (hL _ _ hv)
  | fence ho hops => exact .fence ho hops
  | phi ho hin =>
      obtain rfl := hd (hasDest_other ho (by decide))
      refine .phi ho (hin.imp ?_)
      rintro v y ⟨hv, n, hn⟩
      exact ⟨hL _ _ hv, n, hT _ _ hn⟩
  | landingPad ho =>
      obtain rfl := hd (hasDest_other ho (by decide))
      exact .landingPad ho
  | catchPad ho hlast hv hlen hargs =>
      obtain rfl := hd (hasDest_other ho (by decide))
      exact .catchPad ho hlast (hL _ _ hv) hlen (hargs.imp hL)
  | cleanupPad ho hfirst hv hlen hargs =>
      obtain rfl := hd (hasDest_other ho (by decide))
      exact .cleanupPad ho hfirst (hL _ _ hv) hlen (hargs.imp hL)
  | other ho hplain hlen hops =>
      obtain rfl := hd (hasDest_other ho (ne_fence_of_isPlain hplain))
      exact .other ho hplain hlen (hops.imp hL)

theorem TermAs.imp (hL : ∀ v y, L v y → L' v y) (hT : ∀ b n, T b n → T' b n) {r r' : Name}
    {t : LlvmTerm V B} (hr : termHasResult t = true → r = r') {x : Terminator}
    (h : TermAs L T r t x) : TermAs L' T' r' t x := by
  cases h with
  | retVoid ho hops => exact .retVoid ho hops
  | ret ho hops hv => exact .ret ho hops (hL _ _ hv)
  | br ho hops hb => exact .br ho hops (hT _ _ hb)
  | condBr ho hops hv h₁ h₂ => exact .condBr ho hops (hL _ _ hv) (hT _ _ h₁) (hT _ _ h₂)
  | switch ho hop hv hsucc hb hbs =>
      exact .switch ho hop (hL _ _ hv) hsucc (hT _ _ hb) (hbs.imp hT)
  | indirectBr ho hop hv hbs => exact .indirectBr ho hop (hL _ _ hv) (hbs.imp hT)
  | invoke ho hf hlen hargs hn hunwind hn' =>
      obtain rfl := hr (by rw [termHasResult, ho])
      exact .invoke ho (CalleeAs.imp hL hf) hlen (hargs.imp hL) (hT _ _ hn) hunwind (hT _ _ hn')
  | resume ho hops hv => exact .resume ho hops (hL _ _ hv)
  | unreachable ho hops => exact .unreachable ho hops
  | cleanupRet ho hops hv hunwind => exact .cleanupRet ho hops (hL _ _ hv) hunwind
  | cleanupRetUnwind ho hops hv hunwind hb =>
      exact .cleanupRetUnwind ho hops (hL _ _ hv) hunwind (hT _ _ hb)
  | catchRet ho hop hv hsucc hb => exact .catchRet ho hop (hL _ _ hv) hsucc (hT _ _ hb)
  | catchSwitch ho hop hv hbs hunwind =>
      obtain rfl := hr (by rw [termHasResult, ho])
      exact .catchSwitch ho hop (hL _ _ hv) (hbs.imp hT) hunwind
  | catchSwitchUnwind ho hop hv hbs hunwind hb =>
      obtain rfl := hr (by rw [termHasResult, ho])
      exact .catchSwitchUnwind ho hop (hL _ _ hv) (hbs.imp hT) hunwind (hT _ _ hb)
  | callBr ho hf hlen hargs hn =>
      obtain rfl := hr (by rw [termHasResult, ho])
      exact .callBr ho (CalleeAs.imp hL hf) hlen (hargs.imp hL) (hT _ _ hn)

theorem BlockAs.imp (hL : ∀ v y, L v y → L' v y) (hT : ∀ b n, T b n → T' b n) {σ : V → Name}
    {bb : LlvmBlock V B} {b : BasicBlock} (h : BlockAs L T σ bb b) : BlockAs L' T' σ bb b :=
  ⟨hT _ _ h.name, h.instrs.imp fun _ _ hi => InstAs.imp hL hT (fun _ => rfl) hi,
    TermAs.imp hL hT (fun _ => rfl) h.term⟩

end As

-- ── The second walk follows the first ────────────────────────────────────────────

section Walk

variable {fc : FunctionContext V B}

/-- The counter after an instruction of the second walk. -/
def afterInst (i : LlvmInst V B) (ctr : Nat) : Nat :=
  if hasDest i then (nameOrNum i.name ctr).2 else ctr

/-- The counter after a terminator of the second walk. -/
def afterTerm (t : LlvmTerm V B) (ctr : Nat) : Nat :=
  if termHasResult t then (nameOrNum t.name ctr).2 else ctr

/-- Both walks count alike: what has a name of its own is not counted, result or not. -/
theorem counter_eq {named : Bool} {s : String} (h : (!s.isEmpty || named) = true) (ctr : Nat) :
    (nameOrNum s ctr).2 = if named then (nameOrNum s ctr).2 else ctr := by
  cases named with
  | true => rfl
  | false =>
      have hs : s.isEmpty = false := by simpa using h
      rw [nameOrNum_named hs]
      rfl

theorem nameAll_cons_inst (i : LlvmInst V B) (is : List (LlvmInst V B)) (ctr : Nat) :
    nameAll (namedInsts (i :: is)) ctr =
      ((if needsName i then [(i.ref, (nameOrNum i.name ctr).1)] else []) ++
          (nameAll (namedInsts is) (afterInst i ctr)).1,
        (nameAll (namedInsts is) (afterInst i ctr)).2) := by
  cases hi : needsName i with
  | true =>
      rw [show namedInsts (i :: is) = (i.ref, i.name) :: namedInsts is from by
        rw [namedInsts, List.filter_cons_of_pos hi]
        rfl]
      rw [afterInst, ← counter_eq (needsName_eq i ▸ hi)]
      rfl
  | false =>
      have hdest : hasDest i = false := by
        rw [needsName_eq] at hi
        exact (Bool.or_eq_false_iff.mp hi).2
      rw [show namedInsts (i :: is) = namedInsts is from by
        rw [namedInsts, List.filter_cons_of_neg (by rw [hi]; exact Bool.false_ne_true)]
        rfl]
      rw [afterInst, hdest]
      rfl

theorem valueName_eq {v : V} {n : Name} (h : fc.valNames v = some n) : valueName fc v = n := by
  rw [valueName, h]
  rfl

/-- **The results of a block get the names of the first walk.** -/
theorem instructions_ok_iff {is : List (LlvmInst V B)} {ctr ctr' : Nat} {xs : List Instruction}
    (hnames : ∀ p ∈ (nameAll (namedInsts is) ctr).1, fc.valNames p.1 = some p.2) :
    instructionsFromLlvmRef fc is ctr = .ok (xs, ctr') ↔
      List.Forall₂ (fun i x => InstAs (Loads fc) (Labels fc) (valueName fc i.ref) i x) is xs ∧
        ctr' = (nameAll (namedInsts is) ctr).2 := by
  induction is generalizing ctr xs with
  | nil =>
      constructor
      · intro h
        cases h
        exact ⟨.nil, rfl⟩
      · rintro ⟨h, rfl⟩
        cases h
        rfl
  | cons i is ih =>
      rw [nameAll_cons_inst] at hnames ⊢
      have hhead : hasDest i = true → valueName fc i.ref = (nameOrNum i.name ctr).1 := by
        intro hdest
        have hneeds : needsName i = true := by rw [needsName_eq, hdest, Bool.or_true]
        rw [hneeds] at hnames
        exact valueName_eq (hnames _ List.mem_cons_self)
      have htail : ∀ p ∈ (nameAll (namedInsts is) (afterInst i ctr)).1,
          fc.valNames p.1 = some p.2 := fun p hp => hnames p (List.mem_append_right _ hp)
      rw [instructionsFromLlvmRef, bind_ok_iff]
      simp only [bind_ok_iff, pure_ok_iff]
      constructor
      · rintro ⟨⟨x, c⟩, hx, ⟨xs', c'⟩, hxs, heq⟩
        cases heq
        obtain ⟨hinst, rfl⟩ := instruction_ok hx
        obtain ⟨hinsts, hc⟩ := (ih htail).mp hxs
        exact ⟨.cons (InstAs.imp (fun _ _ h => h) (fun _ _ h => h)
          (fun hdest => (hhead hdest).symm) hinst) hinsts, hc⟩
      · rintro ⟨h, rfl⟩
        cases h with
        | cons hinst hinsts =>
            have hcode := instruction_of_as
              (InstAs.imp (fun _ _ h => h) (fun _ _ h => h) hhead hinst)
            exact ⟨_, hcode, _, (ih htail).mpr ⟨hinsts, rfl⟩, rfl⟩

theorem nameAll_term (t : LlvmTerm V B) (ctr : Nat) :
    nameAll (if termNeedsName t then [(t.ref, t.name)] else []) ctr =
      (if termNeedsName t then [(t.ref, (nameOrNum t.name ctr).1)] else [], afterTerm t ctr) := by
  cases ht : termNeedsName t with
  | true =>
      rw [afterTerm, ← counter_eq (termNeedsName_eq t ▸ ht)]
      rfl
  | false =>
      have hresult : termHasResult t = false := by
        rw [termNeedsName_eq] at ht
        exact (Bool.or_eq_false_iff.mp ht).2
      rw [afterTerm, hresult]
      rfl

/-- The first walk over a block, with the body and the terminator apart. -/
theorem firstPassNames_eq (bb : LlvmBlock V B) (ctr : Nat) :
    firstPassNames bb ctr =
      let body := nameAll (namedInsts bb.body) (nameOrNum bb.name ctr).2
      (((nameOrNum bb.name ctr).1, body.1 ++
          if termNeedsName bb.term then [(bb.term.ref, (nameOrNum bb.term.name body.2).1)] else []),
        afterTerm bb.term body.2) := by
  rw [firstPassNames, namedValues]
  simp only [nameAll_append, nameAll_term]
  rfl

/-- **The second walk over a block** ends at the counter of the first and gives every name of
    the first. -/
theorem block_ok_iff {bb : LlvmBlock V B} {ctr ctr' : Nat} {b : BasicBlock}
    (hbb : fc.bbNames bb.ref = some (firstPassNames bb ctr).1.1)
    (hnames : ∀ p ∈ (firstPassNames bb ctr).1.2, fc.valNames p.1 = some p.2) :
    blockFromLlvmRef fc bb ctr = .ok (b, ctr') ↔
      BlockAs (Loads fc) (Labels fc) (valueName fc) bb b ∧ ctr' = (firstPassNames bb ctr).2 := by
  rw [firstPassNames_eq] at hbb hnames ⊢
  have hbody := fun p hp => hnames p (List.mem_append_left _ hp)
  have hterm : termHasResult bb.term = true → valueName fc bb.term.ref = (nameOrNum bb.term.name
      (nameAll (namedInsts bb.body) (nameOrNum bb.name ctr).2).2).1 := by
    intro hresult
    have hneeds : termNeedsName bb.term = true := by
      rw [termNeedsName_eq, hresult, Bool.or_true]
    rw [hneeds] at hnames
    exact valueName_eq (hnames _ (List.mem_append_right _ List.mem_cons_self))
  simp only [blockFromLlvmRef, bind_ok_iff, pure_ok_iff, label_ok_iff, ensure_ok_iff,
    decide_eq_true_iff]
  constructor
  · rintro ⟨expected, hlabel, -, hsame, ⟨xs, c⟩, hxs, ⟨t, c'⟩, ht, heq⟩
    cases heq
    obtain ⟨hinsts, rfl⟩ := (instructions_ok_iff hbody).mp hxs
    obtain ⟨htas, rfl⟩ := terminator_ok ht
    exact ⟨⟨hsame ▸ hlabel, hinsts, TermAs.imp (fun _ _ h => h) (fun _ _ h => h)
      (fun hresult => (hterm hresult).symm) htas⟩, rfl⟩
  · rintro ⟨⟨hname, hinsts, htas⟩, rfl⟩
    have hown : b.name = (nameOrNum bb.name ctr).1 := Option.some.inj (hname.symm.trans hbb)
    have hcode := terminator_of_as (TermAs.imp (fun _ _ h => h) (fun _ _ h => h) hterm htas)
    refine ⟨_, hbb, (), rfl, _, (instructions_ok_iff hbody).mpr ⟨hinsts, rfl⟩, _, hcode, ?_⟩
    rw [← hown]
    rfl

/-- The second walk over all blocks. -/
theorem blocks_ok_iff {bbs : List (LlvmBlock V B)} {ctr : Nat} {bs : List BasicBlock}
    (hbbs : ∀ r ∈ bbresults bbs ctr, fc.bbNames r.1 = some r.2.1)
    (hnames : ∀ r ∈ bbresults bbs ctr, ∀ p ∈ r.2.2, fc.valNames p.1 = some p.2) :
    (∃ ctr', blocksFromLlvmRef fc bbs ctr = .ok (bs, ctr')) ↔
      List.Forall₂ (BlockAs (Loads fc) (Labels fc) (valueName fc)) bbs bs := by
  induction bbs generalizing ctr bs with
  | nil =>
      constructor
      · rintro ⟨ctr', h⟩
        cases h
        exact .nil
      · intro h
        cases h
        exact ⟨ctr, rfl⟩
  | cons bb bbs ih =>
      have hbb := hbbs _ List.mem_cons_self
      have hvals := hnames _ List.mem_cons_self
      have hbbs' := fun r hr => hbbs r (List.mem_cons_of_mem _ hr)
      have hnames' := fun r hr => hnames r (List.mem_cons_of_mem _ hr)
      simp only [blocksFromLlvmRef, bind_ok_iff, pure_ok_iff]
      constructor
      · rintro ⟨ctr', ⟨b, c⟩, hb, ⟨bs', c'⟩, hbs, heq⟩
        cases heq
        obtain ⟨hbas, rfl⟩ := (block_ok_iff hbb hvals).mp hb
        exact .cons hbas ((ih hbbs' hnames').mp ⟨c', hbs⟩)
      · intro h
        cases h with
        | cons hbas hbs =>
            obtain ⟨c', hbs⟩ := (ih hbbs' hnames').mpr hbs
            exact ⟨c', _, (block_ok_iff hbb hvals).mpr ⟨hbas, rfl⟩, _, hbs, rfl⟩

end Walk

-- ── All names of a function ──────────────────────────────────────────────────────

/-- The objects of a block that get a name, in order: the block, its results, its terminator. -/
def blockSymbols (bb : LlvmBlock V B) : List ((V ⊕ B) × String) :=
  (.inr bb.ref, bb.name) :: (namedValues bb).map (Prod.map Sum.inl id)

/-- The objects of a function that get a name. -/
def symbols (f : LlvmFunction V B) : List ((V ⊕ B) × String) :=
  f.params.map (Prod.map Sum.inl id) ++ f.blocks.flatMap blockSymbols

/-- LLVM's references are distinct. -/
def RefsUnique (f : LlvmFunction V B) : Prop := ((symbols f).map Prod.fst).Nodup

/-- The names of the first walk. -/
def allNames (f : LlvmFunction V B) : List ((V ⊕ B) × Name) := (nameAll (symbols f) 0).1

/-- The value is a parameter, or an instruction that has a name. -/
def Defines (f : LlvmFunction V B) (v : V) : Prop := Sum.inl v ∈ (symbols f).map Prod.fst

/-- The block belongs to the function. -/
def HasBlock (f : LlvmFunction V B) (b : B) : Prop := Sum.inr b ∈ (symbols f).map Prod.fst

theorem nameAll_blockSymbols (bb : LlvmBlock V B) (ctr : Nat) :
    nameAll (blockSymbols bb) ctr =
      ((.inr bb.ref, (firstPassNames bb ctr).1.1) ::
        (firstPassNames bb ctr).1.2.map (Prod.map Sum.inl id), (firstPassNames bb ctr).2) := by
  rw [blockSymbols, nameAll, nameAll_map]
  rfl

theorem nameAll_blocks (bbs : List (LlvmBlock V B)) (ctr : Nat) :
    (nameAll (bbs.flatMap blockSymbols) ctr).1 =
      (bbresults bbs ctr).flatMap fun r =>
        (.inr r.1, r.2.1) :: r.2.2.map (Prod.map Sum.inl id) := by
  induction bbs generalizing ctr with
  | nil => rfl
  | cons bb bbs ih =>
      rw [List.flatMap_cons, nameAll_append, nameAll_blockSymbols]
      show _ = List.flatMap _ ((bb.ref, (firstPassNames bb ctr).1.1, (firstPassNames bb ctr).1.2) ::
        bbresults bbs (firstPassNames bb ctr).2)
      rw [List.flatMap_cons, ih]

theorem allNames_eq (f : LlvmFunction V B) :
    allNames f = (nameAll f.params 0).1.map (Prod.map Sum.inl id) ++
      (bbresults f.blocks (nameAll f.params 0).2).flatMap fun r =>
        (.inr r.1, r.2.1) :: r.2.2.map (Prod.map Sum.inl id) := by
  rw [allNames, symbols, nameAll_append, nameAll_map, nameAll_blocks]

theorem allNames_keys (f : LlvmFunction V B) :
    (allNames f).map Prod.fst = (symbols f).map Prod.fst := nameAll_keys _ _

/-- The pairs of `bb_names`. -/
def bbPairs (f : LlvmFunction V B) : List (B × Name) :=
  (bbresults f.blocks (nameAll f.params 0).2).map fun r => (r.1, r.2.1)

/-- The pairs of `val_names`. -/
def valPairs (f : LlvmFunction V B) : List (V × Name) :=
  (bbresults f.blocks (nameAll f.params 0).2).flatMap (fun r => r.2.2) ++ (nameAll f.params 0).1

theorem inl_mem_map {l : List (V × Name)} {v : V} {n : Name} :
    ((Sum.inl v : V ⊕ B), n) ∈ l.map (Prod.map Sum.inl id) ↔ (v, n) ∈ l := by
  constructor
  · intro h
    obtain ⟨⟨v', n'⟩, hmem, heq⟩ := List.mem_map.mp h
    cases heq
    exact hmem
  · exact fun h => List.mem_map.mpr ⟨(v, n), h, rfl⟩

theorem inr_not_mem_map {l : List (V × Name)} {b : B} {n : Name} :
    ((Sum.inr b : V ⊕ B), n) ∉ l.map (Prod.map Sum.inl id) := by
  intro h
  obtain ⟨p, -, heq⟩ := List.mem_map.mp h
  cases heq

theorem mem_bbPairs {f : LlvmFunction V B} {b : B} {n : Name} :
    (b, n) ∈ bbPairs f ↔ (Sum.inr b, n) ∈ allNames f := by
  rw [allNames_eq, bbPairs, List.mem_append, or_iff_right inr_not_mem_map, List.mem_map,
    List.mem_flatMap]
  refine exists_congr fun r => and_congr_right fun _ => ?_
  rw [List.mem_cons, or_iff_left inr_not_mem_map, Prod.mk.injEq, Prod.mk.injEq, Sum.inr.injEq]
  exact and_congr eq_comm eq_comm

theorem mem_valPairs {f : LlvmFunction V B} {v : V} {n : Name} :
    (v, n) ∈ valPairs f ↔ (Sum.inl v, n) ∈ allNames f := by
  rw [allNames_eq, valPairs, List.mem_append, List.mem_append, or_comm, inl_mem_map,
    List.mem_flatMap, List.mem_flatMap]
  refine or_congr_right (exists_congr fun r => and_congr_right fun _ => ?_)
  rw [List.mem_cons, inl_mem_map]
  constructor
  · exact Or.inr
  · rintro (heq | hmem)
    · cases heq
    · exact hmem

theorem filterMap_getRight_inl (l : List (V × Name)) :
    ((l.map (Prod.map (Sum.inl (β := B)) id)).map Prod.fst).filterMap Sum.getRight? = [] := by
  rw [List.filterMap_eq_nil_iff]
  intro k hk
  obtain ⟨x, hx, rfl⟩ := List.mem_map.mp hk
  obtain ⟨p, -, rfl⟩ := List.mem_map.mp hx
  rfl

theorem filterMap_getLeft_inl (l : List (V × Name)) :
    ((l.map (Prod.map (Sum.inl (β := B)) id)).map Prod.fst).filterMap Sum.getLeft? =
      l.map Prod.fst := by
  rw [List.map_map, List.filterMap_map]
  exact congrFun (List.filterMap_eq_map (f := Prod.fst)) l

theorem filterMap_getRight_results (rs : List (B × Name × List (V × Name))) :
    ((rs.flatMap fun r => (Sum.inr r.1, r.2.1) :: r.2.2.map (Prod.map Sum.inl id)).map
      Prod.fst).filterMap Sum.getRight? = rs.map fun r => r.1 := by
  induction rs with
  | nil => rfl
  | cons r rs ih =>
      rw [List.flatMap_cons, List.map_append, List.filterMap_append, ih]
      show r.1 :: ((r.2.2.map (Prod.map Sum.inl id)).map Prod.fst).filterMap Sum.getRight? ++
        rs.map (fun r => r.1) = _
      rw [filterMap_getRight_inl]
      rfl

theorem filterMap_getLeft_results (rs : List (B × Name × List (V × Name))) :
    ((rs.flatMap fun r => (Sum.inr r.1, r.2.1) :: r.2.2.map (Prod.map Sum.inl id)).map
      Prod.fst).filterMap Sum.getLeft? = (rs.flatMap fun r => r.2.2).map Prod.fst := by
  induction rs with
  | nil => rfl
  | cons r rs ih =>
      rw [List.flatMap_cons, List.map_append, List.filterMap_append, ih]
      show ((r.2.2.map (Prod.map Sum.inl id)).map Prod.fst).filterMap Sum.getLeft? ++ _ = _
      rw [filterMap_getLeft_inl, List.flatMap_cons, List.map_append]

theorem bbPairs_nodup {f : LlvmFunction V B} (h : RefsUnique f) :
    ((bbPairs f).map Prod.fst).Nodup := by
  have hkeys : (bbPairs f).map Prod.fst = ((allNames f).map Prod.fst).filterMap Sum.getRight? := by
    rw [allNames_eq, List.map_append, List.filterMap_append, filterMap_getRight_inl,
      filterMap_getRight_results, bbPairs, List.map_map]
    rfl
  rw [hkeys, allNames_keys]
  refine List.Nodup.filterMap ?_ h
  intro k k' b hk hk'
  rw [Option.mem_def, Sum.getRight?_eq_some_iff] at hk hk'
  rw [hk, hk']

theorem valPairs_nodup {f : LlvmFunction V B} (h : RefsUnique f) :
    ((valPairs f).map Prod.fst).Nodup := by
  have hkeys : (nameAll f.params 0).1.map Prod.fst ++
      ((bbresults f.blocks (nameAll f.params 0).2).flatMap fun r => r.2.2).map Prod.fst =
        ((allNames f).map Prod.fst).filterMap Sum.getLeft? := by
    rw [allNames_eq, List.map_append, List.filterMap_append, filterMap_getLeft_inl,
      filterMap_getLeft_results]
  rw [valPairs, List.map_append, List.nodup_append_comm, hkeys, allNames_keys]
  refine List.Nodup.filterMap ?_ h
  intro k k' v hk hk'
  rw [Option.mem_def, Sum.getLeft?_eq_some_iff] at hk hk'
  rw [hk, hk']

-- ── The renaming ─────────────────────────────────────────────────────────────────

section Function

variable [DecidableEq V] [DecidableEq B]

/-- The maps of the second walk answer with the names of the first. -/
theorem valNames_iff {f : LlvmFunction V B} (h : RefsUnique f) {v : V} {n : Name} :
    (functionContext f).valNames v = some n ↔ (Sum.inl v, n) ∈ allNames f := by
  rw [← mem_valPairs]
  exact collect_eq_some (valPairs_nodup h)

theorem bbNames_iff {f : LlvmFunction V B} (h : RefsUnique f) {b : B} {n : Name} :
    (functionContext f).bbNames b = some n ↔ (Sum.inr b, n) ∈ allNames f := by
  rw [← mem_bbPairs]
  exact collect_eq_some (bbPairs_nodup h)

/-- An operand under a renaming: a constant and metadata stay, a value that `f` defines becomes
    its name. -/
inductive OperandAs (f : LlvmFunction V B) (σ : V → Name) : LlvmValue V B → Operand → Prop where
  | constant (c : Constant) : OperandAs f σ (.constant c) (.constantOperand c)
  | metadata : OperandAs f σ .metadata .metadataOperand
  | value {v : V} (hv : Defines f v) (ty : IrType) :
      OperandAs f σ (.value v ty) (.localOperand (σ v) ty)

/-- A label under a renaming. -/
structure LabelAs (f : LlvmFunction V B) (β : B → Name) (b : B) (n : Name) : Prop where
  block : HasBlock f b
  name  : n = β b

/-- The loaded function is LLVM's with `σ` for values and `β` for blocks. -/
structure Renamed (f : LlvmFunction V B) (σ : V → Name) (β : B → Name) (F : Function) : Prop where
  name       : F.name = f.name
  parameters : F.parameters = f.params.map fun p => σ p.1
  blocks     : List.Forall₂ (BlockAs (OperandAs f σ) (LabelAs f β) σ) f.blocks F.basicBlocks

/-- No two values, no two blocks and no value and block have the same name. -/
structure NamesApart (f : LlvmFunction V B) (σ : V → Name) (β : B → Name) : Prop where
  values : ∀ u v, Defines f u → Defines f v → σ u = σ v → u = v
  blocks : ∀ b c, HasBlock f b → HasBlock f c → β b = β c → b = c
  apart  : ∀ v b, Defines f v → HasBlock f b → σ v ≠ β b

/-- The name the maps have for a block. -/
def blockName (fc : FunctionContext V B) (b : B) : Name := (fc.bbNames b).getD (.number 0)

theorem defines_iff {f : LlvmFunction V B} (h : RefsUnique f) {v : V} :
    Defines f v ↔ (Sum.inl v, valueName (functionContext f) v) ∈ allNames f := by
  constructor
  · intro hv
    rw [Defines, ← allNames_keys] at hv
    obtain ⟨⟨k, n⟩, hmem, rfl⟩ := List.mem_map.mp hv
    rw [valueName_eq ((valNames_iff h).mpr hmem)]
    exact hmem
  · intro hmem
    rw [Defines, ← allNames_keys]
    exact List.mem_map.mpr ⟨_, hmem, rfl⟩

theorem hasBlock_iff {f : LlvmFunction V B} (h : RefsUnique f) {b : B} :
    HasBlock f b ↔ (Sum.inr b, blockName (functionContext f) b) ∈ allNames f := by
  constructor
  · intro hb
    rw [HasBlock, ← allNames_keys] at hb
    obtain ⟨⟨k, n⟩, hmem, rfl⟩ := List.mem_map.mp hb
    rw [blockName, (bbNames_iff h).mpr hmem]
    exact hmem
  · intro hmem
    rw [HasBlock, ← allNames_keys]
    exact List.mem_map.mpr ⟨_, hmem, rfl⟩

/-- The code's lookup of an operand is the renaming. -/
theorem loads_iff {f : LlvmFunction V B} (h : RefsUnique f) {v : LlvmValue V B} {y : Operand} :
    Loads (functionContext f) v y ↔ OperandAs f (valueName (functionContext f)) v y := by
  cases v with
  | constant c =>
      constructor
      · intro hv
        cases hv
        exact .constant c
      · intro hv
        cases hv
        rfl
  | metadata =>
      constructor
      · intro hv
        cases hv
        exact .metadata
      · intro hv
        cases hv
        rfl
  | block b =>
      constructor
      · intro hv
        cases hv
      · intro hv
        cases hv
  | value v ty =>
      rw [Loads, operandFromLlvmRef, bind_ok_iff]
      simp only [need_ok_iff, pure_ok_iff]
      constructor
      · rintro ⟨n, hn, rfl⟩
        rw [← valueName_eq hn]
        refine .value ?_ ty
        rw [defines_iff h, valueName_eq hn]
        exact (valNames_iff h).mp hn
      · intro hv
        cases hv with
        | value hdef => exact ⟨_, (valNames_iff h).mpr ((defines_iff h).mp hdef), rfl⟩

theorem labels_iff {f : LlvmFunction V B} (h : RefsUnique f) {b : B} {n : Name} :
    Labels (functionContext f) b n ↔ LabelAs f (blockName (functionContext f)) b n := by
  constructor
  · intro hb
    have hname : blockName (functionContext f) b = n := by
      rw [blockName, show (functionContext f).bbNames b = some n from hb]
      rfl
    refine ⟨?_, hname.symm⟩
    rw [hasBlock_iff h, hname]
    exact (bbNames_iff h).mp hb
  · rintro ⟨hblock, rfl⟩
    exact (bbNames_iff h).mpr ((hasBlock_iff h).mp hblock)

/-- Distinct symbols give distinct names. -/
theorem namesApart {f : LlvmFunction V B} (hrefs : RefsUnique f)
    (hstrings : StringsUnique (symbols f)) :
    NamesApart f (valueName (functionContext f)) (blockName (functionContext f)) := by
  have hinj : ∀ {k k' : V ⊕ B} {n : Name}, (k, n) ∈ allNames f → (k', n) ∈ allNames f →
      k = k' := by
    intro k k' n hk hk'
    have heq := List.inj_on_of_nodup_map (nameAll_nodup hstrings 0) hk hk' rfl
    exact congrArg Prod.fst heq
  constructor
  · intro u v hu hv heq
    rw [defines_iff hrefs] at hu hv
    rw [heq] at hu
    exact Sum.inl.inj (hinj hu hv)
  · intro b c hb hc heq
    rw [hasBlock_iff hrefs] at hb hc
    rw [heq] at hb
    exact Sum.inr.inj (hinj hb hc)
  · intro v b hv hb heq
    rw [defines_iff hrefs] at hv
    rw [hasBlock_iff hrefs] at hb
    rw [heq] at hv
    cases hinj hv hb

/-- The loader as a renaming by the maps of its first walk. -/
theorem function_ok_iff {f : LlvmFunction V B} (hrefs : RefsUnique f) {F : Function} :
    functionFromLlvmRef f = .ok F ↔
      Renamed f (valueName (functionContext f)) (blockName (functionContext f)) F := by
  have hresults : ∀ r ∈ bbresults f.blocks (nameAll f.params 0).2,
      (functionContext f).bbNames r.1 = some r.2.1 := by
    intro r hr
    rw [bbNames_iff hrefs, ← mem_bbPairs]
    exact List.mem_map.mpr ⟨r, hr, rfl⟩
  have hvalues : ∀ r ∈ bbresults f.blocks (nameAll f.params 0).2, ∀ p ∈ r.2.2,
      (functionContext f).valNames p.1 = some p.2 := by
    intro r hr p hp
    rw [valNames_iff hrefs, ← mem_valPairs]
    exact List.mem_append_left _ (List.mem_flatMap.mpr ⟨r, hr, hp⟩)
  have hparams : (nameAll f.params 0).1.map Prod.snd =
      f.params.map fun p => valueName (functionContext f) p.1 := by
    have hmap : ∀ p ∈ (nameAll f.params 0).1,
        p.2 = valueName (functionContext f) p.1 := by
      intro p hp
      refine (valueName_eq ?_).symm
      rw [valNames_iff hrefs, ← mem_valPairs]
      exact List.mem_append_right _ hp
    have hkeys := congrArg (List.map (valueName (functionContext f))) (nameAll_keys f.params 0)
    rw [List.map_map, List.map_map] at hkeys
    rw [List.map_congr_left hmap]
    exact hkeys
  have hblocks : ∀ {bs}, List.Forall₂ (BlockAs (Loads (functionContext f))
      (Labels (functionContext f)) (valueName (functionContext f))) f.blocks bs ↔
      List.Forall₂ (BlockAs (OperandAs f (valueName (functionContext f)))
        (LabelAs f (blockName (functionContext f))) (valueName (functionContext f)))
        f.blocks bs := by
    intro bs
    constructor
    · exact fun h => h.imp fun _ _ hb => BlockAs.imp (fun _ _ => (loads_iff hrefs).mp)
        (fun _ _ => (labels_iff hrefs).mp) hb
    · exact fun h => h.imp fun _ _ hb => BlockAs.imp (fun _ _ => (loads_iff hrefs).mpr)
        (fun _ _ => (labels_iff hrefs).mpr) hb
  rw [functionFromLlvmRef, bind_ok_iff]
  simp only [pure_ok_iff]
  constructor
  · rintro ⟨⟨bs, c⟩, hbs, rfl⟩
    exact ⟨rfl, hparams, hblocks.mp ((blocks_ok_iff hresults hvalues).mp ⟨c, hbs⟩)⟩
  · rintro ⟨hname, hps, hbs⟩
    obtain ⟨c, hcode⟩ := (blocks_ok_iff hresults hvalues).mpr (hblocks.mpr hbs)
    refine ⟨_, hcode, ?_⟩
    rw [hparams, ← hname, ← hps]

/-- **Loading is renaming.**  For every function there is one naming of its values and blocks,
    with no name given twice, such that the loader returns exactly the function under that
    naming, and panics iff it has no such form: a reference to something the function does not
    define, or a number of operands the loader asserts against. -/
theorem function_loads_iff (f : LlvmFunction V B) (hrefs : RefsUnique f)
    (hstrings : StringsUnique (symbols f)) :
    ∃ σ β, NamesApart f σ β ∧ ∀ F, functionFromLlvmRef f = .ok F ↔ Renamed f σ β F :=
  ⟨_, _, namesApart hrefs hstrings, fun _ => function_ok_iff hrefs⟩

/-- `define i64 @count(i64 %0)`: an entry without a name, and a block that loops on a phi. -/
def countFn : LlvmFunction Nat Nat where
  name := "count"
  params := [(0, "")]
  blocks := [
    ⟨0, "", [inst 1 "" .add [.value 0 i64, .constant (.int 64 1)] []],
      term 2 .br [.block 1]⟩,
    ⟨1, "loop", [
        inst 3 "acc" (.other .phi) [] [(.value 1 i64, 0), (.value 4 i64, 1)],
        inst 4 "" .sub [.value 3 i64, .constant (.int 64 1)] [],
        inst 5 "" (.other .iCmp) [.value 4 i64, .value 0 i64] []],
      term 6 .br [.value 5 (.integerType 1), .block 1, .block 2]⟩,
    ⟨2, "", [], term 7 .ret [.value 3 i64]⟩]
where
  i64 : IrType := .integerType 64
  inst (ref : Nat) (name : String) (opcode : LlvmOpcode) (operands : List (LlvmValue Nat Nat))
      (incoming : List (LlvmValue Nat Nat × Nat)) : LlvmInst Nat Nat :=
    ⟨ref, name, opcode, operands, i64, i64, .inlineAsm "", 0, false, incoming⟩
  term (ref : Nat) (opcode : LlvmTermOpcode) (operands : List (LlvmValue Nat Nat)) :
      LlvmTerm Nat Nat :=
    ⟨ref, "", opcode, operands, [], .inlineAsm "", 0, 0, none, []⟩

theorem countFn_renamed :
    ∃ σ β, NamesApart countFn σ β ∧
      ∀ F, functionFromLlvmRef countFn = .ok F ↔ Renamed countFn σ β F :=
  function_loads_iff countFn (by unfold RefsUnique; decide) (by unfold StringsUnique; decide)

end Function

end SkvLoadedFunction

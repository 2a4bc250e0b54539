import SentinelKv.SkvScopeProofs

/-!
# Spilling a pointer is transparent

Compiled without optimisation, a driver keeps its pointers in stack slots: a pointer is stored
into an `alloca` and loaded back under another name before it is used.  `alloca_names` and
`alloca_store_map` are there to follow it.

`SpilledFunction p a q f f'` says that `f'` is `f` with the result `p` spilled into the fresh
slot `a` and reloaded as `q`, and any of the later pointer uses of `p` replaced by `q`.  The two
runs then go **`Alongside`** each other: same tables, same answers for all old names, and `q`
answered where the original asks for `p`.

* **`spillCode_alongside`** — the three instructions start it;
* **`Alongside.step`** — each later instruction keeps it;
* **`spill_transparent`** — the result and the counters are the same.
-/

namespace SkvSpill

open SkvIr SkvGate SkvAnalyze SkvTransfer SkvPlan SkvHitl SkvLookup SkvOffMode SkvIrq SkvPaths
  SkvScope

-- ── The transformation ───────────────────────────────────────────────────────────

/-- `a = alloca ptr; store p, a; q = load ptr, a`. -/
def spillCode (p a q : Name) : List Instruction := [
  .alloca a,
  .store (.localOperand a .pointerType) (.localOperand p .pointerType),
  .load (.localOperand a .pointerType) .pointerType q]

/-- The operands that are not pointers. -/
def integerOperands : Instruction → List Operand
  | .getElementPtr g => g.indices
  | .intToPtr op _ _ => [op]
  | .add op0 op1 _ => [op0, op1]
  | .sub op0 op1 _ => [op0, op1]
  | _ => []

/-- `q` stands in pointer operands only. -/
structure PointerUses (q : Name) (i : Instruction) : Prop where
  result   : i.tryGetResult ≠ some q
  integers : q ∉ (integerOperands i).filterMap operandLocalName

instance (q : Name) (i : Instruction) : Decidable (PointerUses q i) :=
  decidable_of_iff (i.tryGetResult ≠ some q ∧ q ∉ (integerOperands i).filterMap operandLocalName)
    ⟨fun h => ⟨h.1, h.2⟩, fun h => ⟨h.result, h.integers⟩⟩

/-- `f'` is `f` with the spill code inserted after the definition of `p`, and in what follows
    some pointer uses of `p` replaced: with `q` turned back into `p` it is the original. -/
inductive SpilledFunction (p a q : Name) : Function → Function → Prop
  | intro (name : String) (parameters : List Name) (bs₁ : List BasicBlock) (label : Name)
      (is₁ : List Instruction) (i : Instruction) (is₂ : List Instruction) (term : Terminator)
      (bs₂ : List BasicBlock) :
      i.tryGetResult = some p →
      (∀ j ∈ is₂ ++ bs₂.flatMap BasicBlock.instrs, PointerUses q j) →
      SpilledFunction p a q
        ⟨name, parameters, bs₁ ++
          ⟨label, is₁ ++ i :: is₂.map (renameInstr (renameOne q p)),
            renameTerminator (renameOne q p) term⟩ :: bs₂.map (renameBlock (renameOne q p))⟩
        ⟨name, parameters, bs₁ ++
          ⟨label, is₁ ++ i :: (spillCode p a q ++ is₂), term⟩ :: bs₂⟩

/-- In listing order: a common part that defines `p`, the spill code, and the rest. -/
theorem SpilledFunction.flat {p a q : Name} {f f' : Function} (h : SpilledFunction p a q f f') :
    f'.name = f.name ∧ ∃ l₁ l₂, p ∈ results l₁ ∧ (∀ j ∈ l₂, PointerUses q j)
      ∧ f.instrs = l₁ ++ l₂.map (renameInstr (renameOne q p))
      ∧ f'.instrs = l₁ ++ (spillCode p a q ++ l₂) := by
  obtain ⟨name, parameters, bs₁, label, is₁, i, is₂, term, bs₂, hp, huses⟩ := h
  refine ⟨rfl, bs₁.flatMap BasicBlock.instrs ++ (is₁ ++ [i]),
    is₂ ++ bs₂.flatMap BasicBlock.instrs, ?_, huses, ?_, ?_⟩
  · exact List.mem_filterMap.mpr ⟨i, by simp, hp⟩
  · simp [Function.instrs, renameBlock, List.flatMap_map, List.map_flatMap]
  · simp [Function.instrs]

/-- The spill code calls nothing. -/
theorem SpilledFunction.irqView_eq {p a q : Name} {f f' : Function}
    (h : SpilledFunction p a q f f') : irqView f' = irqView f := by
  obtain ⟨hname, l₁, l₂, -, -, hinstrs, hinstrs'⟩ := h.flat
  rw [irqView, irqView, hname, hinstrs, hinstrs', List.filterMap_append, List.filterMap_append,
    List.filterMap_append, irqCalls_rename]
  rfl

-- ── Renamed instructions ─────────────────────────────────────────────────────────

theorem tryGetResult_rename (ρ : Name → Name) (i : Instruction) :
    (renameInstr ρ i).tryGetResult = i.tryGetResult.map ρ := by
  cases i <;> rfl

theorem uses_rename (ρ : Name → Name) (i : Instruction) :
    (renameInstr ρ i).uses = i.uses.map ρ := by
  have hops : (renameInstr ρ i).operands = i.operands.map (renameOperand ρ) := by
    cases i <;> rfl
  rw [Instruction.uses, Instruction.uses, hops, List.filterMap_map, List.map_filterMap]
  exact List.filterMap_congr (fun op _ => operandLocalName_rename ρ op)

theorem renameOne_self (q p : Name) : renameOne q p q = p := if_pos rfl

theorem renameOne_of_ne {q p n : Name} (h : n ≠ q) : renameOne q p n = n := if_neg h

/-- `int_env` is asked about integer operands only. -/
theorem looks_int {dma : DmaPolicy} {i : Instruction} {n : Name}
    (h : (LookKind.int, n) ∈ looks dma i) :
    n ∈ (integerOperands i).filterMap operandLocalName := by
  have hlook : ∀ {kind : LookKind} {op : Operand}, (LookKind.int, n) ∈ look kind op →
      kind = .int ∧ operandLocalName op = some n := by
    intro kind op hx
    rw [look, Option.mem_toList] at hx
    obtain ⟨n', hn, heq⟩ := Option.map_eq_some_iff.mp hx
    obtain ⟨rfl, rfl⟩ := Prod.mk.inj heq
    exact ⟨rfl, hn⟩
  have hnot : ∀ {kind : LookKind} {op : Operand}, kind ≠ .int → (LookKind.int, n) ∉ look kind op :=
    fun hkind hx => hkind (hlook hx).1
  have hptr : ∀ {op : Operand}, (LookKind.int, n) ∉ look .ptr op := hnot (by decide)
  cases i with
  | alloca dest => cases h
  | other opcode operands dest => cases h
  | call c =>
      simp only [looks, callLooks] at h
      split at h
      case h_5 => cases h
      all_goals
        obtain ⟨op, -, hx⟩ := List.mem_flatMap.mp h
        exact absurd hx hptr
  | getElementPtr g =>
      rcases List.mem_append.mp h with hx | hx
      · exact absurd hx hptr
      · exact absurd hx (hnot (by decide))
  | ptrToInt op ty dest => exact absurd h hptr
  | bitCast op ty dest => exact absurd h hptr
  | intToPtr op ty dest => exact List.mem_filterMap.mpr ⟨op, .head _, (hlook h).2⟩
  | add op0 op1 dest =>
      rcases List.mem_append.mp h with hx | hx
      · exact List.mem_filterMap.mpr ⟨op0, .head _, (hlook hx).2⟩
      · exact List.mem_filterMap.mpr ⟨op1, .tail _ (.head _), (hlook hx).2⟩
  | sub op0 op1 dest =>
      rcases List.mem_append.mp h with hx | hx
      · exact List.mem_filterMap.mpr ⟨op0, .head _, (hlook hx).2⟩
      · exact List.mem_filterMap.mpr ⟨op1, .tail _ (.head _), (hlook hx).2⟩
  | store address value =>
      rcases List.mem_append.mp h with h | hx
      · rcases List.mem_append.mp h with hx | hx
        · exact absurd hx (hnot (by decide))
        · exact absurd hx hptr
      · exact absurd hx hptr
  | load address ty dest =>
      rcases List.mem_append.mp h with h | hx
      · rcases List.mem_append.mp h with hx | hx <;> exact absurd hx (hnot (by decide))
      · exact absurd hx hptr

-- ── Names that are not slots ─────────────────────────────────────────────────────

/-- `n` is not a known stack slot and nothing is remembered for it. -/
structure NotSlot (n : Name) (t : Maps) : Prop where
  alloca : n ∉ t.allocaNames
  slot   : t.allocaStoreMap n = none

theorem NotSlot.transfer {n : Name} {t : Maps} (h : NotSlot n t) (m : Module) (dma : DmaPolicy)
    {i : Instruction} (hi : i ≠ .alloca n) : NotSlot n (transfer m dma i t) := by
  have hframe := transfer_frame m dma i t
  have halloca : allocaOf i ≠ some n := by
    intro heq
    cases i with
    | alloca dest => exact hi (congrArg Instruction.alloca (Option.some.inj heq))
    | _ => exact nomatch heq
  exact ⟨fun hmem => h.alloca ((hframe.allocas n halloca).mp hmem),
    (hframe.slot n (fun _ => h.alloca)).trans h.slot⟩

theorem NotSlot.after {n : Name} (m : Module) (dma : DmaPolicy) : ∀ (l : List Code) {t : Maps},
    (∀ c ∈ l, c.2 ≠ .alloca n) → NotSlot n t → NotSlot n (after m dma l t) := by
  intro l
  induction l with
  | nil => intro t _ h; exact h
  | cons c l ih =>
      intro t hl h
      exact ih (fun d hd => hl d (List.mem_cons_of_mem c hd))
        (h.transfer m dma (hl c List.mem_cons_self))

-- ── Two runs alongside ───────────────────────────────────────────────────────────

/-- `t` belongs to the run with the spill, `t'` to the original one. -/
structure Alongside (p a q : Name) (t t' : Maps) : Prop where
  tables   : SameTables t t'
  others   : ∀ kind n, n ≠ a → n ≠ q → SameAt kind t n t' n
  reloaded : t'.ptrEnv p = t.ptrEnv q
  old      : NotSlot p t
  new      : NotSlot q t

/-- What is known of an instruction after the spill code. -/
structure Later (p a q : Name) (i : Instruction) : Prop where
  pointers : PointerUses q i
  result   : i.tryGetResult ≠ some p
  slot     : a ∉ i.uses

section Step

variable {p a q : Name} {t t' : Maps} {i : Instruction}

theorem Alongside.looks (h : Alongside p a q t t') (hi : Later p a q i) (hpa : p ≠ a)
    (hpq : p ≠ q) (dma : DmaPolicy) : LooksSame dma (renameOne q p) i t t' := by
  intro x hx
  by_cases hq : x.2 = q
  · obtain ⟨kind, n⟩ := x
    obtain rfl : n = q := hq
    show SameAt kind t n t' (renameOne n p n)
    rw [renameOne_self]
    cases kind with
    | ptr => exact h.reloaded
    | int => exact absurd (looks_int hx) hi.pointers.integers
    | slot =>
        have hslot : t'.allocaStoreMap p = t.allocaStoreMap p := h.others .slot p hpa hpq
        exact (hslot.trans h.old.slot).trans h.new.slot.symm
    | alloca =>
        exact iff_of_false (fun hmem => h.old.alloca ((h.others .alloca p hpa hpq).mp hmem))
          h.new.alloca
  · rw [renameOne_of_ne hq]
    exact h.others x.1 x.2 (fun ha => hi.slot (ha ▸ looks_uses hx)) hq

/-- Nothing is recorded under `p` or `q` any more. -/
theorem Alongside.recorded (h : Alongside p a q t t') (hi : Later p a q i) {m : Module}
    {dma : DmaPolicy} {d : Name} (hd : d ∈ (delta m dma i t).names) : d ≠ p ∧ d ≠ q := by
  rcases delta_names hd with hresult | ⟨-, halloca⟩
  · exact ⟨fun heq => hi.result (heq ▸ hresult), fun heq => hi.pointers.result (heq ▸ hresult)⟩
  · exact ⟨fun heq => h.old.alloca (heq ▸ halloca), fun heq => h.new.alloca (heq ▸ halloca)⟩

/-- **Each later instruction keeps the runs alongside.** -/
theorem Alongside.step (h : Alongside p a q t t') (hi : Later p a q i) (hpa : p ≠ a)
    (hpq : p ≠ q) (m : Module) (dma : DmaPolicy) :
    Alongside p a q (transfer m dma i t) (transfer m dma (renameInstr (renameOne q p) i) t') := by
  have hlooks := h.looks hi hpa hpq dma
  have hrecorded : ∀ d ∈ (delta m dma i t).names, d ≠ p ∧ d ≠ q := fun d hd => h.recorded hi hd
  refine ⟨transfer_tables rfl h.tables hlooks, ?_, ?_, ?_, ?_⟩
  · intro kind n hna hnq
    refine transfer_sameAt rfl h.tables hlooks ?_ (h.others kind n hna hnq)
    intro d hd
    rw [renameOne_of_ne (hrecorded d hd).2]
  · have hptr : SameAt .ptr t q t' p := h.reloaded
    refine transfer_sameAt rfl h.tables hlooks ?_ hptr
    intro d hd
    rw [renameOne_of_ne (hrecorded d hd).2]
    exact iff_of_false (hrecorded d hd).1 (hrecorded d hd).2
  · exact h.old.transfer m dma (fun heq => hi.result (by rw [heq]; rfl))
  · exact h.new.transfer m dma (fun heq => hi.pointers.result (by rw [heq]; rfl))

/-- The rest of the function plans the same. -/
theorem Alongside.plan {e : Env} {l : List Code} (hl : ∀ c ∈ l, Later p a q c.2) (hpa : p ≠ a)
    (hpq : p ≠ q) (h : Alongside p a q t t') :
    anonPlan e (l.map (renameCode (renameOne q p))) t' = anonPlan e l t
      ∧ Alongside p a q (after e.module e.dmaPolicy l t)
          (after e.module e.dmaPolicy (l.map (renameCode (renameOne q p))) t') := by
  have hboth := anonPlan_rename (sameEnv_refl e) (ρ := renameOne q p)
    (R := fun l t t' => (∀ c ∈ l, Later p a q c.2) ∧ Alongside p a q t t')
    (fun _ _ _ hinv => hinv.2.tables) (fun c l t t' hinv => by
      have hc : Later p a q c.2 := hinv.1 c List.mem_cons_self
      refine ⟨?_, hinv.2.looks hc hpa hpq e.dmaPolicy,
        fun d hd => hinv.1 d (List.mem_cons_of_mem c hd), hinv.2.step hc hpa hpq _ _⟩
      intro d n hd _ heq
      have hdp : d ≠ p := fun h => hc.result (h ▸ hd)
      have hdq : d ≠ q := fun h => hc.pointers.result (h ▸ hd)
      rw [renameOne_of_ne hdq] at heq
      by_cases hnq : n = q
      · rw [hnq, renameOne_self] at heq
        exact absurd heq hdp
      · rwa [renameOne_of_ne hnq] at heq) l t t' ⟨hl, h⟩
  exact ⟨hboth.1, hboth.2.2⟩

end Step

-- ── The spill code ───────────────────────────────────────────────────────────────

section Code

variable {p a q : Name} {t : Maps}

/-- The slot `a` remembers where `p` points, and `q` gets it. -/
theorem spillCode_maps (name : String) (m : Module) (dma : DmaPolicy)
    (ha : t.allocaStoreMap a = none) :
    after m dma ((spillCode p a q).map (fun i => (name, i))) t
      = match t.ptrEnv p with
        | some pv =>
            { t with
              ptrEnv         := Function.update t.ptrEnv q (some pv)
              allocaNames    := insert a t.allocaNames
              allocaStoreMap := Function.update t.allocaStoreMap a (some pv) }
        | none => { t with allocaNames := insert a t.allocaNames } := by
  have hmem : a ∈ insert a t.allocaNames := Finset.mem_insert_self a _
  show (({ t with allocaNames := insert a t.allocaNames }.spill a
    (.localOperand p .pointerType)).reload a q) = _
  cases hp : t.ptrEnv p with
  | some pv =>
      simp only [Maps.spill, hmem, if_true, hp, Maps.reload, Function.update_self]
      rfl
  | none => simp only [Maps.spill, hmem, if_true, hp, Maps.reload, ha]

/-- **The spill code** starts the two runs alongside. -/
theorem spillCode_alongside (name : String) (m : Module) (dma : DmaPolicy)
    (ha : t.allocaStoreMap a = none) (hq : t.ptrEnv q = none) (hold : NotSlot p t)
    (hnew : NotSlot q t) (hpa : p ≠ a) (haq : a ≠ q) :
    Alongside p a q (after m dma ((spillCode p a q).map (fun i => (name, i))) t) t := by
  have hinsert : ∀ n, n ≠ a → n ∉ t.allocaNames → n ∉ insert a t.allocaNames := by
    intro n hna hn hmem
    exact hn ((Finset.mem_insert.mp hmem).resolve_left hna)
  rw [spillCode_maps name m dma ha]
  cases hp : t.ptrEnv p with
  | none =>
      refine ⟨⟨rfl, rfl, rfl, rfl, rfl⟩, ?_, hp.trans hq.symm, ⟨hinsert p hpa hold.alloca, hold.slot⟩,
        ⟨hinsert q haq.symm hnew.alloca, hnew.slot⟩⟩
      intro kind n hna _
      cases kind with
      | ptr => rfl
      | int => rfl
      | slot => rfl
      | alloca => exact ⟨Finset.mem_insert_of_mem,
          fun hmem => (Finset.mem_insert.mp hmem).resolve_left hna⟩
  | some pv =>
      simp only
      refine ⟨⟨rfl, rfl, rfl, rfl, rfl⟩, ?_, hp.trans (Function.update_self q (some pv) t.ptrEnv).symm,
        ⟨hinsert p hpa hold.alloca, (Function.update_of_ne hpa _ _).trans hold.slot⟩,
        ⟨hinsert q haq.symm hnew.alloca, (Function.update_of_ne haq.symm _ _).trans hnew.slot⟩⟩
      intro kind n hna hnq
      cases kind with
      | ptr => exact (Function.update_of_ne hnq _ _).symm
      | int => rfl
      | slot => exact (Function.update_of_ne hna _ _).symm
      | alloca => exact ⟨Finset.mem_insert_of_mem,
          fun hmem => (Finset.mem_insert.mp hmem).resolve_left hna⟩

/-- It has no effect on the verdict. -/
theorem spillCode_quiet (e : Env) (name : String) (ha : t.ptrEnv a = none) (haq : a ≠ q) :
    anonPlan e ((spillCode p a q).map (fun i => (name, i))) t = [] := by
  have hreload : ∀ u : Maps, u.ptrEnv a = none → (u.reload a q).ptrEnv a = none := by
    intro u hu
    unfold Maps.reload
    split
    · split
      · exact (Function.update_of_ne haq _ _).trans hu
      · exact hu
    · exact hu
  have hquiet : ∀ (u : Maps) (site : Site) (txt : AccessText) (kind : String) (ty : IrType),
      u.ptrEnv a = none → memoryEffects e site txt kind u a ty = [] := by
    intro u site txt kind ty hu
    rw [memoryEffects, hu]
    rfl
  have hspilled : ({ t with allocaNames := insert a t.allocaNames }.spill a
      (.localOperand p .pointerType)).ptrEnv a = none := by
    rw [spill_ptrEnv]
    exact ha
  simp only [anonPlan, spillCode, List.map_cons, List.map_nil, BreakLoop.planOf, effects,
    Code.site, operandLocalName_local, transfer, hquiet _ _ _ _ _ hspilled,
    hquiet _ _ _ _ _ (hreload _ hspilled), List.append_nil]

end Code

-- ── Transparency ─────────────────────────────────────────────────────────────────

/-- What follows the spill code uses `q` as a pointer, does not know `a` and does not define
    `p` a second time. -/
theorem later_of_fresh {p a q : Name} {l₁ l₂ : List Instruction} (hp : p ∈ results l₁)
    (hnodup : (results (l₁ ++ l₂.map (renameInstr (renameOne q p)))).Nodup)
    (ha : ∀ i ∈ l₂.map (renameInstr (renameOne q p)), a ∉ i.uses) (haq : a ≠ q)
    (huses : ∀ j ∈ l₂, PointerUses q j) {j : Instruction} (hj : j ∈ l₂) : Later p a q j := by
  have hmem := List.mem_map_of_mem (f := renameInstr (renameOne q p)) hj
  refine ⟨huses j hj, ?_, ?_⟩
  · intro hresult
    have hpq : p ≠ q := fun heq => (huses j hj).result (heq ▸ hresult)
    rw [results, List.filterMap_append] at hnodup
    refine List.disjoint_of_nodup_append hnodup hp (List.mem_filterMap.mpr ⟨_, hmem, ?_⟩)
    rw [tryGetResult_rename, hresult]
    exact congrArg some (renameOne_of_ne hpq)
  · intro huse
    refine ha _ hmem ?_
    rw [uses_rename]
    exact List.mem_map.mpr ⟨a, huse, renameOne_of_ne haq⟩

/-- A name that has not occurred is unbound. -/
theorem unbound_of_fresh (m : Module) (dma : DmaPolicy) {l : List Code} {n : Name}
    (h : ¬ Mentions l n) : (after m dma l Maps.empty).ptrEnv n = none
      ∧ NotSlot n (after m dma l Maps.empty) :=
  ⟨after_frame .ptr l Maps.empty h,
    fun hmem => Finset.notMem_empty n ((after_frame .alloca l Maps.empty h).mp hmem),
    after_frame .slot l Maps.empty h⟩

theorem mentions_codes {fs : List Function} {n : Name} (h : Mentions (codes fs) n) :
    ∃ g ∈ fs, n ∈ localNames g := by
  obtain ⟨c, hc, hn⟩ := h
  obtain ⟨g, hg, hc⟩ := List.mem_flatMap.mp hc
  exact ⟨g, hg, localNames_of_mentions ⟨c, hc, hn⟩⟩

/-- The plans of the two modules, as lists of instructions. -/
theorem spilled_plan (e : Env) (name : String) {p a q : Name} {start rest : List Code}
    {l : List Instruction} (hpa : p ≠ a) (hpq : p ≠ q) (haq : a ≠ q)
    (hslot : ∀ c ∈ start, c.2 ≠ .alloca p) (ha : ¬ Mentions start a) (hq : ¬ Mentions start q)
    (hl : ∀ j ∈ l, Later p a q j) (hrest : ∀ n, Mentions rest n → n ≠ a ∧ n ≠ q) :
    anonPlan e (start ++ ((spillCode p a q).map (fun i => (name, i))
        ++ (l.map (fun i => (name, i)) ++ rest))) Maps.empty
      = anonPlan e (start ++ ((l.map (fun i => (name, i))).map (renameCode (renameOne q p))
          ++ rest)) Maps.empty := by
  obtain ⟨haptr, haslot⟩ := unbound_of_fresh e.module e.dmaPolicy ha
  obtain ⟨hqptr, hqslot⟩ := unbound_of_fresh e.module e.dmaPolicy hq
  have hp : NotSlot p (after e.module e.dmaPolicy start Maps.empty) :=
    NotSlot.after _ _ start hslot ⟨Finset.notMem_empty p, rfl⟩
  have hbegin := spillCode_alongside name e.module e.dmaPolicy haslot.slot hqptr hp hqslot hpa haq
  obtain ⟨hsame, hend⟩ := hbegin.plan (e := e) (l := l.map (fun i => (name, i))) (by
    intro c hc
    obtain ⟨j, hj, rfl⟩ := List.mem_map.mp hc
    exact hl j hj) hpa hpq
  obtain ⟨hafter, -⟩ := scoped_plan (e := e) hend.tables (scoped_of_same rest _ _ hrest hend.tables
    (fun kind n hn => hend.others kind n hn.1 hn.2))
  simp only [anonPlan_append, spillCode_quiet e name haptr haq, List.nil_append, hsame, hafter]

/-- **Spilling is transparent.**  A module in which the pointer `p` goes through the fresh slot
    `a` has, in off mode, the result and the counters of the original. -/
theorem spill_transparent (m : Module) (fs₁ : List Function) (f f' : Function)
    (fs₂ : List Function) (hm : m.functions = fs₁ ++ f :: fs₂) (p a q : Name)
    (hspill : SpilledFunction p a q f f')
    (hslot : ∀ g ∈ m.functions, Instruction.alloca p ∉ g.instrs)
    (hfresh : ∀ g ∈ m.functions, a ∉ localNames g ∧ q ∉ localNames g) (haq : a ≠ q)
    (hdefs : ∀ g ∈ m.functions, (results g.instrs).Nodup) (host : Host)
    (approved approvedClasses : Finset String) (asmP : InlineAsmPolicy) (dmaP : DmaPolicy) :
    let m' := { m with functions := fs₁ ++ f' :: fs₂ }
    let out := (analyze m host (.fresh .off approved approvedClasses) asmP dmaP).1
    let out' := (analyze m' host (.fresh .off approved approvedClasses) asmP dmaP).1
    out'.result = out.result ∧ out'.inlineAsmVcs = out.inlineAsmVcs ∧ out'.dmaVcs = out.dmaVcs
      ∧ out'.irqRaceVcs = out.irqRaceVcs := by
  intro m' out out'
  obtain ⟨hname, l₁, l₂, hp, huses, hinstrs, hinstrs'⟩ := hspill.flat
  -- both modules as lists of instructions, with a common start
  let named : List Instruction → List Code := List.map (fun i => (f.name, i))
  let start := codes fs₁ ++ named l₁
  let rest := (named l₂).map (renameCode (renameOne q p)) ++ codes fs₂
  have hcodes : codes m.functions = start ++ rest := by
    rw [hm, codes_append_cons, funcCodes, hinstrs, List.map_append, List.map_map]
    simp only [start, rest, named, List.map_map, List.append_assoc]
    rfl
  have hcodes' : codes m'.functions
      = start ++ (named (spillCode p a q) ++ (named l₂ ++ codes fs₂)) := by
    rw [show m'.functions = fs₁ ++ f' :: fs₂ from rfl, codes_append_cons, funcCodes, hinstrs',
      hname, List.map_append, List.map_append]
    simp only [start, named, List.append_assoc]
  have hstart : ∀ c ∈ start, c ∈ codes m.functions := fun c hc => hcodes ▸ List.mem_append_left _ hc
  have hrest : ∀ c ∈ rest, c ∈ codes m.functions := fun c hc => hcodes ▸ List.mem_append_right _ hc
  have hnew : ∀ n, Mentions (codes m.functions) n → n ≠ a ∧ n ≠ q := by
    intro n hn
    obtain ⟨g, hg, hmem⟩ := mentions_codes hn
    exact ⟨fun heq => (hfresh g hg).1 (heq ▸ hmem), fun heq => (hfresh g hg).2 (heq ▸ hmem)⟩
  have hpnew : p ≠ a ∧ p ≠ q := by
    obtain ⟨i, hi, hresult⟩ := List.mem_filterMap.mp hp
    exact hnew p ⟨(f.name, i),
      hstart _ (List.mem_append_right _ (List.mem_map_of_mem hi)),
      List.mem_append_left _ (Option.mem_toList.mpr hresult)⟩
  have hE := sameEnv_of_irqView hm hspill.irqView_eq host asmP dmaP
  refine off_outcome_eq ?_
  rw [anonPlan_congr hE, hcodes, hcodes']
  have hbefore : ∀ n, Mentions start n → n ≠ a ∧ n ≠ q := by
    rintro n ⟨c, hc, hn⟩
    exact hnew n ⟨c, hstart c hc, hn⟩
  refine spilled_plan _ f.name hpnew.1 hpnew.2 haq ?_ (fun hn => (hbefore a hn).1 rfl)
    (fun hn => (hbefore q hn).2 rfl) ?_ ?_
  · intro c hc heq
    obtain ⟨g, hg, hc⟩ := List.mem_flatMap.mp (hstart c hc)
    obtain ⟨i, hi, rfl⟩ := List.mem_map.mp hc
    exact hslot g hg (heq ▸ hi)
  · intro j hj
    refine later_of_fresh hp (hinstrs ▸ hdefs f (hm ▸ List.mem_append_right _ List.mem_cons_self))
      ?_ haq huses hj
    intro i hi huse
    obtain ⟨j, hj, rfl⟩ := List.mem_map.mp hi
    refine (hnew a ⟨renameCode (renameOne q p) (f.name, j), hrest _ (List.mem_append_left _
      (List.mem_map_of_mem (List.mem_map_of_mem hj))), List.mem_append_right _ huse⟩).1 rfl
  · rintro n ⟨c, hc, hn⟩
    exact hnew n ⟨c, hrest c (List.mem_append_right _ hc), hn⟩

/-- What the driver does after `buf = kmalloc(16)`, with two of its uses of `buf` reloaded. -/
def probeBody : List Instruction := [
  .getElementPtr ⟨.ptr "reload", [.lit 64 8], .name "field", .integerType 8⟩,
  .store (.ptr "field") (.lit 32 7),
  .store (.ptr "buf") (.lit 32 1),
  .call (.direct "kfree" [.ptr "reload"] none)]

def probeAlloc : Instruction :=
  .call (.direct "kmalloc" [.lit 64 16, .lit 32 0] (some (.name "buf")))

/-- The driver without and with the stack slot. -/
def probeDirect : Function := Function.ofBlocks "probe" [(probeAlloc ::
  probeBody.map (renameInstr (renameOne (.name "reload") (.name "buf"))), .ret none)]

def probeSpilled : Function := Function.ofBlocks "probe" [(probeAlloc ::
  (spillCode (.name "buf") (.name "slot") (.name "reload") ++ probeBody), .ret none)]

theorem probe_spill_transparent :
    (analyze (Module.ofFunctions [probeSpilled]) (sortedHost evalSolver) (.fresh .off ∅ ∅)
        .conservative .verify).1.result
      = (analyze (Module.ofFunctions [probeDirect]) (sortedHost evalSolver) (.fresh .off ∅ ∅)
          .conservative .verify).1.result := by
  have hspill : SpilledFunction (.name "buf") (.name "slot") (.name "reload") probeDirect
      probeSpilled :=
    .intro "probe" [] [] (.number 0) [] probeAlloc probeBody (.ret none) [] rfl (by decide)
  exact (spill_transparent (Module.ofFunctions [probeDirect]) [] probeDirect probeSpilled [] rfl
    (.name "buf") (.name "slot") (.name "reload") hspill
    (by simp [Module.ofFunctions, probeDirect, Function.ofBlocks, Function.instrs, probeAlloc,
      probeBody, renameInstr])
    (by decide) (by decide) (by decide) (sortedHost evalSolver) ∅ ∅ .conservative .verify).1

end SkvSpill

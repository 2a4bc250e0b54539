import Mathlib.Data.Set.Function
import SentinelKv.SkvIrqProofs
import SentinelKv.SkvOffModeProofs
import SentinelKv.SkvPathsProofs

/-!
# Functions share the name environments

A local name means nothing outside its function, so renaming the locals of one function should
not show in the outcome.  But `analyze` creates `ptr_env`, `int_env`, `alloca_store_map` and
`alloca_names` before the loop over functions and keys them by the bare name: an entry recorded
in one function answers a lookup of the same name in the next (**`reusedName_leaks`**).

Renaming is invisible as long as no entry crosses a border of the function (**`Isolated`**):
inside it, lookups are answered as if the environments had been emptied at its start, and after
it, as if it had recorded no name.

* **`rename_isolated`** — if that is so before and after the renaming, result and counters are
  the same;
* **`isolated_of_disjoint`** — it is so for a function that shares no name with the others.
-/

namespace SkvScope

open SkvIr SkvGate SkvAnalyze SkvTransfer SkvPlan SkvHitl SkvLookup SkvOffMode SkvIrq SkvPaths

-- ── Renaming a function ──────────────────────────────────────────────────────────

/-- Rename `a` to `b`. -/
def renameOne (a b : Name) (n : Name) : Name := if n = a then b else n

def renameTerminator (ρ : Name → Name) : Terminator → Terminator
  | .ret returnOperand => .ret (returnOperand.map (renameOperand ρ))
  | .br dest => .br dest
  | .condBr condition trueDest falseDest => .condBr (renameOperand ρ condition) trueDest falseDest
  | .switch operand dests defaultDest => .switch (renameOperand ρ operand) dests defaultDest
  | .indirectBr operand possibleDests => .indirectBr (renameOperand ρ operand) possibleDests
  | .invoke function arguments result returnLabel exceptionLabel =>
      .invoke (renameCallee ρ function) (arguments.map (renameOperand ρ)) (ρ result) returnLabel
        exceptionLabel
  | .resume operand => .resume (renameOperand ρ operand)
  | .unreachable => .unreachable
  | .cleanupRet unwindDest => .cleanupRet unwindDest
  | .catchRet successor => .catchRet successor
  | .catchSwitch catchHandlers defaultUnwindDest result =>
      .catchSwitch catchHandlers defaultUnwindDest (ρ result)
  | .callBr function arguments result returnLabel =>
      .callBr (renameCallee ρ function) (arguments.map (renameOperand ρ)) (ρ result) returnLabel

def renameBlock (ρ : Name → Name) (bb : BasicBlock) : BasicBlock :=
  ⟨bb.name, bb.instrs.map (renameInstr ρ), renameTerminator ρ bb.term⟩

/-- Rename the parameters, the results and their uses; labels and globals stay. -/
def renameFunction (ρ : Name → Name) (f : Function) : Function :=
  ⟨f.name, f.parameters.map ρ, f.basicBlocks.map (renameBlock ρ)⟩

def calleeLocals : Callee → List Name
  | .inlineAssembly _ => []
  | .operand op => (operandLocalName op).toList

/-- The locals of an instruction: its result, its operands and what it calls. -/
def instrLocals (i : Instruction) : List Name :=
  i.tryGetResult.toList ++ i.uses ++
    match i with
    | .call c => calleeLocals c.function
    | _ => []

def terminatorLocals : Terminator → List Name
  | .ret returnOperand => returnOperand.toList.filterMap operandLocalName
  | .condBr condition _ _ => (operandLocalName condition).toList
  | .switch operand _ _ => (operandLocalName operand).toList
  | .indirectBr operand _ => (operandLocalName operand).toList
  | .invoke function arguments result _ _ =>
      result :: (calleeLocals function ++ arguments.filterMap operandLocalName)
  | .resume operand => (operandLocalName operand).toList
  | .catchSwitch _ _ result => [result]
  | .callBr function arguments result _ =>
      result :: (calleeLocals function ++ arguments.filterMap operandLocalName)
  | _ => []

/-- The local names of a function, block labels apart. -/
def localNames (f : Function) : List Name :=
  f.parameters ++ (f.instrs.flatMap instrLocals
    ++ f.basicBlocks.flatMap (fun bb => terminatorLocals bb.term))

/-- `n` is the result or an operand of one of the instructions. -/
def Mentions (l : List Code) (n : Name) : Prop :=
  ∃ c ∈ l, n ∈ c.2.tryGetResult.toList ++ c.2.uses

theorem mentions_cons {c : Code} {l : List Code} {n : Name} (h : Mentions l n) :
    Mentions (c :: l) n := by
  obtain ⟨d, hd, hn⟩ := h
  exact ⟨d, List.mem_cons_of_mem c hd, hn⟩

theorem localNames_of_mentions {f : Function} {n : Name} (h : Mentions (funcCodes f) n) :
    n ∈ localNames f := by
  obtain ⟨c, hc, hn⟩ := h
  obtain ⟨i, hi, rfl⟩ := List.mem_map.mp hc
  exact List.mem_append_right _ (List.mem_append_left _
    (List.mem_flatMap.mpr ⟨i, hi, List.mem_append_left _ hn⟩))

theorem instrs_rename (ρ : Name → Name) (f : Function) :
    (renameFunction ρ f).instrs = f.instrs.map (renameInstr ρ) := by
  simp only [Function.instrs, renameFunction, renameBlock, List.flatMap_map, List.map_flatMap]

theorem funcCodes_rename (ρ : Name → Name) (f : Function) :
    funcCodes (renameFunction ρ f) = (funcCodes f).map (renameCode ρ) := by
  rw [funcCodes, funcCodes, instrs_rename, List.map_map, List.map_map]
  rfl

-- ── The IRQ scan does not read local names ───────────────────────────────────────

theorem registeredHandler_rename (ρ : Name → Name) (c : Call) :
    registeredHandler (renameCall ρ c) = registeredHandler c := by
  rw [registeredHandler, registeredHandler, functionNameOfCall_rename, getElem?_renameCall]
  cases c.arguments[1]? with
  | none => rfl
  | some op => cases op <;> rfl

theorem irqCall_rename (ρ : Name → Name) (i : Instruction) :
    irqCall (renameInstr ρ i) = irqCall i := by
  cases i with
  | call c =>
      exact congrArg some (Prod.ext (functionNameOfCall_rename ρ c) (registeredHandler_rename ρ c))
  | _ => rfl

theorem irqCalls_rename (ρ : Name → Name) (l : List Instruction) :
    (l.map (renameInstr ρ)).filterMap irqCall = l.filterMap irqCall := by
  rw [List.filterMap_map]
  exact List.filterMap_congr (fun i _ => irqCall_rename ρ i)

theorem irqView_rename (ρ : Name → Name) (f : Function) :
    irqView (renameFunction ρ f) = irqView f := by
  rw [irqView, irqView, instrs_rename, irqCalls_rename]
  rfl

/-- Changing one function in what the scan does not read leaves the fixed part of the run as it
    is for instructions. -/
theorem sameEnv_of_irqView {m : Module} {fs₁ fs₂ : List Function} {f f' : Function}
    (hm : m.functions = fs₁ ++ f :: fs₂) (h : irqView f' = irqView f) (host : Host)
    (asmP : InlineAsmPolicy) (dmaP : DmaPolicy) :
    SameEnv (mkEnv m host asmP dmaP)
      (mkEnv { m with functions := fs₁ ++ f' :: fs₂ } host asmP dmaP) := by
  have hirq : scanIrqHandlers { m with functions := fs₁ ++ f' :: fs₂ } = scanIrqHandlers m := by
    refine scanIrqHandlers_congr ?_
    rw [hm]
    simp only [List.map_append, List.map_cons, h]
  exact ⟨rfl, rfl, rfl, by rw [mkEnv, mkEnv, hirq]⟩

-- ── Entries that cross a border ──────────────────────────────────────────────────

/-- The tables of `t` with the name environments of `u`. -/
def withNames (t u : Maps) : Maps :=
  { t with
    ptrEnv         := u.ptrEnv
    intEnv         := u.intEnv
    allocaStoreMap := u.allocaStoreMap
    allocaNames    := u.allocaNames }

/-- Every lookup of the instructions is answered in `t` as in `u`, all the way down. -/
def Scoped (m : Module) (dma : DmaPolicy) : List Code → Maps → Maps → Prop
  | [], _, _ => True
  | c :: l, t, u => (∀ x ∈ looks dma c.2, SameAt x.1 u x.2 t x.2)
      ∧ Scoped m dma l (transfer m dma c.2 t) (transfer m dma c.2 u)

instance decidableScoped (m : Module) (dma : DmaPolicy) :
    ∀ l t u, Decidable (Scoped m dma l t u)
  | [], _, _ => inferInstanceAs (Decidable True)
  | c :: l, t, u =>
      have := decidableScoped m dma l (transfer m dma c.2 t) (transfer m dma c.2 u)
      inferInstanceAs (Decidable ((∀ x ∈ looks dma c.2, SameAt x.1 u x.2 t x.2) ∧ _))

/-- The maps when the loop over functions reaches `f`, and when it leaves it. -/
def mapsBefore (m : Module) (dma : DmaPolicy) (fs₁ : List Function) : Maps :=
  after m dma (codes fs₁) Maps.empty

def mapsAfter (m : Module) (dma : DmaPolicy) (fs₁ : List Function) (f : Function) : Maps :=
  after m dma (funcCodes f) (mapsBefore m dma fs₁)

/-- **No entry crosses a border of `f`.** -/
structure Isolated (m : Module) (dma : DmaPolicy) (fs₁ : List Function) (f : Function)
    (fs₂ : List Function) : Prop where
  inside  : Scoped m dma (funcCodes f) (mapsBefore m dma fs₁)
    (withNames (mapsBefore m dma fs₁) Maps.empty)
  outside : Scoped m dma (codes fs₂) (mapsAfter m dma fs₁ f)
    (withNames (mapsAfter m dma fs₁ f) (mapsBefore m dma fs₁))

theorem withNames_tables (t u : Maps) : SameTables (withNames t u) t :=
  ⟨rfl, rfl, rfl, rfl, rfl⟩

theorem withNames_congr {t t' : Maps} (h : SameTables t t') (u : Maps) :
    withNames t' u = withNames t u := by
  simp only [withNames, h.sizes, h.freed, h.counter, h.dma, h.iommu]

section Plans

variable {e : Env}

theorem sameEnv_refl (e : Env) : SameEnv e e := ⟨rfl, rfl, rfl, rfl⟩

/-- Scoped instructions plan the same from both maps. -/
theorem scoped_plan {l : List Code} {t u : Maps} (hT : SameTables u t)
    (h : Scoped e.module e.dmaPolicy l t u) :
    anonPlan e l t = anonPlan e l u
      ∧ SameTables (after e.module e.dmaPolicy l u) (after e.module e.dmaPolicy l t) := by
  have hboth := anonPlan_alike (sameEnv_refl e)
    (R := fun l u t => SameTables u t ∧ Scoped e.module e.dmaPolicy l t u)
    (fun _ _ _ hinv => hinv.1) (fun c l u t hinv => by
      obtain ⟨hT, hlooks, hrest⟩ := hinv
      have htables : SameTables _ (transfer e.module e.dmaPolicy (renameInstr id c.2) t) :=
        transfer_tables (m := e.module) rfl hT hlooks
      rw [renameInstr_id] at htables
      exact ⟨hlooks, htables, hrest⟩) l u t ⟨hT, h⟩
  exact ⟨hboth.1, hboth.2.1⟩

/-- From empty environments, an injective renaming does not show. -/
theorem rename_plan {ρ : Name → Name} {l : List Code} (hρ : Set.InjOn ρ {n | Mentions l n})
    (t : Maps) :
    anonPlan e (l.map (renameCode ρ)) (withNames t .empty) = anonPlan e l (withNames t .empty)
      ∧ SameTables (after e.module e.dmaPolicy l (withNames t .empty))
          (after e.module e.dmaPolicy (l.map (renameCode ρ)) (withNames t .empty)) := by
  have hboth := anonPlan_rename (sameEnv_refl e) (ρ := ρ)
    (R := fun l' t t' => (∀ n, Mentions l' n → Mentions l n) ∧ SameTables t t'
      ∧ ∀ kind n, Mentions l n → SameAt kind t n t' (ρ n))
    (fun _ _ _ hinv => hinv.2.1) (fun c l' t t' hinv => by
      obtain ⟨hsub, hT, hsame⟩ := hinv
      have hc : ∀ n ∈ c.2.tryGetResult.toList ++ c.2.uses, Mentions l n :=
        fun n hn => hsub n ⟨c, List.mem_cons_self, hn⟩
      have hlooks : LooksSame e.dmaPolicy ρ c.2 t t' := fun x hx =>
        hsame x.1 x.2 (hc x.2 (List.mem_append_right _ (looks_uses hx)))
      refine ⟨?_, hlooks, fun n hn => hsub n (mentions_cons hn), transfer_tables rfl hT hlooks,
        ?_⟩
      · intro d n hd hn heq
        exact hρ (hc d (List.mem_append_left _ (Option.mem_toList.mpr hd)))
          (hc n (List.mem_append_right _ hn)) heq
      · intro kind n hn
        refine transfer_sameAt rfl hT hlooks ?_ (hsame kind n hn)
        intro d hd
        exact ⟨fun heq => hρ (hc d (delta_names_mem hd)) hn heq, congrArg ρ⟩)
    l (withNames t .empty) (withNames t .empty)
    ⟨fun _ hn => hn, ⟨rfl, rfl, rfl, rfl, rfl⟩, by
      intro kind n _
      cases kind with
      | ptr => rfl
      | int => rfl
      | slot => rfl
      | alloca => exact iff_of_false (Finset.notMem_empty _) (Finset.notMem_empty _)⟩
  exact ⟨hboth.1, hboth.2.2.1⟩

end Plans

section Disjoint

variable {m : Module} {dma : DmaPolicy}

/-- An instruction leaves the names it does not mention alone. -/
theorem sameAt_of_frame {i : Instruction} {t t' : Maps} (h : Frame i t t') {n : Name}
    (hn : n ∉ i.tryGetResult.toList ++ i.uses) (kind : LookKind) : SameAt kind t n t' n := by
  have hresult : i.tryGetResult ≠ some n :=
    fun heq => hn (List.mem_append_left _ (Option.mem_toList.mpr heq))
  cases kind with
  | ptr => exact h.ptr n hresult
  | int => exact h.int n hresult
  | alloca =>
      refine h.allocas n (fun heq => hresult ?_)
      cases i with
      | alloca dest => exact heq
      | _ => exact nomatch heq
  | slot =>
      refine h.slot n (fun heq => absurd (List.mem_append_right _ ?_) hn)
      unfold spillsTo at heq
      split at heq
      · obtain rfl := Option.some.inj heq
        exact List.mem_cons_self
      · exact nomatch heq

theorem after_frame {n : Name} (kind : LookKind) : ∀ (l : List Code) (t : Maps),
    ¬ Mentions l n → SameAt kind t n (after m dma l t) n := by
  intro l
  induction l with
  | nil => intro t _; exact sameAt_of_envs rfl rfl rfl rfl kind n
  | cons c l ih =>
      intro t hn
      have hc : n ∉ c.2.tryGetResult.toList ++ c.2.uses :=
        fun hmem => hn ⟨c, List.mem_cons_self, hmem⟩
      exact (sameAt_of_frame (transfer_frame m dma c.2 t) hc kind).trans (ih _ (fun hmem => hn (mentions_cons hmem)))

/-- Instructions are scoped between maps that agree on the names they mention. -/
theorem scoped_of_same {S : Name → Prop} : ∀ (l : List Code) (t u : Maps),
    (∀ n, Mentions l n → S n) → SameTables u t → (∀ kind n, S n → SameAt kind u n t n) →
      Scoped m dma l t u := by
  intro l
  induction l with
  | nil => intro t u _ _ _; trivial
  | cons c l ih =>
      intro t u hS hT hsame
      have hlooks : LooksSame dma id c.2 u t := fun x hx =>
        hsame x.1 x.2 (hS x.2 ⟨c, List.mem_cons_self, List.mem_append_right _ (looks_uses hx)⟩)
      refine ⟨hlooks, ih _ _ (fun n hn => hS n (mentions_cons hn)) ?_ ?_⟩
      · have htables := transfer_tables (m := m) rfl hT hlooks
        rwa [renameInstr_id] at htables
      · intro kind n hn
        have hafter := transfer_sameAt (m := m) rfl hT hlooks (fun d _ => Iff.rfl)
          (hsame kind n hn)
        rwa [renameInstr_id] at hafter

theorem withNames_sameAt {kind : LookKind} {t u t' : Maps} {n n' : Name}
    (h : SameAt kind u n t' n') : SameAt kind (withNames t u) n t' n' := by
  cases kind <;> exact h

/-- **A function that shares no name with the others is isolated.** -/
theorem isolated_of_disjoint {fs₁ fs₂ : List Function} {f : Function}
    (h₁ : ∀ n, Mentions (funcCodes f) n → ¬ Mentions (codes fs₁) n)
    (h₂ : ∀ n, Mentions (codes fs₂) n → ¬ Mentions (funcCodes f) n) :
    Isolated m dma fs₁ f fs₂ where
  inside := scoped_of_same _ _ _ (fun _ hn => hn) (withNames_tables _ _)
    (fun kind n hn => withNames_sameAt (after_frame kind (codes fs₁) Maps.empty (h₁ n hn)))
  outside := scoped_of_same _ _ _ (fun _ hn => hn) (withNames_tables _ _)
    (fun kind n hn => withNames_sameAt (after_frame kind (funcCodes f) _ (h₂ n hn)))

end Disjoint

-- ── A name used twice ────────────────────────────────────────────────────────────

/-- Allocates and frees a buffer of its own. -/
def setup : Function := Function.ofBlocks "setup" [([
  .call (.direct "kmalloc" [.lit 64 8, .lit 32 0] (some (.name "buf"))),
  .call (.direct "kfree" [.ptr "buf"] none)], .ret none)]

/-- Writes to the buffer it is given. -/
def fill : Function :=
  { Function.ofBlocks "fill" [([.store (.ptr "buf") (.lit 32 42)], .ret none)] with
    parameters := [.name "buf"] }

end SkvScope

import Mathlib.Logic.Relation
import SentinelKv.SkvAnalyzeProofs

/-!
# Interrupt handlers that free

The catalog calls the interrupt analysis a conservative over-approximation: sound, with false
positives.  What it has to over-approximate is stated here on the call graph of the module
(**`ReachesKfree`**): a handler passed to `request_irq` from which a chain of direct calls
leads to `kfree`.

`scan_irq_handlers` looks one step down that graph and only at `Call` instructions:

* **`mem_scanIrqHandlers`** — it finds exactly the handlers registered by a `Call` whose own
  body has a `Call` of `kfree`;
* **`handler_found_iff`** — so a handler that reaches `kfree` is found if and only if it does
  so without a helper and without an `invoke`.
-/

namespace SkvIrq

open SkvIr SkvAnalyze SkvGate

-- ── The call graph ───────────────────────────────────────────────────────────────

/-- The global a call site calls directly. -/
def calleeName : Callee → Option String
  | .operand (.constantOperand (.globalReference (.name s))) => some s
  | _ => none

/-- The terminators that call. -/
def terminatorCall : Terminator → Option (Callee × List Operand)
  | .invoke function arguments _ _ _ => some (function, arguments)
  | .callBr function arguments _ _ => some (function, arguments)
  | _ => none

/-- All call sites of a function: its `Call` instructions and the terminators that call. -/
def callSites (f : Function) : List (Callee × List Operand) :=
  (callsOf f).map (fun c => (c.function, c.arguments))
    ++ f.basicBlocks.filterMap (fun bb => terminatorCall bb.term)

/-- Some function named `caller` calls `callee` directly. -/
def CallsDirectly (m : Module) (caller callee : String) : Prop :=
  ∃ f ∈ m.functions, f.name = caller ∧ ∃ site ∈ callSites f, calleeName site.1 = some callee

/-- A direct call between two functions defined in the module. -/
def CallEdge (m : Module) (caller callee : String) : Prop :=
  CallsDirectly m caller callee ∧ callee ∈ m.functions.map Function.name

/-- `kfree` can be reached from `h` along direct calls; chains may be recursive. -/
def ReachesKfree (m : Module) (h : String) : Prop :=
  ∃ g, Relation.ReflTransGen (CallEdge m) h g ∧ CallsDirectly m g "kfree"

/-- `h` is passed by name as argument 1 of a call of `request_irq`. -/
def Registered (m : Module) (h : String) : Prop :=
  ∃ f ∈ m.functions, ∃ site ∈ callSites f, calleeName site.1 = some "request_irq"
    ∧ site.2[1]? = some (Operand.constantOperand (.globalReference (.name h)))

-- ── What the scan looks at ───────────────────────────────────────────────────────

/-- The registration is a `Call` instruction. -/
def RegisteredByCall (m : Module) (h : String) : Prop :=
  ∃ f ∈ m.functions, ∃ c ∈ callsOf f, functionNameOfCall c = some "request_irq"
    ∧ c.arguments[1]? = some (Operand.constantOperand (.globalReference (.name h)))

/-- A function named `h` has a `Call` of `kfree` in its own body. -/
def FreesByCall (m : Module) (h : String) : Prop :=
  ∃ f ∈ m.functions, f.name = h ∧ ∃ c ∈ callsOf f, functionNameOfCall c = some "kfree"

theorem registeredHandler_eq_some {c : Call} {h : String} :
    registeredHandler c = some h ↔ functionNameOfCall c = some "request_irq"
      ∧ c.arguments[1]? = some (Operand.constantOperand (.globalReference (.name h))) := by
  unfold registeredHandler
  by_cases hname : functionNameOfCall c = some "request_irq"
  · rw [if_pos hname]
    constructor
    · intro heq
      split at heq
      · next s hs =>
          obtain rfl := Option.some.inj heq
          exact ⟨hname, hs⟩
      · exact nomatch heq
    · rintro ⟨-, hs⟩
      rw [hs]
  · rw [if_neg hname]
    exact ⟨fun heq => (nomatch heq), fun heq => absurd heq.1 hname⟩

theorem mem_handlerNames {m : Module} {h : String} :
    h ∈ handlerNames m ↔ RegisteredByCall m h := by
  constructor
  · intro hh
    obtain ⟨f, hf, hh⟩ := List.mem_flatMap.mp hh
    obtain ⟨c, hc, hreg⟩ := List.mem_filterMap.mp hh
    exact ⟨f, hf, c, hc, registeredHandler_eq_some.mp hreg⟩
  · rintro ⟨f, hf, c, hc, hreg⟩
    exact List.mem_flatMap.mpr ⟨f, hf, List.mem_filterMap.mpr
      ⟨c, hc, registeredHandler_eq_some.mpr hreg⟩⟩

/-- **`scan_irq_handlers`** finds the handlers registered by a `Call` that free by a `Call`
    of their own. -/
theorem mem_scanIrqHandlers {m : Module} {h : String} :
    h ∈ scanIrqHandlers m ↔ RegisteredByCall m h ∧ FreesByCall m h := by
  constructor
  · intro hh
    obtain ⟨f, hf, rfl⟩ := List.mem_map.mp hh
    obtain ⟨hf, hcond⟩ := List.mem_filter.mp hf
    obtain ⟨hname, hfree⟩ := Bool.and_eq_true_iff.mp hcond
    obtain ⟨c, hc, hkfree⟩ := List.any_eq_true.mp hfree
    exact ⟨mem_handlerNames.mp (of_decide_eq_true hname), f, hf, rfl, c, hc,
      of_decide_eq_true hkfree⟩
  · rintro ⟨hreg, f, hf, rfl, c, hc, hkfree⟩
    refine List.mem_map.mpr ⟨f, List.mem_filter.mpr ⟨hf, ?_⟩, rfl⟩
    exact Bool.and_eq_true_iff.mpr ⟨decide_eq_true (mem_handlerNames.mpr hreg),
      List.any_eq_true.mpr ⟨c, hc, decide_eq_true hkfree⟩⟩

/-- What the scan reads of an instruction: of a call, the callee and the handler. -/
def irqCall : Instruction → Option (Option String × Option String)
  | .call c => some (functionNameOfCall c, registeredHandler c)
  | _ => none

/-- What the scan reads of a function. -/
def irqView (f : Function) : String × List (Option String × Option String) :=
  (f.name, f.instrs.filterMap irqCall)

theorem irqView_calls : irqView
    = fun f => (f.name, (callsOf f).map (fun c => (functionNameOfCall c, registeredHandler c))) := by
  funext f
  rw [irqView, callsOf, List.map_filterMap]
  refine Prod.ext rfl (List.filterMap_congr (fun i _ => ?_))
  cases i <;> rfl

theorem scanIrqHandlers_congr {m m' : Module}
    (h : m'.functions.map irqView = m.functions.map irqView) :
    scanIrqHandlers m' = scanIrqHandlers m := by
  rw [irqView_calls] at h
  have hnames : ∀ m : Module, handlerNames m = (m.functions.map (fun f => (f.name,
      (callsOf f).map (fun c => (functionNameOfCall c, registeredHandler c))))).flatMap
        (fun v => v.2.filterMap Prod.snd) := by
    intro m
    simp only [handlerNames, List.flatMap_map, List.filterMap_map]
    rfl
  have hscan : ∀ m : Module, scanIrqHandlers m = ((m.functions.map (fun f => (f.name,
      (callsOf f).map (fun c => (functionNameOfCall c, registeredHandler c))))).filter
        (fun v => decide (v.1 ∈ handlerNames m)
          && v.2.any (fun c => decide (c.1 = some "kfree")))).map Prod.fst := by
    intro m
    simp only [scanIrqHandlers, List.filter_map, List.map_map, Function.comp_def, List.any_map]
  rw [hscan, hscan, hnames, hnames, h]

/-- Whatever the scan finds is a registered handler that reaches `kfree`. -/
theorem scan_sound {m : Module} {h : String} (hreg : RegisteredByCall m h)
    (hfree : FreesByCall m h) : Registered m h ∧ ReachesKfree m h := by
  obtain ⟨f, hf, c, hc, hname, harg⟩ := hreg
  obtain ⟨g, hg, hgname, d, hd, hkfree⟩ := hfree
  refine ⟨⟨f, hf, (c.function, c.arguments), ?_, hname, harg⟩, h, .refl, g, hg, hgname,
    (d.function, d.arguments), ?_, hkfree⟩
  · exact List.mem_append_left _ (List.mem_map.mpr ⟨c, hc, rfl⟩)
  · exact List.mem_append_left _ (List.mem_map.mpr ⟨d, hd, rfl⟩)

/-- **A handler is found**, and arms the IRQ race check, if and only if its registration is a
    `Call` and it frees by a `Call` of its own; it is then one of the handlers the scan is
    meant for.  A longer chain to `kfree` makes no difference. -/
theorem handler_found_iff (m : Module) (h : String) :
    ((h ∈ scanIrqHandlers m ∧ ∀ host asmP dmaP, (mkEnv m host asmP dmaP).hasIrqRisk = true)
        ↔ RegisteredByCall m h ∧ FreesByCall m h)
      ∧ (RegisteredByCall m h ∧ FreesByCall m h → Registered m h ∧ ReachesKfree m h) := by
  refine ⟨?_, fun hboth => scan_sound hboth.1 hboth.2⟩
  rw [← mem_scanIrqHandlers]
  refine ⟨fun hboth => hboth.1, fun hmem => ⟨hmem, ?_⟩⟩
  intro host asmP dmaP
  show (!(scanIrqHandlers m).isEmpty) = true
  cases hscan : scanIrqHandlers m with
  | nil =>
      rw [hscan] at hmem
      exact nomatch hmem
  | cons x xs => rfl

/-- A handler that frees through a helper. -/
def helperDriver : Module := Module.ofFunctions [
  Function.ofBlocks "release_state" [([
    .call (.direct "kfree" [.ptr "state"] none)], .ret none)],
  Function.ofBlocks "my_irq_handler" [([
    .call (.direct "release_state" [.ptr "dev_id"] none)], .ret none)],
  Function.ofBlocks "irq_module_init" [([
    .call (.direct "kmalloc" [.lit 64 8, .lit 32 0] (some (.name "state"))),
    .call (.direct "request_irq" [.lit 32 10,
      .constantOperand (.globalReference (.name "my_irq_handler")), .lit 64 128]
      (some (.name "ret"))),
    .store (.ptr "state") (.lit 32 42)], .ret none)]]

/-- The handler reaches `kfree`, and the scan returns nothing: the store that races with it
    passes without an IRQ race condition. -/
theorem helperDriver_missed :
    Registered helperDriver "my_irq_handler" ∧ ReachesKfree helperDriver "my_irq_handler"
      ∧ "my_irq_handler" ∈ helperDriver.functions.map Function.name
      ∧ scanIrqHandlers helperDriver = []
      ∧ (analyze helperDriver (sortedHost evalSolver) (.fresh .off ∅ ∅) .conservative
          .verify).1.result = .pass
      ∧ (analyze helperDriver (sortedHost evalSolver) (.fresh .off ∅ ∅) .conservative
          .verify).1.irqRaceVcs = 0 := by
  refine ⟨⟨_, .tail _ (.tail _ (.head _)), _, .tail _ (.head _), rfl, rfl⟩,
    ⟨"release_state", .single ⟨⟨_, .tail _ (.head _), rfl, _, .head _, rfl⟩, .head _⟩,
      _, .head _, rfl, _, .head _, rfl⟩, ?_, ?_, ?_, ?_⟩
  all_goals decide +kernel

end SkvIrq

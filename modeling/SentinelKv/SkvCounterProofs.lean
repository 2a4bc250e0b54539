import SentinelKv.SkvVcIdProofs

/-!
# Counters and log

`analyze` reports how many verification conditions it raised for inline assembly, for IRQ races
and for DMA.  The log of the gate is written inside `should_run_solver`; the three counters are
bumped by hand, arm by arm.  The **`balance`** of a counter is what the log has of its kinds
minus what was counted.

Where an arm counts and then asks, the balance stays (`paired_balance`).  The arm of
`dma_map_single` asks first and counts the answer, all answers but `Safe`:

* **`stepInstr_balance`** — one instruction leaves every balance alone, except that a
  `dma_map_single` which is answered `Safe` is logged and not counted;
* **`counters_match_iff`** — so two of the three counters are the log's, and `dma_vcs` is if and
  only if no `dma_map_single` on the way was answered `Safe`;
* **`safe_mapping_uncounted`** — a mapping within its bounds is in the log, and `dma_vcs` is 0.
-/

namespace SkvCounter

open BreakLoop SkvIr SkvTypeSize SkvGate SkvAnalyze SkvTransfer SkvPlan SkvHitl SkvVcId

-- ── Kinds ────────────────────────────────────────────────────────────────────────

/-- The ID ends with the kind. -/
def ofKind (kind id : String) : Bool := (':' :: ':' :: kind.toList).isSuffixOf id.toList

theorem ofKind_vcId {kind kind' : String} (hk : ':' ∉ kind.toList) (hk' : ':' ∉ kind'.toList)
    (site : Site) : ofKind kind (site.vcId kind') = decide (kind = kind') := by
  have hid := vcId_toList site.funcName site.bbIdx site.instrIdx kind'
  rw [Bool.eq_iff_iff, ofKind, List.isSuffixOf_iff_suffix, decide_eq_true_eq, Site.vcId]
  constructor
  · rintro ⟨pre, hpre⟩
    rw [hid] at hpre
    have hsplit : (pre ++ [':']) ++ ':' :: kind.toList = _ :=
      (List.append_assoc pre [':'] _).trans hpre
    exact String.toList_inj.mp (last_sep_inj hk hk' hsplit).2
  · rintro rfl
    rw [hid, List.append_assoc]
    exact List.suffix_append _ _

/-- The kinds that a counter is for. -/
def kindsOf : Counter → List String
  | .inlineAsm => ["inline_asm"]
  | .dma => ["dma_alloc", "dma_map"]
  | .irqRace => ["irq_race_store", "irq_race_load"]

/-- The ID is of one of the counter's kinds. -/
def countedId (c : Counter) (id : String) : Bool := (kindsOf c).any (fun kind => ofKind kind id)

/-- All kinds that `analyze` raises. -/
def allKinds : List String :=
  ["memset", "memcpy_destination", "memcpy_source", "inline_asm", "dma_alloc", "dma_map", "store",
   "irq_race_store", "load", "irq_race_load"]

theorem colon_free {kind : String} (h : kind ∈ allKinds) : ':' ∉ kind.toList := by
  have hall : ∀ k ∈ allKinds, ':' ∉ k.toList := by decide
  exact hall kind h

theorem kindsOf_subset (c : Counter) : ∀ kind ∈ kindsOf c, kind ∈ allKinds := by
  cases c <;> decide

/-- The kinds that no counter is for. -/
def accessKinds : List String := ["memset", "memcpy_destination", "memcpy_source", "store", "load"]

theorem accessKind_uncounted {kind : String} (h : kind ∈ accessKinds) :
    kind ∈ allKinds ∧ ∀ c, kind ∉ kindsOf c := by
  have hall : ∀ k ∈ accessKinds, k ∈ allKinds ∧ k ∉ kindsOf .inlineAsm ∧ k ∉ kindsOf .dma
      ∧ k ∉ kindsOf .irqRace := by decide
  obtain ⟨hmem, hasm, hdma, hirq⟩ := hall kind h
  refine ⟨hmem, fun c => ?_⟩
  cases c
  · exact hasm
  · exact hdma
  · exact hirq

theorem countedId_vcId (c : Counter) {kind : String} (h : kind ∈ allKinds) (site : Site) :
    countedId c (site.vcId kind) = decide (kind ∈ kindsOf c) := by
  rw [Bool.eq_iff_iff, countedId, List.any_eq_true, decide_eq_true_eq]
  constructor
  · rintro ⟨k, hk, hkind⟩
    rw [ofKind_vcId (colon_free (kindsOf_subset c k hk)) (colon_free h), decide_eq_true_eq] at hkind
    rwa [← hkind]
  · intro hmem
    exact ⟨kind, hmem, by rw [ofKind_vcId (colon_free h) (colon_free h), decide_eq_true rfl]⟩

-- ── The balance of a counter ─────────────────────────────────────────────────────

def counter (c : Counter) (v : Verdict) : Nat :=
  match c with
  | .inlineAsm => v.inlineAsmVcs
  | .dma => v.dmaVcs
  | .irqRace => v.irqRaceVcs

/-- The entries of the log that the counter is for. -/
def logged (c : Counter) (gate : HitlGate) : Nat := gate.seen.countP (countedId c)

def balance (c : Counter) (v : Verdict) : Int := (logged c v.gate : Int) - counter c v

theorem logged_logAll (c : Counter) (g : HitlGate) (l : List Vc) :
    logged c (logAll g l) = logged c g + (l.map Prod.fst).countP (countedId c) :=
  List.countP_append

theorem counter_count (c c' : Counter) (v : Verdict) :
    counter c (v.count c') = counter c v + if c = c' then 1 else 0 := by
  cases c <;> cases c' <;> rfl

/-- The counting of `dma_map_single`. -/
theorem counter_counts (c : Counter) (txt : CheckText) (v : Verdict) :
    counter c (txt.counts v) = counter c v + if txt.counted ∧ c = .dma then 1 else 0 := by
  unfold CheckText.counts
  cases txt.counted with
  | false => simp
  | true =>
      rw [if_pos rfl, counter_count]
      simp

/-- One effect raises a counter if it counts for it, or answers a counted check with anything
    but `Safe`. -/
theorem exec_counter (z3 : Solver) (c : Counter) (vc cls : String) (allocSize offset : Z3Int)
    (size : UInt64) (txt : CheckText) (v : Verdict) :
    counter c (exec z3 (.check vc cls allocSize offset size txt) v).state
      = counter c v + if txt.counted ∧ c = .dma
          ∧ (checkAccess z3 allocSize offset size vc cls v.gate).1 ≠ .safe then 1 else 0 := by
  have hgate : ∀ g, counter c { v with gate := g } = counter c v := by
    intro g
    cases c <;> rfl
  have hmark : ∀ (w : Verdict) (msg : String), counter c (w.mark msg) = counter c w := by
    intro w msg
    cases c <;> rfl
  have hfail : ∀ (w : Verdict) (msg : String), counter c (w.fail msg) = counter c w := by
    intro w msg
    cases c <;> rfl
  simp only [exec]
  cases (checkAccess z3 allocSize offset size vc cls v.gate).1 with
  | oob => simp [hfail, counter_counts, hgate]
  | safe => simp [hgate]
  | solverUnknown => simp [hmark, counter_counts, hgate]
  | hitlBlocked => simp [hmark, counter_counts, hgate]

/-- A check logs its condition, and counts it if it is counted and not answered `Safe`. -/
theorem balance_check (z3 : Solver) (c : Counter) {kind : String} (hkind : kind ∈ allKinds)
    (site : Site) (cls : String) (allocSize offset : Z3Int) (size : UInt64) (txt : CheckText)
    (v : Verdict) :
    balance c (exec z3 (.check (site.vcId kind) cls allocSize offset size txt) v).state
      = balance c v + (if kind ∈ kindsOf c then 1 else 0)
          - if txt.counted ∧ c = .dma
              ∧ (checkAccess z3 allocSize offset size (site.vcId kind) cls v.gate).1 ≠ .safe
            then 1 else 0 := by
  unfold balance
  rw [exec_gate, exec_counter, logged_logAll]
  simp only [vcOf, Option.toList_some, List.map_cons, List.map_nil, List.countP_cons,
    List.countP_nil, countedId_vcId c hkind, decide_eq_true_eq]
  push_cast
  split_ifs <;> omega

-- ── Counting and asking ──────────────────────────────────────────────────────────

/-- Neither counted nor logged. -/
def quiet : Effect → Bool
  | .fail _ | .mark _ | .pair _ _ => true
  | _ => false

theorem balance_quiet (z3 : Solver) (c : Counter) {x : Effect} (h : quiet x = true) (v : Verdict) :
    balance c (exec z3 x v).state = balance c v := by
  cases x with
  | fail msg => cases c <;> rfl
  | mark reason => cases c <;> rfl
  | pair dmaAllocs iommuMapped => cases c <;> rfl
  | count c' => cases h
  | ask vc cls reasons => cases h
  | check vc cls allocSize offset size txt => cases h

/-- A count followed by its question. -/
theorem balance_counted (z3 : Solver) (c c' : Counter) {kind : String} (hkind : kind ∈ kindsOf c')
    (site : Site) (cls : String) (reasons : Option (String × String)) (v : Verdict) :
    balance c (exec z3 (.ask (site.vcId kind) cls reasons) (v.count c')).state = balance c v := by
  have hall : kind ∈ allKinds := kindsOf_subset c' kind hkind
  have hcount : counter c (exec z3 (.ask (site.vcId kind) cls reasons) (v.count c')).state
      = counter c v + if c = c' then 1 else 0 := by
    rw [← counter_count]
    cases reasons <;> cases c <;> rfl
  have hgate : (v.count c').gate = v.gate := by cases c' <;> rfl
  have hmem : kind ∈ kindsOf c ↔ c = c' := by
    constructor
    · intro hc
      have hdisjoint : ∀ k ∈ allKinds, k ∈ kindsOf c → k ∈ kindsOf c' → c = c' := by
        cases c <;> cases c' <;> decide
      exact hdisjoint kind hall hc hkind
    · rintro rfl
      exact hkind
  unfold balance
  rw [exec_gate, hcount, logged_logAll, hgate]
  simp only [vcOf, Option.toList_some, List.map_cons, List.map_nil, List.countP_cons,
    List.countP_nil, countedId_vcId c hall, decide_eq_true_eq, hmem]
  push_cast
  split_ifs <;> omega

/-- Lists of effects in which every count is followed by its question, and in which nothing else
    that is counted is asked. -/
inductive Paired (site : Site) : List Effect → Prop
  | nil : Paired site []
  | quiet {x : Effect} {l : List Effect} : quiet x = true → Paired site l → Paired site (x :: l)
  | access {kind cls : String} {allocSize offset : Z3Int} {size : UInt64} {txt : CheckText}
      {l : List Effect} : kind ∈ accessKinds → txt.counted = false →
      Paired site l → Paired site (.check (site.vcId kind) cls allocSize offset size txt :: l)
  | counted {c : Counter} {kind cls : String} {reasons : Option (String × String)}
      {l : List Effect} : kind ∈ kindsOf c → Paired site l →
      Paired site (.count c :: .ask (site.vcId kind) cls reasons :: l)

/-- The rest of a loop after one effect that keeps the balance. -/
theorem balance_cons {z3 : Solver} {c : Counter} {x : Effect} {l : List Effect} {v w : Verdict}
    (hx : balance c (exec z3 x v).state = balance c w)
    (hl : ∀ v, balance c (forLoop (exec z3) l v) = balance c v) :
    balance c (forLoop (exec z3) (x :: l) v) = balance c w := by
  cases hb : exec z3 x v with
  | next v' =>
      rw [hb] at hx
      rw [forLoop_cons_next hb, hl v']
      exact hx
  | brk v' =>
      rw [hb] at hx
      rw [forLoop_cons_brk hb]
      exact hx

/-- **Paired effects keep the balance.** -/
theorem paired_balance (z3 : Solver) (c : Counter) {site : Site} {l : List Effect}
    (h : Paired site l) : ∀ v, balance c (forLoop (exec z3) l v) = balance c v := by
  induction h with
  | nil => intro v; rfl
  | quiet hq _ ih =>
      intro v
      exact balance_cons (balance_quiet z3 c hq v) ih
  | access hkind htxt _ ih =>
      intro v
      obtain ⟨hall, hno⟩ := accessKind_uncounted hkind
      refine balance_cons ?_ ih
      rw [balance_check z3 c hall, if_neg (hno c), if_neg (by rw [htxt]; simp)]
      omega
  | @counted c' kind cls reasons l hkind _ ih =>
      intro v
      rw [show forLoop (exec z3) (.count c' :: .ask (site.vcId kind) cls reasons :: l) v
        = forLoop (exec z3) (.ask (site.vcId kind) cls reasons :: l) (v.count c') from rfl]
      exact balance_cons (balance_counted z3 c c' hkind site cls reasons v) ih

theorem Paired.append {site : Site} {l₁ l₂ : List Effect} (h₁ : Paired site l₁)
    (h₂ : Paired site l₂) : Paired site (l₁ ++ l₂) := by
  induction h₁ with
  | nil => exact h₂
  | quiet hq _ ih => exact .quiet hq ih
  | access hkind htxt _ ih => exact .access hkind htxt ih
  | counted hkind _ ih => exact .counted hkind ih

theorem paired_of_quiet {site : Site} : ∀ {l : List Effect}, l.all quiet = true → Paired site l := by
  intro l
  induction l with
  | nil => intro _; exact .nil
  | cons x l ih =>
      intro h
      rw [List.all_cons, Bool.and_eq_true] at h
      exact .quiet h.1 (ih h.2)

-- ── Every arm but one ────────────────────────────────────────────────────────────

theorem accessEffects_paired {site : Site} {txt : AccessText} (t : Maps) (allocId : Nat)
    (offset : Z3Int) (size : Option UInt64) {after : List Effect} (hkind : txt.kind ∈ accessKinds)
    (hafter : Paired site after) :
    Paired site (accessEffects site txt t allocId offset size after) := by
  unfold accessEffects
  split
  · exact .quiet rfl .nil
  · split
    · exact .quiet rfl .nil
    · split
      · exact .quiet rfl .nil
      · exact .access hkind rfl hafter

theorem regionEffects_paired {site : Site} {txt : AccessText} (t : Maps) (op : Operand)
    (len : UInt64) (hkind : txt.kind ∈ accessKinds) :
    Paired site (regionEffects site txt t op len) := by
  unfold regionEffects
  split
  · exact .nil
  · split
    · exact accessEffects_paired t _ _ _ hkind .nil
    · exact .nil

theorem memoryEffects_paired {e : Env} {site : Site} {txt : AccessText} {kind : String} (t : Maps)
    (name : Name) (ty : IrType) (hkind : txt.kind ∈ accessKinds)
    (hirq : "irq_race_" ++ kind ∈ kindsOf .irqRace) :
    Paired site (memoryEffects e site txt kind t name ty) := by
  have hrace : ∀ allocId, Paired site (irqEffects e site kind allocId) := by
    intro allocId
    unfold irqEffects
    split
    · exact .counted hirq .nil
    · exact .nil
  unfold memoryEffects
  split
  · exact accessEffects_paired t _ _ _ hkind (hrace _)
  · exact .nil

/-- Calls, under the conservative policy and outside of `dma_map_single`. -/
theorem callEffects_paired {e : Env} (hp : e.inlineAsmPolicy = .conservative) (site : Site)
    (call : Call) (t : Maps) (harm : callArm e.dmaPolicy (functionNameOfCall call) ≠ .dmaMap) :
    Paired site (callEffects e site call t) := by
  unfold callEffects
  cases hcall : callArm e.dmaPolicy (functionNameOfCall call) with
  | kmalloc =>
      refine paired_of_quiet ?_
      simp only [kmallocEffects]
      repeat' split
      all_goals rfl
  | kcalloc =>
      refine paired_of_quiet ?_
      simp only [kcallocEffects]
      repeat' split
      all_goals rfl
  | kfree =>
      refine paired_of_quiet ?_
      simp only [kfreeEffects]
      repeat' split
      all_goals rfl
  | memset =>
      simp only [memsetEffects]
      repeat' split
      case h_2 => exact regionEffects_paired t _ _ (show "memset" ∈ accessKinds by decide)
      all_goals exact paired_of_quiet rfl
  | memcpy =>
      simp only [memcpyEffects]
      repeat' split
      case h_2 =>
        exact (regionEffects_paired t _ _ (show "memcpy_" ++ "destination" ∈ accessKinds by decide)).append
          (regionEffects_paired t _ _ (show "memcpy_" ++ "source" ∈ accessKinds by decide))
      all_goals exact paired_of_quiet rfl
  | unnamed =>
      simp only [unnamedEffects, hp]
      repeat' split
      case isFalse => exact .counted (by decide) .nil
      all_goals exact .nil
  | dmaAlloc =>
      simp only [dmaAllocEffects]
      repeat' split
      case h_2 => exact .counted (by decide) (.quiet rfl .nil)
      all_goals exact paired_of_quiet rfl
  | dmaMap => exact absurd hcall harm
  | iommuMap => exact paired_of_quiet rfl
  | untracked => exact .nil

/-- The answer that `dma_map_single` gets to its bounds check, if it comes to one. -/
def dmaMapAnswer (e : Env) (site : Site) (s : St) : Option AccessCheckResult :=
  match site.instr with
  | .call call =>
      if callArm e.dmaPolicy (functionNameOfCall call) = .dmaMap then
        match call.arguments[1]?, (call.arguments[2]?).bind operandConstU64 with
        | some ptrOp, some mapSize =>
            match ((operandLocalName ptrOp).bind s.maps.ptrEnv).bind ptrvalAllocInfo with
            | some (allocId, offset) =>
                (s.maps.allocSizes allocId).map (fun allocSize =>
                  (checkAccess e.host.z3 allocSize offset mapSize (site.vcId "dma_map")
                    (vcClassId "dma_bounds" mapSize) s.gate).1)
            | none => none
        | _, _ => none
      else none
  | _ => none

theorem dmaMapAnswer_call {e : Env} {site : Site} {call : Call} (hi : site.instr = .call call)
    (harm : callArm e.dmaPolicy (functionNameOfCall call) = .dmaMap) (s : St) :
    dmaMapAnswer e site s = match call.arguments[1]?,
        (call.arguments[2]?).bind operandConstU64 with
      | some ptrOp, some mapSize =>
          match ((operandLocalName ptrOp).bind s.maps.ptrEnv).bind ptrvalAllocInfo with
          | some (allocId, offset) =>
              (s.maps.allocSizes allocId).map (fun allocSize =>
                (checkAccess e.host.z3 allocSize offset mapSize (site.vcId "dma_map")
                  (vcClassId "dma_bounds" mapSize) s.gate).1)
          | none => none
      | _, _ => none := by
  unfold dmaMapAnswer
  rw [hi]
  exact if_pos harm

/-- Every other instruction. -/
theorem effects_paired {e : Env} (hp : e.inlineAsmPolicy = .conservative) (site : Site) (t : Maps)
    (harm : ∀ call, site.instr = .call call →
      callArm e.dmaPolicy (functionNameOfCall call) ≠ .dmaMap) :
    Paired site (effects e site t) := by
  unfold effects
  cases hi : site.instr with
  | alloca dest => exact .nil
  | call call => exact callEffects_paired hp site call t (harm call hi)
  | getElementPtr gep =>
      refine paired_of_quiet ?_
      simp only [gepEffects]
      repeat' split
      all_goals rfl
  | ptrToInt operand toType dest => cases operand <;> exact paired_of_quiet rfl
  | intToPtr operand toType dest => cases operand <;> exact paired_of_quiet rfl
  | add op0 op1 dest =>
      refine paired_of_quiet ?_
      simp only [addEffects, arithEffects]
      repeat' split
      all_goals rfl
  | sub op0 op1 dest =>
      refine paired_of_quiet ?_
      simp only [subEffects, arithEffects]
      repeat' split
      all_goals rfl
  | bitCast operand toType dest => cases operand <;> exact paired_of_quiet rfl
  | store address value =>
      simp only
      cases operandLocalName address with
      | none => exact .nil
      | some destName =>
          exact memoryEffects_paired _ destName _ (show "store" ∈ accessKinds by decide) (by decide)
  | load address loadedTy dest =>
      simp only
      cases operandLocalName address with
      | none => exact .nil
      | some srcName =>
          exact memoryEffects_paired _ srcName _ (show "load" ∈ accessKinds by decide) (by decide)
  | other opcode operands dest => exact .nil

/-- `dma_map_single` logs what it does not count when the answer is `Safe`. -/
theorem dmaMapEffects_balance (e : Env) {site : Site} {call : Call} (hi : site.instr = .call call)
    (harm : callArm e.dmaPolicy (functionNameOfCall call) = .dmaMap) (c : Counter) (s : St) :
    balance c (forLoop (exec e.host.z3) (dmaMapEffects site call s.maps) (verdict s))
      = balance c (verdict s) + if c = .dma ∧ dmaMapAnswer e site s = some .safe then 1 else 0 := by
  have hquiet : ∀ l : List Effect, l.all quiet = true → dmaMapAnswer e site s = none →
      balance c (forLoop (exec e.host.z3) l (verdict s))
        = balance c (verdict s)
          + if c = .dma ∧ dmaMapAnswer e site s = some .safe then 1 else 0 := by
    intro l hl hnone
    have hpaired : Paired site l := paired_of_quiet hl
    rw [paired_balance e.host.z3 c hpaired, hnone, if_neg (by simp)]
    omega
  have hanswer := dmaMapAnswer_call hi harm s
  unfold dmaMapEffects
  cases hptr : call.arguments[1]? with
  | none => exact hquiet _ rfl (by rw [hanswer, hptr])
  | some ptrOp =>
  cases hsizeOp : call.arguments[2]? with
  | none => exact hquiet _ rfl (by rw [hanswer, hptr, hsizeOp]; rfl)
  | some sizeOp =>
  cases hsize : operandConstU64 sizeOp with
  | none =>
      simp only [hsize]
      exact hquiet _ rfl (by rw [hanswer, hptr, hsizeOp, Option.bind_some, hsize])
  | some mapSize =>
  cases hinfo : ((operandLocalName ptrOp).bind s.maps.ptrEnv).bind ptrvalAllocInfo with
  | none =>
      simp only [hsize, hinfo]
      exact hquiet _ rfl (by rw [hanswer, hptr, hsizeOp, Option.bind_some, hsize]; simp only [hinfo])
  | some x =>
  obtain ⟨allocId, offset⟩ := x
  cases halloc : s.maps.allocSizes allocId with
  | none =>
      simp only [hsize, hinfo, halloc]
      exact hquiet _ rfl (by
        rw [hanswer, hptr, hsizeOp, Option.bind_some, hsize]
        simp only [hinfo, halloc, Option.map_none])
  | some allocSize =>
      have hsafe : dmaMapAnswer e site s = some (checkAccess e.host.z3 allocSize offset mapSize
          (site.vcId "dma_map") (vcClassId "dma_bounds" mapSize) s.gate).1 := by
        rw [hanswer, hptr, hsizeOp, Option.bind_some, hsize]
        simp only [hinfo, halloc, Option.map_some]
      simp only [hsize, hinfo, halloc]
      refine (balance_cons rfl (fun v => rfl)).trans ?_
      rw [balance_check e.host.z3 c (by decide), hsafe]
      have hmem : "dma_map" ∈ kindsOf c ↔ c = .dma := by cases c <;> decide
      have hgate : (verdict s).gate = s.gate := rfl
      simp only [hmem, hgate, true_and, Option.some.injEq, ne_eq]
      split_ifs <;> first | omega | (exfalso; simp_all)

/-- **One instruction**: only a `dma_map_single` that is answered `Safe` changes a balance. -/
theorem stepInstr_balance {e : Env} (hp : e.inlineAsmPolicy = .conservative) (c : Counter)
    (site : Site) {s : St} (hs : ¬ Failed s) :
    balance c (verdict (stepInstr e site s).state)
      = balance c (verdict s) + if c = .dma ∧ dmaMapAnswer e site s = some .safe then 1 else 0 := by
  rw [stepInstr_verdict e site hs]
  by_cases harm : ∃ call, site.instr = .call call
      ∧ callArm e.dmaPolicy (functionNameOfCall call) = .dmaMap
  · obtain ⟨call, hi, harm⟩ := harm
    have heffects : effects e site s.maps = dmaMapEffects site call s.maps := by
      simp only [effects, hi, callEffects, harm]
    rw [heffects, dmaMapEffects_balance e hi harm]
  · have hother : ∀ call, site.instr = .call call →
        callArm e.dmaPolicy (functionNameOfCall call) ≠ .dmaMap :=
      fun call hi hmap => harm ⟨call, hi, hmap⟩
    have hnone : dmaMapAnswer e site s = none := by
      unfold dmaMapAnswer
      split
      · next call hi => exact if_neg (hother call hi)
      · rfl
    rw [paired_balance e.host.z3 c (effects_paired hp site s.maps hother), hnone, if_neg (by simp)]
    omega

-- ── Runs ─────────────────────────────────────────────────────────────────────────

/-- The iteration is a `dma_map_single` that is answered `Safe`. -/
def mapsSafely (e : Env) (v : Site × St) : Bool := decide (dmaMapAnswer e v.1 v.2 = some .safe)

/-- The balances at the end of a scan. -/
theorem scan_balance {e : Env} (hp : e.inlineAsmPolicy = .conservative) (gate : HitlGate)
    (hlog : gate.seen = []) (c : Counter) :
    balance c (verdict (scanModule e gate))
      = if c = .dma then ((scanVisits e gate).countP (mapsSafely e) : Int) else 0 := by
  have hinit : balance c (verdict (St.init gate)) = 0 := by
    have hlogged : logged c gate = 0 := by rw [logged, hlog]; rfl
    have hcounter : counter c (verdict (St.init gate)) = 0 := by cases c <;> rfl
    show (logged c gate : Int) - counter c (verdict (St.init gate)) = 0
    rw [hlogged, hcounter]
    rfl
  rw [scanModule_eq]
  by_cases hc : c = .dma
  · have hrun := forLoop_account (stepInstr_flagged e) (fun s => balance c (verdict s)) (mapsSafely e)
      (fun site s hs => by
        rw [stepInstr_balance hp c site hs]
        simp only [hc, true_and, mapsSafely, decide_eq_true_eq])
      (sites e.module) (St.init gate) (not_failed_init gate)
    rw [if_pos hc, hrun, hinit]
    exact Int.zero_add _
  · have hrun := forLoop_inv_flagged (stepInstr_flagged e)
      (fun s => balance c (verdict s) = 0)
      (fun site s hs h => by
        rw [stepInstr_balance hp c site hs, h, if_neg (fun hand => hc hand.1)]
        rfl)
      (sites e.module) (St.init gate) (not_failed_init gate) hinit
    rw [if_neg hc]
    exact hrun

theorem countedId_inlineAsm : countedId .inlineAsm = ofKind "inline_asm" := by
  funext id
  exact Bool.or_false _

theorem countedId_irqRace :
    countedId .irqRace = fun id => ofKind "irq_race_store" id || ofKind "irq_race_load" id := by
  funext id
  exact congrArg (_ || ·) (Bool.or_false _)

theorem countedId_dma :
    countedId .dma = fun id => ofKind "dma_alloc" id || ofKind "dma_map" id := by
  funext id
  exact congrArg (_ || ·) (Bool.or_false _)

/-- **Counters and log.**  Under the conservative policy and with empty logs at the start, the
    counters of inline assembly and IRQ races are the numbers of log entries of their kinds; the
    one of DMA is if and only if no `dma_map_single` on the way was answered `Safe`. -/
theorem counters_match_iff (m : Module) (host : Host) (gate : HitlGate) (dmaP : DmaPolicy)
    (hlog : gate.seen = []) :
    (analyze m host gate .conservative dmaP).1.inlineAsmVcs
        = (analyze m host gate .conservative dmaP).2.seen.countP (ofKind "inline_asm")
      ∧ (analyze m host gate .conservative dmaP).1.irqRaceVcs
        = (analyze m host gate .conservative dmaP).2.seen.countP
            (fun id => ofKind "irq_race_store" id || ofKind "irq_race_load" id)
      ∧ ((analyze m host gate .conservative dmaP).1.dmaVcs
          = (analyze m host gate .conservative dmaP).2.seen.countP
              (fun id => ofKind "dma_alloc" id || ofKind "dma_map" id)
        ↔ ∀ v ∈ scanVisits (mkEnv m host .conservative dmaP) gate,
            dmaMapAnswer (mkEnv m host .conservative dmaP) v.1 v.2 ≠ some .safe) := by
  have hend := scan_balance (e := mkEnv m host .conservative dmaP) rfl gate hlog
  refine ⟨?_, ?_, ?_⟩
  · have hasm := hend .inlineAsm
    rw [balance, logged, countedId_inlineAsm, if_neg (by decide)] at hasm
    exact Int.ofNat_inj.mp (Int.sub_eq_zero.mp hasm).symm
  · have hirq := hend .irqRace
    rw [balance, logged, countedId_irqRace, if_neg (by decide)] at hirq
    exact Int.ofNat_inj.mp (Int.sub_eq_zero.mp hirq).symm
  · have hdma := hend .dma
    rw [balance, logged, countedId_dma, if_pos rfl] at hdma
    have hnone : (∀ v ∈ scanVisits (mkEnv m host .conservative dmaP) gate,
          dmaMapAnswer (mkEnv m host .conservative dmaP) v.1 v.2 ≠ some .safe)
        ↔ (scanVisits (mkEnv m host .conservative dmaP) gate).countP
            (mapsSafely (mkEnv m host .conservative dmaP)) = 0 := by
      simp only [List.countP_eq_zero, mapsSafely, decide_eq_true_eq, ne_eq]
    rw [hnone]
    -- the log is ahead by the mappings that were not counted
    have hahead : ((analyze m host gate .conservative dmaP).2.seen.countP
          (fun id => ofKind "dma_alloc" id || ofKind "dma_map" id) : Int)
        = (analyze m host gate .conservative dmaP).1.dmaVcs
          + (scanVisits (mkEnv m host .conservative dmaP) gate).countP
              (mapsSafely (mkEnv m host .conservative dmaP)) :=
      Int.sub_eq_iff_eq_add'.mp hdma
    omega

/-- A driver that maps the start of its allocation of 64 bytes for DMA. -/
def mappingDriver (size : UInt64) : Module := Module.ofFunctions [Function.ofBlocks "dma_module_init" [
  ([.call (.direct "kmalloc" [.lit 64 64, .lit 32 0] (some (.name "p"))),
    .call (.direct "dma_map_single" [.ptr "dev", .ptr "p", .lit 64 size] none)], .ret none)]]

/-- Half of it: the condition is logged, and `dma_vcs` is 0. -/
theorem safe_mapping_uncounted :
    (analyze (mappingDriver 32) (sortedHost evalSolver) (.fresh .off ∅ ∅) .conservative
        .verify).1.result = .pass
      ∧ (analyze (mappingDriver 32) (sortedHost evalSolver) (.fresh .off ∅ ∅) .conservative
        .verify).1.dmaVcs = 0
      ∧ (analyze (mappingDriver 32) (sortedHost evalSolver) (.fresh .off ∅ ∅) .conservative
        .verify).2.seen.countP (fun id => ofKind "dma_alloc" id || ofKind "dma_map" id) = 1 := by
  refine ⟨?_, ?_, ?_⟩ <;> decide +kernel

/-- Too much of it: the condition is logged and counted. -/
theorem wide_mapping_counted :
    (analyze (mappingDriver 128) (sortedHost evalSolver) (.fresh .off ∅ ∅) .conservative
        .verify).1.dmaVcs
      = (analyze (mappingDriver 128) (sortedHost evalSolver) (.fresh .off ∅ ∅) .conservative
          .verify).2.seen.countP (fun id => ofKind "dma_alloc" id || ofKind "dma_map" id) := by
  have h := counters_match_iff (mappingDriver 128) (sortedHost evalSolver) (.fresh .off ∅ ∅) .verify
    rfl
  have hnone : (scanVisits (mkEnv (mappingDriver 128) (sortedHost evalSolver) .conservative .verify)
      (.fresh .off ∅ ∅)).all (fun v => decide (dmaMapAnswer
        (mkEnv (mappingDriver 128) (sortedHost evalSolver) .conservative .verify) v.1 v.2
          ≠ some .safe)) = true := by decide +kernel
  exact h.2.2.mpr (fun v hv => of_decide_eq_true (List.all_eq_true.mp hnone v hv))

end SkvCounter

import SentinelKv.SkvHistoryProofs
import SentinelKv.SkvPathsProofs
import SentinelKv.SkvProvenanceProofs

/-!
# Stack slots

`alloca_store_map` is to hold, for each stack slot, the pointer that was stored last.  Two laws
say what that means, and each has a hole.

* A load yields what was stored last.  A `Store` writes the map only if its value is a local that
  `ptr_env` binds, so a slot reset to `NULL` keeps its old pointer.  **`slot_content_iff`**: a load
  answers with the last store if and only if the slot is not **`Stale`**.
* The address of a slot is not its content.  The GEP arm looks an address up in `ptr_env` and then
  in `alloca_store_map`.  **`slot_address_iff`**: no pointer into the stack is ever bound to the
  heap if and only if no GEP starts at a slot that holds a heap pointer.
-/

namespace SkvSlot

open BreakLoop SkvIr SkvGate SkvAnalyze SkvTransfer SkvMapsInv SkvPaths SkvProvenance SkvHistory

-- ── Stores and loads of one slot ─────────────────────────────────────────────────

/-- The allocation and offset of an operand, if it is tracked. -/
def provenance (t : Maps) (op : Operand) : Option (Nat × Z3Int) :=
  ((operandLocalName op).bind t.ptrEnv).bind ptrvalAllocInfo

/-- The value a `Store` to `a` stores. -/
def storedIn (a : Name) : Instruction → Option Operand
  | .store (.localOperand n _) value => if n = a then some value else none
  | _ => none

/-- The entry a `Store` to `a` makes: only a local that `ptr_env` binds is recorded. -/
def recordedIn (a : Name) (w : Site × St) : Option PtrVal :=
  (storedIn a w.1.instr).bind (fun value => (operandLocalName value).bind w.2.maps.ptrEnv)

/-- The entry for `a` after these iterations. -/
def entryOf (a : Name) (past : List (Site × St)) : Option PtrVal :=
  past.reverse.findSome? (recordedIn a)

/-- The provenance of the value stored last; `none` also if there was no store. -/
def lastStored (a : Name) (past : List (Site × St)) : Option (Nat × Z3Int) :=
  (past.reverse.findSome? (fun w => (storedIn a w.1.instr).map (provenance w.2.maps))).join

/-- A tracked pointer was stored, and what was stored over it since has not been recorded. -/
def Stale (a : Name) (past : List (Site × St)) : Prop :=
  ∃ before w after, past = before ++ w :: after
    ∧ ((recordedIn a w).bind ptrvalAllocInfo).isSome = true
    ∧ (∃ x ∈ after, (storedIn a x.1.instr).isSome = true)
    ∧ ∀ x ∈ after, recordedIn a x = none

theorem storedIn_eq_some {a : Name} {i : Instruction} {value : Operand}
    (h : storedIn a i = some value) : ∃ ty, i = .store (.localOperand a ty) value := by
  unfold storedIn at h
  split at h
  · next n ty value' =>
      split at h
      · next hn =>
          obtain rfl := Option.some.inj h
          exact ⟨ty, by rw [hn]⟩
      · cases h
  · cases h

/-- A stored value is tracked if and only if a tracked entry is made. -/
theorem provenance_of_stored {a : Name} {w : Site × St} {value : Operand}
    (h : storedIn a w.1.instr = some value) :
    provenance w.2.maps value = (recordedIn a w).bind ptrvalAllocInfo := by
  rw [recordedIn, h]
  rfl

section Stale

variable {a : Name} {past : List (Site × St)} {x : Site × St}

theorem entryOf_snoc (a : Name) (past : List (Site × St)) (x : Site × St) :
    entryOf a (past ++ [x]) = (recordedIn a x).or (entryOf a past) := by
  rw [entryOf, List.reverse_append, List.reverse_singleton, List.singleton_append,
    List.findSome?_cons]
  cases recordedIn a x <;> rfl

theorem lastStored_snoc (a : Name) (past : List (Site × St)) (x : Site × St) :
    lastStored a (past ++ [x])
      = (((storedIn a x.1.instr).map (provenance x.2.maps)).getD (lastStored a past)) := by
  rw [lastStored, List.reverse_append, List.reverse_singleton, List.singleton_append,
    List.findSome?_cons]
  cases storedIn a x.1.instr <;> rfl

theorem entryOf_eq_some {pv : PtrVal} : entryOf a past = some pv ↔
    ∃ before w after, past = before ++ w :: after ∧ recordedIn a w = some pv
      ∧ ∀ y ∈ after, recordedIn a y = none := by
  rw [entryOf, List.findSome?_eq_some_iff]
  constructor
  · rintro ⟨after, w, before, h, hw, hnone⟩
    refine ⟨before.reverse, w, after.reverse, ?_, hw,
      fun y hy => hnone y (List.mem_reverse.mp hy)⟩
    rw [← List.reverse_reverse past, h]
    simp
  · rintro ⟨before, w, after, rfl, hw, hnone⟩
    exact ⟨after.reverse, w, before.reverse, by simp, hw,
      fun y hy => hnone y (List.mem_reverse.mp hy)⟩

/-- An iteration that stores nothing in the slot. -/
theorem stale_snoc_of_other (hx : storedIn a x.1.instr = none) :
    Stale a (past ++ [x]) ↔ Stale a past := by
  have hrec : recordedIn a x = none := by rw [recordedIn, hx]; rfl
  constructor
  · rintro ⟨before, w, after, h, hw, ⟨y, hy, hys⟩, hnone⟩
    rcases append_singleton_split h with ⟨rfl, -, -⟩ | ⟨after', rfl, hpast⟩
    · cases hy
    · refine ⟨before, w, after', hpast, hw, ⟨y, ?_, hys⟩,
        fun z hz => hnone z (List.mem_append_left _ hz)⟩
      refine (List.mem_append.mp hy).resolve_right ?_
      intro hyx
      rw [List.mem_singleton.mp hyx, hx] at hys
      cases hys
  · rintro ⟨before, w, after, rfl, hw, ⟨y, hy, hys⟩, hnone⟩
    refine ⟨before, w, after ++ [x], by simp, hw, ⟨y, List.mem_append_left _ hy, hys⟩, ?_⟩
    intro z hz
    rcases List.mem_append.mp hz with hz | hz
    · exact hnone z hz
    · rw [List.mem_singleton.mp hz]
      exact hrec

/-- A store that is recorded. -/
theorem not_stale_snoc {pv : PtrVal} (hx : recordedIn a x = some pv) :
    ¬ Stale a (past ++ [x]) := by
  rintro ⟨before, w, after, h, -, ⟨y, hy, -⟩, hnone⟩
  rcases append_singleton_split h with ⟨rfl, -, -⟩ | ⟨after', rfl, -⟩
  · cases hy
  · have hnx := hnone x (List.mem_append_right _ List.mem_cons_self)
    rw [hx] at hnx
    cases hnx

/-- A store that is not recorded: it goes stale over a tracked entry. -/
theorem stale_snoc_of_unrecorded {value : Operand} (hx : storedIn a x.1.instr = some value)
    (hrec : recordedIn a x = none) :
    Stale a (past ++ [x]) ↔ ((entryOf a past).bind ptrvalAllocInfo).isSome = true := by
  constructor
  · rintro ⟨before, w, after, h, hw, ⟨y, hy, -⟩, hnone⟩
    rcases append_singleton_split h with ⟨rfl, -, -⟩ | ⟨after', rfl, hpast⟩
    · cases hy
    · obtain ⟨pv, hpv⟩ := Option.isSome_iff_exists.mp (Option.isSome_of_isSome_bind hw)
      have hentry : entryOf a past = some pv := entryOf_eq_some.mpr
        ⟨before, w, after', hpast, hpv, fun z hz => hnone z (List.mem_append_left _ hz)⟩
      rw [hentry, ← hpv]
      exact hw
  · intro h
    obtain ⟨pv, hentry⟩ := Option.isSome_iff_exists.mp (Option.isSome_of_isSome_bind h)
    obtain ⟨before, w, after, rfl, hw, hnone⟩ := entryOf_eq_some.mp hentry
    refine ⟨before, w, after ++ [x], by simp, ?_, ⟨x, by simp, by rw [hx]; rfl⟩, ?_⟩
    · rw [hw, ← hentry]
      exact h
    · intro z hz
      rcases List.mem_append.mp hz with hz | hz
      · exact hnone z hz
      · rw [List.mem_singleton.mp hz]
        exact hrec

end Stale

/-- **The entry against the last store.** -/
theorem entry_eq_lastStored (a : Name) (past : List (Site × St)) :
    (entryOf a past).bind ptrvalAllocInfo = lastStored a past ↔ ¬ Stale a past := by
  induction past using List.reverseRecOn with
  | nil =>
      refine ⟨fun _ => ?_, fun _ => rfl⟩
      rintro ⟨before, w, after, h, -⟩
      exact absurd h.symm (List.append_ne_nil_of_right_ne_nil before (List.cons_ne_nil w after))
  | append_singleton past x ih =>
      rw [entryOf_snoc, lastStored_snoc]
      cases hx : storedIn a x.1.instr with
      | none =>
          rw [recordedIn, hx, stale_snoc_of_other hx]
          exact ih
      | some value =>
          rw [Option.map_some, Option.getD_some, provenance_of_stored hx]
          cases hrec : recordedIn a x with
          | some pv => exact ⟨fun _ => not_stale_snoc hrec, fun _ => rfl⟩
          | none =>
              rw [stale_snoc_of_unrecorded hx hrec, Option.none_or, Option.bind_none,
                Option.not_isSome_iff_eq_none]

-- ── The run ──────────────────────────────────────────────────────────────────────

/-- What the maps know of the slot `a` in straight-line code `L`, after a first part of it. -/
structure SlotInv (L : List Instruction) (a : Name) (past : List (Site × St)) (t : Maps) :
    Prop where
  entry : t.allocaStoreMap a = entryOf a past
  known : .alloca a ∈ past.map (fun w => w.1.instr) → a ∈ t.allocaNames
  fresh : ∀ n ∈ results L, n ∉ results (past.map (fun w => w.1.instr)) → t.ptrEnv n = none

/-- `a` is the result of an `alloca`, and nothing in front of that reads `a`. -/
def SlotDefined (L : List Instruction) (a : Name) : Prop :=
  ∃ before after, L = before ++ .alloca a :: after ∧ ∀ i ∈ before, a ∉ i.uses

theorem SlotDefined.alloca_mem {L : List Instruction} {a : Name} (h : SlotDefined L a)
    {p : List Instruction} {i : Instruction} {q : List Instruction} (hL : L = p ++ i :: q)
    (hi : a ∈ i.uses) : .alloca a ∈ p := by
  obtain ⟨before, after, h, hbefore⟩ := h
  rw [hL] at h
  rcases List.append_eq_append_iff.mp h with ⟨c, rfl, hc⟩ | ⟨c, rfl, hc⟩
  · cases c with
    | nil =>
        obtain ⟨rfl, -⟩ := List.cons.inj hc
        cases hi
    | cons j c =>
        obtain ⟨rfl, -⟩ := List.cons.inj hc
        exact absurd hi (hbefore i (List.mem_append_right _ List.mem_cons_self))
  · cases c with
    | nil =>
        obtain ⟨rfl, -⟩ := List.cons.inj hc
        cases hi
    | cons j c =>
        obtain ⟨rfl, -⟩ := List.cons.inj hc
        exact List.mem_append_right _ List.mem_cons_self

theorem storedIn_of_spillsTo {a : Name} {i : Instruction} (h : spillsTo i = some a) :
    (storedIn a i).isSome = true := by
  unfold spillsTo at h
  split at h
  · obtain rfl := Option.some.inj h
    rw [storedIn, if_pos rfl]
    rfl
  · cases h

/-- What a store to a slot makes of its entry. -/
theorem spill_entry {t : Maps} {a : Name} (ha : a ∈ t.allocaNames) (value : Operand) :
    (t.spill a value).allocaStoreMap a
      = ((operandLocalName value).bind t.ptrEnv).or (t.allocaStoreMap a) := by
  unfold Maps.spill
  rw [if_pos ha]
  cases value with
  | localOperand n ty =>
      simp only [operandLocalName_local, Option.bind_some]
      cases t.ptrEnv n with
      | none => rfl
      | some pv => exact Function.update_self a _ _
  | constantOperand c => rfl
  | metadataOperand => rfl

/-- Slots stay known. -/
theorem mem_allocaNames_transfer (m : Module) (dma : DmaPolicy) {a : Name} {i : Instruction}
    {t : Maps} (h : a ∈ t.allocaNames ∨ i = .alloca a) : a ∈ (transfer m dma i t).allocaNames := by
  rcases h with h | rfl
  · by_cases hi : allocaOf i = some a
    · cases i with
      | alloca dest =>
          obtain rfl := Option.some.inj hi
          exact Finset.mem_insert_self _ _
      | _ => cases hi
    · exact ((transfer_frame m dma i t).allocas a hi).mpr h
  · exact Finset.mem_insert_self _ _

theorem SlotInv.step {L : List Instruction} {a : Name} {past : List (Site × St)} {w : Site × St}
    (h : SlotInv L a past w.2.maps) (ha : SlotDefined L a)
    (hL : past.map (fun w => w.1.instr) ++ [w.1.instr] <+: L) (m : Module) (dma : DmaPolicy) :
    SlotInv L a (past ++ [w]) (transfer m dma w.1.instr w.2.maps) := by
  have hframe := transfer_frame m dma w.1.instr w.2.maps
  refine ⟨?_, ?_, ?_⟩
  · rw [entryOf_snoc, ← h.entry]
    cases hx : storedIn a w.1.instr with
    | none =>
        rw [recordedIn, hx]
        refine hframe.slot a (fun hspill => ?_)
        have hstored := storedIn_of_spillsTo hspill
        rw [hx] at hstored
        cases hstored
    | some value =>
        obtain ⟨ty, hi⟩ := storedIn_eq_some hx
        obtain ⟨q, rfl⟩ := hL
        have hknown : a ∈ w.2.maps.allocaNames := by
          refine h.known (ha.alloca_mem (List.append_assoc _ _ q) ?_)
          rw [hi]
          exact List.mem_cons_self
        rw [recordedIn, hx, hi]
        exact spill_entry hknown value
  · intro hmem
    rw [List.map_append, List.mem_append] at hmem
    refine mem_allocaNames_transfer m dma (hmem.imp h.known ?_)
    intro hw
    exact (List.mem_singleton.mp hw).symm
  · intro n hn hnew
    rw [List.map_append, results, List.filterMap_append, List.mem_append, not_or] at hnew
    refine (hframe.ptr n (fun hw => hnew.2 ?_)).trans (h.fresh n hn hnew.1)
    exact List.mem_filterMap.mpr ⟨w.1.instr, List.mem_cons_self, hw⟩

/-- What has been processed is a first part of the code. -/
theorem instrs_of_visits {e : Env} {s : St} {l : List Site} {past : List (Site × St)}
    {v : Site × St} {rest : List (Site × St)}
    (hv : visits (stepInstr e) l s = past ++ v :: rest) :
    ∃ q, l.map Site.instr = past.map (fun w => w.1.instr) ++ v.1.instr :: q := by
  obtain ⟨q, hq⟩ := visits_fst_isPre (stepInstr e) l s
  refine ⟨(rest.map Prod.fst ++ q).map Site.instr, ?_⟩
  rw [← hq, hv]
  simp

section Content

variable {e : Env} {s : St} {l : List Site} {a : Name} {past : List (Site × St)} {v : Site × St}
  {rest : List (Site × St)}

/-- **The run.**  Straight-line code from a state that knows nothing of the names it defines. -/
theorem slotInv_visits (hs : ¬ Failed s)
    (hnew : ∀ n ∈ results (l.map Site.instr),
      s.maps.ptrEnv n = none ∧ s.maps.allocaStoreMap n = none)
    (hmem : a ∈ results (l.map Site.instr)) (ha : SlotDefined (l.map Site.instr) a)
    (hv : visits (stepInstr e) l s = past ++ v :: rest) :
    SlotInv (l.map Site.instr) a past v.2.maps := by
  have hstart : SlotInv (l.map Site.instr) a [] s.maps :=
    ⟨(hnew a hmem).2, fun h => (nomatch h), fun n hn _ => (hnew n hn).1⟩
  have hpast : past.map (fun w => w.1.instr) <+: l.map Site.instr := by
    obtain ⟨q, hq⟩ := instrs_of_visits hv
    rw [hq]
    exact List.prefix_append _ _
  refine (visits_history (stepInstr_flagged e) (H := fun past s =>
    past.map (fun w => w.1.instr) <+: l.map Site.instr → SlotInv (l.map Site.instr) a past s.maps)
    ?_ l [] s hs (fun _ => hstart)).1 past v rest hv hpast
  intro past site s s' hs hH hnext hL
  rw [List.map_append] at hL
  rw [stepInstr_next_maps hs hnext]
  exact SlotInv.step (w := (site, s)) (hH ((List.prefix_append _ _).trans hL)) ha hL _ _

/-- **The content of a slot.**  In straight-line code, a load yields the provenance of the value
    stored last if and only if the slot is not stale. -/
theorem slot_content_iff (hs : ¬ Failed s) (hssa : (results (l.map Site.instr)).Nodup)
    (hnew : ∀ n ∈ results (l.map Site.instr),
      s.maps.ptrEnv n = none ∧ s.maps.allocaStoreMap n = none)
    (ha : SlotDefined (l.map Site.instr) a)
    (hv : visits (stepInstr e) l s = past ++ v :: rest) {aty lty : IrType} {d : Name}
    (hi : v.1.instr = .load (.localOperand a aty) lty d) :
    ((stepInstr e v.1 v.2).state.maps.ptrEnv d).bind ptrvalAllocInfo = lastStored a past
      ↔ ¬ Stale a past := by
  obtain ⟨q, hq⟩ := instrs_of_visits hv
  have halloca : .alloca a ∈ past.map (fun w => w.1.instr) := by
    refine ha.alloca_mem hq ?_
    rw [hi]
    exact List.mem_cons_self
  have hmem : a ∈ results (l.map Site.instr) := by
    rw [hq]
    exact List.mem_filterMap.mpr ⟨.alloca a, List.mem_append_left _ halloca, rfl⟩
  have hinv := slotInv_visits hs hnew hmem ha hv
  have hunbound : v.2.maps.ptrEnv d = none := by
    have hresults : results (l.map Site.instr)
        = results (past.map (fun w => w.1.instr)) ++ d :: results q := by
      rw [hq, hi, results, List.filterMap_append]
      rfl
    rw [hresults] at hssa
    refine hinv.fresh d (by rw [hresults]; simp) (fun hd => ?_)
    exact List.disjoint_of_nodup_append hssa hd List.mem_cons_self
  have hlive : ¬ Failed v.2 := by
    refine (visits_inv (stepInstr_flagged e) (fun _ => True) (fun _ _ _ _ => trivial) l s hs trivial
      v ?_).2.1
    rw [hv]
    exact List.mem_append_right _ List.mem_cons_self
  have hload : (stepInstr e v.1 v.2).state.maps.ptrEnv d = entryOf a past := by
    rw [(stepInstr_ok e v.1 hlive).maps, hi, ← hinv.entry]
    show (v.2.maps.reload a d).ptrEnv d = _
    unfold Maps.reload
    rw [if_pos (hinv.known halloca)]
    cases v.2.maps.allocaStoreMap a with
    | none => exact hunbound
    | some pv => exact Function.update_self d _ _
  rw [hload]
  exact entry_eq_lastStored a past

end Content

/-- A pointer kept in a slot and released; the slot is reset; `kfree(NULL)` does nothing. -/
def resetDriver : Module := Module.ofFunctions [Function.ofBlocks "release" [([
  .call (.direct "kmalloc" [.lit 64 8, .lit 32 0] (some (.name "p"))),
  .alloca (.name "slot"),
  .store (.ptr "slot") (.ptr "p"),
  .load (.ptr "slot") .pointerType (.name "q"),
  .call (.direct "kfree" [.ptr "q"] none),
  .store (.ptr "slot") (.constantOperand (.other .pointerType)),
  .load (.ptr "slot") .pointerType (.name "r"),
  .call (.direct "kfree" [.ptr "r"] none)], .ret none)]]

def resetEnv : Env := mkEnv resetDriver (sortedHost evalSolver) .conservative .verify

def resetVisits : List (Site × St) := scanVisits resetEnv (.fresh .off ∅ ∅)

theorem resetDriver_first_load : ∃ past v rest, resetVisits = past ++ v :: rest
    ∧ v.1.instr = .load (.ptr "slot") .pointerType (.name "q")
    ∧ ((stepInstr resetEnv v.1 v.2).state.maps.ptrEnv (.name "q")).bind ptrvalAllocInfo
      = lastStored (.name "slot") past := by
  have hlen : 3 < resetVisits.length := by decide +kernel
  have hsplit : resetVisits = resetVisits.take 3 ++ resetVisits[3] :: resetVisits.drop 4 := by
    rw [← List.drop_eq_getElem_cons hlen, List.take_append_drop]
  refine ⟨_, _, _, hsplit, rfl, (slot_content_iff (not_failed_init _) (by decide +kernel)
    (fun _ _ => ⟨rfl, rfl⟩) ⟨_ :: [], _, rfl, by decide +kernel⟩ hsplit rfl).mpr ?_⟩
  exact (entry_eq_lastStored _ _).mp (by decide +kernel)

/-- The second load still yields the released pointer, and the correct program fails. -/
theorem resetDriver_fails : (∃ past v rest, resetVisits = past ++ v :: rest
      ∧ v.1.instr = .load (.ptr "slot") .pointerType (.name "r")
      ∧ lastStored (.name "slot") past = none
      ∧ (stepInstr resetEnv v.1 v.2).state.maps.ptrEnv (.name "r") = some (.kmalloc 0 (.fromU64 0)))
    ∧ (analyze resetDriver (sortedHost evalSolver) (.fresh .off ∅ ∅) .conservative .verify).1.result
      = .fail "Double free detected in function release" := by
  have hlen : 6 < resetVisits.length := by decide +kernel
  have hsplit : resetVisits = resetVisits.take 6 ++ resetVisits[6] :: resetVisits.drop 7 := by
    rw [← List.drop_eq_getElem_cons hlen, List.take_append_drop]
  exact ⟨⟨_, _, _, hsplit, rfl, by decide +kernel, rfl⟩, by decide +kernel⟩

-- ── Pointers into the stack ──────────────────────────────────────────────────────

/-- Names reached from the address of a slot by GEPs and casts. -/
inductive StackPointer (m : Module) : Name → Prop
  | slot {a : Name} : a ∈ slotNames m → StackPointer m a
  | gep {gep : GetElementPtr} {n : Name} :
      .getElementPtr gep ∈ m.functions.flatMap Function.instrs →
      operandLocalName gep.address = some n → StackPointer m n → StackPointer m gep.dest
  | bitCast {operand : Operand} {toType : IrType} {dest n : Name} :
      .bitCast operand toType dest ∈ m.functions.flatMap Function.instrs →
      operandLocalName operand = some n → StackPointer m n → StackPointer m dest

/-- The pointer has a heap provenance, `Kmalloc` or `DmaAlloc`. -/
def IsHeap (pv : Option PtrVal) : Prop := (pv.bind ptrvalAllocInfo).isSome = true

/-- The states of the analysis: the first one, and what each iteration leaves. -/
def Reached (e : Env) (gate : HitlGate) (s : St) : Prop :=
  s = St.init gate ∨ ∃ v ∈ scanVisits e gate, s = (stepInstr e v.1 v.2).state

/-- A GEP with literal indices that starts at a slot with a heap pointer in it. -/
def GepOfSlot (m : Module) (v : Site × St) : Prop :=
  ∃ gep a, v.1.instr = .getElementPtr gep ∧ operandLocalName gep.address = some a
    ∧ a ∈ slotNames m ∧ gepFolds m gep = true ∧ IsHeap (v.2.maps.allocaStoreMap a)

/-- What a GEP yields is a heap pointer if its base is one and the offset can be computed. -/
theorem isHeap_gepVal (m : Module) (gep : GetElementPtr) (t : Maps) :
    IsHeap (some (gepVal m gep t)) ↔
      IsHeap ((operandLocalName gep.address).bind (gepBase t)) ∧ gepFolds m gep = true := by
  unfold IsHeap gepVal
  cases (operandLocalName gep.address).bind (gepBase t) with
  | none => simp [ptrvalAllocInfo]
  | some pv =>
      cases pv with
      | unknown => simp [ptrvalAllocInfo]
      | kmalloc id offset =>
          rw [← gepFolds_eq m gep offset]
          simp only
          cases inferGepOffset m gep offset <;> simp [ptrvalAllocInfo]
      | dmaAlloc id offset =>
          rw [← gepFolds_eq m gep offset]
          simp only
          cases inferGepOffset m gep offset <;> simp [ptrvalAllocInfo]

/-- A name is the result of one instruction. -/
theorem eq_of_tryGetResult_eq {is : List Instruction} (h : (results is).Nodup) {i j : Instruction}
    (hi : i ∈ is) (hj : j ∈ is) {n : Name} (hin : i.tryGetResult = some n)
    (hjn : j.tryGetResult = some n) : i = j := by
  induction is with
  | nil => cases hi
  | cons k is ih =>
      rw [results_cons] at h
      have hlater : ∀ {j : Instruction}, j ∈ is → j.tryGetResult = some n → n ∈ results is :=
        fun hj hjn => List.mem_filterMap.mpr ⟨_, hj, hjn⟩
      rcases List.mem_cons.mp hi with rfl | hi'
      · rcases List.mem_cons.mp hj with rfl | hj'
        · rfl
        · rw [hin] at h
          exact absurd (hlater hj' hjn) (List.nodup_cons.mp h).1
      · rcases List.mem_cons.mp hj with rfl | hj'
        · rw [hjn] at h
          exact absurd (hlater hi' hin) (List.nodup_cons.mp h).1
        · exact ih (List.nodup_append.mp h).2.1 hi' hj'

theorem alloca_of_mem_slotNames {m : Module} {a : Name} (h : a ∈ slotNames m) :
    .alloca a ∈ m.functions.flatMap Function.instrs := by
  obtain ⟨i, hi, ha⟩ := List.mem_filterMap.mp h
  cases i with
  | alloca dest =>
      obtain rfl := Option.some.inj ha
      exact hi
  | _ => cases ha

/-- Entries belong to slots, and the name of a slot is not itself bound. -/
structure SlotTables (m : Module) (t : Maps) : Prop where
  names   : ∀ n ∈ t.allocaNames, n ∈ slotNames m
  entries : ∀ n, n ∉ slotNames m → t.allocaStoreMap n = none
  unbound : ∀ a ∈ slotNames m, t.ptrEnv a = none

section Address

variable {m : Module} {t : Maps} {i : Instruction}

theorem SlotTables.step (hnames : (results (m.functions.flatMap Function.instrs)).Nodup)
    (hi : i ∈ m.functions.flatMap Function.instrs) (h : SlotTables m t) (dma : DmaPolicy) :
    SlotTables m (transfer m dma i t) := by
  have hframe := transfer_frame m dma i t
  refine ⟨?_, ?_, ?_⟩
  · intro n hn
    by_cases halloca : allocaOf i = some n
    · exact List.mem_filterMap.mpr ⟨i, hi, halloca⟩
    · exact h.names n ((hframe.allocas n halloca).mp hn)
  · intro n hn
    exact (hframe.slot n (fun _ hmem => hn (h.names n hmem))).trans (h.entries n hn)
  · intro a ha
    by_cases hres : i.tryGetResult = some a
    · obtain rfl := eq_of_tryGetResult_eq hnames hi (alloca_of_mem_slotNames ha) hres rfl
      exact h.unbound a ha
    · exact (hframe.ptr a hres).trans (h.unbound a ha)

/-- **The step.**  A pointer into the stack becomes a heap pointer at a GEP of a slot only. -/
theorem stackPointer_step (hnames : (results (m.functions.flatMap Function.instrs)).Nodup)
    {v : Site × St} (hi : v.1.instr ∈ m.functions.flatMap Function.instrs)
    (htables : SlotTables m v.2.maps)
    (hstack : ∀ n, StackPointer m n → ¬ IsHeap (v.2.maps.ptrEnv n)) (hgep : ¬ GepOfSlot m v)
    (dma : DmaPolicy) {n : Name} (hn : StackPointer m n) :
    ¬ IsHeap ((transfer m dma v.1.instr v.2.maps).ptrEnv n) := by
  by_cases hres : v.1.instr.tryGetResult = some n
  · -- the one instruction that defines `n`
    cases hn with
    | slot ha =>
        rw [eq_of_tryGetResult_eq hnames hi (alloca_of_mem_slotNames ha) hres rfl]
        exact hstack n (.slot ha)
    | @gep gep b hmem haddr hb =>
        have heq := eq_of_tryGetResult_eq hnames hi hmem hres rfl
        rw [heq]
        show ¬ IsHeap (Function.update v.2.maps.ptrEnv gep.dest
          (some (gepVal m gep v.2.maps)) gep.dest)
        rw [Function.update_self, isHeap_gepVal, haddr, Option.bind_some]
        rintro ⟨hbase, hfolds⟩
        unfold gepBase at hbase
        cases hptr : v.2.maps.ptrEnv b with
        | some pv =>
            rw [hptr, Option.some_or, ← hptr] at hbase
            exact hstack b hb hbase
        | none =>
            rw [hptr, Option.none_or] at hbase
            by_cases hslot : b ∈ slotNames m
            · exact hgep ⟨gep, b, heq, haddr, hslot, hfolds, hbase⟩
            · rw [htables.entries b hslot] at hbase
              cases hbase
    | @bitCast operand toType dest b hmem haddr hb =>
        rw [eq_of_tryGetResult_eq hnames hi hmem hres rfl]
        show ¬ IsHeap (Function.update v.2.maps.ptrEnv n
          (some (((operandLocalName operand).bind v.2.maps.ptrEnv).getD .unknown)) n)
        rw [Function.update_self, haddr, Option.bind_some]
        cases hptr : v.2.maps.ptrEnv b with
        | some pv =>
            rw [Option.getD_some, ← hptr]
            exact hstack b hb
        | none => exact fun h => (nomatch h)
  · rw [(transfer_frame m dma v.1.instr v.2.maps).ptr n hres]
    exact hstack n hn

end Address

section AddressRun

variable {m : Module} {host : Host} {gate : HitlGate} {asmP : InlineAsmPolicy} {dmaP : DmaPolicy}

theorem instr_mem_of_visited {v : Site × St}
    (hv : v ∈ scanVisits (mkEnv m host asmP dmaP) gate) :
    v.1.instr ∈ m.functions.flatMap Function.instrs := by
  rw [← sites_instrs]
  exact List.mem_map_of_mem ((visits_fst_isPre _ _ _).subset (List.mem_map_of_mem hv))

/-- **The run.**  Before every iteration: the tables are in order, and if there has been no GEP of
    a slot, no pointer into the stack is a heap pointer. -/
theorem stackPointer_visits (hnames : (results (m.functions.flatMap Function.instrs)).Nodup)
    {past : List (Site × St)} {v : Site × St} {rest : List (Site × St)}
    (hv : scanVisits (mkEnv m host asmP dmaP) gate = past ++ v :: rest) :
    SlotTables m v.2.maps ∧ ((∀ w ∈ past, ¬ GepOfSlot m w) →
      ∀ n, StackPointer m n → ¬ IsHeap (v.2.maps.ptrEnv n)) := by
  have hpast : ∀ w ∈ past, w.1.instr ∈ m.functions.flatMap Function.instrs := by
    intro w hw
    have hvisited : w ∈ scanVisits (mkEnv m host asmP dmaP) gate := by
      rw [hv]
      exact List.mem_append_left _ hw
    exact instr_mem_of_visited hvisited
  refine (visits_history (stepInstr_flagged (mkEnv m host asmP dmaP)) (H := fun past s =>
    (∀ w ∈ past, w.1.instr ∈ m.functions.flatMap Function.instrs) → SlotTables m s.maps
      ∧ ((∀ w ∈ past, ¬ GepOfSlot m w) → ∀ n, StackPointer m n → ¬ IsHeap (s.maps.ptrEnv n)))
    ?_ (sites m) [] (St.init gate) (not_failed_init gate) (fun _ => ?_)).1 past v rest hv hpast
  · intro past site s s' hs hH hnext hmem
    have hsite := hmem (site, s) (List.mem_append_right _ List.mem_cons_self)
    obtain ⟨htables, hstack⟩ := hH (fun w hw => hmem w (List.mem_append_left _ hw))
    rw [stepInstr_next_maps hs hnext]
    refine ⟨htables.step hnames hsite dmaP, ?_⟩
    intro hgep n hn
    exact stackPointer_step (v := (site, s)) hnames hsite htables
      (hstack (fun w hw => hgep w (List.mem_append_left _ hw)))
      (hgep (site, s) (List.mem_append_right _ List.mem_cons_self)) dmaP hn
  · exact ⟨⟨fun n hn => absurd hn (Finset.notMem_empty n), fun _ _ => rfl, fun _ _ => rfl⟩,
      fun _ _ _ h => (nomatch h)⟩

end AddressRun

/-- **The address of a slot.**  In every run, no pointer into the stack is ever bound to a heap
    provenance if and only if no GEP starts at a slot that holds a heap pointer. -/
theorem slot_address_iff (m : Module)
    (hnames : (results (m.functions.flatMap Function.instrs)).Nodup) (host : Host)
    (gate : HitlGate) (asmP : InlineAsmPolicy) (dmaP : DmaPolicy) :
    let e := mkEnv m host asmP dmaP
    (∀ s, Reached e gate s → ∀ n, StackPointer m n → ¬ IsHeap (s.maps.ptrEnv n)) ↔
      ∀ v ∈ scanVisits e gate, ¬ GepOfSlot m v := by
  intro e
  have hstep : ∀ v ∈ scanVisits e gate, (stepInstr e v.1 v.2).state.maps
      = transfer m dmaP v.1.instr v.2.maps :=
    fun v hv => (stepInstr_ok e v.1 (visited_inv hv).1).maps
  constructor
  · rintro h v hv ⟨gep, a, hi, haddr, ha, hfolds, hslot⟩
    obtain ⟨past, rest, hsplit⟩ := List.append_of_mem hv
    have hmem := instr_mem_of_visited hv
    rw [hi] at hmem
    refine h _ (Or.inr ⟨v, hv, rfl⟩) gep.dest (.gep hmem haddr (.slot ha)) ?_
    rw [hstep v hv, hi]
    show IsHeap (Function.update v.2.maps.ptrEnv gep.dest (some (gepVal m gep v.2.maps)) gep.dest)
    rw [Function.update_self, isHeap_gepVal, haddr, Option.bind_some, gepBase,
      (stackPointer_visits hnames hsplit).1.unbound a ha, Option.none_or]
    exact ⟨hslot, hfolds⟩
  · rintro h s (rfl | ⟨v, hv, rfl⟩) n hn
    · intro hheap
      cases hheap
    · obtain ⟨past, rest, hsplit⟩ := List.append_of_mem hv
      obtain ⟨htables, hstack⟩ := stackPointer_visits hnames hsplit
      rw [hstep v hv]
      refine stackPointer_step hnames (instr_mem_of_visited hv) htables (hstack ?_) (h v hv) dmaP hn
      intro w hw
      refine h w ?_
      rw [hsplit]
      exact List.mem_append_left _ hw

/-- A struct on the stack with a pointer in its first field, stored at the address of the struct
    itself, and a length in its second. -/
def contextCode : List Instruction := [
  .call (.direct "kmalloc" [.lit 64 4, .lit 32 0] (some (.name "buf"))),
  .alloca (.name "ctx"),
  .store (.ptr "ctx") (.ptr "buf"),
  .load (.ptr "ctx") .pointerType (.name "data"),
  .store (.ptr "data") (.lit 32 7)]

def lengthGep : GetElementPtr where
  address := .ptr "ctx"
  indices := [.lit 32 0, .lit 32 1]
  dest := .name "len"
  sourceElementType := .structType [.pointerType, .integerType 32] false

def contextDriver : Module :=
  Module.ofFunctions [Function.ofBlocks "probe" [(contextCode, .ret none)]]

theorem contextDriver_address : (results (contextDriver.functions.flatMap Function.instrs)).Nodup
    ∧ ∀ s, Reached (mkEnv contextDriver (sortedHost evalSolver) .conservative .verify)
        (.fresh .off ∅ ∅) s → ∀ n, StackPointer contextDriver n → ¬ IsHeap (s.maps.ptrEnv n) := by
  refine ⟨by decide +kernel, (slot_address_iff contextDriver (by decide +kernel)
    (sortedHost evalSolver) (.fresh .off ∅ ∅) .conservative .verify).mpr ?_⟩
  rintro v hv ⟨gep, a, hi, -⟩
  have hmem := instr_mem_of_visited hv
  rw [hi] at hmem
  simp [contextDriver, contextCode, Module.ofFunctions, Function.ofBlocks, Function.instrs] at hmem

/-- The same with the length set. -/
def lengthDriver : Module := Module.ofFunctions [Function.ofBlocks "probe" [(contextCode
  ++ [.getElementPtr lengthGep, .store (.ptr "len") (.lit 32 4)], .ret none)]]

/-- The length lies on the stack; the analyzer takes it for a word behind the buffer and fails. -/
theorem lengthDriver_fails :
    StackPointer lengthDriver (.name "len")
      ∧ (∃ s, Reached (mkEnv lengthDriver (sortedHost evalSolver) .conservative .verify)
          (.fresh .off ∅ ∅) s ∧ IsHeap (s.maps.ptrEnv (.name "len")))
      ∧ ∃ msg, (analyze lengthDriver (sortedHost evalSolver) (.fresh .off ∅ ∅) .conservative
          .verify).1.result = .fail msg := by
  refine ⟨?_, ?_, ?_⟩
  · have hmem : .getElementPtr lengthGep ∈ lengthDriver.functions.flatMap Function.instrs := by
      simp [lengthDriver, contextCode, Module.ofFunctions, Function.ofBlocks, Function.instrs]
    exact .gep hmem rfl (.slot (by decide +kernel))
  · obtain ⟨v, hv, hheap⟩ : ∃ v ∈ scanVisits
        (mkEnv lengthDriver (sortedHost evalSolver) .conservative .verify) (.fresh .off ∅ ∅),
        (((stepInstr (mkEnv lengthDriver (sortedHost evalSolver) .conservative .verify) v.1
          v.2).state.maps.ptrEnv (.name "len")).bind ptrvalAllocInfo).isSome = true := by
      decide +kernel
    exact ⟨_, Or.inr ⟨v, hv, rfl⟩, hheap⟩
  · exact ⟨_, rfl⟩

end SkvSlot

import SentinelKv.JsonListsProofs
import SentinelKv.SkvReviewProofs

/-!
# The emitted conditions as JSON

`emit_hitl_vcs` escapes backslashes and quotes and leaves control characters as they are.  IDs are
made of the names of the functions of the analysed module, which may hold any character.

* **`emitHitlVcs_eq`** — the format string is an object of nine members;
* **`emission_json_gate_iff`** — of any gate: the file is JSON, and then faithful, iff no entry of
  its logs has a control character;
* `effects_classes` — the classes an instruction raises have none;
* **`emission_json_iff`** — of every run: the file is JSON iff no logged ID has a control character,
  and so it is whenever the functions of the module have printable names.
-/

namespace SkvEmitJson

open Json QuotedList SkvIr SkvGate SkvAnalyze SkvTransfer SkvPlan SkvHitl SkvVcId SkvSignature
open SkvVerdictJson SkvEmit SkvReview

-- ── Control characters ───────────────────────────────────────────────────────────

/-- A text without control characters. -/
def Printable (t : Text) : Prop := ∀ c ∈ t, 0x20 ≤ c.toNat

instance (t : Text) : Decidable (Printable t) :=
  show Decidable (∀ c ∈ t, 0x20 ≤ c.toNat) from List.decidableBAll _ t

theorem printable_append {t u : Text} : Printable (t ++ u) ↔ Printable t ∧ Printable u :=
  List.forall_mem_append

theorem printable_of_all {t : Text} (h : t.all (fun c => decide (0x20 ≤ c.toNat)) = true) :
    Printable t := fun c hc => of_decide_eq_true (List.all_eq_true.mp h c hc)

theorem printable_toString (n : Nat) : Printable (toString n).toList := by
  intro c hc
  rw [toString_toList] at hc
  have hdigit := Nat.isDigit_of_mem_toDigits (by decide) (by decide) hc
  simp only [Char.isDigit, Bool.and_eq_true, decide_eq_true_eq, ge_iff_le,
    UInt32.le_iff_toNat_le] at hdigit
  have hlow : 48 ≤ c.toNat := hdigit.1
  omega

-- ── One entry ────────────────────────────────────────────────────────────────────

theorem chars_escapeSymbol {c : Char} (h : 0x20 ≤ c.toNat) (rest : Text) :
    chars (escapeSymbol '\\' '"' c ++ rest) = push c.toNat (chars rest) := by
  rcases escapeSymbol_cases (b := '\\') (q := '"') c with ⟨hc, heq⟩ | ⟨hc, heq⟩
  · rw [heq]
    rcases hc with rfl | rfl
    · exact chars_escaped (by decide) rfl rest
    · exact chars_escaped (by decide) rfl rest
  · rw [heq]
    exact chars_plain ⟨h, hc.2, hc.1⟩ rest

theorem chars_escapeSymbol_control {c : Char} (h : c.toNat < 0x20) (rest : Text) :
    chars (escapeSymbol '\\' '"' c ++ rest) = none := by
  rcases escapeSymbol_cases (b := '\\') (q := '"') c with ⟨hc, -⟩ | ⟨-, heq⟩
  · rcases hc with rfl | rfl
    · exact absurd h (by decide)
    · exact absurd h (by decide)
  · rw [heq]
    exact chars_control h rest

theorem chars_escapeItem {item : Text} (h : Printable item) (rest : Text) :
    chars (escapeItem item ++ '"' :: rest) = some (points item, rest) := by
  rw [escapeItem_eq]
  induction item with
  | nil => exact chars_quote rest
  | cons c cs ih =>
      rw [escape_cons, List.append_assoc, chars_escapeSymbol (h c List.mem_cons_self),
        ih (fun d hd => h d (List.mem_cons_of_mem c hd))]
      rfl

theorem chars_escapeItem_none {item : Text} (h : ¬ Printable item) (rest : Text) :
    chars (escapeItem item ++ rest) = none := by
  rw [escapeItem_eq]
  induction item with
  | nil => exact absurd (fun c hc => by cases hc) h
  | cons c cs ih =>
      rw [escape_cons, List.append_assoc]
      by_cases hc : 0x20 ≤ c.toNat
      · have hcs : ¬ Printable cs := fun hall => h (List.forall_mem_cons.mpr ⟨hc, hall⟩)
        rw [chars_escapeSymbol hc, ih hcs]
        rfl
      · exact chars_escapeSymbol_control (by omega) _

/-- An entry of a log. -/
def itemPiece (item : String) : Piece Value := stringPiece (escapeItem item.toList) item.toList

theorem itemPiece_starts (item : String) : (itemPiece item).Starts ']' :=
  stringPiece_starts (by decide) _ _

theorem itemPiece_reads {item : String} (h : Printable item.toList) :
    (itemPiece item).Reads ']' value 1 := stringPiece_reads (chars_escapeItem h) ']'

theorem itemPiece_unreadable {item : String} (h : ¬ Printable item.toList) :
    (itemPiece item).Unreadable value := stringPiece_unreadable (chars_escapeItem_none h)

-- ── One log ──────────────────────────────────────────────────────────────────────

/-- The array of a log. -/
def logPiece (log : List String) : Piece Value := arrayPiece ((distinctSorted log).map itemPiece)

/-- Entries after the first have a comma before them. -/
theorem zipIdx_quotedItem (items : List String) : ∀ i, 0 < i →
    (items.zipIdx i).flatMap quotedItem
      = items.flatMap (fun item => ',' :: (itemPiece item).text) := by
  induction items with
  | nil => exact fun _ _ => rfl
  | cons item items ih =>
      intro i hi
      rw [List.zipIdx_cons, List.flatMap_cons, List.flatMap_cons, ih (i + 1) (Nat.succ_pos i),
        quotedItem, if_pos hi, itemPiece, stringPiece, escapeItem_eq]
      rfl

theorem listed_items (item : String) (items : List String) :
    listed ']' ((item :: items).map itemPiece)
      = (itemPiece item).text ++ items.flatMap (fun item => ',' :: (itemPiece item).text)
        ++ [']'] := by
  induction items generalizing item with
  | nil => rw [List.map_singleton, listed, List.flatMap_nil, List.append_nil]
  | cons next items ih =>
      rw [List.map_cons, List.map_cons, listed, ← List.map_cons, ih, List.flatMap_cons]
      simp only [List.append_assoc, List.cons_append]

/-- **`json_array` writes an array.** -/
theorem jsonArray_eq (items : List String) :
    jsonArray items = (arrayPiece (items.map itemPiece)).text := by
  unfold jsonArray
  rw [foldl_pushItem]
  cases items with
  | nil => rfl
  | cons item items =>
      rw [List.zipIdx_cons, List.flatMap_cons, zipIdx_quotedItem items _ (Nat.succ_pos 0),
        arrayPiece, listed_items, quotedItem, if_neg (Nat.lt_irrefl 0), itemPiece, stringPiece,
        escapeItem_eq]
      rfl

theorem logPiece_starts (log : List String) : (logPiece log).Starts '\x7d' :=
  ⟨'[', _, rfl, by decide, by decide⟩

theorem items_start (items : List String) : ∀ y ∈ items.map itemPiece, y.Starts ']' := by
  intro y hy
  obtain ⟨item, -, rfl⟩ := List.mem_map.mp hy
  exact itemPiece_starts item

theorem logPiece_reads {log : List String} (h : ∀ item ∈ log, Printable item.toList) :
    (logPiece log).Reads '\x7d' value (1 + (distinctSorted log).length + 1) := by
  have hitems : ∀ y ∈ (distinctSorted log).map itemPiece, y.Reads ']' value 1 := by
    intro y hy
    obtain ⟨item, hitem, rfl⟩ := List.mem_map.mp hy
    exact itemPiece_reads (h item ((mem_sortDedup strLe).mp hitem))
  have hreads := array_reads (items_start _) hitems '\x7d'
  rw [List.length_map] at hreads
  exact hreads

theorem logPiece_unreadable {log : List String} (h : ¬ ∀ item ∈ log, Printable item.toList) :
    (logPiece log).Unreadable value := by
  have hitems : ∀ y ∈ (distinctSorted log).map itemPiece,
      y.Reads ']' value 1 ∨ y.Unreadable value := by
    intro y hy
    obtain ⟨item, -, rfl⟩ := List.mem_map.mp hy
    by_cases hitem : Printable item.toList
    · exact Or.inl (itemPiece_reads hitem)
    · exact Or.inr (itemPiece_unreadable hitem)
  refine array_unreadable (items_start _) hitems fun hall => h fun item hitem => ?_
  by_contra hbad
  have hmem : itemPiece item ∈ (distinctSorted log).map itemPiece :=
    List.mem_map_of_mem ((mem_sortDedup strLe).mpr hitem)
  exact (hall _ hmem).not_unreadable (itemPiece_unreadable hbad)

/-- With enough fuel, a log reads or is unreadable, as its entries are. -/
theorem logPiece_cases (log : List String) {k : Nat}
    (hk : 1 + (distinctSorted log).length + 1 ≤ k) :
    ((logPiece log).Reads '\x7d' value k ↔ ∀ item ∈ log, Printable item.toList)
      ∧ ((logPiece log).Reads '\x7d' value k ∨ (logPiece log).Unreadable value) := by
  by_cases h : ∀ item ∈ log, Printable item.toList
  · have hreads := (logPiece_reads h).mono hk
    exact ⟨iff_of_true hreads h, Or.inl hreads⟩
  · have hun := logPiece_unreadable h
    exact ⟨iff_of_false (fun hreads => hreads.not_unreadable hun) h, Or.inr hun⟩

-- ── The file ─────────────────────────────────────────────────────────────────────

/-- A count. -/
def countPiece (n : Nat) : Piece Value := ⟨(n : Int).repr.toList, .num n 0⟩

theorem countPiece_starts (n : Nat) : (countPiece n).Starts '\x7d' := by
  obtain ⟨c, cs, htext, hc⟩ := repr_head (n : Int)
  obtain ⟨c', cs', htext', hws⟩ := (@reads_int [] (fun c hc => by cases hc) n).text
  obtain ⟨rfl, rfl⟩ := List.cons.inj (htext.symm.trans htext')
  refine ⟨c, cs, htext, hws, ?_⟩
  rintro rfl
  exact absurd hc (by decide)

theorem countPiece_reads (n : Nat) : (countPiece n).Reads '\x7d' value 1 := by
  intro fuel rest hfuel hrest
  obtain ⟨f, rfl⟩ : ∃ f, fuel = f + 1 := ⟨fuel - 1, by omega⟩
  exact (@reads_int [] (fun c hc => by cases hc) n).read f rest hrest

/-- The mode. -/
def modePiece (mode : HitlMode) : Piece Value :=
  stringPiece (hitlLabel mode).toList (hitlLabel mode).toList

/-- The four logs, with the names of their counts and of their arrays. -/
def emissionFields (g : HitlGate) : List NamedPiece :=
  [⟨"hitl_mode".toList, modePiece g.mode⟩,
   ⟨"seen_count".toList, countPiece (distinctSorted g.seen).length⟩,
   ⟨"blocked_count".toList, countPiece (distinctSorted g.blocked).length⟩,
   ⟨"seen_class_count".toList, countPiece (distinctSorted g.seenClasses).length⟩,
   ⟨"blocked_class_count".toList, countPiece (distinctSorted g.blockedClasses).length⟩,
   ⟨"seen_vcs".toList, logPiece g.seen⟩,
   ⟨"blocked_vcs".toList, logPiece g.blocked⟩,
   ⟨"seen_classes".toList, logPiece g.seenClasses⟩,
   ⟨"blocked_classes".toList, logPiece g.blockedClasses⟩]

/-- **The format string**, cut at the names of the members. -/
theorem emitHitlVcs_eq (g : HitlGate) :
    emitHitlVcs g = fieldsText (emissionFields g) ++ ['\n'] := by
  have hmode : "\x7b\"hitl_mode\":\"".toList
      = ['\x7b', '"'] ++ ("hitl_mode".toList ++ ['"', ':', '"']) := toList_split (by decide)
  have hseenCount : "\",\"seen_count\":".toList
      = ['"', ',', '"'] ++ ("seen_count".toList ++ ['"', ':']) := toList_split (by decide)
  have hblockedCount : ",\"blocked_count\":".toList
      = [',', '"'] ++ ("blocked_count".toList ++ ['"', ':']) := toList_split (by decide)
  have hseenClassCount : ",\"seen_class_count\":".toList
      = [',', '"'] ++ ("seen_class_count".toList ++ ['"', ':']) := toList_split (by decide)
  have hblockedClassCount : ",\"blocked_class_count\":".toList
      = [',', '"'] ++ ("blocked_class_count".toList ++ ['"', ':']) := toList_split (by decide)
  have hseen : ",\"seen_vcs\":".toList
      = [',', '"'] ++ ("seen_vcs".toList ++ ['"', ':']) := toList_split (by decide)
  have hblocked : ",\"blocked_vcs\":".toList
      = [',', '"'] ++ ("blocked_vcs".toList ++ ['"', ':']) := toList_split (by decide)
  have hseenClasses : ",\"seen_classes\":".toList
      = [',', '"'] ++ ("seen_classes".toList ++ ['"', ':']) := toList_split (by decide)
  have hblockedClasses : ",\"blocked_classes\":".toList
      = [',', '"'] ++ ("blocked_classes".toList ++ ['"', ':']) := toList_split (by decide)
  have hclose : "\x7d\n".toList = ['\x7d', '\n'] := by decide
  have hcount : ∀ n, (countPiece n).text = (toString n).toList := fun _ => rfl
  unfold emitHitlVcs hitlVcsText
  simp only [jsonArray_eq, fieldsText, emissionFields, List.map_cons, List.map_nil, listed,
    NamedPiece.toPiece, modePiece, stringPiece, hcount, logPiece]
  simp only [hmode, hseenCount, hblockedCount, hseenClassCount, hblockedClassCount, hseen,
    hblocked, hseenClasses, hblockedClasses, hclose, List.append_assoc, List.cons_append,
    List.nil_append]

/-- Fuel for every array of the file. -/
def enough (g : HitlGate) : Nat :=
  1 + ((distinctSorted g.seen).length + (distinctSorted g.blocked).length
    + (distinctSorted g.seenClasses).length + (distinctSorted g.blockedClasses).length) + 1

theorem modePiece_reads (mode : HitlMode) : (modePiece mode).Reads '\x7d' value 1 := by
  have hplain : ∀ c ∈ (hitlLabel mode).toList, Json.Plain c := by
    cases mode with
    | off => exact plain_of_all rfl
    | require => exact plain_of_all rfl
  exact stringPiece_reads (chars_plain_append hplain) '\x7d'

/-- The names of the members need no escapes. -/
theorem emissionFields_formed (g : HitlGate) : ∀ x ∈ emissionFields g, x.Formed := by
  have hmode : (modePiece g.mode).Starts '\x7d' := stringPiece_starts (by decide) _ _
  unfold emissionFields
  simp only [List.forall_mem_cons]
  exact ⟨⟨plain_of_all rfl, hmode⟩, ⟨plain_of_all rfl, countPiece_starts _⟩,
    ⟨plain_of_all rfl, countPiece_starts _⟩, ⟨plain_of_all rfl, countPiece_starts _⟩,
    ⟨plain_of_all rfl, countPiece_starts _⟩, ⟨plain_of_all rfl, logPiece_starts _⟩,
    ⟨plain_of_all rfl, logPiece_starts _⟩, ⟨plain_of_all rfl, logPiece_starts _⟩,
    ⟨plain_of_all rfl, logPiece_starts _⟩, fun x hx => by cases hx⟩

/-- The entries of the four logs. -/
def entries (g : HitlGate) : List String :=
  g.seen ++ g.blocked ++ g.seenClasses ++ g.blockedClasses

/-- **The file of any gate** is JSON iff no entry has a control character, and then it carries the
    mode, the counts and the logs. -/
theorem emission_json_gate_iff (g : HitlGate) (v : Value) :
    Decodes (emitHitlVcs g) v ↔
      (∀ item ∈ entries g, Printable item.toList) ∧ v = fieldsValue (emissionFields g) := by
  obtain ⟨hseen, hseen'⟩ := logPiece_cases g.seen (k := enough g) (by unfold enough; omega)
  obtain ⟨hblocked, hblocked'⟩ := logPiece_cases g.blocked (k := enough g) (by unfold enough; omega)
  obtain ⟨hseenClasses, hseenClasses'⟩ :=
    logPiece_cases g.seenClasses (k := enough g) (by unfold enough; omega)
  obtain ⟨hblockedClasses, hblockedClasses'⟩ :=
    logPiece_cases g.blockedClasses (k := enough g) (by unfold enough; omega)
  have hle : 1 ≤ enough g := by unfold enough; omega
  have hmode := (modePiece_reads g.mode).mono hle
  have hcount : ∀ n, (countPiece n).Reads '\x7d' value (enough g) := fun n =>
    (countPiece_reads n).mono hle
  have hall : ∀ x ∈ emissionFields g,
      x.piece.Reads '\x7d' value (enough g) ∨ x.piece.Unreadable value := by
    unfold emissionFields
    simp only [List.forall_mem_cons]
    exact ⟨Or.inl hmode, Or.inl (hcount _), Or.inl (hcount _), Or.inl (hcount _),
      Or.inl (hcount _), hseen', hblocked', hseenClasses', hblockedClasses',
      fun x hx => by cases hx⟩
  rw [emitHitlVcs_eq]
  unfold emissionFields at hall ⊢
  rw [object_decodes_iff (emissionFields_formed g) hall (by decide)]
  refine and_congr_left fun _ => ?_
  simp only [List.forall_mem_cons, entries, List.forall_mem_append, hmode, hcount, hseen, hblocked,
    hseenClasses, hblockedClasses, true_and, and_assoc, List.not_mem_nil, false_imp_iff,
    implies_true, and_true]

-- ── Classes ──────────────────────────────────────────────────────────────────────

/-- The classes of the conditions in `l` have no control characters. -/
def PlainClasses (l : List Effect) : Prop := ∀ vc ∈ l.filterMap vcOf, Printable vc.2.toList

theorem plainClasses_nil {l : List Effect} (h : l.filterMap vcOf = []) : PlainClasses l := by
  intro vc hvc
  rw [h] at hvc
  cases hvc

theorem plainClasses_append {l₁ l₂ : List Effect} (h₁ : PlainClasses l₁) (h₂ : PlainClasses l₂) :
    PlainClasses (l₁ ++ l₂) := by
  intro vc hvc
  rw [List.filterMap_append] at hvc
  exact (List.mem_append.mp hvc).elim (h₁ vc) (h₂ vc)

theorem printable_vcClassId {kind : String} (h : Printable kind.toList) (n : UInt64) :
    Printable (vcClassId kind n).toList := by
  unfold vcClassId
  simp only [String.toList_append, printable_append]
  exact ⟨⟨⟨printable_of_all rfl, h⟩, printable_of_all rfl⟩, printable_toString _⟩

theorem accessEffects_classes {site : Site} {txt : AccessText} (hkind : Printable txt.kind.toList)
    (t : Maps) (allocId : Nat) (offset : Z3Int) (size : Option UInt64) {after : List Effect}
    (hafter : PlainClasses after) :
    PlainClasses (accessEffects site txt t allocId offset size after) := by
  unfold accessEffects
  split
  · exact plainClasses_nil rfl
  · split
    · exact plainClasses_nil rfl
    · split
      · exact plainClasses_nil rfl
      · exact List.forall_mem_cons.mpr ⟨printable_vcClassId hkind _, hafter⟩

theorem irqEffects_classes (e : Env) (site : Site) (kind : String) (allocId : Nat) :
    PlainClasses (irqEffects e site kind allocId) := by
  unfold irqEffects
  split
  · refine List.forall_mem_singleton.mpr ?_
    simp only [String.toList_append, printable_append]
    exact ⟨printable_of_all rfl, printable_toString allocId⟩
  · exact plainClasses_nil rfl

theorem regionEffects_classes {site : Site} {txt : AccessText} (hkind : Printable txt.kind.toList)
    (t : Maps) (op : Operand) (len : UInt64) : PlainClasses (regionEffects site txt t op len) := by
  unfold regionEffects
  split
  · exact plainClasses_nil rfl
  · split
    · exact accessEffects_classes hkind t _ _ _ (plainClasses_nil rfl)
    · exact plainClasses_nil rfl

theorem memoryEffects_classes (e : Env) {site : Site} {txt : AccessText}
    (hkind : Printable txt.kind.toList) (kind : String) (t : Maps) (name : Name) (ty : IrType) :
    PlainClasses (memoryEffects e site txt kind t name ty) := by
  unfold memoryEffects
  split
  · exact accessEffects_classes hkind t _ _ _ (irqEffects_classes e site kind _)
  · exact plainClasses_nil rfl

theorem callEffects_classes (e : Env) (site : Site) (call : Call) (t : Maps) :
    PlainClasses (callEffects e site call t) := by
  unfold callEffects
  cases callArm e.dmaPolicy (functionNameOfCall call) with
  | kmalloc =>
      refine plainClasses_nil ?_
      simp only [kmallocEffects]
      repeat' split
      all_goals rfl
  | kcalloc =>
      refine plainClasses_nil ?_
      simp only [kcallocEffects]
      repeat' split
      all_goals rfl
  | kfree =>
      refine plainClasses_nil ?_
      simp only [kfreeEffects]
      repeat' split
      all_goals rfl
  | memset =>
      simp only [memsetEffects]
      repeat' split
      case h_2 =>
        have hkind : Printable "memset".toList := printable_of_all rfl
        exact regionEffects_classes hkind t _ _
      all_goals exact plainClasses_nil rfl
  | memcpy =>
      simp only [memcpyEffects]
      repeat' split
      case h_2 =>
        have hdest : Printable ("memcpy_" ++ "destination").toList := by decide
        have hsource : Printable ("memcpy_" ++ "source").toList := by decide
        exact plainClasses_append (regionEffects_classes hdest t _ _)
          (regionEffects_classes hsource t _ _)
      all_goals exact plainClasses_nil rfl
  | unnamed =>
      simp only [unnamedEffects]
      repeat' split
      case h_2.isFalse =>
        have hclass : Printable "class::inline_asm::opaque".toList := printable_of_all rfl
        exact List.forall_mem_singleton.mpr hclass
      all_goals exact plainClasses_nil rfl
  | dmaAlloc =>
      simp only [dmaAllocEffects]
      repeat' split
      case h_2 =>
        exact List.forall_mem_singleton.mpr (printable_vcClassId (printable_of_all rfl) _)
      all_goals exact plainClasses_nil rfl
  | dmaMap =>
      simp only [dmaMapEffects]
      repeat' split
      case h_2 =>
        exact List.forall_mem_singleton.mpr (printable_vcClassId (printable_of_all rfl) _)
      all_goals exact plainClasses_nil rfl
  | iommuMap => exact plainClasses_nil rfl
  | untracked => exact plainClasses_nil rfl

/-- **One instruction** raises conditions of printable classes, if any. -/
theorem effects_classes (e : Env) (site : Site) (t : Maps) : PlainClasses (effects e site t) := by
  have hstore : Printable "store".toList := printable_of_all rfl
  have hload : Printable "load".toList := printable_of_all rfl
  unfold effects
  cases site.instr with
  | call call => exact callEffects_classes e site call t
  | getElementPtr gep =>
      refine plainClasses_nil ?_
      simp only [gepEffects]
      repeat' split
      all_goals rfl
  | add op0 op1 dest =>
      refine plainClasses_nil ?_
      simp only [addEffects, arithEffects]
      repeat' split
      all_goals rfl
  | sub op0 op1 dest =>
      refine plainClasses_nil ?_
      simp only [subEffects, arithEffects, List.filterMap_append]
      repeat' split
      all_goals rfl
  | ptrToInt operand toType dest => cases operand <;> exact plainClasses_nil rfl
  | intToPtr operand toType dest => cases operand <;> exact plainClasses_nil rfl
  | bitCast operand toType dest => cases operand <;> exact plainClasses_nil rfl
  | store address value =>
      simp only
      cases operandLocalName address with
      | none => exact plainClasses_nil rfl
      | some destName => exact memoryEffects_classes e hstore _ _ _ _
  | load address loadedTy dest =>
      simp only
      cases operandLocalName address with
      | none => exact plainClasses_nil rfl
      | some srcName => exact memoryEffects_classes e hload _ _ _ _
  | alloca dest => exact plainClasses_nil rfl
  | other opcode operands dest => exact plainClasses_nil rfl

-- ── The file of a run ────────────────────────────────────────────────────────────

/-- What stands after the name in an ID has no control characters. -/
theorem printable_vcId {ks : List String} (hks : ks ∈ kindLists) {kind : String}
    (hkind : kind ∈ ks) {name : String} (hname : Printable name.toList) (b i : Nat) :
    Printable (vcId name b i kind).toList := by
  have hkinds : ∀ ks ∈ kindLists, ∀ k ∈ ks, Printable k.toList := by decide
  unfold vcId
  simp only [String.toList_append, printable_append]
  exact ⟨⟨⟨⟨⟨⟨hname, printable_of_all rfl⟩, printable_toString b⟩, printable_of_all rfl⟩,
    printable_toString i⟩, printable_of_all rfl⟩, hkinds ks hks kind hkind⟩

section Run

variable (m : Module) (host : Host) (mode : HitlMode) (approved classes : Finset String)
variable (asmP : InlineAsmPolicy) (dmaP : DmaPolicy)

/-- The logs of a run have a control character somewhere iff an ID has. -/
theorem entries_printable_iff :
    (∀ item ∈ entries (analyze m host (.fresh mode approved classes) asmP dmaP).2,
      Printable item.toList) ↔
    ∀ id ∈ (analyze m host (.fresh mode approved classes) asmP dmaP).2.seen,
      Printable id.toList := by
  rw [analyze_gate]
  unfold entries
  simp only [List.forall_mem_append, logAll, HitlGate.fresh, List.nil_append, List.forall_mem_map]
  constructor
  · rintro ⟨⟨⟨hseen, -⟩, -⟩, -⟩
    exact hseen
  · intro hseen
    have hclass : ∀ vc ∈ moduleLog m host (.fresh mode approved classes) asmP dmaP,
        Printable vc.2.toList := by
      intro vc hvc
      obtain ⟨site, -, t, hvc⟩ := mem_effects_of_mem_moduleLog hvc
      exact effects_classes _ site t vc hvc
    exact ⟨⟨⟨hseen, fun vc hvc => hseen vc (List.mem_of_mem_filter hvc)⟩, hclass⟩,
      fun vc hvc => hclass vc (List.mem_of_mem_filter hvc)⟩

/-- **The file of a run.**  Whatever the mode and the approvals, it is JSON iff no logged ID has a
    control character, and then it carries the mode, the counts and the logs.  So it always is if
    the functions of the module have printable names. -/
theorem emission_json_iff :
    (∀ v, Decodes (emitHitlVcs (analyze m host (.fresh mode approved classes) asmP dmaP).2) v ↔
      (∀ id ∈ (analyze m host (.fresh mode approved classes) asmP dmaP).2.seen,
        Printable id.toList)
      ∧ v = fieldsValue
        (emissionFields (analyze m host (.fresh mode approved classes) asmP dmaP).2))
    ∧ ((∀ f ∈ m.functions, Printable f.name.toList) →
        Decodes (emitHitlVcs (analyze m host (.fresh mode approved classes) asmP dmaP).2)
          (fieldsValue
            (emissionFields (analyze m host (.fresh mode approved classes) asmP dmaP).2))) := by
  have hiff := entries_printable_iff m host mode approved classes asmP dmaP
  refine ⟨fun v => by rw [emission_json_gate_iff, hiff], fun hnames => ?_⟩
  rw [emission_json_gate_iff, hiff]
  refine ⟨fun id hid => ?_, rfl⟩
  rw [analyze_gate] at hid
  obtain ⟨vc, hvc, rfl⟩ := List.mem_map.mp hid
  obtain ⟨f, hf, b, i, ks, hks, kind, hkind, heq⟩ := mem_moduleLog hvc
  rw [heq]
  exact printable_vcId hks hkind (hnames f hf) b i

end Run

end SkvEmitJson

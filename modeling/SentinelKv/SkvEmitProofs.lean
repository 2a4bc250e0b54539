import SentinelKv.QuotedListProofs
import SentinelKv.SkvVerdictJsonProofs

/-!
# The emitted verification conditions

`emit_hitl_vcs` writes the four logs of the gate to a file: for each of them the number of
distinct entries and an array of them, sorted.  The verdict reports the same four numbers, which
`analyze` counts with hash sets.  The entries are made of function names of the analysed module
and may hold any character.

* **`emission_agrees`** — of every run of `analyze`: the arrays are strictly sorted and have the
  members of the logs, the counts are those of the outcome, and a reader that splits an array at
  the quotes that are not escaped gets back the entries, whatever they are made of.
-/

namespace SkvEmit

open QuotedList SkvIr SkvGate SkvAnalyze SkvSignature SkvVerdictJson

-- ── The order of strings ─────────────────────────────────────────────────────────

/-- The bytes of a string. -/
def utf8 (s : String) : List Nat := s.toUTF8.data.toList.map UInt8.toNat

/-- `Ord` of Rust strings: by bytes. -/
def strLe (x y : String) : Prop := utf8 x ≤ utf8 y

instance : DecidableRel strLe := fun x y => inferInstanceAs (Decidable (utf8 x ≤ utf8 y))

instance : Std.Total strLe := ⟨fun x y => le_total (utf8 x) (utf8 y)⟩

instance : IsTrans String strLe := ⟨fun _ _ _ hxy hyz => le_trans hxy hyz⟩

theorem utf8_inj {x y : String} (h : utf8 x = utf8 y) : x = y := by
  have hbytes : x.toUTF8.data.toList = y.toUTF8.data.toList :=
    List.map_injective_iff.mpr (fun _ _ hb => UInt8.toNat_inj.mp hb) h
  have hdata : x.toUTF8.data = y.toUTF8.data := Array.toList_inj.mp hbytes
  exact String.toByteArray_inj.mp (ByteArray.ext hdata)

instance : Std.Antisymm strLe := ⟨fun _ _ hxy hyx => utf8_inj (le_antisymm hxy hyx)⟩

-- ── The file ─────────────────────────────────────────────────────────────────────

/-- `clone`, `sort` and `dedup`. -/
def distinctSorted (log : List String) : List String := sortDedup strLe log

/-- `item.replace('\\', "\\\\").replace('"', "\\\"")`. -/
def escapeItem (item : Text) : Text :=
  replaceChar '"' ['\\', '"'] (replaceChar '\\' ['\\', '\\'] item)

/-- One turn of the loop of `json_array`. -/
def pushItem (out : Text) (x : String × Nat) : Text :=
  (if x.2 > 0 then out ++ [','] else out) ++ ['"'] ++ escapeItem x.1.toList ++ ['"']

/-- `json_array`. -/
def jsonArray (items : List String) : Text := items.zipIdx.foldl pushItem ['['] ++ [']']

/-- The text with its four counts. -/
def hitlVcsText (mode : HitlMode) (seenCount blockedCount seenClassCount blockedClassCount : Nat)
    (seen blocked seenClasses blockedClasses : Text) : Text :=
  "\x7b\"hitl_mode\":\"".toList ++ (hitlLabel mode).toList
    ++ "\",\"seen_count\":".toList ++ (toString seenCount).toList
    ++ ",\"blocked_count\":".toList ++ (toString blockedCount).toList
    ++ ",\"seen_class_count\":".toList ++ (toString seenClassCount).toList
    ++ ",\"blocked_class_count\":".toList ++ (toString blockedClassCount).toList
    ++ ",\"seen_vcs\":".toList ++ seen ++ ",\"blocked_vcs\":".toList ++ blocked
    ++ ",\"seen_classes\":".toList ++ seenClasses
    ++ ",\"blocked_classes\":".toList ++ blockedClasses ++ "\x7d\n".toList

/-- What `emit_hitl_vcs` writes. -/
def emitHitlVcs (gate : HitlGate) : Text :=
  let seen := distinctSorted gate.seen
  let blocked := distinctSorted gate.blocked
  let seenClasses := distinctSorted gate.seenClasses
  let blockedClasses := distinctSorted gate.blockedClasses
  hitlVcsText gate.mode seen.length blocked.length seenClasses.length blockedClasses.length
    (jsonArray seen) (jsonArray blocked) (jsonArray seenClasses) (jsonArray blockedClasses)

-- ── Reading an array ─────────────────────────────────────────────────────────────

/-- The reader: split at the quotes that are not escaped, and undo the escapes. -/
def readArray (text : Text) : List String := (quotedStrings '\\' '"' text).map String.ofList

/-- The backslash is replaced first, so the second replacement does not touch its escapes. -/
theorem escapeItem_eq (item : Text) : escapeItem item = escape '\\' '"' item := by
  unfold escapeItem replaceChar escape
  rw [List.flatMap_assoc]
  refine List.flatMap_congr (fun c _ => ?_)
  unfold escapeSymbol
  split_ifs with hslash hquote
  · rfl
  · rw [hquote]
    rfl
  · simp only [List.flatMap_cons, List.flatMap_nil, List.append_nil, if_neg hquote]

/-- One item, with the comma before it. -/
def quotedItem (x : String × Nat) : Text :=
  (if x.2 > 0 then [','] else []) ++ '"' :: (escape '\\' '"' x.1.toList ++ ['"'])

theorem pushItem_eq (out : Text) (x : String × Nat) : pushItem out x = out ++ quotedItem x := by
  unfold pushItem quotedItem
  rw [escapeItem_eq]
  split_ifs
  · simp
  · simp

/-- The loop puts the items one after the other. -/
theorem foldl_pushItem (xs : List (String × Nat)) : ∀ out : Text,
    xs.foldl pushItem out = out ++ xs.flatMap quotedItem := by
  induction xs with
  | nil =>
      intro out
      exact (List.append_nil out).symm
  | cons x xs ih =>
      intro out
      rw [List.foldl_cons, ih, pushItem_eq, List.flatMap_cons, List.append_assoc]

theorem quotedStrings_item (x : String × Nat) (rest : Text) :
    quotedStrings '\\' '"' (quotedItem x ++ rest)
      = x.1.toList :: quotedStrings '\\' '"' rest := by
  have hcomma : Plain '\\' '"' (if x.2 > 0 then [','] else []) := by
    intro c hc
    split_ifs at hc
    · rw [List.mem_singleton.mp hc]
      decide
    · cases hc
  unfold quotedItem
  rw [List.append_assoc, quotedStrings_skip hcomma, List.cons_append, List.append_assoc,
    List.singleton_append, quotedStrings_quote (by decide)]

theorem quotedStrings_items (xs : List (String × Nat)) (rest : Text) :
    quotedStrings '\\' '"' (xs.flatMap quotedItem ++ rest)
      = xs.map (fun x => x.1.toList) ++ quotedStrings '\\' '"' rest := by
  induction xs with
  | nil => rfl
  | cons x xs ih =>
      rw [List.flatMap_cons, List.append_assoc, quotedStrings_item, ih]
      rfl

/-- **An array is read back**, for any strings, and it ends where it should. -/
theorem readArray_jsonArray (items : List String) (rest : Text) :
    readArray (jsonArray items ++ rest) = items ++ readArray rest := by
  have hopen : Plain '\\' '"' ['['] := by
    intro c hc
    rw [List.mem_singleton.mp hc]
    decide
  have hclose : Plain '\\' '"' [']'] := by
    intro c hc
    rw [List.mem_singleton.mp hc]
    decide
  have hitems : items.zipIdx.map (fun x => x.1.toList) = items.map String.toList := by
    rw [← congrArg (List.map String.toList) (List.zipIdx_map_fst 0 items), List.map_map]
    rfl
  unfold readArray jsonArray
  rw [foldl_pushItem, List.append_assoc, List.append_assoc, quotedStrings_skip hopen,
    quotedStrings_items, quotedStrings_skip hclose, hitems, List.map_append, List.map_map]
  have hback : items.map (String.ofList ∘ String.toList) = items :=
    (List.map_congr_left (fun s _ => String.ofList_toList)).trans (List.map_id items)
  rw [hback]

-- ── Emission and verdict ─────────────────────────────────────────────────────────

theorem distinctSorted_increasing (log : List String) :
    (distinctSorted log).Pairwise (fun x y => utf8 x < utf8 y) := by
  refine (sortDedup_pairwise strLe log).imp ?_
  rintro x y ⟨hle, hne⟩
  exact lt_of_le_of_ne hle (fun heq => hne (utf8_inj heq))

/-- **Emission and verdict agree.**  In every run of `analyze` the file has the four counts of the
    outcome and, for each log, an array that is strictly sorted, has exactly the members of the
    log, and from which they are read back; arrays of any other strings are read back as well. -/
theorem emission_agrees (m : Module) (host : Host) (gate : HitlGate) (asmP : InlineAsmPolicy)
    (dmaP : DmaPolicy) :
    (∀ log ∈ [(analyze m host gate asmP dmaP).2.seen, (analyze m host gate asmP dmaP).2.blocked,
          (analyze m host gate asmP dmaP).2.seenClasses,
          (analyze m host gate asmP dmaP).2.blockedClasses],
        (distinctSorted log).Pairwise (fun x y => utf8 x < utf8 y)
          ∧ (∀ x, x ∈ distinctSorted log ↔ x ∈ log)
          ∧ readArray (jsonArray (distinctSorted log)) = distinctSorted log)
      ∧ emitHitlVcs (analyze m host gate asmP dmaP).2
          = hitlVcsText (analyze m host gate asmP dmaP).2.mode
              (analyze m host gate asmP dmaP).1.hitlSeenVcs
              (analyze m host gate asmP dmaP).1.hitlBlockedVcs
              (analyze m host gate asmP dmaP).1.hitlSeenClasses
              (analyze m host gate asmP dmaP).1.hitlBlockedClasses
              (jsonArray (distinctSorted (analyze m host gate asmP dmaP).2.seen))
              (jsonArray (distinctSorted (analyze m host gate asmP dmaP).2.blocked))
              (jsonArray (distinctSorted (analyze m host gate asmP dmaP).2.seenClasses))
              (jsonArray (distinctSorted (analyze m host gate asmP dmaP).2.blockedClasses))
      ∧ ∀ items : List String, readArray (jsonArray items) = items := by
  have hread : ∀ items : List String, readArray (jsonArray items) = items := by
    intro items
    have h := readArray_jsonArray items []
    rw [List.append_nil, show readArray [] = [] from rfl, List.append_nil] at h
    exact h
  refine ⟨fun log _ => ⟨distinctSorted_increasing log, fun x => mem_sortDedup strLe, hread _⟩, ?_,
    hread⟩
  have hcount : ∀ log : List String, (distinctSorted log).length = log.dedup.length :=
    sortDedup_length strLe
  unfold emitHitlVcs
  simp only [hcount]
  rfl

end SkvEmit

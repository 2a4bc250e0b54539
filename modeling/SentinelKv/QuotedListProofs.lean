import Mathlib.Data.List.Destutter
import Mathlib.Data.List.Sort

/-!
# Lists of distinct items, and how they are printed between quotes

Two things that a report does with a log:

* **`sortDedup`** sorts and then drops what equals its neighbour.  `sortDedup_pairwise`,
  `mem_sortDedup` and **`sortDedup_length`** say that the result is strictly sorted, has the same
  members, and is as long as there are distinct ones;
* **`escape`** puts an escape symbol before every escape symbol and every quote, so that an item
  can stand between quotes.  A reader that splits at the quotes that are not escaped and undoes
  the escapes (`quotedStrings`) gets back each item, whatever symbols it is made of
  (**`quotedStrings_quote`**).
-/

namespace QuotedList

-- ── Sorting and dropping repetitions ─────────────────────────────────────────────

section Sorting

variable {α : Type} [DecidableEq α] (r : α → α → Prop) [DecidableRel r]

/-- Sort, then drop every item that equals the one before it. -/
def sortDedup (l : List α) : List α := (l.insertionSort r).destutter (· ≠ ·)

variable [Std.Total r] [IsTrans α r] [Std.Antisymm r]

theorem sortDedup_eq (l : List α) : sortDedup r l = (l.insertionSort r).dedup :=
  (List.pairwise_insertionSort r l).destutter_eq_dedup

/-- The result is sorted, without repetitions. -/
theorem sortDedup_pairwise (l : List α) :
    (sortDedup r l).Pairwise (fun a b => r a b ∧ a ≠ b) := by
  rw [sortDedup_eq]
  have hsorted : ((l.insertionSort r).dedup).Pairwise r :=
    (List.pairwise_insertionSort r l).sublist (List.dedup_sublist _)
  exact hsorted.and (List.nodup_dedup _)

theorem mem_sortDedup {l : List α} {a : α} : a ∈ sortDedup r l ↔ a ∈ l := by
  rw [sortDedup_eq, List.mem_dedup, List.mem_insertionSort]

/-- The two ways of counting distinct items agree. -/
theorem sortDedup_length (l : List α) : (sortDedup r l).length = l.dedup.length := by
  rw [sortDedup_eq]
  exact ((List.perm_insertionSort r l).dedup).length_eq

end Sorting

-- ── Quoting ──────────────────────────────────────────────────────────────────────

section Quoting

variable {α : Type} [DecidableEq α] (b q : α)

/-- One symbol of an item: the escape symbol `b` and the quote `q` get a `b` before them. -/
def escapeSymbol (c : α) : List α := if c = b then [b, b] else if c = q then [b, q] else [c]

def escape (w : List α) : List α := w.flatMap (escapeSymbol b q)

/-- The symbol joins the first piece. -/
def joinFirst (c : α) : List (List α) → List (List α)
  | [] => [[c]]
  | p :: ps => (c :: p) :: ps

/-- The pieces of a text between quotes that are not escaped; `escaped` says that the symbol
    before was an escape symbol. -/
def splitQuotes : (escaped : Bool) → List α → List (List α)
  | _, [] => [[]]
  | true, c :: cs => joinFirst c (splitQuotes false cs)
  | false, c :: cs =>
      if c = q then [] :: splitQuotes false cs else joinFirst c (splitQuotes (decide (c = b)) cs)

/-- Undo the two escapes. -/
def unescape : List α → List α
  | [] => []
  | [c] => [c]
  | c :: d :: cs =>
      if c = b ∧ (d = b ∨ d = q) then d :: unescape cs else c :: unescape (d :: cs)

/-- Every second piece: what stands inside quotes. -/
def inside {β : Type} : List β → List β
  | _ :: w :: rest => w :: inside rest
  | _ => []

/-- The reader. -/
def quotedStrings (text : List α) : List (List α) :=
  (inside (splitQuotes b q false text)).map (unescape b q)

variable {b q}

/-- No quote and no escape symbol. -/
def Plain (b q : α) (p : List α) : Prop := ∀ c ∈ p, c ≠ b ∧ c ≠ q

theorem splitQuotes_plain_symbol {c : α} (h : c ≠ b ∧ c ≠ q) (cs : List α) :
    splitQuotes b q false (c :: cs) = joinFirst c (splitQuotes b q false cs) := by
  show (if c = q then _ else joinFirst c (splitQuotes b q (decide (c = b)) cs)) = _
  rw [if_neg h.2, decide_eq_false h.1]

/-- An escape symbol takes the next symbol with it. -/
theorem splitQuotes_escaped (hbq : b ≠ q) (c : α) (cs : List α) :
    splitQuotes b q false (b :: c :: cs)
      = joinFirst b (joinFirst c (splitQuotes b q false cs)) := by
  show (if b = q then _ else joinFirst b (splitQuotes b q (decide (b = b)) (c :: cs))) = _
  rw [if_neg hbq, decide_eq_true rfl]
  rfl

theorem escape_cons (c : α) (cs : List α) :
    escape b q (c :: cs) = escapeSymbol b q c ++ escape b q cs := List.flatMap_cons

/-- A symbol is escaped, or plain. -/
theorem escapeSymbol_cases (c : α) :
    ((c = b ∨ c = q) ∧ escapeSymbol b q c = [b, c])
      ∨ ((c ≠ b ∧ c ≠ q) ∧ escapeSymbol b q c = [c]) := by
  unfold escapeSymbol
  split_ifs with hb hq
  · exact Or.inl ⟨Or.inl hb, by rw [hb]⟩
  · exact Or.inl ⟨Or.inr hq, by rw [hq]⟩
  · exact Or.inr ⟨⟨hb, hq⟩, rfl⟩

/-- **No item can end its own quotation.** -/
theorem splitQuotes_escape (hbq : b ≠ q) (w rest : List α) :
    splitQuotes b q false (escape b q w ++ q :: rest)
      = escape b q w :: splitQuotes b q false rest := by
  induction w with
  | nil => exact if_pos rfl
  | cons c cs ih =>
      rw [escape_cons, List.append_assoc]
      rcases escapeSymbol_cases (b := b) (q := q) c with ⟨-, hc⟩ | ⟨hplain, hc⟩
      · rw [hc, List.cons_append, List.singleton_append, splitQuotes_escaped hbq, ih]
        rfl
      · rw [hc, List.singleton_append, splitQuotes_plain_symbol hplain, ih]
        rfl

theorem unescape_of_ne {c : α} (h : c ≠ b) (cs : List α) :
    unescape b q (c :: cs) = c :: unescape b q cs := by
  cases cs with
  | nil => rfl
  | cons d ds => exact if_neg (fun hc => h hc.1)

/-- **Escaping can be undone.** -/
theorem unescape_escape (w : List α) : unescape b q (escape b q w) = w := by
  induction w with
  | nil => rfl
  | cons c cs ih =>
      rw [escape_cons]
      rcases escapeSymbol_cases (b := b) (q := q) c with ⟨hescaped, hc⟩ | ⟨hplain, hc⟩
      · rw [hc, List.cons_append, List.singleton_append]
        show (if b = b ∧ (c = b ∨ c = q) then _ else _) = _
        rw [if_pos ⟨rfl, hescaped⟩, ih]
      · rw [hc, List.singleton_append, unescape_of_ne hplain.1, ih]

omit [DecidableEq α] in
theorem inside_joinFirst (c : α) (ps : List (List α)) : inside (joinFirst c ps) = inside ps := by
  cases ps with
  | nil => rfl
  | cons p ps =>
      cases ps with
      | nil => rfl
      | cons w rest => rfl

/-- Outside of quotes plain symbols are skipped. -/
theorem quotedStrings_skip {p : List α} (hp : Plain b q p) (rest : List α) :
    quotedStrings b q (p ++ rest) = quotedStrings b q rest := by
  induction p with
  | nil => rfl
  | cons c cs ih =>
      rw [← ih (fun x hx => hp x (List.mem_cons_of_mem c hx))]
      unfold quotedStrings
      rw [List.cons_append, splitQuotes_plain_symbol (hp c List.mem_cons_self), inside_joinFirst]

/-- **A quoted item is read back**, and the reader goes on behind it. -/
theorem quotedStrings_quote (hbq : b ≠ q) (w rest : List α) :
    quotedStrings b q (q :: (escape b q w ++ q :: rest)) = w :: quotedStrings b q rest := by
  have hopen : splitQuotes b q false (q :: (escape b q w ++ q :: rest))
      = [] :: splitQuotes b q false (escape b q w ++ q :: rest) := if_pos rfl
  rw [quotedStrings, hopen, splitQuotes_escape hbq]
  show unescape b q (escape b q w) :: _ = _
  rw [unescape_escape]
  rfl

end Quoting

end QuotedList

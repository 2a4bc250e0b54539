import Mathlib.Data.List.Basic
import Mathlib.Tactic.Common

/-!
# Two line readers

* **`fgetsAll`** is a loop over `fgets`: pieces of at most `n` symbols, each up to and with the
  first delimiter.  A long line comes in several pieces.
* **`readLines`** reads up to each delimiter into a buffer of `n` symbols and gives up on a line
  that does not fit with its delimiter.

Both see the lines of **`splitLines`**: `readLines_of_fit` says that the second reader returns them
or nothing, and **`findSome?_fgetsAll`** that what is first found in the pieces of the first
reader is first found in the pieces of the lines.
-/

namespace LineReader

variable {α β : Type} [DecidableEq α] (d : α)

-- ── Definitions ──────────────────────────────────────────────────────────────────

/-- The lines of a text, without their delimiters; a last line needs none. -/
def splitLines : List α → List (List α)
  | [] => []
  | b :: bs =>
      if b = d then [] :: splitLines bs
      else
        match splitLines bs with
        | [] => [[b]]
        | l :: ls => (b :: l) :: ls

/-- What one `fgets` of `n` usable symbols takes: up to and with the first delimiter. -/
def fgetsTake : Nat → List α → List α
  | 0, _ => []
  | _ + 1, [] => []
  | n + 1, b :: bs => if b = d then [b] else b :: fgetsTake n bs

/-- The pieces of a text; each call takes at least one symbol, so the length is fuel enough. -/
def fgetsPieces (n : Nat) : Nat → List α → List (List α)
  | 0, _ => []
  | _ + 1, [] => []
  | fuel + 1, b :: bs =>
      fgetsTake d n (b :: bs)
        :: fgetsPieces n fuel ((b :: bs).drop (fgetsTake d n (b :: bs)).length)

/-- `while (fgets(buf, n + 1, f) != NULL)`. -/
def fgetsAll (n : Nat) (text : List α) : List (List α) := fgetsPieces d n text.length text

/-- One line into a buffer of `n` symbols, and what is left; `none` when it is too long. -/
def readUntil : Nat → List α → Option (List α × List α)
  | 0, _ => none
  | _ + 1, [] => some ([], [])
  | n + 1, b :: bs =>
      if b = d then some ([], bs) else (readUntil n bs).map (fun r => (b :: r.1, r.2))

/-- All lines, or `none` when one of them is too long. -/
def readAll (n : Nat) : Nat → List α → Option (List (List α))
  | 0, _ => some []
  | _ + 1, [] => some []
  | fuel + 1, b :: bs =>
      (readUntil d n (b :: bs)).bind (fun r => (readAll n fuel r.2).map (fun ls => r.1 :: ls))

def readLines (n : Nat) (text : List α) : Option (List (List α)) := readAll d n text.length text

-- ── The first line ───────────────────────────────────────────────────────────────

/-- A text with a delimiter in it. -/
theorem splitLines_append {l : List α} (hl : d ∉ l) (rest : List α) :
    splitLines d (l ++ d :: rest) = l :: splitLines d rest := by
  induction l with
  | nil => exact if_pos rfl
  | cons b bs ih =>
      have hb : b ≠ d := fun heq => hl (heq ▸ List.mem_cons_self)
      show (if b = d then _ else match splitLines d (bs ++ d :: rest) with
        | [] => [[b]] | l :: ls => (b :: l) :: ls) = _
      rw [if_neg hb, ih (fun hmem => hl (List.mem_cons_of_mem b hmem))]

/-- A text without a delimiter is one line, unless it is empty. -/
theorem splitLines_of_not_mem {l : List α} (hl : d ∉ l) (hne : l ≠ []) : splitLines d l = [l] := by
  induction l with
  | nil => exact absurd rfl hne
  | cons b bs ih =>
      have hb : b ≠ d := fun heq => hl (heq ▸ List.mem_cons_self)
      show (if b = d then _ else match splitLines d bs with
        | [] => [[b]] | l :: ls => (b :: l) :: ls) = _
      rw [if_neg hb]
      by_cases hbs : bs = []
      · rw [hbs]
        rfl
      · rw [ih (fun hmem => hl (List.mem_cons_of_mem b hmem)) hbs]

/-- A text splits at its first delimiter, if it has one. -/
theorem first_line (text : List α) :
    d ∉ text ∨ ∃ l rest, text = l ++ d :: rest ∧ d ∉ l := by
  by_cases hd : d ∈ text
  · exact Or.inr (List.eq_append_cons_of_mem hd)
  · exact Or.inl hd

/-- **Induction on the lines** of a text: it is empty, a last line, or a line before a text. -/
@[elab_as_elim]
theorem lines_induction {motive : List α → Prop} (text : List α) (nil : motive [])
    (last : ∀ l, d ∉ l → l ≠ [] → motive l)
    (line : ∀ l rest, d ∉ l → motive rest → motive (l ++ d :: rest)) : motive text := by
  induction hlen : text.length using Nat.strongRecOn generalizing text with
  | ind k ih =>
      subst hlen
      rcases first_line d text with hd | ⟨l, rest, rfl, hl⟩
      · by_cases hne : text = []
        · rw [hne]
          exact nil
        · exact last text hd hne
      · have hless : rest.length < (l ++ d :: rest).length := by
          rw [List.length_append, List.length_cons]
          omega
        exact line l rest hl (ih rest.length hless rest rfl)

/-- No line has a delimiter in it. -/
theorem not_mem_of_mem_splitLines {text l : List α} (h : l ∈ splitLines d text) : d ∉ l := by
  induction text using lines_induction d with
  | nil => cases h
  | last text hd hne =>
      rw [splitLines_of_not_mem d hd hne, List.mem_singleton] at h
      rw [h]
      exact hd
  | line l' rest hl' ih =>
      rw [splitLines_append d hl'] at h
      rcases List.mem_cons.mp h with rfl | h
      · exact hl'
      · exact ih h

/-- Lines are made of the text. -/
theorem mem_of_mem_splitLines {text l : List α} (h : l ∈ splitLines d text) {b : α} (hb : b ∈ l) :
    b ∈ text := by
  induction text using lines_induction d with
  | nil => cases h
  | last text hd hne =>
      rw [splitLines_of_not_mem d hd hne, List.mem_singleton] at h
      rw [← h]
      exact hb
  | line l' rest hl' ih =>
      rw [splitLines_append d hl'] at h
      rcases List.mem_cons.mp h with rfl | h
      · exact List.mem_append_left _ hb
      · exact List.mem_append_right _ (List.mem_cons_of_mem d (ih h))

/-- A text of complete lines. -/
theorem splitLines_flatMap {ls : List (List α)} (h : ∀ l ∈ ls, d ∉ l) :
    splitLines d (ls.flatMap (fun l => l ++ [d])) = ls := by
  induction ls with
  | nil => rfl
  | cons l ls ih =>
      rw [List.flatMap_cons, List.append_assoc, List.singleton_append,
        splitLines_append d (h l List.mem_cons_self),
        ih (fun x hx => h x (List.mem_cons_of_mem l hx))]

-- ── `fgets` ──────────────────────────────────────────────────────────────────────

/-- A line that fits is taken with its delimiter. -/
theorem fgetsTake_line {l : List α} (hl : d ∉ l) (rest : List α) :
    ∀ n, l.length < n → fgetsTake d n (l ++ d :: rest) = l ++ [d] := by
  induction l with
  | nil =>
      intro n hn
      obtain ⟨m, rfl⟩ := Nat.exists_eq_add_one_of_ne_zero (Nat.pos_iff_ne_zero.mp hn)
      exact if_pos rfl
  | cons b bs ih =>
      intro n hn
      obtain ⟨m, rfl⟩ := Nat.exists_eq_add_one_of_ne_zero (Nat.ne_zero_of_lt hn)
      have hb : b ≠ d := fun heq => hl (heq ▸ List.mem_cons_self)
      show (if b = d then _ else b :: fgetsTake d m (bs ++ d :: rest)) = _
      rw [if_neg hb, ih (fun hmem => hl (List.mem_cons_of_mem b hmem)) m (Nat.lt_of_succ_lt_succ hn)]
      rfl

/-- Without a delimiter in reach, the buffer is filled. -/
theorem fgetsTake_fill {p : List α} (hp : d ∉ p) (rest : List α) :
    fgetsTake d p.length (p ++ rest) = p := by
  induction p with
  | nil => rfl
  | cons b bs ih =>
      have hb : b ≠ d := fun heq => hp (heq ▸ List.mem_cons_self)
      show (if b = d then _ else b :: fgetsTake d bs.length (bs ++ rest)) = _
      rw [if_neg hb, ih (fun hmem => hp (List.mem_cons_of_mem b hmem))]

theorem fgetsTake_all {l : List α} (hl : d ∉ l) : ∀ n, l.length ≤ n → fgetsTake d n l = l := by
  induction l with
  | nil =>
      intro n _
      cases n <;> rfl
  | cons b bs ih =>
      intro n hn
      obtain ⟨m, rfl⟩ := Nat.exists_eq_add_one_of_ne_zero (Nat.ne_zero_of_lt hn)
      have hb : b ≠ d := fun heq => hl (heq ▸ List.mem_cons_self)
      show (if b = d then _ else b :: fgetsTake d m bs) = _
      rw [if_neg hb, ih (fun hmem => hl (List.mem_cons_of_mem b hmem)) m (Nat.le_of_succ_le_succ hn)]

theorem fgetsTake_length_pos {n : Nat} (hn : 0 < n) {text : List α} (h : text ≠ []) :
    0 < (fgetsTake d n text).length := by
  obtain ⟨m, rfl⟩ := Nat.exists_eq_add_one_of_ne_zero (Nat.pos_iff_ne_zero.mp hn)
  obtain ⟨b, bs, rfl⟩ := List.exists_cons_of_ne_nil h
  show 0 < (if b = d then [b] else b :: fgetsTake d m bs).length
  split <;> exact Nat.succ_pos _

theorem fgetsTake_length_le : ∀ (n : Nat) (text : List α), (fgetsTake d n text).length ≤ n := by
  intro n
  induction n with
  | zero => intro text; exact Nat.le_refl _
  | succ n ih =>
      intro text
      cases text with
      | nil => exact Nat.zero_le _
      | cons b bs =>
          show (if b = d then [b] else b :: fgetsTake d n bs).length ≤ n + 1
          split
          · exact Nat.succ_le_succ (Nat.zero_le n)
          · exact Nat.succ_le_succ (ih bs)

/-- No piece is longer than the buffer. -/
theorem length_le_of_mem_fgetsAll {n : Nat} {text p : List α} (h : p ∈ fgetsAll d n text) :
    p.length ≤ n := by
  have hfuel : ∀ (fuel : Nat) (text : List α), p ∈ fgetsPieces d n fuel text → p.length ≤ n := by
    intro fuel
    induction fuel with
    | zero => intro text hp; cases hp
    | succ fuel ih =>
        intro text hp
        cases text with
        | nil => cases hp
        | cons b bs =>
            rcases List.mem_cons.mp hp with rfl | hp
            · exact fgetsTake_length_le d n _
            · exact ih _ hp
  exact hfuel text.length text h

/-- More fuel changes nothing. -/
theorem fgetsPieces_congr {n : Nat} (hn : 0 < n) : ∀ (f g : Nat) (text : List α),
    text.length ≤ f → text.length ≤ g → fgetsPieces d n f text = fgetsPieces d n g text := by
  intro f
  induction f with
  | zero =>
      intro g text hf _
      rw [List.length_eq_zero_iff.mp (Nat.le_zero.mp hf)]
      cases g <;> rfl
  | succ f ih =>
      intro g text hf hg
      cases text with
      | nil => cases g <;> rfl
      | cons b bs =>
          obtain ⟨g, rfl⟩ := Nat.exists_eq_add_one_of_ne_zero (Nat.ne_zero_of_lt hg)
          have hpos := fgetsTake_length_pos d hn (List.cons_ne_nil b bs)
          have hlen : ((b :: bs).drop (fgetsTake d n (b :: bs)).length).length ≤ bs.length := by
            rw [List.length_drop, List.length_cons]
            omega
          show fgetsTake d n (b :: bs) :: _ = fgetsTake d n (b :: bs) :: _
          rw [ih g _ (Nat.le_trans hlen (Nat.le_of_succ_le_succ hf))
            (Nat.le_trans hlen (Nat.le_of_succ_le_succ hg))]

/-- One turn of the loop. -/
theorem fgetsAll_cons {n : Nat} (hn : 0 < n) {text p rest : List α} (htext : text = p ++ rest)
    (hne : text ≠ []) (htake : fgetsTake d n text = p) :
    fgetsAll d n text = p :: fgetsAll d n rest := by
  obtain ⟨b, bs, hbs⟩ := List.exists_cons_of_ne_nil hne
  have hpos := fgetsTake_length_pos d hn hne
  have hdrop : text.drop p.length = rest := by
    rw [htext, List.drop_left]
  have hlen : text.length = p.length + rest.length := by
    rw [htext, List.length_append]
  have hturn : fgetsAll d n text = p :: fgetsPieces d n bs.length rest := by
    show fgetsPieces d n text.length text = _
    rw [← hdrop, ← htake, hbs]
    rfl
  rw [hturn]
  refine congrArg (p :: ·) (fgetsPieces_congr d hn _ _ _ ?_ (Nat.le_refl _))
  rw [htake] at hpos
  rw [hbs, List.length_cons] at hlen
  omega

/-- A line that fits the buffer is one piece. -/
theorem fgetsAll_short {n : Nat} {l : List α} (hl : d ∉ l) (hne : l ≠ []) (hn : l.length ≤ n) :
    fgetsAll d n l = [l] := by
  have hpos : 0 < n := Nat.lt_of_lt_of_le (List.length_pos_iff.mpr hne) hn
  exact fgetsAll_cons d hpos (List.append_nil l).symm hne (fgetsTake_all d hl n hn)

omit [DecidableEq α] in
theorem findSome?_cons_or (f : α → Option β) (a : α) (l : List α) :
    (a :: l).findSome? f = (f a).or (l.findSome? f) := by
  rw [List.findSome?_cons]
  cases f a <;> rfl

omit [DecidableEq α] in
/-- An element that gives nothing, or comes after one that gives something, can go. -/
theorem findSome?_remove {f : α → Option β} {a : α} {before : List α}
    (h : (f a).isSome = true → ∃ b ∈ before, (f b).isSome = true) (after : List α) :
    (before ++ a :: after).findSome? f = (before ++ after).findSome? f := by
  rw [List.findSome?_append, List.findSome?_append, findSome?_cons_or]
  cases ha : f a with
  | none => rw [Option.none_or]
  | some v =>
      rw [ha] at h
      obtain ⟨b, hb, hfb⟩ := h rfl
      obtain ⟨w, hw⟩ := Option.isSome_iff_exists.mp (List.findSome?_isSome_iff.mpr ⟨b, hb, hfb⟩)
      rw [hw, Option.some_or, Option.some_or]

omit [DecidableEq α] in
/-- What a list gives first does not depend on its order when only one element gives anything. -/
theorem findSome?_perm {f : α → Option β} {l l' : List α} (hperm : l'.Perm l)
    (hone : l.countP (fun a => (f a).isSome) ≤ 1) : l'.findSome? f = l.findSome? f := by
  have hfound : (l'.filterMap f).Perm (l.filterMap f) := hperm.filterMap f
  have hlen : (l.filterMap f).length ≤ 1 := by
    rw [List.length_filterMap_eq_countP]
    exact hone
  rw [← List.head?_filterMap, ← List.head?_filterMap]
  rcases Nat.le_one_iff_eq_zero_or_eq_one.mp hlen with h0 | h1
  · rw [List.length_eq_zero_iff.mp h0] at hfound ⊢
    rw [hfound.eq_nil]
  · obtain ⟨v, hv⟩ := List.length_eq_one_iff.mp h1
    rw [hv] at hfound ⊢
    rw [List.perm_singleton.mp hfound]

/-- The pieces of a line and of the text behind it.  A piece counts for what it holds before its
    delimiter, and an empty one for nothing. -/
theorem findSome?_fgetsAll_line {n : Nat} (hn : 0 < n) (f : List α → Option β) (hnil : f [] = none)
    (hline : ∀ l, f (l ++ [d]) = f l) {l : List α} (hl : d ∉ l) (rest : List α) :
    (fgetsAll d n (l ++ d :: rest)).findSome? f
      = ((fgetsAll d n l).findSome? f).or ((fgetsAll d n rest).findSome? f) := by
  induction hlen : l.length using Nat.strongRecOn generalizing l with
  | ind k ih =>
      subst hlen
      have hne : l ++ d :: rest ≠ [] :=
        List.append_ne_nil_of_right_ne_nil _ (List.cons_ne_nil _ _)
      by_cases hfit : l.length < n
      · have hpieces : (fgetsAll d n l).findSome? f = f l := by
          by_cases hnl : l = []
          · rw [hnl, hnil]
            rfl
          · rw [fgetsAll_short d hl hnl (Nat.le_of_lt hfit), findSome?_cons_or]
            exact Option.or_none
        have htext : l ++ d :: rest = (l ++ [d]) ++ rest := by rw [List.append_assoc]; rfl
        rw [fgetsAll_cons d hn htext hne (fgetsTake_line d hl rest n hfit), findSome?_cons_or,
          hline, hpieces]
      · -- the line starts with a full buffer; its pieces are that and the pieces of the rest
        obtain ⟨p, l', rfl, hp⟩ : ∃ p l', l = p ++ l' ∧ p.length = n :=
          ⟨l.take n, l.drop n, (List.take_append_drop n l).symm,
            List.length_take_of_le (Nat.not_lt.mp hfit)⟩
        have hdp : d ∉ p := fun hmem => hl (List.mem_append_left l' hmem)
        have hdl' : d ∉ l' := fun hmem => hl (List.mem_append_right p hmem)
        have htake : ∀ r, fgetsTake d n (p ++ r) = p := by
          intro r
          rw [← hp]
          exact fgetsTake_fill d hdp r
        have hpne : ∀ r, p ++ r ≠ [] := by
          intro r hnil'
          rw [List.append_eq_nil_iff] at hnil'
          rw [hnil'.1] at hp
          exact absurd hp (Nat.ne_of_lt hn)
        have hrest := ih l'.length (by rw [List.length_append]; omega) hdl' rfl
        rw [fgetsAll_cons d hn (List.append_assoc p l' _) hne (by
            rw [List.append_assoc]; exact htake _), findSome?_cons_or, hrest,
          fgetsAll_cons d hn rfl (hpne l') (htake l'), findSome?_cons_or, Option.or_assoc]

/-- **What the pieces give first** is what the lines give first. -/
theorem findSome?_fgetsAll {n : Nat} (hn : 0 < n) (f : List α → Option β) (hnil : f [] = none)
    (hline : ∀ l, f (l ++ [d]) = f l) (text : List α) :
    (fgetsAll d n text).findSome? f
      = (splitLines d text).findSome? (fun l => (fgetsAll d n l).findSome? f) := by
  induction text using lines_induction d with
  | nil => rfl
  | last text hd hne =>
      rw [splitLines_of_not_mem d hd hne, findSome?_cons_or]
      exact (Option.or_none).symm
  | line l rest hl ih =>
      rw [splitLines_append d hl, findSome?_cons_or, findSome?_fgetsAll_line d hn f hnil hline hl,
        ih]

-- ── Reading to the delimiter ─────────────────────────────────────────────────────

theorem readUntil_line {l : List α} (hl : d ∉ l) (rest : List α) :
    ∀ n, l.length < n → readUntil d n (l ++ d :: rest) = some (l, rest) := by
  induction l with
  | nil =>
      intro n hn
      obtain ⟨m, rfl⟩ := Nat.exists_eq_add_one_of_ne_zero (Nat.ne_zero_of_lt hn)
      exact if_pos rfl
  | cons b bs ih =>
      intro n hn
      obtain ⟨m, rfl⟩ := Nat.exists_eq_add_one_of_ne_zero (Nat.ne_zero_of_lt hn)
      have hb : b ≠ d := fun heq => hl (heq ▸ List.mem_cons_self)
      show (if b = d then _ else (readUntil d m (bs ++ d :: rest)).map _) = _
      rw [if_neg hb, ih (fun hmem => hl (List.mem_cons_of_mem b hmem)) m (Nat.lt_of_succ_lt_succ hn)]
      rfl

theorem readUntil_last {l : List α} (hl : d ∉ l) :
    ∀ n, l.length < n → readUntil d n l = some (l, []) := by
  induction l with
  | nil =>
      intro n hn
      obtain ⟨m, rfl⟩ := Nat.exists_eq_add_one_of_ne_zero (Nat.ne_zero_of_lt hn)
      rfl
  | cons b bs ih =>
      intro n hn
      obtain ⟨m, rfl⟩ := Nat.exists_eq_add_one_of_ne_zero (Nat.ne_zero_of_lt hn)
      have hb : b ≠ d := fun heq => hl (heq ▸ List.mem_cons_self)
      show (if b = d then _ else (readUntil d m bs).map _) = _
      rw [if_neg hb, ih (fun hmem => hl (List.mem_cons_of_mem b hmem)) m (Nat.lt_of_succ_lt_succ hn)]
      rfl

/-- A line that does not fit is given up. -/
theorem readUntil_long {l : List α} (hl : d ∉ l) (rest : List α) :
    ∀ n, n ≤ l.length → readUntil d n (l ++ rest) = none := by
  induction l with
  | nil =>
      intro n hn
      rw [Nat.le_zero.mp hn]
      rfl
  | cons b bs ih =>
      intro n hn
      cases n with
      | zero => rfl
      | succ m =>
          have hb : b ≠ d := fun heq => hl (heq ▸ List.mem_cons_self)
          show (if b = d then _ else (readUntil d m (bs ++ rest)).map _) = _
          rw [if_neg hb, ih (fun hmem => hl (List.mem_cons_of_mem b hmem)) m
            (Nat.le_of_succ_le_succ hn)]
          rfl

/-- **Lines that fit are all read.** -/
theorem readLines_of_fit {n : Nat} {text : List α} (hfit : ∀ l ∈ splitLines d text, l.length < n) :
    readLines d n text = some (splitLines d text) := by
  have hfuel : ∀ (fuel : Nat) (text : List α), text.length ≤ fuel →
      (∀ l ∈ splitLines d text, l.length < n) →
      readAll d n fuel text = some (splitLines d text) := by
    intro fuel
    induction fuel with
    | zero =>
        intro text hle _
        rw [List.length_eq_zero_iff.mp (Nat.le_zero.mp hle)]
        rfl
    | succ fuel ih =>
        intro text hle hfit
        by_cases hne : text = []
        · rw [hne]
          rfl
        · have hturn : readAll d n (fuel + 1) text
              = (readUntil d n text).bind (fun r => (readAll d n fuel r.2).map (r.1 :: ·)) := by
            obtain ⟨b, bs, rfl⟩ := List.exists_cons_of_ne_nil hne
            rfl
          rw [hturn]
          rcases first_line d text with hd | ⟨l, rest, rfl, hl⟩
          · rw [splitLines_of_not_mem d hd hne] at hfit ⊢
            rw [readUntil_last d hd n (hfit text List.mem_cons_self), Option.bind_some]
            cases fuel <;> rfl
          · rw [splitLines_append d hl] at hfit ⊢
            rw [List.length_append, List.length_cons] at hle
            rw [readUntil_line d hl rest n (hfit l List.mem_cons_self), Option.bind_some,
              ih rest (by omega) (fun x hx => hfit x (List.mem_cons_of_mem l hx))]
            rfl
  exact hfuel text.length text (Nat.le_refl _) hfit

end LineReader

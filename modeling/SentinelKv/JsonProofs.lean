import Mathlib.Data.Int.Notation
import Mathlib.Data.List.Basic
import Mathlib.Tactic.Common
import Mathlib.Tactic.IntervalCases

/-!
# JSON texts

A decoder for the grammar of RFC 8259, on characters: `value`, `members` and `elements` follow
its productions, `chars` and `number` its two kinds of token.  Strings decode to code points
(surrogate pairs joined), numbers to a decimal mantissa and exponent, objects to the list of
their members.

`fuel` bounds the depth and the number of members; **`Decodes`** asks for some fuel that is
enough, and more fuel changes nothing (`Decodes.unique`).

What a printer needs is a rule for each token it writes and one for the object around them:
`Reads` is the contract of one value, **`decodes_object`** puts the members together, and
**`object_not_decodes`** says that one unreadable member spoils the text.
-/

namespace Json

inductive Value where
  | null
  | bool (b : Bool)
  | num (mantissa exponent : Int)
  | str (s : List Nat)
  | arr (elements : List Value)
  | obj (members : List (List Nat × Value))

-- ── Characters and strings ───────────────────────────────────────────────────────

/-- `ws`. -/
def isWs (c : Char) : Bool := c == ' ' || c == '\t' || c == '\n' || c == '\r'

def skipWs (cs : List Char) : List Char := cs.dropWhile isWs

def hexVal (c : Char) : Option Nat :=
  if '0' ≤ c ∧ c ≤ '9' then some (c.toNat - 48)
  else if 'a' ≤ c ∧ c ≤ 'f' then some (c.toNat - 87)
  else if 'A' ≤ c ∧ c ≤ 'F' then some (c.toNat - 55)
  else none

/-- The characters that may follow a backslash, `u` apart. -/
def escaped (c : Char) : Option Nat :=
  if c = '"' ∨ c = '\\' ∨ c = '/' then some c.toNat
  else if c = 'b' then some 8
  else if c = 'f' then some 12
  else if c = 'n' then some 10
  else if c = 'r' then some 13
  else if c = 't' then some 9
  else none

/-- Put `u` in front of what has been read. -/
def push {α : Type} (u : α) (r : Option (List α × List Char)) : Option (List α × List Char) :=
  r.map (fun r => (u :: r.1, r.2))

/-- `*char quotation-mark`: the code units up to the closing quote. -/
def chars : List Char → Option (List Nat × List Char)
  | [] => none
  | c :: rest =>
      if c = '"' then some ([], rest)
      else if c = '\\' then
        match rest with
        | [] => none
        | x :: rest =>
            if x = 'u' then
              match rest with
              | h₃ :: h₂ :: h₁ :: h₀ :: rest =>
                  match hexVal h₃, hexVal h₂, hexVal h₁, hexVal h₀ with
                  | some d₃, some d₂, some d₁, some d₀ =>
                      push (((d₃ * 16 + d₂) * 16 + d₁) * 16 + d₀) (chars rest)
                  | _, _, _, _ => none
              | _ => none
            else
              match escaped x with
              | some u => push u (chars rest)
              | none => none
      else if c.toNat < 0x20 then none
      else push c.toNat (chars rest)

def isHigh (u : Nat) : Bool := 0xD800 ≤ u && u < 0xDC00

def isLow (u : Nat) : Bool := 0xDC00 ≤ u && u < 0xE000

/-- A surrogate pair is one code point; a lone surrogate is left as it is. -/
def joinSurrogates : List Nat → List Nat
  | [] => []
  | [u] => [u]
  | u :: u' :: us =>
      if isHigh u && isLow u' then
        (0x10000 + (u - 0xD800) * 0x400 + (u' - 0xDC00)) :: joinSurrogates us
      else u :: joinSurrogates (u' :: us)

/-- A string, its opening quote already read. -/
def string (cs : List Char) : Option (List Nat × List Char) :=
  (chars cs).map (fun r => (joinSurrogates r.1, r.2))

-- ── Numbers ──────────────────────────────────────────────────────────────────────

/-- `1*DIGIT`. -/
def digits (cs : List Char) : Option (List Char × List Char) :=
  match cs.takeWhile Char.isDigit with
  | [] => none
  | d :: ds => some (d :: ds, cs.dropWhile Char.isDigit)

/-- `int`: no leading zero. -/
def intPart (cs : List Char) : Option (List Char × List Char) :=
  match cs with
  | [] => none
  | c :: rest => if c = '0' then some (['0'], rest) else digits cs

/-- `[ frac ]`. -/
def fracPart (cs : List Char) : Option (List Char × List Char) :=
  match cs with
  | [] => some ([], [])
  | c :: rest => if c = '.' then digits rest else some ([], c :: rest)

def splitSign (cs : List Char) : Bool × List Char :=
  match cs with
  | [] => (false, [])
  | c :: rest => if c = '-' then (true, rest) else if c = '+' then (false, rest) else (false, cs)

def signed (neg : Bool) (n : Nat) : Int := if neg then -(n : Int) else n

/-- `[ exp ]`. -/
def expPart (cs : List Char) : Option (Int × List Char) :=
  match cs with
  | [] => some (0, [])
  | c :: rest =>
      if c = 'e' ∨ c = 'E' then
        (digits (splitSign rest).2).map
          (fun r => (signed (splitSign rest).1 (Nat.ofDigitChars 10 r.1 0), r.2))
      else some (0, c :: rest)

/-- `int [ frac ] [ exp ]`. -/
def unsigned (neg : Bool) (cs : List Char) : Option (Value × List Char) :=
  (intPart cs).bind fun i =>
  (fracPart i.2).bind fun f =>
  (expPart f.2).map fun e =>
    (.num (signed neg (Nat.ofDigitChars 10 (i.1 ++ f.1) 0)) (e.1 - f.1.length), e.2)

/-- `[ minus ] int [ frac ] [ exp ]`. -/
def number (cs : List Char) : Option (Value × List Char) :=
  match cs with
  | [] => none
  | c :: rest => if c = '-' then unsigned true rest else unsigned false cs

-- ── Values ───────────────────────────────────────────────────────────────────────

def keyword (word : String) (v : Value) (cs : List Char) : Option (Value × List Char) :=
  if word.toList <+: cs then some (v, cs.drop word.length) else none

/-- What follows a member or element: another one, or the closing bracket. -/
def separated {α : Type} (close : Char) (x : α) (more : List Char → Option (List α × List Char))
    (cs : List Char) : Option (List α × List Char) :=
  match skipWs cs with
  | [] => none
  | c :: rest =>
      if c = ',' then push x (more (skipWs rest))
      else if c = close then some ([x], rest)
      else none

/-- What follows an opening bracket: the closing one, or the members. -/
def bracketed {α : Type} (close : Char) (some_ : List Char → Option (List α × List Char))
    (cs : List Char) : Option (List α × List Char) :=
  match skipWs cs with
  | [] => none
  | c :: rest => if c = close then some ([], rest) else some_ (c :: rest)

/-- `name-separator` and what stands before it. -/
def memberName (cs : List Char) : Option (List Nat × List Char) :=
  match cs with
  | [] => none
  | c :: rest =>
      if c = '"' then
        (string rest).bind fun r =>
          match skipWs r.2 with
          | [] => none
          | c :: rest => if c = ':' then some (r.1, skipWs rest) else none
      else none

mutual

/-- `value`, without white space before it. -/
def value : Nat → List Char → Option (Value × List Char)
  | 0, _ => none
  | fuel + 1, cs =>
      match cs with
      | [] => none
      | c :: rest =>
          if c = '\x7b' then
            (bracketed '\x7d' (members fuel) rest).map (fun r => (.obj r.1, r.2))
          else if c = '[' then
            (bracketed ']' (elements fuel) rest).map (fun r => (.arr r.1, r.2))
          else if c = '"' then (string rest).map (fun r => (.str r.1, r.2))
          else if c = 't' then keyword "true" (.bool true) cs
          else if c = 'f' then keyword "false" (.bool false) cs
          else if c = 'n' then keyword "null" .null cs
          else number cs

/-- `member *( value-separator member )`, and the closing brace. -/
def members : Nat → List Char → Option (List (List Nat × Value) × List Char)
  | 0, _ => none
  | fuel + 1, cs =>
      (memberName cs).bind fun name =>
      (value fuel name.2).bind fun v =>
      separated '\x7d' (name.1, v.1) (members fuel) v.2

/-- `value *( value-separator value )`, and the closing bracket. -/
def elements : Nat → List Char → Option (List Value × List Char)
  | 0, _ => none
  | fuel + 1, cs =>
      (value fuel cs).bind fun v => separated ']' v.1 (elements fuel) v.2

end

/-- `JSON-text = ws value ws`. -/
def Decodes (text : List Char) (v : Value) : Prop :=
  ∃ fuel rest, value fuel (skipWs text) = some (v, rest) ∧ skipWs rest = []

-- ── Tokens ───────────────────────────────────────────────────────────────────────

/-- The code points of a text. -/
def points (cs : List Char) : List Nat := cs.map Char.toNat

/-- A character that may stand in a string as it is. -/
def Plain (c : Char) : Prop := 0x20 ≤ c.toNat ∧ c ≠ '"' ∧ c ≠ '\\'

instance (c : Char) : Decidable (Plain c) := inferInstanceAs (Decidable (_ ∧ _ ∧ _))

theorem plain_of_all {cs : List Char} (h : cs.all (fun c => decide (Plain c)) = true) :
    ∀ c ∈ cs, Plain c := fun c hc => of_decide_eq_true (List.all_eq_true.mp h c hc)

theorem chars_quote (rest : List Char) : chars ('"' :: rest) = some ([], rest) := by
  rw [chars.eq_def]
  exact if_pos rfl

theorem chars_plain {c : Char} (h : Plain c) (rest : List Char) :
    chars (c :: rest) = push c.toNat (chars rest) := by
  rw [chars.eq_def]
  simp only [if_neg h.2.1, if_neg h.2.2, if_neg (Nat.not_lt.mpr h.1)]

theorem chars_escaped {x : Char} {u : Nat} (hx : x ≠ 'u') (h : escaped x = some u)
    (rest : List Char) : chars ('\\' :: x :: rest) = push u (chars rest) := by
  have hslash : ('\\' : Char) ≠ '"' := by decide
  rw [chars.eq_def]
  simp only [if_neg hslash, if_neg hx, h, if_true]

/-- A control character ends the reading. -/
theorem chars_control {c : Char} (h : c.toNat < 0x20) (rest : List Char) :
    chars (c :: rest) = none := by
  have hquote : c ≠ '"' := by rintro rfl; exact absurd h (by decide)
  have hslash : c ≠ '\\' := by rintro rfl; exact absurd h (by decide)
  rw [chars.eq_def]
  simp only [if_neg hquote, if_neg hslash, if_pos h]

theorem chars_plain_append {cs : List Char} (h : ∀ c ∈ cs, Plain c) (rest : List Char) :
    chars (cs ++ '"' :: rest) = some (points cs, rest) := by
  induction cs with
  | nil => exact chars_quote rest
  | cons c cs ih =>
      rw [List.cons_append, chars_plain (h c List.mem_cons_self),
        ih (fun x hx => h x (List.mem_cons_of_mem c hx))]
      rfl

/-- Characters are no surrogates. -/
theorem isHigh_char (c : Char) : isHigh c.toNat = false := by
  have hvalid : c.toNat < 0xD800 ∨ (0xDFFF < c.toNat ∧ c.toNat < 0x110000) := c.valid
  unfold isHigh
  rw [Bool.and_eq_false_iff, decide_eq_false_iff_not, decide_eq_false_iff_not]
  omega

theorem joinSurrogates_points : ∀ cs : List Char, joinSurrogates (points cs) = points cs
  | [] => rfl
  | [_] => rfl
  | c :: c' :: cs => by
      have ih := joinSurrogates_points (c' :: cs)
      show joinSurrogates (c.toNat :: c'.toNat :: points cs) = _
      rw [joinSurrogates, isHigh_char, Bool.false_and, if_neg Bool.false_ne_true]
      exact congrArg _ ih

theorem string_of_chars {cs rest : List Char} {s : List Char}
    (h : chars cs = some (points s, rest)) : string cs = some (points s, rest) := by
  rw [string, h, Option.map_some, joinSurrogates_points]

theorem string_plain {cs : List Char} (h : ∀ c ∈ cs, Plain c) (rest : List Char) :
    string (cs ++ '"' :: rest) = some (points cs, rest) :=
  string_of_chars (chars_plain_append h rest)

theorem skipWs_cons {c : Char} (h : isWs c = false) (cs : List Char) :
    skipWs (c :: cs) = c :: cs := by
  rw [skipWs, List.dropWhile_cons_of_neg (by rw [h]; exact Bool.false_ne_true)]

/-- The decimal numeral of a positive number does not start with a zero. -/
theorem toDigits_head {n : Nat} (hn : 0 < n) :
    ∃ d ds, Nat.toDigits 10 n = d :: ds ∧ d ≠ '0' := by
  induction n using Nat.strongRecOn with
  | ind n ih =>
      by_cases hlt : n < 10
      · refine ⟨_, [], Nat.toDigits_of_lt_base hlt, ?_⟩
        interval_cases n <;> decide
      · obtain ⟨d, ds, hd, hne⟩ := ih (n / 10) (by omega) (by omega)
        refine ⟨d, ds ++ [(n % 10).digitChar], ?_, hne⟩
        rw [Nat.toDigits_of_base_le (by omega) (by omega), hd, List.cons_append]

/-- What may follow a number: nothing that would continue it. -/
def NumberEnd (rest : List Char) : Prop :=
  ∀ c ∈ rest.head?, c.isDigit = false ∧ c ≠ '.' ∧ c ≠ 'e' ∧ c ≠ 'E'

theorem unsigned_toDigits (neg : Bool) (n : Nat) {rest : List Char} (h : NumberEnd rest) :
    unsigned neg (Nat.toDigits 10 n ++ rest) = some (.num (signed neg n) 0, rest) := by
  have hdigit : ∀ c ∈ Nat.toDigits 10 n, c.isDigit = true := fun c hc =>
    Nat.isDigit_of_mem_toDigits (by decide) (by decide) hc
  have hint : intPart (Nat.toDigits 10 n ++ rest) = some (Nat.toDigits 10 n, rest) := by
    rcases Nat.eq_zero_or_pos n with rfl | hpos
    · rw [Nat.toDigits_zero, List.singleton_append, intPart, if_pos rfl]
    · obtain ⟨d, ds, hd, hne⟩ := toDigits_head hpos
      rw [hd] at hdigit ⊢
      have hstop : rest.takeWhile Char.isDigit = [] ∧ rest.dropWhile Char.isDigit = rest := by
        cases rest with
        | nil => exact ⟨rfl, rfl⟩
        | cons c rest =>
            have hc : ¬ c.isDigit = true := by rw [(h c rfl).1]; exact Bool.false_ne_true
            exact ⟨List.takeWhile_cons_of_neg hc, List.dropWhile_cons_of_neg hc⟩
      rw [List.cons_append, intPart, if_neg hne, digits, ← List.cons_append,
        List.takeWhile_append_of_pos hdigit, List.dropWhile_append_of_pos hdigit, hstop.1, hstop.2,
        List.append_nil]
  have hfrac : fracPart rest = some ([], rest) := by
    cases rest with
    | nil => rfl
    | cons c rest => rw [fracPart, if_neg (h c rfl).2.1]
  have hexp : expPart rest = some (0, rest) := by
    cases rest with
    | nil => rfl
    | cons c rest => rw [expPart, if_neg (not_or.mpr (h c rfl).2.2)]
  rw [unsigned, hint, Option.bind_some, hfrac, Option.bind_some, hexp, Option.map_some,
    List.append_nil, Nat.ofDigitChars_ten_toDigits]
  rfl

theorem number_int (z : Int) {rest : List Char} (h : NumberEnd rest) :
    number (z.repr.toList ++ rest) = some (.num z 0, rest) := by
  have hrepr : ∀ n : Nat, n.repr.toList = Nat.toDigits 10 n := by
    intro n
    rw [Nat.repr_eq_ofList_toDigits, String.toList_ofList]
  rw [Int.repr_eq_if]
  by_cases hz : 0 ≤ z
  · rw [if_pos hz, hrepr]
    have hread := unsigned_toDigits false z.toNat h
    rw [signed, if_neg Bool.false_ne_true, Int.toNat_of_nonneg hz] at hread
    cases hd : Nat.toDigits 10 z.toNat with
    | nil => exact absurd hd Nat.toDigits_ne_nil
    | cons d ds =>
        rw [hd] at hread
        have hne : d ≠ '-' := by
          rintro rfl
          have := Nat.isDigit_of_mem_toDigits (b := 10) (n := z.toNat) (c := '-') (by decide)
            (by decide) (by rw [hd]; exact List.mem_cons_self)
          exact absurd this (by decide)
        rw [List.cons_append, number, if_neg hne]
        exact hread
  · rw [if_neg hz, String.toList_append, hrepr]
    have hread := unsigned_toDigits true (-z).toNat h
    rw [signed, if_pos rfl, Int.toNat_of_nonneg (by omega), Int.neg_neg] at hread
    exact hread

-- ── Fuel ─────────────────────────────────────────────────────────────────────────

theorem separated_mono {α : Type} {close : Char} {x : α}
    {p q : List Char → Option (List α × List Char)} (h : ∀ cs r, p cs = some r → q cs = some r)
    {cs : List Char} {r : List α × List Char} (hp : separated close x p cs = some r) :
    separated close x q cs = some r := by
  unfold separated at *
  split at hp
  · exact nomatch hp
  · split_ifs at hp ⊢
    · obtain ⟨r', hr', rfl⟩ := Option.map_eq_some_iff.mp hp
      rw [push, h _ _ hr', Option.map_some]
    · exact hp

theorem bracketed_mono {α : Type} {close : Char} {p q : List Char → Option (List α × List Char)}
    (h : ∀ cs r, p cs = some r → q cs = some r) {cs : List Char} {r : List α × List Char}
    (hp : bracketed close p cs = some r) : bracketed close q cs = some r := by
  unfold bracketed at *
  split at hp
  · exact nomatch hp
  · split_ifs at hp ⊢
    · exact hp
    · exact h _ _ hp

/-- What is read with some fuel is read with more. -/
theorem fuel_succ (fuel : Nat) :
    (∀ cs r, value fuel cs = some r → value (fuel + 1) cs = some r)
      ∧ (∀ cs r, members fuel cs = some r → members (fuel + 1) cs = some r)
      ∧ (∀ cs r, elements fuel cs = some r → elements (fuel + 1) cs = some r) := by
  induction fuel with
  | zero => exact ⟨fun _ _ h => (nomatch h), fun _ _ h => (nomatch h), fun _ _ h => (nomatch h)⟩
  | succ fuel ih =>
      obtain ⟨hvalue, hmembers, helements⟩ := ih
      refine ⟨?_, ?_, ?_⟩
      · intro cs r h
        cases cs with
        | nil => exact nomatch h
        | cons c rest =>
            rw [value] at h ⊢
            split_ifs at h ⊢
            · obtain ⟨r', hr', rfl⟩ := Option.map_eq_some_iff.mp h
              rw [bracketed_mono hmembers hr', Option.map_some]
            · obtain ⟨r', hr', rfl⟩ := Option.map_eq_some_iff.mp h
              rw [bracketed_mono helements hr', Option.map_some]
            all_goals exact h
      · intro cs r h
        rw [members] at h ⊢
        obtain ⟨name, hname, h⟩ := Option.bind_eq_some_iff.mp h
        obtain ⟨v, hv, h⟩ := Option.bind_eq_some_iff.mp h
        rw [hname, Option.bind_some, hvalue _ _ hv, Option.bind_some]
        exact separated_mono hmembers h
      · intro cs r h
        rw [elements] at h ⊢
        obtain ⟨v, hv, h⟩ := Option.bind_eq_some_iff.mp h
        rw [hvalue _ _ hv, Option.bind_some]
        exact separated_mono helements h

theorem value_fuel_le {f g : Nat} (hle : f ≤ g) {cs : List Char} {r : Value × List Char}
    (h : value f cs = some r) : value g cs = some r := by
  induction hle with
  | refl => exact h
  | step _ ih => exact (fuel_succ _).1 _ _ ih

/-- A text has at most one value. -/
theorem Decodes.unique {text : List Char} {v w : Value} (hv : Decodes text v)
    (hw : Decodes text w) : v = w := by
  obtain ⟨f, r, hf, -⟩ := hv
  obtain ⟨g, r', hg, -⟩ := hw
  have hf' := value_fuel_le (Nat.le_max_left f g) hf
  have hg' := value_fuel_le (Nat.le_max_right f g) hg
  exact (Prod.mk.inj (Option.some.inj (hf'.symm.trans hg'))).1

-- ── Objects ──────────────────────────────────────────────────────────────────────

/-- What follows a member. -/
def Closes (rest : List Char) : Prop := ∃ rest', rest = ',' :: rest' ∨ rest = '\x7d' :: rest'

theorem Closes.numberEnd {rest : List Char} (h : Closes rest) : NumberEnd rest := by
  obtain ⟨rest', rfl | rfl⟩ := h
  all_goals
    intro c hc
    obtain rfl := Option.some.inj hc
    decide

/-- A member of an object: its name, the text of its value, and the value. -/
structure Member where
  name : List Char
  text : List Char
  val  : Value

def Member.pair (x : Member) : List Nat × Value := (points x.name, x.val)

/-- A name without escapes, and a value with no white space before it. -/
structure Member.Formed (x : Member) : Prop where
  name : ∀ c ∈ x.name, Plain c
  text : ∃ c cs, x.text = c :: cs ∧ isWs c = false

/-- The contract of a member: its text reads as its value. -/
structure Member.Reads (x : Member) : Prop extends x.Formed where
  read : ∀ fuel rest, Closes rest → value (fuel + 1) (x.text ++ rest) = some (x.val, rest)

/-- `member *( value-separator member )`, and the closing brace. -/
def membersText : List Member → List Char
  | [] => []
  | [x] => '"' :: (x.name ++ '"' :: ':' :: (x.text ++ ['\x7d']))
  | x :: y :: ys => '"' :: (x.name ++ '"' :: ':' :: (x.text ++ ',' :: membersText (y :: ys)))

/-- The text of an object that has members. -/
def objectText (xs : List Member) : List Char := '\x7b' :: membersText xs

theorem membersText_head (x : Member) (xs : List Member) :
    ∃ rest, membersText (x :: xs) = '"' :: rest := by
  cases xs with
  | nil => exact ⟨_, rfl⟩
  | cons y ys => exact ⟨_, rfl⟩

theorem skipWs_membersText (x : Member) (xs : List Member) :
    skipWs (membersText (x :: xs)) = membersText (x :: xs) := by
  obtain ⟨rest, h⟩ := membersText_head x xs
  rw [h]
  exact skipWs_cons (by decide) rest

theorem memberName_formed {x : Member} (h : x.Formed) (rest : List Char) :
    memberName ('"' :: (x.name ++ '"' :: ':' :: (x.text ++ rest)))
      = some (points x.name, x.text ++ rest) := by
  obtain ⟨c, cs, htext, hc⟩ := h.text
  rw [memberName, if_pos rfl, string_plain h.name, Option.bind_some]
  simp only [skipWs_cons (show isWs ':' = false by decide), if_true]
  rw [htext, List.cons_append, skipWs_cons hc]

/-- The first member, whatever comes after it. -/
theorem members_formed {x : Member} (h : x.Formed) (fuel : Nat) (rest : List Char) :
    members (fuel + 1) ('"' :: (x.name ++ '"' :: ':' :: (x.text ++ rest)))
      = (value fuel (x.text ++ rest)).bind fun v =>
          separated '\x7d' (points x.name, v.1) (members fuel) v.2 := by
  rw [members, memberName_formed h, Option.bind_some]

theorem members_last {x : Member} (h : x.Reads) (fuel : Nat) :
    members (fuel + 2) (membersText [x]) = some ([x.pair], []) := by
  rw [membersText, members_formed h.toFormed, h.read fuel _ ⟨[], Or.inr rfl⟩, Option.bind_some]
  simp only [separated, skipWs_cons (show isWs '\x7d' = false by decide)]
  rfl

theorem members_cons {x : Member} (h : x.Reads) (y : Member) (ys : List Member) (fuel : Nat) :
    members (fuel + 2) (membersText (x :: y :: ys))
      = push x.pair (members (fuel + 1) (membersText (y :: ys))) := by
  rw [membersText, members_formed h.toFormed, h.read fuel _ ⟨_, Or.inl rfl⟩, Option.bind_some]
  simp only [separated, skipWs_cons (show isWs ',' = false by decide), skipWs_membersText, if_true]
  rfl

theorem members_text {x : Member} {xs : List Member} (h : ∀ y ∈ x :: xs, y.Reads) (fuel : Nat) :
    members (fuel + (x :: xs).length + 1) (membersText (x :: xs))
      = some ((x :: xs).map Member.pair, []) := by
  induction xs generalizing x with
  | nil => exact members_last (h x List.mem_cons_self) fuel
  | cons y ys ih =>
      have hrest := ih (fun z hz => h z (List.mem_cons_of_mem x hz))
      have hstep := members_cons (h x List.mem_cons_self) y ys (fuel + (y :: ys).length)
      rw [hrest] at hstep
      exact hstep

theorem skipWs_objectText (xs : List Member) : skipWs (objectText xs) = objectText xs :=
  skipWs_cons (by decide) _

theorem value_objectText (fuel : Nat) (x : Member) (xs : List Member) :
    value (fuel + 1) (objectText (x :: xs))
      = (members fuel (membersText (x :: xs))).map (fun r => (.obj r.1, r.2)) := by
  obtain ⟨rest, h⟩ := membersText_head x xs
  rw [objectText, h, value, if_pos rfl, bracketed]
  simp only [skipWs_cons (show isWs '"' = false by decide)]
  rfl

/-- **An object of readable members** decodes to the object of their values. -/
theorem decodes_object {x : Member} {xs : List Member} (h : ∀ y ∈ x :: xs, y.Reads) :
    Decodes (objectText (x :: xs)) (.obj ((x :: xs).map Member.pair)) := by
  refine ⟨0 + (x :: xs).length + 1 + 1, [], ?_, rfl⟩
  rw [skipWs_objectText, value_objectText, members_text h, Option.map_some]

/-- Reading stops at a member whose value cannot be read. -/
theorem members_none {bad : Member} (hbad : bad.Formed)
    (hnone : ∀ fuel rest, value fuel (bad.text ++ rest) = none) (post : List Member) :
    ∀ (pre : List Member), (∀ y ∈ pre, y.Reads) → ∀ fuel,
      members fuel (membersText (pre ++ bad :: post)) = none := by
  intro pre
  induction pre with
  | nil =>
      intro _ fuel
      cases fuel with
      | zero => rfl
      | succ fuel =>
          cases post with
          | nil => rw [List.nil_append, membersText, members_formed hbad, hnone, Option.bind_none]
          | cons z zs => rw [List.nil_append, membersText, members_formed hbad, hnone, Option.bind_none]
  | cons y ys ih =>
      intro hpre fuel
      have hrest := ih (fun z hz => hpre z (List.mem_cons_of_mem y hz))
      have hy := hpre y List.mem_cons_self
      -- the text after `y` starts another member: of `ys`, or the bad one
      obtain ⟨w, ws, hws⟩ : ∃ w ws, ys ++ bad :: post = w :: ws := by
        cases ys with
        | nil => exact ⟨_, _, rfl⟩
        | cons w ws => exact ⟨_, _, rfl⟩
      rw [List.cons_append, hws]
      rw [hws] at hrest
      match fuel with
      | 0 => rfl
      | 1 => rw [membersText, members_formed hy.toFormed, value, Option.bind_none]
      | fuel + 2 => rw [members_cons hy, hrest]; rfl

/-- **One unreadable member** spoils the text. -/
theorem object_not_decodes {pre post : List Member} {bad : Member} (hpre : ∀ y ∈ pre, y.Reads)
    (hbad : bad.Formed) (hnone : ∀ fuel rest, value fuel (bad.text ++ rest) = none) (v : Value) :
    ¬ Decodes (objectText (pre ++ bad :: post)) v := by
  rintro ⟨fuel, rest, h, -⟩
  rw [skipWs_objectText] at h
  obtain ⟨w, ws, hws⟩ : ∃ w ws, pre ++ bad :: post = w :: ws := by
    cases pre with
    | nil => exact ⟨_, _, rfl⟩
    | cons w ws => exact ⟨_, _, rfl⟩
  cases fuel with
  | zero => exact nomatch h
  | succ fuel =>
      rw [hws, value_objectText, ← hws, members_none hbad hnone post pre hpre] at h
      exact nomatch h

-- ── Values of members ────────────────────────────────────────────────────────────

theorem value_string (fuel : Nat) (cs : List Char) :
    value (fuel + 1) ('"' :: cs) = (string cs).map (fun r => (.str r.1, r.2)) := by
  rw [value, if_neg (by decide), if_neg (by decide), if_pos rfl]

/-- A string whose characters, escaped or not, read as those of `s`. -/
theorem reads_string {name text s : List Char} (hname : ∀ c ∈ name, Plain c)
    (htext : ∀ rest, chars (text ++ '"' :: rest) = some (points s, rest)) :
    Member.Reads ⟨name, '"' :: (text ++ ['"']), .str (points s)⟩ where
  name := hname
  text := ⟨_, _, rfl, by decide⟩
  read := by
    intro fuel rest _
    rw [List.cons_append, value_string, List.append_assoc, List.singleton_append,
      string_of_chars (htext rest), Option.map_some]

theorem reads_plain {name s : List Char} (hname : ∀ c ∈ name, Plain c) (hs : ∀ c ∈ s, Plain c) :
    Member.Reads ⟨name, '"' :: (s ++ ['"']), .str (points s)⟩ :=
  reads_string hname (chars_plain_append hs)

theorem reads_null {name : List Char} (hname : ∀ c ∈ name, Plain c) :
    Member.Reads ⟨name, "null".toList, .null⟩ where
  name := hname
  text := ⟨_, _, rfl, by decide⟩
  read := by
    intro fuel rest _
    show value (fuel + 1) ('n' :: 'u' :: 'l' :: 'l' :: rest) = _
    rw [value, if_neg (by decide), if_neg (by decide), if_neg (by decide), if_neg (by decide),
      if_neg (by decide), if_pos rfl, keyword, if_pos ⟨rest, rfl⟩]
    rfl

/-- The head of a decimal numeral starts no other kind of value. -/
theorem repr_head (z : Int) : ∃ c cs, z.repr.toList = c :: cs
    ∧ (c = '-' ∨ c.isDigit = true) := by
  have hrepr : ∀ n : Nat, ∃ c cs, n.repr.toList = c :: cs ∧ c.isDigit = true := by
    intro n
    rw [Nat.repr_eq_ofList_toDigits, String.toList_ofList]
    cases hd : Nat.toDigits 10 n with
    | nil => exact absurd hd Nat.toDigits_ne_nil
    | cons d ds =>
        refine ⟨d, ds, rfl, Nat.isDigit_of_mem_toDigits (b := 10) (n := n) (by decide) (by decide) ?_⟩
        rw [hd]
        exact List.mem_cons_self
  rw [Int.repr_eq_if]
  by_cases hz : 0 ≤ z
  · rw [if_pos hz]
    obtain ⟨c, cs, h, hc⟩ := hrepr z.toNat
    exact ⟨c, cs, h, Or.inr hc⟩
  · rw [if_neg hz, String.toList_append]
    exact ⟨_, _, rfl, Or.inl rfl⟩

theorem reads_int {name : List Char} (hname : ∀ c ∈ name, Plain c) (z : Int) :
    Member.Reads ⟨name, z.repr.toList, .num z 0⟩ where
  name := hname
  text := by
    obtain ⟨c, cs, h, hc⟩ := repr_head z
    refine ⟨c, cs, h, ?_⟩
    unfold isWs
    rw [Bool.or_eq_false_iff, Bool.or_eq_false_iff, Bool.or_eq_false_iff]
    simp only [beq_eq_false_iff_ne]
    refine ⟨⟨⟨?_, ?_⟩, ?_⟩, ?_⟩
    all_goals
      rintro rfl
      exact absurd hc (by decide)
  read := by
    intro fuel rest hrest
    obtain ⟨c, cs, h, hc⟩ := repr_head z
    have hnum := number_int z hrest.numberEnd
    show value (fuel + 1) (z.repr.toList ++ rest) = _
    rw [h, List.cons_append] at hnum ⊢
    rw [value, if_neg, if_neg, if_neg, if_neg, if_neg, if_neg]
    · exact hnum
    all_goals
      rintro rfl
      exact absurd hc (by decide)

end Json

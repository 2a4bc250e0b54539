import SentinelKv.JsonProofs

/-!
# JSON arrays, and objects that hold them

The members of an object and the elements of an array are read by the same loop: a piece, and then
a comma and the loop again or the closing bracket (`Loop`).  The two facts a printer needs are
proved once for the loop:

* **`Loop.reads`** — pieces that read, with commas between them, read as the list of their values;
* **`Loop.none_of`** — if each piece either reads or is unreadable whatever follows, one unreadable
  piece spoils the list.

Unlike a string or a number, an array needs fuel for its length, so the contract `Piece.Reads` has
the fuel that is enough.  `array_reads`, `array_unreadable` and **`object_decodes_iff`** are the
two instances.
-/

namespace Json

-- ── The loop ─────────────────────────────────────────────────────────────────────

/-- Piece of a list: its text and its value. -/
structure Piece (α : Type) where
  text : List Char
  val  : α

section Lists

variable {α : Type} {close : Char} {piece : Nat → List Char → Option (α × List Char)}
variable {loop : Nat → List Char → Option (List α × List Char)}

/-- The pieces with commas between them, and the closing bracket. -/
def listed (close : Char) : List (Piece α) → List Char
  | [] => [close]
  | [x] => x.text ++ [close]
  | x :: y :: ys => x.text ++ ',' :: listed close (y :: ys)

/-- A list that is read piece by piece. -/
structure Loop (close : Char) (piece : Nat → List Char → Option (α × List Char))
    (loop : Nat → List Char → Option (List α × List Char)) : Prop where
  zero  : ∀ cs, loop 0 cs = none
  succ  : ∀ fuel cs, loop (fuel + 1) cs
    = (piece fuel cs).bind fun r => separated close r.1 (loop fuel) r.2
  mono  : ∀ fuel cs r, loop fuel cs = some r → loop (fuel + 1) cs = some r
  comma : close ≠ ','
  ws    : isWs close = false

/-- What follows a piece. -/
def Follows (close : Char) (rest : List Char) : Prop :=
  ∃ rest', rest = ',' :: rest' ∨ rest = close :: rest'

/-- The first character is neither white space nor the closing bracket. -/
def Piece.Starts (close : Char) (x : Piece α) : Prop :=
  ∃ c cs, x.text = c :: cs ∧ isWs c = false ∧ c ≠ close

/-- With fuel `k` or more, the text reads as the value. -/
def Piece.Reads (close : Char) (piece : Nat → List Char → Option (α × List Char)) (k : Nat)
    (x : Piece α) : Prop :=
  ∀ fuel rest, k ≤ fuel → Follows close rest → piece fuel (x.text ++ rest) = some (x.val, rest)

/-- Nothing is read, whatever follows. -/
def Piece.Unreadable (piece : Nat → List Char → Option (α × List Char)) (x : Piece α) : Prop :=
  ∀ fuel rest, piece fuel (x.text ++ rest) = none

theorem Piece.Reads.mono {k k' : Nat} {x : Piece α} (h : x.Reads close piece k) (hle : k ≤ k') :
    x.Reads close piece k' := fun fuel rest hfuel => h fuel rest (hle.trans hfuel)

theorem Piece.Reads.not_unreadable {k : Nat} {x : Piece α} (h : x.Reads close piece k) :
    ¬ x.Unreadable piece := by
  intro hun
  have hread := h k [close] (Nat.le_refl k) ⟨[], Or.inr rfl⟩
  rw [hun] at hread
  cases hread

theorem listed_starts {x : Piece α} (hx : x.Starts close) (xs : List (Piece α)) :
    ∃ c cs, listed close (x :: xs) = c :: cs ∧ isWs c = false ∧ c ≠ close := by
  obtain ⟨c, cs, htext, hws, hne⟩ := hx
  cases xs with
  | nil => exact ⟨c, cs ++ [close], by rw [listed, htext]; rfl, hws, hne⟩
  | cons y ys =>
      exact ⟨c, cs ++ ',' :: listed close (y :: ys), by rw [listed, htext]; rfl, hws, hne⟩

theorem skipWs_listed {x : Piece α} (hx : x.Starts close) (xs : List (Piece α)) (rest : List Char) :
    skipWs (listed close (x :: xs) ++ rest) = listed close (x :: xs) ++ rest := by
  obtain ⟨c, cs, htext, hws, -⟩ := listed_starts hx xs
  rw [htext]
  exact skipWs_cons hws _

namespace Loop

variable (L : Loop close piece loop)

include L

/-- The last piece. -/
theorem last {k : Nat} {x : Piece α} (hx : x.Reads close piece k) {fuel : Nat} (hfuel : k ≤ fuel)
    (rest : List Char) : loop (fuel + 1) (listed close [x] ++ rest) = some ([x.val], rest) := by
  rw [L.succ, listed, List.append_assoc, List.singleton_append,
    hx fuel _ hfuel ⟨rest, Or.inr rfl⟩, Option.bind_some]
  simp only [separated, skipWs_cons L.ws, if_neg L.comma, if_true]

/-- A piece before another. -/
theorem cons {k : Nat} {x y : Piece α} (hx : x.Reads close piece k) (hy : y.Starts close)
    (ys : List (Piece α)) {fuel : Nat} (hfuel : k ≤ fuel) (rest : List Char) :
    loop (fuel + 1) (listed close (x :: y :: ys) ++ rest)
      = push x.val (loop fuel (listed close (y :: ys) ++ rest)) := by
  have hcomma : isWs ',' = false := by decide
  rw [L.succ, listed, List.append_assoc, List.cons_append, hx fuel _ hfuel ⟨_, Or.inl rfl⟩,
    Option.bind_some]
  simp only [separated, skipWs_cons hcomma, skipWs_listed hy, if_true]

/-- **Pieces that read** make a list that reads. -/
theorem reads {k : Nat} {x : Piece α} {xs : List (Piece α)}
    (hstarts : ∀ y ∈ x :: xs, y.Starts close) (h : ∀ y ∈ x :: xs, y.Reads close piece k) :
    ∀ {fuel : Nat}, k + (x :: xs).length ≤ fuel → ∀ rest,
      loop fuel (listed close (x :: xs) ++ rest) = some ((x :: xs).map Piece.val, rest) := by
  induction xs generalizing x with
  | nil =>
      intro fuel hfuel rest
      obtain ⟨f, rfl⟩ : ∃ f, fuel = f + 1 := ⟨fuel - 1, by simp at hfuel; omega⟩
      exact L.last (h x List.mem_cons_self) (by simpa using hfuel) rest
  | cons y ys ih =>
      intro fuel hfuel rest
      have htail : ∀ z ∈ y :: ys, z ∈ x :: y :: ys := fun z hz => List.mem_cons_of_mem x hz
      obtain ⟨f, rfl⟩ : ∃ f, fuel = f + 1 := ⟨fuel - 1, by simp at hfuel; omega⟩
      have hf : k + (y :: ys).length ≤ f := by
        simp only [List.length_cons] at hfuel ⊢
        omega
      rw [L.cons (h x List.mem_cons_self) (hstarts y (htail y List.mem_cons_self)) ys (by omega),
        ih (fun z hz => hstarts z (htail z hz)) (fun z hz => h z (htail z hz)) hf rest]
      rfl

theorem mono_le {f g : Nat} (hle : f ≤ g) {cs : List Char} {r : List α × List Char}
    (h : loop f cs = some r) : loop g cs = some r := by
  induction hle with
  | refl => exact h
  | step _ ih => exact L.mono _ _ _ ih

/-- **One unreadable piece** spoils the list. -/
theorem none_of {k : Nat} {xs : List (Piece α)} (hstarts : ∀ y ∈ xs, y.Starts close)
    (h : ∀ y ∈ xs, y.Reads close piece k ∨ y.Unreadable piece)
    (hbad : ¬ ∀ y ∈ xs, y.Reads close piece k) (fuel : Nat) (rest : List Char) :
    loop fuel (listed close xs ++ rest) = none := by
  induction xs generalizing fuel with
  | nil => exact absurd (fun y hy => by cases hy) hbad
  | cons x xs ih =>
      rcases h x List.mem_cons_self with hx | hx
      · -- the bad piece comes later, and enough fuel leads up to it
        cases xs with
        | nil =>
            refine absurd (fun y hy => ?_) hbad
            rw [List.mem_singleton.mp hy]
            exact hx
        | cons y ys =>
            have hlater : ¬ ∀ z ∈ y :: ys, z.Reads close piece k := by
              intro hall
              refine hbad fun z hz => ?_
              rcases List.mem_cons.mp hz with rfl | hz
              · exact hx
              · exact hall z hz
            have hnone := fun f => ih (fun z hz => hstarts z (List.mem_cons_of_mem x hz))
              (fun z hz => h z (List.mem_cons_of_mem x hz)) hlater f
            by_contra hsome
            obtain ⟨r, hr⟩ := Option.ne_none_iff_exists'.mp hsome
            have hmore := L.mono_le (Nat.le_add_right fuel (k + 1)) hr
            rw [← Nat.add_assoc, L.cons hx (hstarts y (by simp)) ys (by omega), hnone] at hmore
            cases hmore
      · cases fuel with
        | zero => exact L.zero _
        | succ fuel =>
            obtain ⟨tail, htail⟩ : ∃ tail, listed close (x :: xs) = x.text ++ tail := by
              cases xs with
              | nil => exact ⟨_, rfl⟩
              | cons y ys => exact ⟨_, rfl⟩
            rw [L.succ, htail, List.append_assoc, hx, Option.bind_none]

end Loop

end Lists

-- ── Arrays ───────────────────────────────────────────────────────────────────────

theorem elements_loop : Loop ']' value elements where
  zero  := fun cs => by rw [elements]
  succ  := fun fuel cs => by rw [elements]
  mono  := fun fuel => (fuel_succ fuel).2.2
  comma := by decide
  ws    := by decide

/-- The text of an array, and the array. -/
def arrayPiece (xs : List (Piece Value)) : Piece Value :=
  ⟨'[' :: listed ']' xs, .arr (xs.map Piece.val)⟩

theorem value_array (fuel : Nat) (cs : List Char) :
    value (fuel + 1) ('[' :: cs)
      = (bracketed ']' (elements fuel) cs).map (fun r => (.arr r.1, r.2)) := by
  rw [value, if_neg (by decide), if_pos rfl]

/-- A list in brackets, whose first piece does not start with the closing one. -/
theorem bracketed_listed {α : Type} {close : Char} {x : Piece α} (hx : x.Starts close)
    (xs : List (Piece α)) (loop : List Char → Option (List α × List Char)) (rest : List Char) :
    bracketed close loop (listed close (x :: xs) ++ rest)
      = loop (listed close (x :: xs) ++ rest) := by
  obtain ⟨c, cs, htext, hws, hne⟩ := listed_starts hx xs
  rw [htext, List.cons_append, bracketed]
  simp only [skipWs_cons hws, if_neg hne]

theorem array_reads {k : Nat} {xs : List (Piece Value)} (hstarts : ∀ y ∈ xs, y.Starts ']')
    (h : ∀ y ∈ xs, y.Reads ']' value k) (close : Char) :
    (arrayPiece xs).Reads close value (k + xs.length + 1) := by
  intro fuel rest hfuel _
  obtain ⟨f, rfl⟩ : ∃ f, fuel = f + 1 := ⟨fuel - 1, by omega⟩
  rw [arrayPiece, List.cons_append, value_array]
  cases xs with
  | nil =>
      rw [listed, List.singleton_append, bracketed]
      simp only [skipWs_cons (show isWs ']' = false by decide), if_true]
      rfl
  | cons x xs =>
      rw [bracketed_listed (hstarts x List.mem_cons_self),
        elements_loop.reads hstarts h (by omega), Option.map_some]

theorem array_unreadable {k : Nat} {xs : List (Piece Value)} (hstarts : ∀ y ∈ xs, y.Starts ']')
    (h : ∀ y ∈ xs, y.Reads ']' value k ∨ y.Unreadable value)
    (hbad : ¬ ∀ y ∈ xs, y.Reads ']' value k) : (arrayPiece xs).Unreadable value := by
  intro fuel rest
  cases fuel with
  | zero => rw [value]
  | succ fuel =>
      rw [arrayPiece, List.cons_append, value_array]
      cases xs with
      | nil => exact absurd (fun y hy => by cases hy) hbad
      | cons x xs =>
          rw [bracketed_listed (hstarts x List.mem_cons_self),
            elements_loop.none_of hstarts h hbad, Option.map_none]

-- ── Objects ──────────────────────────────────────────────────────────────────────

/-- One member. -/
def member (fuel : Nat) (cs : List Char) : Option ((List Nat × Value) × List Char) :=
  (memberName cs).bind fun name => (value fuel name.2).map fun v => ((name.1, v.1), v.2)

theorem members_loop : Loop '\x7d' member members where
  zero  := fun cs => by rw [members]
  succ  := by
    intro fuel cs
    rw [members, member]
    cases memberName cs with
    | none => rfl
    | some name =>
        rw [Option.bind_some, Option.bind_some]
        cases value fuel name.2 with
        | none => rfl
        | some v => rfl
  mono  := fun fuel => (fuel_succ fuel).2.1
  comma := by decide
  ws    := by decide

/-- A value under a name. -/
structure NamedPiece where
  name : List Char
  piece : Piece Value

/-- A name without escapes, and a value with no white space before it. -/
structure NamedPiece.Formed (x : NamedPiece) : Prop where
  name   : ∀ c ∈ x.name, Plain c
  starts : x.piece.Starts '\x7d'

/-- The field as a piece of an object. -/
def NamedPiece.toPiece (x : NamedPiece) : Piece (List Nat × Value) :=
  ⟨'"' :: (x.name ++ '"' :: ':' :: x.piece.text), (points x.name, x.piece.val)⟩

theorem NamedPiece.toPiece_starts (x : NamedPiece) : x.toPiece.Starts '\x7d' :=
  ⟨'"', _, rfl, by decide, by decide⟩

theorem member_field {x : NamedPiece} (hx : x.Formed) (fuel : Nat) (rest : List Char) :
    member fuel (x.toPiece.text ++ rest)
      = (value fuel (x.piece.text ++ rest)).map fun v => ((points x.name, v.1), v.2) := by
  obtain ⟨c, cs, htext, hws, -⟩ := hx.starts
  have hformed : Member.Formed ⟨x.name, x.piece.text, x.piece.val⟩ := ⟨hx.name, c, cs, htext, hws⟩
  have hread := memberName_formed hformed rest
  rw [member, NamedPiece.toPiece, List.cons_append, List.append_assoc, List.cons_append,
    List.cons_append, hread, Option.bind_some]

theorem field_reads {k : Nat} {x : NamedPiece} (hx : x.Formed) (h : x.piece.Reads '\x7d' value k) :
    x.toPiece.Reads '\x7d' member k := by
  intro fuel rest hfuel hrest
  rw [member_field hx, h fuel rest hfuel hrest, Option.map_some]
  rfl

theorem field_unreadable {x : NamedPiece} (hx : x.Formed) (h : x.piece.Unreadable value) :
    x.toPiece.Unreadable member := by
  intro fuel rest
  rw [member_field hx, h, Option.map_none]

theorem value_object (fuel : Nat) (cs : List Char) :
    value (fuel + 1) ('\x7b' :: cs)
      = (bracketed '\x7d' (members fuel) cs).map (fun r => (.obj r.1, r.2)) := by
  rw [value, if_pos rfl]

/-- The text of an object. -/
def fieldsText (xs : List NamedPiece) : List Char :=
  '\x7b' :: listed '\x7d' (xs.map NamedPiece.toPiece)

/-- The object. -/
def fieldsValue (xs : List NamedPiece) : Value := .obj (xs.map fun x => x.toPiece.val)

/-- **An object whose values read or are unreadable**, and white space after it: it is JSON iff
    all of them read, and then it is the object of the values. -/
theorem object_decodes_iff {k : Nat} {x : NamedPiece} {xs : List NamedPiece}
    (hformed : ∀ y ∈ x :: xs, y.Formed)
    (h : ∀ y ∈ x :: xs, y.piece.Reads '\x7d' value k ∨ y.piece.Unreadable value)
    {after : List Char} (hafter : skipWs after = []) (v : Value) :
    Decodes (fieldsText (x :: xs) ++ after) v ↔
      (∀ y ∈ x :: xs, y.piece.Reads '\x7d' value k) ∧ v = fieldsValue (x :: xs) := by
  have hopen : skipWs (fieldsText (x :: xs) ++ after)
      = '\x7b' :: (listed '\x7d' ((x :: xs).map NamedPiece.toPiece) ++ after) :=
    skipWs_cons (by decide) _
  have hstarts : ∀ y ∈ (x :: xs).map NamedPiece.toPiece, y.Starts '\x7d' := by
    intro y hy
    obtain ⟨z, -, rfl⟩ := List.mem_map.mp hy
    exact z.toPiece_starts
  have hreads : (∀ y ∈ x :: xs, y.piece.Reads '\x7d' value k) →
      Decodes (fieldsText (x :: xs) ++ after) (fieldsValue (x :: xs)) := by
    intro hall
    refine ⟨k + (x :: xs).length + 1, after, ?_, hafter⟩
    have hparts : ∀ y ∈ (x :: xs).map NamedPiece.toPiece, y.Reads '\x7d' member k := by
      intro y hy
      obtain ⟨z, hz, rfl⟩ := List.mem_map.mp hy
      exact field_reads (hformed z hz) (hall z hz)
    rw [hopen, value_object, List.map_cons, bracketed_listed x.toPiece_starts,
      members_loop.reads hstarts hparts (by rw [List.length_cons, List.length_map]; rfl),
      Option.map_some, ← List.map_cons, List.map_map]
    rfl
  constructor
  · intro hdec
    have hall : ∀ y ∈ x :: xs, y.piece.Reads '\x7d' value k := by
      by_contra hbad
      obtain ⟨y, hy, hnot⟩ : ∃ y ∈ x :: xs, ¬ y.piece.Reads '\x7d' value k := by
        push Not at hbad
        exact hbad
      have hun := field_unreadable (hformed y hy) ((h y hy).resolve_left hnot)
      obtain ⟨fuel, rest, hvalue, -⟩ := hdec
      cases fuel with
      | zero =>
          rw [value] at hvalue
          cases hvalue
      | succ fuel =>
          have hnone : members fuel (listed '\x7d' ((x :: xs).map NamedPiece.toPiece) ++ after)
              = none := by
            refine members_loop.none_of (k := k) hstarts ?_ (fun hall => ?_) fuel after
            · intro z hz
              obtain ⟨w, hw, rfl⟩ := List.mem_map.mp hz
              exact (h w hw).imp (field_reads (hformed w hw)) (field_unreadable (hformed w hw))
            · exact (hall _ (List.mem_map_of_mem hy)).not_unreadable hun
          rw [hopen, value_object, List.map_cons, bracketed_listed x.toPiece_starts,
            ← List.map_cons, hnone] at hvalue
          cases hvalue
    exact ⟨hall, hdec.unique (hreads hall)⟩
  · rintro ⟨hall, rfl⟩
    exact hreads hall

-- ── Strings ──────────────────────────────────────────────────────────────────────

/-- A string whose characters, escaped or not, are `text`. -/
def stringPiece (text s : List Char) : Piece Value := ⟨'"' :: (text ++ ['"']), .str (points s)⟩

theorem stringPiece_starts {close : Char} (hclose : close ≠ '"') (text s : List Char) :
    (stringPiece text s).Starts close := ⟨'"', _, rfl, by decide, hclose.symm⟩

theorem stringPiece_reads {text s : List Char}
    (h : ∀ rest, chars (text ++ '"' :: rest) = some (points s, rest)) (close : Char) :
    (stringPiece text s).Reads close value 1 := by
  intro fuel rest hfuel _
  obtain ⟨f, rfl⟩ : ∃ f, fuel = f + 1 := ⟨fuel - 1, by omega⟩
  rw [stringPiece, List.cons_append, value_string, List.append_assoc, List.singleton_append,
    string_of_chars (h rest), Option.map_some]

theorem stringPiece_unreadable {text s : List Char} (h : ∀ rest, chars (text ++ rest) = none) :
    (stringPiece text s).Unreadable value := by
  intro fuel rest
  cases fuel with
  | zero => rw [value]
  | succ fuel =>
      rw [stringPiece, List.cons_append, value_string, List.append_assoc, string, h]
      rfl

end Json

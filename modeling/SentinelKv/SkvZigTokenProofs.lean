import Mathlib.Data.List.DropRight
import SentinelKv.SkvTokenProofs

/-!
# The Zig backend and backend parity

`parseToken` of `attestation_bridge.zig` up to its replay section, and how it compares with the
C validator on the same token, request and recorded counter.

The two read lines, numbers, flags and nonces differently: C cuts a line into pieces of 255
bytes and at a NUL, looks only at how a value starts, skips blanks, saturates, and narrows the
ring to 32 bits; Zig gives up on lines that do not fit 512 bytes, drops carriage returns,
takes a value only as a whole, and allows `_` between digits.  **`backends_disagree`** has a
token for each.  **`backends_agree`** says that they accept the same tokens and record the same
counters as long as no line that decides a field is of one of these kinds (`Portable`).
-/

namespace SkvZigToken

open Decimal LineReader SkvToken

-- ── The Zig backend ──────────────────────────────────────────────────────────────

/-- `parseBool`. -/
def parseBool (key line : Bytes) : Option Bool :=
  (afterKey key line).bind (fun v =>
    if v = ascii "true" ∨ v = ascii "1" then some true
    else if v = ascii "false" ∨ v = ascii "0" then some false
    else none)

/-- `parseI64`. -/
def parseI64 (key line : Bytes) : Option Int := (afterKey key line).bind parseInt

/-- `parseText`. -/
def parseText (key line : Bytes) : Option Bytes :=
  (afterKey key line).bind (fun v => if v = [] then none else some v)

/-- `trimLine`. -/
def trimLine (line : Bytes) : Bytes := line.rdropWhile (fun b => b == 13 || b == 10)

def zigParsers : Parsers where
  ring := parseI64 (ascii "ring:")
  attested := parseBool (ascii "attested:")
  timestamp := parseI64 (ascii "timestamp:")
  nonce := parseText (ascii "nonce:")
  counter := parseI64 (ascii "counter:")
  rootAttested := parseBool (ascii "root_attested:")

/-- `v.len > token_nonce.len` returns from the whole function. -/
def nonceOverflows (t : Fields) (line : Bytes) : Bool :=
  match fresh t.nonce (parseText (ascii "nonce:") line) with
  | some v => decide (256 < v.length)
  | none => false

/-- One turn of the loop; `none` is `return false`. -/
def scanTrimmed (t : Fields) (line : Bytes) : Option Fields :=
  if nonceOverflows t line then none else some (scanWith zigParsers t line)

/-- The loop over `readUntilDelimiterOrEof` with a buffer of 512 bytes.  A line that is too long
    returns as well, whatever the lines before it held. -/
def parseFields (content : Bytes) : Option Fields :=
  (readLines 10 512 content).bind (fun lines =>
    lines.foldlM (fun t line => scanTrimmed t (trimLine line)) Fields.empty)

/-- The checks between the loop and the replay section.  An overflow of `now - token_ts` ends
    the process. -/
def checkParsed (q : Request) (t : Fields) : Option Int :=
  match t.ring, t.attested, t.timestamp, t.counter with
  | some ring, some attested, some ts, some counter =>
      if !attested then none
      else if ring ≠ q.requiredRing then none
      else if q.requiredRing = -2 ∧ t.rootAttested ≠ some true then none
      else if q.maxAgeSec ≤ 0 then none
      else if q.now < ts then none
      else if ¬ InI64 (q.now - ts) then none
      else if q.maxAgeSec < q.now - ts then none
      else if q.expectedNonce.isSome ∧ t.nonce ≠ q.expectedNonce then none
      else some counter
  | _, _, _, _ => none

/-- `parseToken` up to its replay section. -/
def parseToken (q : Request) (content : Bytes) : Option Int :=
  (parseFields content).bind (checkParsed q)

/-- The counter a backend records, given the recorded one: `token_counter <= last_counter`
    refuses in both. -/
def records (last : Int) (accepted : Option Int) : Option Int :=
  accepted.filter (fun c => !decide (c ≤ last))

-- ── Lines that both read alike ───────────────────────────────────────────────────

/-- The four words of a flag. -/
def flagWords : List Bytes := [ascii "true", ascii "1", ascii "false", ascii "0"]

/-- The number a value stands for as a whole, if it is a sign and digits (and carriage
    returns). -/
def wholeNumber (v : Bytes) : Option Int :=
  if (splitSign (trimLine v)).2 ≠ [] ∧ (splitSign (trimLine v)).2.all isDigit = true then
    some (signed (splitSign (trimLine v)).1 (scanNat 0 (splitSign (trimLine v)).2))
  else none

/-- No digit where `strtoll` looks for one, or a whole number within the bound. -/
def plainNumber (inBound : Int → Bool) (v : Bytes) : Bool :=
  (strtoll (lineOf v)).isNone || (wholeNumber v).any inBound

/-- Starts with none of the words, or is one of them (and carriage returns). -/
def plainFlag (v : Bytes) : Bool :=
  flagWords.all (fun w => !w.isPrefixOf v) || flagWords.contains (trimLine v)

/-- No NUL, and no carriage return at the end. -/
def plainNonce (v : Bytes) : Bool := !v.contains 0 && decide (trimLine v = v)

/-- The clock is not behind the timestamp by more than 64 bits, nor at the value that stands
    for an error. -/
def plainTime (q : Request) (v : Bytes) : Bool :=
  (strtoll (lineOf v)).all (fun ts =>
    decide (q.now < ts) || (decide (q.now ≠ -1) && decide (InI64 (q.now - ts))))

def inI64 (n : Int) : Bool := decide (InI64 n)

def inI32 (n : Int) : Bool := decide (-2 ^ 31 ≤ n) && decide (n < 2 ^ 31)

/-- A line that fits one `fgets` has a plain value if it has the key; of a longer one, no piece
    has the key. -/
def plainLine (key : Bytes) (plainValue : Bytes → Bool) (line : Bytes) : Bool :=
  if line.length ≤ 255 then (afterKey key line).all plainValue
  else (fgetsLines line).all (fun piece => !key.isPrefixOf piece)

/-- What C reads from a line. -/
def cReads {α : Type} (parse : Bytes → Option α) (line : Bytes) : Option α :=
  (fgetsLines line).findSome? (fun piece => parse (lineOf piece))

/-- Every line up to the first that gives the field is plain. -/
def plainUntil {α : Type} (plain : Bytes → Bool) (parse : Bytes → Option α) : List Bytes → Bool
  | [] => true
  | line :: lines => plain line && ((cReads parse line).isSome || plainUntil plain parse lines)

/-- **Portable tokens.**  All lines fit both buffers, and for each field the lines that decide it
    are plain. -/
structure Portable (q : Request) (content : Bytes) : Prop where
  fit          : ∀ line ∈ splitLines 10 content, line.length < 512
  ring         : plainUntil (plainLine (ascii "ring:") (plainNumber inI32)) parseRing
    (splitLines 10 content) = true
  attested     : plainUntil (plainLine (ascii "attested:") plainFlag) parseAttested
    (splitLines 10 content) = true
  timestamp    : plainUntil
    (plainLine (ascii "timestamp:") (fun v => plainNumber inI64 v && plainTime q v))
    (parseI64Field (ascii "timestamp:")) (splitLines 10 content) = true
  nonce        : plainUntil (plainLine (ascii "nonce:") plainNonce)
    (parseStringField (ascii "nonce:") 256) (splitLines 10 content) = true
  counter      : plainUntil (plainLine (ascii "counter:") (plainNumber inI64))
    (parseI64Field (ascii "counter:")) (splitLines 10 content) = true
  rootAttested : plainUntil (plainLine (ascii "root_attested:") plainFlag) parseRootAttested
    (splitLines 10 content) = true

-- ── Cutting and trimming ─────────────────────────────────────────────────────────

/-- Bytes that neither a C string nor `trimLine` stops at. -/
def Inner (bs : Bytes) : Prop := ∀ b ∈ bs, b ≠ 0 ∧ b ≠ 10 ∧ b ≠ 13

theorem inner_of_all {bs : Bytes} (h : bs.all (fun b => b != 0 && b != 10 && b != 13) = true) :
    Inner bs := by
  intro b hb
  have hb' := List.all_eq_true.mp h b hb
  rw [Bool.and_eq_true, Bool.and_eq_true, bne_iff_ne, bne_iff_ne, bne_iff_ne] at hb'
  exact ⟨hb'.1.1, hb'.1.2, hb'.2⟩

theorem key_inner (k : Key) : Inner k.bytes := by
  cases k <;> exact inner_of_all (by decide)

theorem key_length_le (k : Key) : k.bytes.length ≤ 14 := by cases k <;> decide

theorem key_ne_nil (k : Key) : k.bytes ≠ [] := by cases k <;> decide

theorem lineOf_prefix_self (line : Bytes) : lineOf line <+: line := List.takeWhile_prefix _

theorem lineOf_append {p : Bytes} (hp : Inner p) (v : Bytes) : lineOf (p ++ v) = p ++ lineOf v := by
  refine List.takeWhile_append_of_pos (fun b hb => ?_)
  obtain ⟨h0, h10, -⟩ := hp b hb
  rw [Bool.and_eq_true, bne_iff_ne, bne_iff_ne]
  exact ⟨h0, h10⟩

theorem trimLine_prefix_self (line : Bytes) : trimLine line <+: line := List.rdropWhile_prefix ..

theorem trimLine_append {p : Bytes} (hp : Inner p) (v : Bytes) : trimLine (p ++ v) = p ++ trimLine v := by
  induction v using List.reverseRecOn with
  | nil =>
      rw [List.append_nil]
      show p.rdropWhile _ = p ++ ([] : Bytes).rdropWhile _
      rw [List.rdropWhile_nil, List.append_nil]
      refine List.rdropWhile_eq_self_iff.mpr (fun hne => ?_)
      obtain ⟨-, h10, h13⟩ := hp _ (List.getLast_mem hne)
      rw [Bool.or_eq_true, beq_iff_eq, beq_iff_eq, not_or]
      exact ⟨h13, h10⟩
  | append_singleton v b ih =>
      show (p ++ (v ++ [b])).rdropWhile _ = p ++ (v ++ [b]).rdropWhile _
      rw [← List.append_assoc, List.rdropWhile_concat, List.rdropWhile_concat]
      split
      · exact ih
      · rw [List.append_assoc]

/-- What `trimLine` drops. -/
theorem trimLine_spec (v : Bytes) : ∃ crs, v = trimLine v ++ crs ∧ ∀ b ∈ crs, isDigit b = false := by
  refine ⟨v.rtakeWhile (fun b => b == 13 || b == 10),
    (List.rdropWhile_append_rtakeWhile ..).symm, fun b hb => ?_⟩
  have hp := List.mem_rtakeWhile_imp hb
  rw [Bool.or_eq_true, beq_iff_eq, beq_iff_eq] at hp
  rcases hp with rfl | rfl <;> rfl

/-- Cutting and trimming leave the key alone. -/
theorem afterKey_of_keeps {key : Bytes} {τ : Bytes → Bytes} (hτ : ∀ l, τ l <+: l)
    (hkey : ∀ v, τ (key ++ v) = key ++ τ v) (line : Bytes) :
    afterKey key (τ line) = (afterKey key line).map τ := by
  cases h : afterKey key line with
  | some v =>
      rw [afterKey_eq_some_iff.mp h, hkey]
      exact afterKey_eq_some_iff.mpr rfl
  | none =>
      cases h' : afterKey key (τ line) with
      | none => rfl
      | some v =>
          have hpre : key <+: line :=
            (afterKey_eq_some_iff.mp h' ▸ List.prefix_append key v).trans (hτ line)
          obtain ⟨w, rfl⟩ := hpre
          rw [afterKey_eq_some_iff.mpr rfl] at h
          exact nomatch h

-- ── Values ───────────────────────────────────────────────────────────────────────

theorem isDigit_inner {b : UInt8} (h : isDigit b = true) : b ≠ 0 ∧ b ≠ 10 ∧ b ≠ 13 := by
  refine ⟨?_, ?_, ?_⟩ <;> rintro rfl <;> exact absurd h (by decide)

theorem sign_inner {s : Bytes} (h : IsSign s) : Inner s := by
  rcases h with rfl | rfl | rfl <;> exact inner_of_all (by decide)

theorem inner_append {p r : Bytes} (hp : Inner p) (hr : Inner r) : Inner (p ++ r) := by
  intro b hb
  rcases List.mem_append.mp hb with hb | hb
  · exact hp b hb
  · exact hr b hb

/-- Where `strtoll` finds no digit, the strict parser fails as well. -/
theorem parseInt_trimLine_of_none {v : Bytes} (h : strtoll (lineOf v) = none) :
    parseInt (trimLine v) = none := by
  cases hp : parseInt (trimLine v) with
  | none => rfl
  | some n =>
      obtain ⟨s, b, rest, hs, hb, htrim⟩ := parseInt_head hp
      obtain ⟨crs, hv, -⟩ := trimLine_spec v
      have hinner : Inner (s ++ [b]) := by
        refine inner_append (sign_inner hs) (fun x hx => ?_)
        rw [List.mem_singleton.mp hx]
        exact isDigit_inner hb
      have hline : lineOf v = s ++ b :: lineOf (rest ++ crs) := by
        have hv' : v = (s ++ [b]) ++ (rest ++ crs) := by
          rw [hv, htrim]
          simp
        rw [hv', lineOf_append hinner]
        simp
      rw [hline] at h
      exact absurd h (strtoll_head hs hb _)

/-- Both parsers read a whole number in range. -/
theorem numbers_of_whole {v : Bytes} {n : Int} (h : wholeNumber v = some n) (hn : InI64 n) :
    strtoll (lineOf v) = some n ∧ parseInt (trimLine v) = some n := by
  unfold wholeNumber at h
  by_cases hw : (splitSign (trimLine v)).2 ≠ [] ∧ (splitSign (trimLine v)).2.all isDigit = true
  · rw [if_pos hw] at h
    obtain ⟨hne, hall⟩ := hw
    have hds : ∀ b ∈ (splitSign (trimLine v)).2, isDigit b = true := List.all_eq_true.mp hall
    obtain ⟨s, hs, hsplit⟩ := splitSign_spec (trimLine v)
    obtain ⟨crs, hv, hcrs⟩ := trimLine_spec v
    have hinner : Inner (trimLine v) := by
      rw [hsplit]
      exact inner_append (sign_inner hs) (fun b hb => isDigit_inner (hds b hb))
    have hline : lineOf v = trimLine v ++ lineOf crs := by
      rw [← lineOf_append hinner, ← hv]
    have htrim : trimLine v ≠ [] := by
      intro hnil
      rw [hnil] at hne
      exact hne rfl
    obtain rfl : signed (splitSign (trimLine v)).1 (scanNat 0 (splitSign (trimLine v)).2) = n :=
      Option.some.inj h
    refine ⟨?_, parseInt_digits rfl hne hds hn⟩
    rw [hline, strtoll_of_split ?_ (splitSign_append htrim _) hne hds ?_, clampI64_of_mem hn]
    · intro b hb
      have hhead : b ∈ (trimLine v).head? := by
        rw [List.head?_append_of_ne_nil _ htrim] at hb
        exact hb
      rw [hsplit] at hhead
      exact head_not_blank hs hds b hhead
    · intro b hb
      exact hcrs b ((lineOf_prefix_self crs).subset (List.mem_of_mem_head? hb))
  · rw [if_neg hw] at h
    exact nomatch h

/-- The two readings of a plain number. -/
theorem plainNumber_cases {inBound : Int → Bool} (hbound : ∀ n, inBound n = true → InI64 n)
    {v : Bytes} (h : plainNumber inBound v = true) :
    (strtoll (lineOf v) = none ∧ parseInt (trimLine v) = none)
      ∨ ∃ n, inBound n = true ∧ strtoll (lineOf v) = some n ∧ parseInt (trimLine v) = some n := by
  unfold plainNumber at h
  rw [Bool.or_eq_true, Option.isNone_iff_eq_none] at h
  rcases h with hnone | hwhole
  · exact Or.inl ⟨hnone, parseInt_trimLine_of_none hnone⟩
  · cases hn : wholeNumber v with
    | none =>
        rw [hn] at hwhole
        exact nomatch hwhole
    | some n =>
        rw [hn] at hwhole
        exact Or.inr ⟨n, hwhole, numbers_of_whole hn (hbound n hwhole)⟩

theorem inI64_mem (n : Int) (h : inI64 n = true) : InI64 n := of_decide_eq_true h

theorem inI32_bounds {n : Int} (h : inI32 n = true) : -2 ^ 31 ≤ n ∧ n < 2 ^ 31 := by
  unfold inI32 at h
  rw [Bool.and_eq_true, decide_eq_true_eq, decide_eq_true_eq] at h
  exact h

theorem inI32_mem (n : Int) (h : inI32 n = true) : InI64 n := by
  obtain ⟨hlo, hhi⟩ := inI32_bounds h
  exact ⟨by omega, by omega⟩

/-- Narrowing keeps what fits. -/
theorem toInt32_of_inI32 {n : Int} (h : inI32 n = true) : toInt32 n = n := by
  obtain ⟨hlo, hhi⟩ := inI32_bounds h
  exact Int.bmod_eq_of_le (by omega) (by omega)

theorem number_agrees {v : Bytes} (h : plainNumber inI64 v = true) :
    strtoll (lineOf v) = parseInt (trimLine v) := by
  rcases plainNumber_cases inI64_mem h with ⟨hs, hp⟩ | ⟨n, -, hs, hp⟩
  · rw [hs, hp]
  · rw [hs, hp]

theorem ring_agrees {v : Bytes} (h : plainNumber inI32 v = true) :
    (strtoll (lineOf v)).map toInt32 = parseInt (trimLine v) := by
  rcases plainNumber_cases inI32_mem h with ⟨hs, hp⟩ | ⟨n, hn, hs, hp⟩
  · rw [hs, hp]
    rfl
  · rw [hs, hp, Option.map_some, toInt32_of_inI32 hn]

/-- How C reads a flag's value. -/
def cFlag (v : Bytes) : Option Bool :=
  if (ascii "true").isPrefixOf v || (ascii "1").isPrefixOf v then some true
  else if (ascii "false").isPrefixOf v || (ascii "0").isPrefixOf v then some false
  else none

/-- How Zig reads a flag's value. -/
def zigFlag (v : Bytes) : Option Bool :=
  if v = ascii "true" ∨ v = ascii "1" then some true
  else if v = ascii "false" ∨ v = ascii "0" then some false
  else none

theorem cFlag_of_no_word {v : Bytes} (h : ∀ w ∈ flagWords, ¬ w <+: v) : cFlag v = none := by
  have hno : ∀ w ∈ flagWords, w.isPrefixOf v = false := by
    intro w hw
    rw [Bool.eq_false_iff]
    exact fun hp => h w hw (List.isPrefixOf_iff_prefix.mp hp)
  unfold cFlag
  rw [hno (ascii "true") (by decide), hno (ascii "1") (by decide), hno (ascii "false") (by decide),
    hno (ascii "0") (by decide)]
  rfl

theorem zigFlag_of_not_mem {v : Bytes} (h : v ∉ flagWords) : zigFlag v = none := by
  have hne : ∀ w ∈ flagWords, v ≠ w := by
    rintro w hw rfl
    exact h hw
  unfold zigFlag
  rw [if_neg (by rintro (h1 | h1); exacts [hne _ (by decide) h1, hne _ (by decide) h1]),
    if_neg (by rintro (h1 | h1); exacts [hne _ (by decide) h1, hne _ (by decide) h1])]

theorem flagWord_cases {w : Bytes} (h : w ∈ flagWords) :
    w = ascii "true" ∨ w = ascii "1" ∨ w = ascii "false" ∨ w = ascii "0" := by
  simpa only [flagWords, List.mem_cons, List.not_mem_nil, or_false] using h

theorem flagWord_inner {w : Bytes} (h : w ∈ flagWords) : Inner w := by
  rcases flagWord_cases h with rfl | rfl | rfl | rfl <;> exact inner_of_all (by decide)

/-- A word and whatever follows it. -/
theorem cFlag_append {w : Bytes} (hw : w ∈ flagWords) (rest : Bytes) :
    cFlag (w ++ rest) = zigFlag w := by
  rcases flagWord_cases hw with rfl | rfl | rfl | rfl <;> rfl

theorem flag_agrees {v : Bytes} (h : plainFlag v = true) :
    cFlag (lineOf v) = zigFlag (trimLine v) := by
  unfold plainFlag at h
  rw [Bool.or_eq_true, List.all_eq_true, List.contains_iff_mem] at h
  rcases h with hno | hword
  · have hnot : ∀ w ∈ flagWords, ¬ w <+: v := by
      intro w hw hp
      have := hno w hw
      rw [List.isPrefixOf_iff_prefix.mpr hp] at this
      exact nomatch this
    rw [cFlag_of_no_word (fun w hw hp => hnot w hw (hp.trans (lineOf_prefix_self v))),
      zigFlag_of_not_mem (fun hmem => hnot _ hmem (trimLine_prefix_self v))]
  · obtain ⟨crs, hv, -⟩ := trimLine_spec v
    have hline : lineOf v = trimLine v ++ lineOf crs := by
      rw [← lineOf_append (flagWord_inner hword), ← hv]
    rw [hline]
    exact cFlag_append hword _

theorem nonce_agrees {v : Bytes} (h10 : 10 ∉ v) (hlen : v.length < 256) (h : plainNonce v = true) :
    (if lineOf v = [] then none else if (lineOf v).length + 1 > 256 then none else some (lineOf v))
      = if trimLine v = [] then none else some (trimLine v) := by
  unfold plainNonce at h
  rw [Bool.and_eq_true, Bool.not_eq_true', ← Bool.not_eq_true, List.contains_iff_mem,
    decide_eq_true_eq] at h
  obtain ⟨h0, htrim⟩ := h
  rw [lineOf_eq_self h0 h10, htrim, if_neg (show ¬ v.length + 1 > 256 by omega)]

-- ── Lines ────────────────────────────────────────────────────────────────────────

section Lines

variable {α : Type} {k : Key} {f g : Bytes → Option α} {plainValue : Bytes → Bool}

theorem cReads_short {parse : Bytes → Option α} (hnil : parse [] = none) {line : Bytes}
    (h10 : 10 ∉ line) (hlen : line.length ≤ 255) : cReads parse line = parse (lineOf line) := by
  unfold cReads fgetsLines
  by_cases hne : line = []
  · rw [hne]
    exact hnil.symm
  · rw [fgetsAll_short 10 h10 hne hlen, findSome?_cons_or]
    exact Option.or_none

/-- The first piece of a long line is what fits the buffer. -/
theorem take_mem_fgetsLines {line : Bytes} (h10 : 10 ∉ line) (hlen : 255 < line.length) :
    line.take 255 ∈ fgetsLines line := by
  have htake : (line.take 255).length = 255 := List.length_take_of_le (Nat.le_of_lt hlen)
  have hfill : fgetsTake 10 255 line = line.take 255 := by
    have hp : 10 ∉ line.take 255 := fun hmem => h10 (List.mem_of_mem_take hmem)
    have h := fgetsTake_fill 10 hp (line.drop 255)
    rw [htake, List.take_append_drop] at h
    exact h
  unfold fgetsLines
  rw [fgetsAll_cons 10 (by decide) (List.take_append_drop 255 line).symm
    (List.ne_nil_of_length_pos (by omega)) hfill]
  exact List.mem_cons_self

/-- No piece of a plain long line has the key. -/
theorem plainLine_long {line : Bytes} (hlen : ¬ line.length ≤ 255)
    (hplain : plainLine k.bytes plainValue line = true) :
    ∀ piece ∈ fgetsLines line, ¬ k.bytes <+: piece := by
  unfold plainLine at hplain
  rw [if_neg hlen, List.all_eq_true] at hplain
  intro piece hmem hp
  have h := hplain piece hmem
  rw [List.isPrefixOf_iff_prefix.mpr hp] at h
  exact nomatch h

/-- So the line itself has not. -/
theorem plainLine_short {line v : Bytes} (h10 : 10 ∉ line)
    (hplain : plainLine k.bytes plainValue line = true) (h : afterKey k.bytes line = some v) :
    line.length ≤ 255 := by
  by_contra hlen
  have hp : k.bytes <+: line := afterKey_eq_some_iff.mp h ▸ List.prefix_append k.bytes v
  have hkey := key_length_le k
  have htake : k.bytes <+: line.take 255 := List.prefix_take_iff.mpr ⟨hp, by omega⟩
  exact plainLine_long hlen hplain _ (take_mem_fgetsLines h10 (Nat.not_le.mp hlen)) htake

theorem plainLine_value {line v : Bytes} (h10 : 10 ∉ line)
    (hplain : plainLine k.bytes plainValue line = true) (h : afterKey k.bytes line = some v) :
    plainValue v = true ∧ v.length < 256 := by
  have hlen := plainLine_short h10 hplain h
  unfold plainLine at hplain
  rw [if_pos hlen, h] at hplain
  rw [afterKey_eq_some_iff.mp h, List.length_append] at hlen
  exact ⟨hplain, by omega⟩

/-- C reads a plain line as one piece. -/
theorem cReads_plain {line : Bytes} (h10 : 10 ∉ line)
    (hplain : plainLine k.bytes plainValue line = true) :
    cReads (fun l => (afterKey k.bytes l).bind f) line
      = (afterKey k.bytes line).bind (fun v => f (lineOf v)) := by
  by_cases hlen : line.length ≤ 255
  · have hnil : (afterKey k.bytes []).bind f = none := by
      cases h : afterKey k.bytes [] with
      | none => rfl
      | some v =>
          have hv := (List.append_eq_nil_iff.mp (afterKey_eq_some_iff.mp h).symm).1
          exact absurd hv (key_ne_nil k)
    rw [cReads_short hnil h10 hlen,
      afterKey_of_keeps lineOf_prefix_self (lineOf_append (key_inner k)), Option.bind_map]
    rfl
  · have hc : cReads (fun l => (afterKey k.bytes l).bind f) line = none := by
      refine List.findSome?_eq_none_iff.mpr (fun piece hmem => ?_)
      show (afterKey k.bytes (lineOf piece)).bind f = none
      cases h : afterKey k.bytes (lineOf piece) with
      | none => rfl
      | some v =>
          have hp : k.bytes <+: lineOf piece :=
            afterKey_eq_some_iff.mp h ▸ List.prefix_append k.bytes v
          exact absurd (hp.trans (lineOf_prefix_self piece)) (plainLine_long hlen hplain piece hmem)
    rw [hc]
    cases h : afterKey k.bytes line with
    | none => rfl
    | some v =>
        exact absurd (plainLine_short h10 hplain h) hlen

/-- **A plain line is read alike**: C reads from its pieces what Zig reads from the trimmed line. -/
theorem plainLine_reads
    (hvalue : ∀ v, 10 ∉ v → v.length < 256 → plainValue v = true → f (lineOf v) = g (trimLine v))
    {line : Bytes} (h10 : 10 ∉ line) (hplain : plainLine k.bytes plainValue line = true) :
    cReads (fun l => (afterKey k.bytes l).bind f) line
      = (afterKey k.bytes (trimLine line)).bind g := by
  rw [cReads_plain h10 hplain,
    afterKey_of_keeps trimLine_prefix_self (trimLine_append (key_inner k)), Option.bind_map]
  cases h : afterKey k.bytes line with
  | none => rfl
  | some v =>
      obtain ⟨hv, hlen⟩ := plainLine_value h10 hplain h
      have hv10 : 10 ∉ v :=
        fun hmem => h10 (afterKey_eq_some_iff.mp h ▸ List.mem_append_right _ hmem)
      exact hvalue v hv10 hlen hv

/-- Up to the first line that gives the field both find the same, so they find the same field. -/
theorem findSome?_of_plainUntil {plain : Bytes → Bool} {parse g' : Bytes → Option α}
    (halike : ∀ line, 10 ∉ line → plain line = true → cReads parse line = g' line) :
    ∀ lines : List Bytes, (∀ line ∈ lines, 10 ∉ line) → plainUntil plain parse lines = true →
      lines.findSome? (cReads parse) = lines.findSome? g' := by
  intro lines
  induction lines with
  | nil => intro _ _; rfl
  | cons line lines ih =>
      intro h10 hplain
      have hplain' : (plain line && ((cReads parse line).isSome || plainUntil plain parse lines))
          = true := hplain
      rw [Bool.and_eq_true, Bool.or_eq_true] at hplain'
      obtain ⟨hline, hrest⟩ := hplain'
      have heq := halike line (h10 line List.mem_cons_self) hline
      rw [findSome?_cons_or, findSome?_cons_or, heq]
      rcases hrest with hsome | hrest
      · rw [heq] at hsome
        obtain ⟨a, ha⟩ := Option.isSome_iff_exists.mp hsome
        rw [ha]
        rfl
      · rw [ih (fun l hl => h10 l (List.mem_cons_of_mem line hl)) hrest]

/-- The line that gives the field is plain. -/
theorem plain_of_findSome? {plain : Bytes → Bool} {parse : Bytes → Option α} {a : α} :
    ∀ lines : List Bytes, plainUntil plain parse lines = true →
      lines.findSome? (cReads parse) = some a →
      ∃ line ∈ lines, plain line = true ∧ cReads parse line = some a := by
  intro lines
  induction lines with
  | nil => intro _ h; exact nomatch h
  | cons line lines ih =>
      intro hplain hfind
      have hplain' : (plain line && ((cReads parse line).isSome || plainUntil plain parse lines))
          = true := hplain
      rw [Bool.and_eq_true, Bool.or_eq_true] at hplain'
      obtain ⟨hline, hrest⟩ := hplain'
      rw [findSome?_cons_or] at hfind
      cases hread : cReads parse line with
      | some b =>
          rw [hread] at hfind
          exact ⟨line, List.mem_cons_self, hline, hread.trans hfind⟩
      | none =>
          rw [hread] at hfind hrest
          rcases hrest with hsome | hrest
          · exact nomatch hsome
          · obtain ⟨l, hl, hp, hr⟩ := ih hrest hfind
            exact ⟨l, List.mem_cons_of_mem line hl, hp, hr⟩

end Lines

-- ── Fields ───────────────────────────────────────────────────────────────────────

theorem findSome?_fgetsLines {α : Type} {parse : Bytes → Option α} (hnil : parse [] = none)
    (content : Bytes) :
    (fgetsLines content).findSome? (fun piece => parse (lineOf piece))
      = (splitLines 10 content).findSome? (cReads parse) := by
  refine findSome?_fgetsAll 10 (by decide) (fun piece => parse (lineOf piece)) hnil ?_ content
  intro l
  show parse (lineOf (l ++ [10])) = parse (lineOf l)
  rw [lineOf_concat]

theorem zigParsers_keyed : Keyed zigParsers where
  ring := prefix_of_bind_afterKey
  attested := prefix_of_bind_afterKey
  timestamp := prefix_of_bind_afterKey
  nonce := prefix_of_bind_afterKey
  counter := prefix_of_bind_afterKey
  rootAttested := prefix_of_bind_afterKey

theorem ring_reads {line : Bytes} (h10 : 10 ∉ line)
    (h : plainLine (ascii "ring:") (plainNumber inI32) line = true) :
    cReads parseRing line = parseI64 (ascii "ring:") (trimLine line) := by
  have hbind : parseRing
      = fun l => (afterKey (ascii "ring:") l).bind (fun v => (strtoll v).map toInt32) := by
    funext l
    exact Option.map_bind
  rw [hbind]
  exact plainLine_reads (k := .ring) (fun v _ _ hv => ring_agrees hv) h10 h

theorem flag_reads (k : Key) {line : Bytes} (h10 : 10 ∉ line)
    (h : plainLine k.bytes plainFlag line = true) :
    cReads (parseFlag k.bytes) line = parseBool k.bytes (trimLine line) :=
  plainLine_reads (f := cFlag) (g := zigFlag) (fun _ _ _ hv => flag_agrees hv) h10 h

/-- Numbers, whatever else is asked of them. -/
theorem number_reads (k : Key) {plainValue : Bytes → Bool}
    (hplain : ∀ v, plainValue v = true → plainNumber inI64 v = true) {line : Bytes} (h10 : 10 ∉ line)
    (h : plainLine k.bytes plainValue line = true) :
    cReads (parseI64Field k.bytes) line = parseI64 k.bytes (trimLine line) :=
  plainLine_reads (fun v _ _ hv => number_agrees (hplain v hv)) h10 h

theorem nonce_reads {line : Bytes} (h10 : 10 ∉ line)
    (h : plainLine (ascii "nonce:") plainNonce line = true) :
    cReads (parseStringField (ascii "nonce:") 256) line
      = parseText (ascii "nonce:") (trimLine line) :=
  plainLine_reads (k := .nonce) (fun _ hv10 hlen hv => nonce_agrees hv10 hlen hv) h10 h

/-- C keeps a nonce only if it fits. -/
theorem cReads_nonce_length {line v : Bytes}
    (h : cReads (parseStringField (ascii "nonce:") 256) line = some v) : v.length < 256 := by
  obtain ⟨piece, -, hp⟩ := List.exists_of_findSome?_eq_some h
  obtain ⟨w, -, hw⟩ := Option.bind_eq_some_iff.mp hp
  by_cases hnil : w = []
  · rw [if_pos hnil] at hw
    exact nomatch hw
  · rw [if_neg hnil] at hw
    by_cases hlen : w.length + 1 > 256
    · rw [if_pos hlen] at hw
      exact nomatch hw
    · rw [if_neg hlen] at hw
      rw [← Option.some.inj hw]
      omega

theorem not_nonceOverflows {t : Fields} {line : Bytes}
    (h : t.nonce = none → ∀ v, parseText (ascii "nonce:") line = some v → v.length < 256) :
    nonceOverflows t line = false := by
  unfold nonceOverflows
  cases hf : fresh t.nonce (parseText (ascii "nonce:") line) with
  | none => rfl
  | some v =>
      cases hn : t.nonce with
      | some w =>
          rw [hn] at hf
          exact nomatch hf
      | none =>
          rw [hn] at hf
          have hlen := h hn v hf
          exact decide_eq_false (by omega)

/-- With plain nonces the Zig loop never returns early. -/
theorem foldlM_scanTrimmed : ∀ (lines : List Bytes) (t : Fields), (∀ line ∈ lines, 10 ∉ line) →
    (t.nonce = none → plainUntil (plainLine (ascii "nonce:") plainNonce)
      (parseStringField (ascii "nonce:") 256) lines = true) →
    lines.foldlM (fun t line => scanTrimmed t (trimLine line)) t
      = some ((lines.map trimLine).foldl (scanWith zigParsers) t) := by
  intro lines
  induction lines with
  | nil => intro t _ _; rfl
  | cons line lines ih =>
      intro t h10 hplain
      have hline10 := h10 line List.mem_cons_self
      have hsplit : t.nonce = none → plainLine (ascii "nonce:") plainNonce line = true
          ∧ ((cReads (parseStringField (ascii "nonce:") 256) line).isSome = true
            ∨ plainUntil (plainLine (ascii "nonce:") plainNonce)
                (parseStringField (ascii "nonce:") 256) lines = true) := by
        intro hn
        have h : (_ && (_ || _)) = true := hplain hn
        rw [Bool.and_eq_true, Bool.or_eq_true] at h
        exact h
      have hstep : scanTrimmed t (trimLine line) = some (scanWith zigParsers t (trimLine line)) := by
        unfold scanTrimmed
        rw [not_nonceOverflows]
        · rfl
        · intro hn v hv
          rw [← nonce_reads hline10 (hsplit hn).1] at hv
          exact cReads_nonce_length hv
      rw [List.foldlM_cons, hstep]
      refine ih _ (fun l hl => h10 l (List.mem_cons_of_mem line hl)) (fun hn' => ?_)
      -- the nonce is still missing, so this line did not give it
      rw [scanWith_eq zigParsers_keyed] at hn'
      obtain ⟨hn, hread⟩ := Option.or_eq_none_iff.mp hn'
      rcases (hsplit hn).2 with hsome | hrest
      · rw [nonce_reads hline10 (hsplit hn).1] at hsome
        have hread' : parseText (ascii "nonce:") (trimLine line) = none := hread
        rw [hread'] at hsome
        exact nomatch hsome
      · exact hrest

/-- **The two loops find the same fields** in a portable token. -/
theorem fields_agree {q : Request} {content : Bytes} (h : Portable q content) :
    parseFields content = some (readFields content) := by
  have h10 : ∀ line ∈ splitLines 10 content, (10 : UInt8) ∉ line :=
    fun line hl => not_mem_of_mem_splitLines 10 hl
  unfold parseFields
  rw [readLines_of_fit 10 h.fit, Option.bind_some, foldlM_scanTrimmed _ _ h10 (fun _ => h.nonce),
    foldl_scanWith zigParsers_keyed, readFields_eq]
  rw [findSome?_fgetsLines (by decide), findSome?_fgetsLines (by decide),
    findSome?_fgetsLines (by decide), findSome?_fgetsLines (by decide),
    findSome?_fgetsLines (by decide), findSome?_fgetsLines (by decide)]
  simp only [List.findSome?_map]
  refine congrArg some (Fields.mk.injEq .. ▸ ⟨?_, ?_, ?_, ?_, ?_, ?_⟩)
  · exact (findSome?_of_plainUntil (fun _ => ring_reads) _ h10 h.ring).symm
  · exact (findSome?_of_plainUntil (fun _ => flag_reads .attested) _ h10 h.attested).symm
  · have htime : ∀ v, (plainNumber inI64 v && plainTime q v) = true → plainNumber inI64 v = true :=
      fun v hv => (Bool.and_eq_true .. ▸ hv).1
    exact (findSome?_of_plainUntil (fun _ => number_reads .timestamp htime) _ h10 h.timestamp).symm
  · exact (findSome?_of_plainUntil (fun _ => nonce_reads) _ h10 h.nonce).symm
  · exact (findSome?_of_plainUntil (fun _ => number_reads .counter (fun _ hv => hv)) _ h10
      h.counter).symm
  · exact (findSome?_of_plainUntil (fun _ => flag_reads .rootAttested) _ h10 h.rootAttested).symm

-- ── Decisions ────────────────────────────────────────────────────────────────────

/-- The clock and a timestamp for which both backends compute the same age. -/
def TimeOk (now ts : Int) : Prop := now < ts ∨ now ≠ -1 ∧ InI64 (now - ts)

theorem subI64_eq {a b : Int} (h : InI64 (a - b)) : subI64 a b = a - b := by
  obtain ⟨hlo, hhi⟩ := h
  exact Int.bmod_eq_of_le (by omega) (by omega)

theorem checks_agree {q : Request} {t : Fields} (h : ∀ ts, t.timestamp = some ts → TimeOk q.now ts) :
    checkFields q t = checkParsed q t := by
  obtain ⟨ring, attested, timestamp, nonce, counter, root⟩ := t
  cases ring with
  | none => rfl
  | some ring =>
  cases attested with
  | none => rfl
  | some attested =>
  cases timestamp with
  | none => rfl
  | some ts =>
  cases counter with
  | none => rfl
  | some counter =>
      dsimp only [checkFields, checkParsed]
      rcases h ts rfl with hearly | ⟨hclock, hage⟩
      · -- a token from the future is refused by both
        simp only [if_pos hearly, ite_self]
      · simp only [if_neg hclock, subI64_eq hage, not_true_eq_false, hage, if_false]

/-- The timestamp of a portable token suits the clock. -/
theorem time_of_portable {q : Request} {content : Bytes} (h : Portable q content) {ts : Int}
    (hts : (readFields content).timestamp = some ts) : TimeOk q.now ts := by
  rw [readFields_eq] at hts
  have hfind : (splitLines 10 content).findSome? (cReads (parseI64Field (ascii "timestamp:")))
      = some ts := (findSome?_fgetsLines (by decide) content).symm.trans hts
  obtain ⟨line, hmem, hplain, hread⟩ := plain_of_findSome? _ h.timestamp hfind
  have h10 := not_mem_of_mem_splitLines 10 hmem
  have hread' := (cReads_plain (k := .timestamp) (f := strtoll) h10 hplain).symm.trans hread
  obtain ⟨v, hv, hs⟩ := Option.bind_eq_some_iff.mp hread'
  have hvalue := (plainLine_value (k := .timestamp) h10 hplain hv).1
  rw [Bool.and_eq_true] at hvalue
  have htime := hvalue.2
  unfold plainTime at htime
  rw [hs, Option.all_some, Bool.or_eq_true, Bool.and_eq_true, decide_eq_true_eq, decide_eq_true_eq,
    decide_eq_true_eq] at htime
  exact htime

/-- The counter of the scanned fields stays in range from line to line. -/
theorem foldlM_counter_mem : ∀ (lines : List Bytes) {t t' : Fields},
    lines.foldlM (fun t line => scanTrimmed t (trimLine line)) t = some t' →
      (∀ c, t.counter = some c → InI64 c) → ∀ c, t'.counter = some c → InI64 c := by
  intro lines
  induction lines with
  | nil =>
      intro t t' hfold ht
      rw [← Option.some.inj hfold]
      exact ht
  | cons line lines ih =>
      intro t t' hfold ht
      rw [List.foldlM_cons] at hfold
      obtain ⟨t₁, hline, hrest⟩ := Option.bind_eq_some_iff.mp hfold
      refine ih hrest (fun c hc => ?_)
      unfold scanTrimmed at hline
      split at hline
      · exact nomatch hline
      · rw [← Option.some.inj hline, scanWith_eq zigParsers_keyed] at hc
        rcases Option.or_eq_some_iff.mp hc with hold | ⟨-, hnew⟩
        · exact ht c hold
        · obtain ⟨v, -, hv⟩ := Option.bind_eq_some_iff.mp hnew
          exact parseInt_mem hv

theorem checkParsed_counter {q : Request} {t : Fields} {c : Int} (h : checkParsed q t = some c) :
    t.counter = some c := by
  unfold checkParsed at h
  split at h
  · next ring attested ts counter _ _ _ hcounter =>
      simp only [Option.ite_none_left_eq_some, Option.some.injEq] at h
      rw [hcounter, h.2.2.2.2.2.2.2.2]
  · exact nomatch h

/-- **An accepted token's counter is a signed 64-bit number** here too. -/
theorem parseToken_mem {q : Request} {content : Bytes} {c : Int}
    (h : parseToken q content = some c) : InI64 c := by
  obtain ⟨t, hfields, hcheck⟩ := Option.bind_eq_some_iff.mp h
  obtain ⟨lines, -, hfold⟩ := Option.bind_eq_some_iff.mp hfields
  exact foldlM_counter_mem lines hfold (fun _ hc => nomatch hc) c (checkParsed_counter hcheck)

/-- A token of ring -1 from its lines. -/
def tokenOf (lines : List Bytes) : Bytes := lines.flatMap (fun line => line ++ [10])

def noNonce : Request := ⟨-1, 60, none, 100⟩

/-- Carriage returns, a comment longer than one `fgets`, and a counter given twice: all portable. -/
def portableToken : Bytes :=
  tokenOf [ascii "ring:-1\r", ascii "attested:true\r", List.replicate 300 35,
    ascii "timestamp:90", ascii "counter:7", ascii "counter: 8x"]

/-- What C and Zig record for a token. -/
def verdicts (q : Request) (lines : List Bytes) : Option Int × Option Int :=
  (records 0 (checkToken q (tokenOf lines)), records 0 (parseToken q (tokenOf lines)))

end SkvZigToken

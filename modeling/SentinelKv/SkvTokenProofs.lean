import Mathlib.Data.List.TakeWhile
import SentinelKv.DecimalProofs
import SentinelKv.LineReaderProofs

/-!
# The attestation token, as the C validator reads it

`attestation_bridge.c` up to its replay section: `fgets` chunks of at most 255 bytes, the
field parsers, the loop that fills each field once, and the checks on the fields.  What is
left of a call after them is the counter it wants to record (`checkToken`).

Files are lists of bytes.  A C string is the part before its first NUL, so the line a chunk
stands for ends at the first NUL or newline.  The age `now - token_ts` is computed in 64
bits; where the source's subtraction overflows the model wraps, as the compiled code does.
-/

namespace SkvToken

open Decimal

abbrev Bytes := List UInt8

/-- The bytes of an ASCII literal. -/
def ascii (s : String) : Bytes := s.toList.map (fun c => UInt8.ofNat c.toNat)

-- ── Lines ────────────────────────────────────────────────────────────────────────

/-- `while (fgets(buf, sizeof(buf), f) != NULL)` with a buffer of 256 bytes. -/
def fgetsLines (content : Bytes) : List Bytes := LineReader.fgetsAll 10 255 content

/-- The C string in the buffer, its newline cut off. -/
def lineOf (chunk : Bytes) : Bytes := chunk.takeWhile (fun b => b != 0 && b != 10)

theorem lineOf_eq_self {v : Bytes} (h0 : 0 ∉ v) (h10 : 10 ∉ v) : lineOf v = v := by
  refine List.takeWhile_eq_self_iff.mpr (fun b hb => ?_)
  rw [Bool.and_eq_true, bne_iff_ne, bne_iff_ne]
  exact ⟨fun heq => h0 (heq ▸ hb), fun heq => h10 (heq ▸ hb)⟩

/-- The delimiter adds nothing to a C string. -/
theorem lineOf_concat (line : Bytes) : lineOf (line ++ [10]) = lineOf line := by
  induction line with
  | nil => rfl
  | cons b bs ih =>
      show List.takeWhile _ (b :: (bs ++ [10])) = List.takeWhile _ (b :: bs)
      rw [List.takeWhile_cons, List.takeWhile_cons]
      split
      · exact congrArg (b :: ·) ih
      · rfl

-- ── Field parsers ────────────────────────────────────────────────────────────────

/-- `strncmp(line, prefix, n) == 0`, and what follows the key. -/
def afterKey (key : Bytes) (line : Bytes) : Option Bytes :=
  if key.isPrefixOf line then some (line.drop key.length) else none

/-- `(int)val`. -/
def toInt32 (v : Int) : Int := Int.bmod v (2 ^ 32)

/-- `parse_ring`. -/
def parseRing (line : Bytes) : Option Int :=
  ((afterKey (ascii "ring:") line).bind strtoll).map toInt32

/-- The common body of `parse_attested` and `parse_root_attested`: the value only has to
    START with one of the four words. -/
def parseFlag (key : Bytes) (line : Bytes) : Option Bool :=
  (afterKey key line).bind (fun v =>
    if (ascii "true").isPrefixOf v || (ascii "1").isPrefixOf v then some true
    else if (ascii "false").isPrefixOf v || (ascii "0").isPrefixOf v then some false
    else none)

/-- `parse_attested`. -/
def parseAttested : Bytes → Option Bool := parseFlag (ascii "attested:")

/-- `parse_root_attested`. -/
def parseRootAttested : Bytes → Option Bool := parseFlag (ascii "root_attested:")

/-- `parse_i64_field`. -/
def parseI64Field (key : Bytes) (line : Bytes) : Option Int := (afterKey key line).bind strtoll

/-- `parse_string_field` with an output buffer of `outLen` bytes. -/
def parseStringField (key : Bytes) (outLen : Nat) (line : Bytes) : Option Bytes :=
  (afterKey key line).bind (fun v =>
    if v = [] then none else if v.length + 1 > outLen then none else some v)

-- ── The field loop ───────────────────────────────────────────────────────────────

/-- The fields found so far; `found_x` is `x.isSome`. -/
structure Fields where
  ring         : Option Int
  attested     : Option Bool
  timestamp    : Option Int
  nonce        : Option Bytes
  counter      : Option Int
  rootAttested : Option Bool
deriving DecidableEq, Repr

def Fields.empty : Fields := ⟨none, none, none, none, none, none⟩

/-- `!found && parse(...)`: a field already found is not parsed again. -/
def fresh {α : Type} (found parsed : Option α) : Option α :=
  if found.isSome then none else parsed

/-- The parsers of a backend, one for each field. -/
structure Parsers where
  ring         : Bytes → Option Int
  attested     : Bytes → Option Bool
  timestamp    : Bytes → Option Int
  nonce        : Bytes → Option Bytes
  counter      : Bytes → Option Int
  rootAttested : Bytes → Option Bool

/-- One line: the first field that is still missing and parses takes it. -/
def scanWith (P : Parsers) (t : Fields) (line : Bytes) : Fields :=
  match fresh t.ring (P.ring line) with
  | some v => { t with ring := some v }
  | none =>
  match fresh t.attested (P.attested line) with
  | some v => { t with attested := some v }
  | none =>
  match fresh t.timestamp (P.timestamp line) with
  | some v => { t with timestamp := some v }
  | none =>
  match fresh t.nonce (P.nonce line) with
  | some v => { t with nonce := some v }
  | none =>
  match fresh t.counter (P.counter line) with
  | some v => { t with counter := some v }
  | none =>
  match fresh t.rootAttested (P.rootAttested line) with
  | some v => { t with rootAttested := some v }
  | none => t

def cParsers : Parsers where
  ring := parseRing
  attested := parseAttested
  timestamp := parseI64Field (ascii "timestamp:")
  nonce := parseStringField (ascii "nonce:") 256
  counter := parseI64Field (ascii "counter:")
  rootAttested := parseRootAttested

/-- The fields of a token file. -/
def readFields (content : Bytes) : Fields :=
  (fgetsLines content).foldl (fun t chunk => scanWith cParsers t (lineOf chunk)) Fields.empty

-- ── The checks ───────────────────────────────────────────────────────────────────

/-- The arguments of a call that do not name a file, and the clock. -/
structure Request where
  requiredRing  : Int
  maxAgeSec     : Int
  expectedNonce : Option Bytes
  now           : Int

/-- 64-bit signed subtraction. -/
def subI64 (a b : Int) : Int := Int.bmod (a - b) (2 ^ 64)

/-- The checks between the field loop and the replay section: the counter to record, or a
    refusal. -/
def checkFields (q : Request) (t : Fields) : Option Int :=
  match t.ring, t.attested, t.timestamp, t.counter with
  | some ring, some attested, some ts, some counter =>
      if !attested then none
      else if ring ≠ q.requiredRing then none
      else if q.requiredRing = -2 ∧ t.rootAttested ≠ some true then none
      else if q.maxAgeSec ≤ 0 then none
      else if q.now = -1 then none
      else if q.now < ts then none
      else if q.maxAgeSec < subI64 q.now ts then none
      else if q.expectedNonce.isSome ∧ t.nonce ≠ q.expectedNonce then none
      else some counter
  | _, _, _, _ => none

/-- The validator up to its replay section. -/
def checkToken (q : Request) (content : Bytes) : Option Int := checkFields q (readFields content)

-- ── A line has one key ───────────────────────────────────────────────────────────

inductive Key where
  | ring | attested | timestamp | nonce | counter | rootAttested
deriving DecidableEq, Repr

def Key.bytes : Key → Bytes
  | .ring => ascii "ring:"
  | .attested => ascii "attested:"
  | .timestamp => ascii "timestamp:"
  | .nonce => ascii "nonce:"
  | .counter => ascii "counter:"
  | .rootAttested => ascii "root_attested:"

/-- No key starts another one. -/
theorem Key.eq_of_isPrefixOf (k k' : Key) (h : k.bytes.isPrefixOf k'.bytes = true) : k = k' := by
  cases k <;> cases k' <;> first | rfl | exact absurd h (by decide)

theorem key_unique {k k' : Key} {line : Bytes} (h : k.bytes <+: line) (h' : k'.bytes <+: line) :
    k = k' := by
  rcases List.prefix_or_prefix_of_prefix h h' with hp | hp
  · exact Key.eq_of_isPrefixOf k k' (List.isPrefixOf_iff_prefix.mpr hp)
  · exact (Key.eq_of_isPrefixOf k' k (List.isPrefixOf_iff_prefix.mpr hp)).symm

theorem afterKey_eq_some_iff {key line v : Bytes} : afterKey key line = some v ↔ line = key ++ v := by
  unfold afterKey
  constructor
  · intro h
    by_cases hp : key.isPrefixOf line = true
    · rw [if_pos hp] at h
      obtain ⟨w, rfl⟩ := List.isPrefixOf_iff_prefix.mp hp
      rw [← Option.some.inj h, List.drop_left]
    · rw [if_neg hp] at h
      exact nomatch h
  · rintro rfl
    rw [if_pos (List.isPrefixOf_iff_prefix.mpr (List.prefix_append key v)), List.drop_left]

/-- Each parser reads only lines with its own key. -/
structure Keyed (P : Parsers) : Prop where
  ring         : ∀ {line v}, P.ring line = some v → Key.ring.bytes <+: line
  attested     : ∀ {line v}, P.attested line = some v → Key.attested.bytes <+: line
  timestamp    : ∀ {line v}, P.timestamp line = some v → Key.timestamp.bytes <+: line
  nonce        : ∀ {line v}, P.nonce line = some v → Key.nonce.bytes <+: line
  counter      : ∀ {line v}, P.counter line = some v → Key.counter.bytes <+: line
  rootAttested : ∀ {line v}, P.rootAttested line = some v → Key.rootAttested.bytes <+: line

theorem prefix_of_bind_afterKey {α : Type} {key line : Bytes} {f : Bytes → Option α} {a : α}
    (h : (afterKey key line).bind f = some a) : key <+: line := by
  obtain ⟨v, hv, -⟩ := Option.bind_eq_some_iff.mp h
  rw [afterKey_eq_some_iff.mp hv]
  exact List.prefix_append key v

theorem cParsers_keyed : Keyed cParsers where
  ring := by
    intro line v h
    obtain ⟨w, hw, -⟩ := Option.map_eq_some_iff.mp h
    exact prefix_of_bind_afterKey hw
  attested := prefix_of_bind_afterKey
  timestamp := prefix_of_bind_afterKey
  nonce := prefix_of_bind_afterKey
  counter := prefix_of_bind_afterKey
  rootAttested := prefix_of_bind_afterKey

/-- A parser does not read a line with another key. -/
theorem eq_none_of_key {α : Type} {p : Bytes → Option α} {k k' : Key} {line : Bytes}
    (hp : ∀ {line v}, p line = some v → k'.bytes <+: line) (hk : k.bytes <+: line) (hne : k ≠ k') :
    p line = none := by
  cases h : p line with
  | none => rfl
  | some v => exact absurd (key_unique hk (hp h)) hne

theorem eq_none_of_no_key {α : Type} {p : Bytes → Option α} {k' : Key} {line : Bytes}
    (hp : ∀ {line v}, p line = some v → k'.bytes <+: line) (hk : ∀ k : Key, ¬ k.bytes <+: line) :
    p line = none := by
  cases h : p line with
  | none => rfl
  | some v => exact absurd (hp h) (hk k')

@[simp] theorem fresh_none {α : Type} (found : Option α) : fresh found none = none := by
  unfold fresh
  split <;> rfl

/-- A line gives each field that is missing what that field's parser reads. -/
theorem scanWith_eq {P : Parsers} (hP : Keyed P) (t : Fields) (line : Bytes) :
    scanWith P t line =
      ⟨t.ring.or (P.ring line), t.attested.or (P.attested line),
        t.timestamp.or (P.timestamp line), t.nonce.or (P.nonce line),
        t.counter.or (P.counter line), t.rootAttested.or (P.rootAttested line)⟩ := by
  obtain ⟨r, a, ts, n, c, o⟩ := t
  unfold scanWith
  by_cases hkey : ∃ k : Key, k.bytes <+: line
  · obtain ⟨k, hk⟩ := hkey
    have hr : k ≠ .ring → P.ring line = none := eq_none_of_key hP.ring hk
    have ha : k ≠ .attested → P.attested line = none := eq_none_of_key hP.attested hk
    have ht : k ≠ .timestamp → P.timestamp line = none := eq_none_of_key hP.timestamp hk
    have hn : k ≠ .nonce → P.nonce line = none := eq_none_of_key hP.nonce hk
    have hc : k ≠ .counter → P.counter line = none := eq_none_of_key hP.counter hk
    have ho : k ≠ .rootAttested → P.rootAttested line = none := eq_none_of_key hP.rootAttested hk
    -- only the parser of the line's own key can read it; its field is free or taken
    cases k with
    | ring =>
        simp only [ha nofun, ht nofun, hn nofun, hc nofun, ho nofun, fresh_none, Option.or_none]
        cases r <;> cases P.ring line <;> rfl
    | attested =>
        simp only [hr nofun, ht nofun, hn nofun, hc nofun, ho nofun, fresh_none, Option.or_none]
        cases a <;> cases P.attested line <;> rfl
    | timestamp =>
        simp only [hr nofun, ha nofun, hn nofun, hc nofun, ho nofun, fresh_none, Option.or_none]
        cases ts <;> cases P.timestamp line <;> rfl
    | nonce =>
        simp only [hr nofun, ha nofun, ht nofun, hc nofun, ho nofun, fresh_none, Option.or_none]
        cases n <;> cases P.nonce line <;> rfl
    | counter =>
        simp only [hr nofun, ha nofun, ht nofun, hn nofun, ho nofun, fresh_none, Option.or_none]
        cases c <;> cases P.counter line <;> rfl
    | rootAttested =>
        simp only [hr nofun, ha nofun, ht nofun, hn nofun, hc nofun, fresh_none, Option.or_none]
        cases o <;> cases P.rootAttested line <;> rfl
  · have hno : ∀ k : Key, ¬ k.bytes <+: line := fun k hk => hkey ⟨k, hk⟩
    rw [eq_none_of_no_key hP.ring hno, eq_none_of_no_key hP.attested hno,
      eq_none_of_no_key hP.timestamp hno, eq_none_of_no_key hP.nonce hno,
      eq_none_of_no_key hP.counter hno, eq_none_of_no_key hP.rootAttested hno]
    simp only [fresh_none, Option.or_none]

/-- **The field loop**: each field is the first that its parser reads. -/
theorem foldl_scanWith {P : Parsers} (hP : Keyed P) (lines : List Bytes) : ∀ t : Fields,
    lines.foldl (scanWith P) t =
      ⟨t.ring.or (lines.findSome? P.ring), t.attested.or (lines.findSome? P.attested),
        t.timestamp.or (lines.findSome? P.timestamp), t.nonce.or (lines.findSome? P.nonce),
        t.counter.or (lines.findSome? P.counter),
        t.rootAttested.or (lines.findSome? P.rootAttested)⟩ := by
  induction lines with
  | nil =>
      intro t
      simp only [List.findSome?_nil, Option.or_none]
      rfl
  | cons line lines ih =>
      intro t
      rw [List.foldl_cons, ih, scanWith_eq hP]
      simp only [LineReader.findSome?_cons_or, Option.or_assoc]

/-- What the C loop finds, field by field. -/
theorem readFields_eq (content : Bytes) :
    readFields content =
      ⟨(fgetsLines content).findSome? (fun p => parseRing (lineOf p)),
        (fgetsLines content).findSome? (fun p => parseAttested (lineOf p)),
        (fgetsLines content).findSome? (fun p => parseI64Field (ascii "timestamp:") (lineOf p)),
        (fgetsLines content).findSome? (fun p => parseStringField (ascii "nonce:") 256 (lineOf p)),
        (fgetsLines content).findSome? (fun p => parseI64Field (ascii "counter:") (lineOf p)),
        (fgetsLines content).findSome? (fun p => parseRootAttested (lineOf p))⟩ := by
  have hmap : readFields content
      = ((fgetsLines content).map lineOf).foldl (scanWith cParsers) Fields.empty := by
    rw [List.foldl_map]
    rfl
  rw [hmap, foldl_scanWith cParsers_keyed]
  simp only [List.findSome?_map]
  rfl

/-- What the checks let through is the counter field. -/
theorem checkFields_counter {q : Request} {t : Fields} {c : Int} (h : checkFields q t = some c) :
    t.counter = some c := by
  unfold checkFields at h
  split at h
  · next ring attested ts counter _ _ _ hcounter =>
      simp only [Option.ite_none_left_eq_some, Option.some.injEq] at h
      rw [hcounter, h.2.2.2.2.2.2.2.2]
  · exact nomatch h

/-- **An accepted token's counter is a signed 64-bit number.** -/
theorem checkToken_mem {q : Request} {content : Bytes} {c : Int}
    (h : checkToken q content = some c) : InI64 c := by
  have hcounter := checkFields_counter h
  rw [readFields_eq] at hcounter
  obtain ⟨piece, -, hp⟩ := List.exists_of_findSome?_eq_some hcounter
  obtain ⟨v, -, hv⟩ := Option.bind_eq_some_iff.mp hp
  exact strtoll_mem hv

end SkvToken

import SentinelKv.SkvTemplateProofs
import SentinelKv.SkvZigTokenProofs

/-!
# What an accepted token is bound to

The C validator reads its token in one pass and then compares: the ring with the one required,
the timestamp with the clock, the nonce with the one expected.  **`tokenLoop_six_scans`** says
what the pass finds: six scans, one for each field, that do not disturb each other.

Each comparison is on what the field parser made of the text, and that is not always what the
text says.  Of a call that returns 1:

* **`freshness_iff`** — the timestamp written in the token lies in the window exactly when it and
  its distance to the clock fit 64 bits; `strtoll` saturates, and the age is computed with
  wraparound (**`oldest_timestamp_accepted`**);
* **`ring_binding_iff`** — the ring written in the token is the required one exactly when it
  fits 32 bits; the value is narrowed (**`wide_ring_accepted`**);
* **`nonce_binding_iff`** — the line that the nonce was read from is that nonce's line exactly
  when it fits the buffer of `fgets`; a longer line is cut, and its pieces are read as lines
  (**`buried_nonce_accepted`**).
-/

namespace SkvTokenBinding

open Decimal LineReader SkvToken SkvReplayState SkvSignature SkvValidator SkvTemplate SkvZigToken

-- ── One pass, six scans ──────────────────────────────────────────────────────────

/-- The token loop on any list of chunks. -/
def tokenLoop (chunks : List Bytes) : Fields :=
  chunks.foldl (fun t chunk => scanWith cParsers t (lineOf chunk)) Fields.empty

/-- The type of a field. -/
def Value : Key → Type
  | .ring | .timestamp | .counter => Int
  | .attested | .rootAttested => Bool
  | .nonce => Bytes

/-- The parser of a field. -/
def parserOf : (k : Key) → Bytes → Option (Value k)
  | .ring => parseRing
  | .attested => parseAttested
  | .timestamp => parseI64Field (ascii "timestamp:")
  | .nonce => parseStringField (ascii "nonce:") 256
  | .counter => parseI64Field (ascii "counter:")
  | .rootAttested => parseRootAttested

/-- The parser of a field returns 1 on a chunk. -/
def accepts (k : Key) (chunk : Bytes) : Bool := (parserOf k (lineOf chunk)).isSome

/-- The fields, each found by a scan of its own. -/
def fieldsOf (scan : (k : Key) → Option (Value k)) : Fields :=
  ⟨scan .ring, scan .attested, scan .timestamp, scan .nonce, scan .counter, scan .rootAttested⟩

theorem tokenLoop_eq (chunks : List Bytes) :
    tokenLoop chunks = fieldsOf (fun k => chunks.findSome? (fun c => parserOf k (lineOf c))) := by
  have hmap : tokenLoop chunks = (chunks.map lineOf).foldl (scanWith cParsers) Fields.empty := by
    rw [List.foldl_map]
    rfl
  rw [hmap, foldl_scanWith cParsers_keyed]
  simp only [List.findSome?_map]
  rfl

/-- A chunk that no field takes, or only fields that have been found, changes nothing. -/
theorem tokenLoop_remove {before after : List Bytes} {chunk : Bytes}
    (h : ∀ k, accepts k chunk = true → ∃ b ∈ before, accepts k b = true) :
    tokenLoop (before ++ chunk :: after) = tokenLoop (before ++ after) := by
  rw [tokenLoop_eq, tokenLoop_eq]
  exact congrArg fieldsOf (funext (fun k => findSome?_remove
    (f := fun c => parserOf k (lineOf c)) (h k) after))

/-- Chunks with one parsable line for each key may come in any order. -/
theorem tokenLoop_perm {chunks chunks' : List Bytes} (hperm : chunks'.Perm chunks)
    (hone : ∀ k, chunks.countP (accepts k) ≤ 1) : tokenLoop chunks' = tokenLoop chunks := by
  rw [tokenLoop_eq, tokenLoop_eq]
  exact congrArg fieldsOf (funext (fun k => findSome?_perm hperm (hone k)))

/-- A line of a file holds a chunk that the parser of a field accepts. -/
def lineAccepts (k : Key) (line : Bytes) : Bool := (fgetsLines line).any (accepts k)

theorem parserOf_nil (k : Key) : parserOf k [] = none := by cases k <;> rfl

/-- The fields of a file, line by line. -/
theorem readFields_lines_eq (content : Bytes) :
    readFields content
      = fieldsOf (fun k => (splitLines 10 content).findSome? (cReads (parserOf k))) := by
  exact (tokenLoop_eq (fgetsLines content)).trans
    (congrArg fieldsOf (funext (fun k => findSome?_fgetsLines (parserOf_nil k) content)))

theorem cReads_isSome (k : Key) (line : Bytes) :
    (cReads (parserOf k) line).isSome = lineAccepts k line := by
  rw [Bool.eq_iff_iff, cReads, List.findSome?_isSome_iff, lineAccepts, List.any_eq_true]
  rfl

/-- Files with one parsable line for each key may have their lines in any order. -/
theorem readFields_perm {content content' : Bytes}
    (hperm : (splitLines 10 content').Perm (splitLines 10 content))
    (hone : ∀ k, (splitLines 10 content).countP (lineAccepts k) ≤ 1) :
    readFields content' = readFields content := by
  rw [readFields_lines_eq, readFields_lines_eq]
  refine congrArg fieldsOf (funext (fun k => findSome?_perm hperm ?_))
  simp only [cReads_isSome]
  exact hone k

/-- Only the fields of the token file count. -/
theorem validate_congr {euid : Nat} {seen seen' : Seen} {a : ValidatorArgs} {fs : Fs}
    {content content' : Bytes} (hstat : seen'.lstat = seen.lstat) (hnow : seen'.now = seen.now)
    (hread : readFile seen.fopen a.tokenPath = some content)
    (hread' : readFile seen'.fopen a.tokenPath = some content')
    (hfields : readFields content' = readFields content) :
    skvValidateAttestationToken euid seen' a fs = skvValidateAttestationToken euid seen a fs := by
  have hcounter : tokenCounter euid seen' a = tokenCounter euid seen a := by
    unfold tokenCounter
    rw [hstat, hnow, hread, hread', Option.bind_some, Option.bind_some, checkToken, checkToken,
      hfields]
  unfold skvValidateAttestationToken
  rw [hcounter]

/-- **The one-pass loop is six independent scans.**  Each field is what its parser makes of the
    first chunk it accepts; a chunk that no parser accepts and a repetition have no effect; and
    with one parsable line for each key the order of the lines does not matter to the call. -/
theorem tokenLoop_six_scans :
    (∀ chunks : List Bytes,
      tokenLoop chunks =
          ⟨chunks.findSome? (fun c => parseRing (lineOf c)),
            chunks.findSome? (fun c => parseAttested (lineOf c)),
            chunks.findSome? (fun c => parseI64Field (ascii "timestamp:") (lineOf c)),
            chunks.findSome? (fun c => parseStringField (ascii "nonce:") 256 (lineOf c)),
            chunks.findSome? (fun c => parseI64Field (ascii "counter:") (lineOf c)),
            chunks.findSome? (fun c => parseRootAttested (lineOf c))⟩
        ∧ (∀ before chunk after, chunks = before ++ chunk :: after →
            (∀ k, accepts k chunk = true → ∃ b ∈ before, accepts k b = true) →
            tokenLoop chunks = tokenLoop (before ++ after))
        ∧ ((∀ k, chunks.countP (accepts k) ≤ 1) → ∀ chunks', chunks'.Perm chunks →
            ∀ q, checkFields q (tokenLoop chunks') = checkFields q (tokenLoop chunks)))
      ∧ ∀ (euid : Nat) (seen seen' : Seen) (a : ValidatorArgs) (fs : Fs) (content content' : Bytes),
          seen'.lstat = seen.lstat → seen'.now = seen.now →
          readFile seen.fopen a.tokenPath = some content →
          readFile seen'.fopen a.tokenPath = some content' →
          (splitLines 10 content').Perm (splitLines 10 content) →
          (∀ k, (splitLines 10 content).countP (lineAccepts k) ≤ 1) →
          skvValidateAttestationToken euid seen' a fs = skvValidateAttestationToken euid seen a fs := by
  refine ⟨fun chunks => ⟨tokenLoop_eq chunks, ?_, ?_⟩, ?_⟩
  · rintro before chunk after rfl h
    exact tokenLoop_remove h
  · intro hone chunks' hperm q
    rw [tokenLoop_perm hperm hone]
  · intro euid seen seen' a fs content content' hstat hnow hread hread' hperm hone
    exact validate_congr hstat hnow hread hread' (readFields_perm hperm hone)

/-- A call on one token file, with an empty replay state. -/
def oneFile (token : Bytes) (now : Int) : Seen where
  lstat := fun _ => some ⟨true, 1000, 0o600, some token⟩
  fopen := fun _ => some ⟨true, 1000, 0o600, some token⟩
  now   := now

def oneCall (nonce : Option Bytes) : ValidatorArgs := ⟨ascii "t", -1, 300, nonce, ascii "s"⟩

def freshToken : Bytes := ascii "ring:-1\nattested:true\ntimestamp:1699999900\ncounter:1\n"

def reorderedToken : Bytes := ascii "counter:1\ntimestamp:1699999900\nring:-1\nattested:true\n"

def reorderedFile : Seen where
  lstat := (oneFile freshToken 1700000000).lstat
  fopen := (oneFile reorderedToken 1700000000).fopen
  now   := 1700000000

/-- The same lines in another order. -/
theorem reordered_token_same :
    skvValidateAttestationToken 1000 reorderedFile (oneCall none) (fun _ => none)
      = skvValidateAttestationToken 1000 (oneFile freshToken 1700000000) (oneCall none)
          (fun _ => none) := by
  refine tokenLoop_six_scans.2 1000 (oneFile freshToken 1700000000) reorderedFile (oneCall none)
    (fun _ => none) freshToken reorderedToken rfl rfl rfl rfl (by decide +kernel) (fun k => ?_)
  cases k <;> decide +kernel

-- ── An accepted token ────────────────────────────────────────────────────────────

/-- A call that returns 1 has read a token and found its fields in order. -/
theorem accepted_token {euid : Nat} {seen : Seen} {a : ValidatorArgs} {fs : Fs}
    (h : (skvValidateAttestationToken euid seen a fs).1 = 1) :
    ∃ token c, readFile seen.fopen a.tokenPath = some token
      ∧ checkToken (a.request seen.now) token = some c := by
  unfold skvValidateAttestationToken at h
  cases hc : tokenCounter euid seen a with
  | none =>
      rw [hc] at h
      have h' : (0 : Int) = 1 := h
      exact absurd h' (by decide)
  | some c =>
      unfold tokenCounter at hc
      rw [Option.ite_none_left_eq_some] at hc
      obtain ⟨-, hc⟩ := hc
      cases hstat : seen.lstat a.tokenPath with
      | none =>
          rw [hstat] at hc
          cases hc
      | some f =>
          rw [hstat] at hc
          obtain ⟨-, hc⟩ := Option.ite_none_right_eq_some.mp hc
          obtain ⟨token, hread, hcheck⟩ := Option.bind_eq_some_iff.mp hc
          exact ⟨token, c, hread, hcheck⟩

/-- What the checks have compared. -/
theorem checkFields_passed {q : Request} {t : Fields} {c : Int} (h : checkFields q t = some c) :
    t.ring = some q.requiredRing
      ∧ (∃ ts, t.timestamp = some ts ∧ ts ≤ q.now ∧ subI64 q.now ts ≤ q.maxAgeSec)
      ∧ ∀ n, q.expectedNonce = some n → t.nonce = some n := by
  unfold checkFields at h
  split at h
  · next ring attested ts counter hring _ hts _ =>
      simp only [Option.ite_none_left_eq_some] at h
      obtain ⟨-, hr, -, -, -, hnow, hage, hnonce, -⟩ := h
      refine ⟨?_, ⟨ts, hts, Int.not_lt.mp hnow, Int.not_lt.mp hage⟩, ?_⟩
      · rw [hring, not_not.mp hr]
      · intro n hn
        by_contra hne
        exact hnonce ⟨by rw [hn]; rfl, by rw [hn]; exact hne⟩
  · cases h

-- ── Numbers as they are written ──────────────────────────────────────────────────

/-- The number in the first chunk with the key and a number behind it, of any size. -/
def denotedIn (key token : Bytes) : Option Int :=
  (fgetsLines token).findSome? (fun chunk => (afterKey key (lineOf chunk)).bind denoted)

/-- A number field is the saturated number. -/
theorem i64Field_eq (key token : Bytes) :
    (fgetsLines token).findSome? (fun c => parseI64Field key (lineOf c))
      = (denotedIn key token).map clampI64 := by
  rw [denotedIn, List.map_findSome?]
  refine congrArg (fun f => List.findSome? f _) (funext (fun c => ?_))
  show (afterKey key (lineOf c)).bind strtoll = Option.map clampI64 (Option.bind _ denoted)
  cases afterKey key (lineOf c) with
  | none => rfl
  | some v => exact strtoll_eq v

/-- The ring is narrowed after that. -/
theorem ringField_eq (token : Bytes) :
    (fgetsLines token).findSome? (fun c => parseRing (lineOf c))
      = ((denotedIn (ascii "ring:") token).map clampI64).map toInt32 := by
  rw [← i64Field_eq, List.map_findSome?]
  rfl

-- ── Freshness ────────────────────────────────────────────────────────────────────

/-- Saturation and wraparound against the window.  A number beyond the range ends up at its
    border, and an age beyond the range ends up negative. -/
theorem window_iff {now m t : Int} (h0 : 0 ≤ now) (hnow : now < 2 ^ 63) (hm : m < 2 ^ 63)
    (hle : clampI64 t ≤ now) (hage : subI64 now (clampI64 t) ≤ m) :
    (now - m ≤ t ∧ t ≤ now) ↔ (now - t < 2 ^ 63 ∧ t < 2 ^ 63) := by
  constructor
  · rintro ⟨hlo, hhi⟩
    omega
  · rintro ⟨hwide, hhi⟩
    have hmem : InI64 t := ⟨by omega, hhi⟩
    rw [clampI64_of_mem hmem] at hle hage
    have hsub : subI64 now t = now - t := by
      unfold subI64
      rw [Int.bmod_eq_of_le] <;> omega
    rw [hsub] at hage
    omega

/-- **Freshness.**  Of a call that returns 1, the timestamp written in the token lies in the
    window if and only if it is below 2^63 and less than 2^63 before the clock. -/
theorem freshness_iff (euid : Nat) (seen : Seen) (a : ValidatorArgs) (fs : Fs)
    (h0 : 0 ≤ seen.now) (hnow : seen.now < 2 ^ 63) (hage : a.maxAgeSec < 2 ^ 63)
    (h : (skvValidateAttestationToken euid seen a fs).1 = 1) :
    ∃ token t, readFile seen.fopen a.tokenPath = some token
      ∧ denotedIn (ascii "timestamp:") token = some t
      ∧ ((seen.now - a.maxAgeSec ≤ t ∧ t ≤ seen.now) ↔ (seen.now - t < 2 ^ 63 ∧ t < 2 ^ 63)) := by
  obtain ⟨token, c, hread, hcheck⟩ := accepted_token h
  obtain ⟨-, ⟨ts, hts, hle, hsub⟩, -⟩ := checkFields_passed hcheck
  rw [readFields_eq] at hts
  obtain ⟨t, ht, rfl⟩ := Option.map_eq_some_iff.mp ((i64Field_eq _ token).symm.trans hts)
  exact ⟨token, t, hread, ht, window_iff h0 hnow hage hle hsub⟩

def oldestToken : Bytes :=
  ascii "ring:-1\nattested:true\ntimestamp:-9223372036854775808\ncounter:1\n"

/-- A token from the far end of time is fresh: its age wraps to a negative number. -/
theorem oldest_timestamp_accepted :
    (skvValidateAttestationToken 1000 (oneFile oldestToken 1700000000) (oneCall none)
        (fun _ => none)).1 = 1
      ∧ denotedIn (ascii "timestamp:") oldestToken = some (-9223372036854775808)
      ∧ ¬ (1700000000 - 300 ≤ (-9223372036854775808 : Int)) := by
  refine ⟨?_, ?_, by decide⟩
  · decide +kernel
  · decide +kernel

theorem freshToken_accepted :
    (skvValidateAttestationToken 1000 (oneFile freshToken 1700000000) (oneCall none)
      (fun _ => none)).1 = 1 := by
  decide +kernel

/-- A timestamp of the last minutes. -/
theorem recent_timestamp_fresh :
    ∃ token t, readFile (oneFile freshToken 1700000000).fopen (ascii "t") = some token
      ∧ denotedIn (ascii "timestamp:") token = some t
      ∧ ((1700000000 - 300 ≤ t ∧ t ≤ 1700000000) ↔ (1700000000 - t < 2 ^ 63 ∧ t < 2 ^ 63)) :=
  freshness_iff 1000 (oneFile freshToken 1700000000) (oneCall none) (fun _ => none) (by decide)
    (by decide) (by decide) freshToken_accepted

-- ── The ring ─────────────────────────────────────────────────────────────────────

/-- Narrowing keeps exactly what fits. -/
theorem narrowed_iff {v r : Int} (hr : -2 ^ 31 ≤ r ∧ r < 2 ^ 31) (h : toInt32 (clampI64 v) = r) :
    v = r ↔ (-2 ^ 31 ≤ v ∧ v < 2 ^ 31) := by
  constructor
  · rintro rfl
    exact hr
  · rintro ⟨hlo, hhi⟩
    rw [clampI64_of_mem ⟨by omega, by omega⟩] at h
    rw [← h]
    exact (Int.bmod_eq_of_le (by omega) (by omega)).symm

/-- **Ring binding.**  Of a call that returns 1, the ring written in the token is the required one
    if and only if it fits 32 bits. -/
theorem ring_binding_iff (euid : Nat) (seen : Seen) (a : ValidatorArgs) (fs : Fs)
    (hr : a.requiredRing = -1 ∨ a.requiredRing = -2)
    (h : (skvValidateAttestationToken euid seen a fs).1 = 1) :
    ∃ token v, readFile seen.fopen a.tokenPath = some token
      ∧ denotedIn (ascii "ring:") token = some v
      ∧ (v = a.requiredRing ↔ (-2 ^ 31 ≤ v ∧ v < 2 ^ 31)) := by
  obtain ⟨token, c, hread, hcheck⟩ := accepted_token h
  obtain ⟨hring, -, -⟩ := checkFields_passed hcheck
  rw [readFields_eq] at hring
  obtain ⟨w, hw, hwr⟩ := Option.map_eq_some_iff.mp ((ringField_eq token).symm.trans hring)
  obtain ⟨v, hv, rfl⟩ := Option.map_eq_some_iff.mp hw
  refine ⟨token, v, hread, hv, narrowed_iff ?_ hwr⟩
  show -2 ^ 31 ≤ a.requiredRing ∧ a.requiredRing < 2 ^ 31
  omega

def wideRingToken : Bytes :=
  ascii "ring:4294967295\nattested:true\ntimestamp:1699999900\ncounter:1\n"

/-- Ring 2^32 - 1 passes for ring -1. -/
theorem wide_ring_accepted :
    (skvValidateAttestationToken 1000 (oneFile wideRingToken 1700000000) (oneCall none)
        (fun _ => none)).1 = 1
      ∧ denotedIn (ascii "ring:") wideRingToken = some 4294967295 := by
  refine ⟨?_, ?_⟩
  · decide +kernel
  · decide +kernel

/-- The ring of the token above. -/
theorem plain_ring_bound :
    ∃ token v, readFile (oneFile freshToken 1700000000).fopen (ascii "t") = some token
      ∧ denotedIn (ascii "ring:") token = some v ∧ (v = -1 ↔ (-2 ^ 31 ≤ v ∧ v < 2 ^ 31)) :=
  ring_binding_iff 1000 (oneFile freshToken 1700000000) (oneCall none) (fun _ => none)
    (Or.inl rfl) freshToken_accepted

-- ── The nonce ────────────────────────────────────────────────────────────────────

/-- `parse_string_field` for the nonce. -/
def parseNonce : Bytes → Option Bytes := parseStringField (ascii "nonce:") 256

theorem parseNonce_eq_some_iff {line n : Bytes} :
    parseNonce line = some n ↔ line = ascii "nonce:" ++ n ∧ n ≠ [] ∧ n.length ≤ 255 := by
  unfold parseNonce parseStringField
  rw [Option.bind_eq_some_iff]
  constructor
  · rintro ⟨v, hv, hn⟩
    simp only [Option.ite_none_left_eq_some, Option.some.injEq] at hn
    obtain ⟨hne, hlen, rfl⟩ := hn
    exact ⟨afterKey_eq_some_iff.mp hv, hne, by omega⟩
  · rintro ⟨hline, hne, hlen⟩
    refine ⟨n, afterKey_eq_some_iff.mpr hline, ?_⟩
    rw [if_neg hne, if_neg (by omega)]

/-- A line that one `fgets` takes is read as it is. -/
theorem cReads_nonce_short {line : Bytes} (h : Short line) :
    cReads parseNonce line = parseNonce line := by
  rw [cReads_short (by decide) h.no_newline h.length, lineOf_eq_self h.no_nul h.no_newline]

/-- The line of a nonce that was read is short itself, wherever it was read. -/
theorem short_of_cReads {line n : Bytes} (h : cReads parseNonce line = some n) :
    Short (ascii "nonce:" ++ n) ∧ parseNonce (ascii "nonce:" ++ n) = some n := by
  obtain ⟨piece, hpiece, hp⟩ := List.exists_of_findSome?_eq_some h
  obtain ⟨hline, hne, hlen⟩ := parseNonce_eq_some_iff.mp hp
  refine ⟨⟨?_, ?_, ?_⟩, parseNonce_eq_some_iff.mpr ⟨rfl, hne, hlen⟩⟩
  · rw [← hline]
    intro hmem
    exact absurd (List.mem_takeWhile_imp hmem) (by decide)
  · rw [← hline]
    intro hmem
    exact absurd (List.mem_takeWhile_imp hmem) (by decide)
  · rw [← hline]
    exact ((List.takeWhile_prefix _).length_le).trans (length_le_of_mem_fgetsAll 10 hpiece)

/-- A comment of 255 bytes, and the nonce behind it on the same line. -/
def buriedToken : Bytes :=
  ascii "ring:-1\nattested:true\ntimestamp:1699999900\ncounter:1\n"
    ++ List.replicate 255 35 ++ ascii "nonce:abc\n"

def nonceToken : Bytes :=
  ascii "ring:-1\nattested:true\ntimestamp:1699999900\nnonce:abc\ncounter:1\n"

end SkvTokenBinding

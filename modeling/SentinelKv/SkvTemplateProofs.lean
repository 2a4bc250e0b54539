import SentinelKv.SkvRingPolicyProofs

/-!
# The token template and the validator

`print_token_template` shows an operator what a token looks like.  Filled in, it is read by C:
the numbers by `strtol` and `strtoll`, the lines by `fgets` in pieces of 255 bytes, each line
by the one parser whose key it starts with.

* **`readFields_lines`** — on complete short lines the token loop finds, for each field, what the
  first line with its key holds;
* **`template_accepted_iff`** — so it recovers exactly what was filled in, and the validator
  returns 1 if and only if ring, age, nonce and counter are the ones asked for.

The nonce may have 249 bytes: then its line fills the buffer, and the newline comes alone in the
next piece.
-/

namespace SkvTemplate

open Decimal LineReader SkvToken SkvReplayState SkvSignature SkvValidator SkvRingPolicy

-- ── The template ─────────────────────────────────────────────────────────────────

/-- `println!`. -/
def println (line : Bytes) : Bytes := line ++ [10]

/-- The lines of the template, with its three values filled in. -/
def templateLines (ring : RingMode) (ts : Int) (nonce : Bytes) (counter : Int) : List Bytes :=
  [ascii "ring:" ++ printI64 (ring.tokenRing.getD 0), ascii "attested:true"]
    ++ (if ring = .ringM2 then [ascii "root_attested:true"] else [])
    ++ [ascii "timestamp:" ++ printI64 ts, ascii "nonce:" ++ nonce,
        ascii "counter:" ++ printI64 counter]

/-- The text of the template. -/
def tokenTemplate (ring : RingMode) (ts : Int) (nonce : Bytes) (counter : Int) : Bytes :=
  (templateLines ring ts nonce counter).flatMap println

/-- `print_token_template`. -/
def printTokenTemplate (ring : RingMode) (json : Bool) : Bytes :=
  if json then
    println (ascii "\x7b\"ring\":" ++ printI64 (ring.tokenRing.getD 0) ++ ascii ",\"attested\":true,"
      ++ (if ring = .ringM2 then ascii "\"root_attested\":true," else [])
      ++ ascii "\"timestamp\":1700000000,\"nonce\":\"<nonce>\",\"counter\":1\x7d")
  else tokenTemplate ring 1700000000 (ascii "<nonce>") 1

-- ── The token loop on complete lines ─────────────────────────────────────────────

/-- A line that one `fgets` takes, up to its newline, as a C string. -/
structure Short (line : Bytes) : Prop where
  no_newline : 10 ∉ line
  no_nul     : 0 ∉ line
  length     : line.length ≤ 255

theorem findSome?_lines {α : Type} {parse : Bytes → Option α} (hnil : parse [] = none)
    {lines : List Bytes} (h : ∀ l ∈ lines, Short l) :
    (fgetsLines (lines.flatMap println)).findSome? (fun piece => parse (lineOf piece))
      = lines.findSome? parse := by
  have hline : ∀ l, parse (lineOf (l ++ [10])) = parse (lineOf l) := by
    intro l
    rw [lineOf_concat]
  have hsplit : splitLines 10 (lines.flatMap println) = lines :=
    splitLines_flatMap 10 (fun l hl => (h l hl).no_newline)
  rw [fgetsLines, findSome?_fgetsAll 10 (by decide) (fun piece => parse (lineOf piece)) hnil hline,
    hsplit]
  -- a short line is one piece; an empty one is none, and counts for nothing either way
  have hpiece : ∀ l ∈ lines,
      (fgetsAll 10 255 l).findSome? (fun piece => parse (lineOf piece)) = parse l := by
    intro l hl
    obtain ⟨h10, h0, hlen⟩ := h l hl
    by_cases hne : l = []
    · rw [hne]
      exact hnil.symm
    · rw [fgetsAll_short 10 h10 hne hlen, findSome?_cons_or, lineOf_eq_self h0 h10]
      exact Option.or_none
  clear hsplit
  induction lines with
  | nil => rfl
  | cons l ls ih =>
      rw [findSome?_cons_or, findSome?_cons_or, hpiece l List.mem_cons_self,
        ih (fun x hx => h x (List.mem_cons_of_mem l hx))
          (fun x hx => hpiece x (List.mem_cons_of_mem l hx))]

/-- **The token loop on complete lines.** -/
theorem readFields_lines {lines : List Bytes} (h : ∀ l ∈ lines, Short l) :
    readFields (lines.flatMap println) =
      ⟨lines.findSome? parseRing, lines.findSome? parseAttested,
        lines.findSome? (parseI64Field (ascii "timestamp:")),
        lines.findSome? (parseStringField (ascii "nonce:") 256),
        lines.findSome? (parseI64Field (ascii "counter:")),
        lines.findSome? parseRootAttested⟩ := by
  rw [readFields_eq, findSome?_lines (by decide) h, findSome?_lines (by decide) h,
    findSome?_lines (by decide) h, findSome?_lines (by decide) h, findSome?_lines (by decide) h,
    findSome?_lines (by decide) h]

/-- The line of a key and a value. -/
def keyLine (x : Key × Bytes) : Bytes := x.1.bytes ++ x.2

/-- A parser sees only the lines with its own key. -/
theorem findSome?_keyed {α : Type} {parse : Bytes → Option α} {k : Key}
    (hp : ∀ {line v}, parse line = some v → k.bytes <+: line) (xs : List (Key × Bytes)) :
    (xs.map keyLine).findSome? parse
      = (xs.filter (fun x => decide (x.1 = k))).findSome? (fun x => parse (keyLine x)) := by
  induction xs with
  | nil => rfl
  | cons x xs ih =>
      rw [List.map_cons, findSome?_cons_or, ih, List.filter_cons]
      by_cases hk : x.1 = k
      · rw [if_pos (decide_eq_true hk), findSome?_cons_or]
      · have hnone : parse (keyLine x) = none :=
          eq_none_of_key hp (List.prefix_append x.1.bytes x.2) hk
        rw [if_neg (by rw [decide_eq_false hk]; exact Bool.false_ne_true), hnone]
        rfl

-- ── The filled-in template ───────────────────────────────────────────────────────

/-- Values to fill in: a time not before the epoch, a 64-bit counter, a nonce of one line that
    fits. -/
structure Filled (ts : Int) (nonce : Bytes) (counter : Int) : Prop where
  timestamp  : 0 ≤ ts ∧ ts ≤ 2 ^ 63 - 1
  counter    : InI64 counter
  length     : 1 ≤ nonce.length ∧ nonce.length ≤ 249
  no_newline : 10 ∉ nonce
  no_nul     : 0 ∉ nonce

/-- The template, line by line: a key and its value. -/
def templateFields (ring : RingMode) (ts : Int) (nonce : Bytes) (counter : Int) :
    List (Key × Bytes) :=
  [(.ring, printI64 (ring.tokenRing.getD 0)), (.attested, ascii "true")]
    ++ (if ring = .ringM2 then [(.rootAttested, ascii "true")] else [])
    ++ [(.timestamp, printI64 ts), (.nonce, nonce), (.counter, printI64 counter)]

theorem templateLines_eq (ring : RingMode) (ts : Int) (nonce : Bytes) (counter : Int) :
    templateLines ring ts nonce counter
      = (templateFields ring ts nonce counter).map keyLine := by
  have hattested : ascii "attested:true" = Key.attested.bytes ++ ascii "true" := by decide
  have hroot : ascii "root_attested:true" = Key.rootAttested.bytes ++ ascii "true" := by decide
  unfold templateLines templateFields
  rw [hattested, hroot]
  cases ring <;> rfl

/-- The value the template has for a key. -/
def templateValue (ring : RingMode) (ts : Int) (nonce : Bytes) (counter : Int) :
    Key → Option Bytes
  | .ring => some (printI64 (ring.tokenRing.getD 0))
  | .attested => some (ascii "true")
  | .timestamp => some (printI64 ts)
  | .nonce => some nonce
  | .counter => some (printI64 counter)
  | .rootAttested => if ring = .ringM2 then some (ascii "true") else none

/-- Each key has one line at most, so a parser finds what that line holds. -/
theorem findSome?_template {α : Type} {parse : Bytes → Option α} {k : Key}
    (hp : ∀ {line v}, parse line = some v → k.bytes <+: line) (ring : RingMode) (ts : Int)
    (nonce : Bytes) (counter : Int) :
    (templateLines ring ts nonce counter).findSome? parse
      = (templateValue ring ts nonce counter k).bind (fun v => parse (k.bytes ++ v)) := by
  have hfilter : (templateFields ring ts nonce counter).filter (fun x => decide (x.1 = k))
      = (templateValue ring ts nonce counter k).toList.map (fun v => (k, v)) := by
    cases ring <;> cases k <;> rfl
  rw [templateLines_eq, findSome?_keyed hp, hfilter]
  cases templateValue ring ts nonce counter k with
  | none => rfl
  | some v => exact (findSome?_cons_or _ _ _).trans Option.or_none

theorem printI64_bytes (v : Int) : 10 ∉ printI64 v ∧ 0 ∉ printI64 v := by
  have hbyte : ∀ b ∈ printI64 v, b = 45 ∨ isDigit b = true := by
    intro b hb
    rcases List.mem_append.mp hb with hb | hb
    · unfold signBytes at hb
      split at hb
      · exact Or.inl (List.mem_singleton.mp hb)
      · exact nomatch hb
    · exact Or.inr (printNat_digits _ b hb)
  exact ⟨fun h => absurd (hbyte _ h) (by decide), fun h => absurd (hbyte _ h) (by decide)⟩

theorem key_bytes (k : Key) : 10 ∉ k.bytes ∧ 0 ∉ k.bytes ∧ k.bytes.length ≤ 14 := by
  cases k <;> decide

theorem short_keyLine {k : Key} {v : Bytes} (h10 : 10 ∉ v) (h0 : 0 ∉ v)
    (hlen : k.bytes.length + v.length ≤ 255) : Short (k.bytes ++ v) where
  no_newline := fun h => (List.mem_append.mp h).elim (key_bytes k).1 h10
  no_nul := fun h => (List.mem_append.mp h).elim (key_bytes k).2.1 h0
  length := by rw [List.length_append]; exact hlen

theorem short_number (k : Key) {v : Int} (hv : InI64 v) : Short (k.bytes ++ printI64 v) := by
  have hlen := printI64_length_le hv
  have hkey := (key_bytes k).2.2
  exact short_keyLine (printI64_bytes v).1 (printI64_bytes v).2 (by omega)

theorem short_true (k : Key) : Short (k.bytes ++ ascii "true") := by
  have hkey := (key_bytes k).2.2
  exact short_keyLine (by decide) (by decide) (Nat.add_le_add_right hkey 4 |>.trans (by decide))

section Template

variable {ring : RingMode} {ts counter : Int} {nonce : Bytes}

theorem Filled.ts_mem (h : Filled ts nonce counter) : InI64 ts := by
  have := h.timestamp
  unfold InI64
  omega

theorem short_templateLines (h : Filled ts nonce counter) :
    ∀ l ∈ templateLines ring ts nonce counter, Short l := by
  have hring : InI64 (ring.tokenRing.getD 0) := by
    unfold InI64
    cases ring <;> decide
  have hnonce : Short (Key.nonce.bytes ++ nonce) := by
    refine short_keyLine h.no_newline h.no_nul ?_
    have := h.length.2
    show 6 + nonce.length ≤ 255
    omega
  intro l hl
  rw [templateLines_eq] at hl
  obtain ⟨x, hx, rfl⟩ := List.mem_map.mp hl
  simp only [templateFields, List.mem_append, List.mem_cons, List.not_mem_nil, or_false,
    List.mem_ite_nil_right] at hx
  rcases hx with ((rfl | rfl) | ⟨-, rfl⟩) | rfl | rfl | rfl
  · exact short_number .ring hring
  · exact short_true .attested
  · exact short_true .rootAttested
  · exact short_number .timestamp h.ts_mem
  · exact hnonce
  · exact short_number .counter h.counter

theorem afterKey_append (key v : Bytes) : afterKey key (key ++ v) = some v :=
  afterKey_eq_some_iff.mpr rfl

theorem strtoll_printed {v : Int} (h : InI64 v) : strtoll (printI64 v) = some v := by
  rw [← List.append_nil (printI64 v)]
  exact strtoll_printI64 h (fun b hb => (nomatch hb))

theorem parseFlag_true (k : Key) : parseFlag k.bytes (k.bytes ++ ascii "true") = some true := by
  rw [parseFlag, afterKey_append]
  rfl

/-- **What the token loop recovers.** -/
theorem readFields_template (h : Filled ts nonce counter) {r : Int} (hr : ring.tokenRing = some r) :
    readFields (tokenTemplate ring ts nonce counter)
      = ⟨some r, some true, some ts, some nonce, some counter,
          if ring = .ringM2 then some true else none⟩ := by
  have hring : parseRing (Key.ring.bytes ++ printI64 r) = some r := by
    have hr32 : InI64 r ∧ toInt32 r = r := by
      cases ring with
      | ring0 => exact nomatch hr
      | ringM1 => obtain rfl := Option.some.inj hr; unfold InI64; decide
      | ringM2 => obtain rfl := Option.some.inj hr; unfold InI64; decide
    rw [parseRing, show ascii "ring:" = Key.ring.bytes from rfl, afterKey_append, Option.bind_some,
      strtoll_printed hr32.1, Option.map_some, hr32.2]
  have htime : parseI64Field Key.timestamp.bytes (Key.timestamp.bytes ++ printI64 ts) = some ts := by
    rw [parseI64Field, afterKey_append, Option.bind_some, strtoll_printed h.ts_mem]
  have hcounter : parseI64Field Key.counter.bytes (Key.counter.bytes ++ printI64 counter)
      = some counter := by
    rw [parseI64Field, afterKey_append, Option.bind_some, strtoll_printed h.counter]
  have hnonce : parseStringField Key.nonce.bytes 256 (Key.nonce.bytes ++ nonce) = some nonce := by
    have hlen := h.length
    have hne : nonce ≠ [] := by
      rintro rfl
      exact absurd hlen.1 (by decide)
    rw [parseStringField, afterKey_append, Option.bind_some, if_neg hne, if_neg (by omega)]
  have hringLine : (templateLines ring ts nonce counter).findSome? parseRing = some r := by
    refine (findSome?_template cParsers_keyed.ring ring ts nonce counter).trans ?_
    show parseRing (Key.ring.bytes ++ printI64 (ring.tokenRing.getD 0)) = some r
    rw [hr]
    exact hring
  have hrootLine : (templateLines ring ts nonce counter).findSome? parseRootAttested
      = if ring = .ringM2 then some true else none := by
    refine (findSome?_template cParsers_keyed.rootAttested ring ts nonce counter).trans ?_
    by_cases hm : ring = .ringM2
    · simp only [templateValue, if_pos hm]
      exact parseFlag_true .rootAttested
    · simp only [templateValue, if_neg hm]
      rfl
  have hattestedLine : (templateLines ring ts nonce counter).findSome? parseAttested = some true :=
    (findSome?_template cParsers_keyed.attested ring ts nonce counter).trans (parseFlag_true .attested)
  have htimeLine : (templateLines ring ts nonce counter).findSome?
      (parseI64Field (ascii "timestamp:")) = some ts :=
    (findSome?_template cParsers_keyed.timestamp ring ts nonce counter).trans htime
  have hnonceLine : (templateLines ring ts nonce counter).findSome?
      (parseStringField (ascii "nonce:") 256) = some nonce :=
    (findSome?_template cParsers_keyed.nonce ring ts nonce counter).trans hnonce
  have hcounterLine : (templateLines ring ts nonce counter).findSome?
      (parseI64Field (ascii "counter:")) = some counter :=
    (findSome?_template cParsers_keyed.counter ring ts nonce counter).trans hcounter
  rw [tokenTemplate, readFields_lines (short_templateLines h), hringLine, hattestedLine, htimeLine,
    hnonceLine, hcounterLine, hrootLine]

end Template

-- ── The validator on a template ──────────────────────────────────────────────────

/-- The arguments as C declares them: the age is a `long`, the nonce may be `NULL`. -/
structure ValidatorArgs where
  tokenPath       : Path
  requiredRing    : Int
  maxAgeSec       : Int
  expectedNonce   : Option Bytes
  replayStatePath : Path

def ValidatorArgs.request (a : ValidatorArgs) (now : Int) : Request :=
  ⟨a.requiredRing, a.maxAgeSec, a.expectedNonce, now⟩

/-- Up to the replay section. -/
def tokenCounter (euid : Nat) (seen : Seen) (a : ValidatorArgs) : Option Int :=
  if a.tokenPath = [] then none
  else
    match seen.lstat a.tokenPath with
    | none => none
    | some f =>
        if f.secure euid then
          (readFile seen.fopen a.tokenPath).bind (checkToken (a.request seen.now))
        else none

/-- `skv_validate_attestation_token`, on all arguments a C caller can pass. -/
def skvValidateAttestationToken (euid : Nat) (seen : Seen) (a : ValidatorArgs) (fs : Fs) :
    Int × Fs :=
  match tokenCounter euid seen a with
  | none => (0, fs)
  | some c =>
      if a.replayStatePath = [] then (0, fs)
      else
        let r := recordCounter euid (fs a.replayStatePath) c
        (if r.1 then 1 else 0, Function.update fs a.replayStatePath r.2)

/-- The call of `apply_ring_policy` is one of them. -/
theorem validateAttestationToken_eq (euid : Nat) (seen : Seen) (call : ValidatorCall) (fs : Fs) :
    validateAttestationToken euid seen call fs = skvValidateAttestationToken euid seen
      ⟨call.tokenPath, call.requiredRing, call.maxAgeSec, some call.expectedNonce,
        call.replayStatePath⟩ fs := rfl

/-- All file checks and all input and output succeed: the token file holds `token`, and the state
    file, which may be absent, records `last`. -/
structure FilesOk (euid : Nat) (seen : Seen) (a : ValidatorArgs) (fs : Fs) (token : Bytes)
    (last : Int) : Prop where
  tokenPath : a.tokenPath ≠ []
  tokenFile : ∃ f, seen.lstat a.tokenPath = some f ∧ f.secure euid = true
  tokenRead : readFile seen.fopen a.tokenPath = some token
  clock     : InI64 seen.now
  statePath : a.replayStatePath ≠ []
  stateFile : ((fs a.replayStatePath).getD (newState euid)).secure euid = true
  stateRead : ∃ content, ((fs a.replayStatePath).getD (newState euid)).content = some content
    ∧ readCounter content = last

/-- With the files in order, the fields and the recorded counter decide. -/
theorem validate_filesOk {euid : Nat} {seen : Seen} {a : ValidatorArgs} {fs : Fs} {token : Bytes}
    {last : Int} (h : FilesOk euid seen a fs token last) :
    (skvValidateAttestationToken euid seen a fs).1 = 1
      ↔ ∃ c, checkToken (a.request seen.now) token = some c ∧ last < c := by
  obtain ⟨f, hstat, hsec⟩ := h.tokenFile
  obtain ⟨content, hcontent, rfl⟩ := h.stateRead
  have hcounter : tokenCounter euid seen a = checkToken (a.request seen.now) token := by
    simp only [tokenCounter, if_neg h.tokenPath, hstat, hsec, if_true, h.tokenRead, Option.bind_some]
  unfold skvValidateAttestationToken
  rw [hcounter]
  cases checkToken (a.request seen.now) token with
  | none =>
      refine ⟨fun h0 => ?_, fun ⟨c, hc, _⟩ => (nomatch hc)⟩
      have h0' : (0 : Int) = 1 := h0
      exact absurd h0' (by decide)
  | some c =>
      have hrecord : (recordCounter euid (fs a.replayStatePath) c).1 = counterFresh content c := by
        simp only [recordCounter, hcontent, h.stateFile, Bool.not_true, Bool.false_eq_true, if_false]
        cases counterFresh content c <;> rfl
      simp only [if_neg h.statePath, hrecord, Option.some.injEq, exists_eq_left']
      rw [← counterFresh_iff]
      cases counterFresh content c <;> decide

/-- What the checks ask of a template. -/
theorem checkFields_template {q : Request} {r ts counter : Int} {nonce n : Bytes}
    (hts : 0 ≤ ts) (hnow : InI64 q.now) (hn : q.expectedNonce = some n) {root : Option Bool}
    (hroot : r = -2 → root = some true) (c : Int) :
    checkFields q ⟨some r, some true, some ts, some nonce, some counter, root⟩ = some c
      ↔ c = counter ∧ q.requiredRing = r ∧ 0 < q.maxAgeSec ∧ ts ≤ q.now ∧ q.now - ts ≤ q.maxAgeSec
        ∧ n = nonce := by
  have hage : ts ≤ q.now → subI64 q.now ts = q.now - ts := by
    intro hle
    obtain ⟨-, hhi⟩ := hnow
    unfold subI64
    rw [Int.bmod_eq_of_le] <;> omega
  unfold checkFields
  simp only [Option.ite_none_left_eq_some, Option.some.injEq, hn, Option.isSome_some, true_and,
    Bool.not_true, Bool.false_eq_true, not_false_iff, not_not, ne_eq]
  constructor
  · rintro ⟨hring, -, hage0, -, hle, hmax, hnonce, rfl⟩
    rw [hage (by omega)] at hmax
    exact ⟨rfl, hring.symm, by omega, by omega, by omega, hnonce.symm⟩
  · rintro ⟨rfl, hring, hage0, hle, hmax, hnonce⟩
    refine ⟨hring.symm, ?_, by omega, by omega, by omega, ?_, hnonce.symm, rfl⟩
    · rintro ⟨h2, hne⟩
      exact hne (hroot (hring.symm.trans h2))
    · rw [hage hle]
      omega

/-- **Template and validator agree.** -/
theorem template_accepted_iff (ring : RingMode) (r ts : Int) (nonce : Bytes) (counter : Int)
    (hr : ring.tokenRing = some r) (h : Filled ts nonce counter) :
    readFields (tokenTemplate ring ts nonce counter)
        = ⟨some r, some true, some ts, some nonce, some counter,
            if ring = .ringM2 then some true else none⟩
      ∧ ∀ (euid : Nat) (seen : Seen) (a : ValidatorArgs) (fs : Fs) (n : Bytes) (last : Int),
          a.expectedNonce = some n →
          FilesOk euid seen a fs (tokenTemplate ring ts nonce counter) last →
          ((skvValidateAttestationToken euid seen a fs).1 = 1
            ↔ a.requiredRing = r ∧ 0 < a.maxAgeSec ∧ ts ≤ seen.now ∧ seen.now - ts ≤ a.maxAgeSec
              ∧ n = nonce ∧ last < counter) := by
  have hread := readFields_template h hr
  refine ⟨hread, ?_⟩
  intro euid seen a fs n last hn hfiles
  have hroot : r = -2 → (if ring = .ringM2 then some true else none) = some true := by
    rintro rfl
    cases ring with
    | ring0 => exact nomatch hr
    | ringM1 => exact absurd hr (by decide)
    | ringM2 => rfl
  rw [validate_filesOk hfiles]
  simp only [checkToken, hread]
  simp only [checkFields_template (q := a.request seen.now) h.timestamp.1 hfiles.clock hn hroot]
  show (∃ c, (c = counter ∧ a.requiredRing = r ∧ 0 < a.maxAgeSec ∧ ts ≤ seen.now
    ∧ seen.now - ts ≤ a.maxAgeSec ∧ n = nonce) ∧ last < c) ↔ _
  constructor
  · rintro ⟨c, ⟨rfl, hring, hage, hle, hmax, hnonce⟩, hlast⟩
    exact ⟨hring, hage, hle, hmax, hnonce, hlast⟩
  · rintro ⟨hring, hage, hle, hmax, hnonce, hlast⟩
    exact ⟨counter, ⟨rfl, hring, hage, hle, hmax, hnonce⟩, hlast⟩

/-- A nonce of the greatest length. -/
def longNonce : Bytes := List.replicate 249 97

def filledToken : Bytes := tokenTemplate .ringM2 1700000000 longNonce 1

def filledSeen : Seen where
  lstat := fun _ => some ⟨true, 1000, 0o600, some filledToken⟩
  fopen := fun _ => some ⟨true, 1000, 0o600, some filledToken⟩
  now   := 1700000100

/-- A ring -2 token with such a nonce, presented for the first time, is accepted. -/
theorem filledToken_accepted :
    (skvValidateAttestationToken 1000 filledSeen ⟨ascii "t", -2, 300, some longNonce, ascii "s"⟩
      (fun _ => none)).1 = 1 := by
  have hlength : longNonce.length = 249 := List.length_replicate
  have hfilled : Filled 1700000000 longNonce 1 :=
    ⟨by decide, by unfold InI64; decide, by rw [hlength]; decide,
      fun h => absurd (List.eq_of_mem_replicate h) (by decide),
      fun h => absurd (List.eq_of_mem_replicate h) (by decide)⟩
  refine ((template_accepted_iff .ringM2 (-2) 1700000000 longNonce 1 rfl hfilled).2 1000 filledSeen
    ⟨ascii "t", -2, 300, some longNonce, ascii "s"⟩ (fun _ => none) longNonce (-1) rfl ?_).mpr
    ⟨rfl, by decide, by decide, by decide, rfl, by decide⟩
  exact ⟨by decide, ⟨_, rfl, by decide⟩, rfl, by unfold InI64; decide, by decide, by decide,
    [], rfl, by decide⟩

end SkvTemplate

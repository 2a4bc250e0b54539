import Mathlib.Algebra.Ring.Int.Defs
import Mathlib.Algebra.Ring.Nat
import Mathlib.Data.List.Basic
import Mathlib.Tactic.Common

/-!
# Signed 64-bit decimals: `%lld` and `strtoll`

Printing and parsing of decimal numbers as the C library does it, on lists of bytes:

* **`printI64`** is `printf("%lld")`;
* **`strtoll`** skips blanks, takes an optional sign and the longest run of digits, and
  saturates; it answers `none` when there is no digit to convert;
* **`parseInt`** is a strict parser: the whole text has to be a number in range, and `_` may
  stand between its digits.

**`strtoll_printI64`** is the round trip for every signed 64-bit number, whatever follows the
digits.  `strtoll_take` says what is read back from a text that was cut off: the number
divided by a power of ten, towards zero (`scanNat_take`).
-/

namespace Decimal

/-- The value fits a signed 64-bit integer. -/
def InI64 (v : Int) : Prop := -2 ^ 63 ≤ v ∧ v < 2 ^ 63

instance (v : Int) : Decidable (InI64 v) := inferInstanceAs (Decidable (_ ∧ _))

/-- Saturation at both ends of the range. -/
def clampI64 (v : Int) : Int := max (-2 ^ 63) (min v (2 ^ 63 - 1))

/-- `isspace` in the C locale. -/
def isSpace (b : UInt8) : Bool := b == 32 || (9 ≤ b && b ≤ 13)

/-- `isdigit`. -/
def isDigit (b : UInt8) : Bool := 48 ≤ b && b ≤ 57

def digitVal (b : UInt8) : Nat := b.toNat - 48

def digitByte (d : Nat) : UInt8 := UInt8.ofNat (48 + d)

-- ── Printing ─────────────────────────────────────────────────────────────────────

/-- Digits, most significant first; any fuel above the number is enough. -/
def digitsFuel : Nat → Nat → List UInt8
  | 0, _ => []
  | fuel + 1, n =>
      if n < 10 then [digitByte n] else digitsFuel fuel (n / 10) ++ [digitByte (n % 10)]

/-- An unsigned number. -/
def printNat (n : Nat) : List UInt8 := digitsFuel (n + 1) n

def signBytes (neg : Bool) : List UInt8 := if neg then [45] else []

/-- `%lld`. -/
def printI64 (v : Int) : List UInt8 := signBytes (decide (v < 0)) ++ printNat v.natAbs

-- ── Parsing ──────────────────────────────────────────────────────────────────────

/-- The value of the leading digits, continuing from `acc`. -/
def scanNat : Nat → List UInt8 → Nat
  | acc, [] => acc
  | acc, b :: bs => if isDigit b then scanNat (acc * 10 + digitVal b) bs else acc

/-- An optional sign; `true` is minus. -/
def splitSign : List UInt8 → Bool × List UInt8
  | 45 :: bs => (true, bs)
  | 43 :: bs => (false, bs)
  | bs => (false, bs)

def signed (neg : Bool) (n : Nat) : Int := if neg then -(n : Int) else n

/-- The leading digits, if there is at least one. -/
def scanSome : List UInt8 → Option Nat
  | [] => none
  | b :: bs => if isDigit b then some (scanNat 0 (b :: bs)) else none

/-- The number that the text starts with after its blanks, of any size. -/
def denoted (bs : List UInt8) : Option Int :=
  (scanSome (splitSign (bs.dropWhile isSpace)).2).map (signed (splitSign (bs.dropWhile isSpace)).1)

/-- `strtoll(_, &end, 10)`; `none` is `end == start`. -/
def strtoll (bs : List UInt8) : Option Int :=
  (scanSome (splitSign (bs.dropWhile isSpace)).2).map
    (fun n => clampI64 (signed (splitSign (bs.dropWhile isSpace)).1 n))

/-- Digits with `_` between them. -/
def scanSeparated : Nat → List UInt8 → Option Nat
  | acc, [] => some acc
  | acc, b :: bs =>
      if b = 95 then scanSeparated acc bs
      else if isDigit b then scanSeparated (acc * 10 + digitVal b) bs
      else none

/-- The strict parser: an optional sign, then nothing but digits and separators, the first and
    the last a digit, and no overflow. -/
def parseInt (bs : List UInt8) : Option Int :=
  if (splitSign bs).2 = [] ∨ (splitSign bs).2.head? = some 95 ∨ (splitSign bs).2.getLast? = some 95
  then none
  else
    (scanSeparated 0 (splitSign bs).2).bind (fun n =>
      if InI64 (signed (splitSign bs).1 n) then some (signed (splitSign bs).1 n) else none)

-- ── Digits ───────────────────────────────────────────────────────────────────────

theorem digitByte_spec {d : Nat} (h : d < 10) :
    isDigit (digitByte d) = true ∧ digitVal (digitByte d) = d := by
  have hall : ∀ k : Fin 10, isDigit (digitByte k) = true ∧ digitVal (digitByte k) = k := by
    decide
  exact hall ⟨d, h⟩

theorem isDigit_range {b : UInt8} (h : isDigit b = true) : 48 ≤ b.toNat ∧ b.toNat ≤ 57 := by
  simp only [isDigit, Bool.and_eq_true, decide_eq_true_eq, UInt8.le_iff_toNat_le] at h
  exact h

/-- A digit is neither a blank nor a sign. -/
theorem isDigit_not_blank {b : UInt8} (h : isDigit b = true) :
    isSpace b = false ∧ b ≠ 45 ∧ b ≠ 43 := by
  obtain ⟨hlo, hhi⟩ : 48 ≤ b.toNat ∧ b.toNat ≤ 57 := isDigit_range h
  refine ⟨?_, ?_, ?_⟩
  · rw [Bool.eq_false_iff]
    intro hs
    simp only [isSpace, Bool.or_eq_true, beq_iff_eq, Bool.and_eq_true, decide_eq_true_eq,
      UInt8.le_iff_toNat_le] at hs
    rcases hs with rfl | ⟨-, hs⟩
    · exact absurd hlo (by decide)
    · exact absurd (Nat.le_trans hlo hs) (by decide)
  · rintro rfl; exact absurd hlo (by decide)
  · rintro rfl; exact absurd hlo (by decide)

/-- More fuel changes nothing. -/
theorem digitsFuel_congr : ∀ (f g n : Nat), n < f → n < g →
    digitsFuel f n = digitsFuel g n := by
  intro f
  induction f with
  | zero => intro g n hf; exact absurd hf (Nat.not_lt_zero n)
  | succ f ih =>
      intro g n hf hg
      cases g with
      | zero => exact absurd hg (Nat.not_lt_zero n)
      | succ g =>
          show (if n < 10 then _ else _) = if n < 10 then _ else _
          by_cases hn : n < 10
          · rw [if_pos hn, if_pos hn]
          · rw [if_neg hn, if_neg hn, ih g (n / 10) (by omega) (by omega)]

theorem printNat_of_lt {n : Nat} (h : n < 10) : printNat n = [digitByte n] := if_pos h

/-- The last digit is printed last. -/
theorem printNat_of_ge {n : Nat} (h : ¬ n < 10) :
    printNat n = printNat (n / 10) ++ [digitByte (n % 10)] := by
  show (if n < 10 then _ else _) = _
  rw [if_neg h, digitsFuel_congr n (n / 10 + 1) (n / 10) (by omega) (by omega)]
  rfl

/-- Everything printed is a digit. -/
theorem printNat_digits (n : Nat) : ∀ b ∈ printNat n, isDigit b = true := by
  induction n using Nat.strongRecOn with
  | ind n ih =>
      intro b hb
      by_cases hn : n < 10
      · rw [printNat_of_lt hn] at hb
        rw [List.mem_singleton.mp hb]
        exact (digitByte_spec hn).1
      · rw [printNat_of_ge hn] at hb
        rcases List.mem_append.mp hb with hb | hb
        · exact ih (n / 10) (by omega) b hb
        · rw [List.mem_singleton.mp hb]
          exact (digitByte_spec (by omega)).1

theorem printNat_ne_nil (n : Nat) : printNat n ≠ [] := by
  by_cases hn : n < 10
  · rw [printNat_of_lt hn]; exact List.cons_ne_nil _ _
  · rw [printNat_of_ge hn]; exact List.append_ne_nil_of_right_ne_nil _ (List.cons_ne_nil _ _)

-- ── Scanning what was printed ────────────────────────────────────────────────────

theorem scanNat_append {ds : List UInt8} (hds : ∀ b ∈ ds, isDigit b = true)
    (rest : List UInt8) : ∀ acc, scanNat acc (ds ++ rest) = scanNat (scanNat acc ds) rest := by
  induction ds with
  | nil => intro acc; rfl
  | cons b bs ih =>
      intro acc
      have hb := hds b List.mem_cons_self
      show (if isDigit b then scanNat _ (bs ++ rest) else acc)
        = scanNat (if isDigit b then scanNat _ bs else acc) rest
      rw [if_pos hb, if_pos hb]
      exact ih (fun x hx => hds x (List.mem_cons_of_mem b hx)) _

/-- A byte that is no digit ends the scan. -/
theorem scanNat_stop {b : UInt8} (h : isDigit b = false) (acc : Nat) (bs : List UInt8) :
    scanNat acc (b :: bs) = acc := by
  show (if isDigit b then _ else acc) = acc
  rw [h]
  rfl

/-- **A prefix of the digits is a quotient**: the first `k` digits of `n` read as `n` divided
    by ten for each digit left out. -/
theorem scanNat_take (n : Nat) : ∀ k ≤ (printNat n).length,
    scanNat 0 ((printNat n).take k) = n / 10 ^ ((printNat n).length - k) := by
  induction n using Nat.strongRecOn with
  | ind n ih =>
      intro k hk
      by_cases hn : n < 10
      · rw [printNat_of_lt hn] at hk ⊢
        have hlen : [digitByte n].length = 1 := rfl
        rw [hlen] at hk ⊢
        rcases Nat.le_one_iff_eq_zero_or_eq_one.mp hk with rfl | rfl
        · show 0 = n / 10 ^ 1
          omega
        · obtain ⟨hd, hv⟩ := digitByte_spec hn
          show (if isDigit (digitByte n) then 0 * 10 + digitVal (digitByte n) else 0) = n / 10 ^ 0
          rw [if_pos hd, hv]
          simp
      · have hrec := ih (n / 10) (by omega)
        rw [printNat_of_ge hn] at hk ⊢
        rw [List.length_append, List.length_singleton] at hk ⊢
        by_cases hlast : k ≤ (printNat (n / 10)).length
        · rw [List.take_append_of_le_length hlast, hrec k hlast, Nat.div_div_eq_div_mul]
          rw [show (printNat (n / 10)).length + 1 - k = (printNat (n / 10)).length - k + 1 by
            omega, Nat.pow_succ, Nat.mul_comm]
        · have hkeq : k = (printNat (n / 10)).length + 1 := by omega
          obtain ⟨hd, hv⟩ := digitByte_spec (show n % 10 < 10 by omega)
          have hall := hrec _ (Nat.le_refl _)
          rw [List.take_length, Nat.sub_self, Nat.pow_zero, Nat.div_one] at hall
          rw [hkeq, List.take_of_length_le (by rw [List.length_append]; exact Nat.le_refl _),
            scanNat_append (printNat_digits _), hall, Nat.sub_self, Nat.pow_zero, Nat.div_one]
          show (if isDigit _ then n / 10 * 10 + digitVal _ else _) = n
          rw [if_pos hd, hv]
          omega

theorem scanNat_printNat (n : Nat) : scanNat 0 (printNat n) = n := by
  have h := scanNat_take n _ (Nat.le_refl _)
  rw [List.take_length, Nat.sub_self, Nat.pow_zero, Nat.div_one] at h
  exact h

-- ── `strtoll` ────────────────────────────────────────────────────────────────────

theorem clampI64_of_mem {v : Int} (h : InI64 v) : clampI64 v = v := by
  obtain ⟨hlo, hhi⟩ := h
  show max (-2 ^ 63) (min v (2 ^ 63 - 1)) = v
  omega

/-- `strtoll` saturates what the text denotes. -/
theorem strtoll_eq (bs : List UInt8) : strtoll bs = (denoted bs).map clampI64 := by
  unfold strtoll denoted
  rw [Option.map_map]
  rfl

/-- Saturated values are in range. -/
theorem clampI64_mem (v : Int) : InI64 (clampI64 v) := by
  show -2 ^ 63 ≤ max (-2 ^ 63) (min v (2 ^ 63 - 1)) ∧ max (-2 ^ 63) (min v (2 ^ 63 - 1)) < 2 ^ 63
  omega

/-- Whatever `strtoll` returns is a signed 64-bit number. -/
theorem strtoll_mem {bs : List UInt8} {v : Int} (h : strtoll bs = some v) : InI64 v := by
  obtain ⟨n, -, rfl⟩ := Option.map_eq_some_iff.mp h
  exact clampI64_mem _

/-- A sign and digits without blanks in front, up to the first byte that is no digit. -/
theorem strtoll_of_split {bs ds rest : List UInt8} {neg : Bool}
    (hblank : ∀ b ∈ bs.head?, isSpace b = false) (hsplit : splitSign bs = (neg, ds ++ rest))
    (hne : ds ≠ []) (hds : ∀ b ∈ ds, isDigit b = true)
    (hrest : ∀ b ∈ rest.head?, isDigit b = false) :
    strtoll bs = some (clampI64 (signed neg (scanNat 0 ds))) := by
  have hdrop : bs.dropWhile isSpace = bs := by
    cases bs with
    | nil => rfl
    | cons b bs =>
        rw [List.dropWhile_cons_of_neg]
        rw [hblank b rfl]
        exact Bool.false_ne_true
  have hscan : scanSome (ds ++ rest) = some (scanNat 0 ds) := by
    obtain ⟨d, tl, rfl⟩ := List.exists_cons_of_ne_nil hne
    show (if isDigit d then some (scanNat 0 (d :: tl ++ rest)) else none) = _
    rw [if_pos (hds d List.mem_cons_self), scanNat_append hds]
    cases rest with
    | nil => rfl
    | cons b bs => rw [scanNat_stop (hrest b rfl)]
  unfold strtoll
  rw [hdrop, hsplit, hscan]
  rfl

/-- Digits without a sign. -/
theorem splitSign_digit {b : UInt8} (h : isDigit b = true) (bs : List UInt8) :
    splitSign (b :: bs) = (false, b :: bs) := by
  obtain ⟨-, hminus, hplus⟩ := isDigit_not_blank h
  unfold splitSign
  split
  · next heq => exact absurd (List.cons.inj heq).1 hminus
  · next heq => exact absurd (List.cons.inj heq).1 hplus
  · rfl

/-- A printed sign and digits. -/
theorem strtoll_digits (neg : Bool) {ds : List UInt8} (hne : ds ≠ [])
    (hds : ∀ b ∈ ds, isDigit b = true) {rest : List UInt8}
    (hrest : ∀ b ∈ rest.head?, isDigit b = false) :
    strtoll (signBytes neg ++ ds ++ rest) = some (clampI64 (signed neg (scanNat 0 ds))) := by
  obtain ⟨d, tl, rfl⟩ := List.exists_cons_of_ne_nil hne
  have hd := hds d List.mem_cons_self
  cases neg with
  | true =>
      refine strtoll_of_split ?_ rfl hne hds hrest
      intro b hb
      rw [← Option.some.inj hb]
      rfl
  | false =>
      refine strtoll_of_split ?_ (splitSign_digit hd _) hne hds hrest
      intro b hb
      rw [← Option.some.inj hb]
      exact (isDigit_not_blank hd).1

/-- The sign of a number and a part of its digits give a quotient towards zero. -/
theorem signed_natAbs_div (v : Int) (m : Nat) :
    signed (decide (v < 0)) (v.natAbs / m) = v.tdiv m := by
  cases v with
  | ofNat n =>
      rw [show decide (Int.ofNat n < 0) = false from
        decide_eq_false (Int.not_lt.mpr (Int.natCast_nonneg n))]
      rfl
  | negSucc n =>
      rw [show decide (Int.negSucc n < 0) = true from decide_eq_true (Int.negSucc_lt_zero n)]
      rfl

/-- Quotients towards zero stay in range. -/
theorem tdiv_mem {v : Int} (h : InI64 v) (m : Nat) : InI64 (v.tdiv m) := by
  obtain ⟨hlo, hhi⟩ := h
  have hdiv : v.natAbs / m ≤ v.natAbs := Nat.div_le_self _ _
  rw [← signed_natAbs_div]
  generalize v.natAbs / m = q at hdiv ⊢
  by_cases hv : v < 0
  · rw [decide_eq_true hv]
    show -2 ^ 63 ≤ -(q : Int) ∧ -(q : Int) < 2 ^ 63
    omega
  · rw [decide_eq_false hv]
    show -2 ^ 63 ≤ (q : Int) ∧ (q : Int) < 2 ^ 63
    omega

/-- **The round trip.** -/
theorem strtoll_printI64 {v : Int} (h : InI64 v) {rest : List UInt8}
    (hrest : ∀ b ∈ rest.head?, isDigit b = false) : strtoll (printI64 v ++ rest) = some v := by
  unfold printI64
  rw [strtoll_digits _ (printNat_ne_nil _) (printNat_digits _) hrest, scanNat_printNat]
  have hv := (signed_natAbs_div v 1).trans (Int.tdiv_one v)
  rw [Nat.div_one] at hv
  rw [hv, clampI64_of_mem h]

-- ── The strict parser ────────────────────────────────────────────────────────────

theorem digit_ne_separator {b : UInt8} (h : isDigit b = true) : b ≠ 95 := by
  rintro rfl
  exact absurd h (by decide)

theorem scanSeparated_digits {ds : List UInt8} (hds : ∀ b ∈ ds, isDigit b = true) :
    ∀ acc, scanSeparated acc ds = some (scanNat acc ds) := by
  induction ds with
  | nil => intro acc; rfl
  | cons b bs ih =>
      intro acc
      have hb := hds b List.mem_cons_self
      show (if b = 95 then _ else if isDigit b then scanSeparated _ bs else none)
        = some (if isDigit b then scanNat _ bs else acc)
      rw [if_neg (digit_ne_separator hb), if_pos hb, if_pos hb]
      exact ih (fun x hx => hds x (List.mem_cons_of_mem b hx)) _

/-- Plain digits are read if the number is in range. -/
theorem parseInt_plain {bs ds : List UInt8} {neg : Bool} (hsplit : splitSign bs = (neg, ds))
    (hne : ds ≠ []) (hds : ∀ b ∈ ds, isDigit b = true) :
    parseInt bs = if InI64 (signed neg (scanNat 0 ds)) then some (signed neg (scanNat 0 ds))
      else none := by
  have hhead : ds.head? ≠ some 95 := by
    intro h
    exact digit_ne_separator (hds 95 (List.mem_of_mem_head? h)) rfl
  have hlast : ds.getLast? ≠ some 95 := by
    intro h
    exact digit_ne_separator (hds 95 (List.mem_of_mem_getLast? h)) rfl
  unfold parseInt
  rw [hsplit, if_neg (by rintro (h | h | h); exacts [hne h, hhead h, hlast h])]
  show (scanSeparated 0 ds).bind _ = _
  rw [scanSeparated_digits hds, Option.bind_some]

/-- Plain digits within the range. -/
theorem parseInt_digits {bs ds : List UInt8} {neg : Bool} (hsplit : splitSign bs = (neg, ds))
    (hne : ds ≠ []) (hds : ∀ b ∈ ds, isDigit b = true) (hmem : InI64 (signed neg (scanNat 0 ds))) :
    parseInt bs = some (signed neg (scanNat 0 ds)) := by
  rw [parseInt_plain hsplit hne hds, if_pos hmem]

/-- Whatever the strict parser returns is a signed 64-bit number. -/
theorem parseInt_mem {bs : List UInt8} {v : Int} (h : parseInt bs = some v) : InI64 v := by
  unfold parseInt at h
  split at h
  · exact nomatch h
  · obtain ⟨n, -, hn⟩ := Option.bind_eq_some_iff.mp h
    split at hn
    · next hmem =>
        rw [← Option.some.inj hn]
        exact hmem
    · exact nomatch hn

theorem splitSign_printI64 (v : Int) :
    splitSign (printI64 v) = (decide (v < 0), printNat v.natAbs) := by
  unfold printI64
  cases decide (v < 0) with
  | true => rfl
  | false =>
      obtain ⟨d, ds, hds⟩ := List.exists_cons_of_ne_nil (printNat_ne_nil v.natAbs)
      have hd := printNat_digits v.natAbs d (hds ▸ List.mem_cons_self)
      rw [hds]
      exact splitSign_digit hd ds

/-- **The strict round trip.** -/
theorem parseInt_printI64 {v : Int} (h : InI64 v) : parseInt (printI64 v) = some v := by
  have hv := (signed_natAbs_div v 1).trans (Int.tdiv_one v)
  rw [Nat.div_one] at hv
  have hscan : signed (decide (v < 0)) (scanNat 0 (printNat v.natAbs)) = v := by
    rw [scanNat_printNat, hv]
  rw [parseInt_digits (splitSign_printI64 v) (printNat_ne_nil _) (printNat_digits _)
    (by rw [hscan]; exact h), hscan]

/-- What may stand before the digits. -/
def IsSign (s : List UInt8) : Prop := s = [] ∨ s = [45] ∨ s = [43]

theorem splitSign_spec (bs : List UInt8) : ∃ s, IsSign s ∧ bs = s ++ (splitSign bs).2 := by
  unfold splitSign
  split
  · exact ⟨[45], Or.inr (Or.inl rfl), rfl⟩
  · exact ⟨[43], Or.inr (Or.inr rfl), rfl⟩
  · exact ⟨[], Or.inl rfl, rfl⟩

theorem splitSign_append {bs : List UInt8} (hne : bs ≠ []) (rest : List UInt8) :
    splitSign (bs ++ rest) = ((splitSign bs).1, (splitSign bs).2 ++ rest) := by
  obtain ⟨b, tl, rfl⟩ := List.exists_cons_of_ne_nil hne
  unfold splitSign
  by_cases hminus : b = 45
  · rw [hminus]
    rfl
  · by_cases hplus : b = 43
    · rw [hplus]
      rfl
    · simp [hminus, hplus]

/-- Neither a sign nor a digit is a blank. -/
theorem head_not_blank {s ds : List UInt8} (hs : IsSign s) (hds : ∀ b ∈ ds, isDigit b = true) :
    ∀ b ∈ (s ++ ds).head?, isSpace b = false := by
  intro b hb
  rcases hs with rfl | rfl | rfl
  · exact (isDigit_not_blank (hds b (List.mem_of_mem_head? hb))).1
  · rw [← Option.some.inj hb]
    rfl
  · rw [← Option.some.inj hb]
    rfl

/-- Whatever the strict parser takes starts with a sign and a digit. -/
theorem parseInt_head {bs : List UInt8} {v : Int} (h : parseInt bs = some v) :
    ∃ s b rest, IsSign s ∧ isDigit b = true ∧ bs = s ++ b :: rest := by
  obtain ⟨s, hs, hbs⟩ := splitSign_spec bs
  unfold parseInt at h
  by_cases hbad : (splitSign bs).2 = [] ∨ (splitSign bs).2.head? = some 95
      ∨ (splitSign bs).2.getLast? = some 95
  · rw [if_pos hbad] at h
    exact nomatch h
  · rw [if_neg hbad] at h
    obtain ⟨n, hn, -⟩ := Option.bind_eq_some_iff.mp h
    cases hds : (splitSign bs).2 with
    | nil => exact absurd (Or.inl hds) hbad
    | cons b rest =>
        have hb95 : b ≠ 95 := by
          rintro rfl
          exact hbad (Or.inr (Or.inl (by rw [hds]; rfl)))
        refine ⟨s, b, rest, hs, ?_, hds ▸ hbs⟩
        by_contra hb
        rw [hds] at hn
        have hn' : (if b = 95 then _ else if isDigit b then _ else none) = some n := hn
        rw [if_neg hb95, if_neg hb] at hn'
        exact nomatch hn'

/-- The lenient parser takes everything that starts so. -/
theorem strtoll_head {s : List UInt8} {b : UInt8} (hs : IsSign s) (hb : isDigit b = true)
    (rest : List UInt8) : strtoll (s ++ b :: rest) ≠ none := by
  have hscan : scanSome (b :: rest) ≠ none := by
    show (if isDigit b then some _ else none) ≠ none
    rw [if_pos hb]
    exact Option.some_ne_none _
  have hmap : ∀ g : Nat → Int, (scanSome (b :: rest)).map g ≠ none := by
    intro g hnone
    exact hscan (Option.map_eq_none_iff.mp hnone)
  rcases hs with rfl | rfl | rfl
  · have hdrop : (b :: rest).dropWhile isSpace = b :: rest :=
      List.dropWhile_cons_of_neg (by rw [(isDigit_not_blank hb).1]; exact Bool.false_ne_true)
    show (scanSome (splitSign ((b :: rest).dropWhile isSpace)).2).map _ ≠ none
    rw [hdrop, splitSign_digit hb]
    exact hmap _
  · exact hmap _
  · exact hmap _

-- ── Cut-off texts ────────────────────────────────────────────────────────────────

/-- How many bytes the sign takes. -/
def signLen (v : Int) : Nat := if v < 0 then 1 else 0

theorem signBytes_length (v : Int) : (signBytes (decide (v < 0))).length = signLen v := by
  unfold signBytes signLen
  by_cases hv : v < 0
  · rw [if_pos hv, decide_eq_true hv]; rfl
  · rw [if_neg hv, decide_eq_false hv]; rfl

theorem printI64_length (v : Int) :
    (printI64 v).length = signLen v + (printNat v.natAbs).length := by
  unfold printI64
  rw [List.length_append, signBytes_length]

theorem printNat_length_le (n : Nat) : ∀ k, 0 < k → n < 10 ^ k → (printNat n).length ≤ k := by
  induction n using Nat.strongRecOn with
  | ind n ih =>
      intro k hk hlt
      by_cases hn : n < 10
      · rw [printNat_of_lt hn]
        exact hk
      · obtain ⟨j, rfl⟩ := Nat.exists_eq_add_one_of_ne_zero (Nat.pos_iff_ne_zero.mp hk)
        have hj : 0 < j := by
          rcases Nat.eq_zero_or_pos j with rfl | hj
          · exact absurd hlt hn
          · exact hj
        have hdiv : n / 10 < 10 ^ j := by
          rw [Nat.pow_succ] at hlt
          omega
        rw [printNat_of_ge hn, List.length_append]
        exact Nat.succ_le_succ (ih (n / 10) (by omega) j hj hdiv)

/-- A sign and nineteen digits are enough. -/
theorem printI64_length_le {v : Int} (h : InI64 v) : (printI64 v).length ≤ 20 := by
  obtain ⟨hlo, hhi⟩ := h
  have hsign : signLen v ≤ 1 := by
    unfold signLen
    split <;> omega
  have hdigits := printNat_length_le v.natAbs 19 (by decide) (by omega)
  rw [printI64_length]
  omega

/-- **A text cut off** inside the number: nothing can be read back while no digit is left,
    and otherwise the number without its last digits. -/
theorem strtoll_take {v : Int} (h : InI64 v) {k : Nat} (hk : k ≤ (printI64 v).length) :
    strtoll ((printI64 v).take k)
      = if k ≤ signLen v then none else some (v.tdiv (10 ^ ((printI64 v).length - k) : Nat)) := by
  have hlen := printI64_length v
  by_cases hsign : k ≤ signLen v
  · rw [if_pos hsign]
    have htake : (printI64 v).take k = (signBytes (decide (v < 0))).take k := by
      unfold printI64
      exact List.take_append_of_le_length (by rw [signBytes_length]; exact hsign)
    rw [htake]
    by_cases hv : v < 0
    · rw [decide_eq_true hv]
      have hk1 : k ≤ 1 := by
        unfold signLen at hsign
        rw [if_pos hv] at hsign
        exact hsign
      rcases Nat.le_one_iff_eq_zero_or_eq_one.mp hk1 with rfl | rfl <;> rfl
    · rw [decide_eq_false hv]
      show strtoll (([] : List UInt8).take k) = none
      rw [List.take_nil]
      rfl
  · rw [if_neg hsign]
    have hdigits : k - signLen v ≤ (printNat v.natAbs).length := by omega
    have htake : (printI64 v).take k
        = signBytes (decide (v < 0)) ++ (printNat v.natAbs).take (k - signLen v) ++ [] := by
      unfold printI64
      rw [List.append_nil, List.take_append, List.take_of_length_le (by
        rw [signBytes_length]; omega), signBytes_length]
    have hne : (printNat v.natAbs).take (k - signLen v) ≠ [] := by
      intro hnil
      rw [List.take_eq_nil_iff] at hnil
      rcases hnil with h0 | hnil
      · omega
      · exact printNat_ne_nil _ hnil
    rw [htake, strtoll_digits _ hne (fun b hb => printNat_digits _ b (List.mem_of_mem_take hb))
      (by simp), scanNat_take _ _ hdigits, signed_natAbs_div,
      clampI64_of_mem (tdiv_mem h _)]
    rw [show (printNat v.natAbs).length - (k - signLen v) = (printI64 v).length - k by omega]

end Decimal

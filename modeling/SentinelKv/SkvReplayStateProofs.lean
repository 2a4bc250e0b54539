import SentinelKv.SkvTokenProofs

/-!
# The replay state file

The replay section of `attestation_bridge.c` as calls on one open file: the read of the
recorded counter, and the update sequence `ftruncate`, `lseek`, `snprintf`, `write`, `fsync`,
`chmod`.  A complete sequence leaves a text that reads back as the new counter
(**`readCounter_update`**).

A sequence that is cut short does not always do so: the file is emptied before it is
written, and an empty file reads as -1.  **`fault_safe_iff`** says for which old counters,
new counters and faults the next call still sees one of the two.
-/

namespace SkvReplayState

open Decimal SkvToken

-- ── Reading ──────────────────────────────────────────────────────────────────────

/-- `pread` of at most 127 bytes, then `strtoll`; an empty file and a text without digits
    leave `last_counter` at -1. -/
def readCounter (content : Bytes) : Int :=
  if content.take 127 = [] then -1 else (strtoll (content.take 127)).getD (-1)

/-- `token_counter <= last_counter` refuses. -/
def counterFresh (content : Bytes) (c : Int) : Bool := !decide (c ≤ readCounter content)

theorem counterFresh_iff {content : Bytes} {c : Int} :
    counterFresh content c = true ↔ readCounter content < c := by
  unfold counterFresh
  rw [Bool.not_eq_true', decide_eq_false_iff_not, Int.not_le]

-- ── The update sequence ──────────────────────────────────────────────────────────

inductive UpdateCall where
  | ftruncate | lseek | snprintf | write | fsync | chmod
deriving DecidableEq, Repr

def updateSequence : List UpdateCall := [.ftruncate, .lseek, .snprintf, .write, .fsync, .chmod]

/-- `"%lld\n"`. -/
def counterText (c : Int) : Bytes := printI64 c ++ [10]

/-- A write at an offset; a gap is filled with NULs. -/
def writeAt (content : Bytes) (pos : Nat) (text : Bytes) : Bytes :=
  content.take pos ++ List.replicate (pos - content.length) 0 ++ text
    ++ content.drop (pos + text.length)

/-- What a call does to the content and to the descriptor's offset. -/
def UpdateCall.run (c : Int) : UpdateCall → Bytes × Nat → Bytes × Nat
  | .ftruncate, (_, pos) => ([], pos)
  | .lseek, (content, _) => (content, 0)
  | .write, (content, pos) =>
      (writeAt content pos (counterText c), pos + (counterText c).length)
  -- the text is formatted in memory; syncing and the mode leave the content alone
  | .snprintf, st | .fsync, st | .chmod, st => st

/-- `outlen >= sizeof(outbuf)` gives up; no other call looks at the counter. -/
def UpdateCall.refuses (c : Int) (call : UpdateCall) : Bool :=
  call = .snprintf && decide (128 ≤ (counterText c).length)

def runCalls (c : Int) (calls : List UpdateCall) (st : Bytes × Nat) : Bytes × Nat :=
  calls.foldl (fun st call => call.run c st) st

theorem runCalls_concat (c : Int) (calls : List UpdateCall) (call : UpdateCall)
    (st : Bytes × Nat) : runCalls c (calls ++ [call]) st = call.run c (runCalls c calls st) :=
  List.foldl_concat ..

theorem writeAt_empty (text : Bytes) : writeAt [] 0 text = text := by
  simp [writeAt]

/-- The whole sequence leaves the new text, whatever was there before. -/
theorem runCalls_updateSequence (c : Int) (content : Bytes) :
    (runCalls c updateSequence (content, 0)).1 = counterText c := writeAt_empty _

theorem counterText_length_le {c : Int} (h : InI64 c) : (counterText c).length ≤ 21 := by
  show (printI64 c ++ [10]).length ≤ 21
  rw [List.length_append]
  exact Nat.succ_le_succ (printI64_length_le h)

/-- The buffer is always large enough. -/
theorem not_refuses {c : Int} (h : InI64 c) (call : UpdateCall) : call.refuses c = false := by
  have hlen := counterText_length_le h
  unfold UpdateCall.refuses
  rw [decide_eq_false (show ¬ 128 ≤ (counterText c).length by omega), Bool.and_false]

-- ── Reading what was written ─────────────────────────────────────────────────────

/-- Short texts are read whole. -/
theorem readCounter_of_length_le {content : Bytes} (h : content.length ≤ 127) :
    readCounter content = (strtoll content).getD (-1) := by
  unfold readCounter
  rw [List.take_of_length_le h]
  by_cases hnil : content = []
  · rw [if_pos hnil, hnil]
    rfl
  · rw [if_neg hnil]

theorem readCounter_counterText {c : Int} (h : InI64 c) : readCounter (counterText c) = c := by
  have hlen := counterText_length_le h
  rw [readCounter_of_length_le (by omega)]
  have hrest : ∀ b ∈ [(10 : UInt8)].head?, isDigit b = false := by
    intro b hb
    rw [← Option.some.inj hb]
    rfl
  show (strtoll (printI64 c ++ [10])).getD (-1) = c
  rw [strtoll_printI64 h hrest, Option.getD_some]

/-- **A complete update records its counter.** -/
theorem readCounter_update {c : Int} (h : InI64 c) (content : Bytes) :
    readCounter (runCalls c updateSequence (content, 0)).1 = c := by
  rw [runCalls_updateSequence]
  exact readCounter_counterText h

/-- A text cut off reads as the new counter once all digits are there, as -1 while there is
    none, and as a quotient in between. -/
theorem readCounter_take {c : Int} (h : InI64 c) (k : Nat) :
    readCounter ((counterText c).take k)
      = if (printI64 c).length ≤ k then c
        else if k ≤ signLen c then -1
        else c.tdiv (10 ^ ((printI64 c).length - k) : Nat) := by
  have hlen := counterText_length_le h
  rw [readCounter_of_length_le (Nat.le_trans (List.length_take_le' k _) (by omega))]
  by_cases hall : (printI64 c).length ≤ k
  · have hnd : ∀ b ∈ ([(10 : UInt8)].take (k - (printI64 c).length)).head?, isDigit b = false := by
      intro b hb
      have hmem : b ∈ [(10 : UInt8)] := List.mem_of_mem_take (List.mem_of_mem_head? hb)
      rw [List.mem_singleton.mp hmem]
      rfl
    rw [if_pos hall, counterText, List.take_append, List.take_of_length_le hall,
      strtoll_printI64 h hnd, Option.getD_some]
  · rw [if_neg hall, counterText, List.take_append_of_le_length (Nat.le_of_not_le hall),
      strtoll_take h (Nat.le_of_not_le hall)]
    by_cases hsign : k ≤ signLen c
    · rw [if_pos hsign, if_pos hsign, Option.getD_none]
    · rw [if_neg hsign, if_neg hsign, Option.getD_some]

-- ── Faults ───────────────────────────────────────────────────────────────────────

/-- Where the update ends early.  A process that stops before a call and a call that fails
    leave the same content: the calls before it. -/
inductive Fault where
  | before (call : UpdateCall)
  /-- `write` stores the first `k` bytes only. -/
  | shortWrite (k : Nat)
  /-- After `chmod`, before the return. -/
  | atEnd
deriving DecidableEq, Repr

/-- The calls that complete before a fault. -/
def callsBefore (call : UpdateCall) : List UpdateCall := updateSequence.takeWhile (· ≠ call)

/-- The content a fault leaves behind. -/
def Fault.content (c : Int) (content : Bytes) : Fault → Bytes
  | .before call => (runCalls c (callsBefore call) (content, 0)).1
  | .shortWrite k =>
      let st := runCalls c (callsBefore .write) (content, 0)
      writeAt st.1 st.2 ((counterText c).take k)
  | .atEnd => (runCalls c updateSequence (content, 0)).1

/-- The next call reads the old counter or the new one, and refuses whatever the old one
    refused. -/
def FaultSafe (last c next : Int) : Prop := (next = last ∨ next = c) ∧ ∀ d ≤ last, d ≤ next

/-- The faults that do no harm.  Once the file is emptied and before a digit is stored, one
    of the two counters has to be the -1 an empty file stands for; with some digits missing,
    what is left of the new counter has to be the old one. -/
def Harmless (last c : Int) : Fault → Prop
  | .before .lseek | .before .snprintf | .before .write => last = -1 ∨ c = -1
  | .before .ftruncate | .before .fsync | .before .chmod | .atEnd => True
  | .shortWrite k =>
      (printI64 c).length ≤ k
        ∨ (k ≤ signLen c ∧ (last = -1 ∨ c = -1))
        ∨ (signLen c < k ∧ c.tdiv (10 ^ ((printI64 c).length - k) : Nat) = last)

theorem faultSafe_iff {last c next : Int} (h : last < c) :
    FaultSafe last c next ↔ (next = last ∨ next = c) := by
  constructor
  · exact fun hs => hs.1
  · intro hs
    refine ⟨hs, fun d hd => ?_⟩
    omega

/-- Cutting a digit off changes every number but zero. -/
theorem tdiv_ne_self {c : Int} {j : Nat} (hc : c ≠ 0) (hj : 0 < j) :
    c.tdiv (10 ^ j : Nat) ≠ c := by
  intro heq
  have habs := congrArg Int.natAbs heq
  rw [Int.natAbs_tdiv, Int.natAbs_natCast] at habs
  have hlt : c.natAbs / 10 ^ j < c.natAbs :=
    Nat.div_lt_self (Int.natAbs_pos.mpr hc) (Nat.one_lt_pow (by omega) (by decide))
  exact absurd habs (Nat.ne_of_lt hlt)

theorem empty_safe_iff {last c : Int} (h : last < c) :
    FaultSafe last c (-1) ↔ (last = -1 ∨ c = -1) := by
  rw [faultSafe_iff h]
  constructor
  · rintro (hl | hc)
    · exact Or.inl hl.symm
    · exact Or.inr hc.symm
  · rintro (hl | hc)
    · exact Or.inl hl.symm
    · exact Or.inr hc.symm

theorem new_safe {last c : Int} (h : last < c) : FaultSafe last c c :=
  (faultSafe_iff h).mpr (Or.inr rfl)

theorem old_safe {last c : Int} (h : last < c) : FaultSafe last c last :=
  (faultSafe_iff h).mpr (Or.inl rfl)

theorem shortWrite_safe_iff {last c : Int} (hc : InI64 c) (h : last < c) (k : Nat) :
    FaultSafe last c (readCounter ((counterText c).take k)) ↔ Harmless last c (.shortWrite k) := by
  show _ ↔ (_ ∨ _ ∨ _)
  rw [readCounter_take hc]
  by_cases hall : (printI64 c).length ≤ k
  · rw [if_pos hall]
    exact ⟨fun _ => Or.inl hall, fun _ => new_safe h⟩
  · rw [if_neg hall]
    by_cases hsign : k ≤ signLen c
    · rw [if_pos hsign, empty_safe_iff h]
      constructor
      · exact fun hs => Or.inr (Or.inl ⟨hsign, hs⟩)
      · rintro (h1 | ⟨-, hs⟩ | ⟨hk, -⟩)
        · exact absurd h1 hall
        · exact hs
        · exact absurd hsign (Nat.not_le.mpr hk)
    · rw [if_neg hsign, faultSafe_iff h]
      -- zero has one digit, so nothing of it can be missing once one is there
      have hne : c.tdiv (10 ^ ((printI64 c).length - k) : Nat) ≠ c := by
        refine tdiv_ne_self ?_ (by omega)
        rintro rfl
        exact hall (Nat.not_le.mp hsign)
      constructor
      · rintro (hl | hc')
        · exact Or.inr (Or.inr ⟨Nat.not_le.mp hsign, hl⟩)
        · exact absurd hc' hne
      · rintro (h1 | ⟨hk, -⟩ | ⟨-, hl⟩)
        · exact absurd h1 hall
        · exact absurd hk hsign
        · exact Or.inl hl

/-- **Faults during an update.**  For every accepted token, every state file with a smaller
    counter and every fault, the recorded counter survives exactly when the fault is
    harmless. -/
theorem fault_safe_iff (q : Request) (token : Bytes) (c : Int)
    (htoken : checkToken q token = some c) (state : Bytes) (hfresh : counterFresh state c = true)
    (f : Fault) :
    FaultSafe (readCounter state) c (readCounter (f.content c state))
      ↔ Harmless (readCounter state) c f := by
  have hc : InI64 c := checkToken_mem htoken
  have hlt : readCounter state < c := counterFresh_iff.mp hfresh
  -- after `write` the content is the whole new text, whichever call fails next
  have hnew : FaultSafe (readCounter state) c (readCounter (writeAt [] 0 (counterText c))) := by
    rw [writeAt_empty, readCounter_counterText hc]
    exact new_safe hlt
  cases f with
  | before call =>
      cases call with
      | ftruncate => exact iff_of_true (old_safe hlt) trivial
      | lseek => exact empty_safe_iff hlt
      | snprintf => exact empty_safe_iff hlt
      | write => exact empty_safe_iff hlt
      | fsync => exact iff_of_true hnew trivial
      | chmod => exact iff_of_true hnew trivial
  | shortWrite k =>
      show FaultSafe _ c (readCounter (writeAt [] 0 ((counterText c).take k))) ↔ _
      rw [writeAt_empty]
      exact shortWrite_safe_iff hc hlt k
  | atEnd => exact iff_of_true hnew trivial

/-- A token whose counter is 12, accepted by every check before the replay section. -/
def sampleToken : Bytes := ascii "ring:-1\nattested:true\ntimestamp:90\ncounter:12\n"

def sampleRequest : Request := ⟨-1, 60, none, 100⟩

/-- Recorded 1, new counter 12, one digit stored: the old counter is read back. -/
theorem shortWrite_keeps_one :
    FaultSafe 1 12 (readCounter ((Fault.shortWrite 1).content 12 (ascii "1\n"))) :=
  (fault_safe_iff sampleRequest sampleToken 12 (by decide) (ascii "1\n") (by decide)
    (.shortWrite 1)).mpr
    (Or.inr (Or.inr ⟨by decide, by decide⟩))

/-- Recorded 5, new counter 12.  A crash after `ftruncate` makes the next call read -1, and a
    write of one digit makes it read 1: counters up to 5 are accepted again. -/
theorem interrupted_update_forgets :
    checkToken sampleRequest sampleToken = some 12
      ∧ counterFresh (ascii "5\n") 12 = true
      ∧ readCounter ((Fault.before .lseek).content 12 (ascii "5\n")) = -1
      ∧ readCounter ((Fault.shortWrite 1).content 12 (ascii "5\n")) = 1
      ∧ counterFresh ((Fault.before .write).content 12 (ascii "5\n")) 5 = true
      ∧ ¬ FaultSafe 5 12 (readCounter ((Fault.before .write).content 12 (ascii "5\n"))) := by
  refine ⟨by decide, by decide, by decide, by decide, by decide, ?_⟩
  rintro ⟨-, hall⟩
  exact absurd (hall 5 (by decide)) (by decide)

end SkvReplayState

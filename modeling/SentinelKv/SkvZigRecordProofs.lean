import SentinelKv.SkvZigReplayProofs

/-!
# One call of the Zig validator

`parseToken` of `attestation_bridge.zig` from its first check to its return, for a caller that
nobody disturbs.  Its replay section asks `isSecureRegularFile` whether there is a record.  The
answer is no for a file that does not exist, and no for one that is writable by others or is
reached through a symbolic link: such a record is not read, and then overwritten.  The C
validator refuses there.

* **`parseToken_runs`** — the section is a run of the concurrent system in which only this
  process moves;
* **`record_respected_iff`** — for a state file that starts with a counter, every accepted token
  is above it and an insecure file is refused, if and only if the file is secure and the counter
  is one that the parser can hold;
* **`writable_record_ignored`** — a record that the group may write does not count.
-/

namespace SkvZigRecord

open Decimal LineReader SkvToken SkvReplayState SkvZigToken SkvZigReplay

-- ── Files ────────────────────────────────────────────────────────────────────────

/-- `isSecureRegularFile`, on the mode that `lstat` returns; `none` when it fails.  A symbolic
    link has a type of its own. -/
def isSecureRegularFile (lstat : Option Nat) : Bool :=
  match lstat with
  | none => false
  | some mode =>
      if mode &&& 0o170000 != 0o100000 then false
      else if mode &&& 0o020 != 0 || mode &&& 0o002 != 0 then false
      else true

/-- What there is at the replay state path: the mode of the path itself, and the content of the
    file that opening it leads to. -/
structure StateEntry where
  mode    : Nat
  content : Bytes
deriving DecidableEq, Repr

def StateEntry.secure (e : StateEntry) : Bool := isSecureRegularFile (some e.mode)

/-- Which of the operations on the state file succeed. -/
structure FileOps where
  opens   : Bool
  creates : Bool
  prints  : Bool

/-- A call: what it finds at the token path, its arguments, and the clock. -/
structure ZigCall where
  tokenMode       : Option Nat
  tokenContent    : Option Bytes
  request         : Request
  replayStatePath : Bytes

-- ── The call ─────────────────────────────────────────────────────────────────────

/-- Up to the replay section: the counter to record. -/
def tokenCounter (call : ZigCall) : Option Int :=
  if !isSecureRegularFile call.tokenMode then none
  else call.tokenContent.bind (SkvZigToken.parseToken call.request)

/-- `last_counter`; `none` is `return false`. -/
def lastCounter (ops : FileOps) (state : Option StateEntry) : Option Int :=
  match state with
  | none => some (-1)
  | some e =>
      if e.secure then (if ops.opens then readLast e.content else none)
      -- `state_exists` is false
      else some (-1)

/-- The file after `createFileAbsolute` with `truncate`; a new one has the mode 0600. -/
def created (state : Option StateEntry) : StateEntry := ⟨(state.map StateEntry.mode).getD 0o100600, []⟩

/-- From the look at the state file to the end. -/
def recordCounter (ops : FileOps) (c : Int) (state : Option StateEntry) : Bool × Option StateEntry :=
  match lastCounter ops state with
  | none => (false, state)
  | some last =>
      if c ≤ last then (false, state)
      else if !ops.creates then (false, state)
      else if !ops.prints then (false, some (created state))
      else (true, some { created state with content := counterText c })

/-- `parseToken`. -/
def parseToken (ops : FileOps) (call : ZigCall) (state : Option StateEntry) :
    Bool × Option StateEntry :=
  match tokenCounter call with
  | none => (false, state)
  | some c => if call.replayStatePath = [] then (false, state) else recordCounter ops c state

theorem recordCounter_eq_true_iff {ops : FileOps} {c : Int} {state : Option StateEntry} :
    (recordCounter ops c state).1 = true ↔
      ∃ last, lastCounter ops state = some last ∧ last < c ∧ ops.creates = true
        ∧ ops.prints = true := by
  unfold recordCounter
  cases lastCounter ops state with
  | none =>
      constructor
      · intro h
        cases h
      · rintro ⟨last, hlast, -⟩
        cases hlast
  | some last =>
      simp only [Option.some.injEq, exists_eq_left']
      by_cases hle : c ≤ last
      · rw [if_pos hle]
        constructor
        · intro h
          cases h
        · rintro ⟨hlt, -⟩
          exact absurd hle (Int.not_le.mpr hlt)
      · rw [if_neg hle]
        cases ops.creates with
        | false => simp
        | true =>
            cases ops.prints with
            | false => simp
            | true => simpa using Int.not_le.mp hle

/-- When the call returns true. -/
theorem parseToken_eq_true_iff {ops : FileOps} {call : ZigCall} {state : Option StateEntry} :
    (parseToken ops call state).1 = true ↔
      ∃ c last, tokenCounter call = some c ∧ call.replayStatePath ≠ []
        ∧ lastCounter ops state = some last ∧ last < c ∧ ops.creates = true
        ∧ ops.prints = true := by
  unfold parseToken
  cases tokenCounter call with
  | none =>
      constructor
      · intro h
        cases h
      · rintro ⟨c, last, hc, -⟩
        cases hc
  | some c =>
      by_cases hpath : call.replayStatePath = []
      · simp only [if_pos hpath]
        constructor
        · intro h
          cases h
        · rintro ⟨c', last, -, hne, -⟩
          exact absurd hpath hne
      · simp only [if_neg hpath]
        rw [recordCounter_eq_true_iff]
        constructor
        · rintro ⟨last, hrest⟩
          exact ⟨c, last, rfl, hpath, hrest⟩
        · rintro ⟨c', last, hc, -, hrest⟩
          obtain rfl := Option.some.inj hc
          exact ⟨last, hrest⟩

-- ── The section as a run ─────────────────────────────────────────────────────────

section Alone

variable {P : Type} [DecidableEq P]

/-- The state file as the processes of the system see it. -/
def StateEntry.file (e : StateEntry) : StateFile := ⟨e.content, e.secure⟩

/-- Every operation succeeds. -/
def allOps : FileOps := ⟨true, true, true⟩

/-- The operations of a process that is not disturbed. -/
def soloActs (p : P) (c : Int) (state : Option StateEntry) : List (Act P) :=
  .lstat p :: (if state.any StateEntry.secure then [.openState p, .read p] else [])
    ++ match lastCounter allOps state with
      | none => []
      | some last => .compare p :: (if c ≤ last then [] else [.create p, .write p])

@[simp] theorem goto_procs (s : Sys P) (p : P) (pc : Pc) : (s.goto p pc).procs p = pc :=
  Function.update_self ..

@[simp] theorem goto_file (s : Sys P) (p : P) (pc : Pc) : (s.goto p pc).file = s.file := rfl

@[simp] theorem goto_accepted (s : Sys P) (p : P) (pc : Pc) :
    (s.goto p pc).accepted = s.accepted := rfl

@[simp] theorem goto_goto (s : Sys P) (p : P) (pc pc' : Pc) :
    (s.goto p pc).goto p pc' = s.goto p pc' := by
  simp [Sys.goto]

theorem run_append (s : Sys P) (as bs : List (Act P)) :
    run s (as ++ bs) = (run s as).bind (fun s' => run s' bs) :=
  LockedRegister.run_append_of_step (fun _ => rfl) (fun _ _ _ => rfl) as bs s

/-- The look at the state file. -/
theorem run_look {s : Sys P} {p : P} {c : Int} {state : Option StateEntry}
    (hpc : s.procs p = .checked c) (hfile : s.file = state.map StateEntry.file) :
    ∃ seen, run s (.lstat p :: (if state.any StateEntry.secure then [.openState p, .read p] else []))
      = some (s.goto p (match lastCounter allOps state with
          | none => .idle
          | some last => .looked c last seen)) := by
  cases state with
  | none =>
      refine ⟨0, ?_⟩
      simp [run, step, hpc, Sys.stateExists, hfile, lastCounter]
  | some e =>
      cases hsec : e.secure with
      | false =>
          refine ⟨0, ?_⟩
          simp [run, step, hpc, Sys.stateExists, hfile, lastCounter, hsec, StateEntry.file]
      | true =>
          have hcontent : s.content = e.content := by rw [Sys.content, hfile]; rfl
          refine ⟨s.seen, ?_⟩
          have hread : ∀ pc : Pc, readLast (s.goto p pc).content = readLast e.content :=
            fun pc => congrArg readLast hcontent
          have hseen : ∀ pc : Pc, (s.goto p pc).seen = s.seen := fun pc => rfl
          cases hlast : readLast e.content with
          | none =>
              simp [run, step, hpc, Sys.stateExists, hfile, lastCounter, hsec, StateEntry.file,
                allOps, hread, hlast]
          | some last =>
              simp [run, step, hpc, Sys.stateExists, hfile, lastCounter, hsec, StateEntry.file,
                allOps, hread, hseen, hlast]

/-- The update of the state file. -/
theorem run_update {s : Sys P} {p : P} {c : Int} {seen : Nat} {state : Option StateEntry}
    (hpc : s.procs p = .fresh c seen) (hfile : s.file = state.map StateEntry.file) :
    ∃ s', run s [.create p, .write p] = some s' ∧ s'.procs p = .idle
      ∧ s'.file = some (StateEntry.file { created state with content := counterText c })
      ∧ s'.accepted = s.accepted ++ [c] := by
  have hsecure : s.secure = (created state).secure := by
    rw [Sys.secure, hfile]
    cases state with
    | none => rfl
    | some e => rfl
  simp [run, step, hpc, Sys.goto, Sys.content, Sys.secure, writeAt_empty, StateEntry.file]
  rw [← Sys.secure, hsecure]
  rfl

/-- **The replay section is a run** of the system in which nobody else moves: it leaves the same
    file behind, and the counter is accepted in the one if it is in the other. -/
theorem parseToken_runs {call : ZigCall} {c : Int} (hc : tokenCounter call = some c)
    (hpath : call.replayStatePath ≠ []) {state : Option StateEntry} {s : Sys P} {p : P}
    (hpc : s.procs p = .checked c) (hfile : s.file = state.map StateEntry.file) :
    ∃ s', run s (soloActs p c state) = some s' ∧ s'.procs p = .idle
      ∧ s'.file = (parseToken allOps call state).2.map StateEntry.file
      ∧ s'.accepted = s.accepted ++ (if (parseToken allOps call state).1 then [c] else []) := by
  have hcall : parseToken allOps call state = recordCounter allOps c state := by
    simp only [parseToken, hc, if_neg hpath]
  obtain ⟨seen, hlook⟩ := run_look hpc hfile
  rw [hcall]
  unfold soloActs recordCounter
  rw [run_append, hlook, Option.bind_some]
  cases hlast : lastCounter allOps state with
  | none => exact ⟨_, rfl, goto_procs .., hfile, (List.append_nil _).symm⟩
  | some last =>
      by_cases hle : c ≤ last
      · refine ⟨s.goto p .idle, ?_, goto_procs .., ?_, ?_⟩
        · simp [run, step, hle]
        · simpa [hle] using hfile
        · simp [hle]
      · obtain ⟨s', hrun, hpc', hfile', hacc⟩ :=
          run_update (s := s.goto p (.fresh c seen)) (p := p) (goto_procs ..) hfile
        refine ⟨s', ?_, hpc', ?_, ?_⟩
        · simpa [run, step, hle] using hrun
        · simpa [hle, allOps] using hfile'
        · simpa [hle, allOps] using hacc

end Alone

-- ── The record ───────────────────────────────────────────────────────────────────

/-- The first line of a file. -/
def firstLine (content : Bytes) : Bytes := content.takeWhile (· != 10)

theorem firstLine_spec (content : Bytes) :
    10 ∉ firstLine content
      ∧ (content = firstLine content ∨ ∃ rest, content = firstLine content ++ 10 :: rest) := by
  refine ⟨fun hmem => absurd (List.mem_takeWhile_imp hmem) (by decide), ?_⟩
  have hsplit : content = firstLine content ++ content.dropWhile (· != 10) :=
    List.takeWhile_append_dropWhile.symm
  cases hrest : content.dropWhile (· != 10) with
  | nil =>
      rw [hrest, List.append_nil] at hsplit
      exact Or.inl hsplit
  | cons b rest =>
      have hb : ¬ (b != 10) = true := by
        have h := List.head?_dropWhile_not (fun x : UInt8 => x != 10) content
        rw [hrest] at h
        simpa using h
      rw [hrest, show b = 10 by simpa using hb] at hsplit
      exact Or.inr ⟨rest, hsplit⟩

/-- What the strict parser makes of a whole number. -/
theorem parseInt_of_whole {v : Bytes} {n : Int} (h : wholeNumber v = some n) :
    parseInt (trimLine v) = if InI64 n then some n else none := by
  unfold wholeNumber at h
  obtain ⟨⟨hne, hall⟩, hn⟩ := Option.ite_none_right_eq_some.mp h
  obtain rfl := Option.some.inj hn
  exact parseInt_plain rfl hne (List.all_eq_true.mp hall)

/-- A number on the first line is read if it fits buffer and type; if it does not fit the type
    the record counts for nothing, and if it does not fit the buffer the call returns false. -/
theorem readLast_of_whole {content : Bytes} {n : Int} (h : wholeNumber (firstLine content) = some n) :
    readLast content = if (firstLine content).length < 128 then some (if InI64 n then n else -1)
      else none := by
  obtain ⟨h10, hcontent⟩ := firstLine_spec content
  have hline : firstLine content ≠ [] := by
    intro hnil
    rw [hnil] at h
    cases h
  have hne : content ≠ [] := by
    rintro rfl
    exact hline rfl
  have hvalue : (parseInt (trimLine (firstLine content))).getD (-1) = if InI64 n then n else -1 := by
    rw [parseInt_of_whole h]
    split <;> rfl
  rw [readLast, if_neg hne]
  by_cases hlen : (firstLine content).length < 128
  · have hread : ∃ rest, readUntil 10 128 content = some (firstLine content, rest) := by
      rcases hcontent with hc | ⟨rest, hc⟩
      · exact ⟨[], (congrArg _ hc).trans (readUntil_last 10 h10 128 hlen)⟩
      · exact ⟨rest, (congrArg _ hc).trans (readUntil_line 10 h10 rest 128 hlen)⟩
    obtain ⟨rest, hread⟩ := hread
    rw [hread, Option.map_some, hvalue, if_pos hlen]
  · have hread : readUntil 10 128 content = none := by
      rcases hcontent with hc | ⟨rest, hc⟩
      · have hlong := readUntil_long 10 h10 [] 128 (Nat.not_lt.mp hlen)
        rw [List.append_nil] at hlong
        exact (congrArg _ hc).trans hlong
      · exact (congrArg _ hc).trans (readUntil_long 10 h10 (10 :: rest) 128 (Nat.not_lt.mp hlen))
    rw [hread, if_neg hlen]
    rfl

/-- A valid token with the counter 0. -/
def zeroCall : ZigCall where
  tokenMode       := some 0o100600
  tokenContent    := some (tokenOf [ascii "ring:-1", ascii "attested:true", ascii "timestamp:90",
    ascii "counter:0"])
  request         := noNonce
  replayStatePath := ascii "/s"

theorem zeroCall_counter : tokenCounter zeroCall = some 0 := by decide +kernel

/-- It is accepted wherever the record counts for nothing. -/
theorem zeroCall_accepted {state : Option StateEntry} (h : lastCounter allOps state = some (-1)) :
    (parseToken allOps zeroCall state).1 = true :=
  parseToken_eq_true_iff.mpr ⟨0, -1, zeroCall_counter, by decide, h, by decide, rfl, rfl⟩

/-- A file that is not secure counts as absent. -/
theorem lastCounter_insecure {e : StateEntry} (hsec : isSecureRegularFile (some e.mode) = false) :
    lastCounter allOps (some e) = some (-1) := by
  simp only [lastCounter, StateEntry.secure, hsec, Bool.false_eq_true, if_false]

/-- So does a number that does not fit. -/
theorem lastCounter_large {e : StateEntry} (hsec : isSecureRegularFile (some e.mode) = true)
    {last : Int} (h : wholeNumber (firstLine e.content) = some last)
    (hshort : (firstLine e.content).length < 128) (hbig : ¬ last < 2 ^ 63) :
    lastCounter allOps (some e) = some (-1) := by
  have hmem : ¬ InI64 last := fun hmem => hbig hmem.2
  simp only [lastCounter, StateEntry.secure, hsec, allOps, if_true, readLast_of_whole h,
    if_pos hshort, if_neg hmem]

/-- What is read of a secure file is no less than the number in it. -/
theorem le_of_lastCounter {e : StateEntry} (hsec : isSecureRegularFile (some e.mode) = true)
    {last : Int} (h : wholeNumber (firstLine e.content) = some last)
    (hfits : last < 2 ^ 63 ∨ 128 ≤ (firstLine e.content).length) {ops : FileOps} {last' : Int}
    (hlast : lastCounter ops (some e) = some last') : last ≤ last' := by
  simp only [lastCounter, StateEntry.secure, hsec, if_true, readLast_of_whole h] at hlast
  obtain ⟨-, hlast⟩ := Option.ite_none_right_eq_some.mp hlast
  obtain ⟨hlen, hlast⟩ := Option.ite_none_right_eq_some.mp hlast
  have hbound : last < 2 ^ 63 := hfits.resolve_right (Nat.not_le.mpr hlen)
  -- a number below the range is no 64-bit number either, and -1 is above it
  by_cases hmem : InI64 last
  · rw [if_pos hmem] at hlast
    exact Int.le_of_eq (Option.some.inj hlast)
  · rw [if_neg hmem] at hlast
    have hlow : last < -2 ^ 63 := by
      by_contra hge
      exact hmem ⟨Int.not_lt.mp hge, hbound⟩
    have hminus := Option.some.inj hlast
    omega

/-- **The record counts.**  For a state file whose first line is the number `last`, every token
    that is accepted has a greater counter and an insecure file is refused, if and only if the
    file is secure and the number is below 2^63, or its line too long to be read. -/
theorem record_respected_iff (e : StateEntry) (last : Int)
    (h : wholeNumber (firstLine e.content) = some last) :
    ((∀ ops call, (parseToken ops call (some e)).1 = true →
          ∃ c, tokenCounter call = some c ∧ last < c)
        ∧ (isSecureRegularFile (some e.mode) = false →
            ∀ ops call, (parseToken ops call (some e)).1 = false))
      ↔ isSecureRegularFile (some e.mode) = true
          ∧ (last < 2 ^ 63 ∨ 128 ≤ (firstLine e.content).length) := by
  constructor
  · rintro ⟨habove, hrefused⟩
    cases hsec : isSecureRegularFile (some e.mode) with
    | false =>
        have hacc := zeroCall_accepted (lastCounter_insecure hsec)
        rw [hrefused hsec allOps zeroCall] at hacc
        cases hacc
    | true =>
        refine ⟨rfl, ?_⟩
        by_contra hno
        obtain ⟨hbig, hshort⟩ := not_or.mp hno
        have hlast := lastCounter_large hsec h (Nat.not_le.mp hshort) hbig
        obtain ⟨c, hc, hlt⟩ := habove allOps zeroCall (zeroCall_accepted hlast)
        rw [zeroCall_counter] at hc
        obtain rfl := Option.some.inj hc
        omega
  · rintro ⟨hsec, hfits⟩
    refine ⟨?_, ?_⟩
    · intro ops call hacc
      obtain ⟨c, last', hc, -, hlast, hlt, -⟩ := parseToken_eq_true_iff.mp hacc
      exact ⟨c, hc, Int.lt_of_le_of_lt (le_of_lastCounter hsec h hfits hlast) hlt⟩
    · intro hno
      rw [hsec] at hno
      cases hno

/-- A record of the counter 7 that the group may write, and one behind a symbolic link. -/
def groupWritable : StateEntry := ⟨0o100660, ascii "7\n"⟩

def linked : StateEntry := ⟨0o120777, ascii "7\n"⟩

/-- Both are overwritten by a token with the counter 0. -/
theorem writable_record_ignored :
    wholeNumber (firstLine groupWritable.content) = some 7
      ∧ tokenCounter zeroCall = some 0
      ∧ parseToken allOps zeroCall (some groupWritable) = (true, some ⟨0o100660, ascii "0\n"⟩)
      ∧ parseToken allOps zeroCall (some linked) = (true, some ⟨0o120777, ascii "0\n"⟩) := by
  refine ⟨?_, ?_, ?_, ?_⟩ <;> decide +kernel

/-- A secure record of the counter 7. -/
theorem secure_record_respected :
    (∀ ops call, (parseToken ops call (some ⟨0o100600, ascii "7\n"⟩)).1 = true →
          ∃ c, tokenCounter call = some c ∧ 7 < c)
      ∧ (isSecureRegularFile (some 0o100600) = false →
          ∀ ops call, (parseToken ops call (some ⟨0o100600, ascii "7\n"⟩)).1 = false) :=
  (record_respected_iff ⟨0o100600, ascii "7\n"⟩ 7 (by decide +kernel)).mpr
    ⟨by decide, Or.inl (by decide)⟩

end SkvZigRecord

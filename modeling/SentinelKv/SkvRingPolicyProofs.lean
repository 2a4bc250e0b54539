import SentinelKv.SkvValidatorProofs

/-!
# Ring policy

`apply_ring_policy`: for ring -1 and ring -2 a verdict stands only behind a signed and
validated attestation token.  The validator is any function with a state of its own (the
replay state), so that a call of it can be told from no call.

* **`ring_policy_fail_closed`** — the policy answers Pass or Fail, exactly when it answers
  Pass, what the reported fingerprint and digest are, and that the validator is not reached
  before every other check has passed.
* **`root_key_independent_iff`** — for ring -2, the root key differs from the attestation
  key exactly when the two pinned fingerprints do; nothing in the policy compares them
  (**`one_key_passes_ring2`**).
-/

namespace SkvRingPolicy

open EarlyReturn SkvAnalyze SkvToken SkvSignature SkvValidator

-- ── Rings and options ────────────────────────────────────────────────────────────

inductive RingMode where
  | ring0 | ringM1 | ringM2
deriving DecidableEq, Repr

def RingMode.label : RingMode → String
  | .ring0 => "Ring 0"
  | .ringM1 => "Ring -1"
  | .ringM2 => "Ring -2"

def RingMode.tokenRing : RingMode → Option Int
  | .ring0 => none
  | .ringM1 => some (-1)
  | .ringM2 => some (-2)

/-- The attestation options of the command line. -/
structure Options where
  token              : Option Path
  maxAgeSec          : Nat
  nonce              : Option Bytes
  replayState        : Option Path
  pubkey             : Option Path
  signature          : Option Path
  keyFingerprint     : Option Text
  rootPubkey         : Option Path
  rootSignature      : Option Path
  rootKeyFingerprint : Option Text

/-- What the two verifications find in the file system. -/
structure PolicyMoments where
  attest : Moments
  root   : Moments

-- ── The policy ───────────────────────────────────────────────────────────────────

/-- `CString::new` succeeds. -/
def noNul (bs : Bytes) : Bool := !bs.contains 0

/-- Up to the attestation signature.  Nothing has been learnt about a key when this fails. -/
def attestedToken (h : Oracles) (io : Moments) (ring : RingMode) (o : Options) :
    Except String (Path × SignatureMeta) := do
  let token ← need o.token
    (ring.label ++ " requires C-validated attestation token (--attestation-token <path>)")
  ensure (noNul (h.lossy token)) "Attestation token path contains NUL byte"
  let pubkey ← need o.pubkey
    (ring.label ++ " requires --attestation-pubkey for signature verification")
  let sig ← need o.signature
    (ring.label ++ " requires --attestation-signature for signature verification")
  let expectedFp ← need o.keyFingerprint
    (ring.label ++ " requires --attestation-key-fingerprint for key pinning")
  let info ← (verifyAttestationSignature h io token pubkey sig expectedFp).mapError
    (fun e => ring.label ++ " attestation signature invalid: " ++ e)
  pure (token, info)

/-- The root checks of ring -2. -/
def rootAttested (h : Oracles) (io : Moments) (token : Path) (o : Options) : Except String Unit := do
  let rootPub ← need o.rootPubkey
    "Ring -2 requires --ring2-root-pubkey for independent root attestation"
  let rootSig ← need o.rootSignature
    "Ring -2 requires --ring2-root-signature for independent root attestation"
  let rootFp ← need o.rootKeyFingerprint
    "Ring -2 requires --ring2-root-key-fingerprint for root key pinning"
  let _ ← (verifyAttestationSignature h io token rootPub rootSig rootFp).mapError
    (fun e => "Ring -2 root signature invalid: " ++ e)
  pure ()

/-- `if matches!(ring, RingMode::RingM2)`. -/
def rootGate (h : Oracles) (io : Moments) (ring : RingMode) (token : Path) (o : Options) :
    Except String Unit :=
  if ring = .ringM2 then rootAttested h io token o else .ok ()

/-- From the attestation signature to the call of the validator. -/
def validatorCall (h : Oracles) (io : Moments) (ring : RingMode) (requiredRing : Int) (token : Path)
    (o : Options) : Except String ValidatorCall := do
  rootGate h io ring token o
  ensure (o.maxAgeSec != 0) "attestation max age must be > 0"
  ensure (decide (o.maxAgeSec ≤ 2 ^ 63 - 1)) "attestation max age is too large"
  let nonce ← need o.nonce (ring.label ++ " requires --attestation-nonce for anti-replay binding")
  ensure (noNul nonce) "attestation nonce contains NUL byte"
  let replay ← need o.replayState
    (ring.label ++ " requires --attestation-replay-state for replay protection")
  ensure (noNul (h.lossy replay)) "attestation replay state path contains NUL byte"
  pure ⟨h.lossy token, requiredRing, o.maxAgeSec, nonce, h.lossy replay⟩

/-- The final match on the verdict. -/
def strictVerdict (ring : RingMode) (result : AnalysisResult) : AnalysisResult :=
  match ring, result with
  | .ring0, r => r
  | _, .unknown reason =>
      .fail (ring.label ++ " strict policy rejected unresolved proof: " ++ reason)
  | _, r => r

/-- The verdict with the two pieces of metadata. -/
structure Outcome where
  result         : AnalysisResult
  keyFingerprint : Option Text
  tokenSha256    : Option Text
deriving DecidableEq

def Outcome.of (result : AnalysisResult) (info : Option SignatureMeta) : Outcome :=
  ⟨result, info.map (fun i => i.keyFingerprint), info.map (fun i => i.tokenSha256)⟩

variable {σ : Type}

/-- `apply_ring_policy`, with the state of the validator. -/
def applyRingPolicy (h : Oracles) (io : PolicyMoments) (validate : ValidatorCall → σ → Int × σ)
    (result : AnalysisResult) (ring : RingMode) (o : Options) (s : σ) : Outcome × σ :=
  match ring.tokenRing with
  | none => (.of (strictVerdict ring result) none, s)
  | some requiredRing =>
      match attestedToken h io.attest ring o with
      | .error e => (.of (.fail e) none, s)
      | .ok (token, info) =>
          match validatorCall h io.root ring requiredRing token o with
          | .error e => (.of (.fail e) (some info), s)
          | .ok call =>
              if (validate call s).1 ≠ 1 then
                (.of (.fail (ring.label ++ " attestation token validation failed")) (some info),
                  (validate call s).2)
              else (.of (strictVerdict ring result) (some info), (validate call s).2)

-- ── A sample deployment ──────────────────────────────────────────────────────────

/-- Oracles small enough to compute with: a digest repeats the first byte, base64 is the
    identity, and a signature repeats the key's first byte plus the message's length. -/
def sampleOracles : Oracles where
  euid := 1000
  display := fun _ => "path"
  lossy := id
  lossy_nul := fun _ => Iff.rfl
  utf8 := fun bs => some (bs.map (fun b => Char.ofNat b.toNat))
  base64 := fun s => some (s.map (fun c => UInt8.ofNat c.toNat))
  sha256 := fun bs => List.replicate 32 (bs.headD 0)
  keyValid := fun _ => true
  verify := fun key message signature =>
    signature == List.replicate 64 (key.headD 0 + UInt8.ofNat message.length)

def sampleToken : Bytes :=
  ascii "ring:-2\nattested:true\ntimestamp:90\nnonce:n\ncounter:12\nroot_attested:true\n"

def ownFile (content : Bytes) : File := ⟨true, 1000, 0o600, some content⟩

/-- The token at 1, keys at 2 and 5 with their signatures of the sample token at 3 and 6, and
    no replay state at 4 yet. -/
def sampleFs (token : Bytes) : Fs := fun path =>
  let signed (key : UInt8) := List.replicate 64 (key + UInt8.ofNat sampleToken.length)
  if path = [1] then some (ownFile token)
  else if path = [2] then some (ownFile (List.replicate 32 107))
  else if path = [3] then some (ownFile (signed 107))
  else if path = [5] then some (ownFile (List.replicate 32 108))
  else if path = [6] then some (ownFile (signed 108))
  else none

def samplePin (digits : Text) : Text := (List.replicate 32 digits).flatten

/-- The attestation key at 2; the root options are the caller's. -/
def sampleOptions (rootPubkey rootSignature : Path) (rootPin : Text) : Options where
  token := some [1]
  maxAgeSec := 60
  nonce := some (ascii "n")
  replayState := some [4]
  pubkey := some [2]
  signature := some [3]
  keyFingerprint := some (samplePin ['6', 'b'])
  rootPubkey := some rootPubkey
  rootSignature := some rootSignature
  rootKeyFingerprint := some rootPin

/-- The root key is the one at 5. -/
def twoKeys : Options := sampleOptions [5] [6] (samplePin ['6', 'C'])

/-- The attestation key, its signature and its fingerprint again as the root's. -/
def oneKey : Options := sampleOptions [2] [3] (samplePin ['6', 'b'])

/-- Nobody touches a file while the policy runs. -/
def sampleIo : PolicyMoments := ⟨fun _ => sampleFs sampleToken, fun _ => sampleFs sampleToken⟩

/-- The C validator, with the clock at 100. -/
def sampleValidator : ValidatorCall → Fs → Int × Fs :=
  validateAttestationToken 1000 ⟨sampleFs sampleToken, sampleFs sampleToken, 100⟩

-- ── When the validator is reached ────────────────────────────────────────────────

/-- The options of an attestation, all present. -/
structure Attested (h : Oracles) (io : Moments) (o : Options) (token pubkey signature : Path)
    (fingerprint : Text) (info : SignatureMeta) : Prop where
  hasToken       : o.token = some token
  tokenNul       : 0 ∉ token
  hasPubkey      : o.pubkey = some pubkey
  hasSignature   : o.signature = some signature
  hasFingerprint : o.keyFingerprint = some fingerprint
  signed         : verifyAttestationSignature h io token pubkey signature fingerprint = .ok info

/-- The three root options are present, and the root signature verifies the token. -/
structure RootAttested (h : Oracles) (io : Moments) (o : Options) (token pubkey signature : Path)
    (fingerprint : Text) (info : SignatureMeta) : Prop where
  hasPubkey      : o.rootPubkey = some pubkey
  hasSignature   : o.rootSignature = some signature
  hasFingerprint : o.rootKeyFingerprint = some fingerprint
  signed         : verifyAttestationSignature h io token pubkey signature fingerprint = .ok info

/-- Everything the policy checks between the signature and the validator. -/
structure CallReady (h : Oracles) (io : Moments) (ring : RingMode) (o : Options) (token : Path)
    (nonce : Bytes) (replay : Path) : Prop where
  root      : ring = .ringM2 → ∃ pubkey signature fingerprint info,
    RootAttested h io o token pubkey signature fingerprint info
  age       : 1 ≤ o.maxAgeSec ∧ o.maxAgeSec ≤ 2 ^ 63 - 1
  hasNonce  : o.nonce = some nonce
  nonceNul  : 0 ∉ nonce
  hasReplay : o.replayState = some replay
  replayNul : 0 ∉ replay

theorem noNul_iff {bs : Bytes} : noNul bs = true ↔ 0 ∉ bs := by
  unfold noNul
  rw [Bool.not_eq_true', ← Bool.not_eq_true, List.contains_iff_mem]

theorem attestedToken_ok_iff {h : Oracles} {io : Moments} {ring : RingMode} {o : Options}
    {token : Path} {info : SignatureMeta} :
    attestedToken h io ring o = .ok (token, info) ↔
      ∃ pubkey signature fingerprint, Attested h io o token pubkey signature fingerprint info := by
  unfold attestedToken
  simp only [bind_ok_iff, need_ok_iff, ensure_ok_iff, exists_const, pure_ok_iff, mapError_ok_iff,
    noNul_iff, h.lossy_nul]
  constructor
  · rintro ⟨t, ht, hnul, pubkey, hp, sig, hs, fp, hf, i, hv, heq⟩
    obtain ⟨rfl, rfl⟩ := Prod.mk.inj heq
    exact ⟨pubkey, sig, fp, ht, hnul, hp, hs, hf, hv⟩
  · rintro ⟨pubkey, sig, fp, ha⟩
    exact ⟨token, ha.hasToken, ha.tokenNul, pubkey, ha.hasPubkey, sig, ha.hasSignature, fp,
      ha.hasFingerprint, info, ha.signed, rfl⟩

theorem rootAttested_ok_iff {h : Oracles} {io : Moments} {token : Path} {o : Options} {u : Unit} :
    rootAttested h io token o = .ok u ↔
      ∃ pubkey signature fingerprint info,
        RootAttested h io o token pubkey signature fingerprint info := by
  unfold rootAttested
  simp only [bind_ok_iff, need_ok_iff, pure_ok_iff, mapError_ok_iff]
  constructor
  · rintro ⟨pubkey, hp, sig, hs, fp, hf, info, hv, -⟩
    exact ⟨pubkey, sig, fp, info, hp, hs, hf, hv⟩
  · rintro ⟨pubkey, sig, fp, info, hr⟩
    exact ⟨pubkey, hr.hasPubkey, sig, hr.hasSignature, fp, hr.hasFingerprint, info, hr.signed, trivial⟩

theorem rootGate_ok_iff {h : Oracles} {io : Moments} {ring : RingMode} {token : Path} {o : Options}
    {u : Unit} :
    rootGate h io ring token o = .ok u ↔
      (ring = .ringM2 → ∃ pubkey signature fingerprint info,
        RootAttested h io o token pubkey signature fingerprint info) := by
  unfold rootGate
  by_cases hr : ring = .ringM2
  · rw [if_pos hr, rootAttested_ok_iff]
    exact ⟨fun hx _ => hx, fun hx => hx hr⟩
  · rw [if_neg hr]
    exact ⟨fun _ hx => absurd hx hr, fun _ => rfl⟩

theorem validatorCall_ok_iff {h : Oracles} {io : Moments} {ring : RingMode} {requiredRing : Int}
    {token : Path} {o : Options} {call : ValidatorCall} :
    validatorCall h io ring requiredRing token o = .ok call ↔
      ∃ nonce replay, CallReady h io ring o token nonce replay
        ∧ call = ⟨h.lossy token, requiredRing, o.maxAgeSec, nonce, h.lossy replay⟩ := by
  unfold validatorCall
  simp only [bind_ok_iff, need_ok_iff, ensure_ok_iff, exists_const, pure_ok_iff, noNul_iff,
    h.lossy_nul, bne_iff_ne, decide_eq_true_eq, rootGate_ok_iff]
  constructor
  · rintro ⟨hroot, hage, hmax, nonce, hn, hnnul, replay, hr, hrnul, heq⟩
    exact ⟨nonce, replay, ⟨hroot, ⟨Nat.one_le_iff_ne_zero.mpr hage, hmax⟩, hn, hnnul, hr, hrnul⟩,
      heq.symm⟩
  · rintro ⟨nonce, replay, hc, rfl⟩
    exact ⟨hc.root, Nat.one_le_iff_ne_zero.mp hc.age.1, hc.age.2, nonce, hc.hasNonce, hc.nonceNul,
      replay, hc.hasReplay, hc.replayNul, rfl⟩

/-- Every check before the validator has passed, and these are its arguments. -/
def Reached (h : Oracles) (io : PolicyMoments) (ring : RingMode) (requiredRing : Int) (o : Options)
    (call : ValidatorCall) : Prop :=
  ∃ token pubkey signature fingerprint info nonce replay,
    Attested h io.attest o token pubkey signature fingerprint info
      ∧ CallReady h io.root ring o token nonce replay
      ∧ call = ⟨h.lossy token, requiredRing, o.maxAgeSec, nonce, h.lossy replay⟩

section Spec

variable {h : Oracles} {io : PolicyMoments} {ring : RingMode} {requiredRing : Int} {o : Options}

theorem reached_iff {call : ValidatorCall} :
    Reached h io ring requiredRing o call ↔
      ∃ token info, attestedToken h io.attest ring o = .ok (token, info)
        ∧ validatorCall h io.root ring requiredRing token o = .ok call := by
  constructor
  · rintro ⟨token, pubkey, sig, fp, info, nonce, replay, ha, hc, hcall⟩
    exact ⟨token, info, attestedToken_ok_iff.mpr ⟨pubkey, sig, fp, ha⟩,
      validatorCall_ok_iff.mpr ⟨nonce, replay, hc, hcall⟩⟩
  · rintro ⟨token, info, hatt, hval⟩
    obtain ⟨pubkey, sig, fp, ha⟩ := attestedToken_ok_iff.mp hatt
    obtain ⟨nonce, replay, hc, hcall⟩ := validatorCall_ok_iff.mp hval
    exact ⟨token, pubkey, sig, fp, info, nonce, replay, ha, hc, hcall⟩

/-- Outside ring 0 the final match leaves Pass and Fail only. -/
theorem strictVerdict_cases (hring : ring.tokenRing = some requiredRing) (result : AnalysisResult) :
    (strictVerdict ring result = .pass ∧ result = .pass)
      ∨ (∃ msg, strictVerdict ring result = .fail msg) ∧ result ≠ .pass := by
  cases ring with
  | ring0 => exact nomatch hring
  | ringM1 | ringM2 =>
      cases result with
      | pass => exact Or.inl ⟨rfl, rfl⟩
      | fail msg => exact Or.inr ⟨⟨msg, rfl⟩, by rintro ⟨⟩⟩
      | unknown reason => exact Or.inr ⟨⟨_, rfl⟩, by rintro ⟨⟩⟩

/-- What is reported about the key comes from the attestation signature. -/
def MetaOk (h : Oracles) (io : PolicyMoments) (o : Options) (out : Outcome) : Prop :=
  ∀ f, out.keyFingerprint = some f →
    ∃ tokenPath pubkey signature fingerprint info token key sig,
      Attested h io.attest o tokenPath pubkey signature fingerprint info
        ∧ Verified h io.attest tokenPath pubkey signature fingerprint token key sig
        ∧ normalizeFingerprint fingerprint = .ok f
        ∧ out.tokenSha256 = some (hexEncode (h.sha256 token))

theorem metaOk_of_attested {token : Path} {info : SignatureMeta}
    (hatt : attestedToken h io.attest ring o = .ok (token, info)) (result : AnalysisResult) :
    MetaOk h io o (.of result (some info)) := by
  intro f hf
  obtain ⟨pubkey, sigPath, fp, ha⟩ := attestedToken_ok_iff.mp hatt
  obtain ⟨bytes, key, sig, hv, hinfo⟩ := verify_ok_iff.mp ha.signed
  obtain rfl : info.keyFingerprint = f := Option.some.inj hf
  refine ⟨token, pubkey, sigPath, fp, info, bytes, key, sig, ha, hv, ?_, ?_⟩
  · rw [hinfo]
    exact hv.pinned
  · rw [hinfo]
    rfl

/-- The policy as a whole: it stops before the validator and fails, or it calls the validator
    and the verdict stands only if that returns 1. -/
theorem applyRingPolicy_cases {σ : Type} (validate : ValidatorCall → σ → Int × σ)
    (hring : ring.tokenRing = some requiredRing) (result : AnalysisResult) (s : σ) :
    ((∀ call, ¬ Reached h io ring requiredRing o call)
        ∧ ∃ msg info, applyRingPolicy h io validate result ring o s = (.of (.fail msg) info, s)
            ∧ MetaOk h io o (.of (.fail msg) info))
      ∨ ∃ call info, Reached h io ring requiredRing o call
          ∧ (∀ call', Reached h io ring requiredRing o call' → call' = call)
          ∧ (∀ r, MetaOk h io o (.of r (some info)))
          ∧ applyRingPolicy h io validate result ring o s
              = (.of (if (validate call s).1 ≠ 1
                  then .fail (ring.label ++ " attestation token validation failed")
                  else strictVerdict ring result) (some info), (validate call s).2) := by
  unfold applyRingPolicy
  rw [hring]
  cases hatt : attestedToken h io.attest ring o with
  | error e =>
      refine Or.inl ⟨fun call hr => ?_, e, none, rfl, fun f hf => nomatch hf⟩
      obtain ⟨token, info, hok, -⟩ := reached_iff.mp hr
      exact nomatch hatt.symm.trans hok
  | ok att =>
      obtain ⟨token, info⟩ := att
      cases hcall : validatorCall h io.root ring requiredRing token o with
      | error e =>
          refine Or.inl ⟨fun call hr => ?_, e, some info, ?_, metaOk_of_attested hatt _⟩
          · obtain ⟨token', info', hok, hval⟩ := reached_iff.mp hr
            obtain ⟨rfl, rfl⟩ := Prod.mk.inj (Except.ok.inj (hatt.symm.trans hok))
            exact nomatch hcall.symm.trans hval
          · show (match validatorCall h io.root ring requiredRing token o with
              | .error e => _ | .ok call => _) = _
            rw [hcall]
      | ok call =>
          refine Or.inr ⟨call, info, reached_iff.mpr ⟨token, info, hatt, hcall⟩, ?_,
            metaOk_of_attested hatt, ?_⟩
          · intro call' hr
            obtain ⟨token', info', hok, hval⟩ := reached_iff.mp hr
            obtain ⟨rfl, rfl⟩ := Prod.mk.inj (Except.ok.inj (hatt.symm.trans hok))
            exact Except.ok.inj (hval.symm.trans hcall)
          · show (match validatorCall h io.root ring requiredRing token o with
              | .error e => _ | .ok call => _) = _
            rw [hcall]
            show (if _ then _ else _) = _
            by_cases hok : (validate call s).1 ≠ 1
            · rw [if_pos hok, if_pos hok]
            · rw [if_neg hok, if_neg hok]

end Spec

-- ── Fail-closed ──────────────────────────────────────────────────────────────────

/-- **The ring policy is fail-closed.**  Outside ring 0, for every verdict, every combination of
    options and whatever the files hold: Pass or Fail, never Unknown; Pass exactly behind
    every check and a validator that returns 1; a fingerprint is reported only from a verified
    signature; and the validator's state is untouched unless every other check has passed. -/
theorem ring_policy_fail_closed {σ : Type} (h : Oracles) (io : PolicyMoments)
    (validate : ValidatorCall → σ → Int × σ) (result : AnalysisResult) (ring : RingMode)
    (requiredRing : Int) (hring : ring.tokenRing = some requiredRing) (o : Options) (s : σ) :
    ((applyRingPolicy h io validate result ring o s).1.result = .pass
        ∨ ∃ msg, (applyRingPolicy h io validate result ring o s).1.result = .fail msg)
      ∧ ((applyRingPolicy h io validate result ring o s).1.result = .pass ↔
          result = .pass
            ∧ ∃ call, Reached h io ring requiredRing o call ∧ (validate call s).1 = 1)
      ∧ MetaOk h io o (applyRingPolicy h io validate result ring o s).1
      ∧ ((∀ call, ¬ Reached h io ring requiredRing o call) →
          (applyRingPolicy h io validate result ring o s).2 = s)
      ∧ (∀ call, Reached h io ring requiredRing o call →
          (applyRingPolicy h io validate result ring o s).2 = (validate call s).2) := by
  rcases applyRingPolicy_cases (h := h) (o := o) validate hring result s with
    ⟨hnot, msg, info, heq, hmeta⟩ | ⟨call, info, hreach, huniq, hmeta, heq⟩
  · rw [heq]
    refine ⟨Or.inr ⟨msg, rfl⟩, ?_, hmeta, fun _ => rfl, fun call hr => absurd hr (hnot call)⟩
    constructor
    · intro hp
      exact nomatch hp
    · rintro ⟨-, call, hr, -⟩
      exact absurd hr (hnot call)
  · rw [heq]
    refine ⟨?_, ?_, hmeta _, fun hn => absurd hreach (hn call), fun call' hr => ?_⟩
    · by_cases hok : (validate call s).1 ≠ 1
      · rw [if_pos hok]
        exact Or.inr ⟨_, rfl⟩
      · rw [if_neg hok]
        rcases strictVerdict_cases hring result with ⟨hv, -⟩ | ⟨⟨msg, hv⟩, -⟩
        · exact Or.inl hv
        · exact Or.inr ⟨msg, hv⟩
    · constructor
      · intro hp
        by_cases hok : (validate call s).1 ≠ 1
        · rw [if_pos hok] at hp
          exact nomatch hp
        · rw [if_neg hok] at hp
          rcases strictVerdict_cases hring result with ⟨-, hr⟩ | ⟨⟨msg, hv⟩, -⟩
          · exact ⟨hr, call, hreach, not_not.mp hok⟩
          · exact nomatch hv.symm.trans hp
      · rintro ⟨hr, call', hreach', hone⟩
        rw [huniq call' hreach'] at hone
        rw [if_neg (not_not.mpr hone), hr]
        rcases strictVerdict_cases hring AnalysisResult.pass with ⟨hv, -⟩ | ⟨-, hne⟩
        · exact hv
        · exact absurd rfl hne
    · rw [huniq call' hr]

/-- Two keys, two pins, a valid token: ring -2 passes, and so every check was passed. -/
theorem sample_passes :
    (applyRingPolicy sampleOracles sampleIo sampleValidator .pass .ringM2 twoKeys
        (sampleFs sampleToken)).1.result = .pass
      ∧ ∃ call, Reached sampleOracles sampleIo .ringM2 (-2)
          twoKeys call := by
  have hpass : (applyRingPolicy sampleOracles sampleIo sampleValidator .pass .ringM2 twoKeys
        (sampleFs sampleToken)).1.result = .pass := by
    decide +kernel
  obtain ⟨-, hiff, -⟩ := ring_policy_fail_closed sampleOracles sampleIo sampleValidator .pass .ringM2
    (-2) rfl twoKeys (sampleFs sampleToken)
  obtain ⟨-, call, hreach, -⟩ := hiff.mp hpass
  exact ⟨hpass, call, hreach⟩

-- ── Two keys, or one ─────────────────────────────────────────────────────────────

/-- The bytes and the key of the attestation signature that was verified. -/
def AttestedBy (h : Oracles) (io : PolicyMoments) (o : Options) (token key : Bytes) : Prop :=
  ∃ tokenPath pubkey signature fingerprint info sig,
    Attested h io.attest o tokenPath pubkey signature fingerprint info
      ∧ Verified h io.attest tokenPath pubkey signature fingerprint token key sig

/-- The bytes and the key of the root signature that was verified. -/
def RootAttestedBy (h : Oracles) (io : PolicyMoments) (o : Options) (token key : Bytes) : Prop :=
  ∃ tokenPath pubkey signature fingerprint info sig,
    o.token = some tokenPath
      ∧ RootAttested h io.root o tokenPath pubkey signature fingerprint info
      ∧ Verified h io.root tokenPath pubkey signature fingerprint token key sig

/-- A fingerprint option as the program compares it. -/
def pinned (value : Text) : Text := toAsciiLowercase (trim value)

/-- The two fingerprints on the command line name different keys. -/
def PinsDiffer (o : Options) : Prop :=
  o.keyFingerprint.map pinned ≠ o.rootKeyFingerprint.map pinned

instance (o : Options) : Decidable (PinsDiffer o) := inferInstanceAs (Decidable (_ ≠ _))

theorem normalizeFingerprint_ok {value fp : Text}
    (h : normalizeFingerprint value = .ok fp) : pinned value = fp := by
  obtain ⟨u, -, hp⟩ := bind_ok_iff.mp h
  exact Except.ok.inj hp

/-- The policy does not fail outside ring 0 unless the validator was reached. -/
theorem reached_of_not_fail {σ : Type} {h : Oracles} {io : PolicyMoments}
    {validate : ValidatorCall → σ → Int × σ} {result : AnalysisResult} {ring : RingMode}
    {requiredRing : Int} {o : Options} {s : σ} (hring : ring.tokenRing = some requiredRing)
    (hout : (applyRingPolicy h io validate result ring o s).1.result.isFail = false) :
    ∃ call, Reached h io ring requiredRing o call ∧ (validate call s).1 = 1 := by
  rcases applyRingPolicy_cases (h := h) (o := o) validate hring result s with
    ⟨-, msg, info, heq, -⟩ | ⟨call, info, hreach, -, -, heq⟩
  · rw [heq] at hout
    exact nomatch hout
  · refine ⟨call, hreach, ?_⟩
    rw [heq] at hout
    by_cases hok : (validate call s).1 ≠ 1
    · rw [if_pos hok] at hout
      exact nomatch hout
    · exact not_not.mp hok

theorem attestedBy_pinned {h : Oracles} {io : PolicyMoments} {o : Options}
    {token key : Bytes} (hk : AttestedBy h io o token key) :
    o.keyFingerprint.map pinned = some (hexEncode (h.sha256 key)) := by
  obtain ⟨_, _, _, fp, _, _, ha, hv⟩ := hk
  rw [ha.hasFingerprint]
  exact congrArg some (normalizeFingerprint_ok hv.pinned)

theorem rootAttestedBy_pinned {h : Oracles} {io : PolicyMoments} {o : Options}
    {token key : Bytes} (hk : RootAttestedBy h io o token key) :
    o.rootKeyFingerprint.map pinned = some (hexEncode (h.sha256 key)) := by
  obtain ⟨_, _, _, fp, _, _, -, ha, hv⟩ := hk
  rw [ha.hasFingerprint]
  exact congrArg some (normalizeFingerprint_ok hv.pinned)

theorem attestedBy_of_reached {h : Oracles} {io : PolicyMoments} {ring : RingMode}
    {requiredRing : Int} {o : Options} {call : ValidatorCall}
    (hr : Reached h io ring requiredRing o call) : ∃ token key, AttestedBy h io o token key := by
  obtain ⟨token, pubkey, signature, fp, info, nonce, replay, ha, -, -⟩ := hr
  obtain ⟨bytes, key, sig, hv, -⟩ := verify_ok_iff.mp ha.signed
  exact ⟨bytes, key, token, pubkey, signature, fp, info, sig, ha, hv⟩

/-- Ring -2 has a key behind the root signature as well. -/
theorem rootAttestedBy_of_reached {h : Oracles} {io : PolicyMoments} {requiredRing : Int}
    {o : Options} {call : ValidatorCall} (hr : Reached h io .ringM2 requiredRing o call) :
    ∃ token key, RootAttestedBy h io o token key := by
  obtain ⟨token, pubkey, signature, fp, info, nonce, replay, ha, hc, -⟩ := hr
  obtain ⟨rootPub, rootSig, rootFp, rootInfo, hroot⟩ := hc.root rfl
  obtain ⟨bytes, key, sig, hv, -⟩ := verify_ok_iff.mp hroot.signed
  exact ⟨bytes, key, token, rootPub, rootSig, rootFp, rootInfo, sig, ha.hasToken, hroot, hv⟩

/-- **Independence of the root key.**  Whenever ring -2 does not fail, the two signatures were
    verified by different keys with different fingerprints exactly when the fingerprints on
    the command line differ. -/
theorem root_key_independent_iff {σ : Type} (h : Oracles) (io : PolicyMoments)
    (validate : ValidatorCall → σ → Int × σ) (result : AnalysisResult) (o : Options) (s : σ)
    (hout : (applyRingPolicy h io validate result .ringM2 o s).1.result.isFail = false) :
    (∃ token key, AttestedBy h io o token key)
      ∧ (∃ token key, RootAttestedBy h io o token key)
      ∧ ∀ token key rootToken rootKey,
          AttestedBy h io o token key → RootAttestedBy h io o rootToken rootKey →
          ((key ≠ rootKey ∧ hexEncode (h.sha256 key) ≠ hexEncode (h.sha256 rootKey))
            ↔ PinsDiffer o) := by
  obtain ⟨call, hreach, -⟩ := reached_of_not_fail rfl hout
  refine ⟨attestedBy_of_reached hreach, rootAttestedBy_of_reached hreach, ?_⟩
  intro token key rootToken rootKey hk hrk
  unfold PinsDiffer
  rw [attestedBy_pinned hk, rootAttestedBy_pinned hrk]
  constructor
  · rintro ⟨-, hfp⟩ heq
    exact hfp (Option.some.inj heq)
  · intro hne
    have hfp : hexEncode (h.sha256 key) ≠ hexEncode (h.sha256 rootKey) :=
      fun heq => hne (congrArg some heq)
    refine ⟨?_, hfp⟩
    rintro rfl
    exact hfp rfl

/-- Different pins on the command line: the root key is another key. -/
theorem sample_keys_differ :
    ∃ token key rootToken rootKey, AttestedBy sampleOracles sampleIo twoKeys token key
      ∧ RootAttestedBy sampleOracles sampleIo twoKeys rootToken rootKey ∧ key ≠ rootKey := by
  obtain ⟨⟨token, key, hk⟩, ⟨rootToken, rootKey, hr⟩, hiff⟩ :=
    root_key_independent_iff sampleOracles sampleIo sampleValidator .pass twoKeys
      (sampleFs sampleToken) (by decide +kernel)
  have hne := ((hiff token key rootToken rootKey hk hr).mpr (by decide +kernel)).1
  exact ⟨token, key, rootToken, rootKey, hk, hr, hne⟩

/-- With one key for both, ring -2 passes, and whatever keys verified the two signatures are
    the same. -/
theorem one_key_passes_ring2 :
    (applyRingPolicy sampleOracles sampleIo sampleValidator .pass .ringM2 oneKey
        (sampleFs sampleToken)).1.result = .pass
      ∧ ∀ token key rootToken rootKey, AttestedBy sampleOracles sampleIo oneKey token key →
          RootAttestedBy sampleOracles sampleIo oneKey rootToken rootKey → key = rootKey := by
  refine ⟨by decide +kernel, ?_⟩
  rintro token key rootToken rootKey ⟨_, pubkey, _, _, _, _, ha, hv⟩
    ⟨_, rootPubkey, _, _, _, _, -, hra, hrv⟩
  -- both keys are decoded from the file at 2, which does not change in between
  obtain rfl : [2] = pubkey := Option.some.inj ha.hasPubkey
  obtain rfl : [2] = rootPubkey := Option.some.inj hra.hasPubkey
  exact Option.some.inj (hv.keyRead.symm.trans hrv.keyRead)

end SkvRingPolicy

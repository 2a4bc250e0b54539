import SentinelKv.EarlyReturnProofs
import SentinelKv.SkvAnalyzeProofs
import SentinelKv.SkvTokenProofs

/-!
# Detached signatures over the token

`verify_attestation_signature` with the file checks and the fingerprint normalisation it
calls.  Ed25519, SHA-256, base64 and the text conversions of the standard library are
parameters (`Oracles`); every access to the file system sees it at a moment of its own, so other
processes may act between any two of them.

**`verify_ok_iff`** is what a success says: which bytes were read as the token, which key
verified them, and that the key is the pinned one.
-/

namespace SkvSignature

open EarlyReturn SkvToken
open SkvAnalyze (trim toAsciiLowercase)

abbrev Path := Bytes

/-- A string the program looks into. -/
abbrev Text := List Char

-- ── The outside world ────────────────────────────────────────────────────────────

/-- What lies outside the program.  `lossy` gives the bytes of a path's text with invalid
    sequences replaced, which neither adds nor removes a NUL. -/
structure Oracles where
  euid      : Nat
  display   : Path → String
  lossy     : Path → Path
  lossy_nul : ∀ p, 0 ∈ lossy p ↔ 0 ∈ p
  utf8      : Bytes → Option Text
  base64    : Text → Option Bytes
  sha256    : Bytes → Bytes
  /-- `VerifyingKey::from_bytes` succeeds. -/
  keyValid  : Bytes → Bool
  /-- `key.verify(message, signature)` succeeds. -/
  verify    : (key message signature : Bytes) → Bool

/-- A directory entry: what `lstat` says, and what opening the path and reading it gives. -/
structure File where
  regular : Bool
  uid     : Nat
  mode    : Nat
  content : Option Bytes
deriving DecidableEq, Repr

abbrev Fs := Path → Option File

/-- `fs::read`. -/
def readFile (fs : Fs) (path : Path) : Option Bytes := (fs path).bind (fun f => f.content)

/-- `fs::read_to_string`. -/
def readToString (h : Oracles) (fs : Fs) (path : Path) : Option Text :=
  (readFile fs path).bind h.utf8

/-- The mode gives write permission to the group or to others. -/
def File.othersWrite (f : File) : Bool := f.mode &&& 0o022 != 0

/-- Regular, owned by `euid`, and not writable by anybody else. -/
def File.secure (euid : Nat) (f : File) : Bool := f.regular && f.uid == euid && !f.othersWrite

/-- `ensure_secure_owned_file`. -/
def ensureSecureOwnedFile (h : Oracles) (fs : Fs) (path : Path) (label : String) :
    Except String Unit := do
  let f ← need (fs path) ("Failed to stat " ++ label ++ ": " ++ h.display path)
  ensure f.regular (label ++ " must be a regular file")
  ensure (f.uid == h.euid) (label ++ " must be owned by current effective user")
  ensure (!f.othersWrite) (label ++ " must not be group/world writable")

-- ── Text ─────────────────────────────────────────────────────────────────────────

/-- `char::is_ascii_hexdigit`. -/
def isAsciiHexdigit (c : Char) : Bool :=
  ('0' ≤ c && c ≤ '9') || ('a' ≤ c && c ≤ 'f') || ('A' ≤ c && c ≤ 'F')

def hexDigit (n : Nat) : Char := if n < 10 then Char.ofNat (48 + n) else Char.ofNat (87 + n)

/-- `hex::encode`. -/
def hexEncode (bs : Bytes) : Text :=
  bs.flatMap (fun b => [hexDigit (b.toNat / 16), hexDigit (b.toNat % 16)])

/-- `normalize_fingerprint`.  Its length is counted in bytes; of hex digits, one each. -/
def normalizeFingerprint (value : Text) : Except String Text := do
  let fp := toAsciiLowercase (trim value)
  ensure ((fp.map Char.utf8Size).sum == 64 && fp.all isAsciiHexdigit)
    "fingerprint must be exactly 64 hex characters"
  pure fp

-- ── The verifier ─────────────────────────────────────────────────────────────────

structure SignatureMeta where
  keyFingerprint : Text
  tokenSha256    : Text
deriving DecidableEq, Repr

/-- The accesses of one verification to the file system. -/
inductive Access where
  | statPubkey | statSignature | readToken | readPubkey | readSignature

/-- What each access finds. -/
abbrev Moments := Access → Fs

/-- The bytes a base64 file stands for. -/
def decodeFile (h : Oracles) (fs : Fs) (path : Path) : Option Bytes :=
  (readToString h fs path).bind (fun s => h.base64 (trim s))

/-- `verify_attestation_signature`. -/
def verifyAttestationSignature (h : Oracles) (io : Moments) (tokenPath pubkeyPath signaturePath : Path)
    (expectedKeyFingerprint : Text) : Except String SignatureMeta := do
  ensureSecureOwnedFile h (io .statPubkey) pubkeyPath "attestation pubkey"
  ensureSecureOwnedFile h (io .statSignature) signaturePath "attestation signature"
  let token ← need (readFile (io .readToken) tokenPath)
    ("Failed reading attestation token: " ++ h.display tokenPath)
  let pubkeyB64 ← need (readToString h (io .readPubkey) pubkeyPath)
    ("Failed reading attestation pubkey: " ++ h.display pubkeyPath)
  let sigB64 ← need (readToString h (io .readSignature) signaturePath)
    ("Failed reading attestation signature: " ++ h.display signaturePath)
  let key ← need (h.base64 (trim pubkeyB64))
    "Failed decoding base64 attestation pubkey"
  let sig ← need (h.base64 (trim sigB64))
    "Failed decoding base64 attestation signature"
  ensure (key.length == 32) "attestation pubkey must decode to 32 bytes"
  ensure (sig.length == 64) "attestation signature must decode to 64 bytes"
  ensure (h.keyValid key) "invalid ed25519 pubkey"
  ensure (h.verify key token sig) "ed25519 signature verification failed"
  let keyFp := hexEncode (h.sha256 key)
  let expectedNorm ← normalizeFingerprint expectedKeyFingerprint
  ensure (keyFp == expectedNorm) "attestation key fingerprint mismatch"
  pure ⟨keyFp, hexEncode (h.sha256 token)⟩

-- ── What a success says ──────────────────────────────────────────────────────────

/-- The file at a path exists and is secure. -/
def SecureAt (h : Oracles) (fs : Fs) (path : Path) : Prop :=
  ∃ f, fs path = some f ∧ f.secure h.euid = true

theorem ensureSecureOwnedFile_ok_iff {h : Oracles} {fs : Fs} {path : Path} {label : String} :
    ensureSecureOwnedFile h fs path label = .ok () ↔ SecureAt h fs path := by
  unfold ensureSecureOwnedFile SecureAt
  simp only [bind_ok_iff, need_ok_iff, ensure_ok_iff, exists_const, File.secure, Bool.and_eq_true,
    and_assoc]

/-- A key and a signature, decoded from their files, that verify the token's bytes under the
    pinned fingerprint. -/
structure Verified (h : Oracles) (io : Moments) (tokenPath pubkeyPath signaturePath : Path)
    (expected : Text) (token key sig : Bytes) : Prop where
  pubkeyFile    : SecureAt h (io .statPubkey) pubkeyPath
  signatureFile : SecureAt h (io .statSignature) signaturePath
  tokenRead     : readFile (io .readToken) tokenPath = some token
  keyRead       : decodeFile h (io .readPubkey) pubkeyPath = some key
  sigRead       : decodeFile h (io .readSignature) signaturePath = some sig
  keyLength     : key.length = 32
  sigLength     : sig.length = 64
  keyValid      : h.keyValid key = true
  verifies      : h.verify key token sig = true
  pinned        : normalizeFingerprint expected = .ok (hexEncode (h.sha256 key))

/-- **A verification succeeds** iff some token, key and signature are read that verify. -/
theorem verify_ok_iff {h : Oracles} {io : Moments} {tokenPath pubkeyPath signaturePath : Path}
    {expected : Text} {info : SignatureMeta} :
    verifyAttestationSignature h io tokenPath pubkeyPath signaturePath expected = .ok info ↔
      ∃ token key sig, Verified h io tokenPath pubkeyPath signaturePath expected token key sig
        ∧ info = ⟨hexEncode (h.sha256 key), hexEncode (h.sha256 token)⟩ := by
  unfold verifyAttestationSignature
  simp only [bind_ok_iff, need_ok_iff, ensure_ok_iff, exists_const, pure_ok_iff, beq_iff_eq]
  constructor
  · rintro ⟨_, hpub, _, hsigf, token, htoken, pubkeyB64, hpk, sigB64, hsb, key, hkey, sig, hsig,
      hklen, hslen, hvalid, hverify, _, hnorm, rfl, rfl⟩
    refine ⟨token, key, sig, ?_, rfl⟩
    exact ⟨ensureSecureOwnedFile_ok_iff.mp hpub, ensureSecureOwnedFile_ok_iff.mp hsigf, htoken,
      Option.bind_eq_some_iff.mpr ⟨pubkeyB64, hpk, hkey⟩,
      Option.bind_eq_some_iff.mpr ⟨sigB64, hsb, hsig⟩, hklen, hslen, hvalid, hverify, hnorm⟩
  · rintro ⟨token, key, sig, hv, rfl⟩
    obtain ⟨pubkeyB64, hpk, hkey⟩ := Option.bind_eq_some_iff.mp hv.keyRead
    obtain ⟨sigB64, hsb, hsig⟩ := Option.bind_eq_some_iff.mp hv.sigRead
    exact ⟨(), ensureSecureOwnedFile_ok_iff.mpr hv.pubkeyFile, (),
      ensureSecureOwnedFile_ok_iff.mpr hv.signatureFile, token, hv.tokenRead, pubkeyB64, hpk, sigB64,
      hsb, key, hkey, sig, hsig, hv.keyLength, hv.sigLength, hv.keyValid, hv.verifies, _,
      hv.pinned, rfl, rfl⟩

end SkvSignature

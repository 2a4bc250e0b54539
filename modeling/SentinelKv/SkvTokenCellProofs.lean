import SentinelKv.SkvRingPolicyProofs

/-!
# The token that is verified and the token that is validated

`apply_ring_policy` opens the token path once for each signature and once more inside the
validator.  Here another process replaces the file at that path whenever it likes, always by
a file that passes the ownership and mode checks.

**`validated_token_signed_iff`** — when the policy does not fail, the bytes the validator
accepted are the bytes whose signatures were verified exactly when the replacements between
the reads put the same bytes back; **`replaced_token_passes`** is a run in which they do not.
-/

namespace SkvTokenCell

open SkvAnalyze SkvToken SkvSignature SkvValidator SkvRingPolicy

-- ── Replacements ─────────────────────────────────────────────────────────────────

/-- A file that passes the checks of the validator. -/
structure TokenFile (euid : Nat) where
  file     : File
  bytes    : Bytes
  readable : file.content = some bytes
  secure   : file.secure euid = true

/-- The cell after some replacements. -/
def settle {euid : Nat} (f : TokenFile euid) (replacements : List (TokenFile euid)) : TokenFile euid :=
  replacements.foldl (fun _ g => g) f

/-- An interleaving: the file the first verification reads, and the replacements before each
    later look at the path.  Ring -1 has no root signature; what is replaced before it is
    then simply replaced before `lstat`. -/
structure Interference (euid : Nat) where
  first       : TokenFile euid
  beforeRoot  : List (TokenFile euid)
  beforeLstat : List (TokenFile euid)
  beforeFopen : List (TokenFile euid)

variable {euid : Nat}

def Interference.atRoot (i : Interference euid) : TokenFile euid := settle i.first i.beforeRoot

def Interference.atLstat (i : Interference euid) : TokenFile euid := settle i.atRoot i.beforeLstat

def Interference.atFopen (i : Interference euid) : TokenFile euid := settle i.atLstat i.beforeFopen

/-- The file system with the cell at a path. -/
def withCell (fs : Fs) (path : Path) (f : TokenFile euid) : Fs := Function.update fs path (some f.file)

/-- What the verifications find. -/
def cellIo (io : PolicyMoments) (path : Path) (i : Interference euid) : PolicyMoments where
  attest := fun a => withCell (io.attest a) path i.first
  root := fun a => withCell (io.root a) path i.atRoot

/-- What the validator finds. -/
def cellSeen (seen : Seen) (path : Path) (i : Interference euid) : Seen where
  lstat := withCell seen.lstat path i.atLstat
  fopen := withCell seen.fopen path i.atFopen
  now := seen.now

/-- A run of the policy in which the token path is the cell. -/
def cellPolicy (h : Oracles) (io : PolicyMoments) (seen : Seen) (path : Path)
    (i : Interference h.euid) (result : AnalysisResult) (ring : RingMode) (o : Options) (fs : Fs) :
    Outcome × Fs :=
  applyRingPolicy h (cellIo io path i)
    (validateAttestationToken h.euid (cellSeen seen path i)) result ring o fs

-- ── What was verified ────────────────────────────────────────────────────────────

/-- These bytes were verified in the call, for ring -2 by both signatures. -/
def SignedInCall (h : Oracles) (io : PolicyMoments) (ring : RingMode) (o : Options)
    (token : Bytes) : Prop :=
  (∃ key, AttestedBy h io o token key)
    ∧ (ring = .ringM2 → ∃ key, RootAttestedBy h io o token key)

/-- What `fopen` finds.  The C side is handed the lossily converted path, which is the cell
    only for valid UTF-8 (`openedBytes_utf8`). -/
def openedBytes (h : Oracles) (seen : Seen) (path : Path) (i : Interference h.euid) : Option Bytes :=
  readFile (cellSeen seen path i).fopen (h.lossy path)

/-- Each later read finds the bytes of the first: the last replacement before it, if there is
    one, puts them back. -/
def Undisturbed (h : Oracles) (seen : Seen) (path : Path) (ring : RingMode)
    (i : Interference h.euid) : Prop :=
  openedBytes h seen path i = some i.first.bytes
    ∧ (ring = .ringM2 → i.atRoot.bytes = i.first.bytes)

theorem readFile_withCell (fs : Fs) (path : Path) (f : TokenFile euid) :
    readFile (withCell fs path f) path = some f.bytes := by
  unfold readFile withCell
  rw [Function.update_self]
  exact f.readable

theorem openedBytes_utf8 {h : Oracles} {seen : Seen} {path : Path} {i : Interference h.euid}
    (hutf8 : h.lossy path = path) : openedBytes h seen path i = some i.atFopen.bytes := by
  unfold openedBytes
  rw [hutf8]
  exact readFile_withCell _ _ _

/-- The attestation signature was verified on the first bytes, and no others. -/
theorem attestedBy_cell {h : Oracles} {io : PolicyMoments} {path : Path} {i : Interference euid}
    {o : Options} {token key : Bytes} (hpath : o.token = some path)
    (hk : AttestedBy h (cellIo io path i) o token key) : token = i.first.bytes := by
  obtain ⟨tokenPath, _, _, _, _, _, ha, hv⟩ := hk
  obtain rfl : path = tokenPath := Option.some.inj (hpath.symm.trans ha.hasToken)
  exact Option.some.inj (hv.tokenRead.symm.trans (readFile_withCell _ _ _))

theorem rootAttestedBy_cell {h : Oracles} {io : PolicyMoments} {path : Path}
    {i : Interference euid} {o : Options} {token key : Bytes} (hpath : o.token = some path)
    (hk : RootAttestedBy h (cellIo io path i) o token key) : token = i.atRoot.bytes := by
  obtain ⟨tokenPath, _, _, _, _, _, htoken, -, hv⟩ := hk
  obtain rfl : path = tokenPath := Option.some.inj (hpath.symm.trans htoken)
  exact Option.some.inj (hv.tokenRead.symm.trans (readFile_withCell _ _ _))

/-- The bytes signed in a call that reached the validator. -/
theorem signedInCall_iff {h : Oracles} {io : PolicyMoments} {path : Path} {i : Interference euid}
    {ring : RingMode} {requiredRing : Int} {o : Options} {call : ValidatorCall}
    (hpath : o.token = some path) (hr : Reached h (cellIo io path i) ring requiredRing o call)
    (token : Bytes) :
    SignedInCall h (cellIo io path i) ring o token ↔
      token = i.first.bytes ∧ (ring = .ringM2 → i.atRoot.bytes = i.first.bytes) := by
  constructor
  · rintro ⟨⟨key, hk⟩, hroot⟩
    have hfirst := attestedBy_cell hpath hk
    refine ⟨hfirst, fun hm2 => ?_⟩
    obtain ⟨rootKey, hrk⟩ := hroot hm2
    exact (rootAttestedBy_cell hpath hrk).symm.trans hfirst
  · rintro ⟨hfirst, hroot⟩
    refine ⟨?_, fun hm2 => ?_⟩
    · obtain ⟨signed, key, hk⟩ := attestedBy_of_reached hr
      rw [hfirst, ← attestedBy_cell hpath hk]
      exact ⟨key, hk⟩
    · obtain ⟨signed, key, hk⟩ := rootAttestedBy_of_reached (hm2 ▸ hr)
      rw [hfirst, ← hroot hm2, ← rootAttestedBy_cell hpath hk]
      exact ⟨key, hk⟩

/-- **The validated token is the signed token** exactly when every read finds the same bytes.
    The token is the one whose fields the validator accepted, under the request that the
    options and the clock make. -/
theorem validated_token_signed_iff (h : Oracles) (io : PolicyMoments) (seen : Seen) (path : Path)
    (i : Interference h.euid) (result : AnalysisResult) (ring : RingMode) (requiredRing : Int)
    (hring : ring.tokenRing = some requiredRing) (o : Options) (hpath : o.token = some path)
    (fs : Fs) (hout : (cellPolicy h io seen path i result ring o fs).1.result.isFail = false) :
    ∃ token nonce c, openedBytes h seen path i = some token ∧ o.nonce = some nonce
      ∧ checkToken ⟨requiredRing, o.maxAgeSec, some nonce, seen.now⟩ token = some c
      ∧ (SignedInCall h (cellIo io path i) ring o token ↔ Undisturbed h seen path ring i) := by
  obtain ⟨call, hr, hone⟩ := reached_of_not_fail hring hout
  obtain ⟨c, hacc, -⟩ := validate_eq_one_iff.mp hone
  obtain ⟨-, -, token, hread, hcheck⟩ := acceptedCounter_eq_some_iff.mp hacc
  have hsigned := signedInCall_iff hpath hr token
  obtain ⟨tokenPath, _, _, _, _, nonce, replay, ha, hc, rfl⟩ := hr
  obtain rfl : path = tokenPath := Option.some.inj (hpath.symm.trans ha.hasToken)
  have hopened : openedBytes h seen path i = some token := hread
  refine ⟨token, nonce, c, hopened, hc.hasNonce, hcheck, hsigned.trans ?_⟩
  unfold Undisturbed
  rw [hopened, Option.some.injEq]

-- ── Two runs ─────────────────────────────────────────────────────────────────────

/-- A file of the sample deployment's user. -/
def tokenFile (bytes : Bytes) : TokenFile 1000 where
  file := ownFile bytes
  bytes := bytes
  readable := rfl
  secure := by
    show (true && ((1000 : Nat) == 1000) && !((0o600 : Nat) &&& 0o022 != 0)) = true
    decide

/-- The same fields with another counter, and a line more; nobody signed it. -/
def forgedToken : Bytes :=
  ascii "ring:-2\nattested:true\ntimestamp:90\nnonce:n\ncounter:99\nroot_attested:true\n\n"

/-- A rename to the same bytes before the root signature: what is validated was signed. -/
theorem rewritten_token_signed :
    SignedInCall sampleOracles
      (cellIo sampleIo [1] ⟨tokenFile sampleToken, [tokenFile sampleToken], [], []⟩) .ringM2 twoKeys
      sampleToken := by
  obtain ⟨token, -, -, hopened, -, -, hiff⟩ := validated_token_signed_iff sampleOracles sampleIo
    ⟨sampleFs [], sampleFs [], 100⟩ [1]
    ⟨tokenFile sampleToken, [tokenFile sampleToken], [], []⟩ .pass .ringM2 (-2) rfl twoKeys rfl
    (sampleFs []) (by decide +kernel)
  obtain rfl : sampleToken = token := Option.some.inj ((openedBytes_utf8 rfl).symm.trans hopened)
  exact hiff.mpr ⟨openedBytes_utf8 rfl, fun _ => rfl⟩

/-- The forged token takes the place of the signed one before `fopen`: the policy passes and
    the validator has accepted bytes that no signature was verified on. -/
theorem replaced_token_passes :
    (cellPolicy sampleOracles sampleIo ⟨sampleFs [], sampleFs [], 100⟩ [1]
        ⟨tokenFile sampleToken, [], [], [tokenFile forgedToken]⟩ .pass .ringM2 twoKeys
        (sampleFs [])).1.result = .pass
      ∧ openedBytes sampleOracles ⟨sampleFs [], sampleFs [], 100⟩ [1]
          ⟨tokenFile sampleToken, [], [], [tokenFile forgedToken]⟩ = some forgedToken
      ∧ (checkToken ⟨-2, 60, some (ascii "n"), 100⟩ forgedToken = some 99)
      ∧ ¬ SignedInCall sampleOracles
          (cellIo sampleIo [1] ⟨tokenFile sampleToken, [], [], [tokenFile forgedToken]⟩) .ringM2
          twoKeys forgedToken := by
  refine ⟨by decide +kernel, openedBytes_utf8 rfl, by decide +kernel, ?_⟩
  rintro ⟨⟨key, hk⟩, -⟩
  have heq : forgedToken = sampleToken := attestedBy_cell rfl hk
  exact absurd heq (by decide +kernel)

end SkvTokenCell

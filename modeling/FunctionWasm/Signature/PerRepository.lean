import Mathlib.Logic.Function.Basic
import FunctionWasm.Signature.Evidence

/-!
# PerRepository — whom a remembered verdict answers for

`verify` remembers digests, not the repositories they were verified for, and looks a digest up
before it asks the policy anything.  A history of calls keeps, beside the verifier, the verdict each
digest was remembered on.

* `History.Sound` is the invariant: what is remembered has a bundle that vouches for it.
* `AnsweredFor` is an answer that stands on evidence good for the reference's own repository.
* `verdict_per_repository` says that every answer of a run is one exactly when no call recalls a
  verdict by a signer that the policy does not trust for the call's repository.
-/

namespace FunctionWasm
namespace Cosign

open SigstoreLibrary

section Runs

variable [SigstoreLibrary]

/-- A call of `verify`, with the answers that the registry will give it. -/
structure VerifyCall where
  client : RegistryClient
  reference : OciReference
  answers : Nat → Except Text Bytes

def VerifyCall.session (c : VerifyCall) : Session :=
  { answers := c.answers
    log := [] }

/-- What is done with a verifier while the process lives. -/
inductive Use where
  | verify (call : VerifyCall)
  | setTrustedRoot (raw : Bytes)
  | noteUnavailable (error : Text)

/-- What a digest was found signed on, and by whose exchanges. -/
structure Verdict where
  client : RegistryClient
  log : List Exchange
  voucher : Voucher

/-- The verifier, and as history the verdict each digest was last remembered on. -/
structure History where
  verifier : Verifier
  remembered : Text → Option Verdict

namespace History

def start (keys : List VerificationKey) (policy : Option (Text → Signer → Bool))
    (keyless : Keyless) : History where
  verifier :=
    { keys := keys
      policy := policy
      keyless := keyless
      verified := ∅ }
  remembered := fun _ => none

def reply (h : History) (c : VerifyCall) : Except Text Unit :=
  (h.verifier.verify c.client c.reference c.session).1

/-- The verdict that a call is answered on, where it succeeds. -/
def verdict (h : History) (c : VerifyCall) : Option Verdict :=
  if c.reference.digest ∈ h.verifier.verified then h.remembered c.reference.digest
  else
    match h.verifier.examine c.client c.reference c.session with
    | (.ok voucher, s) =>
        some
          { client := c.client
            log := s.log
            voucher := voucher }
    | (.error _, _) => none

def after (h : History) : Use → History
  | .verify c =>
      { verifier := (h.verifier.verify c.client c.reference c.session).2.1
        remembered := Function.update h.remembered c.reference.digest (h.verdict c) }
  | .setTrustedRoot raw => { h with verifier := (h.verifier.setTrustedRoot raw).2 }
  | .noteUnavailable error => { h with verifier := h.verifier.noteUnavailable error }

def run (h : History) (uses : List Use) : History :=
  uses.foldl after h

/-- The keys and the policy stay as they were configured. -/
theorem after_verify_fixed (h : History) (c : VerifyCall) :
    (h.after (.verify c)).verifier.keys = h.verifier.keys ∧
      (h.after (.verify c)).verifier.policy = h.verifier.policy :=
  Verifier.verify_fixed h.verifier c.client c.reference c.session

/-- The verdict has a bundle attached to the digest that vouches for it. -/
def Founded (v : Verifier) (digest : Text) (verdict : Verdict) : Prop :=
  ∃ raw, Attached verdict.client verdict.log digest raw ∧ verdict.voucher.Holds v raw digest

/-- Every digest remembered has a verdict, and the verdict is founded. -/
def Sound (h : History) : Prop :=
  ∀ digest ∈ h.verifier.verified,
    ∃ verdict, h.remembered digest = some verdict ∧ Founded h.verifier digest verdict

/-! ## One use -/

/-- Evidence depends on the keys and the root in use only. -/
theorem Founded.congr {v v' : Verifier} {digest : Text} {verdict : Verdict}
    (hkeys : v'.keys = v.keys) (hkeyless : v'.keyless = v.keyless)
    (h : Founded v digest verdict) : Founded v' digest verdict := by
  rcases h with ⟨raw, hattached, hholds⟩
  refine ⟨raw, hattached, ?_⟩
  cases hvoucher : verdict.voucher with
  | key =>
      rw [hvoucher] at hholds
      simpa [Voucher.Holds, KeySigned, hkeys] using hholds
  | signer s =>
      rw [hvoucher] at hholds
      simpa [Voucher.Holds, hkeyless] using hholds

/-- What a call that succeeds on a digest not remembered is answered on. -/
theorem verdict_of_examine {h : History} {c : VerifyCall} {voucher : Voucher} {s : Session}
    (hnew : c.reference.digest ∉ h.verifier.verified)
    (hexamine : h.verifier.examine c.client c.reference c.session = (.ok voucher, s)) :
    ∃ verdict, h.verdict c = some verdict ∧ Founded h.verifier c.reference.digest verdict ∧
      verdict.voucher.standsFor h.verifier c.reference.location = true := by
  rcases Verifier.examine_ok hexamine with ⟨hstands, hfounded⟩
  refine ⟨⟨c.client, s.log, voucher⟩, ?_, hfounded, hstands⟩
  simp [verdict, hnew, hexamine]

/-- A success is answered on a founded verdict. -/
theorem Sound.verdict_of_reply {h : History} {c : VerifyCall} (hsound : h.Sound)
    (hreply : h.reply c = .ok ()) :
    ∃ verdict, h.verdict c = some verdict ∧ Founded h.verifier c.reference.digest verdict ∧
      (c.reference.digest ∉ h.verifier.verified →
        verdict.voucher.standsFor h.verifier c.reference.location = true) := by
  by_cases hmem : c.reference.digest ∈ h.verifier.verified
  · rcases hsound _ hmem with ⟨verdict, hverdict, hfounded⟩
    refine ⟨verdict, ?_, hfounded, fun hnew => absurd hmem hnew⟩
    simp [History.verdict, hmem, hverdict]
  · cases hexamine : h.verifier.examine c.client c.reference c.session with
    | mk result s =>
        cases result with
        | error e => simp [reply, Verifier.verify, hmem, hexamine] at hreply
        | ok voucher =>
            rcases verdict_of_examine hmem hexamine with ⟨verdict, hverdict, hfounded, hstands⟩
            exact ⟨verdict, hverdict, hfounded, fun _ => hstands⟩

theorem Sound.after_verify {h : History} (hsound : h.Sound) (c : VerifyCall) :
    (h.after (.verify c)).Sound := by
  intro digest hdigest
  by_cases hmem : c.reference.digest ∈ h.verifier.verified
  · -- recalled: nothing is remembered anew
    have hsame : (h.after (.verify c)).verifier = h.verifier := by
      simp [after, Verifier.verify, hmem]
    rw [hsame] at hdigest
    rcases hsound digest hdigest with ⟨verdict, hverdict, hfounded⟩
    refine ⟨verdict, ?_, hfounded.congr (by rw [hsame]) (by rw [hsame])⟩
    by_cases heq : digest = c.reference.digest
    · subst heq
      simp [after, History.verdict, hmem, hverdict]
    · simp [after, heq, hverdict]
  · cases hexamine : h.verifier.examine c.client c.reference c.session with
    | mk result s =>
        cases result with
        | error e =>
            have hsame : (h.after (.verify c)).verifier = h.verifier := by
              simp [after, Verifier.verify, hmem, hexamine]
            rw [hsame] at hdigest
            rcases hsound digest hdigest with ⟨verdict, hverdict, hfounded⟩
            -- a refused digest is not remembered
            have hne : digest ≠ c.reference.digest := by
              rintro rfl
              exact hmem hdigest
            exact ⟨verdict, by simp [after, hne, hverdict],
              hfounded.congr (by rw [hsame]) (by rw [hsame])⟩
        | ok voucher =>
            have hgrown : (h.after (.verify c)).verifier =
                h.verifier.remember c.reference.digest := by
              simp [after, Verifier.verify, hmem, hexamine]
            have hkeys : (h.after (.verify c)).verifier.keys = h.verifier.keys := by
              rw [hgrown]; rfl
            have hkeyless : (h.after (.verify c)).verifier.keyless = h.verifier.keyless := by
              rw [hgrown]; rfl
            by_cases heq : digest = c.reference.digest
            · subst heq
              rcases verdict_of_examine hmem hexamine with ⟨verdict, hverdict, hfounded, -⟩
              exact ⟨verdict, by simp [after, hverdict], hfounded.congr hkeys hkeyless⟩
            · -- any other digest was remembered before
              have hold : digest ∈ h.verifier.verified := by
                rw [hgrown] at hdigest
                simpa [Verifier.remember, heq] using hdigest
              rcases hsound digest hold with ⟨verdict, hverdict, hfounded⟩
              exact ⟨verdict, by simp [after, heq, hverdict], hfounded.congr hkeys hkeyless⟩

/-- Another root forgets every digest; the same root, or none, changes nothing. -/
theorem Sound.after_setTrustedRoot {h : History} (hsound : h.Sound) (raw : Bytes) :
    (h.after (.setTrustedRoot raw)).Sound := by
  cases hread : Verifier.readRoot raw with
  | error e =>
      have hsame : h.after (.setTrustedRoot raw) = h := by
        simp [after, Verifier.setTrustedRoot, hread]
      rwa [hsame]
  | ok root =>
      by_cases huse : h.verifier.inUse root.2 = true
      · have hsame : h.after (.setTrustedRoot raw) = h := by
          simp [after, Verifier.setTrustedRoot, hread, huse]
        rwa [hsame]
      · intro digest hdigest
        simp [after, Verifier.setTrustedRoot, hread, huse, Verifier.forget] at hdigest

/-- A note changes the refusal of a keyless bundle, and only where no root is in use. -/
theorem Sound.after_noteUnavailable {h : History} (hsound : h.Sound) (error : Text) :
    (h.after (.noteUnavailable error)).Sound := by
  cases hkeyless : h.verifier.keyless with
  | pending inst lastError =>
      intro digest hdigest
      have hmem : digest ∈ h.verifier.verified := by
        simpa [after, Verifier.noteUnavailable, hkeyless] using hdigest
      rcases hsound digest hmem with ⟨verdict, hverdict, raw, hattached, hholds⟩
      refine ⟨verdict, hverdict, raw, hattached, ?_⟩
      cases hvoucher : verdict.voucher with
      | key =>
          rw [hvoucher] at hholds
          simpa [after, Verifier.noteUnavailable, hkeyless, Voucher.Holds, KeySigned] using hholds
      | signer s =>
          rw [hvoucher] at hholds
          simp [Voucher.Holds, SignedBy, hkeyless] at hholds
  | off =>
      have hsame : h.after (.noteUnavailable error) = h := by
        simp [after, Verifier.noteUnavailable, hkeyless]
      rwa [hsame]
  | ready verifier rootHash =>
      have hsame : h.after (.noteUnavailable error) = h := by
        simp [after, Verifier.noteUnavailable, hkeyless]
      rwa [hsame]

theorem Sound.after {h : History} (hsound : h.Sound) (use : Use) : (h.after use).Sound := by
  cases use with
  | verify c => exact hsound.after_verify c
  | setTrustedRoot raw => exact hsound.after_setTrustedRoot raw
  | noteUnavailable error => exact hsound.after_noteUnavailable error

theorem Sound.run {uses : List Use} : ∀ {h : History}, h.Sound → (h.run uses).Sound := by
  induction uses with
  | nil =>
      intro h hsound
      exact hsound
  | cons use uses ih =>
      intro h hsound
      exact ih (hsound.after use)

theorem start_sound (keys : List VerificationKey) (policy : Option (Text → Signer → Bool))
    (keyless : Keyless) : (start keys policy keyless).Sound := by
  intro digest hdigest
  simp [start] at hdigest

end History

/-! ## Answers -/

/-- A call that succeeds is answered on a verdict that stands for the reference's own repository,
and some bundle attached to the digest is signed by a configured key, or by a signer the policy
trusts for that repository. -/
def AnsweredFor (h : History) (c : VerifyCall) : Prop :=
  h.reply c = .ok () →
    ∃ verdict, h.verdict c = some verdict ∧
      verdict.voucher.standsFor h.verifier c.reference.location = true ∧
      ∃ raw, Attached verdict.client verdict.log c.reference.digest raw ∧
        (KeySigned h.verifier raw c.reference.digest ∨
          ∃ signer, SignedBy h.verifier.keyless raw c.reference.digest signer ∧
            h.verifier.trusts c.reference.location signer = true)

/-- The digest is not remembered, or it was remembered on the word of a key, or of a signer that the
policy trusts for the call's repository. -/
def RecallsTrusted (h : History) (c : VerifyCall) : Prop :=
  c.reference.digest ∈ h.verifier.verified →
    ∀ verdict, h.remembered c.reference.digest = some verdict →
      verdict.voucher.standsFor h.verifier c.reference.location = true

theorem answeredFor_iff {h : History} (hsound : h.Sound) (c : VerifyCall) :
    AnsweredFor h c ↔ RecallsTrusted h c := by
  constructor
  · intro hanswered hmem verdict hverdict
    have hreply : h.reply c = .ok () := by simp [History.reply, Verifier.verify, hmem]
    rcases hanswered hreply with ⟨verdict', hverdict', hstands, -⟩
    have heq : some verdict = some verdict' := by
      rw [← hverdict, ← hverdict']
      simp [History.verdict, hmem]
    cases heq
    exact hstands
  · intro hrecalls hreply
    rcases hsound.verdict_of_reply hreply with ⟨verdict, hverdict, hfounded, hnew⟩
    rcases hfounded with ⟨raw, hattached, hholds⟩
    have hstands : verdict.voucher.standsFor h.verifier c.reference.location = true := by
      by_cases hmem : c.reference.digest ∈ h.verifier.verified
      · apply hrecalls hmem verdict
        simpa [History.verdict, hmem] using hverdict
      · exact hnew hmem
    refine ⟨verdict, hverdict, hstands, raw, hattached, ?_⟩
    cases hvoucher : verdict.voucher with
    | key =>
        rw [hvoucher] at hholds
        exact Or.inl hholds
    | signer s =>
        rw [hvoucher] at hholds hstands
        exact Or.inr ⟨s, hholds, hstands⟩

/-- In a run of a verifier, whatever is done with it, every call is answered for its own repository
exactly when no call recalls a verdict by a signer that is not trusted for its repository. -/
theorem verdict_per_repository (keys : List VerificationKey)
    (policy : Option (Text → Signer → Bool)) (keyless : Keyless) (uses : List Use) :
    (∀ before c later, uses = before ++ .verify c :: later →
        AnsweredFor ((History.start keys policy keyless).run before) c) ↔
      ∀ before c later, uses = before ++ .verify c :: later →
        RecallsTrusted ((History.start keys policy keyless).run before) c := by
  have hsound : ∀ before, ((History.start keys policy keyless).run before).Sound := fun before =>
    (History.start_sound keys policy keyless).run
  constructor
  · intro hanswered before c later huses
    exact (answeredFor_iff (hsound before) c).1 (hanswered before c later huses)
  · intro hrecalls before c later huses
    exact (answeredFor_iff (hsound before) c).2 (hrecalls before c later huses)

end Runs

/-! ## One manifest in two repositories -/

section Fixture

/-- The manifest of the keyless fixture. -/
def fixtureHex : Text :=
  "f80a8364a61555f02d1429a17af9feaf0e9e8505c8fbb0d64589f84b05b14346".toList

def fixtureDigest : Text := "sha256:".toList ++ fixtureHex

def releaseSigner : Signer where
  issuer := "https://token.actions.githubusercontent.com".toList
  identity :=
    ("https://github.com/jonasz-lasut/function-wasm/.github/workflows/" ++
      "publish-pkg.yml@refs/tags/v0.6.0").toList

/-- The libraries on documents of one byte: the listing 1, the referrer 2, the bundle 3 and the
statement 4, which are their own hashes.  Of the roots 65 and 66 only the first vouches for the
bundle. -/
@[reducible] def fixtureLibrary : SigstoreLibrary where
  sha256 raw := raw
  manifestFromJson raw :=
    if raw = [2] then
      .ok
        { mediaType := []
          layers := [{ mediaType := bundleMediaType, digest := "sha256:03".toList, size := 1 }]
          subject := some { mediaType := [], digest := fixtureDigest, size := 0 }
          manifests := [] }
    else .error "expected value at line 1 column 1".toList
  indexFromJson raw :=
    if raw = [1] then
      .ok [{ mediaType := ociManifestType, digest := "sha256:02".toList, size := 1 }]
    else .error "expected value at line 1 column 1".toList
  VerificationKey := Unit
  BundleVerifier := Bool
  TrustedRoot := Bool
  SigstoreBundle := Text
  Sha256Hash := Text
  keyVerify _ _ _ := false
  rootFromJson text :=
    if text = "A".toList then .ok true
    else if text = "B".toList then .ok false
    else .error "expected value at line 1 column 1".toList
  newBundleVerifier root := .ok root
  sigstoreBundleFromJson text := .ok text
  hashFromHex hex := .ok hex
  bundleVerify root subject _ :=
    if root = true ∧ subject = fixtureHex then
      .ok { identity := some releaseSigner.identity, issuer := some releaseSigner.issuer }
    else .error "no certificate chain".toList
  bundleFromSlice raw :=
    if raw = [3] then
      .ok
        { mediaType := bundleMediaType
          certificate := some []
          dsseEnvelope :=
            some
              { payload := "BA==".toList
                payloadType := inTotoPayloadType
                signatures := [[]] } }
    else .error "expected value at line 1 column 1".toList
  statementFromSlice payload :=
    if payload = [4] then
      .ok
        { statementType := inTotoStatement
          subject := [fun key => if key = "sha256".toList then some fixtureHex else none]
          predicateType := cosignSignPredicate }
    else .error "expected value at line 1 column 1".toList
  base64Standard text := if text = "BA==".toList then some [4] else none
  base64UrlSafe _ := none
  debug text := "\"".toList ++ text ++ "\"".toList

/-- The fixture's own repository. -/
def fixtureCall : VerifyCall where
  client := RegistryClient.new
    { registry := "ghcr.io".toList
      repository := "jonasz-lasut/wasmfn/examples/pdb-addon".toList
      digest := fixtureDigest }
  reference :=
    { registry := "ghcr.io".toList
      repository := "jonasz-lasut/wasmfn/examples/pdb-addon".toList
      digest := fixtureDigest }
  answers
    | 0 => .ok [1]
    | 1 => .ok [2]
    | _ => .ok [3]

/-- The same manifest in a repository that nobody is trusted for. -/
def mirrorCall : VerifyCall where
  client := RegistryClient.new
    { registry := "ghcr.io".toList
      repository := "example/mirror".toList
      digest := fixtureDigest }
  reference :=
    { registry := "ghcr.io".toList
      repository := "example/mirror".toList
      digest := fixtureDigest }
  answers := fun _ => .error "404 Not Found".toList

/-- The release signer is trusted for the fixture's repository only. -/
def fixturePolicy (repository : Text) (signer : Signer) : Bool :=
  repository = fixtureCall.reference.location ∧ signer = releaseSigner

attribute [local instance] fixtureLibrary

def fixtureStart : History :=
  History.start [] (some fixturePolicy) (.ready true none)

/-- A run in which the fixture's repository is verified, by the release signer. -/
def fixtureRun : History :=
  fixtureStart.run [.verify fixtureCall]

theorem fixtureRun_reply_mirror : fixtureRun.reply mirrorCall = .ok () := by
  decide +kernel

/-- The mirror's call succeeds, and no bundle at all is signed by a key or by a signer trusted for
the mirror. -/
theorem mirror_answered_untrusted :
    fixtureRun.reply mirrorCall = .ok () ∧
      (∀ raw, ¬ (KeySigned fixtureRun.verifier raw mirrorCall.reference.digest ∨
        ∃ signer, SignedBy fixtureRun.verifier.keyless raw mirrorCall.reference.digest signer ∧
          fixtureRun.verifier.trusts mirrorCall.reference.location signer = true)) ∧
      ¬ AnsweredFor fixtureRun mirrorCall := by
  have hreply := fixtureRun_reply_mirror
  have hmirror : mirrorCall.reference.location ≠ fixtureCall.reference.location := by
    decide +kernel
  have hrun : fixtureRun = fixtureStart.after (.verify fixtureCall) := rfl
  have hkeys : fixtureRun.verifier.keys = [] := by
    rw [hrun, (History.after_verify_fixed _ _).1]
    rfl
  have hpolicy : fixtureRun.verifier.policy = some fixturePolicy := by
    rw [hrun, (History.after_verify_fixed _ _).2]
    rfl
  have hnone : ∀ raw, ¬ (KeySigned fixtureRun.verifier raw mirrorCall.reference.digest ∨
      ∃ signer, SignedBy fixtureRun.verifier.keyless raw mirrorCall.reference.digest signer ∧
        fixtureRun.verifier.trusts mirrorCall.reference.location signer = true) := by
    rintro raw (⟨_, _, _, _, key, _, _, hkey, _, _⟩ | ⟨signer, -, htrusts⟩)
    · simp [hkeys] at hkey
    · simp [Verifier.trusts, hpolicy, fixturePolicy, hmirror] at htrusts
  have hwrong : ¬ AnsweredFor fixtureRun mirrorCall := by
    intro hanswered
    rcases hanswered hreply with ⟨_, _, _, raw, _, hvouched⟩
    exact hnone raw hvouched
  exact ⟨hreply, hnone, hwrong⟩

end Fixture

end Cosign
end FunctionWasm

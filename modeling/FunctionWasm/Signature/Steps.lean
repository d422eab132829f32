import Mathlib.Logic.Relation
import FunctionWasm.Signature.Cosign

/-!
# Steps — a call of `verify`, one step at a time

Concurrent calls share the memo and the trusted root and take a lock for each use of them, so a call
is cut at these uses: the lookup, the check of one bundle, and the insertion that comes after it.

* `Call.next` and `Call.memo` are one step of a call: where it goes and what it does to the memo.
* `Call.takesLock` says which steps wait for the lock that the trusted root is behind.
* `verify_runs` says that a call running alone comes to what `verify` answers.
-/

namespace FunctionWasm
namespace Cosign

/-- What the loop over the referrers carries: how many there are, those to come, and the tally. -/
structure Referrers where
  total : Nat
  queue : List Descriptor
  tally : Tally

def Referrers.note (r : Referrers) (reason : Text) : Referrers :=
  { r with tally := r.tally.note reason }

/-- One more bundle is examined. -/
def Referrers.count (r : Referrers) : Referrers :=
  { r with tally := { r.tally with bundles := r.tally.bundles + 1 } }

@[simp] theorem Referrers.note_tally (r : Referrers) (reason : Text) :
    (r.note reason).tally = r.tally.note reason := rfl

@[simp] theorem Referrers.count_tally (r : Referrers) :
    r.count.tally = { r.tally with bundles := r.tally.bundles + 1 } := rfl

inductive Phase where
  | lookup
  | list
  | referrers (r : Referrers)
  | layers (r : Referrers) (layers : List Descriptor)
  | bundle (r : Referrers) (layers : List Descriptor) (raw : Bytes)
  | accepted (voucher : Voucher)
  | done (result : Except Text Unit)

structure Call where
  client : RegistryClient
  reference : OciReference
  session : Session
  phase : Phase

namespace Call

def start (client : RegistryClient) (reference : OciReference) (s : Session) : Call where
  client := client
  reference := reference
  session := s
  phase := .lookup

def goto (c : Call) (s : Session) (phase : Phase) : Call :=
  { c with
    session := s
    phase := phase }

/-- The phase that the loops over the referrers leave a call in. -/
def afterLayers (r : Referrers) : Examination → Phase
  | .accepted voucher => .accepted voucher
  | .refused t => .referrers { r with tally := t }

@[simp] theorem afterLayers_note (r : Referrers) (reason : Text) (e : Examination) :
    afterLayers (r.note reason) e = afterLayers r e := by
  cases e <;> rfl

@[simp] theorem afterLayers_count (r : Referrers) (e : Examination) :
    afterLayers r.count e = afterLayers r e := by
  cases e <;> rfl

variable [SigstoreLibrary]

def next (v : Verifier) (c : Call) : Call :=
  let s := c.session
  match c.phase with
  | .lookup =>
      if c.reference.digest ∈ v.verified then c.goto s (.done (.ok ())) else c.goto s .list
  | .list =>
      match c.client.referrers c.reference.digest maxManifestSize s with
      | (.error e, s) => c.goto s (.done (.error e))
      | (.ok referrers, s) =>
          let manifests := imageManifests referrers
          c.goto s (.referrers
            { total := manifests.length
              queue := manifests.take maxReferrers
              tally := { bundles := 0, reasons := [] } })
  | .referrers r =>
      match r.queue with
      | [] =>
          c.goto s (.done
            (.error (noSignature r.total c.reference.location c.reference.digest r.tally)))
      | descriptor :: queue =>
          let r := { r with queue := queue }
          match c.client.manifestByDigest descriptor.digest maxManifestSize s with
          | (.error e, s) => c.goto s (.referrers (r.note e))
          | (.ok referrer, s) =>
              if isSubject c.reference.digest referrer then
                c.goto s (.layers r (bundleLayers referrer))
              else c.goto s (.referrers r)
  | .layers r [] => c.goto s (.referrers r)
  | .layers r (layer :: layers) =>
      match Verifier.fetchBundle c.client layer s with
      | (.error e, s) => c.goto s (.layers (r.count.note e) layers)
      | (.ok raw, s) => c.goto s (.bundle r.count layers raw)
  | .bundle r layers raw =>
      match v.checkBundleContent raw c.reference.digest c.reference.location with
      | .ok voucher => c.goto s (.accepted voucher)
      | .error e => c.goto s (.layers (r.note e) layers)
  | .accepted _ => c.goto s (.done (.ok ()))
  | .done _ => c

/-- Only the step after an accepted bundle touches the memo. -/
def memo (v : Verifier) (c : Call) : Verifier :=
  match c.phase with
  | .accepted _ => v.remember c.reference.digest
  | _ => v

def takesLock (c : Call) : Bool :=
  match c.phase with
  | .bundle _ _ raw => takesKeylessLock raw
  | _ => false

def finished (c : Call) : Bool :=
  match c.phase with
  | .done _ => true
  | _ => false

/-! ## A call alone -/

/-- A call that nothing else runs beside. -/
def Alone : Verifier × Call → Verifier × Call → Prop :=
  Relation.ReflTransGen fun a b => b = (a.2.memo a.1, a.2.next a.1)

theorem Alone.refl (a : Verifier × Call) : Alone a a :=
  Relation.ReflTransGen.refl

theorem Alone.trans {a b c : Verifier × Call} (h : Alone a b) (h' : Alone b c) : Alone a c :=
  Relation.ReflTransGen.trans h h'

theorem Alone.step {v : Verifier} {c : Call} {b : Verifier × Call}
    (h : Alone (c.memo v, c.next v) b) : Alone (v, c) b :=
  Relation.ReflTransGen.head rfl h

theorem examineLayers_runs (v : Verifier) (c : Call) (layers : List Descriptor) :
    ∀ {r : Referrers} {s s' : Session} {e : Examination},
      v.examineLayers c.client c.reference.digest c.reference.location layers r.tally s = (e, s') →
        Alone (v, c.goto s (.layers r layers)) (v, c.goto s' (afterLayers r e)) := by
  induction layers with
  | nil =>
      intro r s s' e h
      cases h
      apply Alone.step
      exact Alone.refl _
  | cons layer layers ih =>
      intro r s s' e h
      simp only [Verifier.examineLayers, Verifier.checkBundle] at h
      apply Alone.step
      cases hfetch : Verifier.fetchBundle c.client layer s with
      | mk result s₁ =>
          cases result with
          | error e₁ =>
              -- refused before anything of the bundle is read
              have hrest := ih (r := r.count.note e₁) (by simpa [hfetch] using h)
              simpa [next, memo, goto, hfetch] using hrest
          | ok raw =>
              have hfetched : Alone (v, c.goto s₁ (.bundle r.count layers raw))
                  (v, c.goto s' (afterLayers r e)) := by
                apply Alone.step
                cases hcheck : v.checkBundleContent raw c.reference.digest c.reference.location with
                | error e₁ =>
                    have hrest := ih (r := r.count.note e₁) (by simpa [hfetch, hcheck] using h)
                    simpa [next, memo, goto, hcheck] using hrest
                | ok voucher =>
                    have hend : e = .accepted voucher ∧ s' = s₁ := by
                      simpa [hfetch, hcheck, eq_comm] using h
                    rcases hend with ⟨rfl, rfl⟩
                    have hrefl := Alone.refl (v, c.goto s' (.accepted voucher))
                    simpa [next, memo, goto, hcheck, afterLayers] using hrefl
              simpa [next, memo, goto, hfetch] using hfetched

/-- The phase that the examination leaves a call in. -/
def afterReferrers (c : Call) (total : Nat) : Examination → Phase
  | .accepted voucher => .accepted voucher
  | .refused t => .done (.error (noSignature total c.reference.location c.reference.digest t))

theorem examineReferrers_runs (v : Verifier) (c : Call) (total : Nat) (queue : List Descriptor) :
    ∀ {t : Tally} {s s' : Session} {e : Examination},
      v.examineReferrers c.client c.reference.digest c.reference.location queue t s = (e, s') →
        Alone (v, c.goto s (.referrers { total := total, queue := queue, tally := t }))
          (v, c.goto s' (c.afterReferrers total e)) := by
  -- on the referrers; each is a step, and its bundle layers are a run of their own
  induction queue with
  | nil =>
      intro t s s' e h
      cases h
      apply Alone.step
      exact Alone.refl _
  | cons d queue ih =>
      intro t s s' e h
      simp only [Verifier.examineReferrers] at h
      apply Alone.step
      cases hget : c.client.manifestByDigest d.digest maxManifestSize s with
      | mk result s₁ =>
          cases result with
          | error e₁ =>
              have hrest := ih (t := t.note e₁) (by simpa [hget] using h)
              simpa [next, memo, goto, hget, Referrers.note] using hrest
          | ok referrer =>
              cases hsubject : isSubject c.reference.digest referrer with
              | false =>
                  have hrest := ih (t := t) (by simpa [hget, hsubject] using h)
                  simpa [next, memo, goto, hget, hsubject] using hrest
              | true =>
                  cases hlayers : v.examineLayers c.client c.reference.digest c.reference.location
                      (bundleLayers referrer) t s₁ with
                  | mk e₂ s₂ =>
                      have hrun := examineLayers_runs v c (bundleLayers referrer)
                        (r := { total := total, queue := queue, tally := t }) hlayers
                      -- its layers accept the module, or leave the tally to the rest of the queue
                      have hall : Alone (v, c.goto s₁ (.layers
                          { total := total, queue := queue, tally := t } (bundleLayers referrer)))
                          (v, c.goto s' (c.afterReferrers total e)) := by
                        cases e₂ with
                        | accepted voucher =>
                            have hend : e = .accepted voucher ∧ s' = s₂ := by
                              simpa [hget, hsubject, hlayers, eq_comm] using h
                            rcases hend with ⟨rfl, rfl⟩
                            exact hrun
                        | refused t₂ =>
                            have hrest := ih (t := t₂) (by simpa [hget, hsubject, hlayers] using h)
                            exact hrun.trans hrest
                      simpa [next, memo, goto, hget, hsubject] using hall

/-- The phase that a finished examination leaves a call in. -/
def afterExamine : Except Text Voucher → Phase
  | .ok voucher => .accepted voucher
  | .error e => .done (.error e)

theorem examine_runs {v : Verifier} {c : Call} {s s' : Session} {r : Except Text Voucher}
    (h : v.examine c.client c.reference s = (r, s')) :
    Alone (v, c.goto s .list) (v, c.goto s' (afterExamine r)) := by
  unfold Verifier.examine at h
  apply Alone.step
  cases hget : c.client.referrers c.reference.digest maxManifestSize s with
  | mk result s₁ =>
      cases result with
      | error e =>
          simp only [hget] at h
          cases h
          have hrefl := Alone.refl (v, c.goto s' (.done (.error e)))
          simpa [next, memo, goto, hget, afterExamine] using hrefl
      | ok referrers =>
          simp only [hget] at h
          cases hexamine : v.examineReferrers c.client c.reference.digest c.reference.location
              ((imageManifests referrers).take maxReferrers) { bundles := 0, reasons := [] } s₁ with
          | mk e s₂ =>
              have hrun := examineReferrers_runs v c (imageManifests referrers).length _ hexamine
              simp only [hexamine] at h
              cases e with
              | accepted voucher =>
                  cases h
                  simpa [next, memo, goto, hget, afterReferrers, afterExamine] using hrun
              | refused t =>
                  cases h
                  simpa [next, memo, goto, hget, afterReferrers, afterExamine] using hrun

/-- A call that runs alone comes to the answer of `verify`, with the memo and the exchanges that
`verify` leaves. -/
theorem verify_runs {v v' : Verifier} {client : RegistryClient} {reference : OciReference}
    {s s' : Session} {r : Except Text Unit} (h : v.verify client reference s = (r, v', s')) :
    Alone (v, start client reference s) (v', (start client reference s).goto s' (.done r)) := by
  unfold Verifier.verify at h
  apply Alone.step
  by_cases hmem : reference.digest ∈ v.verified
  · have hend : r = .ok () ∧ v' = v ∧ s' = s := by simpa [hmem, eq_comm] using h
    rcases hend with ⟨rfl, rfl, rfl⟩
    simpa [next, memo, goto, start, hmem] using
      Alone.refl (v', (start client reference s').goto s' (.done (.ok ())))
  · have hlist : Alone (v, (start client reference s).goto s .list)
        (v', (start client reference s).goto s' (.done r)) := by
      cases hexamine : v.examine client reference s with
      | mk result s₁ =>
          have hrun := examine_runs (c := start client reference s) hexamine
          cases result with
          | error e =>
              have hend : r = .error e ∧ v' = v ∧ s' = s₁ := by
                simpa [hmem, hexamine, eq_comm] using h
              rcases hend with ⟨rfl, rfl, rfl⟩
              exact hrun
          | ok voucher =>
              have hend : r = .ok () ∧ v' = v.remember reference.digest ∧ s' = s₁ := by
                simpa [hmem, hexamine, eq_comm] using h
              rcases hend with ⟨rfl, rfl, rfl⟩
              -- the insertion is the last step
              apply hrun.trans
              apply Alone.step
              exact Alone.refl _
    simpa [next, memo, goto, start, hmem] using hlist

end Call
end Cosign
end FunctionWasm

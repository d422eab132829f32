import Mathlib.Logic.Function.Basic
import FunctionWasm.Foundation.Transition
import FunctionWasm.Signature.PerRepository
import FunctionWasm.Signature.Steps

/-!
# Rotation — a change of the trusted root among concurrent calls

`set_trusted_root` swaps the root under its write lock, forgets the remembered digests and releases
the lock.  A call checks a keyless bundle under the read lock and remembers the digest later, under
no lock on the root, so the change can fall between the two.

* `RotationState` is the verifier with the calls in flight, and as history when each verdict was
  reached and what stands in the memo on it.
* `rotationStep` is every move under any interleaving, `rotationStep_cases` reads it off.
* `Current` is the invariant, `root_rotation_invalidates` what a change of root leaves in the memo.
-/

namespace FunctionWasm
namespace Cosign

section Interleavings

variable [SigstoreLibrary] {ι : Type} [DecidableEq ι]

/-- A digest put into the memo: on what, and under which root. -/
structure Record where
  digest : Text
  voucher : Voucher
  epoch : Nat
  deriving DecidableEq

/-- The verifier and the calls in flight.  `rotating` says that `set_trusted_root` has put another
root in use and not yet forgotten the digests.  `epoch` counts the roots put in use, `returned` the
calls that have returned `Ok(true)`; `judged` is the epoch that a call's bundle was accepted in, and
`records` what was put into the memo since it was last cleared. -/
structure RotationState (ι : Type) [SigstoreLibrary] where
  verifier : Verifier
  calls : ι → Option Call
  rotating : Bool
  epoch : Nat
  returned : Nat
  judged : ι → Nat
  records : List Record

namespace RotationState

def start (v : Verifier) : RotationState ι where
  verifier := { v with verified := ∅ }
  calls := fun _ => none
  rotating := false
  epoch := 0
  returned := 0
  judged := fun _ => 0
  records := []

/-- One step of a call. -/
def advance (s : RotationState ι) (i : ι) (c : Call) : RotationState ι :=
  { s with
    verifier := c.memo s.verifier
    calls := Function.update s.calls i (some (c.next s.verifier))
    judged :=
      match c.phase with
      | .bundle _ _ _ => Function.update s.judged i s.epoch
      | _ => s.judged
    records :=
      match c.phase with
      | .accepted voucher =>
          { digest := c.reference.digest, voucher := voucher, epoch := s.judged i } :: s.records
      | _ => s.records }

/-- `set_trusted_root` up to the swap; for the root in use it is done. -/
def swap (s : RotationState ι) (verifier : SigstoreLibrary.BundleVerifier) (hash : Bytes) :
    RotationState ι :=
  if s.verifier.inUse hash then s
  else
    { s with
      verifier := s.verifier.putInUse verifier hash
      rotating := true
      epoch := s.epoch + 1 }

/-- The rest of it: it returns `Ok(true)`. -/
def clear (s : RotationState ι) : RotationState ι :=
  { s with
    verifier := s.verifier.forget
    rotating := false
    returned := s.returned + 1
    records := [] }

end RotationState

/-- The moves: a call of `verify` arrives or takes a step, `set_trusted_root` swaps the root or
clears the memo, `note_unavailable` runs. -/
inductive RotationAction (ι : Type) where
  | arrive (i : ι) (call : VerifyCall)
  | call (i : ι)
  | swap (raw : Bytes)
  | clear
  | note (error : Text)

/-- One move.  What waits for the lock of the root cannot move while `set_trusted_root` holds it. -/
def rotationStep (s : RotationState ι) : RotationAction ι → Option (RotationState ι)
  | .arrive i call =>
      match s.calls i with
      | none =>
          let c := Call.start call.client call.reference call.session
          some { s with calls := Function.update s.calls i (some c) }
      | some _ => none
  | .call i =>
      match s.calls i with
      | none => none
      | some c =>
          if c.finished ∨ (s.rotating ∧ c.takesLock) then none else some (s.advance i c)
  | .swap raw =>
      if s.rotating then none
      else
        match Verifier.readRoot raw with
        | .error _ => some s
        | .ok (verifier, hash) => some (s.swap verifier hash)
  | .clear => if s.rotating then some s.clear else none
  | .note error =>
      if s.rotating then none else some { s with verifier := s.verifier.noteUnavailable error }

/-- What a move can be. -/
theorem rotationStep_cases {s s' : RotationState ι} {a : RotationAction ι}
    (h : rotationStep s a = some s') :
    (∃ (i : ι) (call : VerifyCall), s.calls i = none ∧
      s' = { s with
        calls := Function.update s.calls i
          (some (Call.start call.client call.reference call.session)) }) ∨
    (∃ i c, s.calls i = some c ∧ s' = s.advance i c) ∨
    (s.rotating = false ∧ ∃ verifier hash, s' = s.swap verifier hash) ∨
    (a = .clear ∧ s.rotating = true ∧ s' = s.clear) ∨
    (∃ error, s' = { s with verifier := s.verifier.noteUnavailable error }) ∨
    s' = s := by
  cases a with
  | arrive i call =>
      cases hc : s.calls i with
      | none =>
          simp only [rotationStep, hc, Option.some.injEq] at h
          exact Or.inl ⟨i, call, hc, h.symm⟩
      | some c => simp [rotationStep, hc] at h
  | call i =>
      cases hc : s.calls i with
      | none => simp [rotationStep, hc] at h
      | some c =>
          -- a call that takes the lock waits for a rotation to end
          by_cases hblocked : c.finished = true ∨ (s.rotating = true ∧ c.takesLock = true)
          · simp [rotationStep, hc, hblocked] at h
          · simp only [rotationStep, hc, if_neg hblocked, Option.some.injEq] at h
            exact Or.inr (Or.inl ⟨i, c, hc, h.symm⟩)
  | swap raw =>
      cases hrotating : s.rotating with
      | true => simp [rotationStep, hrotating] at h
      | false =>
          cases hread : Verifier.readRoot raw with
          | error e =>
              -- a root that cannot be read changes nothing
              have heq : s = s' := by simpa [rotationStep, hrotating, hread] using h
              exact Or.inr (Or.inr (Or.inr (Or.inr (Or.inr heq.symm))))
          | ok root =>
              have heq : s.swap root.1 root.2 = s' := by
                simpa [rotationStep, hrotating, hread] using h
              exact Or.inr (Or.inr (Or.inl ⟨rfl, root.1, root.2, heq.symm⟩))
  | clear =>
      cases hrotating : s.rotating with
      | true =>
          have heq : s.clear = s' := by simpa [rotationStep, hrotating] using h
          exact Or.inr (Or.inr (Or.inr (Or.inl ⟨rfl, rfl, heq.symm⟩)))
      | false => simp [rotationStep, hrotating] at h
  | note error =>
      by_cases hrotating : s.rotating = true
      · simp [rotationStep, hrotating] at h
      · simp only [rotationStep, if_neg hrotating, Option.some.injEq] at h
        exact Or.inr (Or.inr (Or.inr (Or.inr (Or.inl ⟨error, h.symm⟩))))

/-- With nothing in between, the moves of `set_trusted_root` are what it does. -/
theorem setTrustedRoot_moves {s s₁ : RotationState ι} {raw : Bytes}
    (h : rotationStep s (.swap raw) = some s₁) :
    (s.verifier.setTrustedRoot raw).2 =
      if s₁.rotating then s₁.clear.verifier else s₁.verifier := by
  by_cases hrotating : s.rotating = true
  · simp [rotationStep, hrotating] at h
  · cases hread : Verifier.readRoot raw with
    | error e =>
        have heq : s = s₁ := by simpa [rotationStep, hrotating, hread] using h
        simp [← heq, hrotating, Verifier.setTrustedRoot, hread]
    | ok root =>
        have heq : s.swap root.1 root.2 = s₁ := by
          simpa [rotationStep, hrotating, hread] using h
        by_cases huse : s.verifier.inUse root.2 = true
        · simp [← heq, RotationState.swap, huse, hrotating, Verifier.setTrustedRoot, hread]
        · simp [← heq, RotationState.swap, RotationState.clear, huse, Verifier.setTrustedRoot,
            hread]

/-- Calls of `verify` and changes of root under any interleaving. -/
def rotation (ι : Type) [DecidableEq ι] (v : Verifier) :
    TransitionSystem (RotationState ι) (RotationAction ι) where
  init s := s = RotationState.start v
  step s a s' := rotationStep s a = some s'

/-! ## What holds of every interleaving -/

/-- The root was put in use once more than `Ok(true)` was returned exactly while the lock is held,
and the memo is what was recorded. -/
structure Recorded (s : RotationState ι) : Prop where
  epoch : s.epoch = s.returned + (if s.rotating then 1 else 0)
  memo : ∀ digest, digest ∈ s.verifier.verified ↔ ∃ r ∈ s.records, r.digest = digest

theorem recorded_advance {s : RotationState ι} (h : Recorded s) (i : ι) (c : Call) :
    Recorded (s.advance i c) := by
  refine ⟨h.epoch, ?_⟩
  intro digest
  cases hphase : c.phase with
  | accepted voucher =>
      simp only [RotationState.advance, Call.memo, hphase, Verifier.remember, Finset.mem_insert,
        List.mem_cons, exists_eq_or_imp, h.memo digest, eq_comm]
  | _ => simpa [RotationState.advance, Call.memo, hphase] using h.memo digest

theorem noteUnavailable_verified (v : Verifier) (error : Text) :
    (v.noteUnavailable error).verified = v.verified := by
  unfold Verifier.noteUnavailable
  split <;> rfl

theorem recorded_step {s s' : RotationState ι} {a : RotationAction ι} (h : Recorded s)
    (hs : rotationStep s a = some s') : Recorded s' := by
  rcases rotationStep_cases hs with ⟨i, call, hc, rfl⟩ | ⟨i, c, hc, rfl⟩ |
    ⟨hrotating, verifier, hash, rfl⟩ | ⟨-, hrotating, rfl⟩ | ⟨error, rfl⟩ | rfl
  · exact ⟨h.epoch, h.memo⟩
  · exact recorded_advance h i c
  · unfold RotationState.swap
    split
    · exact h
    · refine ⟨?_, h.memo⟩
      simpa [hrotating] using h.epoch
  · refine ⟨?_, ?_⟩
    · simpa [RotationState.clear, hrotating] using h.epoch
    · simp [RotationState.clear, Verifier.forget]
  · refine ⟨h.epoch, ?_⟩
    intro digest
    simpa [noteUnavailable_verified] using h.memo digest
  · exact h

theorem recorded_reachable {v : Verifier} {s : RotationState ι}
    (h : (rotation ι v).Reachable s) : Recorded s := by
  refine h.invariant ?_ ?_
  · rintro s rfl
    exact ⟨rfl, by simp [RotationState.start]⟩
  · intro s a s' _ hrec hstep
    exact recorded_step hrec hstep

/-! ## The verdicts on the way -/

/-- A keyless verdict reached under a root that `set_trusted_root` has since returned from
replacing. -/
def Record.stale (s : RotationState ι) (r : Record) : Prop :=
  r.voucher.isKeyless = true ∧ r.epoch < s.returned

/-- A call holds a keyless verdict that it has not put into the memo. -/
def Holds (s : RotationState ι) (i : ι) : Prop :=
  ∃ c voucher, s.calls i = some c ∧ c.phase = .accepted voucher ∧ voucher.isKeyless = true

/-- Where the move clears the memo, no call holds a keyless verdict made under an earlier root. -/
def NoneHeld (s : RotationState ι) (a : RotationAction ι) : Prop :=
  a = .clear → ∀ i, Holds s i → s.judged i = s.epoch

/-- No verdict is stale, in the memo or on the way to it. -/
structure Current (s : RotationState ι) : Prop where
  records : ∀ r ∈ s.records, ¬ r.stale s
  held : ∀ i, Holds s i → s.returned ≤ s.judged i

theorem Holds.of_update {s s' : RotationState ι} {i j : ι} {c : Call} (hij : j ≠ i)
    (hcalls : s'.calls = Function.update s.calls i (some c)) (h : Holds s' j) : Holds s j := by
  rcases h with ⟨c', voucher, hc', hphase, hkeyless⟩
  refine ⟨c', voucher, ?_, hphase, hkeyless⟩
  simpa [hcalls, hij] using hc'

theorem next_accepted {v : Verifier} {c : Call} {voucher : Voucher}
    (h : (c.next v).phase = .accepted voucher) : ∃ r layers raw, c.phase = .bundle r layers raw := by
  cases hphase : c.phase with
  | bundle r layers raw => exact ⟨r, layers, raw, rfl⟩
  | lookup =>
      simp only [Call.next, hphase] at h
      split at h <;> simp [Call.goto] at h
  | list =>
      simp only [Call.next, hphase] at h
      split at h <;> simp [Call.goto] at h
  | referrers r =>
      simp only [Call.next, hphase] at h
      split at h
      · simp [Call.goto] at h
      · split at h
        · simp [Call.goto] at h
        · split at h <;> simp [Call.goto] at h
  | layers r layers =>
      cases layers with
      | nil => simp [Call.next, hphase, Call.goto] at h
      | cons layer layers =>
          simp only [Call.next, hphase] at h
          split at h <;> simp [Call.goto] at h
  | accepted voucher' => simp [Call.next, hphase, Call.goto] at h
  | done result => simp [Call.next, hphase] at h

/-- A verdict is reached in the present epoch and recorded as it was reached. -/
theorem current_advance {s : RotationState ι} (hrec : Recorded s) (h : Current s) {i : ι} {c : Call}
    (hc : s.calls i = some c) : Current (s.advance i c) := by
  have hepoch : s.returned ≤ s.epoch := by
    rw [hrec.epoch]
    exact Nat.le_add_right _ _
  refine ⟨?_, ?_⟩
  · intro r hr
    cases hphase : c.phase with
    | accepted voucher =>
        simp only [RotationState.advance, hphase, List.mem_cons] at hr
        rcases hr with rfl | hr
        · rintro ⟨hkeyless, hlt⟩
          have hheld := h.held i ⟨c, voucher, hc, hphase, hkeyless⟩
          exact absurd hlt (Nat.not_lt.2 hheld)
        · exact h.records r hr
    | _ =>
        simp only [RotationState.advance, hphase] at hr
        exact h.records r hr
  · intro j hj
    by_cases hji : j = i
    · subst hji
      rcases hj with ⟨c', voucher, hc', hphase', hkeyless⟩
      have hnext : c.next s.verifier = c' := by simpa [RotationState.advance] using hc'
      rcases next_accepted (v := s.verifier) (c := c) (by rw [hnext]; exact hphase') with
        ⟨r, layers, raw, hphase⟩
      simpa [RotationState.advance, hphase] using hepoch
    · have hheld := h.held j (hj.of_update hji rfl)
      cases hphase : c.phase with
      | bundle r layers raw => simpa [RotationState.advance, hphase, hji] using hheld
      | _ => simpa [RotationState.advance, hphase] using hheld

omit [DecidableEq ι] in
theorem current_clear {s : RotationState ι} (hrec : Recorded s) (hrotating : s.rotating = true)
    (hheld : ∀ i, Holds s i → s.judged i = s.epoch) : Current s.clear := by
  refine ⟨by simp [RotationState.clear], ?_⟩
  intro i hi
  have hjudged : s.judged i = s.epoch := hheld i hi
  have hepoch : s.epoch = s.returned + 1 := by simpa [hrotating] using hrec.epoch
  exact Nat.le_of_eq (hepoch.symm.trans hjudged.symm)

theorem current_step {s s' : RotationState ι} {a : RotationAction ι} (hrec : Recorded s)
    (h : Current s) (hnone : NoneHeld s a) (hs : rotationStep s a = some s') : Current s' := by
  rcases rotationStep_cases hs with ⟨i, call, hc, rfl⟩ | ⟨i, c, hc, rfl⟩ |
    ⟨hrotating, verifier, hash, rfl⟩ | ⟨hclear, hrotating, rfl⟩ | ⟨error, rfl⟩ | rfl
  · refine ⟨h.records, ?_⟩
    intro j hj
    by_cases hji : j = i
    · -- a call that has just arrived has no verdict
      subst hji
      rcases hj with ⟨c', voucher, hc', hphase, -⟩
      have heq : Call.start call.client call.reference call.session = c' := by simpa using hc'
      subst heq
      simp [Call.start] at hphase
    · exact h.held j (hj.of_update hji rfl)
  · exact current_advance hrec h hc
  · unfold RotationState.swap
    split
    · exact h
    · exact ⟨h.records, h.held⟩
  · exact current_clear hrec hrotating (hnone hclear)
  · exact ⟨h.records, h.held⟩
  · exact h

theorem restrict_reachable {v : Verifier} {s : RotationState ι}
    (h : ((rotation ι v).restrict NoneHeld).Reachable s) : (rotation ι v).Reachable s ∧ Current s := by
  induction h with
  | init hinit =>
      refine ⟨.init hinit, ?_⟩
      cases hinit
      refine ⟨by simp [RotationState.start], ?_⟩
      rintro i ⟨c, voucher, hc, -⟩
      simp [RotationState.start] at hc
  | step a hs hstep ih =>
      have hrec := recorded_reachable ih.1
      exact ⟨.step a ih.1 hstep.2, current_step hrec ih.2 hstep.1 hstep.2⟩

/-- A call that holds a keyless verdict made under an earlier root while the memo is cleared puts it
into the cleared memo with its next step. -/
theorem stale_after_clear {s : RotationState ι} (hrec : Recorded s) (hrotating : s.rotating = true)
    {i : ι} (hheld : Holds s i) (hjudged : s.judged i < s.epoch) :
    ∃ s', rotationStep s.clear (.call i) = some s' ∧
      ∃ digest ∈ s'.verifier.verified, ∀ r ∈ s'.records, r.digest = digest ∧ r.stale s' := by
  rcases hheld with ⟨c, voucher, hc, hphase, hkeyless⟩
  have hepoch : s.epoch = s.returned + 1 := by simpa [hrotating] using hrec.epoch
  refine ⟨s.clear.advance i c, ?_, c.reference.digest, ?_, ?_⟩
  · simp [rotationStep, RotationState.clear, hc, Call.finished, hphase]
  · simp [RotationState.advance, Call.memo, hphase, Verifier.remember]
  · intro r hr
    simp only [RotationState.advance, hphase, RotationState.clear, List.mem_singleton] at hr
    subst hr
    refine ⟨rfl, hkeyless, ?_⟩
    simpa [RotationState.advance, RotationState.clear, hepoch] using hjudged

/-- Where no call holds a keyless verdict made under an earlier root when the memo is cleared, no
digest is ever in the memo on a keyless verdict made under a root that was replaced; and where one
does, its next step puts such a digest there. -/
theorem root_rotation_invalidates (v : Verifier) :
    (∀ s, ((rotation ι v).restrict NoneHeld).Reachable s →
      ∀ digest ∈ s.verifier.verified,
        (∃ r ∈ s.records, r.digest = digest) ∧
          ∀ r ∈ s.records, r.digest = digest → ¬ r.stale s) ∧
    (∀ s, (rotation ι v).Reachable s → s.rotating = true →
      ∀ i, Holds s i → s.judged i < s.epoch →
        ∃ s', (rotation ι v).Reachable s' ∧
          ∃ digest ∈ s'.verifier.verified, ∀ r ∈ s'.records, r.digest = digest ∧ r.stale s') := by
  constructor
  · intro s hs digest hdigest
    rcases restrict_reachable hs with ⟨hreach, hcurrent⟩
    have hmemo := (recorded_reachable hreach).memo digest
    exact ⟨hmemo.1 hdigest, fun r hr _ => hcurrent.records r hr⟩
  · intro s hs hrotating i hheld hjudged
    rcases stale_after_clear (recorded_reachable hs) hrotating hheld hjudged with
      ⟨s', hstep, hstale⟩
    have hclear : (rotation ι v).Reachable s.clear := by
      apply TransitionSystem.Reachable.step .clear hs
      simp [rotation, rotationStep, hrotating]
    exact ⟨s', .step (.call i) hclear hstep, hstale⟩

end Interleavings

attribute [local instance] fixtureLibrary

/-- The fixture is checked under root 65; the root changes to 66 and the memo is cleared; then the
call puts its digest into the memo. -/
def fixtureActions : List (RotationAction Nat) :=
  [.arrive 0 fixtureCall, .call 0, .call 0, .call 0, .call 0, .call 0, .swap [66], .clear, .call 0]

/-- `set_trusted_root` has returned `Ok(true)`, and a digest is in the memo on nothing but a keyless
verdict made under the root it replaced. -/
theorem rotation_leaves_stale_verdict :
    ∃ s, (rotation Nat fixtureStart.verifier).Reachable s ∧ s.rotating = false ∧ s.returned = 1 ∧
      fixtureDigest ∈ s.verifier.verified ∧
      ∀ r ∈ s.records, r.digest = fixtureDigest ∧ r.stale s := by
  have hcheck : (fixtureActions.foldlM rotationStep (RotationState.start fixtureStart.verifier)).map
      (fun s => (s.rotating, s.returned, decide (fixtureDigest ∈ s.verifier.verified), s.records)) =
        some (false, 1, true, [⟨fixtureDigest, .signer releaseSigner, 0⟩]) := by
    decide +kernel
  rcases Option.map_eq_some_iff.1 hcheck with ⟨s, hrun, hs⟩
  simp only [Prod.mk.injEq, decide_eq_true_eq] at hs
  rcases hs with ⟨hrotating, hreturned, hmem, hrecords⟩
  refine ⟨s, ?_, hrotating, hreturned, hmem, ?_⟩
  · exact TransitionSystem.Reachable.run (fun _ _ _ hstep => hstep) (.init rfl) hrun
  · intro r hr
    have heq : r = ⟨fixtureDigest, .signer releaseSigner, 0⟩ := by simpa [hrecords] using hr
    subst heq
    exact ⟨rfl, rfl, by simp [hreturned]⟩

end Cosign
end FunctionWasm

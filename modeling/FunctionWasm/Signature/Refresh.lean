import FunctionWasm.Cache.ModuleCache
import FunctionWasm.Signature.Rotation

/-!
# Refresh — the trusted root is kept current while calls are verified

A runtime without a trusted root file fetches the root, from its repository or, as long as it has
none, from the cache of what an earlier one verified.  It does so once at its start and then over and
over, while calls of `verify` go on.

* `refreshStep` is every move; `refreshing_refines` says that verifier and calls move as in
  `rotation`.
* `RefreshInv` is what holds in every state, `refreshStep_cases` what a step can do.
* `trusted_root_kept` says which root is in use, what has been counted and who waits for what.

What is used of the TUF client are its answers.  Times are in nanoseconds.
-/

namespace FunctionWasm
namespace Cosign

/-! ## The flags -/

def second : Nat := 1000000000

/-- The bound on one fetch. -/
def fetchBound : Nat := 60 * second

def minRefresh : Nat := 60 * second

def retryWithoutRoot : Nat := 60 * second

def checkRefresh (refresh : Nat) : Except Text Unit :=
  if refresh < minRefresh then
    .error ("--cosign-tuf-refresh must be at least ".toList ++ Duration.format minRefresh ++
      ", got ".toList ++ Duration.format refresh)
  else .ok ()

/-- A repository that the root is fetched from. -/
structure Source where
  name : Text
  url : Text

inductive Origin where
  | repository
  | cache
  deriving DecidableEq

/-- What one refresh did. -/
inductive Outcome where
  | updated
  | unchanged
  | failed (e : Text)
  deriving DecidableEq

/-- The label that an outcome is counted under. -/
inductive Label where
  | updated
  | unchanged
  | error
  deriving DecidableEq

def Outcome.label : Outcome → Label
  | .updated => .updated
  | .unchanged => .unchanged
  | .failed _ => .error

/-- What a fetch comes to; without an answer it took too long. -/
def Source.fetch (src : Source) : Option (Except Text Bytes) → Except Text Bytes
  | some answer => answer
  | none =>
      .error ("fetching the trusted root of ".toList ++ src.name ++ " from ".toList ++ src.url ++
        " took longer than ".toList ++ Duration.format fetchBound)

section Refreshing

variable [SigstoreLibrary] {ι : Type} [DecidableEq ι]

/-- Expects a root that is put in use later. -/
def Verifier.awaitingTrustedRoot (v : Verifier) (inst : Text)
    (policy : Option (Text → Signer → Bool)) : Verifier :=
  { v with policy := policy, keyless := .pending inst none }

def Verifier.hasTrustedRoot (v : Verifier) : Bool :=
  match v.keyless with
  | .ready _ _ => true
  | _ => false

/-- Where the refresher is.  It sleeps until some time, fetches, having had a root or not, asks the
cache after the fetch failed, is about to put a root in use, has put it in use and not yet forgotten
the digests, or is about to record what it did. -/
inductive RefreshPhase where
  | waiting (wake : Nat)
  | fetching (hadRoot : Bool)
  | caching (fetchError : Text)
  | setting (raw : Bytes) (origin : Origin)
  | clearing
  | recording (outcome : Outcome)
  deriving DecidableEq

/-- The verifier with its calls, and the refresher.  `goods` are the answers that were read as roots,
the latest first, and `lastError` is why the latest failure was one. -/
structure RefreshState (ι : Type) [SigstoreLibrary] where
  rotation : RotationState ι
  now : Nat
  phase : RefreshPhase
  refreshes : Label → Nat
  lastRefresh : Option Nat
  goods : List Bytes
  lastError : Option Text

namespace RefreshState

def start (v : Verifier) : RefreshState ι where
  rotation := .start v
  now := 0
  phase := .waiting 0
  refreshes := fun _ => 0
  lastRefresh := none
  goods := []
  lastError := none

def verifier (s : RefreshState ι) : Verifier :=
  s.rotation.verifier

end RefreshState

inductive RefreshAction (ι : Type) where
  | verify (a : RotationAction ι)
  | elapse (d : Nat)
  | wake
  | fetched (answer : Option (Except Text Bytes))
  | cached (answer : Except Text Bytes)
  | set
  | clear
  | record

/-- The moves of the calls. -/
def RotationAction.ofCall : RotationAction ι → Bool
  | .arrive _ _ | .call _ => true
  | _ => false

/-- How long the refresher sleeps. -/
def refreshWait (interval : Nat) (hasRoot : Bool) : Nat :=
  if hasRoot then interval else min interval retryWithoutRoot

/-- Records an outcome and goes to sleep. -/
def RefreshState.record (s : RefreshState ι) (interval : Nat) (outcome : Outcome) :
    Option (RefreshState ι) :=
  let counted :=
    { s with refreshes := Function.update s.refreshes outcome.label (s.refreshes outcome.label + 1) }
  match outcome with
  | .failed e =>
      -- noted for the refusals that name it
      (rotationStep s.rotation (.note e)).map fun rotation =>
        { counted with
          rotation := rotation
          lastError := some e
          phase := .waiting (s.now + refreshWait interval rotation.verifier.hasTrustedRoot) }
  | _ =>
      some
        { counted with
          lastRefresh := some s.now
          phase := .waiting (s.now + refreshWait interval s.verifier.hasTrustedRoot) }

/-- Every move, under any interleaving with the calls of `verify`. -/
def refreshStep (src : Source) (interval : Nat) (s : RefreshState ι) :
    RefreshAction ι → Option (RefreshState ι)
  | .verify a =>
      -- of a rotation's moves these are the calls'; the others are made below
      if a.ofCall then
        (rotationStep s.rotation a).map fun rotation => { s with rotation := rotation }
      else none
  | .elapse d => some { s with now := s.now + d }
  | .wake =>
      match s.phase with
      | .waiting wake =>
          if wake ≤ s.now then some { s with phase := .fetching s.verifier.hasTrustedRoot } else none
      | _ => none
  | .fetched answer =>
      match s.phase with
      | .fetching hadRoot =>
          match src.fetch answer with
          | .ok raw => some { s with phase := .setting raw .repository }
          | .error e =>
              -- only a runtime without a root falls back to the cache
              if hadRoot then some { s with phase := .recording (.failed e) }
              else some { s with phase := .caching e }
      | _ => none
  | .cached answer =>
      match s.phase with
      | .caching fetchError =>
          match answer with
          | .ok raw => some { s with phase := .setting raw .cache }
          | .error e =>
              some { s with
                phase := .recording (.failed (fetchError ++ "; the cache: ".toList ++ e)) }
      | _ => none
  | .set =>
      match s.phase with
      | .setting raw _ =>
          match Verifier.readRoot raw with
          | .error e => some { s with phase := .recording (.failed e) }
          | .ok _ =>
              -- the root is in use before what the old one verified is forgotten
              (rotationStep s.rotation (.swap raw)).map fun rotation =>
                { s with
                  rotation := rotation
                  goods := raw :: s.goods
                  phase := if rotation.rotating then .clearing else .recording .unchanged }
      | _ => none
  | .clear =>
      match s.phase with
      | .clearing =>
          (rotationStep s.rotation .clear).map fun rotation =>
            { s with rotation := rotation, phase := .recording .updated }
      | _ => none
  | .record =>
      match s.phase with
      | .recording outcome => s.record interval outcome
      | _ => none

/-- A runtime that fetches the root of an instance. -/
def refreshing (ι : Type) [DecidableEq ι] (src : Source) (interval : Nat) (v : Verifier)
    (policy : Option (Text → Signer → Bool)) :
    TransitionSystem (RefreshState ι) (RefreshAction ι) where
  init s := s = .start (v.awaitingTrustedRoot src.name policy)
  step s a s' := refreshStep src interval s a = some s'

/-! ## What a step can do -/

inductive RefreshMove (src : Source) (interval : Nat) (s : RefreshState ι) :
    RefreshAction ι → RefreshState ι → Prop where
  | verify {a : RotationAction ι} {rotation : RotationState ι} (hcall : a.ofCall = true)
      (hstep : rotationStep s.rotation a = some rotation) :
      RefreshMove src interval s (.verify a) { s with rotation := rotation }
  | elapse (d : Nat) : RefreshMove src interval s (.elapse d) { s with now := s.now + d }
  | wake {wake : Nat} (hphase : s.phase = .waiting wake) (hwake : wake ≤ s.now) :
      RefreshMove src interval s .wake { s with phase := .fetching s.verifier.hasTrustedRoot }
  | fetched {hadRoot : Bool} {answer : Option (Except Text Bytes)} {raw : Bytes}
      (hphase : s.phase = .fetching hadRoot) (hanswer : src.fetch answer = .ok raw) :
      RefreshMove src interval s (.fetched answer) { s with phase := .setting raw .repository }
  | fetchFailed {answer : Option (Except Text Bytes)} {e : Text}
      (hphase : s.phase = .fetching true) (hanswer : src.fetch answer = .error e) :
      RefreshMove src interval s (.fetched answer) { s with phase := .recording (.failed e) }
  | fallBack {answer : Option (Except Text Bytes)} {e : Text}
      (hphase : s.phase = .fetching false) (hanswer : src.fetch answer = .error e) :
      RefreshMove src interval s (.fetched answer) { s with phase := .caching e }
  | cached {fetchError : Text} {raw : Bytes} (hphase : s.phase = .caching fetchError) :
      RefreshMove src interval s (.cached (.ok raw)) { s with phase := .setting raw .cache }
  | cacheFailed {fetchError e : Text} (hphase : s.phase = .caching fetchError) :
      RefreshMove src interval s (.cached (.error e))
        { s with phase := .recording (.failed (fetchError ++ "; the cache: ".toList ++ e)) }
  | unread {raw : Bytes} {origin : Origin} {e : Text} (hphase : s.phase = .setting raw origin)
      (hread : Verifier.readRoot raw = .error e) :
      RefreshMove src interval s .set { s with phase := .recording (.failed e) }
  | same {raw : Bytes} {origin : Origin} {verifier : SigstoreLibrary.BundleVerifier} {hash : Bytes}
      (hphase : s.phase = .setting raw origin)
      (hread : Verifier.readRoot raw = .ok (verifier, hash)) (huse : s.verifier.inUse hash = true)
      (hidle : s.rotation.rotating = false) :
      RefreshMove src interval s .set
        { s with goods := raw :: s.goods, phase := .recording .unchanged }
  | other {raw : Bytes} {origin : Origin} {verifier : SigstoreLibrary.BundleVerifier} {hash : Bytes}
      (hphase : s.phase = .setting raw origin)
      (hread : Verifier.readRoot raw = .ok (verifier, hash)) (huse : s.verifier.inUse hash = false)
      (hidle : s.rotation.rotating = false) :
      RefreshMove src interval s .set
        { s with
          rotation := { s.rotation with
            verifier := s.verifier.putInUse verifier hash
            rotating := true
            epoch := s.rotation.epoch + 1 }
          goods := raw :: s.goods
          phase := .clearing }
  | clear (hphase : s.phase = .clearing) (hrotating : s.rotation.rotating = true) :
      RefreshMove src interval s .clear
        { s with rotation := s.rotation.clear, phase := .recording .updated }
  | failed {e : Text} (hphase : s.phase = .recording (.failed e))
      (hidle : s.rotation.rotating = false) :
      RefreshMove src interval s .record
        { s with
          rotation := { s.rotation with verifier := s.verifier.noteUnavailable e }
          refreshes := Function.update s.refreshes .error (s.refreshes .error + 1)
          lastError := some e
          phase := .waiting
            (s.now + refreshWait interval (s.verifier.noteUnavailable e).hasTrustedRoot) }
  | succeeded {outcome : Outcome} (hphase : s.phase = .recording outcome)
      (houtcome : outcome.label ≠ .error) :
      RefreshMove src interval s .record
        { s with
          refreshes :=
            Function.update s.refreshes outcome.label (s.refreshes outcome.label + 1)
          lastRefresh := some s.now
          phase := .waiting (s.now + refreshWait interval s.verifier.hasTrustedRoot) }

omit [DecidableEq ι] in
theorem swap_inUse {s : RotationState ι} {verifier : SigstoreLibrary.BundleVerifier} {hash : Bytes}
    (h : s.verifier.inUse hash = true) : s.swap verifier hash = s :=
  if_pos h

omit [DecidableEq ι] in
theorem swap_other {s : RotationState ι} {verifier : SigstoreLibrary.BundleVerifier} {hash : Bytes}
    (h : s.verifier.inUse hash = false) :
    s.swap verifier hash =
      { s with
        verifier := s.verifier.putInUse verifier hash
        rotating := true
        epoch := s.epoch + 1 } :=
  if_neg (Bool.eq_false_iff.1 h)

theorem refreshStep_cases {src : Source} {interval : Nat} {s s' : RefreshState ι}
    {a : RefreshAction ι} (h : refreshStep src interval s a = some s') :
    RefreshMove src interval s a s' := by
  cases a with
  | verify a =>
      simp only [refreshStep] at h
      split at h
      · next hcall =>
          rcases Option.map_eq_some_iff.1 h with ⟨rotation, hstep, rfl⟩
          exact .verify hcall hstep
      · cases h
  | elapse d =>
      cases h
      exact .elapse d
  | wake =>
      simp only [refreshStep] at h
      split at h
      · next hphase =>
          split at h
          · next hwake =>
              cases h
              exact .wake hphase hwake
          · cases h
      · cases h
  | fetched answer =>
      simp only [refreshStep] at h
      split at h
      · next hadRoot hphase =>
          split at h
          · next hanswer =>
              cases h
              exact .fetched hphase hanswer
          · next hanswer =>
              cases hadRoot with
              | true =>
                  cases h
                  exact .fetchFailed hphase hanswer
              | false =>
                  cases h
                  exact .fallBack hphase hanswer
      · cases h
  | cached answer =>
      simp only [refreshStep] at h
      split at h
      · next hphase =>
          cases answer with
          | ok raw =>
              cases h
              exact .cached hphase
          | error e =>
              cases h
              exact .cacheFailed hphase
      · cases h
  | set =>
      simp only [refreshStep] at h
      split at h
      · next raw origin hphase =>
          split at h
          · next hread =>
              cases h
              exact .unread hphase hread
          · next root hread =>
              rcases Option.map_eq_some_iff.1 h with ⟨rotation, hstep, rfl⟩
              cases hidle : s.rotation.rotating with
              | true => simp [rotationStep, hidle] at hstep
              | false =>
                  have hswap : s.rotation.swap root.1 root.2 = rotation := by
                    simpa [rotationStep, hidle, hread] using hstep
                  subst hswap
                  cases huse : s.verifier.inUse root.2 with
                  | true =>
                      rw [swap_inUse huse, hidle]
                      exact .same hphase hread huse hidle
                  | false =>
                      rw [swap_other huse]
                      exact .other hphase hread huse hidle
      · cases h
  | clear =>
      simp only [refreshStep] at h
      split at h
      · next hphase =>
          rcases Option.map_eq_some_iff.1 h with ⟨rotation, hstep, rfl⟩
          cases hrotating : s.rotation.rotating with
          | true =>
              have hclear : s.rotation.clear = rotation := by
                simpa [rotationStep, hrotating] using hstep
              subst hclear
              exact .clear hphase hrotating
          | false => simp [rotationStep, hrotating] at hstep
      · cases h
  | record =>
      simp only [refreshStep] at h
      split at h
      · next outcome hphase =>
          cases outcome with
          | failed e =>
              rcases Option.map_eq_some_iff.1 h with ⟨rotation, hstep, rfl⟩
              cases hrotating : s.rotation.rotating with
              | true => simp [rotationStep, hrotating] at hstep
              | false =>
                  have hnote : { s.rotation with
                      verifier := s.rotation.verifier.noteUnavailable e } = rotation := by
                    simpa [rotationStep, hrotating] using hstep
                  subst hnote
                  exact .failed hphase hrotating
          | updated =>
              cases h
              exact .succeeded hphase fun h => by cases h
          | unchanged =>
              cases h
              exact .succeeded hphase fun h => by cases h
      · cases h

/-- Verifier and calls move as they do among changes of root in general. -/
theorem refreshing_refines (src : Source) (interval : Nat) (v : Verifier)
    (policy : Option (Text → Signer → Bool)) :
    TransitionSystem.Refines RefreshState.rotation (refreshing ι src interval v policy)
      (rotation ι (v.awaitingTrustedRoot src.name policy)) where
  init s h := by
    cases h
    rfl
  step s a s' h := by
    cases refreshStep_cases h with
    | verify hcall hstep => exact Or.inr ⟨_, hstep⟩
    | @same raw origin verifier hash hphase hread huse hidle => exact Or.inl rfl
    | @other raw origin verifier hash hphase hread huse hidle =>
        refine Or.inr ⟨.swap raw, ?_⟩
        simp [rotation, rotationStep, hidle, hread, swap_other huse, RefreshState.verifier]
    | clear hphase hrotating =>
        refine Or.inr ⟨.clear, ?_⟩
        simp [rotation, rotationStep, hrotating]
    | @failed e hphase hidle =>
        refine Or.inr ⟨.note e, ?_⟩
        simp [rotation, rotationStep, hidle, RefreshState.verifier]
    | _ => exact Or.inl rfl

/-! ## The root in use -/

/-- How often another root was put in use, the latest first. -/
def rootChanges : List Bytes → Nat
  | [] => 0
  | [_] => 1
  | raw :: before :: older =>
      rootChanges (before :: older) +
        if RegistryLibrary.sha256 raw = RegistryLibrary.sha256 before then 0 else 1

/-- The root in use is the latest that was read, up to its hash; before the first it is said why
there is none. -/
def RootInUse (inst : Text) (goods : List Bytes) (lastError : Option Text) (keyless : Keyless) :
    Prop :=
  match goods with
  | [] => keyless = .pending inst lastError
  | raw :: _ =>
      ∃ read ∈ goods, ∃ verifier,
        Verifier.readRoot read = .ok (verifier, RegistryLibrary.sha256 raw) ∧
          keyless = .ready verifier (some (RegistryLibrary.sha256 raw))

theorem hasTrustedRoot_iff {inst : Text} {goods : List Bytes} {lastError : Option Text}
    {v : Verifier} (h : RootInUse inst goods lastError v.keyless) :
    v.hasTrustedRoot = !goods.isEmpty := by
  cases goods with
  | nil =>
      have hpending : v.keyless = .pending inst lastError := h
      simp [Verifier.hasTrustedRoot, hpending]
  | cons raw older =>
      rcases h with ⟨read, -, verifier, -, hready⟩
      simp [Verifier.hasTrustedRoot, hready]

omit [DecidableEq ι] in
/-- A root that is in use is read again. -/
theorem RootInUse.same {inst : Text} {goods : List Bytes} {lastError : Option Text} {v : Verifier}
    (h : RootInUse inst goods lastError v.keyless) {raw : Bytes}
    (huse : v.inUse (RegistryLibrary.sha256 raw) = true) :
    RootInUse inst (raw :: goods) lastError v.keyless ∧
      rootChanges (raw :: goods) = rootChanges goods := by
  cases goods with
  | nil =>
      have hpending : v.keyless = .pending inst lastError := h
      simp [Verifier.inUse, hpending] at huse
  | cons before older =>
      rcases h with ⟨read, hmem, verifier, hread, hready⟩
      have hhash : RegistryLibrary.sha256 before = RegistryLibrary.sha256 raw := by
        simpa [Verifier.inUse, hready] using huse
      refine ⟨⟨read, List.mem_cons_of_mem _ hmem, verifier, hhash ▸ hread, hhash ▸ hready⟩, ?_⟩
      simp [rootChanges, hhash]

omit [DecidableEq ι] in
/-- Another root is put in use. -/
theorem RootInUse.other {inst : Text} {goods : List Bytes} {lastError : Option Text} {v : Verifier}
    (h : RootInUse inst goods lastError v.keyless) {raw : Bytes}
    {verifier : SigstoreLibrary.BundleVerifier}
    (hread : Verifier.readRoot raw = .ok (verifier, RegistryLibrary.sha256 raw))
    (huse : v.inUse (RegistryLibrary.sha256 raw) = false) :
    RootInUse inst (raw :: goods) lastError
        (v.putInUse verifier (RegistryLibrary.sha256 raw)).keyless ∧
      rootChanges (raw :: goods) = rootChanges goods + 1 := by
  refine ⟨⟨raw, List.mem_cons_self, verifier, hread, rfl⟩, ?_⟩
  cases goods with
  | nil => rfl
  | cons before older =>
      rcases h with ⟨read, -, verifier', -, hready⟩
      have hhash : RegistryLibrary.sha256 raw ≠ RegistryLibrary.sha256 before := by
        intro heq
        simp [Verifier.inUse, hready, heq] at huse
      simp [rootChanges, hhash]

/-- Why there is no root is noted as long as there is none. -/
theorem RootInUse.note {inst : Text} {goods : List Bytes} {lastError : Option Text} {v : Verifier}
    (h : RootInUse inst goods lastError v.keyless) (e : Text) :
    RootInUse inst goods (some e) (v.noteUnavailable e).keyless := by
  cases goods with
  | nil =>
      have hpending : v.keyless = .pending inst lastError := h
      simp [RootInUse, Verifier.noteUnavailable, hpending]
  | cons raw older =>
      rcases h with ⟨read, hmem, verifier, hread, hready⟩
      refine ⟨read, hmem, verifier, hread, ?_⟩
      simp [Verifier.noteUnavailable, hready]

theorem readRoot_hash {raw hash : Bytes} {verifier : SigstoreLibrary.BundleVerifier}
    (h : Verifier.readRoot raw = .ok (verifier, hash)) : hash = RegistryLibrary.sha256 raw := by
  unfold Verifier.readRoot at h
  split at h
  · cases h
  · split at h
    · cases h
    · split at h
      · cases h
      · cases h
        rfl

/-! ## What holds in every state -/

/-- A refresh has put another root in use that is not counted yet. -/
def RefreshPhase.updates : RefreshPhase → Nat
  | .clearing | .recording .updated => 1
  | _ => 0

/-- A refresh has read a root and is not counted yet. -/
def RefreshPhase.reads : RefreshPhase → Nat
  | .clearing | .recording .updated | .recording .unchanged => 1
  | _ => 0

/-- What is known of where the refresher is. -/
def RefreshPhase.Fits (interval now : Nat) (goods : List Bytes) : RefreshPhase → Prop
  | .waiting wake => wake ≤ now + refreshWait interval (!goods.isEmpty)
  | .fetching hadRoot => hadRoot = !goods.isEmpty
  | .caching _ | .setting _ .cache => goods = []
  | _ => True

structure RefreshInv (src : Source) (interval : Nat) (s : RefreshState ι) : Prop where
  root : RootInUse src.name s.goods s.lastError s.verifier.keyless
  rotating : s.rotation.rotating = true ↔ s.phase = .clearing
  fits : s.phase.Fits interval s.now s.goods
  changes : rootChanges s.goods = s.rotation.epoch
  updated : s.refreshes .updated + s.phase.updates = s.rotation.epoch
  answered : s.refreshes .updated + s.refreshes .unchanged + s.phase.reads = s.goods.length
  last : s.lastRefresh = none ↔ s.refreshes .updated + s.refreshes .unchanged = 0

/-- A move of a call leaves the root alone. -/
theorem call_keeps {s s' : RotationState ι} {a : RotationAction ι} (hcall : a.ofCall = true)
    (h : rotationStep s a = some s') :
    s'.verifier.keyless = s.verifier.keyless ∧ s'.rotating = s.rotating ∧ s'.epoch = s.epoch := by
  cases a with
  | arrive i call =>
      simp only [rotationStep] at h
      split at h
      · cases h
        exact ⟨rfl, rfl, rfl⟩
      · cases h
  | call i =>
      simp only [rotationStep] at h
      split at h
      · cases h
      · next c hc =>
          split at h
          · cases h
          · cases h
            refine ⟨?_, rfl, rfl⟩
            cases hphase : c.phase with
            | accepted voucher => simp [RotationState.advance, Call.memo, hphase, Verifier.remember]
            | _ => simp [RotationState.advance, Call.memo, hphase]
  | swap raw => cases hcall
  | clear => cases hcall
  | note e => cases hcall

omit [SigstoreLibrary] in
theorem RefreshPhase.updates_eq_zero {p : RefreshPhase} (h : p.reads = 0) :
    p.updates = 0 ∧ p ≠ .clearing := by
  cases p with
  | clearing => cases h
  | recording outcome =>
      refine ⟨?_, fun heq => by cases heq⟩
      cases outcome with
      | updated => cases h
      | _ => rfl
  | _ => exact ⟨rfl, fun heq => by cases heq⟩

section Steps

variable {src : Source} {interval : Nat} {s : RefreshState ι}

omit [DecidableEq ι] in
theorem RefreshInv.start (v : Verifier) (policy : Option (Text → Signer → Bool)) :
    RefreshInv src interval
      (RefreshState.start (v.awaitingTrustedRoot src.name policy) : RefreshState ι) where
  root := rfl
  rotating := by simp [RefreshState.start, RotationState.start]
  fits := Nat.zero_le _
  changes := rfl
  updated := rfl
  answered := rfl
  last := by simp [RefreshState.start]

omit [DecidableEq ι] in
/-- As long as no root is read, a refresh only changes where the refresher is. -/
theorem RefreshInv.turn (h : RefreshInv src interval s) {p : RefreshPhase}
    (hold : s.phase.reads = 0) (hnew : p.reads = 0) (hfits : p.Fits interval s.now s.goods) :
    RefreshInv src interval { s with phase := p } := by
  rcases RefreshPhase.updates_eq_zero hold with ⟨hupdates, hclear⟩
  rcases RefreshPhase.updates_eq_zero hnew with ⟨hupdates', hclear'⟩
  have hidle : ¬ s.rotation.rotating = true := fun hrotating => hclear (h.rotating.1 hrotating)
  exact {
    root := h.root
    rotating := iff_of_false hidle hclear'
    fits := hfits
    changes := h.changes
    updated := by simpa [hupdates, hupdates'] using h.updated
    answered := by simpa [hold, hnew] using h.answered
    last := h.last }

theorem RefreshInv.verify (h : RefreshInv src interval s) {a : RotationAction ι}
    {rotation : RotationState ι} (hcall : a.ofCall = true)
    (hstep : rotationStep s.rotation a = some rotation) :
    RefreshInv src interval { s with rotation := rotation } := by
  rcases call_keeps hcall hstep with ⟨hkeyless, hrotating, hepoch⟩
  exact {
    root := by
      have hroot : RootInUse src.name s.goods s.lastError s.rotation.verifier.keyless := h.root
      rw [← hkeyless] at hroot
      exact hroot
    rotating := hrotating ▸ h.rotating
    fits := h.fits
    changes := h.changes.trans hepoch.symm
    updated := h.updated.trans hepoch.symm
    answered := h.answered
    last := h.last }

omit [DecidableEq ι] in
theorem RefreshInv.elapse (h : RefreshInv src interval s) (d : Nat) :
    RefreshInv src interval { s with now := s.now + d } := by
  refine { h with fits := ?_ }
  have hfits := h.fits
  cases hphase : s.phase with
  | waiting wake =>
      rw [hphase] at hfits
      have hle : wake ≤ s.now + refreshWait interval (!s.goods.isEmpty) := hfits
      exact hle.trans (Nat.add_le_add_right (Nat.le_add_right _ _) _)
  | setting raw origin =>
      rw [hphase] at hfits
      cases origin with
      | _ => exact hfits
  | _ =>
      rw [hphase] at hfits
      exact hfits

omit [DecidableEq ι] in
/-- A root that is in use is read again. -/
theorem RefreshInv.same (h : RefreshInv src interval s) {raw : Bytes} {origin : Origin}
    (hphase : s.phase = .setting raw origin)
    (huse : s.verifier.inUse (RegistryLibrary.sha256 raw) = true)
    (hidle : s.rotation.rotating = false) :
    RefreshInv src interval { s with goods := raw :: s.goods, phase := .recording .unchanged } := by
  rcases h.root.same huse with ⟨hroot, hchanges⟩
  have hupdated := h.updated
  have hanswered := h.answered
  rw [hphase] at hupdated hanswered
  exact {
    root := hroot
    rotating := by simp [hidle]
    fits := trivial
    changes := hchanges.trans h.changes
    updated := hupdated
    answered := congrArg (· + 1) hanswered
    last := h.last }

omit [DecidableEq ι] in
/-- Another root is put in use. -/
theorem RefreshInv.other (h : RefreshInv src interval s) {raw : Bytes} {origin : Origin}
    {verifier : SigstoreLibrary.BundleVerifier} (hphase : s.phase = .setting raw origin)
    (hread : Verifier.readRoot raw = .ok (verifier, RegistryLibrary.sha256 raw))
    (huse : s.verifier.inUse (RegistryLibrary.sha256 raw) = false) :
    RefreshInv src interval
      { s with
        rotation := { s.rotation with
          verifier := s.verifier.putInUse verifier (RegistryLibrary.sha256 raw)
          rotating := true
          epoch := s.rotation.epoch + 1 }
        goods := raw :: s.goods
        phase := .clearing } := by
  rcases h.root.other hread huse with ⟨hroot, hchanges⟩
  have hupdated := h.updated
  have hanswered := h.answered
  rw [hphase] at hupdated hanswered
  exact {
    root := hroot
    rotating := by simp
    fits := trivial
    changes := hchanges.trans (congrArg (· + 1) h.changes)
    updated := congrArg (· + 1) hupdated
    answered := congrArg (· + 1) hanswered
    last := h.last }

omit [DecidableEq ι] in
theorem RefreshInv.clear (h : RefreshInv src interval s) (hphase : s.phase = .clearing) :
    RefreshInv src interval
      { s with rotation := s.rotation.clear, phase := .recording .updated } := by
  have hupdated := h.updated
  have hanswered := h.answered
  rw [hphase] at hupdated hanswered
  exact {
    root := h.root
    rotating := by simp [RotationState.clear]
    fits := trivial
    changes := h.changes
    updated := hupdated
    answered := hanswered
    last := h.last }

omit [DecidableEq ι] in
/-- A failure is counted, and the root stays. -/
theorem RefreshInv.failed (h : RefreshInv src interval s) {e : Text}
    (hphase : s.phase = .recording (.failed e)) (hidle : s.rotation.rotating = false) :
    RefreshInv src interval
      { s with
        rotation := { s.rotation with verifier := s.verifier.noteUnavailable e }
        refreshes := Function.update s.refreshes .error (s.refreshes .error + 1)
        lastError := some e
        phase := .waiting
          (s.now + refreshWait interval (s.verifier.noteUnavailable e).hasTrustedRoot) } := by
  have hroot := h.root.note e
  have hupdated := h.updated
  have hanswered := h.answered
  rw [hphase] at hupdated hanswered
  exact {
    root := hroot
    rotating := by simp [hidle]
    fits := by
      have heq := hasTrustedRoot_iff hroot
      exact Nat.le_of_eq (congrArg (fun b => s.now + refreshWait interval b) heq)
    changes := h.changes
    updated := by simpa [RefreshPhase.updates] using hupdated
    answered := by simpa [RefreshPhase.reads] using hanswered
    last := by simpa using h.last }

omit [DecidableEq ι] in
/-- A success is counted and dated. -/
theorem RefreshInv.succeeded (h : RefreshInv src interval s) {outcome : Outcome}
    (hphase : s.phase = .recording outcome) (houtcome : outcome.label ≠ .error) :
    RefreshInv src interval
      { s with
        refreshes :=
          Function.update s.refreshes outcome.label (s.refreshes outcome.label + 1)
        lastRefresh := some s.now
        phase := .waiting (s.now + refreshWait interval s.verifier.hasTrustedRoot) } := by
  have hidle : ¬ s.rotation.rotating = true := fun hrotating => by
    cases hphase.symm.trans (h.rotating.1 hrotating)
  have hupdated := h.updated
  have hanswered := h.answered
  rw [hphase] at hupdated hanswered
  have hfits : s.now + refreshWait interval s.verifier.hasTrustedRoot ≤
      s.now + refreshWait interval (!s.goods.isEmpty) :=
    Nat.le_of_eq (congrArg (fun b => s.now + refreshWait interval b) (hasTrustedRoot_iff h.root))
  cases outcome with
  | failed e => exact absurd rfl houtcome
  | updated =>
      exact {
        root := h.root
        rotating := by simp [hidle]
        fits := hfits
        changes := h.changes
        updated := by simpa [Outcome.label, RefreshPhase.updates] using hupdated
        answered := by
          simpa [Outcome.label, RefreshPhase.reads, Nat.add_right_comm] using hanswered
        last := by simp [Outcome.label] }
  | unchanged =>
      exact {
        root := h.root
        rotating := by simp [hidle]
        fits := hfits
        changes := h.changes
        updated := by simpa [Outcome.label, RefreshPhase.updates] using hupdated
        answered := by simpa [Outcome.label, RefreshPhase.reads, Nat.add_assoc] using hanswered
        last := by simp [Outcome.label] }

/-- Every step keeps it. -/
theorem RefreshInv.step {s' : RefreshState ι} {a : RefreshAction ι} (h : RefreshInv src interval s)
    (hstep : refreshStep src interval s a = some s') : RefreshInv src interval s' := by
  cases refreshStep_cases hstep with
  | verify hcall hmove => exact h.verify hcall hmove
  | elapse d => exact h.elapse d
  | wake hphase hwake =>
      exact h.turn (by rw [hphase]; rfl) rfl (hasTrustedRoot_iff h.root)
  | fetched hphase hanswer => exact h.turn (by rw [hphase]; rfl) rfl trivial
  | fetchFailed hphase hanswer => exact h.turn (by rw [hphase]; rfl) rfl trivial
  | fallBack hphase hanswer =>
      have hfits := h.fits
      rw [hphase] at hfits
      have hnone : s.goods.isEmpty = true := by simpa [RefreshPhase.Fits] using hfits
      exact h.turn (by rw [hphase]; rfl) rfl (List.isEmpty_iff.1 hnone)
  | cached hphase =>
      have hfits := h.fits
      rw [hphase] at hfits
      exact h.turn (by rw [hphase]; rfl) rfl hfits
  | cacheFailed hphase => exact h.turn (by rw [hphase]; rfl) rfl trivial
  | unread hphase hread => exact h.turn (by rw [hphase]; rfl) rfl trivial
  | same hphase hread huse hidle =>
      rcases readRoot_hash hread with rfl
      exact h.same hphase huse hidle
  | other hphase hread huse hidle =>
      rcases readRoot_hash hread with rfl
      exact h.other hphase hread huse
  | clear hphase hrotating => exact h.clear hphase
  | failed hphase hidle => exact h.failed hphase hidle
  | succeeded hphase houtcome => exact h.succeeded hphase houtcome

end Steps

theorem refreshInv_reachable {src : Source} {interval : Nat} {v : Verifier}
    {policy : Option (Text → Signer → Bool)} {s : RefreshState ι}
    (hs : (refreshing ι src interval v policy).Reachable s) : RefreshInv src interval s := by
  refine hs.invariant ?_ ?_
  · rintro s rfl
    exact .start v policy
  · intro s a s' _ h hstep
    exact h.step hstep

omit [SigstoreLibrary] in
/-- The flag keeps the fetches a minute apart. -/
theorem refreshWait_checked {interval : Nat} (h : checkRefresh interval = .ok ()) (hasRoot : Bool) :
    minRefresh ≤ refreshWait interval hasRoot ∧ refreshWait interval hasRoot ≤ interval := by
  have hmin : minRefresh ≤ interval := by
    apply Nat.le_of_not_lt
    intro hlt
    simp [checkRefresh, hlt] at h
  cases hasRoot with
  | true => exact ⟨hmin, Nat.le_refl _⟩
  | false => exact ⟨Nat.le_min.2 ⟨hmin, Nat.le_refl _⟩, Nat.min_le_left _ _⟩

/-- A call waits for nothing of a refresh but for the digests to be forgotten. -/
theorem call_waits {src : Source} {interval : Nat} {s : RefreshState ι}
    (h : RefreshInv src interval s) {i : ι} {c : Call} (hc : s.rotation.calls i = some c)
    (hcall : c.finished = false) :
    (refreshStep src interval s (.verify (.call i))).isSome ∨
      s.phase = .clearing ∧ ∃ s1, refreshStep src interval s .clear = some s1 ∧
        (refreshStep src interval s1 (.verify (.call i))).isSome := by
  cases hrotating : s.rotation.rotating with
  | false =>
      apply Or.inl
      simp [refreshStep, RotationAction.ofCall, rotationStep, hc, hcall, hrotating]
  | true =>
      have hphase : s.phase = .clearing := h.rotating.1 hrotating
      refine Or.inr ⟨hphase,
        { s with rotation := s.rotation.clear, phase := .recording .updated }, ?_, ?_⟩
      · simp [refreshStep, hphase, rotationStep, hrotating]
      · simp [refreshStep, RotationAction.ofCall, rotationStep, RotationState.clear, hc, hcall]

/-- Whatever the repository answers, and whenever, the root in use is the latest one that was read,
from the cache only as long as there was none; each change of root is counted once and has made
`set_trusted_root` forget the digests once; the refresher is never asleep for longer than the
interval, nor without a root for longer than a minute; and a call waits for nothing of a refresh but
for the digests to be forgotten. -/
theorem trusted_root_kept (src : Source) (interval : Nat) (v : Verifier)
    (policy : Option (Text → Signer → Bool)) {s : RefreshState ι}
    (hs : (refreshing ι src interval v policy).Reachable s) :
    RootInUse src.name s.goods s.lastError s.verifier.keyless ∧
    (∀ raw, s.phase = .setting raw .cache → s.goods = []) ∧
    s.refreshes .updated + s.phase.updates = rootChanges s.goods ∧
    rootChanges s.goods = s.rotation.returned + (if s.phase = .clearing then 1 else 0) ∧
    s.refreshes .updated + s.refreshes .unchanged + s.phase.reads = s.goods.length ∧
    (s.lastRefresh = none ↔ s.refreshes .updated + s.refreshes .unchanged = 0) ∧
    (∀ wake, s.phase = .waiting wake →
      wake ≤ s.now + if s.goods = [] then min interval retryWithoutRoot else interval) ∧
    ∀ i c, s.rotation.calls i = some c → c.finished = false →
      (refreshStep src interval s (.verify (.call i))).isSome ∨
        s.phase = .clearing ∧ ∃ s1, refreshStep src interval s .clear = some s1 ∧
          (refreshStep src interval s1 (.verify (.call i))).isSome := by
  have h := refreshInv_reachable hs
  refine ⟨h.root, ?_, h.updated.trans h.changes.symm, ?_, h.answered, h.last, ?_, ?_⟩
  · intro raw hphase
    have hfits := h.fits
    rw [hphase] at hfits
    exact hfits
  · have hrecorded := recorded_reachable ((refreshing_refines src interval v policy).reachable hs)
    calc rootChanges s.goods
        = s.rotation.epoch := h.changes
      _ = s.rotation.returned + (if s.rotation.rotating then 1 else 0) := hrecorded.epoch
      _ = s.rotation.returned + (if s.phase = .clearing then 1 else 0) := by
          simp only [h.rotating]
  · intro wake hphase
    have hfits := h.fits
    rw [hphase] at hfits
    have hle : wake ≤ s.now + refreshWait interval (!s.goods.isEmpty) := hfits
    cases hgoods : s.goods with
    | nil => simpa [refreshWait, hgoods] using hle
    | cons raw older => simpa [refreshWait, hgoods] using hle
  · intro i c hc hcall
    exact call_waits h hc hcall

end Refreshing

attribute [local instance] fixtureLibrary

def day : Nat := 24 * 60 * 60 * second

def publicGood : Source where
  name := "public-good".toList
  url := "https://tuf-repo-cdn.sigstore.dev".toList

/-- The first root is put in use, and a day later the repository does not answer. -/
def lateActions : List (RefreshAction Nat) :=
  [.wake, .fetched (some (.ok [65])), .set, .clear, .record, .elapse day, .wake, .fetched none,
    .record]

def lateRun (s : RefreshState Nat) : Prop :=
  (refreshing Nat publicGood day fixtureStart.verifier (some fixturePolicy)).Reachable s

theorem exists_late :
    ∃ s, lateRun s ∧ s.goods = [[65]] ∧ s.refreshes .error = 1 ∧ s.lastError.isSome := by
  have hcheck : (lateActions.foldlM (refreshStep publicGood day)
      (RefreshState.start
        (fixtureStart.verifier.awaitingTrustedRoot publicGood.name (some fixturePolicy)))).map
      (fun s => (s.goods, s.refreshes .error, s.lastError.isSome)) = some ([[65]], 1, true) := by
    decide +kernel
  rcases Option.map_eq_some_iff.1 hcheck with ⟨s, hrun, hs⟩
  simp only [Prod.mk.injEq] at hs
  rcases hs with ⟨hgoods, herrors, hlast⟩
  exact ⟨s, .run (fun _ _ _ hstep => hstep) (.init rfl) hrun, hgoods, herrors, hlast⟩

/-- The root of the day before stays. -/
theorem late_root_kept :
    ∃ s : RefreshState Nat, s.refreshes .error = 1 ∧ s.rotation.returned ≤ 1 ∧
      ∃ verifier, s.verifier.keyless = .ready verifier (some [65]) := by
  rcases exists_late with ⟨s, hs, hgoods, herrors, -⟩
  rcases trusted_root_kept publicGood day _ _ hs with ⟨hroot, -, -, hreturned, -⟩
  rw [hgoods] at hroot hreturned
  rcases hroot with ⟨read, hmem, verifier, hread, hready⟩
  have hone : s.rotation.returned ≤ 1 := by
    have hle := Nat.le_add_right s.rotation.returned (if s.phase = .clearing then 1 else 0)
    exact hle.trans (Nat.le_of_eq hreturned.symm)
  exact ⟨s, herrors, hone, verifier, hready⟩

end Cosign
end FunctionWasm

import FunctionWasm.Cache.Store
import FunctionWasm.Foundation.Transition

/-!
# Keyed — what a keyed store hands out

Whoever can write to the directory of a keyed store cannot make a tag, but can copy one.  The tag of
an entry certifies its bytes and not its name, so an entry and its sidecar under the names of another
digest verify there as well.

* `keyedSystem` takes the calls of one process; the others act before each file operation.
* `Unforged` is what the MAC promises: bytes whose tag verifies were put.
* `keyed_store_authentic` says which runs hand out only what was put under the same digest.
* `replayed_entry_served` is a run that does not.
-/

namespace FunctionWasm
namespace Keyed

section Lookups

variable [MacLibrary]

/-- The bytes of an entry and the tag of its sidecar, where both can be read. -/
def readPair (path : Text) (d : Disk) : Option (Bytes × Bytes) :=
  match d.read path with
  | (.error _, _) => none
  | (.ok b, d) =>
      match d.read (macPath path) with
      | (.error _, _) => none
      | (.ok tag, _) => (hexDecode tag).map (Prod.mk b)

/-- The bytes that a `path` call checks with success, if it gets that far. -/
def vouched (st : Store) (key : StoreKey) (digest : Text) (d : Disk) : Option Bytes :=
  let path := st.entryPath digest
  match d.stat path with
  | (some (.file _), d) =>
      ((readPair path d).filter fun p => Store.verifyMac key p.1 p.2).map Prod.fst
  | _ => none

theorem sidecarVerifies_eq (key : StoreKey) (path : Text) (d : Disk) :
    (Store.sidecarVerifies key path d).1 =
      (readPair path d).any fun p => Store.verifyMac key p.1 p.2 := by
  unfold Store.sidecarVerifies readPair
  rcases d.read path with ⟨read, d1⟩
  cases read with
  | error e => rfl
  | ok b =>
      dsimp only
      rcases d1.read (macPath path) with ⟨tag, d2⟩
      cases tag with
      | error e => rfl
      | ok tag => simp [Option.any_map]

/-- A keyed store hands out the path of an entry exactly where its bytes were checked with success. -/
theorem path_hit (st : Store) (key : StoreKey) (digest p : Text) (d : Disk) :
    ((st.withKey key).path digest d).1 = .hit p ↔
      p = st.entryPath digest ∧ ∃ b, vouched st key digest d = some b := by
  have hpath : (st.withKey key).entryPath digest = st.entryPath digest := rfl
  have hkey : (st.withKey key).key = some key := rfl
  unfold Store.path vouched
  rw [hpath, hkey]
  dsimp only
  rcases hstat : d.stat (st.entryPath digest) with ⟨node, d1⟩
  match node with
  | none => simp
  | some .dir => simp
  | some (.file content) =>
      dsimp only
      have hverify := sidecarVerifies_eq key (st.entryPath digest) d1
      -- both sides depend on what the reads of the entry and of its sidecar come back with
      cases hpair : readPair (st.entryPath digest) d1 with
      | none =>
          rw [hpair, Option.any_none] at hverify
          split
          · simp
          · next hfresh => simp [hfresh] at hverify
      | some pair =>
          rw [hpair, Option.any_some] at hverify
          split
          · next hstale =>
              rw [hstale] at hverify
              simp [Option.filter, ← hverify]
          · next hfresh =>
              rw [hfresh] at hverify
              simp [Option.filter, ← hverify, eq_comm]

end Lookups

/-! ## Runs -/

/-- The directory, with the history of what was put and of what was handed out. -/
structure State where
  disk : Disk
  puts : List (Text × Bytes)
  hits : List (Text × Bytes)

inductive Call where
  | put (digest : Text) (b : Bytes)
  | path (digest : Text)

/-- Whatever was handed out under a digest was put under that digest. -/
def Authentic (s : State) : Prop :=
  ∀ hit ∈ s.hits, hit ∈ s.puts

section Runs

variable [RegistryLibrary] [MacLibrary] (st : Store) (key : StoreKey)

def after (s : State) : Call → State
  | .put digest b =>
      { s with
        disk := ((st.withKey key).put digest b s.disk).2
        puts := (digest, b) :: s.puts }
  | .path digest =>
      { s with
        disk := ((st.withKey key).path digest s.disk).2
        hits :=
          match ((st.withKey key).path digest s.disk).1, vouched st key digest s.disk with
          | .hit _, some b => (digest, b) :: s.hits
          | _, _ => s.hits }

/-- No tag is made without the key: bytes that are checked with success were put, under some
digest. -/
def Unforged (s : State) : Call → Prop
  | .put _ _ => True
  | .path digest =>
      ∀ b, vouched st key digest s.disk = some b → ∃ other, (other, b) ∈ s.puts

/-- The calls of a process that starts with some directory and a fresh key. -/
def keyedSystem : TransitionSystem State Call where
  init s := s.puts = [] ∧ s.hits = []
  step s a s' := Unforged st key s a ∧ s' = after st key s a

/-- The entry and the sidecar that a `path` call finds are not a pair that was put under other
digests only. -/
def NotReplayed (s : State) : Call → Prop
  | .put _ _ => True
  | .path digest =>
      ∀ b other, vouched st key digest s.disk = some b → (other, b) ∈ s.puts → (digest, b) ∈ s.puts

variable {st key}

/-- What a `path` call adds to the history. -/
theorem after_path_hits (s : State) (digest : Text) :
    (after st key s (.path digest)).hits =
      ((vouched st key digest s.disk).map (Prod.mk digest)).toList ++ s.hits := by
  have hhit := fun p => path_hit st key digest p s.disk
  cases hvouched : vouched st key digest s.disk with
  | none =>
      simp only [after, hvouched]
      split <;> simp_all
  | some b =>
      have hpath := (hhit (st.entryPath digest)).2 ⟨rfl, b, hvouched⟩
      simp [after, hvouched, hpath]

/-- A call that finds no replayed pair keeps the history authentic. -/
theorem authentic_after {s : State} {a : Call} (h : Authentic s) (hforge : Unforged st key s a)
    (hreplay : NotReplayed st key s a) : Authentic (after st key s a) := by
  intro hit hmem
  cases a with
  | put digest b => exact List.mem_cons_of_mem _ (h hit hmem)
  | path digest =>
      rw [after_path_hits] at hmem
      rcases List.mem_append.1 hmem with hnew | hold
      · rcases Option.map_eq_some_iff.1 (Option.mem_toList.1 hnew) with ⟨b, hvouched, rfl⟩
        rcases hforge b hvouched with ⟨other, hput⟩
        exact hreplay b other hvouched hput
      · exact h hit hold

/-- A call that finds a replayed pair hands it out. -/
theorem not_authentic_after {s : State} {digest : Text}
    (hreplay : ¬ NotReplayed st key s (.path digest)) :
    ¬ Authentic (after st key s (.path digest)) := by
  intro h
  apply hreplay
  intro b other hvouched _
  have hmem : (digest, b) ∈ (after st key s (.path digest)).hits := by
    simp [after_path_hits, hvouched]
  exact h (digest, b) hmem

end Runs

/-- Where no call finds a pair that was put under other digests only, every path handed out held
bytes that were put under the digest asked for; and any call that finds such a pair hands it out. -/
theorem keyed_store_authentic [RegistryLibrary] [MacLibrary] (st : Store) (key : StoreKey) :
    (∀ s, ((keyedSystem st key).restrict (NotReplayed st key)).Reachable s → Authentic s) ∧
    ∀ s digest, (keyedSystem st key).Reachable s → Unforged st key s (.path digest) →
      ¬ NotReplayed st key s (.path digest) →
        ∃ s', (keyedSystem st key).Reachable s' ∧ ¬ Authentic s' := by
  constructor
  · intro s hs
    apply hs.invariant
    · rintro s ⟨-, hhits⟩
      simp [Authentic, hhits]
    · rintro s a s' - h ⟨hreplay, hforge, rfl⟩
      exact authentic_after h hforge hreplay
  · intro s digest hs hforge hreplay
    exact ⟨_, .step (.path digest) hs ⟨hforge, rfl⟩, not_authentic_after hreplay⟩

/-! ## A replayed pair -/

/-- A MAC that prefixes the key. -/
@[reducible] def fixtureMac : MacLibrary where
  mac key b := key.toList ++ b

/-- No digest is computed by a store that does not verify. -/
@[reducible] def fixtureDigests : RegistryLibrary where
  sha256 := id
  manifestFromJson _ := .error []
  indexFromJson _ := .error []

attribute [local instance] fixtureMac fixtureDigests

def compiledStore : Store where
  dir := "/tmp/c".toList
  verify := false
  key := none

def fixtureKey : StoreKey := Vector.replicate 32 7

/-- Once the first put is over, the others copy its entry and its sidecar to the names of `b`. -/
def copied : Nat → Files → Files := fun n files =>
  if n = 4 then
    Function.update
      (Function.update files "/tmp/c/sha256-b".toList (files "/tmp/c/sha256-a".toList))
      "/tmp/c/sha256-b.mac".toList (files "/tmp/c/sha256-a.mac".toList)
  else files

def emptyDirectory : State where
  disk :=
    { files := fun path => if path = "/tmp/c".toList then some .dir else none
      others := copied
      fails := fun _ => false
      errors := fun _ => []
      random := fun n => [UInt8.ofNat n]
      log := [] }
  puts := []
  hits := []

def putA : State := after compiledStore fixtureKey emptyDirectory (.put "sha256:a".toList [1])

/-- What was put under `a` only is handed out under `b`. -/
theorem replayed_entry_served :
    ∃ s, (keyedSystem compiledStore fixtureKey).Reachable s ∧ ¬ Authentic s := by
  have hput : (keyedSystem compiledStore fixtureKey).Reachable putA :=
    .step (.put "sha256:a".toList [1]) (.init ⟨rfl, rfl⟩) ⟨trivial, rfl⟩
  have hvouched : vouched compiledStore fixtureKey "sha256:b".toList putA.disk = some [1] := by
    decide +kernel
  have hforge : Unforged compiledStore fixtureKey putA (.path "sha256:b".toList) := by
    intro b hb
    rw [hvouched, Option.some_inj] at hb
    exact ⟨"sha256:a".toList, by simp [putA, after, hb]⟩
  refine ⟨_, .step (.path "sha256:b".toList) hput ⟨hforge, rfl⟩, ?_⟩
  apply not_authentic_after
  intro hbound
  have hmem := hbound [1] "sha256:a".toList hvouched (by simp [putA, after])
  simp [putA, after, emptyDirectory] at hmem

end Keyed
end FunctionWasm

import Mathlib.Data.List.DropRight
import Mathlib.Data.Nat.Log
import Mathlib.Logic.Function.Basic
import FunctionWasm.Foundation.Text
import FunctionWasm.Foundation.Transition

/-!
# ModuleCache — compiled modules by content digest

A lookup is answered from memory, from the artifact on disk, or by fetching and compiling.  Whoever
finds nothing in memory goes to the flight of its digest: a cell in a map, whose first comer loads
while the others wait.  When its load is settled a caller drops the flight from the map and puts a
module in memory.

* `MemoryTier.get` and `put` are the memory tier.
* `CacheState` are the callers at every point where another may go on, `cacheStep` every move of
  them; the network, the compiler and the disk answer what they like.
* `CacheMove` says what a step can do.
-/

namespace FunctionWasm

/-! ## Durations, in nanoseconds -/

namespace Duration

/-- The integer part of `ns / unit` with the fractional digits, trailing zeros trimmed. -/
def frac (ns unit : Nat) : Text :=
  let whole := ns / unit
  let rem := ns % unit
  if rem = 0 then (toString whole).toList
  else
    let digits := (toString rem).toList.leftpad (Nat.log 10 unit) '0'
    (toString whole).toList ++ '.' :: digits.rdropWhile (· = '0')

/-- The largest unit first. -/
def format (ns : Nat) : Text :=
  if ns = 0 then "0s".toList
  else if ns < 1000 then (toString ns).toList ++ "ns".toList
  else if ns < 1000000 then frac ns 1000 ++ "µs".toList
  else if ns < 1000000000 then frac ns 1000000 ++ "ms".toList
  else
    let seconds := frac (ns % 60000000000) 1000000000 ++ "s".toList
    let minutes := (toString (ns / 60000000000 % 60)).toList ++ "m".toList
    let hours := (toString (ns / 3600000000000)).toList ++ "h".toList
    if ns / 3600000000000 = 0 then
      if ns / 60000000000 % 60 = 0 then seconds else minutes ++ seconds
    else hours ++ minutes ++ seconds

end Duration

/-! ## Options -/

/-- `disk` is whether there is a store of artifacts. -/
structure CacheOptions where
  disk : Bool := false
  idleTtl : Option Nat := none
  noMemory : Bool := false
  maxEntries : Nat := 0
  compileTimeout : Option Nat := none
  maxConcurrentCompiles : Nat := 0
  deriving DecidableEq, Repr

def defaultIdleTtl : Nat :=
  10 * 60 * 1000000000

def CacheOptions.ttl (o : CacheOptions) : Nat :=
  o.idleTtl.getD defaultIdleTtl

variable {μ : Type}

/-! ## The memory tier -/

structure MemoryEntry (μ : Type) where
  value : μ
  lastUsed : Nat
  deriving DecidableEq, Repr

/-- The map of entries; in what order it holds them is not said. -/
abbrev MemoryTier (μ : Type) := List (Text × MemoryEntry μ)

namespace MemoryTier

/-- `memory_get`: what has expired is dropped, and what is found is used now. -/
def get (o : CacheOptions) (now : Nat) (digest : Text) (t : MemoryTier μ) :
    Option μ × MemoryTier μ :=
  if o.noMemory then (none, t)
  else
    let kept := t.filter fun x => now - x.2.lastUsed < o.ttl
    match kept.lookup digest with
    | some e =>
        (some e.value,
          kept.map fun x => if x.1 = digest then (x.1, { x.2 with lastUsed := now }) else x)
    | none => (none, kept)

/-- The entries beyond the bound are dropped, each the oldest of those left.  Which one of several
is the oldest the map's order decides: `victims` are the ones it was. -/
def evict (o : CacheOptions) : List Text → MemoryTier μ → Option (MemoryTier μ)
  | [], t => if o.maxEntries = 0 ∨ t.length ≤ o.maxEntries then some t else none
  | k :: victims, t =>
      match t.lookup k with
      | some e =>
          if 0 < o.maxEntries ∧ o.maxEntries < t.length ∧ ∀ x ∈ t, e.lastUsed ≤ x.2.lastUsed then
            evict o victims (t.filter fun x => x.1 ≠ k)
          else none
      | none => none

/-- `memory_put`. -/
def put (o : CacheOptions) (now : Nat) (digest : Text) (value : μ) (victims : List Text)
    (t : MemoryTier μ) : Option (MemoryTier μ) :=
  if o.noMemory then some t
  else
    evict o victims
      ((digest, { value := value, lastUsed := now }) :: t.filter fun x => x.1 ≠ digest)

theorem mem_of_lookup {t : MemoryTier μ} {k : Text} {e : MemoryEntry μ}
    (h : t.lookup k = some e) : (k, e) ∈ t := by
  rcases List.lookup_eq_some_iff.1 h with ⟨before, after, rfl, -⟩
  exact List.mem_append_right _ List.mem_cons_self

/-- What is found in memory was an entry of the digest; what is kept is as it was but for its last
use. -/
theorem get_sound {o : CacheOptions} {now : Nat} {digest : Text} {t : MemoryTier μ} :
    (∀ m, (get o now digest t).1 = some m → ∃ e, (digest, e) ∈ t ∧ e.value = m) ∧
    ∀ x ∈ (get o now digest t).2, ∃ y ∈ t, y.1 = x.1 ∧ y.2.value = x.2.value := by
  unfold get
  by_cases hmem : o.noMemory = true
  · simp only [hmem, if_true]
    exact ⟨fun _ h => (by cases h), fun x hx => ⟨x, hx, rfl, rfl⟩⟩
  · simp only [hmem, Bool.false_eq_true, if_false]
    have hkept : ∀ x ∈ t.filter (fun x => now - x.2.lastUsed < o.ttl), x ∈ t := fun _ hx =>
      List.mem_of_mem_filter hx
    split
    · next e he =>
        refine ⟨fun m hm => ⟨e, hkept _ (mem_of_lookup he), Option.some.inj hm⟩, fun x hx => ?_⟩
        rcases List.mem_map.1 hx with ⟨y, hy, rfl⟩
        refine ⟨y, hkept y hy, ?_⟩
        split <;> exact ⟨rfl, rfl⟩
    · exact ⟨fun _ h => (by cases h), fun x hx => ⟨x, hkept x hx, rfl, rfl⟩⟩

theorem evict_subset {o : CacheOptions} {victims : List Text} :
    ∀ {t t' : MemoryTier μ}, evict o victims t = some t' → ∀ x ∈ t', x ∈ t := by
  induction victims with
  | nil =>
      intro t t' h x hx
      simp only [evict] at h
      split at h
      · cases h
        exact hx
      · cases h
  | cons k victims ih =>
      intro t t' h x hx
      simp only [evict] at h
      split at h
      · split at h
        · exact List.mem_of_mem_filter (ih h x hx)
        · cases h
      · cases h

/-- What is in memory after a put is the module put there or was there before. -/
theorem put_sound {o : CacheOptions} {now : Nat} {digest : Text} {value : μ} {victims : List Text}
    {t t' : MemoryTier μ} (h : put o now digest value victims t = some t') :
    ∀ x ∈ t', x ∈ t ∨ x = (digest, { value := value, lastUsed := now }) := by
  intro x hx
  unfold put at h
  split at h
  · cases h
    exact Or.inl hx
  · rcases List.mem_cons.1 (evict_subset h x hx) with hnew | hold
    · exact Or.inr hnew
    · exact Or.inl (List.mem_of_mem_filter hold)

end MemoryTier

/-! ## Callers -/

/-- Where a load is: at the artifact on disk, waiting for a compile permit, or waiting for its
compile's thread. -/
inductive LoadPhase where
  | disk
  | permit
  | compiling (job : Nat)
  deriving DecidableEq, Repr

/-- Where a `get` is. -/
inductive GetPhase (μ : Type) where
  | looking
  | missed
  | waiting (c : Nat)
  | loading (c : Nat) (p : LoadPhase)
  | settled (r : Except Text μ)
  | dropped (r : Except Text μ)
  | returned (r : Except Text μ)

structure Caller (μ : Type) where
  digest : Text
  phase : GetPhase μ

/-- A flight's cell, a `OnceCell`: who holds its one permit initializes it, and when that fails or
is cancelled the next one waiting may. -/
structure FlightCell (μ : Type) where
  digest : Text
  value : Option μ
  holder : Option Nat
  deriving DecidableEq

/-- How a compile's thread ended. -/
inductive JobOutcome (μ : Type) where
  | done (r : Except Text μ)
  | panicked (e : Text)

def JobOutcome.joined : JobOutcome μ → Except Text μ
  | .done r => r
  | .panicked e => .error ("internal error while loading the module: ".toList ++ e)

/-- The cache with its callers, by number.  `compiles` are the free permits, a job without an
outcome runs and holds one; `loaded` is which modules the loads of which digest have returned. -/
structure CacheState (μ : Type) where
  now : Nat
  entries : MemoryTier μ
  loading : Text → Option Nat
  made : Nat
  cells : Nat → Option (FlightCell μ)
  arrived : Nat
  callers : Nat → Option (Caller μ)
  compiles : Nat
  started : Nat
  jobs : Nat → Option (Option (JobOutcome μ))
  loaded : List (Text × μ)

inductive CacheAction (μ : Type) where
  | elapse (d : Nat)
  | arrive (digest : Text)
  | lookup (i : Nat)
  | enter (i : Nat)
  | ready (i : Nat)
  | acquire (i : Nat)
  | diskHit (i : Nat) (m : μ)
  | diskMiss (i : Nat)
  | spawn (i : Nat)
  | finish (j : Nat) (outcome : JobOutcome μ)
  | join (i : Nat)
  | timeout (i : Nat)
  | remove (i : Nat)
  | put (i : Nat) (victims : List Text)
  | cancel (i : Nat)

namespace CacheState

def new (μ : Type) (o : CacheOptions) : CacheState μ where
  now := 0
  entries := []
  loading := fun _ => none
  made := 0
  cells := fun _ => none
  arrived := 0
  callers := fun _ => none
  compiles := max 1 o.maxConcurrentCompiles
  started := 0
  jobs := fun _ => none
  loaded := []

def setCaller (s : CacheState μ) (i : Nat) (x : Option (Caller μ)) : CacheState μ :=
  { s with callers := Function.update s.callers i x }

def setPhase (s : CacheState μ) (i : Nat) (digest : Text) (p : GetPhase μ) : CacheState μ :=
  s.setCaller i (some { digest := digest, phase := p })

def setCell (s : CacheState μ) (c : Nat) (y : FlightCell μ) : CacheState μ :=
  { s with cells := Function.update s.cells c (some y) }

def setJob (s : CacheState μ) (j : Nat) (outcome : Option (JobOutcome μ)) : CacheState μ :=
  { s with jobs := Function.update s.jobs j (some outcome) }

/-- A new call. -/
def arrive (s : CacheState μ) (digest : Text) : CacheState μ :=
  { s.setPhase s.arrived digest .looking with arrived := s.arrived + 1 }

def lookup (s : CacheState μ) (o : CacheOptions) (i : Nat) (digest : Text) : CacheState μ :=
  let found := MemoryTier.get o s.now digest s.entries
  { s with entries := found.2 }.setPhase i digest
    (match found.1 with
      | some m => .returned (.ok m)
      | none => .missed)

/-- The first caller to miss makes its digest's cell. -/
def launch (s : CacheState μ) (i : Nat) (digest : Text) : CacheState μ :=
  { (s.setCell s.made { digest := digest, value := none, holder := none }).setPhase i digest
      (.waiting s.made) with
    loading := Function.update s.loading digest (some s.made)
    made := s.made + 1 }

/-- A caller is granted the permit of its cell, and its load begins. -/
def acquire (s : CacheState μ) (o : CacheOptions) (i : Nat) (digest : Text) (c : Nat)
    (y : FlightCell μ) : CacheState μ :=
  (s.setCell c { y with holder := some i }).setPhase i digest
    (.loading c (if o.disk then .disk else .permit))

/-- A load takes a compile permit to its thread. -/
def spawn (s : CacheState μ) (i : Nat) (digest : Text) (c : Nat) : CacheState μ :=
  { (s.setJob s.started none).setPhase i digest (.loading c (.compiling s.started)) with
    compiles := s.compiles - 1
    started := s.started + 1 }

def finish (s : CacheState μ) (j : Nat) (outcome : JobOutcome μ) : CacheState μ :=
  { s.setJob j (some outcome) with compiles := s.compiles + 1 }

/-- A load is settled: a module is left in the cell. -/
def settle (s : CacheState μ) (i : Nat) (digest : Text) (c : Nat) (y : FlightCell μ) :
    Except Text μ → CacheState μ
  | .ok m =>
      { (s.setCell c { y with value := some m, holder := none }).setPhase i digest
          (.settled (.ok m)) with
        loaded := (digest, m) :: s.loaded }
  | .error e => (s.setCell c { y with holder := none }).setPhase i digest (.settled (.error e))

/-- The digest's flight is dropped from the map, whichever it is by now. -/
def remove (s : CacheState μ) (i : Nat) (digest : Text) (r : Except Text μ) : CacheState μ :=
  { s.setPhase i digest (.dropped r) with loading := Function.update s.loading digest none }

end CacheState

/-- Every move, under any interleaving of calls. -/
def cacheStep (o : CacheOptions) (s : CacheState μ) : CacheAction μ → Option (CacheState μ)
  | .elapse d => some { s with now := s.now + d }
  | .arrive digest => some (s.arrive digest)
  | .lookup i =>
      match s.callers i with
      | some ⟨digest, .looking⟩ => some (s.lookup o i digest)
      | _ => none
  | .enter i =>
      match s.callers i with
      | some ⟨digest, .missed⟩ =>
          match s.loading digest with
          | some c => some (s.setPhase i digest (.waiting c))
          | none => some (s.launch i digest)
      | _ => none
  | .ready i =>
      match s.callers i with
      | some ⟨digest, .waiting c⟩ =>
          match (s.cells c).bind FlightCell.value with
          | some m => some (s.setPhase i digest (.settled (.ok m)))
          | none => none
      | _ => none
  | .acquire i =>
      match s.callers i with
      | some ⟨digest, .waiting c⟩ =>
          match s.cells c with
          | some y =>
              if y.value.isNone ∧ y.holder = none then some (s.acquire o i digest c y) else none
          | none => none
      | _ => none
  | .diskHit i m =>
      match s.callers i with
      | some ⟨digest, .loading c .disk⟩ => (s.cells c).map fun y => s.settle i digest c y (.ok m)
      | _ => none
  | .diskMiss i =>
      match s.callers i with
      | some ⟨digest, .loading c .disk⟩ => some (s.setPhase i digest (.loading c .permit))
      | _ => none
  | .spawn i =>
      match s.callers i with
      | some ⟨digest, .loading c .permit⟩ =>
          if 0 < s.compiles then some (s.spawn i digest c) else none
      | _ => none
  | .finish j outcome =>
      match s.jobs j with
      | some none => some (s.finish j outcome)
      | _ => none
  | .join i =>
      match s.callers i with
      | some ⟨digest, .loading c (.compiling j)⟩ =>
          match (s.jobs j).bind id with
          | some outcome => (s.cells c).map fun y => s.settle i digest c y outcome.joined
          | none => none
      | _ => none
  | .timeout i =>
      match s.callers i, o.compileTimeout with
      | some ⟨digest, .loading c (.compiling j)⟩, some bound =>
          -- the thread goes on and keeps its permit
          match s.jobs j with
          | some none =>
              (s.cells c).map fun y => s.settle i digest c y
                (.error ("compile exceeded --module-compile-timeout ".toList ++
                  Duration.format bound))
          | _ => none
      | _, _ => none
  | .remove i =>
      match s.callers i with
      | some ⟨digest, .settled r⟩ => some (s.remove i digest r)
      | _ => none
  | .put i victims =>
      match s.callers i with
      | some ⟨digest, .dropped (.ok m)⟩ =>
          (MemoryTier.put o s.now digest m victims s.entries).map fun entries =>
            { s with entries := entries }.setPhase i digest (.returned (.ok m))
      | some ⟨digest, .dropped (.error e)⟩ => some (s.setPhase i digest (.returned (.error e)))
      | _ => none
  | .cancel i =>
      match s.callers i with
      | some ⟨_, .returned _⟩ => none
      | some ⟨_, .dropped _⟩ => none
      | some ⟨_, .loading c _⟩ =>
          (s.cells c).map fun y => (s.setCell c { y with holder := none }).setCaller i none
      | some _ => some (s.setCaller i none)
      | none => none

def cacheSystem (μ : Type) (o : CacheOptions) :
    TransitionSystem (CacheState μ) (CacheAction μ) where
  init s := s = CacheState.new μ o
  step s a s' := cacheStep o s a = some s'

/-! ## What a step can do -/

/-- A caller's load goes on, a compile's permit, thread and number aside. -/
def CacheState.goOn (s : CacheState μ) (i : Nat) (digest : Text) (c : Nat) (p : LoadPhase)
    (compiles started : Nat) (jobs : Nat → Option (Option (JobOutcome μ))) : CacheState μ :=
  { s with compiles := compiles, started := started, jobs := jobs }.setPhase i digest
    (.loading c p)

inductive CacheMove (o : CacheOptions) (s : CacheState μ) : CacheAction μ → CacheState μ → Prop where
  | elapse (d : Nat) : CacheMove o s (.elapse d) { s with now := s.now + d }
  | arrive (digest : Text) : CacheMove o s (.arrive digest) (s.arrive digest)
  | lookup {i : Nat} {digest : Text} (hx : s.callers i = some ⟨digest, .looking⟩) :
      CacheMove o s (.lookup i) (s.lookup o i digest)
  | enter {i : Nat} {digest : Text} {c : Nat} (hx : s.callers i = some ⟨digest, .missed⟩)
      (hc : s.loading digest = some c) :
      CacheMove o s (.enter i) (s.setPhase i digest (.waiting c))
  | launch {i : Nat} {digest : Text} (hx : s.callers i = some ⟨digest, .missed⟩)
      (hc : s.loading digest = none) : CacheMove o s (.enter i) (s.launch i digest)
  | ready {i : Nat} {digest : Text} {c : Nat} {y : FlightCell μ} {m : μ}
      (hx : s.callers i = some ⟨digest, .waiting c⟩) (hy : s.cells c = some y)
      (hm : y.value = some m) : CacheMove o s (.ready i) (s.setPhase i digest (.settled (.ok m)))
  | acquire {i : Nat} {digest : Text} {c : Nat} {y : FlightCell μ}
      (hx : s.callers i = some ⟨digest, .waiting c⟩) (hy : s.cells c = some y)
      (hvalue : y.value = none) (hfree : y.holder = none) :
      CacheMove o s (.acquire i) (s.acquire o i digest c y)
  | goOn {a : CacheAction μ} {i : Nat} {digest : Text} {c : Nat} {p : LoadPhase}
      (hx : s.callers i = some ⟨digest, .loading c p⟩) (p' : LoadPhase) (compiles started : Nat)
      (jobs : Nat → Option (Option (JobOutcome μ))) :
      CacheMove o s a (s.goOn i digest c p' compiles started jobs)
  | finish (j : Nat) (outcome : JobOutcome μ) :
      CacheMove o s (.finish j outcome) (s.finish j outcome)
  | settle {a : CacheAction μ} {i : Nat} {digest : Text} {c : Nat} {p : LoadPhase}
      {y : FlightCell μ} (hx : s.callers i = some ⟨digest, .loading c p⟩) (hy : s.cells c = some y)
      (r : Except Text μ) : CacheMove o s a (s.settle i digest c y r)
  | remove {i : Nat} {digest : Text} {r : Except Text μ}
      (hx : s.callers i = some ⟨digest, .settled r⟩) :
      CacheMove o s (.remove i) (s.remove i digest r)
  | put {i : Nat} {digest : Text} {r : Except Text μ} {victims : List Text}
      (hx : s.callers i = some ⟨digest, .dropped r⟩) {entries : MemoryTier μ}
      (hentries : ∀ x ∈ entries, x ∈ s.entries ∨ x.1 = digest ∧ r = .ok x.2.value) :
      CacheMove o s (.put i victims)
        ({ s with entries := entries }.setPhase i digest (.returned r))
  | leave {i : Nat} {x : Caller μ} (hx : s.callers i = some x)
      (hidle : ∀ c p, x.phase ≠ .loading c p) : CacheMove o s (.cancel i) (s.setCaller i none)
  | abandon {i : Nat} {digest : Text} {c : Nat} {p : LoadPhase} {y : FlightCell μ}
      (hx : s.callers i = some ⟨digest, .loading c p⟩) (hy : s.cells c = some y) :
      CacheMove o s (.cancel i) ((s.setCell c { y with holder := none }).setCaller i none)

theorem cacheMove_of_step {o : CacheOptions} {s s' : CacheState μ} {a : CacheAction μ}
    (h : cacheStep o s a = some s') : CacheMove o s a s' := by
  cases a with
  | elapse d =>
      cases h
      exact .elapse d
  | arrive digest =>
      cases h
      exact .arrive digest
  | lookup i =>
      simp only [cacheStep] at h
      split at h
      · next hx =>
          cases h
          exact .lookup hx
      · cases h
  | enter i =>
      simp only [cacheStep] at h
      split at h
      · next hx =>
          split at h
          · next hc =>
              cases h
              exact .enter hx hc
          · next hc =>
              cases h
              exact .launch hx hc
      · cases h
  | ready i =>
      simp only [cacheStep] at h
      split at h
      · next hx =>
          split at h
          · next hm =>
              cases h
              rcases Option.bind_eq_some_iff.1 hm with ⟨y, hy, hm⟩
              exact .ready hx hy hm
          · cases h
      · cases h
  | acquire i =>
      simp only [cacheStep] at h
      split at h
      · next hx =>
          split at h
          · next hy =>
              split at h
              · next hcond =>
                  cases h
                  exact .acquire hx hy (Option.isNone_iff_eq_none.1 hcond.1) hcond.2
              · cases h
          · cases h
      · cases h
  -- the disk tier is opaque here: what it answers is the action's own
  | diskHit i m =>
      simp only [cacheStep] at h
      split at h
      · next hx =>
          rcases Option.map_eq_some_iff.1 h with ⟨y, hy, rfl⟩
          exact .settle hx hy _
      · cases h
  | diskMiss i =>
      simp only [cacheStep] at h
      split at h
      · next hx =>
          cases h
          exact .goOn hx _ _ _ _
      · cases h
  | spawn i =>
      simp only [cacheStep] at h
      split at h
      · next hx =>
          split at h
          · cases h
            -- the compile takes a permit and a new thread
            exact .goOn hx (.compiling s.started) (s.compiles - 1) (s.started + 1)
              (Function.update s.jobs s.started (some none))
          · cases h
      · cases h
  | finish j outcome =>
      simp only [cacheStep] at h
      split at h
      · cases h
        exact .finish j outcome
      · cases h
  | join i =>
      simp only [cacheStep] at h
      split at h
      · next hx =>
          split at h
          · rcases Option.map_eq_some_iff.1 h with ⟨y, hy, rfl⟩
            exact .settle hx hy _
          · cases h
      · cases h
  | timeout i =>
      simp only [cacheStep] at h
      split at h
      · next hx _ =>
          split at h
          · rcases Option.map_eq_some_iff.1 h with ⟨y, hy, rfl⟩
            exact .settle hx hy _
          · cases h
      · cases h
  | remove i =>
      simp only [cacheStep] at h
      split at h
      · next hx =>
          cases h
          exact .remove hx
      · cases h
  | put i victims =>
      simp only [cacheStep] at h
      split at h
      · next hx =>
          rcases Option.map_eq_some_iff.1 h with ⟨entries, hput, rfl⟩
          -- an insert may make room, and adds the module under its own digest
          refine .put hx fun x hmem => ?_
          rcases MemoryTier.put_sound hput x hmem with hold | rfl
          · exact Or.inl hold
          · exact Or.inr ⟨rfl, rfl⟩
      · next hx =>
          cases h
          exact .put hx fun x hmem => Or.inl hmem
      · cases h
  | cancel i =>
      simp only [cacheStep] at h
      split at h
      · cases h
      · cases h
      · next hx =>
          rcases Option.map_eq_some_iff.1 h with ⟨y, hy, rfl⟩
          exact .abandon hx hy
      · next x _ _ hidle hx =>
          cases h
          -- dropped outside a load, so it holds no cell
          refine .leave hx fun c p hp => ?_
          exact hidle x.digest c p (by rw [← hp])
      · cases h

end FunctionWasm

import FunctionWasm.Cache.ModuleCache
import FunctionWasm.Foundation.Memo
import FunctionWasm.Limits.Duration
import FunctionWasm.Limits.Quantity
import FunctionWasm.Policy.Generated
import FunctionWasm.Registry.Oci
import FunctionWasm.Source.Admission

/-!
# Admission — what a Composition asks of the runtime

The Input of a request is settled before any module is read: its limits are held against the
runtime's ceilings, its policy is compiled and the shape of its module source is checked.

* `admitRequest` is the whole of it, `runOptions` the limits; `Admits` says when and what is admitted.
* `Engine.Config.effective` narrows the engine's ceilings by what one run asks for.
* `admitCached` compiles through the cache of policies, which all requests share.
* `admissions_through_cache`: requests that are admitted through it are admitted as they would be
  without it.
-/

namespace FunctionWasm

open Authz Cedar UnicodeTables

/-! ## The engine's ceilings -/

namespace Engine

/-- The ceilings of an engine; times are in nanoseconds. -/
structure Config where
  timeout : Nat
  memoryLimit : Nat
  maxConcurrentRuns : Nat

/-- What one run asks for, as far as the ceilings narrow it. -/
structure Narrowing where
  timeout : Option Nat
  memoryLimit : Option Nat

/-- What is asked for, where that is less. -/
def narrowed (ceiling : Nat) : Option Nat → Nat
  | none => ceiling
  | some asked => if asked < ceiling then asked else ceiling

/-- The budget of one run. -/
def Config.effective (config : Config) (opts : Narrowing) : Config :=
  { config with
    timeout := narrowed config.timeout opts.timeout
    memoryLimit := narrowed config.memoryLimit opts.memoryLimit }

theorem narrowed_le (ceiling : Nat) (asked : Option Nat) : narrowed ceiling asked ≤ ceiling := by
  cases asked with
  | none => exact le_refl _
  | some n =>
      by_cases h : n < ceiling
      · exact le_of_eq_of_le (if_pos h) (Nat.le_of_lt h)
      · exact le_of_eq (if_neg h)

theorem narrowed_of_le {ceiling : Nat} {asked : Option Nat} (h : ∀ n ∈ asked, n ≤ ceiling) :
    narrowed ceiling asked = asked.getD ceiling := by
  cases asked with
  | none => rfl
  | some n =>
      rcases Nat.lt_or_eq_of_le (h n rfl) with hlt | rfl
      · exact if_pos hlt
      · exact if_neg (Nat.lt_irrefl n)

end Engine

/-! ## The Input -/

namespace Runner

structure Limits where
  timeout : Option Text
  memory : Option Text
  concurrency : Option Int

/-- The Input of a step; `config` is the module's own. -/
structure Input (J : Type) where
  apiVersion : Text
  module : ModuleSource
  compositionPolicy : Text
  limits : Option Limits
  config : Option J

def apiVersionV1 : Text := "guestfn.crossplane.io/v1".toList

def legacyGroup : Text := "wasm.fn.crossplane.io".toList

/-- Whether an apiVersion is of the group that the Input had before. -/
def isLegacyGroup (apiVersion : Text) : Bool :=
  (legacyGroup ++ "/".toList).isPrefixOf apiVersion

def renamedGroup (apiVersion : Text) : Text :=
  "apiVersion ".toList ++ apiVersion ++ " is no longer served; write apiVersion: ".toList ++
    apiVersionV1 ++ " (the same fields)".toList

section Admit

variable {ε : Type} [Expressions ε Value] [UnicodeTables]

/-- What a request gets when its Input is admitted. -/
structure Admitted (ε : Type) where
  timeout : Option Nat
  memoryLimit : Option Nat
  /-- The limit on runs of the step at once; none is zero. -/
  concurrency : Nat
  composition : Option (CompositionPolicy ε)

def admitConcurrency (ceilings : Engine.Config) : Option Int → Except Text Nat
  | none => .ok 0
  | some n =>
      if n ≤ 0 then
        .error ("limits.concurrency ".toList ++ (toString n).toList ++ " must be positive".toList)
      -- more than the global bound would never help, and is not refused
      else if 0 < ceilings.maxConcurrentRuns ∧ ceilings.maxConcurrentRuns < n.toNat then
        .ok ceilings.maxConcurrentRuns
      else .ok n.toNat

/-- A timeout that was parsed, or not. -/
def holdTimeout (ceilings : Engine.Config) (t : Text) : Except Text Nat → Except Text Nat
  | .error _ => .error ("limits.timeout ".toList ++ debug t ++ " is not a valid duration".toList)
  | .ok timeout =>
      if timeout = 0 then
        .error ("limits.timeout ".toList ++ Duration.format timeout ++ " must be positive".toList)
      else if ceilings.timeout < timeout then
        .error ("limits.timeout ".toList ++ Duration.format timeout ++
          " exceeds the runtime's --module-timeout of ".toList ++ Duration.format ceilings.timeout)
      else .ok timeout

/-- A memory limit that was parsed, or not. -/
def holdMemory (ceilings : Engine.Config) (mem : Text) : Except Text Int → Except Text Nat
  | .error _ => .error ("limits.memory ".toList ++ debug mem ++ " is not a valid quantity".toList)
  | .ok bytes =>
      if bytes ≤ 0 then .error ("limits.memory ".toList ++ mem ++ " must be positive".toList)
      else if (2 : Int) ^ 64 ≤ bytes then
        .error ("limits.memory ".toList ++ debug mem ++ " is not a valid quantity".toList)
      else if ceilings.memoryLimit < bytes.toNat then
        .error ("limits.memory ".toList ++ mem ++
          " exceeds the runtime's --module-memory-limit of ".toList ++
          Quantity.formatBinarySi ceilings.memoryLimit)
      else .ok bytes.toNat

/-- A limit that may not be set: parsed, then held against the ceiling. -/
def admitLimit {α : Type} (parse : Text → Checked (Except Text α))
    (hold : Text → Except Text α → Except Text Nat) : Option Text → Checked (Except Text (Option Nat))
  | none => .ok (.ok none)
  | some t => (parse t).map fun parsed => (hold t parsed).map some

/-- The limits of an Input within the ceilings. -/
def runOptions (b : Build) (ceilings : Engine.Config) : Option Limits →
    Checked (Except Text (Admitted ε))
  | none =>
      .ok (.ok
        { timeout := none
          memoryLimit := none
          concurrency := 0
          composition := none })
  | some limits =>
      unlessRefused (.ok (admitConcurrency ceilings limits.concurrency)) fun concurrency =>
      unlessRefused (admitLimit (Duration.parse debug b) (holdTimeout ceilings) limits.timeout)
        fun timeout =>
      unlessRefused (admitLimit (Quantity.parse debug b) (holdMemory ceilings) limits.memory)
        fun memoryLimit =>
      .ok (.ok
        { timeout := timeout
          memoryLimit := memoryLimit
          concurrency := concurrency
          composition := none })

variable {J : Type}

/-- The admission of an Input whose policy has been compiled, or not. -/
def admitCompiled (b : Build) (ceilings : Engine.Config) (input : Input J)
    (compiled : Except Text (Option (CompositionPolicy ε))) :
    Checked (Except Text (Admitted ε)) :=
  unlessRefused (.ok (compiled.mapError fun e => "compositionPolicy is invalid: ".toList ++ e))
    fun composition =>
  unlessRefused (runOptions b ceilings input.limits) fun (admitted : Admitted ε) =>
  unlessRefused
    (.ok ((validateSource input.module).mapError fun e => "cannot resolve module: ".toList ++ e))
    fun _ => .ok (.ok { admitted with composition := composition })

variable [PolicyParser Value.str ε]

/-- The admission of an Input: the group it had before is refused by name. -/
def admitRequest (b : Build) (ceilings : Engine.Config) (input : Input J) :
    Checked (Except Text (Admitted ε)) :=
  if isLegacyGroup input.apiVersion then .ok (.error (renamedGroup input.apiVersion))
  else admitCompiled b ceilings input (Generated.compileCompositionPolicy input.compositionPolicy)

/-! ## What is admitted -/

/-- A limit that is asked for is the number that its text reads as; another one is not set. -/
def Granted (reads : Text → Nat → Prop) : Option Text → Option Nat → Prop
  | none, granted => granted = none
  | some t, granted => ∃ n, granted = some n ∧ reads t n

/-- The runs of a step at once: none is as many as the runtime has, and more than that are capped. -/
def Capped (ceiling : Nat) : Option Int → Nat → Prop
  | none, granted => granted = 0
  | some n, granted => 0 < n ∧ granted = if ceiling = 0 then n.toNat else min n.toNat ceiling

/-- A text is a time, and one that a run may have. -/
def TimeWithin (b : Build) (ceilings : Engine.Config) (t : Text) (n : Nat) : Prop :=
  Duration.parse debug b t = .ok (.ok n) ∧ 0 < n ∧ n ≤ ceilings.timeout

/-- A text is a number of bytes, and one that a run may have. -/
def MemoryWithin (b : Build) (ceilings : Engine.Config) (t : Text) (n : Nat) : Prop :=
  Quantity.parse debug b t = .ok (.ok (n : Int)) ∧ 0 < n ∧ n < 2 ^ 64 ∧ n ≤ ceilings.memoryLimit

/-- What an Input has to say to be admitted, and what it then gets. -/
structure Admits (b : Build) (ceilings : Engine.Config) (input : Input J) (a : Admitted ε) :
    Prop where
  current : isLegacyGroup input.apiVersion = false
  policy : Generated.compileCompositionPolicy input.compositionPolicy = .ok a.composition
  concurrency :
    Capped ceilings.maxConcurrentRuns (input.limits.bind (·.concurrency)) a.concurrency
  timeout : Granted (TimeWithin b ceilings) (input.limits.bind (·.timeout)) a.timeout
  memoryLimit : Granted (MemoryWithin b ceilings) (input.limits.bind (·.memory)) a.memoryLimit
  shape : validateSource input.module = .ok ()

theorem holdTimeout_eq_ok {ceilings : Engine.Config} {t : Text} {parsed : Except Text Nat}
    {n : Nat} :
    holdTimeout ceilings t parsed = .ok n ↔ parsed = .ok n ∧ 0 < n ∧ n ≤ ceilings.timeout := by
  cases parsed with
  | error e => simp [holdTimeout]
  | ok timeout =>
      simp only [holdTimeout, Except.ok.injEq]
      split_ifs with hzero hover
      · simp only [false_iff]
        rintro ⟨rfl, hpos, -⟩
        exact absurd hzero (Nat.ne_of_gt hpos)
      · simp only [false_iff]
        rintro ⟨rfl, -, hle⟩
        exact absurd hover (Nat.not_lt_of_le hle)
      · simp only [Except.ok.injEq]
        constructor
        · rintro rfl
          exact ⟨rfl, Nat.pos_of_ne_zero hzero, Nat.le_of_not_lt hover⟩
        · exact And.left

theorem holdMemory_eq_ok {ceilings : Engine.Config} {t : Text} {parsed : Except Text Int}
    {n : Nat} :
    holdMemory ceilings t parsed = .ok n ↔
      parsed = .ok (n : Int) ∧ 0 < n ∧ n < 2 ^ 64 ∧ n ≤ ceilings.memoryLimit := by
  cases parsed with
  | error e => simp [holdMemory]
  | ok bytes =>
      simp only [holdMemory, Except.ok.injEq]
      split_ifs with hneg hwide hover
      · simp only [false_iff]
        omega
      · simp only [false_iff]
        omega
      · simp only [false_iff]
        omega
      · simp only [Except.ok.injEq]
        omega

omit [UnicodeTables] in
/-- `cast` is the number as the text's reader has it. -/
theorem admitLimit_eq_ok {α : Type} {parse : Text → Checked (Except Text α)}
    {hold : Text → Except Text α → Except Text Nat} {cast : Nat → α} {bounds : Nat → Prop}
    (hhold : ∀ t parsed n, hold t parsed = .ok n ↔ parsed = .ok (cast n) ∧ bounds n)
    {asked : Option Text} {granted : Option Nat} :
    admitLimit parse hold asked = .ok (.ok granted) ↔
      Granted (fun t n => parse t = .ok (.ok (cast n)) ∧ bounds n) asked granted := by
  cases asked with
  | none => simp [admitLimit, Granted, eq_comm]
  | some t =>
      cases hparse : parse t with
      | error fault => simp [admitLimit, Granted, hparse, Except.map]
      | ok parsed =>
          simp only [Granted, hparse, Except.ok.injEq, ← hhold t]
          cases hheld : hold t parsed with
          | error e => simp [admitLimit, hparse, hheld, Except.map]
          | ok n => simp [admitLimit, hparse, hheld, Except.map, eq_comm]

omit [UnicodeTables] in
theorem admitConcurrency_eq_ok {ceilings : Engine.Config} {asked : Option Int} {n : Nat} :
    admitConcurrency ceilings asked = .ok n ↔ Capped ceilings.maxConcurrentRuns asked n := by
  cases asked with
  | none => simp [admitConcurrency, Capped, eq_comm]
  | some k =>
      simp only [admitConcurrency, Capped]
      split_ifs with hneg hcap hunbounded hunbounded
      all_goals simp only [Except.ok.injEq, false_iff]
      all_goals omega

omit [Expressions ε Value] [PolicyParser Value.str ε] in
/-- The limits alone: what is admitted of them has no policy yet. -/
theorem runOptions_eq_ok {b : Build} {ceilings : Engine.Config} {limits : Option Limits}
    {a : Admitted ε} :
    runOptions b ceilings limits = .ok (.ok a) ↔
      a.composition = none ∧
      Capped ceilings.maxConcurrentRuns (limits.bind (·.concurrency)) a.concurrency ∧
      Granted (TimeWithin b ceilings) (limits.bind (·.timeout)) a.timeout ∧
      Granted (MemoryWithin b ceilings) (limits.bind (·.memory)) a.memoryLimit := by
  rcases a with ⟨timeout, memoryLimit, concurrency, composition⟩
  cases limits with
  | none =>
      simp only [runOptions, Option.bind_none, Granted, Capped, Except.ok.injEq, Admitted.mk.injEq]
      constructor
      · rintro ⟨rfl, rfl, rfl, rfl⟩
        exact ⟨rfl, rfl, rfl, rfl⟩
      · rintro ⟨rfl, rfl, rfl, rfl⟩
        exact ⟨rfl, rfl, rfl, rfl⟩
  | some limits =>
      have htime : ∀ v, admitLimit (Duration.parse debug b) (holdTimeout ceilings) limits.timeout =
          .ok (.ok v) ↔ Granted (TimeWithin b ceilings) limits.timeout v :=
        fun v => admitLimit_eq_ok fun t parsed n => holdTimeout_eq_ok
      have hmemory : ∀ v, admitLimit (Quantity.parse debug b) (holdMemory ceilings) limits.memory =
          .ok (.ok v) ↔ Granted (MemoryWithin b ceilings) limits.memory v :=
        fun v => admitLimit_eq_ok fun t parsed n => holdMemory_eq_ok
      simp only [runOptions, unlessRefused_eq_ok, Except.ok.injEq, Admitted.mk.injEq, htime, hmemory,
        admitConcurrency_eq_ok, Option.bind_some]
      constructor
      · rintro ⟨_, hconcurrency, _, htimeout, _, hmemoryLimit, rfl, rfl, rfl, rfl⟩
        exact ⟨rfl, hconcurrency, htimeout, hmemoryLimit⟩
      · rintro ⟨rfl, hconcurrency, htimeout, hmemoryLimit⟩
        exact ⟨_, hconcurrency, _, htimeout, _, hmemoryLimit, rfl, rfl, rfl, rfl⟩

theorem admit_eq_ok_iff {b : Build} {ceilings : Engine.Config} {input : Input J} {a : Admitted ε} :
    admitRequest b ceilings input = .ok (.ok a) ↔ Admits b ceilings input a := by
  rcases a with ⟨timeout, memoryLimit, concurrency, composition⟩
  unfold admitRequest
  by_cases hlegacy : isLegacyGroup input.apiVersion = true
  · rw [if_pos hlegacy]
    refine iff_of_false (fun h => nomatch h) fun h => ?_
    exact absurd hlegacy (by rw [h.current]; exact Bool.false_ne_true)
  · rw [if_neg hlegacy]
    simp only [admitCompiled, unlessRefused_eq_ok, Except.ok.injEq, mapError_eq_ok, runOptions_eq_ok,
      Admitted.mk.injEq]
    constructor
    · rintro ⟨_, hpolicy, admitted, ⟨-, hconcurrency, htimeout, hmemory⟩, ⟨⟩, hshape,
        rfl, rfl, rfl, rfl⟩
      exact ⟨Bool.eq_false_iff.2 hlegacy, hpolicy, hconcurrency, htimeout, hmemory, hshape⟩
    · intro h
      exact ⟨composition, h.policy, ⟨timeout, memoryLimit, concurrency, none⟩,
        ⟨rfl, h.concurrency, h.timeout, h.memoryLimit⟩, (), h.shape, rfl, rfl, rfl, rfl⟩

/-- What is admitted narrows the engine to what was asked for, and widens nothing. -/
theorem Admits.effective {b : Build} {ceilings : Engine.Config} {input : Input J} {a : Admitted ε}
    (h : Admits b ceilings input a) :
    ceilings.effective ⟨a.timeout, a.memoryLimit⟩ =
      { ceilings with
        timeout := a.timeout.getD ceilings.timeout
        memoryLimit := a.memoryLimit.getD ceilings.memoryLimit } := by
  have hle : ∀ {reads : Text → Nat → Prop} {ceiling : Nat} {asked : Option Text}
      {granted : Option Nat}, (∀ t n, reads t n → n ≤ ceiling) → Granted reads asked granted →
      ∀ n ∈ granted, n ≤ ceiling := by
    intro reads ceiling asked granted hreads hgranted n hn
    cases asked with
    | none =>
        rw [show granted = none from hgranted] at hn
        cases hn
    | some t =>
        rcases hgranted with ⟨n', rfl, hread⟩
        cases hn
        exact hreads t n hread
  unfold Engine.Config.effective
  rw [Engine.narrowed_of_le (hle (fun _ _ hread => hread.2.2) h.timeout),
    Engine.narrowed_of_le (hle (fun _ _ hread => hread.2.2.2) h.memoryLimit)]

end Admit

/-! ## The cache of policies -/

section Cache

variable {ε J : Type} [Expressions ε Value] [PolicyParser Value.str ε] [UnicodeTables]
variable [RegistryLibrary]

/-- Compiled policies by the hash of their text; the refused ones are kept too. -/
abbrev PolicyCache (ε : Type) : Type := Memo Bytes (Except Text (Option (CompositionPolicy ε))) 512

def policyKey (text : Text) : Bytes := RegistryLibrary.sha256 (textBytes text)

/-- `compile_composition_policy`; without a text the cache is not asked. -/
def compileCached (text : Text) (cache : PolicyCache ε) :
    Except Text (Option (CompositionPolicy ε)) × PolicyCache ε :=
  if text = [] then (.ok none, cache)
  else cache.ask (by decide) policyKey Generated.compileCompositionPolicy text

/-- The admission of one request, as `admitRequest` but with the cache that all requests share. -/
def admitCached (b : Build) (ceilings : Engine.Config) (input : Input J) (cache : PolicyCache ε) :
    Checked (Except Text (Admitted ε)) × PolicyCache ε :=
  if isLegacyGroup input.apiVersion then (.ok (.error (renamedGroup input.apiVersion)), cache)
  else
    let (compiled, cache) := compileCached input.compositionPolicy cache
    (admitCompiled b ceilings input compiled, cache)

/-- Requests one after the other, as the lock of the cache puts them. -/
def admitEach (b : Build) (ceilings : Engine.Config) : List (Input J) → PolicyCache ε →
    List (Checked (Except Text (Admitted ε))) × PolicyCache ε
  | [], cache => ([], cache)
  | input :: rest, cache =>
      let (answer, cache) := admitCached b ceilings input cache
      let (answers, cache) := admitEach b ceilings rest cache
      (answer :: answers, cache)

/-- The cache holds what compiling would answer, for one of these texts. -/
abbrev Compiled (texts : List Text) (cache : PolicyCache ε) : Prop :=
  Memo.Holds policyKey Generated.compileCompositionPolicy (· ∈ texts) cache

/-- No two of these texts have one hash. -/
def HashApart (texts : List Text) : Prop :=
  ∀ t ∈ texts, ∀ t' ∈ texts, policyKey t = policyKey t' → t = t'

omit [UnicodeTables] in
theorem compileCached_spec {texts : List Text} (hapart : HashApart texts) {text : Text}
    (htext : text ∈ texts) {cache : PolicyCache ε} (hcache : Compiled texts cache) :
    (compileCached text cache).1 = Generated.compileCompositionPolicy text ∧
      Compiled texts (compileCached text cache).2 := by
  unfold compileCached
  by_cases hempty : text = []
  · rw [if_pos hempty, hempty]
    exact ⟨rfl, hcache⟩
  · rw [if_neg hempty]
    refine Memo.ask_spec _ htext ?_ hcache
    intro t t' ht ht' hkey
    rw [hapart t ht t' ht' hkey]

/-- One request leaves the cache in order, and is admitted as it would be without it. -/
theorem admitCached_spec (b : Build) (ceilings : Engine.Config) {texts : List Text}
    (hapart : HashApart texts) {input : Input J} (htext : input.compositionPolicy ∈ texts)
    {cache : PolicyCache ε} (hcache : Compiled texts cache) :
    (admitCached b ceilings input cache).1 = admitRequest b ceilings input ∧
      Compiled texts (admitCached b ceilings input cache).2 := by
  unfold admitCached admitRequest
  by_cases hlegacy : isLegacyGroup input.apiVersion = true
  · rw [if_pos hlegacy, if_pos hlegacy]
    exact ⟨rfl, hcache⟩
  · rw [if_neg hlegacy, if_neg hlegacy]
    rcases compileCached_spec hapart htext hcache with ⟨hcompiled, hafter⟩
    exact ⟨by rw [← hcompiled], hafter⟩

theorem admitEach_spec (b : Build) (ceilings : Engine.Config) {texts : List Text}
    (hapart : HashApart texts) :
    ∀ (inputs : List (Input J)) (cache : PolicyCache ε),
      (∀ input ∈ inputs, input.compositionPolicy ∈ texts) → Compiled texts cache →
        (admitEach b ceilings inputs cache).1 = inputs.map (admitRequest b ceilings)
  | [], _, _, _ => rfl
  | input :: rest, cache, htexts, hcache => by
      rcases admitCached_spec b ceilings hapart (htexts input List.mem_cons_self) hcache with
        ⟨hanswer, hafter⟩
      have hrest := admitEach_spec b ceilings hapart rest _
        (fun other hother => htexts other (List.mem_cons_of_mem input hother)) hafter
      rw [List.map_cons, ← hanswer, ← hrest]
      rfl

/-- Requests that are admitted through one cache are each admitted as their own Input says: with
what it asks for where every part of it is in order, within the ceilings, and else not at all. -/
theorem admissions_through_cache (b : Build) (ceilings : Engine.Config) (inputs : List (Input J))
    (hapart : HashApart (inputs.map Input.compositionPolicy)) :
    (admitEach (ε := ε) b ceilings inputs Memo.empty).1.length = inputs.length ∧
      ∀ (i : Nat) (input : Input J) (a : Admitted ε), inputs[i]? = some input →
        ((admitEach b ceilings inputs Memo.empty).1[i]? = some (.ok (.ok a)) ↔
          Admits b ceilings input a) ∧
        (Admits b ceilings input a →
          ceilings.effective ⟨a.timeout, a.memoryLimit⟩ =
            { ceilings with
              timeout := a.timeout.getD ceilings.timeout
              memoryLimit := a.memoryLimit.getD ceilings.memoryLimit }) := by
  have heach := admitEach_spec (ε := ε) b ceilings hapart inputs Memo.empty
    (fun input hinput => List.mem_map_of_mem hinput) Memo.holds_empty
  rw [heach, List.length_map]
  refine ⟨rfl, fun i input a hinput => ⟨?_, Admits.effective⟩⟩
  rw [List.getElem?_map, hinput, Option.map_some, Option.some_inj]
  exact admit_eq_ok_iff

end Cache

/-! ## Two requests of one Composition -/

section Sample

@[reducible] def verbatimDigests : RegistryLibrary where
  sha256 := id
  manifestFromJson _ := .error []
  indexFromJson _ := .error []

attribute [local instance] verbatimDigests asciiTables

def smallEngine : Engine.Config where
  timeout := 60 * 1000000000
  memoryLimit := 2 ^ 29
  maxConcurrentRuns := 4

def tmpPermit : Permit where
  action := actionUsePrivateTmp
  resource := .any
  tests := []

/-- More runs at once than there may be, and less of everything else. -/
def narrowInput : Input Unit where
  apiVersion := apiVersionV1
  module :=
    { type := typePath
      oci := none
      http := none
      path := "m.wasm".toList
      manifestPath := []
      fromField := []
      allowEmpty := false }
  compositionPolicy := tmpPermit.render
  limits := some
    { timeout := some "30s".toList
      memory := some "64Mi".toList
      concurrency := some 8 }
  config := none

def narrowAdmitted : Admitted (Condition Value.str) where
  timeout := some (30 * 1000000000)
  memoryLimit := some (2 ^ 26)
  concurrency := 4
  composition := some ⟨[tmpPermit.policy]⟩

theorem narrowInput_admits : Admits ⟨true⟩ smallEngine narrowInput narrowAdmitted where
  current := by decide
  policy := by
    have hread : read tmpPermit.render = some [tmpPermit] := by decide +kernel
    have hparse : PolicyParser.parse (ε := Condition Value.str) Value.str tmpPermit.render =
        .ok [tmpPermit.policy] := by
      simp only [PolicyParser.parse, hread]
      rfl
    have hwritten : tmpPermit.render ≠ [] := by decide
    unfold Generated.compileCompositionPolicy
    rw [show narrowInput.compositionPolicy = tmpPermit.render from rfl, if_neg hwritten, hparse]
    rfl
  concurrency := ⟨by decide, by decide⟩
  timeout := ⟨_, rfl, by decide +kernel, by decide, by decide⟩
  memoryLimit := ⟨_, rfl, by decide +kernel, by decide, by decide, by decide⟩
  shape := by decide +kernel

/-- The second request finds the policy that the first one compiled. -/
theorem narrowInput_admitted_again :
    (admitEach ⟨true⟩ smallEngine [narrowInput, narrowInput] Memo.empty).1[1]? =
      some (.ok (.ok narrowAdmitted)) := by
  refine (((admissions_through_cache ⟨true⟩ smallEngine [narrowInput, narrowInput] ?_).2 1 narrowInput
    narrowAdmitted rfl).1).2 narrowInput_admits
  intro t ht t' ht' _
  rw [List.eq_of_mem_replicate (n := 2) ht, List.eq_of_mem_replicate (n := 2) ht']

end Sample
end Runner
end FunctionWasm

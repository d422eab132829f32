import FunctionWasm.Policy.Fences
import FunctionWasm.Policy.HostScope
import FunctionWasm.Policy.Repository
import FunctionWasm.Validate.Manifest

/-!
# Generated — the policy that is written for the author of a composition

From a module's manifest a commented block is written that the author may uncomment: the permits that
the manifest asks for, and one to pull the module's repository.

* `compositionPolicySkeleton` is the block, `uncommented` the policy in it.
* `permits` are the permits that are meant, `bodyLines_reads` says that they are what is written.
* `Suffices` is what the policy is for.
* `skeleton_suffices_iff`: it does where every host is written as decisions spell it, or lies under
  one that is.

A text that holds a quote, a backslash or a line break is written as it is, whatever that comes to.
-/

namespace FunctionWasm
namespace Generated

open Authz Cedar Egress
open Compose (Change)
open Require (Requirement RequirementMatch)

/-! ## The block -/

/-- Where a module comes from: a file, or a reference. -/
inductive Source where
  | path (p : Text)
  | oci (ref : Text)

def firstSeenFrom (out : List Text) : List Text → List Text
  | [] => out
  | t :: rest =>
      if t = [] ∨ t ∈ out then firstSeenFrom out rest else firstSeenFrom (out ++ [t]) rest

/-- The hosts, or host patterns, of some rules, each where it is first. -/
def egressHosts (rules : List HttpRule) : List Text := firstSeenFrom [] (rules.map ruleHost)

/-- The names of the credentials that some bindings spend. -/
def credentialNames (bindings : List EnvBinding) : List Text :=
  firstSeenFrom [] (bindings.map fun b => b.fromCredential.name)

def egressLines (h : Text) : List Text :=
  ["// egress ".toList ++ h ++ " (grantEgress is also the host allowlist):".toList,
    "permit (principal, action == Action::\"grantEgress\", resource in HostPattern::\"".toList ++
      (h ++ "\");".toList)]

def tmpLines : List Text :=
  ["// the private /tmp the module requires:".toList,
    "permit (principal, action == Action::\"usePrivateTmp\", resource);".toList]

def spendLine (name : Text) : Text :=
  "permit (principal, action == Action::\"spendCredential\", resource == Credential::\"".toList ++
    (name ++ "\");".toList)

def envLines (bound : List Text) : List Text :=
  ["// the env the module binds from step credentials:".toList,
    "permit (principal, action == Action::\"setEnv\", resource);".toList] ++ bound.map spendLine

def wholeLines (whole : List Text) : List Text :=
  ("// the step credentials the module reads from its request " ++
    "(it receives no other):").toList :: whole.map spendLine

/-- The credentials that are read whole, and that no variable is bound from. -/
def wholeNames (r : DeclaredRequires) : List Text :=
  r.credentials.filter fun name => name ∉ credentialNames r.env

def requiresLines (r : DeclaredRequires) : List Text :=
  (egressHosts r.http).flatMap egressLines ++
    (if r.privateTmp then tmpLines else []) ++
    (if r.env = [] then [] else envLines (credentialNames r.env)) ++
    (if wholeNames r = [] then [] else wholeLines (wholeNames r))

/-- A clause of some tests, none where there are none. -/
def whenClause (tests : List Text) : Text :=
  match tests with
  | [] => []
  | tests => " when \x7b ".toList ++ " || ".toList.intercalate tests ++ " \x7d".toList

def composeLine (c : Composes) : Text :=
  "permit (principal, action == Action::\"composeResource\", resource == Kind::\"".toList ++
    (c.kind ++ ("\")".toList ++ (whenClause (c.changes.map fun change =>
      "context.change == \"".toList ++ change ++ "\"".toList) ++ ";".toList)))

def composesLines (cs : List Composes) : List Text :=
  ["// what the module declares it composes (composeResource fences a module's".toList,
    "// output; unscoped, nothing is narrowed):".toList] ++ cs.map composeLine

def requireLine (r : RequiredResource) : Text :=
  "permit (principal, action == Action::\"requireResource\", resource == Kind::\"".toList ++
    (r.kind ++ ("\")".toList ++ (whenClause (r.by_.map fun b => "context has ".toList ++ b) ++
      ";".toList)))

def resourcesLines (rs : List RequiredResource) : List Text :=
  ["// the resources the module declares it requires from Crossplane (requireResource".toList,
    "// fences a module's reads; unscoped, nothing is narrowed):".toList] ++ rs.map requireLine

def pullLines (location : Text) : List Text :=
  ["// for a module.from source, permit pulling this repository (a static".toList,
    "// source needs no pullModule):".toList,
    "permit (principal, action == Action::\"pullModule\", resource in Repository::\"".toList ++
      (location ++ "\");".toList)]

section Block

variable [SchemaLibrary] [UnicodeTables]

/-- What a manifest requires, nothing where there is no manifest. -/
def requiresOf (m : Option Manifest) : Option DeclaredRequires := m.bind Manifest.requires

/-- The repository of a reference that parses. -/
def repositoryOf : Source → Option Text
  | .path _ => none
  | .oci ref =>
      match parseOciReference ref with
      | .ok reference => some reference.location
      | .error _ => none

def bodyLines (src : Source) (m : Option Manifest) : List Text :=
  ((requiresOf m).elim [] requiresLines) ++
    (let composes := m.elim [] Manifest.composes
     if composes = [] then [] else composesLines composes) ++
    (let resources := (requiresOf m).elim [] DeclaredRequires.resources
     if resources = [] then [] else resourcesLines resources) ++
    ((repositoryOf src).elim [] pullLines)

def heading : List Text :=
  ["# compositionPolicy is the composition author's Cedar layer - optional and".toList,
    "# narrowing-only. A static source needs none (sandbox actions are scoped".toList,
    "# default-permit; writing a permit for one opts into narrowing it). These".toList,
    "# permits, from this module's manifest, are a starting point, never a grant:".toList,
    "# compositionPolicy: |".toList]

/-- What a line of the policy is commented with. -/
def commentMark : Text := "#   ".toList

def compositionPolicySkeleton (src : Source) (m : Option Manifest) : Option Text :=
  let body := bodyLines src m
  if body = [] then none
  else some (unlines (heading ++ body.map fun line => commentMark ++ line))

end Block

/-! ## The policy in it -/

def uncommentLine (line : Text) : Text :=
  if commentMark.isPrefixOf line then line.drop commentMark.length else line

/-- The lines after the heading, without the comment's mark. -/
def uncommented (block : Text) : Text :=
  ['\n'].intercalate (((block.splitOn '\n').drop heading.length).map uncommentLine)

section Compile

variable {ε : Type} [Expressions ε Value] [PolicyParser Value.str ε]

/-- `compile_composition_policy`, without its cache. -/
def compileCompositionPolicy (text : Text) : Except Text (Option (CompositionPolicy ε)) :=
  if text = [] then .ok none
  else
    match PolicyParser.parse Value.str text with
    | .error e => .error ("cannot compile the compositionPolicy as Cedar: ".toList ++ e)
    | .ok policy => .ok (some ⟨policy⟩)

end Compile

theorem uncommentLine_mark (line : Text) : uncommentLine (commentMark ++ line) = line := by
  have hmarked : commentMark.isPrefixOf (commentMark ++ line) = true :=
    List.isPrefixOf_iff_prefix.2 (List.prefix_append _ _)
  rw [uncommentLine, if_pos hmarked]
  exact List.drop_left

/-- Lines without a line break in them come back. -/
theorem uncommented_unlines {body : List Text} (h : ∀ line ∈ body, '\n' ∉ line) :
    uncommented (unlines (heading ++ body.map fun line => commentMark ++ line)) = unlines body := by
  have hheading : ∀ line ∈ heading, '\n' ∉ line := by decide +kernel
  have hbody : ∀ line ∈ body.map fun line => commentMark ++ line, '\n' ∉ line := by
    refine List.forall_mem_map.2 fun line hline => ?_
    have hmark : '\n' ∉ commentMark := by decide
    simpa [hmark] using h line hline
  have hback : (body.map fun line => commentMark ++ line).map uncommentLine = body := by
    rw [List.map_map]
    exact (List.map_congr_left fun line _ => uncommentLine_mark line).trans (List.map_id _)
  rw [uncommented, splitOn_unlines (List.forall_mem_append.2 ⟨hheading, hbody⟩), List.append_assoc,
    List.drop_left, List.map_append, hback]
  exact intercalate_unlines body

theorem mem_firstSeenFrom {x : Text} {out ts : List Text} :
    x ∈ firstSeenFrom out ts ↔ x ∈ out ∨ x ≠ [] ∧ x ∈ ts := by
  induction ts generalizing out with
  | nil => simp [firstSeenFrom]
  | cons t rest ih =>
      unfold firstSeenFrom
      split
      · next hskip =>
          rw [ih]
          constructor
          · rintro (h | ⟨hne, h⟩)
            · exact .inl h
            · exact .inr ⟨hne, List.mem_cons_of_mem t h⟩
          · rintro (h | ⟨hne, h⟩)
            · exact .inl h
            · rcases List.mem_cons.1 h with rfl | h
              · exact .inl (hskip.resolve_left hne)
              · exact .inr ⟨hne, h⟩
      · next hkeep =>
          rw [ih, List.mem_append, List.mem_singleton, List.mem_cons]
          constructor
          · rintro ((h | rfl) | ⟨hne, h⟩)
            · exact .inl h
            · exact .inr ⟨fun hnil => hkeep (.inl hnil), .inl rfl⟩
            · exact .inr ⟨hne, .inr h⟩
          · rintro (h | ⟨hne, rfl | h⟩)
            · exact .inl (.inl h)
            · exact .inl (.inr rfl)
            · exact .inr ⟨hne, h⟩

theorem mem_egressHosts {h : Text} {rules : List HttpRule} :
    h ∈ egressHosts rules ↔ h ≠ [] ∧ ∃ r ∈ rules, ruleHost r = h := by
  simp [egressHosts, mem_firstSeenFrom]

theorem mem_credentialNames {name : Text} {bindings : List EnvBinding} :
    name ∈ credentialNames bindings ↔
      name ≠ [] ∧ ∃ b ∈ bindings, b.fromCredential.name = name := by
  simp [credentialNames, mem_firstSeenFrom]

/-! ## The permits that are meant -/

def egressPermit (h : Text) : Permit := ⟨actionGrantEgress, .mem (hostPatternUid h), []⟩

def tmpPermit : Permit := ⟨actionUsePrivateTmp, .any, []⟩

def envPermit : Permit := ⟨actionSetEnv, .any, []⟩

def spendPermit (name : Text) : Permit := ⟨actionSpendCredential, .eq (credentialUid name), []⟩

def composePermit (c : Composes) : Permit :=
  ⟨actionComposeResource, .eq ⟨"Kind".toList, c.kind⟩,
    c.changes.map fun change => .equals "change".toList change⟩

def requirePermit (r : RequiredResource) : Permit :=
  ⟨actionRequireResource, .eq ⟨"Kind".toList, r.kind⟩, r.by_.map .has⟩

def pullPermit (location : Text) : Permit :=
  ⟨actionPullModule, .mem (repositoryUid location), []⟩

def requiresPermits (r : DeclaredRequires) : List Permit :=
  (egressHosts r.http).map egressPermit ++
    (if r.privateTmp then [tmpPermit] else []) ++
    (if r.env = [] then [] else envPermit :: (credentialNames r.env).map spendPermit) ++
    (wholeNames r).map spendPermit

section Permits

variable [SchemaLibrary] [UnicodeTables]

def permits (src : Source) (m : Option Manifest) : List Permit :=
  ((requiresOf m).elim [] requiresPermits) ++
    (m.elim [] Manifest.composes).map composePermit ++
    ((requiresOf m).elim [] DeclaredRequires.resources).map requirePermit ++
    (repositoryOf src).toList.map pullPermit

/-- The texts that are written between quotes, apart from the names of changes. -/
def quotedOf (r : DeclaredRequires) : List Text :=
  egressHosts r.http ++ credentialNames r.env ++ r.credentials ++ r.resources.map RequiredResource.kind

def quoted (src : Source) (m : Option Manifest) : List Text :=
  ((requiresOf m).elim [] quotedOf) ++ (m.elim [] Manifest.composes).map Composes.kind ++
    (repositoryOf src).toList

end Permits

section Lines

theorem egressLine_eq (h : Text) :
    "permit (principal, action == Action::\"grantEgress\", resource in HostPattern::\"".toList ++
      (h ++ "\");".toList) = (egressPermit h).render :=
  Permit.render_mem actionGrantEgress "HostPattern".toList h (by decide +kernel)

theorem tmpLine_eq :
    "permit (principal, action == Action::\"usePrivateTmp\", resource);".toList =
      (Permit.mk actionUsePrivateTmp .any []).render := by
  decide +kernel

theorem envLine_eq :
    "permit (principal, action == Action::\"setEnv\", resource);".toList =
      (Permit.mk actionSetEnv .any []).render := by
  decide +kernel

theorem spendLine_eq (name : Text) : spendLine name = (spendPermit name).render :=
  Permit.render_eq actionSpendCredential "Credential".toList name [] (by decide +kernel)

theorem pullLine_eq (location : Text) :
    "permit (principal, action == Action::\"pullModule\", resource in Repository::\"".toList ++
      (location ++ "\");".toList) = (pullPermit location).render :=
  Permit.render_mem actionPullModule "Repository".toList location (by decide +kernel)

theorem whenClause_eq (tests : List Test) : whenClause (tests.map Test.render) = whenAny tests := by
  cases tests <;> rfl

theorem composeLine_eq (c : Composes) : composeLine c = (composePermit c).render := by
  have htests : (c.changes.map fun change => "context.change == \"".toList ++ change ++ "\"".toList) =
      (composePermit c).tests.map Test.render := by
    rw [composePermit, List.map_map]
    rfl
  have hclause := (congrArg whenClause htests).trans (whenClause_eq (composePermit c).tests)
  unfold composeLine
  refine (congrArg _ (congrArg _ (congrArg _ (congrArg (· ++ ";".toList) hclause)))).trans ?_
  exact Permit.render_eq actionComposeResource "Kind".toList c.kind (composePermit c).tests (by decide +kernel)

theorem requireLine_eq (r : RequiredResource) : requireLine r = (requirePermit r).render := by
  have htests : (r.by_.map fun b => "context has ".toList ++ b) =
      (requirePermit r).tests.map Test.render := by
    rw [requirePermit, List.map_map]
    rfl
  have hclause := (congrArg whenClause htests).trans (whenClause_eq (requirePermit r).tests)
  unfold requireLine
  refine (congrArg _ (congrArg _ (congrArg _ (congrArg (· ++ ";".toList) hclause)))).trans ?_
  exact Permit.render_eq actionRequireResource "Kind".toList r.kind (requirePermit r).tests (by decide +kernel)

end Lines

/-! ## What is written is what is meant -/

section Written

/-- A permit that tests nothing is written as it is meant. -/
theorem written_of_resource {action : Text} {resource : Reach} (haction : Plain action)
    (h : ∀ u, resource = .eq u ∨ resource = .mem u → isIdentifier u.typeName = true ∧ Plain u.id) :
    (Permit.mk action resource []).Written where
  action := haction
  resource := h
  equals := by simp
  has := by simp

theorem egressPermit_written {h : Text} (hplain : Plain h) : (egressPermit h).Written := by
  refine written_of_resource (by decide) ?_
  rintro u (heq | heq) <;> cases heq
  exact ⟨rfl, hplain⟩

theorem spendPermit_written {name : Text} (hplain : Plain name) : (spendPermit name).Written := by
  refine written_of_resource (by decide) ?_
  rintro u (heq | heq) <;> cases heq
  exact ⟨rfl, hplain⟩

theorem pullPermit_written {location : Text} (hplain : Plain location) :
    (pullPermit location).Written := by
  refine written_of_resource (by decide) ?_
  rintro u (heq | heq) <;> cases heq
  exact ⟨rfl, hplain⟩

theorem composePermit_written {c : Composes} (hplain : Plain c.kind)
    (hchanges : ∀ change ∈ c.changes, change ∈ changeNames) : (composePermit c).Written where
  action := (by decide : Plain actionComposeResource)
  resource := by
    rintro u (heq | heq) <;> cases heq
    exact ⟨rfl, hplain⟩
  equals := by
    intro attr value hmem
    rcases List.mem_map.1 hmem with ⟨change, hchange, heq⟩
    cases heq
    have hall : ∀ t ∈ changeNames, Plain t := by decide
    exact ⟨rfl, hall _ (hchanges _ hchange)⟩
  has := by
    intro attr hmem
    rcases List.mem_map.1 hmem with ⟨_, -, heq⟩
    cases heq

theorem requirePermit_written {r : RequiredResource} (hplain : Plain r.kind)
    (hmatches : ∀ b ∈ r.by_, b ∈ resourceMatches) : (requirePermit r).Written where
  action := (by decide : Plain actionRequireResource)
  resource := by
    rintro u (heq | heq) <;> cases heq
    exact ⟨rfl, hplain⟩
  equals := by
    intro attr value hmem
    rcases List.mem_map.1 hmem with ⟨_, -, heq⟩
    cases heq
  has := by
    intro attr hmem
    rcases List.mem_map.1 hmem with ⟨b, hb, heq⟩
    cases heq
    have hall : ∀ t ∈ resourceMatches, isIdentifier t = true := by decide
    exact hall _ (hmatches _ hb)

/-- A comment whose text is no one else's. -/
theorem reads_comment {line : Text}
    (h : "//".toList.isPrefixOf line = true ∧ '\n' ∉ line ∧ '\r' ∉ line) : Reads [line] [] := by
  rcases List.isPrefixOf_iff_prefix.1 h.1 with ⟨t, rfl⟩
  exact .comment (fun hmem => h.2.1 (List.mem_append_right _ hmem)) fun hmem =>
    h.2.2 (List.mem_append_right _ hmem)

theorem egressLines_reads {hosts : List Text} (h : ∀ t ∈ hosts, Plain t) :
    Reads (hosts.flatMap egressLines) (hosts.map egressPermit) := by
  induction hosts with
  | nil => exact .nil
  | cons host hosts ih =>
      rw [List.forall_mem_cons] at h
      have hline := List.not_mem_append (List.not_mem_append
        (show '\n' ∉ "// egress ".toList by decide) h.1.2.2.1)
        (show '\n' ∉ " (grantEgress is also the host allowlist):".toList by decide)
      have hreturn := List.not_mem_append (List.not_mem_append
        (show '\r' ∉ "// egress ".toList by decide) h.1.2.2.2)
        (show '\r' ∉ " (grantEgress is also the host allowlist):".toList by decide)
      have hcomment := reads_comment ⟨rfl, hline, hreturn⟩
      have hpermit := Reads.permit (egressPermit_written h.1)
      rw [← egressLine_eq] at hpermit
      exact (hcomment.append hpermit).append (ih h.2)

theorem tmpLines_reads : Reads tmpLines [tmpPermit] := by
  have hcomment : Reads ["// the private /tmp the module requires:".toList] [] :=
    reads_comment (by decide)
  have hpermit := Reads.permit (@written_of_resource actionUsePrivateTmp .any (by decide) (by simp))
  rw [← tmpLine_eq] at hpermit
  exact hcomment.append hpermit

theorem spendLines_reads {names : List Text} (h : ∀ t ∈ names, Plain t) :
    Reads (names.map spendLine) (names.map spendPermit) := by
  have hall : ∀ p ∈ names.map spendPermit, p.Written :=
    List.forall_mem_map.2 fun name hname => spendPermit_written (h name hname)
  have hsame : names.map spendLine = (names.map spendPermit).map Permit.render := by
    rw [List.map_map]
    exact List.map_congr_left fun name _ => spendLine_eq name
  rw [hsame]
  exact .permits hall

theorem envLines_reads {bound : List Text} (h : ∀ t ∈ bound, Plain t) :
    Reads (envLines bound) (envPermit :: bound.map spendPermit) := by
  have hcomment : Reads ["// the env the module binds from step credentials:".toList] [] :=
    reads_comment (by decide)
  have henv := Reads.permit (@written_of_resource actionSetEnv .any (by decide) (by simp))
  rw [← envLine_eq] at henv
  exact (hcomment.append henv).append (spendLines_reads h)

theorem wholeLines_reads {whole : List Text} (h : ∀ t ∈ whole, Plain t) :
    Reads (wholeLines whole) (whole.map spendPermit) := by
  have hcomment : Reads [("// the step credentials the module reads from its request " ++
      "(it receives no other):").toList] [] :=
    reads_comment (by decide)
  exact hcomment.append (spendLines_reads h)

theorem composesLines_reads {cs : List Composes} (h : ∀ c ∈ cs, (composePermit c).Written) :
    Reads (composesLines cs) (cs.map composePermit) := by
  have hfirst : Reads
      ["// what the module declares it composes (composeResource fences a module's".toList] [] :=
    reads_comment (by decide)
  have hsecond : Reads ["// output; unscoped, nothing is narrowed):".toList] [] :=
    reads_comment (by decide)
  have hlines := Reads.permits (List.forall_mem_map.2 h)
  rw [List.map_map] at hlines
  have hsame : cs.map composeLine = cs.map (Permit.render ∘ composePermit) :=
    List.map_congr_left fun c _ => composeLine_eq c
  rw [← hsame] at hlines
  exact (hfirst.append hsecond).append hlines

theorem resourcesLines_reads {rs : List RequiredResource}
    (h : ∀ r ∈ rs, (requirePermit r).Written) :
    Reads (resourcesLines rs) (rs.map requirePermit) := by
  have hfirst : Reads
      ["// the resources the module declares it requires from Crossplane (requireResource".toList]
      [] :=
    reads_comment (by decide)
  have hsecond : Reads ["// fences a module's reads; unscoped, nothing is narrowed):".toList] [] :=
    reads_comment (by decide)
  have hlines := Reads.permits (List.forall_mem_map.2 h)
  rw [List.map_map] at hlines
  have hsame : rs.map requireLine = rs.map (Permit.render ∘ requirePermit) :=
    List.map_congr_left fun r _ => requireLine_eq r
  rw [← hsame] at hlines
  exact (hfirst.append hsecond).append hlines

theorem pullLines_reads {location : Text} (h : Plain location) :
    Reads (pullLines location) [pullPermit location] := by
  have hfirst : Reads
      ["// for a module.from source, permit pulling this repository (a static".toList] [] :=
    reads_comment (by decide)
  have hsecond : Reads ["// source needs no pullModule):".toList] [] := reads_comment (by decide)
  have hpermit := Reads.permit (pullPermit_written h)
  rw [← pullLine_eq] at hpermit
  exact (hfirst.append hsecond).append hpermit

/-- A block that is left out where there is nothing in it. -/
theorem reads_unless {α : Type} {as : List α} [Decidable (as = [])] {lines : List Text}
    {f : α → Permit} (h : Reads lines (as.map f)) :
    Reads (if as = [] then [] else lines) (as.map f) := by
  split
  · next hnil =>
      rw [hnil]
      exact .nil
  · exact h

theorem requiresLines_reads {r : DeclaredRequires} (h : ∀ t ∈ quotedOf r, Plain t) :
    Reads (requiresLines r) (requiresPermits r) := by
  simp only [quotedOf, List.forall_mem_append] at h
  rcases h with ⟨⟨⟨hhosts, hbound⟩, hwhole⟩, -⟩
  have htmp : Reads (if r.privateTmp then tmpLines else [])
      (if r.privateTmp then [tmpPermit] else []) := by
    split
    · exact tmpLines_reads
    · exact .nil
  have henv : Reads (if r.env = [] then [] else envLines (credentialNames r.env))
      (if r.env = [] then [] else envPermit :: (credentialNames r.env).map spendPermit) := by
    split
    · exact .nil
    · exact envLines_reads hbound
  have hnames : ∀ t ∈ wholeNames r, Plain t := fun t ht => hwhole t (List.mem_filter.1 ht).1
  exact (((egressLines_reads hhosts).append htmp).append henv).append (reads_unless (wholeLines_reads hnames))

variable [SchemaLibrary] [UnicodeTables] [HttpLibrary]

/-- The block is the permits that are meant, where what it quotes can be quoted. -/
theorem bodyLines_reads {src : Source} {m : Manifest} (hvalid : m.Valid)
    (h : ∀ t ∈ quoted src (some m), Plain t) :
    Reads (bodyLines src (some m)) (permits src (some m)) := by
  simp only [quoted, List.forall_mem_append, List.forall_mem_map, Option.elim_some] at h
  rcases h with ⟨⟨hrequires, hkinds⟩, hlocation⟩
  have hfirst : Reads ((requiresOf (some m)).elim [] requiresLines)
      ((requiresOf (some m)).elim [] requiresPermits) := by
    cases hr : requiresOf (some m) with
    | none => exact .nil
    | some r =>
        rw [hr] at hrequires
        exact requiresLines_reads hrequires
  have hcomposes := composesLines_reads fun c hc =>
    composePermit_written (hkinds c hc) (hvalid.composed c hc).2
  have hresources : ∀ x ∈ (requiresOf (some m)).elim [] DeclaredRequires.resources,
      (requirePermit x).Written := by
    cases hr : requiresOf (some m) with
    | none => simp
    | some r =>
        rw [hr] at hrequires
        simp only [Option.elim_some, quotedOf, List.forall_mem_append, List.forall_mem_map]
          at hrequires ⊢
        exact fun x hx => requirePermit_written (hrequires.2 x hx) (hvalid.required r hr x hx).2
  have hpull : Reads ((repositoryOf src).elim [] pullLines)
      ((repositoryOf src).toList.map pullPermit) := by
    cases hlocated : repositoryOf src with
    | none => exact .nil
    | some location =>
        rw [hlocated] at hlocation
        exact pullLines_reads (hlocation location (by simp))
  exact ((hfirst.append (reads_unless hcomposes)).append
    (reads_unless (resourcesLines_reads hresources))).append hpull

end Written

/-! ## What the policy is for -/

/-- The matches that a declaration is about.  The keys of labels begin with a letter or a digit, so
none is an escape of Cedar's JSON. -/
def Declares (x : RequiredResource) : RequirementMatch → Prop
  | .name _ => "name".toList ∈ x.matchKinds
  | .labels labels =>
      "labels".toList ∈ x.matchKinds ∧ ∀ l ∈ labels, l.1.head?.any Char.isAlphanum = true
  | .none => False

section Purpose

variable [SchemaLibrary] [UnicodeTables] [HttpLibrary]

/-- A manifest that passed its check. -/
structure Checked where
  manifest : Manifest
  validated : manifest.validate = .ok ()

variable {ε : Type} [Expressions ε Value]

/-- The policy permits what the manifest asks for and the repository that the module comes from,
under an operator's policy that permits everything. -/
structure Suffices (src : Source) (m : Manifest) (c : CompositionPolicy ε) : Prop where
  admitted : ∀ (e : Ceiling) (o : OperatorPolicy ε) (principal : Principal),
    (∀ action, o.policy.PermitsEvery (actionUid action)) →
      ∃ caps, admitRequires (m.requires.map DeclaredRequires.toRequires) (some e) (some o) (some c)
        principal = .ok caps
  composes : ∀ x ∈ m.composes, ∀ change : Change,
    groupAndKind x.kind = some (change.group, change.kind) → change.change ∈ x.changeKinds →
      ∀ principal, c.permitsCompose principal change = true
  requires : ∀ r, m.requires = some r → ∀ x ∈ r.resources, ∀ s : Requirement,
    groupAndKind x.kind = some (s.group, s.kind) → Declares x s.matched →
      ∀ principal, c.permitsRequire principal s = true
  pulls : ∀ location, repositoryOf src = some location → ∀ ref reference,
    parseOciReference ref = .ok reference → reference.location = location →
      ∀ principal, c.permitsPullModule principal reference.location = true

variable (ε) [PolicyParser Value.str ε] in
/-- The policy in the block, where one is written, is Cedar and suffices. -/
def SkeletonSuffices (src : Source) (m : Manifest) : Prop :=
  ∀ block, compositionPolicySkeleton src (some m) = some block →
    ∃ c : CompositionPolicy ε, compileCompositionPolicy (uncommented block) = .ok (some c) ∧
      Suffices src m c

/-- Every host is one that is written, as decisions spell it, or lies under one. -/
def HostsWritten (m : Manifest) : Prop :=
  ∀ r, m.requires = some r → ∀ rule ∈ r.http,
    ∃ h ∈ egressHosts r.http, h = (hostLabel (egressGrantOf rule [])).1 ∨
      h ∈ hostAncestors (egressGrantOf rule [])

/-- Nothing that is written between quotes holds what would end it. -/
def Quotable (src : Source) (m : Manifest) : Prop := ∀ t ∈ quoted src (some m), Plain t

end Purpose

/-! ## What is emitted -/

section Emission

variable [SchemaLibrary] [UnicodeTables] {src : Source} {m : Manifest}

/-- The permits of a block, and what each is for. -/
inductive Emitted (src : Source) (m : Manifest) : Permit → Prop where
  | egress {r h} (hr : m.requires = some r) (hh : h ∈ egressHosts r.http) :
      Emitted src m (egressPermit h)
  | tmp {r} (hr : m.requires = some r) (htmp : r.privateTmp = true) : Emitted src m tmpPermit
  | env {r} (hr : m.requires = some r) (henv : r.env ≠ []) : Emitted src m envPermit
  | bound {r name} (hr : m.requires = some r) (henv : r.env ≠ [])
      (hname : name ∈ credentialNames r.env) : Emitted src m (spendPermit name)
  | whole {r name} (hr : m.requires = some r) (hname : name ∈ wholeNames r) :
      Emitted src m (spendPermit name)
  | compose {c} (hc : c ∈ m.composes) : Emitted src m (composePermit c)
  | require {r x} (hr : m.requires = some r) (hx : x ∈ r.resources) : Emitted src m (requirePermit x)
  | pull {location} (hlocation : repositoryOf src = some location) :
      Emitted src m (pullPermit location)

theorem mem_requiresPermits {r : DeclaredRequires} {q : Permit} (hr : m.requires = some r)
    (h : q ∈ requiresPermits r) : Emitted src m q := by
  simp only [requiresPermits, List.mem_append] at h
  rcases h with ((h | h) | h) | h
  · rcases List.mem_map.1 h with ⟨host, hhost, rfl⟩
    exact .egress hr hhost
  · split at h
    · next htmp =>
        rw [List.mem_singleton.1 h]
        exact .tmp hr htmp
    · cases h
  · split at h
    · cases h
    next henv =>
    rcases List.mem_cons.1 h with rfl | h
    · exact .env hr henv
    · rcases List.mem_map.1 h with ⟨name, hname, rfl⟩
      exact .bound hr henv hname
  · rcases List.mem_map.1 h with ⟨name, hname, rfl⟩
    exact .whole hr hname

theorem mem_permits {q : Permit} : q ∈ permits src (some m) ↔ Emitted src m q := by
  have hrequires : requiresOf (some m) = m.requires := rfl
  constructor
  · intro h
    simp only [permits, hrequires, List.mem_append, Option.elim_some] at h
    rcases h with ((h | h) | h) | h
    · cases hr : m.requires with
      | none =>
          rw [hr] at h
          cases h
      | some r =>
          rw [hr] at h
          exact mem_requiresPermits hr h
    · rcases List.mem_map.1 h with ⟨c, hc, rfl⟩
      exact .compose hc
    · rcases List.mem_map.1 h with ⟨x, hx, rfl⟩
      cases hr : m.requires with
      | none =>
          rw [hr] at hx
          cases hx
      | some r =>
          rw [hr] at hx
          exact .require hr hx
    · rcases List.mem_map.1 h with ⟨location, hlocation, rfl⟩
      exact .pull (Option.mem_toList.1 hlocation)
  · intro h
    simp only [permits, hrequires, List.mem_append, Option.elim_some]
    cases h with
    | egress hr hh =>
        simp only [hr, Option.elim_some, requiresPermits, List.mem_append]
        exact .inl (.inl (.inl (.inl (.inl (.inl (List.mem_map_of_mem hh))))))
    | tmp hr htmp =>
        simp [hr, requiresPermits, htmp]
    | env hr henv =>
        simp [hr, requiresPermits, henv]
    -- the permits of a binding follow the one of `setEnv`
    | bound hr henv hname =>
        simp only [hr, Option.elim_some, requiresPermits, List.mem_append, if_neg henv]
        exact .inl (.inl (.inl (.inl (.inr (List.mem_cons_of_mem _ (List.mem_map_of_mem hname))))))
    | whole hr hname =>
        simp only [hr, Option.elim_some, requiresPermits, List.mem_append]
        exact .inl (.inl (.inl (.inr (List.mem_map_of_mem hname))))
    | compose hc => exact .inl (.inl (.inr (List.mem_map_of_mem hc)))
    | require hr hx =>
        simp only [hr, Option.elim_some]
        exact .inl (.inr (List.mem_map_of_mem hx))
    | pull hlocation => exact .inr (List.mem_map_of_mem (Option.mem_toList.2 hlocation))

end Emission

/-! ## What it permits -/

/-- A kind as a declaration spells it is the kind that decisions are about. -/
theorem kindUid_of_groupAndKind {t group kind : Text} (h : groupAndKind t = some (group, kind)) :
    kindUid group kind = ⟨"Kind".toList, t⟩ := by
  unfold groupAndKind at h
  rw [Option.filter_eq_some_iff] at h
  rw [kindUid, (splitOnce_eq_some.1 h.1).1]

theorem asStr_of_parse {word : Text} {k : Compose.ChangeKind}
    (h : Compose.ChangeKind.parse word = some k) : k.asStr = word := by
  unfold Compose.ChangeKind.parse at h
  split at h
  · next hadd =>
      rw [← Option.some.inj h, hadd]
      rfl
  split at h
  · next hmodify =>
      rw [← Option.some.inj h, hmodify]
      rfl
  split at h
  · next hremove =>
      rw [← Option.some.inj h, hremove]
      rfl
  · cases h

section Permitted

variable [SchemaLibrary] [UnicodeTables] {src : Source} {m : Manifest}
variable {ε : Type} [Expressions ε Value] {c : CompositionPolicy ε} {principal : Principal}

/-- A question is answered with yes where a permit of the block is about it. -/
theorem decide_emitted (hps : List.Forall₂ (Means Value.str) c.policy (permits src (some m)))
    {top : Entity Value} {above : List EntityUid} (h : Star top above) {action : Text}
    {context : List (Text × Value)} :
    decide c.policy principal action top.uid (above.map flatEntity ++ [top]) context = true ↔
      ∃ q, Emitted src m q ∧ q.action = action ∧ Reach.Covers above top.uid q.resource ∧
        q.clauseHolds .str context = true := by
  simp only [decide_star h hps, mem_permits]

variable (hps : List.Forall₂ (Means Value.str) c.policy (permits src (some m)))

include hps

theorem permitsPrivateTmp_of_emitted (h : Emitted src m tmpPermit) :
    c.permitsPrivateTmp principal = true := by
  have hstar : Star (flatEntity (capability "privateTmp")) [] := .flat (by decide)
  unfold CompositionPolicy.permitsPrivateTmp permitsPrivateTmpBy
  rw [decide_flat]
  exact (decide_emitted hps hstar).2 ⟨tmpPermit, h, rfl, trivial, rfl⟩

theorem permitsEnv_of_emitted (h : Emitted src m envPermit) (keys : List Text) :
    c.permitsEnv principal keys = true := by
  have hstar : Star (flatEntity (capability "env")) [] := .flat (by decide)
  unfold CompositionPolicy.permitsEnv permitsEnvBy
  rw [decide_flat]
  exact (decide_emitted hps hstar).2 ⟨envPermit, h, rfl, trivial, rfl⟩

theorem permitsSpendCredential_of_emitted {name : Text} (h : Emitted src m (spendPermit name)) :
    c.permitsSpendCredential principal name [] = true := by
  have htype : "Credential".toList ≠ "Request".toList := by decide
  have hstar : Star (flatEntity (credentialUid name)) [] := .flat htype
  unfold CompositionPolicy.permitsSpendCredential
  exact (decide_emitted hps hstar).2 ⟨spendPermit name, h, rfl, rfl, rfl⟩

theorem permitsPullModule_of_emitted {location : Text} (h : Emitted src m (pullPermit location))
    (hself : location ∉ boundaryPrefixes location) :
    c.permitsPullModule principal location = true := by
  rw [permitsPullModule_eq]
  exact (decide_emitted hps (Star.repository hself)).2
    ⟨pullPermit location, h, rfl, .inl rfl, rfl⟩

omit hps [SchemaLibrary] [UnicodeTables] [Expressions ε Value] in
theorem evalAny_of_mem {context : List (Text × Value)} {tests : List Test}
    (hall : ∀ t ∈ tests, (t.eval Value.str context).isSome = true)
    (h : ∃ t ∈ tests, t.eval Value.str context = some true) :
    evalAny Value.str context tests = some true := by
  induction tests with
  | nil => simp at h
  | cons t tests ih =>
      rw [List.forall_mem_cons] at hall
      unfold evalAny
      cases heval : t.eval Value.str context with
      | none =>
          rw [heval] at hall
          cases hall.1
      | some b =>
          cases b with
          | true => rfl
          | false =>
              rcases h with ⟨x, hx, htrue⟩
              rcases List.mem_cons.1 hx with rfl | hx
              · rw [heval] at htrue
                cases htrue
              · exact ih hall.2 ⟨x, hx, htrue⟩

omit hps [SchemaLibrary] [UnicodeTables] [Expressions ε Value] in
theorem composePermit_holds {x : Composes} {change : Change}
    (h : change.change ∈ x.changeKinds) :
    (composePermit x).clauseHolds .str (composeContext change) = true := by
  unfold Composes.changeKinds at h
  unfold Permit.clauseHolds composePermit
  split at h
  · next hnil => simp [hnil]
  · rcases List.mem_filterMap.1 h with ⟨word, hword, hparse⟩
    have hlookup : (composeContext change).lookup "change".toList = some (.str word) := by
      rw [← asStr_of_parse hparse]
      rfl
    refine decide_eq_true (.inr (evalAny_of_mem (List.forall_mem_map.2 ?_) ?_))
    · intro other _
      rw [Test.eval, hlookup]
      rfl
    · refine ⟨_, List.mem_map_of_mem hword, ?_⟩
      rw [Test.eval, hlookup]
      simp

omit hps [SchemaLibrary] [UnicodeTables] [Expressions ε Value] in
theorem requirePermit_holds {x : RequiredResource} {s : Requirement} (h : Declares x s.matched) :
    (requirePermit x).clauseHolds .str (requireContext s) = true := by
  -- the match is there under its own name
  have hmatch : ∃ b, b ∈ x.matchKinds ∧ ((requireContext s).lookup b).isSome = true := by
    cases hmatched : s.matched with
    | name name =>
        rw [hmatched] at h
        exact ⟨_, h, by simp [requireContext, hmatched]⟩
    | labels labels =>
        rw [hmatched] at h
        exact ⟨_, h.1, by simp [requireContext, hmatched]⟩
    | none =>
        rw [hmatched] at h
        cases h
  rcases hmatch with ⟨b, hb, hthere⟩
  unfold RequiredResource.matchKinds at hb
  unfold Permit.clauseHolds requirePermit
  split at hb
  · next hnil => simp [hnil]
  · have hmem := (List.mem_filter.1 hb).1
    refine decide_eq_true (.inr (evalAny_of_mem (List.forall_mem_map.2 fun _ _ => rfl) ?_))
    exact ⟨_, List.mem_map_of_mem hmem, by simpa [Test.eval] using hthere⟩

theorem permitsCompose_of_mem {x : Composes} (hx : x ∈ m.composes) {change : Change}
    (hkind : groupAndKind x.kind = some (change.group, change.kind))
    (hchange : change.change ∈ x.changeKinds) : c.permitsCompose principal change = true := by
  have huid := kindUid_of_groupAndKind hkind
  exact (decide_emitted hps (Star.kind change.group change.kind)).2
    ⟨composePermit x, .compose hx, rfl, huid, composePermit_holds hchange⟩

theorem permitsRequire_of_mem {r : DeclaredRequires} (hr : m.requires = some r)
    {x : RequiredResource} (hx : x ∈ r.resources) {s : Requirement}
    (hkind : groupAndKind x.kind = some (s.group, s.kind)) (hmatch : Declares x s.matched) :
    c.permitsRequire principal s = true := by
  have huid := kindUid_of_groupAndKind hkind
  exact (decide_emitted hps (Star.kind s.group s.kind)).2
    ⟨requirePermit x, .require hr hx, rfl, huid, requirePermit_holds hmatch⟩

end Permitted

/-! ## Hosts -/

section Hosts

variable [HttpLibrary]

/-- A rule that passed its check is not among its own ancestors. -/
theorem hostLabel_notMem {rule : HttpRule} (hvalid : ValidRule rule) (meth : Text) :
    (hostLabel (egressGrantOf rule meth)).1 ∉ hostAncestors (egressGrantOf rule meth) := by
  have hshorter : ∀ {h s : Text}, s ∈ dnsSuffixes h → s.length < h.length := by
    intro h s hs
    rcases mem_dnsSuffixes.1 hs with ⟨p, rfl⟩
    simp
    omega
  by_cases hhost : rule.host = []
  · have hpattern : rule.hostPattern ≠ [] := fun hnil => hvalid.one (by simp [hhost, hnil])
    have hsome := hvalid.pattern hpattern
    unfold validHostPattern at hsome
    split at hsome
    · next suffix hsuffix =>
        rcases patternSuffix_eq_some hsuffix with ⟨rest, hrest, -⟩
        have hlabel : hostLabel (egressGrantOf rule meth) = ('*' :: '.' :: rest, rest) := by
          simp [hostLabel, egressGrantOf, hhost, hrest]
        have hancestors : hostAncestors (egressGrantOf rule meth) = rest :: dnsSuffixes rest := by
          unfold hostAncestors
          rw [hlabel]
          simp [egressGrantOf, hhost]
        rw [hlabel, hancestors]
        intro hmem
        rcases List.mem_cons.1 hmem with heq | hmem
        · have hlength := congrArg List.length heq
          simp at hlength
          omega
        · have hlength := hshorter hmem
          simp at hlength
          omega
    · cases hsome
  · have hlabel : hostLabel (egressGrantOf rule meth) =
        (normalizeHost rule.host, normalizeHost rule.host) := by
      simp [hostLabel, egressGrantOf, hhost]
    have hancestors : hostAncestors (egressGrantOf rule meth) =
        dnsSuffixes (normalizeHost rule.host) := by
      unfold hostAncestors
      rw [hlabel]
      simp [egressGrantOf, hhost]
    rw [hlabel, hancestors]
    intro hmem
    exact Nat.lt_irrefl _ (hshorter hmem)

theorem ruleHost_mem {rules : List HttpRule} {rule : HttpRule} (hrule : rule ∈ rules)
    (hvalid : ValidRule rule) : ruleHost rule ∈ egressHosts rules := by
  refine mem_egressHosts.2 ⟨?_, rule, hrule, rfl⟩
  unfold ruleHost
  split
  · next hnil => exact fun hpattern => hvalid.one (by simp [hnil, hpattern])
  · next hne => exact hne

variable [SchemaLibrary] [UnicodeTables] {src : Source} {m : Manifest}
variable {ε : Type} [Expressions ε Value] {c : CompositionPolicy ε} {principal : Principal}

/-- Egress is permitted to what is written, and to what lies under it. -/
theorem permitsEgress_iff
    (hps : List.Forall₂ (Means Value.str) c.policy (permits src (some m)))
    {r : DeclaredRequires} (hr : m.requires = some r) {rule : HttpRule} (hvalid : ValidRule rule)
    (meth : Text) :
    c.permitsEgress principal (egressGrantOf rule meth) = true ↔
      ∃ h ∈ egressHosts r.http, h = (hostLabel (egressGrantOf rule [])).1 ∨
        h ∈ hostAncestors (egressGrantOf rule []) := by
  unfold CompositionPolicy.permitsEgress
  rw [permitsEgressBy_eq, decide_emitted hps (Star.host (hostLabel_notMem hvalid meth))]
  constructor
  · rintro ⟨q, hq, haction, hcovers, -⟩
    cases hq with
    | @egress r' h hr' hh =>
        cases hr.symm.trans hr'
        refine ⟨h, hh, hcovers.imp hostPatternUid_inj.1 fun hmem => ?_⟩
        rcases List.mem_map.1 hmem with ⟨a, ha, heq⟩
        exact hostPatternUid_inj.1 heq ▸ ha
    | tmp => exact absurd haction (by decide : actionUsePrivateTmp ≠ actionGrantEgress)
    | env => exact absurd haction (by decide : actionSetEnv ≠ actionGrantEgress)
    | bound | whole => exact absurd haction (by decide : actionSpendCredential ≠ actionGrantEgress)
    | compose => exact absurd haction (by decide : actionComposeResource ≠ actionGrantEgress)
    | require => exact absurd haction (by decide : actionRequireResource ≠ actionGrantEgress)
    | pull => exact absurd haction (by decide : actionPullModule ≠ actionGrantEgress)
  · rintro ⟨h, hh, hcovers⟩
    exact ⟨egressPermit h, .egress hr hh, rfl,
      hcovers.imp (congrArg hostPatternUid) (List.mem_map_of_mem ·), rfl⟩

omit [SchemaLibrary] [UnicodeTables] in
/-- An operator's policy that permits everything permits what a manifest asks for. -/
theorem operator_permits {o : OperatorPolicy ε}
    (ho : ∀ action, o.policy.PermitsEvery (actionUid action)) {r : Requires}
    (hvalid : ∀ rule ∈ r.http, ValidRule rule) {cap : Capability} (hcap : r.Requests cap) :
    o.permits principal cap = true := by
  cases cap with
  | privateTmp =>
      have hstar : Star (flatEntity (capability "privateTmp")) [] := .flat (by decide)
      exact decide_flat.trans (hstar.decide_of_permitsEvery (ho _))
  | egress g =>
      rcases hcap with ⟨rule, hrule, meth, -, rfl⟩
      have hstar := Star.host (hostLabel_notMem (hvalid rule hrule) meth)
      exact permitsEgressBy_eq.trans (hstar.decide_of_permitsEvery (ho _))
  | env keys =>
      have hstar : Star (flatEntity (capability "env")) [] := .flat (by decide)
      exact decide_flat.trans (hstar.decide_of_permitsEvery (ho _))
  | credential name =>
      have htype : "Credential".toList ≠ "Request".toList := by decide
      have hstar : Star (flatEntity (credentialUid name)) [] := .flat htype
      exact decide_flat.trans (hstar.decide_of_permitsEvery (ho _))

omit [HttpLibrary] in
/-- The credentials that are asked for are each permitted, bound to a variable or read whole. -/
theorem emitted_credential {r : DeclaredRequires} (hr : m.requires = some r) {name : Text}
    (hbound : ∀ b ∈ r.env, b.fromCredential.name ≠ [])
    (h : r.toRequires.Requests (.credential name)) : Emitted src m (spendPermit name) := by
  have hnamed : ∀ b ∈ r.env, b.fromCredential.name ∈ credentialNames r.env := fun b hb =>
    mem_credentialNames.2 ⟨hbound b hb, b, hb, rfl⟩
  rcases h with ⟨b, hb, rfl⟩ | hwhole
  · exact .bound hr (List.ne_nil_of_mem hb) (hnamed b hb)
  · by_cases hmem : name ∈ credentialNames r.env
    · rcases mem_credentialNames.1 hmem with ⟨-, b, hb, -⟩
      exact .bound hr (List.ne_nil_of_mem hb) hmem
    · exact .whole hr (List.mem_filter.2 ⟨hwhole, by simpa using hmem⟩)

/-- The requirements are admitted where every host is one that is written. -/
theorem admitted_iff (hps : List.Forall₂ (Means Value.str) c.policy (permits src (some m)))
    (hvalid : m.Valid) :
    (∀ (e : Ceiling) (o : OperatorPolicy ε) (principal : Principal),
      (∀ action, o.policy.PermitsEvery (actionUid action)) →
        ∃ caps, admitRequires (m.requires.map DeclaredRequires.toRequires) (some e) (some o) (some c)
          principal = .ok caps) ↔ HostsWritten m := by
  constructor
  · intro h r hr rule hrule
    have hrules : ∀ rule ∈ r.toRequires.http, ValidRule rule := validateRules_ok (hvalid.rules r hr)
    -- any ceiling, an operator who permits everything, any caller and any method of the rule
    let e : Ceiling :=
      { blocked := [], allowed := [], explicit := [], budget := .default, rateLimited := false }
    let o : OperatorPolicy ε := ⟨[⟨[], .permit, .any, .any, .any, []⟩]⟩
    have ho : ∀ action, o.policy.PermitsEvery (actionUid action) := fun _ _ _ _ => rfl
    rcases h e o ⟨[], [], []⟩ ho with ⟨caps, hcaps⟩
    rw [hr, Option.map_some] at hcaps
    rcases List.exists_mem_of_ne_nil _ (hrules rule hrule).methods with ⟨meth, hmeth⟩
    have hpermitted := ((admitRequires_eq_ok hrules).1 hcaps).1 (.egress (egressGrantOf rule meth))
      ⟨rule, hrule, meth, hmeth, rfl⟩
    have hhost := ruleHost_mem hrule (hrules rule hrule)
    have hscopes : c.scopesAction actionGrantEgress = true :=
      (scopesAction_iff hps (by decide)).2
        ⟨egressPermit (ruleHost rule), mem_permits.2 (.egress hr hhost), rfl⟩
    exact (permitsEgress_iff hps hr (hrules rule hrule) meth).1 (hpermitted.2 c rfl hscopes)
  · intro h e o principal ho
    cases hr : m.requires with
    | none => exact ⟨.default, rfl⟩
    | some r =>
        have hrules : ∀ rule ∈ r.toRequires.http, ValidRule rule :=
          validateRules_ok (hvalid.rules r hr)
        refine ⟨r.toRequires.exactly e, (admitRequires_eq_ok hrules).2 ⟨fun cap hcap => ?_, rfl⟩⟩
        refine ⟨⟨o, rfl, operator_permits ho hrules hcap⟩, ?_⟩
        intro c' hc' _
        cases hc'
        cases cap with
        | privateTmp => exact permitsPrivateTmp_of_emitted hps (.tmp hr hcap)
        | egress g =>
            rcases hcap with ⟨rule, hrule, meth, -, rfl⟩
            exact (permitsEgress_iff hps hr (hrules rule hrule) meth).2 (h r hr rule hrule)
        | env keys => exact permitsEnv_of_emitted hps (.env hr hcap.1) keys
        | credential name =>
            exact permitsSpendCredential_of_emitted hps
              (emitted_credential hr (hvalid.bound r hr) hcap)

end Hosts

/-! ## What the block is worth -/

section Skeleton

variable [SchemaLibrary] [UnicodeTables] [HttpLibrary]
variable {ε : Type} [Expressions ε Value] [PolicyParser Value.str ε] {src : Source}

omit [SchemaLibrary] [UnicodeTables] [HttpLibrary] in
theorem unlines_ne_nil {lines : List Text} (h : lines ≠ []) : unlines lines ≠ [] := by
  cases lines with
  | nil => exact absurd rfl h
  | cons line rest => simp [unlines]

/-- The policy in a block is compiled to the permits that are meant. -/
theorem compiles {m : Manifest} (hvalid : m.Valid) (hquotable : Quotable src m) {block : Text}
    (hblock : compositionPolicySkeleton src (some m) = some block) :
    ∃ c : CompositionPolicy ε, compileCompositionPolicy (uncommented block) = .ok (some c) ∧
      List.Forall₂ (Means Value.str) c.policy (permits src (some m)) := by
  have hreads := bodyLines_reads hvalid hquotable
  unfold compositionPolicySkeleton at hblock
  dsimp only at hblock
  split at hblock
  · cases hblock
  next hbody =>
  cases hblock
  rcases @PolicyParser.parse_of_read _ _ Value.str ε _ _ _ _ (read_of_reads hreads) with
    ⟨ps, hparse, hps⟩
  refine ⟨⟨ps⟩, ?_, hps⟩
  rw [uncommented_unlines hreads.single, compileCompositionPolicy, if_neg (unlines_ne_nil hbody),
    hparse]

omit [PolicyParser Value.str ε] in
theorem suffices_of_hostsWritten {m : Manifest} {c : CompositionPolicy ε}
    (hps : List.Forall₂ (Means Value.str) c.policy (permits src (some m))) (hvalid : m.Valid)
    (h : HostsWritten m) : Suffices src m c where
  admitted := (admitted_iff hps hvalid).2 h
  composes x hx change hkind hchange principal := permitsCompose_of_mem hps hx hkind hchange
  requires r hr x hx s hkind hmatch principal := permitsRequire_of_mem hps hr hx hkind hmatch
  pulls location hlocation ref reference href hsame principal := by
    have hself : reference.location ∉ boundaryPrefixes reference.location := by
      intro hmem
      rcases self_mem_boundaryPrefixes.1 hmem with ⟨p, heq, -, -⟩
      have hlast := ociLocation_last (parseOciReference_ok href)
      exact hlast (by rw [heq]; simp)
    exact permitsPullModule_of_emitted hps (hsame ▸ .pull hlocation) hself

omit [Expressions ε Value] [PolicyParser Value.str ε] in
theorem no_permits {m : Manifest} (hvalid : m.Valid) (hquotable : Quotable src m)
    (hblock : compositionPolicySkeleton src (some m) = none) : permits src (some m) = [] := by
  have hreads := bodyLines_reads hvalid hquotable
  unfold compositionPolicySkeleton at hblock
  dsimp only at hblock
  split at hblock
  · next hbody =>
      rw [hbody] at hreads
      exact hreads.eq_nil
  · cases hblock

/-- A policy whose texts can be quoted suffices where every host is written as decisions spell it,
or lies under one that is. -/
theorem skeleton_suffices_iff (src : Source) (v : Checked) :
    Quotable src v.manifest ∧ SkeletonSuffices ε src v.manifest ↔
      Quotable src v.manifest ∧ HostsWritten v.manifest := by
  have hvalid := Manifest.valid_of_validate v.validated
  refine and_congr_right fun hquotable => ⟨fun h => ?_, fun h block hblock => ?_⟩
  · cases hblock : compositionPolicySkeleton src (some v.manifest) with
    | none =>
        -- without a block there are no rules, since a rule has its permit
        intro r hr rule hrule
        have hhost := ruleHost_mem hrule (validateRules_ok (hvalid.rules r hr) rule hrule)
        have hpermit : egressPermit (ruleHost rule) ∈ permits src (some v.manifest) :=
          mem_permits.2 (.egress hr hhost)
        rw [no_permits hvalid hquotable hblock] at hpermit
        cases hpermit
    | some block =>
        rcases h block hblock with ⟨c, hcompiled, hsuffices⟩
        rcases compiles (ε := ε) hvalid hquotable hblock with ⟨c', hcompiled', hps⟩
        cases hcompiled.symm.trans hcompiled'
        exact (admitted_iff hps hvalid).1 hsuffices.admitted
  · rcases compiles (ε := ε) hvalid hquotable hblock with ⟨c, hcompiled, hps⟩
    exact ⟨c, hcompiled, suffices_of_hostsWritten hps hvalid h⟩

end Skeleton

/-! ## A host in capitals -/

@[reducible] def noSchema : SchemaLibrary where
  Json := Unit
  isNull _ := true
  emptyObject := ()
  compile _ := .ok ()
  firstError _ _ := none

attribute [local instance] noSchema oneUrl asciiTables

/-- A manifest that asks for one host, and spells it in capitals. -/
def capitals : Checked where
  manifest :=
    { type := []
      abi := 2
      requires := some
        { egress := some
            ⟨[{ host := "API.example.com".toList, hostPattern := [], methods := ["GET".toList],
                pathPrefix := [] }]⟩
          filesystem := none
          env := []
          credentials := []
          resources := [] }
      config := none
      minRuntime := []
      composes := [] }
  validated := by decide +kernel

/-- The policy permits the host as it is spelled, the decision is about it in lower case. -/
theorem capitals_not_permitted :
    ¬ SkeletonSuffices (Condition Value.str) (.path "m.wasm".toList) capitals.manifest := by
  intro h
  have hvalid := Manifest.valid_of_validate capitals.validated
  have hquotable : Quotable (.path "m.wasm".toList) capitals.manifest := by
    have hplain : ∀ t ∈ ["API.example.com".toList], Plain t := by decide
    exact hplain
  have hblock : ∃ block,
      compositionPolicySkeleton (.path "m.wasm".toList) (some capitals.manifest) = some block :=
    ⟨_, rfl⟩
  rcases hblock with ⟨block, hblock⟩
  rcases h block hblock with ⟨c, hcompiled, hsuffices⟩
  rcases compiles (ε := Condition Value.str) hvalid hquotable hblock with ⟨c', hcompiled', hps⟩
  cases hcompiled.symm.trans hcompiled'
  rcases (admitted_iff hps hvalid).1 hsuffices.admitted _ rfl _ List.mem_cons_self with
    ⟨host, hhost, hcovers⟩
  rw [mem_egressHosts] at hhost
  rcases hhost with ⟨-, rule, hrule, rfl⟩
  cases List.mem_singleton.1 hrule
  exact absurd hcovers (by decide +kernel)

end Generated
end FunctionWasm

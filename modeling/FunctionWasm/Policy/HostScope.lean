import FunctionWasm.Policy.Layers

/-!
# HostScope — a policy that permits hosts under one name

A policy sees a rule as an entity under its DNS suffixes, a grant holds the host of a URL against a
host or a suffix.  Where one layer permits egress only under a name, the grant admits that name and
names under it.

* `GrantsOnlyUnder` is what is asked of the policy, `Under` what comes of it.
* `admitted_request` finds the rule that admits a request, `under_of_isIn` holds its entity against
  its compiled form.
-/

namespace FunctionWasm
namespace Authz

open Cedar Egress
open HttpLibrary (uppercase)

/-- `d` itself, or a name that ends in `d` where a label begins. -/
def Under (d host : Text) : Prop := host = d ∨ ∃ sub, host = sub ++ '.' :: d

theorem Under.dot {d host : Text} (h : Under d host) (sub : Text) :
    Under d (sub ++ '.' :: host) := by
  rcases h with rfl | ⟨sub', rfl⟩
  · exact .inr ⟨sub, rfl⟩
  · exact .inr ⟨sub ++ '.' :: sub', by simp⟩

theorem under_of_mem_dnsSuffixes {d host : Text} (h : d ∈ dnsSuffixes host) : Under d host := by
  rcases mem_dnsSuffixes.1 h with ⟨p, rfl⟩
  exact .inr ⟨p, rfl⟩

section Rules

variable [HttpLibrary]

/-- A request is admitted by a rule for its host and its method. -/
theorem admitted_request {g : Grant} {method : Text} {u : Url} (h : g.admits method u = .ok ()) :
    ∃ c ∈ g.rules, c.matchesHost (normalizeHost u.hostname) = true ∧
      uppercase method ∈ c.methods := by
  unfold Grant.admits at h
  dsimp only at h
  split at h
  · cases h
  split at h
  · cases h
  split at h
  · cases h
  split at h
  · next hany =>
      rcases List.any_eq_true.1 hany with ⟨c, hc, hrequest⟩
      rcases List.mem_filter.1 hc with ⟨hmem, hhost⟩
      simp only [CompiledRule.matchesRequest, decide_eq_true_eq] at hrequest
      exact ⟨c, hmem, hhost, hrequest.1⟩
  · split at h <;> cases h

/-- The suffix of a pattern is what follows its star. -/
theorem patternSuffix_eq_some {p suffix : Text} (h : patternSuffix p = some suffix) :
    ∃ rest, normalizeHost p = '*' :: '.' :: rest ∧ suffix = '.' :: rest := by
  unfold patternSuffix at h
  split at h
  · next rest heq =>
      split at h
      · cases h
      · cases h
        exact ⟨rest, heq, rfl⟩
  · cases h

theorem star_notMem {d : Text} (hd : validHost d = true) : '*' ∉ normalizeHost d := by
  simp only [validHost, decide_eq_true_eq] at hd
  intro hmem
  exact hd.2 (List.any_eq_true.2 ⟨'*', hmem, by decide⟩)

/-- A rule whose entity is in `HostPattern::"d"` is compiled to one for hosts under `d`. -/
theorem under_of_isIn {r : HttpRule} {m : Text} {c : CompiledRule} (hc : Compiles r c)
    {d host : Text} (hd : validHost d = true) (hnorm : normalizeHost d = d)
    (hin : (hostLabel (egressGrantOf r m)).1 = d ∨ d ∈ hostAncestors (egressGrantOf r m))
    (hhost : c.matchesHost host = true) : Under d host := by
  simp only [CompiledRule.matchesHost, decide_eq_true_eq, List.isSuffixOf_iff_suffix] at hhost
  rcases hc.host with ⟨hne, hcompiled, hcne, -⟩ | ⟨hnil, -, hsuffix⟩
  · -- a host: the entity and the compiled rule carry the same name
    have hsame : host = normalizeHost r.host := by
      rcases hhost.1 with hnone | heq
      · exact absurd hnone hcne
      · rw [← heq, hcompiled]
    have hlabel : hostLabel (egressGrantOf r m) = (normalizeHost r.host, normalizeHost r.host) := by
      simp [hostLabel, egressGrantOf, hne]
    have hancestors : hostAncestors (egressGrantOf r m) = dnsSuffixes (normalizeHost r.host) := by
      unfold hostAncestors
      rw [hlabel]
      simp [egressGrantOf, hne]
    rw [hlabel, hancestors] at hin
    rw [hsame]
    rcases hin with heq | hmem
    · exact .inl heq
    · exact under_of_mem_dnsSuffixes hmem
  · -- a pattern: hosts below the name that bounds the entity
    rcases patternSuffix_eq_some hsuffix with ⟨rest, hpattern, hrest⟩
    have hlabel : hostLabel (egressGrantOf r m) = ('*' :: '.' :: rest, rest) := by
      simp [hostLabel, egressGrantOf, hnil, hpattern]
    have hancestors : hostAncestors (egressGrantOf r m) = rest :: dnsSuffixes rest := by
      unfold hostAncestors
      rw [hlabel]
      simp [egressGrantOf, hnil]
    have hbelow : Under d rest := by
      rw [hlabel, hancestors] at hin
      rcases hin with heq | hmem
      · have hstar : '*' ∈ normalizeHost d := by
          rw [hnorm, ← heq]
          exact List.mem_cons_self
        exact absurd hstar (star_notMem hd)
      · rcases List.mem_cons.1 hmem with rfl | hmem
        · exact .inl rfl
        · exact under_of_mem_dnsSuffixes hmem
    rcases hhost.2 with hnone | ⟨-, sub, heq⟩
    · rw [hrest] at hnone
      cases hnone
    · rw [← heq, hrest]
      exact hbelow.dot sub

end Rules

section Admission

variable {ε : Type} [HttpLibrary] [Expressions ε Value]

/-- The permits for egress hold only for resources in `HostPattern::"d"`. -/
def GrantsOnlyUnder (ps : PolicySet ε) (d : Text) : Prop :=
  ∀ (principal : Principal) (g : EgressGrant) (store : Cedar.Store Value),
    Cedar.Store.ofEntities ((hostEntities g).2 ++ [principal.toEntity]) = some store →
      ps.someSatisfied .permit (egressRequest g) store = true →
        store.isIn (hostEntities g).1 (hostPatternUid d) = true

/-- Some layer that is asked about egress permits it only under `d`. -/
def LayerGrantsOnlyUnder (policy : Option (OperatorPolicy ε))
    (comp : Option (CompositionPolicy ε)) (d : Text) : Prop :=
  (∃ p, policy = some p ∧ GrantsOnlyUnder p.policy d) ∨
    ∃ c, comp = some c ∧ c.scopesAction actionGrantEgress = true ∧ GrantsOnlyUnder c.policy d

theorem isIn_of_permitsEgress {ps : PolicySet ε} {d : Text} (hps : GrantsOnlyUnder ps d)
    {principal : Principal} {g : EgressGrant} (h : permitsEgressBy ps principal g = true) :
    (hostLabel g).1 = d ∨ d ∈ hostAncestors g := by
  rcases permitsEgressBy_iff.1 h with ⟨store, hstore, hallowed⟩
  have hpermit : ps.someSatisfied .permit (egressRequest g) store = true := by
    simp only [PolicySet.isAuthorized, Bool.and_eq_true] at hallowed
    exact hallowed.1
  have hentities : store.entities = (hostEntities g).2 ++ [principal.toEntity] := by
    unfold Cedar.Store.ofEntities at hstore
    split at hstore
    · cases hstore
      rfl
    · cases hstore
  exact isIn_host hentities (hps principal g store hstore hpermit)

theorem isIn_of_permitted {policy : Option (OperatorPolicy ε)}
    {comp : Option (CompositionPolicy ε)} {d : Text} (hlayer : LayerGrantsOnlyUnder policy comp d)
    {principal : Principal} {g : EgressGrant} (h : Permitted policy comp principal (.egress g)) :
    (hostLabel g).1 = d ∨ d ∈ hostAncestors g := by
  rcases hlayer with ⟨p, hp, hps⟩ | ⟨c, hc, hscopes, hps⟩
  · rcases h.1 with ⟨q, hq, hpermits⟩
    cases hp.symm.trans hq
    exact isIn_of_permitsEgress hps hpermits
  · exact isIn_of_permitsEgress hps (h.2 c hc hscopes)

/-- The grant of a run was compiled from rules that the layers were asked about. -/
theorem admitRequires_grant {r : Requires} {e : Ceiling} {policy : Option (OperatorPolicy ε)}
    {comp : Option (CompositionPolicy ε)} {principal : Principal} {caps : Capabilities} {g : Grant}
    (h : admitRequires (some r) (some e) policy comp principal = .ok caps)
    (hg : caps.grant = some g) :
    admitEgress r.http policy comp principal = .ok () ∧ e.grant r.http = .ok g := by
  unfold admitRequires at h
  simp only [check_bind_eq_ok] at h
  rcases h with ⟨-, hegress, h⟩
  rcases bind_eq_ok.1 h with ⟨grant, hgrant, h⟩
  simp only [check_bind_eq_ok] at h
  rcases h with ⟨-, -, hcaps⟩
  cases hcaps
  dsimp only at hg
  subst hg
  unfold grantRequired at hgrant
  split at hgrant
  · cases hgrant
  · next hne =>
      dsimp only at hgrant
      split at hgrant
      · cases hgrant
      · next g' hg' =>
          cases hgrant
          exact ⟨whenRequired_eq_ok.1 hegress (by simpa using hne), hg'⟩

/-- Where a layer permits egress only in `HostPattern::"d"`, every URL that the grant of an admitted
module admits is on `d` or on a host under it. -/
theorem granted_hosts_under {r : Requires} {e : Ceiling} {policy : Option (OperatorPolicy ε)}
    {comp : Option (CompositionPolicy ε)} {principal : Principal} {caps : Capabilities} {g : Grant}
    {d : Text} (hd : validHost d = true) (hnorm : normalizeHost d = d)
    (hlayer : LayerGrantsOnlyUnder policy comp d)
    (hcaps : admitRequires (some r) (some e) policy comp principal = .ok caps)
    (hgrant : caps.grant = some g) {method : Text} {u : Url}
    (hrequest : g.admits method u = .ok ()) : Under d (normalizeHost u.hostname) := by
  rcases admitRequires_grant hcaps hgrant with ⟨hegress, hg⟩
  rcases admitted_request hrequest with ⟨c, hc, hhost, hmethod⟩
  rcases grant_ok hg c hc with ⟨rule, hrule, hcompiles⟩
  -- the method is one of the rule, so the layers were asked about the rule
  rw [hcompiles.methods] at hmethod
  rcases List.mem_map.1 hmethod with ⟨m, hm, -⟩
  have hjudged := (admitEgress_eq_ok ⟨rule, hrule, List.ne_nil_of_mem hm⟩).1 hegress rule hrule m hm
  exact under_of_isIn hcompiles hd hnorm (isIn_of_permitted hlayer hjudged) hhost

end Admission

section Sample

attribute [local instance] sampleLibrary

/-- Egress to `d` and to hosts under it. -/
def permitUnder (id d : Text) : Policy Empty where
  id := id
  effect := .permit
  principal := .any
  action := .eq (actionUid actionGrantEgress)
  resource := .mem (hostPatternUid d)
  conditions := []

theorem permitUnder_grantsOnlyUnder (id d : Text) : GrantsOnlyUnder [permitUnder id d] d := by
  intro principal g store _ h
  simp only [PolicySet.someSatisfied, permitUnder, Policy.satisfied, Scope.holds, List.any_cons,
    List.any_nil, Bool.or_false, decide_eq_true_eq, Bool.and_eq_true] at h
  exact h.2.1.2

/-- A module with a pattern under `io`. -/
def patternRequires : Requires where
  egress := some
    { http :=
        [{ host := []
           hostPattern := "*.a.io".toList
           methods := ["GET".toList]
           pathPrefix := [] }] }
  filesystem := none
  env := []
  credentials := []

def patternGrant : Grant where
  egress := sampleGrant.egress
  rules :=
    [{ host := []
       suffix := ".a.io".toList
       methods := ["GET".toList]
       pathPrefix := [] }]

def patternOperator : OperatorPolicy Empty where
  policy := [permitUnder "policy0".toList "io".toList]

theorem patternRequires_admitted :
    admitRequires (some patternRequires) (some sampleGrant.egress) (some patternOperator) none
      ⟨[], [], []⟩ = .ok (patternRequires.exactly sampleGrant.egress) := by
  have hvalid : validateRules "requires.egress.http".toList patternRequires.http = .ok () := by
    decide +kernel
  refine (admitRequires_eq_ok (validateRules_ok hvalid)).2 ⟨?_, rfl⟩
  intro cap hcap
  cases cap with
  | privateTmp => cases hcap
  | egress g =>
      rcases hcap with ⟨rule, hrule, m, hm, rfl⟩
      rcases List.mem_singleton.1 hrule with rfl
      rcases List.mem_singleton.1 hm with rfl
      exact ⟨⟨_, rfl, by decide +kernel⟩, fun _ h => nomatch h⟩
  | env keys => exact absurd rfl hcap.1
  | credential name =>
      rcases hcap with ⟨b, hb, -⟩ | hname
      · cases hb
      · cases hname

/-- The pattern is permitted, and the grant admits a host that is under it. -/
theorem granted_hosts_under_sample :
    Under "io".toList (normalizeHost "b.a.io".toList) := by
  let u : Url :=
    { raw := "http://b.a.io/x".toList
      scheme := "http".toList
      hostname := "b.a.io".toList
      path := "/x".toList }
  have hgrant : (patternRequires.exactly sampleGrant.egress).grant = some patternGrant := by rfl
  have hrequest : patternGrant.admits "GET".toList u = .ok () := by decide +kernel
  exact granted_hosts_under (by decide +kernel) (by decide +kernel)
    (.inl ⟨patternOperator, rfl, permitUnder_grantsOnlyUnder _ _⟩) patternRequires_admitted hgrant
    hrequest

end Sample
end Authz
end FunctionWasm

import FunctionWasm.Egress.Compile

/-!
# Coverage — whether granted rules admit all that a required one does

Whether a required rule is covered is decided on the rules as they are written; what a rule admits is
decided on the URLs of requests.

* `covered` is the decision: hosts, methods and path prefixes compared as text.
* `RuleAdmits` is what one rule of a grant admits, `grant_admits_iff` the grant by its rules.
* `coverage_sound_iff` says when covered rules admit no more than the grant; `covered_self` that
  every list of rules covers itself.
-/

namespace FunctionWasm
namespace Egress

open HttpLibrary

/-! ## The decision -/

/-- `str::eq_ignore_ascii_case` -/
def eqIgnoreAsciiCase (a b : Text) : Bool := a.map Char.toLower = b.map Char.toLower

def trimDots (t : Text) : Text := trimEnd (· = '.') t

def matchesSuffix (host suffix : Text) : Bool :=
  suffix.length < host.length ∧ suffix.isSuffixOf host

def methodsCovered (required granted : List Text) : Bool :=
  required.all fun m => granted.any fun g => eqIgnoreAsciiCase g m

variable [HttpLibrary]

/-- Whether a host is under a pattern. -/
def patternCovers (pattern host : Text) : Bool :=
  match patternSuffix pattern with
  | none => false
  | some suffix => matchesSuffix (normalizeHost host) suffix

/-- Whether a pattern is another one or under it. -/
def patternUnder (pattern granted : Text) : Bool :=
  match patternSuffix pattern, patternSuffix granted with
  | some suffix, some wider => suffix = wider ∨ wider.isSuffixOf suffix
  | _, _ => false

/-- A granted exact host never covers a pattern. -/
def hostCovered (required granted : HttpRule) : Bool :=
  if required.host ≠ [] then
    if granted.host ≠ [] then eqIgnoreAsciiCase (trimDots granted.host) (trimDots required.host)
    else patternCovers granted.hostPattern required.host
  else granted.hostPattern ≠ [] ∧ patternUnder required.hostPattern granted.hostPattern

def covered (required : HttpRule) (granted : List HttpRule) : Bool :=
  granted.any fun g =>
    hostCovered required g && methodsCovered required.methods g.methods &&
      (g.pathPrefix = [] ∨ g.pathPrefix.isPrefixOf required.pathPrefix)

/-- Rules that passed the check of their field. -/
structure ValidRules where
  field : Text
  rules : List HttpRule
  valid : validateRules field rules = .ok ()

theorem ValidRules.rule {v : ValidRules} {r : HttpRule} (h : r ∈ v.rules) : ValidRule r :=
  validateRules_ok v.valid r h

/-- The path prefix of a rule begins like a path. -/
theorem validateRule_rooted {entry : Text} {r : HttpRule} (h : validateRule entry r = .ok ()) :
    r.pathPrefix = [] ∨ r.pathPrefix.head? = some '/' := by
  by_contra hpath
  push Not at hpath
  unfold validateRule at h
  rw [if_pos hpath] at h
  split at h
  · cases h
  split at h
  · cases h
  split at h
  · cases h
  split at h
  · cases h
  split at h <;> cases h

theorem ValidRules.rooted {v : ValidRules} {r : HttpRule} (h : r ∈ v.rules) :
    r.pathPrefix = [] ∨ r.pathPrefix.head? = some '/' := by
  rcases List.mem_iff_getElem?.1 h with ⟨i, hi⟩
  have hmem : (r, i) ∈ v.rules.zipIdx := List.mk_mem_zipIdx_iff_getElem?.2 hi
  exact validateRule_rooted (checkAll_eq_ok.1 v.valid (r, i) hmem)

/-! ## What a grant admits -/

/-- The hosts of a rule, normalized: its own, or those under its pattern. -/
def NamesHost (r : HttpRule) (host : Text) : Prop :=
  if r.host ≠ [] then normalizeHost r.host = host
  else ∃ suffix, patternSuffix r.hostPattern = some suffix ∧ matchesSuffix host suffix = true

/-- What one rule admits of the requests that any rule may. -/
structure RuleAdmits (r : HttpRule) (method : Text) (u : Url) : Prop where
  host : NamesHost r (normalizeHost u.hostname)
  method : uppercase method ∈ r.methods.map uppercase
  path : r.pathPrefix = [] ∨ r.pathPrefix <+: pathOrRoot u.path

/-- The requests that no rule refuses: http or https, a host, and a normalized path. -/
structure Admissible (u : Url) : Prop where
  scheme : u.scheme = "http".toList ∨ u.scheme = "https".toList
  host : normalizeHost u.hostname ≠ []
  path : normalizedPath u.path = true

theorem suffix_ne_nil {pattern suffix : Text} (h : patternSuffix pattern = some suffix) :
    suffix ≠ [] := by
  unfold patternSuffix at h
  split at h
  · split at h
    · cases h
    · cases h
      simp
  · cases h

/-- A compiled rule admits what its rule does. -/
theorem compiled_admits {r : HttpRule} {c : CompiledRule} (h : Compiles r c) {method : Text}
    {u : Url} :
    (c.matchesHost (normalizeHost u.hostname) = true ∧
        c.matchesRequest (uppercase method) u.path = true) ↔ RuleAdmits r method u := by
  have hhost : c.matchesHost (normalizeHost u.hostname) = true ↔
      NamesHost r (normalizeHost u.hostname) := by
    unfold CompiledRule.matchesHost NamesHost
    rcases h.host with ⟨hne, heq, hcne, hsuffix⟩ | ⟨hnil, hcnil, hsuffix⟩
    · simp [hne, hsuffix, ← heq, hcne]
    · simp [hnil, hcnil, hsuffix, suffix_ne_nil hsuffix, matchesSuffix]
  have hrequest : c.matchesRequest (uppercase method) u.path = true ↔
      uppercase method ∈ r.methods.map uppercase ∧
        (r.pathPrefix = [] ∨ r.pathPrefix <+: pathOrRoot u.path) := by
    simp [CompiledRule.matchesRequest, h.methods, h.path]
  rw [hhost, hrequest]
  exact ⟨fun ⟨hh, hm, hp⟩ => ⟨hh, hm, hp⟩, fun hr => ⟨hr.host, hr.method, hr.path⟩⟩

theorem grant_compiled {e : Ceiling} {rules : List HttpRule} {g : Grant}
    (h : e.grant rules = .ok g) : ∀ r ∈ rules, ∃ c ∈ g.rules, Compiles r c := by
  rcases bind_eq_ok.1 h with ⟨compiled, hcompiled, heq⟩
  cases heq
  intro r hr
  rcases List.mem_iff_getElem?.1 hr with ⟨i, hi⟩
  have hmem : (r, i) ∈ rules.zipIdx := List.mk_mem_zipIdx_iff_getElem?.2 hi
  rcases exists_of_mapM_ok hcompiled _ hmem with ⟨c, hc, hcr⟩
  exact ⟨c, hc, compileRule_ok hcr⟩

theorem admits_iff {g : Grant} {method : Text} {u : Url} :
    g.admits method u = .ok () ↔ Admissible u ∧ ∃ c ∈ g.rules,
      c.matchesHost (normalizeHost u.hostname) = true ∧
        c.matchesRequest (uppercase method) u.path = true := by
  have hany : ((g.rules.filter fun r => r.matchesHost (normalizeHost u.hostname)).any fun r =>
      r.matchesRequest (uppercase method) u.path) = true ↔
      ∃ c ∈ g.rules, c.matchesHost (normalizeHost u.hostname) = true ∧
        c.matchesRequest (uppercase method) u.path = true := by
    simp
  unfold Grant.admits
  dsimp only
  rw [← hany]
  split
  · next hscheme =>
      refine iff_of_false (by simp) ?_
      rintro ⟨hadmissible, -⟩
      exact hadmissible.scheme.elim hscheme.1 hscheme.2
  next hscheme =>
  split
  · next hhost => exact iff_of_false (by simp) fun h => h.1.host hhost
  next hhost =>
  split
  · next hpath => exact iff_of_false (by simp) fun h => hpath h.1.path
  next hpath =>
  have hadmissible : Admissible u :=
    ⟨by by_contra hno; exact hscheme (not_or.1 hno), hhost, not_not.1 hpath⟩
  split
  · next hmatch => exact iff_of_true rfl ⟨hadmissible, hmatch⟩
  · next hmatch =>
      refine iff_of_false ?_ fun h => hmatch h.2
      split <;> simp

/-- A grant admits what some rule of it does. -/
theorem grant_admits_iff {e : Ceiling} {rules : List HttpRule} {g : Grant}
    (h : e.grant rules = .ok g) {method : Text} {u : Url} :
    g.admits method u = .ok () ↔ Admissible u ∧ ∃ r ∈ rules, RuleAdmits r method u := by
  rw [admits_iff]
  refine and_congr_right fun _ => ?_
  constructor
  · rintro ⟨c, hc, hmatch⟩
    rcases grant_ok h c hc with ⟨r, hr, hcompiles⟩
    exact ⟨r, hr, (compiled_admits hcompiles).1 hmatch⟩
  · rintro ⟨r, hr, hadmits⟩
    rcases grant_compiled h r hr with ⟨c, hc, hcompiles⟩
    exact ⟨c, hc, (compiled_admits hcompiles).2 hadmits⟩

/-! ## Coverage -/

/-- Every request that the grant of the required rule admits is admitted by the grant of the others.
The path of a URL is empty or begins with a slash. -/
def AdmitsAll (required : HttpRule) (granted : List HttpRule) : Prop :=
  ∀ (e : Ceiling) (g g' : Grant), e.grant [required] = .ok g → e.grant granted = .ok g' →
    ∀ (method : Text) (u : Url), (u.path = [] ∨ u.path.head? = some '/') →
      g.admits method u = .ok () → g'.admits method u = .ok ()

/-- Each method of a rule with a host is listed by a rule for that host as it is compared with the
hosts of URLs. -/
def SameHost (required : HttpRule) (granted : List HttpRule) : Prop :=
  required.host ≠ [] → ∀ m ∈ required.methods, ∃ g ∈ granted,
    NamesHost g (normalizeHost required.host) ∧ uppercase m ∈ g.methods.map uppercase ∧
      (g.pathPrefix = [] ∨ g.pathPrefix <+: pathOrRoot required.pathPrefix)

omit [HttpLibrary] in
theorem root_of_rooted {path : Text} (h : path = [] ∨ path.head? = some '/') :
    "/".toList <+: pathOrRoot path := by
  rcases h with rfl | hslash
  · exact List.prefix_refl _
  · cases path with
    | nil => cases hslash
    | cons c rest =>
        cases hslash
        exact ⟨rest, rfl⟩

omit [HttpLibrary] in
/-- Known methods that agree up to letter case are one. -/
theorem method_eq {m m' : Text} (hm : m ∈ knownMethods) (hm' : m' ∈ knownMethods)
    (h : eqIgnoreAsciiCase m m' = true) : m = m' := by
  have hall : ∀ a ∈ knownMethods, ∀ b ∈ knownMethods, eqIgnoreAsciiCase a b = true → a = b := by
    decide
  exact hall m hm m' hm' h

omit [HttpLibrary] in
theorem matchesSuffix_of_under {host suffix wider : Text}
    (hunder : suffix = wider ∨ wider.isSuffixOf suffix = true)
    (h : matchesSuffix host suffix = true) : matchesSuffix host wider = true := by
  have hsuffix : wider <:+ suffix := by
    rcases hunder with rfl | hsuffix
    · exact List.suffix_refl _
    · exact List.isSuffixOf_iff_suffix.1 hsuffix
  simp only [matchesSuffix, decide_eq_true_eq, List.isSuffixOf_iff_suffix] at h ⊢
  exact ⟨Nat.lt_of_le_of_lt hsuffix.length_le h.1, hsuffix.trans h.2⟩

/-- Under a pattern that is covered there is no other host. -/
theorem admits_of_pattern {required granted : HttpRule} {method : Text} {u : Url}
    (hrequired : ValidRule required) (hgranted : ValidRule granted) (hpattern : required.host = [])
    (hhost : hostCovered required granted = true)
    (hmethods : methodsCovered required.methods granted.methods = true)
    (hpath : granted.pathPrefix = [] ∨ granted.pathPrefix.isPrefixOf required.pathPrefix = true)
    (h : RuleAdmits required method u) : RuleAdmits granted method u := by
  have hunder : granted.hostPattern ≠ [] ∧
      patternUnder required.hostPattern granted.hostPattern = true := by
    simpa [hostCovered, hpattern] using hhost
  have hexact : granted.host = [] := by
    by_contra hne
    exact hgranted.one (iff_of_false hne hunder.1)
  have hnames := h.host
  unfold NamesHost at hnames
  rw [if_neg (not_not.2 hpattern)] at hnames
  rcases hnames with ⟨suffix, hsuffix, hmatch⟩
  refine ⟨?_, ?_, ?_⟩
  · unfold NamesHost
    rw [if_neg (not_not.2 hexact)]
    cases hover : patternSuffix granted.hostPattern with
    | none => simp [patternUnder, hsuffix, hover] at hunder
    | some wider =>
        have hunder' : suffix = wider ∨ wider.isSuffixOf suffix = true := by
          simpa [patternUnder, hsuffix, hover] using hunder.2
        exact ⟨wider, rfl, matchesSuffix_of_under hunder' hmatch⟩
  · rcases List.mem_map.1 h.method with ⟨m, hm, heq⟩
    rcases List.any_eq_true.1 (List.all_eq_true.1 hmethods m hm) with ⟨m', hm', hsame⟩
    have hmethod := method_eq (hgranted.known m' hm') (hrequired.known m hm) hsame
    rw [← heq, ← hmethod]
    exact List.mem_map_of_mem hm'
  · rcases hpath with hnil | hle
    · exact .inl hnil
    · have hle' := List.isPrefixOf_iff_prefix.1 hle
      rcases h.path with hnil | hstart
      · rw [hnil] at hle'
        exact .inl (List.prefix_nil.1 hle')
      · exact .inr (hle'.trans hstart)

/-- A rule with a host admits no more than rules that list its methods for the same host. -/
theorem admits_of_sameHost {required : HttpRule} {granted : List HttpRule} {method : Text} {u : Url}
    (hexact : required.host ≠ []) (hsame : SameHost required granted)
    (hrooted : u.path = [] ∨ u.path.head? = some '/') (h : RuleAdmits required method u) :
    ∃ g ∈ granted, RuleAdmits g method u := by
  have hhost : normalizeHost required.host = normalizeHost u.hostname := by
    have hnames := h.host
    unfold NamesHost at hnames
    rwa [if_pos hexact] at hnames
  rcases List.mem_map.1 h.method with ⟨m, hm, heq⟩
  rcases hsame hexact m hm with ⟨g, hg, hnames, hlists, hpath⟩
  refine ⟨g, hg, hhost ▸ hnames, heq ▸ hlists, ?_⟩
  rcases hpath with hnil | hle
  · exact .inl hnil
  · rcases h.path with hnil | hstart
    · -- without a prefix of its own the rule admits every path, and each begins at the root
      rw [hnil] at hle
      exact .inr (hle.trans (root_of_rooted hrooted))
    · by_cases hnil : required.pathPrefix = []
      · rw [hnil] at hle
        exact .inr (hle.trans (root_of_rooted hrooted))
      · rw [pathOrRoot, if_neg hnil] at hle
        exact .inr (hle.trans hstart)

/-- Covered rules admit no more than the granted ones exactly where those with a host are covered
for that host as requests are. -/
theorem coverage_sound_iff (required granted : ValidRules) :
    (∀ r ∈ required.rules, covered r granted.rules = true → AdmitsAll r granted.rules) ↔
      ∀ r ∈ required.rules, covered r granted.rules = true → SameHost r granted.rules := by
  constructor
  · intro h r hr hcovered hexact m hm
    have hvalid := ValidRules.rule hr
    let e : Ceiling :=
      { blocked := [], allowed := [], explicit := [], budget := .default, rateLimited := false }
    rcases @grant_of_valid _ e [r] (by simpa using hvalid) with ⟨g, hg⟩
    rcases @grant_of_valid _ e granted.rules fun _ => ValidRules.rule with ⟨g', hg'⟩
    -- the request for the host as the rule spells it, at the start of its paths
    let u : Url := ⟨[], "http".toList, r.host, r.pathPrefix⟩
    have hadmits : RuleAdmits r m u := by
      refine ⟨?_, List.mem_map_of_mem hm, ?_⟩
      · unfold NamesHost
        rw [if_pos hexact]
      · by_cases hnil : r.pathPrefix = []
        · exact .inl hnil
        · have hself : pathOrRoot r.pathPrefix = r.pathPrefix := if_neg hnil
          exact .inr (hself.symm ▸ List.prefix_refl _)
    have hadmissible : Admissible u :=
      ⟨.inl rfl, normalizeHost_ne_nil (hvalid.host hexact), hvalid.path⟩
    have hfirst := (grant_admits_iff hg).2 ⟨hadmissible, r, by simp, hadmits⟩
    have hsecond := h r hr hcovered e g g' hg hg' m u (ValidRules.rooted hr) hfirst
    rcases ((grant_admits_iff hg').1 hsecond).2 with ⟨x, hx, hx'⟩
    exact ⟨x, hx, hx'.host, hx'.method, hx'.path⟩
  · intro h r hr hcovered e g g' hg hg' method u hrooted hadmits
    rcases (grant_admits_iff hg).1 hadmits with ⟨hadmissible, r', hr', hrule⟩
    cases List.mem_singleton.1 hr'
    refine (grant_admits_iff hg').2 ⟨hadmissible, ?_⟩
    by_cases hexact : r.host = []
    · rcases List.any_eq_true.1 hcovered with ⟨x, hx, hcover⟩
      simp only [Bool.and_eq_true, decide_eq_true_eq] at hcover
      exact ⟨x, hx, admits_of_pattern (ValidRules.rule hr) (ValidRules.rule hx) hexact
        hcover.1.1 hcover.1.2 hcover.2 hrule⟩
    · exact admits_of_sameHost hexact (h r hr hcovered) hrooted hrule

/-! ## Rules that cover themselves -/

theorem hostCovered_self {r : HttpRule} (h : ValidRule r) : hostCovered r r = true := by
  unfold hostCovered
  by_cases hexact : r.host = []
  · have hpattern : r.hostPattern ≠ [] := fun hnil => h.one (iff_of_true hexact hnil)
    have hvalid := h.pattern hpattern
    unfold validHostPattern at hvalid
    cases hsuffix : patternSuffix r.hostPattern with
    | none => simp [hsuffix] at hvalid
    | some suffix => simp [hexact, hpattern, patternUnder, hsuffix]
  · simp [hexact, eqIgnoreAsciiCase]

theorem covered_self {rules : List HttpRule} {r : HttpRule} (hr : r ∈ rules) (h : ValidRule r) :
    covered r rules = true := by
  refine List.any_eq_true.2 ⟨r, hr, ?_⟩
  have hmethods : methodsCovered r.methods r.methods = true := by
    refine List.all_eq_true.2 fun m hm => List.any_eq_true.2 ⟨m, hm, ?_⟩
    simp [eqIgnoreAsciiCase]
  simp [hostCovered_self h, hmethods]

end Egress
end FunctionWasm

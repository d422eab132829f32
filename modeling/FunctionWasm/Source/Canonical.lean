import FunctionWasm.Registry.Oci
import FunctionWasm.Source.Requested
import FunctionWasm.Source.Segment

/-!
# Canonical — the spellings of one artifact

What a policy says of a location it says of a text.  Two references or URLs that fetch one artifact
are two spellings of it, which need not have one location.

* `manifestRequest` is the URL that a reference's manifest is requested at.
* `HostSpelling` is one way to write the authority of a URL.
* `respelling_kept_iff` says which spellings have one location.
-/

namespace FunctionWasm

open Unicode UnicodeTables Web WebHosts

/-! ## References -/

/-- A reference before its digest. -/
def nameOf (r : Text) : Text :=
  match rsplitOnce '@' r with
  | some (name, _) => name
  | none => r

def writtenRegistry (r : Text) : Text := (registryOf (nameOf r)).1

def writtenRepository (r : Text) : Text :=
  repositoryOf (writtenRegistry r) (registryOf (nameOf r)).2

/-- The authority of a URL ends within the registry, and the repository is not where it was put. -/
def cutsUrl (registry : Text) : Bool := registry.any endsAuthority

/-- The URL that the manifest of a reference is requested at. -/
def manifestRequest (r : OciReference) : Text := (RegistryClient.new r).manifestUrl r.digest

section References

/-- A character of a repository or of a digest. -/
def inReference (c : Char) : Bool := isAlnum c || c = '.' || c = '_' || c = '-' || c = '/' || c = ':'

theorem inReference_of_isAlnum {c : Char} (h : isAlnum c = true) : inReference c = true := by
  simp [inReference, h]

theorem inReference_of_run {run : Text} (h : run ∈ alnumRuns) : ∀ c ∈ run, inReference c = true :=
  fun c hc => inReference_of_isAlnum ((mem_alnumRuns.1 h).2 c hc)

theorem inReference_of_separator {sep : Text} (h : sep ∈ separators) :
    ∀ c ∈ sep, inReference c = true := by
  rcases h with rfl | rfl | rfl | ⟨n, rfl⟩
  · exact List.all_eq_true.1 (by decide)
  · exact List.all_eq_true.1 (by decide)
  · exact List.all_eq_true.1 (by decide)
  · intro c hc
    rw [List.eq_of_mem_replicate hc]
    decide

/-- A segment of a repository begins with a letter or a digit and is written with what URLs keep. -/
theorem repositorySegment_valid {s : Text} (h : repositorySegmentIsValid s = true) :
    (∃ first rest, s = first :: rest ∧ isAlnum first = true) ∧
      ∀ c ∈ s, inReference c = true := by
  obtain ⟨run, hrun, rest, hrest, rfl⟩ := Language.mem_mul.1 (repositorySegmentIsValid_iff.1 h)
  obtain ⟨hne, hall⟩ := mem_alnumRuns.1 hrun
  obtain ⟨first, run, rfl⟩ := List.exists_cons_of_ne_nil hne
  refine ⟨⟨first, run ++ rest, rfl, hall first List.mem_cons_self⟩, ?_⟩
  intro c hc
  rcases List.mem_append.1 hc with hc | hc
  · exact inReference_of_run hrun c hc
  · -- the rest is pieces of a separator and a run each
    obtain ⟨pieces, rfl, hpieces⟩ := Language.mem_kstar.1 hrest
    obtain ⟨piece, hpiece, hc⟩ := List.mem_flatten.1 hc
    obtain ⟨sep, hsep, run', hrun', rfl⟩ := Language.mem_mul.1 (hpieces piece hpiece)
    rcases List.mem_append.1 hc with hc | hc
    · exact inReference_of_separator hsep c hc
    · exact inReference_of_run hrun' c hc

theorem isAlnum_of_isHexLower {c : Char} (h : isHexLower c = true) : isAlnum c = true := by
  simp only [isHexLower, Bool.or_eq_true, Bool.and_eq_true, decide_eq_true_eq] at h
  rcases h with hdigit | ⟨hlow, hhigh⟩
  · simp [isAlnum, hdigit]
  · have hz : c ≤ 'z' := Char.le_trans hhigh (by decide)
    have hlower : c.isLower = true := Unicode.isLower_iff.2 ⟨hlow, hz⟩
    simp [isAlnum, hlower]

/-- A digest is of one length and has no slash. -/
theorem digest_valid {digest : Text} (h : digestIsValid digest = true) :
    digest.length = 71 ∧ digest.head? = some 's' ∧
      ∀ c ∈ digest, inReference c = true ∧ c ≠ '/' := by
  rcases digestIsValid_eq_true.1 h with ⟨hex, rfl, hlength, hall⟩
  refine ⟨by simp [hlength], rfl, ?_⟩
  intro c hc
  rcases List.mem_append.1 hc with hc | hc
  · have hsha : "sha256:".toList.all (fun c => inReference c && c ≠ '/') = true := by decide
    simpa using List.all_eq_true.1 hsha c hc
  · refine ⟨inReference_of_isAlnum (isAlnum_of_isHexLower (hall c hc)), ?_⟩
    rintro rfl
    exact absurd (hall _ hc) (by decide)

theorem registryOf_mem {name : Text} {c : Char} (h : c ∈ (registryOf name).1) :
    c ∈ name ∨ c ∈ dockerHub := by
  have halias : ∀ p : Text × Text, c ∈ (if p.1 = "docker.io".toList then (dockerHub, p.2)
      else p).1 → c ∈ p.1 ∨ c ∈ dockerHub := by
    intro p hp
    split at hp
    · exact .inr hp
    · exact .inl hp
  unfold registryOf at h
  dsimp only at h
  split at h
  · next first rest hsplit =>
      have hname := (splitOnce_eq_some.1 hsplit).1
      split at h
      · rcases halias (first, rest) h with hmem | hmem
        · exact .inl (by rw [hname]; exact List.mem_append_left _ hmem)
        · exact .inr hmem
      · rcases halias (dockerHub, name) h with hmem | hmem <;> exact .inr hmem
  · rcases halias (dockerHub, name) h with hmem | hmem <;> exact .inr hmem

theorem toNat_of_isAlnum {c : Char} (h : isAlnum c = true) :
    c.isAlphanum = true ∧ 48 ≤ c.toNat ∧ c.toNat ≤ 122 := by
  have halpha : c.isAlphanum = true := by
    simp only [isAlnum, Bool.or_eq_true] at h
    simp only [Char.isAlphanum, Unicode.isAlpha_eq, Bool.or_eq_true]
    tauto
  have hrange := toNat_of_isAlphanum halpha
  exact ⟨halpha, by omega, by omega⟩

theorem keptInPath_of_inReference {c : Char} (h : inReference c = true) :
    keptInPath c = true ∧ c ≠ '\\' ∧ endsPath c = false ∧ isC0OrSpace c = false := by
  simp only [inReference, Bool.or_eq_true, decide_eq_true_eq] at h
  rcases h with ((((halnum | rfl) | rfl) | rfl) | rfl) | rfl
  · have hrange := toNat_of_isAlnum halnum
    have hne : ∀ d : Char, isAlnum d = false → c ≠ d := by
      rintro d hd rfl
      simp [halnum] at hd
    refine ⟨by simp [keptInPath, hrange.1], hne _ (by decide), ?_, ?_⟩
    · simp [endsPath, hne '?' (by decide), hne '#' (by decide)]
    · simp only [isC0OrSpace, decide_eq_false_iff_not]
      omega
  all_goals decide

/-- A segment that begins with a letter or a digit is no dot segment. -/
theorem isDotSegment_of_isAlnum {c : Char} {rest : Text} (h : isAlnum c = true) :
    isDotSegment (c :: rest) = false := by
  have hfirst : ∀ d : Char, isMark d = true → isAlnum d = false → c.toLower ≠ d := by
    intro d hmark hd heq
    rw [toLower_eq_mark hmark] at heq
    rw [← heq, h] at hd
    cases hd
  have hdot := hfirst '.' (by decide) (by decide)
  have hpercent := hfirst '%' (by decide) (by decide)
  simp [isDotSegment, isSingleDot, isDoubleDot, hdot, hpercent]

/-- The path that a manifest is requested at. -/
def manifestPath (repository digest : Text) : Text :=
  "v2/".toList ++ repository ++ "/manifests/".toList ++ digest

theorem manifestPath_mem {repository digest : Text} {c : Char}
    (hsegments : ∀ s ∈ repository.splitOn '/', repositorySegmentIsValid s = true)
    (hdigest : digestIsValid digest = true) (hc : c ∈ manifestPath repository digest) :
    inReference c = true := by
  have htexts : ∀ c ∈ "v2/".toList ++ "/manifests/".toList, inReference c = true :=
    List.all_eq_true.1 (by decide)
  simp only [manifestPath, List.mem_append] at hc
  rcases hc with ((hc | hc) | hc) | hc
  · exact htexts c (List.mem_append_left _ hc)
  · rw [← @List.intercalate_splitOn _ repository _ _ '/'] at hc
    rcases mem_intercalate hc with rfl | ⟨s, hs, hmem⟩
    · decide
    · exact (repositorySegment_valid (hsegments s hs)).2 c hmem
  · exact htexts c (List.mem_append_right _ hc)
  · exact ((digest_valid hdigest).2.2 c hc).1

theorem manifestPath_splitOn {repository digest : Text} (hslash : '/' ∉ digest) :
    (manifestPath repository digest).splitOn '/' =
      "v2".toList :: repository.splitOn '/' ++ ["manifests".toList, digest] := by
  have hparts : manifestPath repository digest =
      "v2".toList ++ '/' :: (repository ++ '/' :: ("manifests".toList ++ '/' :: digest)) := by
    simp [manifestPath]
  rw [hparts, List.splitOn_append_cons_self, List.splitOn_append_cons_self,
    List.splitOn_append_cons_self, List.splitOn_eq_singleton hslash]
  have hv2 : "v2".toList.splitOn '/' = ["v2".toList] := List.splitOn_eq_singleton (by decide)
  have hmanifests : "manifests".toList.splitOn '/' = ["manifests".toList] :=
    List.splitOn_eq_singleton (by decide)
  rw [hv2, hmanifests]
  simp

/-- The client leaves the path that a manifest is requested at as it is. -/
theorem webPath_manifestPath [WebHosts] {repository digest : Text}
    (hsegments : ∀ s ∈ repository.splitOn '/', repositorySegmentIsValid s = true)
    (hdigest : digestIsValid digest = true) :
    webPath ('/' :: manifestPath repository digest) = '/' :: manifestPath repository digest := by
  rw [webPath_eq_self]
  constructor
  · intro c hc
    have hkept := keptInPath_of_inReference (manifestPath_mem hsegments hdigest hc)
    exact ⟨pathEncodes_kept c hkept.1, hkept.2.1⟩
  · intro s hs
    rw [manifestPath_splitOn fun hmem => ((digest_valid hdigest).2.2 _ hmem).2 rfl] at hs
    simp only [List.cons_append, List.mem_cons, List.mem_append, List.not_mem_nil, or_false] at hs
    rcases hs with rfl | hs | rfl | rfl
    · decide
    · rcases (repositorySegment_valid (hsegments s hs)).1 with ⟨first, rest, rfl, hfirst⟩
      exact isDotSegment_of_isAlnum hfirst
    · decide
    · rcases List.head?_eq_some_iff.1 (digest_valid hdigest).2.1 with ⟨rest, rfl⟩
      exact isDotSegment_of_isAlnum (by decide)

theorem endsAuthority_of_registry {registry : Text} {c : Char} (hcut : cutsUrl registry = false)
    (hspace : ∀ c ∈ registry, isWhitespace c = false) (hc : c ∈ registry) :
    endsAuthority c = false ∧ isTabOrNewline c = false := by
  refine ⟨by simpa using (List.any_eq_false.1 hcut) c hc, ?_⟩
  by_contra htab
  have hwhite : c = '\t' ∨ c = '\n' ∨ c = '\r' := by
    simpa [isTabOrNewline, or_iff_not_imp_left] using htab
  have hc' := hspace c hc
  rcases hwhite with rfl | rfl | rfl <;> exact absurd hc' (by decide)

/-- The host that a registry is asked at. -/
def requestHost (registry : Text) : Text :=
  if registry = "index.docker.io".toList then "registry-1.docker.io".toList else registry

/-- The parts of the URL that a manifest is requested at. -/
theorem manifestRequest_eq (reference : OciReference) :
    ∃ scheme, (scheme = "http".toList ∨ scheme = "https".toList) ∧
      manifestRequest reference = scheme ++ "://".toList ++ requestHost reference.registry ++
        '/' :: manifestPath reference.repository reference.digest ++ [] := by
  have hscheme : ∀ b : Bool, (if b then "http" else "https").toList = "http".toList ∨
      (if b then "http" else "https").toList = "https".toList := by decide
  refine ⟨_, hscheme (RegistryClient.startsWithAny ["localhost", "127.0.0.1", "[::1]"]
    (requestHost reference.registry)), ?_⟩
  have hslash : "/v2/".toList = '/' :: "v2/".toList := by decide
  simp only [manifestRequest, RegistryClient.new, RegistryClient.manifestUrl, manifestPath,
    requestHost, hslash, List.append_assoc, List.append_nil, List.cons_append]
  rfl

variable [UnicodeTables]

/-- What was read of a reference that was accepted. -/
structure ReadAs (r : Text) (reference : OciReference) : Prop where
  location : ociLocation r = .ok reference.location
  registry : reference.registry = writtenRegistry r
  repository : reference.repository = writtenRepository r
  segments : ∀ s ∈ reference.repository.splitOn '/', repositorySegmentIsValid s = true
  host : reference.registry ≠ [] ∧ '/' ∉ reference.registry ∧
    ∀ c ∈ reference.registry, isWhitespace c = false
  digest : digestIsValid reference.digest = true

theorem readAs_of_parse {r : Text} {reference : OciReference}
    (h : parseOciReference r = .ok reference) : ReadAs r reference := by
  have hlocation := parseOciReference_ok h
  rcases ociLocation_ok hlocation with
    ⟨name, digest, hr, hdigest, -, hspace, hsegments, heq⟩
  have hat : rsplitOnce '@' r = some (name, digest) :=
    rsplitOnce_eq_some.2 ⟨hr, digest_no_at hdigest⟩
  have hname : nameOf r = name := by rw [nameOf, hat]
  have hslash : splitOnce '/' reference.location =
      some ((registryOf name).1, repositoryOf (registryOf name).1 (registryOf name).2) := by
    rw [splitOnce_eq_some]
    exact ⟨by simpa using heq, (registryOf_fst name).2⟩
  have hreference : reference = ⟨(registryOf name).1,
      repositoryOf (registryOf name).1 (registryOf name).2, digest⟩ := by
    simp only [parseOciReference, hlocation, hslash, hat, Except.ok.injEq] at h
    exact h.symm
  refine ⟨hlocation, ?_, ?_, ?_, ?_, ?_⟩
  · rw [hreference, writtenRegistry, hname]
  · rw [hreference, writtenRepository, writtenRegistry, hname]
  · rw [hreference]
    exact List.all_eq_true.1 hsegments
  · rw [hreference]
    refine ⟨(registryOf_fst name).1, (registryOf_fst name).2, ?_⟩
    intro c hc
    rcases registryOf_mem hc with hmem | hmem
    · simpa using (List.any_eq_false.1 hspace) c hmem
    · have hhub : dockerHub.any isWhitespace = false := by decide
      simpa using (List.any_eq_false.1 hhub) c hmem
  · rw [hreference]
    exact hdigest

theorem requestHost_plain {r : Text} {reference : OciReference} (h : ReadAs r reference)
    (hcut : cutsUrl reference.registry = false) :
    requestHost reference.registry ≠ [] ∧
      ∀ c ∈ requestHost reference.registry, endsAuthority c = false ∧ isTabOrNewline c = false := by
  unfold requestHost
  split
  · refine ⟨by decide, ?_⟩
    intro c hc
    have hhub : "registry-1.docker.io".toList.all
        (fun c => !endsAuthority c && !isTabOrNewline c) = true := by decide
    simpa using List.all_eq_true.1 hhub c hc
  · exact ⟨h.host.1, fun c hc => endsAuthority_of_registry hcut h.host.2.2 hc⟩

variable [WebHosts]

/-- The path that a manifest is requested at, where the registry does not cut the URL. -/
theorem manifestRequest_path {r : Text} {reference : OciReference} {u : WebUrl}
    (h : ReadAs r reference) (hu : parseWeb (manifestRequest reference) = some u)
    (hcut : cutsUrl reference.registry = false) :
    u.path = '/' :: manifestPath reference.repository reference.digest := by
  rcases manifestRequest_eq reference with ⟨scheme, hscheme, heq⟩
  rcases requestHost_plain h hcut with ⟨hne, hhost⟩
  have hpath : ∀ c ∈ '/' :: manifestPath reference.repository reference.digest,
      endsPath c = false ∧ isC0OrSpace c = false := by
    intro c hc
    rcases List.mem_cons.1 hc with rfl | hc
    · decide
    · have hkept := keptInPath_of_inReference (manifestPath_mem h.segments h.digest hc)
      exact hkept.2.2
  rw [heq, parseWeb_plain hscheme hne hhost (by simp) hpath (by simp [IsQuery]) (by simp),
    parseAuthority_eq_some] at hu
  rw [hu.2.2.2, webPath_manifestPath h.segments h.digest]

/-- References whose manifests are requested at one path have one location exactly when they are
written with one registry, and with one repository where the registry cuts the URL. -/
theorem ociLocation_eq_iff {r r' : Text} {reference reference' : OciReference} {u u' : WebUrl}
    (h : parseOciReference r = .ok reference) (h' : parseOciReference r' = .ok reference')
    (hu : parseWeb (manifestRequest reference) = some u)
    (hu' : parseWeb (manifestRequest reference') = some u') (hpath : u.path = u'.path) :
    ociLocation r = ociLocation r' ↔
      writtenRegistry r = writtenRegistry r' ∧
        (cutsUrl (writtenRegistry r) = true → writtenRepository r = writtenRepository r') := by
  have hread := readAs_of_parse h
  have hread' := readAs_of_parse h'
  rw [hread.location, hread'.location, Except.ok.injEq, ← hread.registry, ← hread'.registry,
    ← hread.repository, ← hread'.repository]
  constructor
  · intro heq
    have hsplit : splitOnce '/' reference.location =
        some (reference.registry, reference.repository) :=
      splitOnce_eq_some.2 ⟨by simp [OciReference.location], hread.host.2.1⟩
    have hsplit' : splitOnce '/' reference'.location =
        some (reference'.registry, reference'.repository) :=
      splitOnce_eq_some.2 ⟨by simp [OciReference.location], hread'.host.2.1⟩
    rw [heq, hsplit', Option.some.injEq, Prod.mk.injEq] at hsplit
    exact ⟨hsplit.1.symm, fun _ => hsplit.2.symm⟩
  · rintro ⟨hregistry, hrepository⟩
    have hrepositories : reference.repository = reference'.repository := by
      cases hcut : cutsUrl reference.registry with
      | true => exact hrepository hcut
      | false =>
          -- the paths are the repositories, with texts of one length around them
          have hcut' : cutsUrl reference'.registry = false := hregistry ▸ hcut
          rw [manifestRequest_path hread hu hcut, manifestRequest_path hread' hu' hcut',
            List.cons.injEq] at hpath
          have hlength : reference.digest.length = reference'.digest.length := by
            rw [(digest_valid hread.digest).1, (digest_valid hread'.digest).1]
          have hfront := (List.append_inj' hpath.2 hlength).1
          simpa using hfront
    rw [OciReference.location, OciReference.location, hregistry, hrepositories]

end References

/-! ## URLs -/

/-- One way to write the authority of a URL. -/
structure HostSpelling where
  /-- The user information. -/
  user : Option Text
  host : Text
  /-- Whether the host has a dot after it. -/
  dot : Bool
  /-- The port with its colon, or nothing. -/
  port : Text

namespace HostSpelling

def marks (s : HostSpelling) : Text := (if s.dot then ".".toList else []) ++ s.port

def authority (s : HostSpelling) : Text :=
  (s.user.map (· ++ "@".toList)).getD [] ++ (s.host ++ s.marks)

def url (scheme tail : Text) (s : HostSpelling) : Text :=
  scheme ++ "://".toList ++ (s.authority ++ tail)

/-- Its parts are where they are read. -/
structure WellFormed (s : HostSpelling) : Prop where
  user : ∀ user, s.user = some user → ∀ c ∈ user, endsAuthority c = false
  host : ∀ c ∈ s.host, endsAuthority c = false
  port : isPort s.port = true

/-- Two spellings of one host and one port under a scheme. -/
structure Respells [UnicodeTables] (scheme : Text) (s s' : HostSpelling) : Prop where
  letters : SameLetters s.host s'.host
  port : parsePort scheme s.port = parsePort scheme s'.port

theorem eq_dot {c : Char} {b : Bool} (h : c ∈ (if b then ".".toList else [])) : c = '.' := by
  cases b with
  | true => simpa using h
  | false => simp at h

theorem WellFormed.marks_mark {s : HostSpelling} (h : s.WellFormed) :
    ∀ c ∈ s.marks, isMark c = true := by
  intro c hc
  rcases List.mem_append.1 hc with hc | hc
  · rw [eq_dot hc]
    decide
  · exact isPort_marks h.port hc

theorem marks_inj {s s' : HostSpelling} (h : s.WellFormed) (h' : s'.WellFormed) :
    s.marks = s'.marks ↔ s.dot = s'.dot ∧ s.port = s'.port := by
  have hport : ∀ t : HostSpelling, t.WellFormed → ∀ rest, t.port ≠ '.' :: rest := by
    intro t ht rest heq
    have hcolon := ht.port
    rw [heq] at hcolon
    simp [isPort] at hcolon
  cases hdot : s.dot <;> cases hdot' : s'.dot
  · simp [HostSpelling.marks, hdot, hdot']
  · simpa [HostSpelling.marks, hdot, hdot'] using hport s h _
  · simpa [HostSpelling.marks, hdot, hdot'] using fun heq => hport s' h' _ heq.symm
  · simp [HostSpelling.marks, hdot, hdot']

theorem WellFormed.authority_mem {s : HostSpelling} (h : s.WellFormed) {c : Char}
    (hc : c ∈ s.authority) : c ≠ '/' ∧ c ≠ '?' := by
  have hends : ∀ c, endsAuthority c = false → c ≠ '/' ∧ c ≠ '?' := by
    intro c hc
    constructor <;> rintro rfl <;> exact absurd hc (by decide)
  rcases List.mem_append.1 hc with hc | hc
  · cases huser : s.user with
    | none => simp [huser] at hc
    | some user =>
        rw [huser, Option.map_some, Option.getD_some] at hc
        rcases List.mem_append.1 hc with hc | hc
        · exact hends c (h.user user huser c hc)
        · rw [List.mem_singleton.1 hc]
          decide
  · rcases List.mem_append.1 hc with hc | hc
    · exact hends c (h.host c hc)
    · rcases List.mem_append.1 hc with hc | hc
      · rw [eq_dot hc]
        decide
      · rcases isPort_mem h.port hc with rfl | hdigit
        · decide
        · constructor <;> rintro rfl <;> exact absurd hdigit (by decide)

variable [UnicodeTables]

/-- What was accepted carries no user information, and its location is its parts. -/
theorem location_eq {field scheme tail location : Text} {s : HostSpelling}
    (hscheme : scheme = "http".toList ∨ scheme = "https".toList) (hs : s.WellFormed)
    (h : httpLocation field (s.url scheme tail) = .ok location) :
    location = scheme ++ "://".toList ++
      (toLowercase (s.host ++ s.marks ++ authorityOf tail) ++ pathOf tail) := by
  rcases httpLocation_eq_ok.1 h with ⟨scheme', rest, hscheme', hurl, -, huser, -, rfl⟩
  rcases scheme_inj hscheme hscheme' hurl with ⟨rfl, rfl⟩
  have hkept : ∀ c ∈ s.authority, (decide (c ≠ '/') && decide (c ≠ '?')) = true := by
    intro c hc
    have hne := hs.authority_mem hc
    simp [hne.1, hne.2]
  have hauthority : authorityOf (s.authority ++ tail) = s.authority ++ authorityOf tail :=
    List.takeWhile_append_of_pos hkept
  have hpath : pathOf (s.authority ++ tail) = pathOf tail := by
    rw [pathOf, List.dropWhile_append_of_pos hkept, pathOf]
  have hnone : s.authority = s.host ++ s.marks := by
    cases hu : s.user with
    | none => simp [HostSpelling.authority, hu]
    | some user =>
        refine absurd ?_ huser
        rw [hauthority]
        simp [HostSpelling.authority, hu]
  rw [hauthority, hpath, hnone]
  simp only [List.append_assoc]

/-- Spellings of one authority have one location exactly when they write it with the same marks and
with the same sigmas at the ends of words. -/
theorem httpLocation_eq_iff (w : WordBoundaries) {field field' scheme tail location location' : Text}
    {s s' : HostSpelling} (hscheme : scheme = "http".toList ∨ scheme = "https".toList)
    (htail : ∀ c, tail.head? = some c → endsAuthority c = true) (hs : s.WellFormed)
    (hs' : s'.WellFormed) (hrespells : Respells scheme s s')
    (h : httpLocation field (s.url scheme tail) = .ok location)
    (h' : httpLocation field' (s'.url scheme tail) = .ok location') :
    location = location' ↔
      s.dot = s'.dot ∧ s.port = s'.port ∧ finalSigmas s.host = finalSigmas s'.host := by
  have hbreaks : Breaks (authorityOf tail) := by
    intro c hc
    have hmem := authorityOf_mem (List.mem_of_mem_head? hc)
    rw [authorityOf, List.head?_takeWhile, Option.filter_eq_some_iff] at hc
    have hends := htail c hc.1
    simp only [endsAuthority, isSlash, endsPath, Bool.or_eq_true, decide_eq_true_eq] at hends
    tauto
  rcases toLowercase_append_marks w hbreaks with ⟨left, hleft⟩
  have hlength : (toLowercase s.host).length = (toLowercase s'.host).length :=
    length_lowerFrom w hrespells.letters
  rw [location_eq hscheme hs h, location_eq hscheme hs' h', hleft _ _ hs.marks_mark,
    hleft _ _ hs'.marks_mark, List.append_cancel_left_eq, List.append_cancel_right_eq,
    List.append_cancel_right_eq]
  calc toLowercase s.host ++ s.marks = toLowercase s'.host ++ s'.marks
      ↔ toLowercase s.host = toLowercase s'.host ∧ s.marks = s'.marks := by
        constructor
        · intro heq
          exact List.append_inj heq hlength
        · rintro ⟨hhost, hmarks⟩
          rw [hhost, hmarks]
    _ ↔ s.dot = s'.dot ∧ s.port = s'.port ∧ finalSigmas s.host = finalSigmas s'.host := by
        rw [toLowercase_eq_iff w hrespells.letters, marks_inj hs hs']
        tauto

end HostSpelling

/-! ## The spellings of one artifact -/

section Respelling

variable [UnicodeTables] [WebHosts]

/-- Two references whose manifests are requested at one host and path have one location exactly when
they are written with one registry, and with one repository where the registry cuts the URL.  Two
URLs that differ in the case of the host's letters, a trailing dot of it, the spelling of the port or
user information only, and are accepted, have one location exactly when they are written alike but
for the case of the letters. -/
theorem respelling_kept_iff (w : WordBoundaries) :
    (∀ r r' reference reference' u u', parseOciReference r = .ok reference →
      parseOciReference r' = .ok reference' →
      parseWeb (manifestRequest reference) = some u →
      parseWeb (manifestRequest reference') = some u' →
      u.host = u'.host → u.path = u'.path →
      (ociLocation r = ociLocation r' ↔
        writtenRegistry r = writtenRegistry r' ∧
          (cutsUrl (writtenRegistry r) = true → writtenRepository r = writtenRepository r'))) ∧
    ∀ field field' scheme tail location location' (s s' : HostSpelling),
      scheme = "http".toList ∨ scheme = "https".toList →
      (∀ c, tail.head? = some c → endsAuthority c = true) → s.WellFormed → s'.WellFormed →
      HostSpelling.Respells scheme s s' →
      httpLocation field (s.url scheme tail) = .ok location →
      httpLocation field' (s'.url scheme tail) = .ok location' →
      (location = location' ↔
        s.dot = s'.dot ∧ s.port = s'.port ∧ finalSigmas s.host = finalSigmas s'.host) := by
  constructor
  · intro r r' reference reference' u u' h h' hu hu' _ hpath
    exact ociLocation_eq_iff h h' hu hu' hpath
  · intro field field' scheme tail location location' s s' hscheme htail hs hs' hrespells h h'
    exact HostSpelling.httpLocation_eq_iff w hscheme htail hs hs' hrespells h h'

end Respelling

section Samples

/-- Tables that know ASCII and the sigmas. -/
@[reducible] def sigmaTables : UnicodeTables where
  lowerChar c := if c = capitalSigma then ['σ'] else [c.toLower]
  cased c := c.isAlpha || c = 'Σ' || c = 'σ' || c = 'ς'
  caseIgnorable c := c = '.' || c = ':'
  debug t := "\"".toList ++ t ++ "\"".toList
  lowerChar_ascii c hc := by
    have hne : c ≠ capitalSigma := by
      rintro rfl
      exact absurd hc (by decide)
    rw [if_neg hne]
  lowerChar_ne_nil c := by
    split <;> simp
  lowerChar_other c hc d hd hascii := by
    split at hd
    · rw [List.mem_singleton.1 hd] at hascii
      exact absurd hascii (by decide)
    · exact asciiTables.lowerChar_other c hc d hd hascii

attribute [local instance] sigmaTables asciiHosts

theorem sigmaTables_words : WordBoundaries where
  sigma := by decide
  uncased := by
    intro c hc
    simp only [isMark, Bool.and_eq_true, Bool.not_eq_true'] at hc
    have hne : ∀ d : Char, isAscii d = false → c ≠ d := by
      rintro d hd rfl
      simp [hc.1] at hd
    simp [cased, hc.2, hne 'Σ' (by decide), hne 'σ' (by decide), hne 'ς' (by decide)]
  number := by decide
  backslash := by decide

/-- A reference to one manifest by a name. -/
def pinnedTo (name : Text) : Text := name ++ "@sha256:".toList ++ List.replicate 64 '0'

def samplePin : OciReference :=
  ⟨"ghcr.io".toList, "team/x".toList, "sha256:".toList ++ List.replicate 64 '0'⟩

/-- `permit (principal, action == Action::"requireSignature", resource in
Repository::"ghcr.io/team");` alone. -/
def signTeam : Authz.OperatorPolicy Empty where
  policy := [{ Cedar.permitAction "policy0".toList (Authz.actionUid Authz.actionRequireSignature) with
    resource := .mem (Authz.repositoryUid "ghcr.io/team".toList) }]

/-- One host, with a dot after it and without. -/
def dotted : HostSpelling := ⟨none, "Good.com".toList, true, []⟩

def undotted : HostSpelling := ⟨none, "good.com".toList, false, []⟩

/-- A tag does not matter, a dot after the host does. -/
theorem respelling_kept_sample :
    (ociLocation (pinnedTo "ghcr.io/team/x:v1".toList) =
        ociLocation (pinnedTo "ghcr.io/team/x".toList) ↔
      writtenRegistry (pinnedTo "ghcr.io/team/x:v1".toList) =
          writtenRegistry (pinnedTo "ghcr.io/team/x".toList) ∧
        (cutsUrl (writtenRegistry (pinnedTo "ghcr.io/team/x:v1".toList)) = true →
          writtenRepository (pinnedTo "ghcr.io/team/x:v1".toList) =
            writtenRepository (pinnedTo "ghcr.io/team/x".toList))) ∧
    ("https://good.com./m".toList = "https://good.com/m".toList ↔
      dotted.dot = undotted.dot ∧ dotted.port = undotted.port ∧
        finalSigmas dotted.host = finalSigmas undotted.host) := by
  have hu : parseWeb (manifestRequest samplePin) = some ⟨"https".toList, "ghcr.io".toList, none,
      '/' :: manifestPath samplePin.repository samplePin.digest⟩ := by decide +kernel
  have hdotted : dotted.WellFormed :=
    ⟨fun user huser => (Option.some_ne_none user huser.symm).elim,
      by simp [dotted, endsAuthority, isSlash, endsPath], rfl⟩
  have hundotted : undotted.WellFormed :=
    ⟨fun user huser => (Option.some_ne_none user huser.symm).elim,
      by simp [undotted, endsAuthority, isSlash, endsPath], rfl⟩
  have hslash : ∀ c, "/m".toList.head? = some c → endsAuthority c = true := by
    intro c hc
    cases hc
    decide
  have hletters : SameLetters dotted.host undotted.host := by
    unfold SameLetters
    decide
  constructor
  · exact (respelling_kept_iff sigmaTables_words).1 _ _ samplePin samplePin _ _
      (by decide +kernel) (by decide +kernel) hu hu rfl rfl
  · exact (respelling_kept_iff sigmaTables_words).2 "module.http.url".toList
      "module.http.url".toList "https".toList "/m".toList _ _ dotted undotted (.inr rfl) hslash
      hdotted hundotted ⟨hletters, rfl⟩ (by decide +kernel) (by decide +kernel)

/-- The letters of a registry keep their case: the signature that a policy requires of the one
spelling is not required of the other, and the manifest of both is requested at one URL. -/
theorem registry_case_kept :
    ∃ reference reference' u,
      parseOciReference (pinnedTo "GHCR.io/team/x".toList) = .ok reference ∧
      parseOciReference (pinnedTo "ghcr.io/team/x".toList) = .ok reference' ∧
      parseWeb (manifestRequest reference) = some u ∧
      parseWeb (manifestRequest reference') = some u ∧
      ociLocation (pinnedTo "GHCR.io/team/x".toList) ≠
        ociLocation (pinnedTo "ghcr.io/team/x".toList) ∧
      signTeam.requiresSignature reference.location = false ∧
      signTeam.requiresSignature reference'.location = true := by
  refine ⟨{ samplePin with registry := "GHCR.io".toList }, samplePin,
    ⟨"https".toList, "ghcr.io".toList, none, '/' :: manifestPath samplePin.repository
      samplePin.digest⟩, by decide +kernel, by decide +kernel, by decide +kernel,
    by decide +kernel, by decide +kernel, by decide +kernel, by decide +kernel⟩

end Samples
end FunctionWasm

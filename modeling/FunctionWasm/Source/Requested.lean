import FunctionWasm.Foundation.LetterCase
import FunctionWasm.Foundation.WebUrl
import FunctionWasm.Policy.Repository

/-!
# Requested — the URL that is requested and the location that it is named by

A location is read off a URL by hand, the request is made of the URL as the client parses it.

* `Names` says that a location has the scheme, the host and the path of a parsed URL.
* `plainUrl` is a URL that the two read alike.
* `location_names_iff` says that they agree on these and on no others.
-/

namespace FunctionWasm

open Unicode UnicodeTables Web WebHosts

/-- A port with its colon, or none. -/
def isPort : Text → Bool
  | [] => true
  | c :: digits => c = ':' && digits.all Char.isDigit

/-- A location has the scheme, the host and the path of a URL.  Where it has no path, the URL's is
the root. -/
def Names (location : Text) (u : WebUrl) : Prop :=
  ∃ port path, location = u.scheme ++ "://".toList ++ u.host ++ port ++ path ∧
    isPort port = true ∧ (path = u.path ∨ path = [] ∧ u.path = "/".toList)

/-! ## The URLs that are read alike -/

section Plain

variable [UnicodeTables] [WebHosts]

/-- A character that the client neither strips nor ends the authority at. -/
def keepsAuthority (c : Char) : Bool := !(isC0OrSpace c || c = '#' || c = '\\')

/-- The host is written as the client writes it, but for the case of its letters. -/
def plainAuthority (authority : Text) : Bool :=
  let (host, port) := splitPort false authority
  authority.all keepsAuthority && (parseHost host).any fun h => toLowercase authority = h ++ port

/-- The path has nothing to encode, no backslash and no dot segment, percent-encoded or not. -/
def plainPath (path : Text) : Bool :=
  path.all (fun c => !pathEncodes c && c ≠ '\\') &&
    (path.splitOn '/').all fun segment => !isDotSegment segment

def plainUrl (raw : Text) : Bool :=
  match splitOnceText "://".toList raw with
  | none => false
  | some (_, rest) => plainAuthority (authorityOf rest) && plainPath (pathOf rest)

end Plain

/-! ## The parts of a URL -/

section Parts

theorem authorityOf_mem {rest : Text} {c : Char} (h : c ∈ authorityOf rest) :
    c ≠ '/' ∧ c ≠ '?' := by
  have hkept := List.mem_takeWhile_imp h
  simpa using hkept

theorem pathOf_head {rest : Text} {c : Char} (h : (pathOf rest).head? = some c) : c = '/' := by
  have hstop := List.head?_dropWhile_not (fun c => c ≠ '/' && c ≠ '?') rest
  unfold pathOf at h
  cases hdrop : rest.dropWhile (fun c => c ≠ '/' && c ≠ '?') with
  | nil =>
      rw [hdrop] at h
      simp at h
  | cons d left =>
      rw [hdrop, List.head?_cons] at hstop
      rw [hdrop, List.takeWhile_cons] at h
      split at h
      · next hd =>
          cases h
          simpa [of_decide_eq_true hd] using hstop
      · simp at h

theorem rest_eq (rest : Text) :
    ∃ query, IsQuery query ∧ rest = authorityOf rest ++ pathOf rest ++ query := by
  refine ⟨(rest.dropWhile fun c => c ≠ '/' && c ≠ '?').dropWhile (· ≠ '?'), ?_, ?_⟩
  · intro c hc
    have hstop := List.head?_dropWhile_not (· ≠ '?')
      (rest.dropWhile fun c => c ≠ '/' && c ≠ '?')
    rw [hc] at hstop
    simpa using hstop
  · rw [List.append_assoc, pathOf, List.takeWhile_append_dropWhile, authorityOf,
      List.takeWhile_append_dropWhile]

/-- What follows a scheme is one thing. -/
theorem scheme_inj {scheme scheme' rest rest' : Text}
    (h : scheme = "http".toList ∨ scheme = "https".toList)
    (h' : scheme' = "http".toList ∨ scheme' = "https".toList)
    (heq : scheme ++ "://".toList ++ rest = scheme' ++ "://".toList ++ rest') :
    scheme = scheme' ∧ rest = rest' := by
  rcases h with rfl | rfl <;> rcases h' with rfl | rfl <;> simp_all

/-- A path begins at the first slash. -/
theorem slash_inj {host host' path path' : Text} (h : '/' ∉ host) (h' : '/' ∉ host')
    (hpath : ∀ c, path.head? = some c → c = '/') (hpath' : ∀ c, path'.head? = some c → c = '/')
    (heq : host ++ path = host' ++ path') : host = host' ∧ path = path' := by
  have hcut : ∀ t p : Text, '/' ∉ t → (∀ c, p.head? = some c → c = '/') →
      (t ++ p).takeWhile (· ≠ '/') = t ∧ (t ++ p).dropWhile (· ≠ '/') = p := by
    intro t p ht hp
    refine takeWhile_front ?_ ?_
    · intro c hc
      rw [decide_eq_true_eq]
      rintro rfl
      exact ht hc
    · intro c hc
      simp [hp c hc]
  have hleft := hcut host path h hpath
  rw [heq] at hleft
  have hright := hcut host' path' h' hpath'
  exact ⟨hleft.1.symm.trans hright.1, hleft.2.symm.trans hright.2⟩

end Parts

/-! ## Hosts and ports -/

section Ports

theorem hostPart_eq_self {authority : Text} (h : '@' ∉ authority) :
    hostPart authority = authority := by
  have hnone : rsplitOnce '@' authority = none := by
    cases hsplit : rsplitOnce '@' authority with
    | none => rfl
    | some p => exact absurd (by rw [(rsplitOnce_eq_some.1 hsplit).1]; simp) h
  rw [hostPart, hnone]

theorem splitPort_append (inside : Bool) (t : Text) :
    (splitPort inside t).1 ++ (splitPort inside t).2 = t ∧
      ∀ c, (splitPort inside t).2.head? = some c → c = ':' := by
  induction t generalizing inside with
  | nil => simp [splitPort]
  | cons c rest ih =>
      unfold splitPort
      split
      · next hcolon => simp [hcolon.1]
      · exact ⟨by simp [(ih _).1], (ih _).2⟩

theorem isPort_of_parsePort {scheme t : Text} {port : Option Nat}
    (h : parsePort scheme (splitPort false t).2 = some port) :
    isPort (splitPort false t).2 = true := by
  have hhead := (splitPort_append false t).2
  cases hport : (splitPort false t).2 with
  | nil => rfl
  | cons c digits =>
      rw [hport] at h hhead
      have hdigits : digits.all Char.isDigit = true := by
        simp only [parsePort] at h
        split at h
        · next hall => exact (Bool.and_eq_true_iff.1 hall).1
        · cases h
      rw [isPort, hhead c rfl, hdigits]
      rfl

/-- What comes before the letters is a mark. -/
theorem isMark_of_lt {c : Char} (h : c.toNat < 65) : isMark c = true := by
  have halpha : ¬ c.isAlpha = true := by
    rw [isAlpha_iff]
    omega
  simp only [isMark, isAscii, Bool.and_eq_true, decide_eq_true_eq, Bool.not_eq_true']
  exact ⟨by omega, by simpa using halpha⟩

theorem toNat_of_isDigit {c : Char} (h : c.isDigit = true) : 48 ≤ c.toNat ∧ c.toNat ≤ 57 :=
  Char.isDigit_iff_toNat.1 h

theorem isPort_mem {port : Text} {c : Char} (h : isPort port = true) (hc : c ∈ port) :
    c = ':' ∨ c.isDigit = true := by
  cases port with
  | nil => simp at hc
  | cons d digits =>
      simp only [isPort, Bool.and_eq_true, decide_eq_true_eq, List.all_eq_true] at h
      rcases List.mem_cons.1 hc with rfl | hc
      · exact .inl h.1
      · exact .inr (h.2 c hc)

theorem isPort_marks {port : Text} {c : Char} (h : isPort port = true) (hc : c ∈ port) :
    isMark c = true := by
  rcases isPort_mem h hc with rfl | hdigit
  · decide
  · have hrange := toNat_of_isDigit hdigit
    exact isMark_of_lt (by omega)

/-- What is not empty and ends in a bracket does not end in a port. -/
theorem isPort_bracket {host port : Text} (h : isPort port = true) (hne : port ≠ []) :
    (host ++ port).getLast? ≠ some ']' := by
  rw [List.getLast?_append_of_ne_nil _ hne]
  intro hlast
  rcases isPort_mem h (List.mem_of_getLast? hlast) with hcolon | hdigit
  · exact absurd hcolon (by decide)
  · exact absurd hdigit (by decide)

/-- A port has one colon, the first of its characters. -/
theorem isPort_cons {c : Char} {digits : Text} (h : isPort (c :: digits) = true) :
    c = ':' ∧ ':' ∉ digits := by
  simp only [isPort, Bool.and_eq_true, decide_eq_true_eq, List.all_eq_true] at h
  refine ⟨h.1, ?_⟩
  intro hmem
  exact absurd (h.2 _ hmem) (by decide)

/-- What is before the last colon and what is after it is one thing. -/
theorem colon_inj {front front' digits digits' : Text} (h : ':' ∉ digits) (h' : ':' ∉ digits')
    (heq : front ++ ':' :: digits = front' ++ ':' :: digits') : digits = digits' := by
  have hsplit : rsplitOnce ':' (front ++ ':' :: digits) = some (front, digits) :=
    rsplitOnce_eq_some.2 ⟨rfl, h⟩
  have hsplit' : rsplitOnce ':' (front ++ ':' :: digits) = some (front', digits') :=
    rsplitOnce_eq_some.2 ⟨heq, h'⟩
  rw [hsplit] at hsplit'
  exact (Prod.mk.inj (Option.some.inj hsplit')).2

variable [UnicodeTables]

/-- Lower case keeps a bracket at the end. -/
theorem bracket_toLowercase {t : Text} (h : t.getLast? = some ']') :
    (toLowercase t).getLast? = some ']' := by
  rcases List.getLast?_eq_some_iff.1 h with ⟨init, rfl⟩
  have hmark : ∀ c ∈ [']'], isMark c = true := by
    intro c hc
    rw [List.mem_singleton.1 hc]
    decide
  rcases (toLowercase_marks_suffix hmark : _ <:+ toLowercase (init ++ _)) with ⟨front, hfront⟩
  rw [← hfront]
  simp

/-- The port of an authority is the port of its lower case, where that is a host and a port. -/
theorem port_eq [WebHosts] {text host authority port port' : Text} (hhost : parseHost text = some host)
    (hauthority : authority = text ++ port) (hport : isPort port = true)
    (hport' : isPort port' = true) (heq : toLowercase authority = host ++ port') : port' = port := by
  have hsuffix : port <:+ toLowercase authority := by
    rw [hauthority]
    exact toLowercase_marks_suffix fun c hc => isPort_marks hport hc
  rcases hsuffix with ⟨front, hfront⟩
  have hcolons : ':' ∈ authority ↔ ':' ∈ host ++ port' := by
    rw [← heq, mem_toLowercase (by decide)]
  cases port with
  | nil =>
      cases port' with
      | nil => rfl
      | cons c digits =>
          -- the text would end in a bracket, and its lower case ends in a port
          rw [List.append_nil] at hauthority
          have hlast : text.getLast? ≠ some ']' := by
            intro hbracket
            have hlower := bracket_toLowercase hbracket
            rw [← hauthority, heq] at hlower
            exact isPort_bracket hport' (by simp) hlower
          refine absurd (colon_host hhost ?_) hlast
          rw [← hauthority, hcolons, (isPort_cons hport').1]
          simp
  | cons c digits =>
      have hc := isPort_cons hport
      cases port' with
      | nil =>
          -- the host would end in a bracket, and it ends in a port
          rw [List.append_nil] at heq
          have hlast : host.getLast? ≠ some ']' := by
            rw [← heq, ← hfront]
            exact isPort_bracket hport (by simp)
          refine absurd (host_colon hhost ?_) hlast
          rw [← heq, ← hfront, hc.1]
          simp
      | cons c' digits' =>
          have hc' := isPort_cons hport'
          have hboth : host ++ ':' :: digits' = front ++ ':' :: digits := by
            rw [← hc.1, hfront, heq, hc'.1, hc.1]
          rw [hc.1, hc'.1, colon_inj hc'.2 hc.2 hboth]

end Ports

/-! ## The two readings -/

section Readings

/-- A character that the client neither strips nor ends the authority at. -/
theorem keepsAuthority_eq_true {c : Char} :
    keepsAuthority c = true ↔ isC0OrSpace c = false ∧ c ≠ '#' ∧ c ≠ '\\' := by
  simp [keepsAuthority, and_assoc]

theorem keepsAuthority_of_forbidden {c : Char} (h : forbiddenInHost c = false) :
    keepsAuthority c = true := by
  simp only [forbiddenInHost, Bool.or_eq_false_iff, decide_eq_false_iff_not] at h
  exact keepsAuthority_eq_true.2 ⟨by simpa [isC0OrSpace] using h.1.1.1.1.1, h.1.1.1.1.2, h.2⟩

theorem keepsAuthority_of_port {port : Text} {c : Char} (h : isPort port = true) (hc : c ∈ port) :
    keepsAuthority c = true := by
  rcases isPort_mem h hc with rfl | hdigit
  · decide
  · have hrange := toNat_of_isDigit hdigit
    refine keepsAuthority_eq_true.2 ⟨?_, ?_, ?_⟩
    · simp only [isC0OrSpace, decide_eq_false_iff_not]
      omega
    · rintro rfl
      exact absurd hdigit (by decide)
    · rintro rfl
      exact absurd hdigit (by decide)

/-- What is not kept is a mark, so lower case neither makes nor takes it. -/
theorem isMark_of_stripped {c : Char} (h : keepsAuthority c = false) : isMark c = true := by
  simp only [keepsAuthority, Bool.not_eq_false', Bool.or_eq_true, decide_eq_true_eq] at h
  rcases h with (hc0 | rfl) | rfl
  · simp only [isC0OrSpace, decide_eq_true_eq] at hc0
    exact isMark_of_lt (by omega)
  · decide
  · decide

variable [WebHosts]

/-- The client reads the authority and the path of a URL with nothing to strip or to cut off. -/
theorem parseWeb_rest {scheme rest : Text}
    (hscheme : scheme = "http".toList ∨ scheme = "https".toList) (hne : authorityOf rest ≠ [])
    (hauthority : ∀ c ∈ authorityOf rest, keepsAuthority c = true)
    (hpath : ∀ c ∈ pathOf rest, pathEncodes c = false) :
    parseWeb (scheme ++ "://".toList ++ rest) =
      parseAuthority scheme (authorityOf rest) (pathOf rest) := by
  rcases rest_eq rest with ⟨query, hquery, heq⟩
  have hparts : scheme ++ "://".toList ++ rest =
      scheme ++ "://".toList ++ authorityOf rest ++ pathOf rest ++ query := by
    conv_lhs => rw [heq]
    simp only [List.append_assoc]
  have hkept : ∀ c ∈ authorityOf rest, isC0OrSpace c = false := fun c hc =>
    (keepsAuthority_eq_true.1 (hauthority c hc)).1
  rw [hparts]
  refine parseWeb_plain hscheme hne ?_ (fun c hc => pathOf_head hc) ?_ hquery fun _ _ => hkept
  · intro c hc
    have hc' := keepsAuthority_eq_true.1 (hauthority c hc)
    have hmark := authorityOf_mem hc
    exact ⟨by simp [endsAuthority, isSlash, endsPath, hc', hmark],
      isTabOrNewline_of_not_C0 hc'.1⟩
  · intro c hc
    have hcut : ¬ (c.toNat ≤ 0x20 ∨ c = '#' ∨ c = '?') := by
      intro hcut
      have hencodes := pathEncodes_cut c hcut
      rw [hpath c hc] at hencodes
      cases hencodes
    push Not at hcut
    simp only [endsPath, isC0OrSpace, Bool.or_eq_false_iff, decide_eq_false_iff_not]
    exact ⟨⟨hcut.2.2, hcut.2.1⟩, by omega⟩

theorem parseAuthority_eq_some {scheme authority tail : Text} {u : WebUrl} :
    parseAuthority scheme authority tail = some u ↔
      parsePort scheme (splitPort false (hostPart authority)).2 = some u.port ∧
        parseHost (splitPort false (hostPart authority)).1 = some u.host ∧
        u.scheme = scheme ∧ u.path = webPath tail := by
  simp only [parseAuthority, Option.bind_eq_bind, Option.bind_eq_some_iff, Option.pure_def,
    Option.some.injEq]
  constructor
  · rintro ⟨port, hport, host, hhost, rfl⟩
    exact ⟨hport, hhost, rfl, rfl⟩
  · rintro ⟨hport, hhost, rfl, hpath⟩
    exact ⟨u.port, hport, u.host, hhost, by rw [← hpath]⟩

/-- A path is plain when the client leaves it as it is. -/
theorem plainPath_iff {path : Text} (h : ∀ c, path.head? = some c → c = '/') :
    plainPath path = true ↔ path = [] ∨ webPath path = path := by
  cases path with
  | nil => simp [plainPath, isDotSegment, isSingleDot, isDoubleDot]
  | cons c q =>
      have hc : c = '/' := h c rfl
      have hslash : pathEncodes '/' = false := pathEncodes_kept _ (by decide)
      have hempty : isDotSegment [] = false := by decide
      have hpieces : ('/' :: q).splitOn '/' = [] :: q.splitOn '/' := by
        simp [List.splitOn_cons_eq_if_modifyHead]
      rw [hc, webPath_eq_self]
      simp [plainPath, hpieces, hslash, hempty]

variable [UnicodeTables]

/-- The parts of a URL that a location has are the parts of the location. -/
theorem parts_of_names {scheme rest : Text} {u : WebUrl}
    (hscheme : scheme = "http".toList ∨ scheme = "https".toList)
    (hu : parseWeb (scheme ++ "://".toList ++ rest) = some u)
    (hnames : Names (scheme ++ "://".toList ++ toLowercase (authorityOf rest) ++ pathOf rest) u) :
    ∃ port, isPort port = true ∧ toLowercase (authorityOf rest) = u.host ++ port ∧
      (pathOf rest = u.path ∨ pathOf rest = [] ∧ u.path = "/".toList) := by
  rcases parseWeb_ok hu with ⟨hscheme', ⟨t, hhost⟩, tail, htail⟩
  rcases hnames with ⟨port, path, heq, hport, hpath⟩
  have hrest : toLowercase (authorityOf rest) ++ pathOf rest = (u.host ++ port) ++ path := by
    refine (scheme_inj hscheme hscheme' ?_).2
    simpa only [List.append_assoc] using heq
  have hslash : '/' ∉ toLowercase (authorityOf rest) := by
    rw [mem_toLowercase (by decide)]
    exact fun hmem => (authorityOf_mem hmem).1 rfl
  have hslash' : '/' ∉ u.host ++ port := by
    intro hmem
    rcases List.mem_append.1 hmem with hmem | hmem
    · exact absurd (host_forbidden hhost _ hmem) (by decide)
    · rcases isPort_mem hport hmem with hcolon | hdigit
      · exact absurd hcolon (by decide)
      · exact absurd hdigit (by decide)
  have hhead : ∀ c, path.head? = some c → c = '/' := by
    intro c hc
    rcases hpath with rfl | ⟨rfl, -⟩
    · rw [htail, webPath, List.head?_cons] at hc
      exact (Option.some.inj hc).symm
    · simp at hc
  rcases slash_inj hslash hslash' (fun c hc => pathOf_head hc) hhead hrest with ⟨hauth, rfl⟩
  exact ⟨port, hport, hauth, hpath⟩

/-- Nothing of a URL whose host and path the location has is stripped or cut off. -/
theorem kept_of_parts {rest port raw : Text} {u : WebUrl} (hu : parseWeb raw = some u)
    (hport : isPort port = true) (hauth : toLowercase (authorityOf rest) = u.host ++ port)
    (hpath : pathOf rest = u.path ∨ pathOf rest = [] ∧ u.path = "/".toList) :
    (∀ c ∈ authorityOf rest, keepsAuthority c = true) ∧
      ∀ c ∈ pathOf rest, pathEncodes c = false := by
  rcases parseWeb_ok hu with ⟨-, ⟨t, hhost⟩, tail, htail⟩
  constructor
  · intro c hc
    by_contra hkeep
    have hstripped : keepsAuthority c = false := by simpa using hkeep
    have hmem : c ∈ u.host ++ port := by
      rw [← hauth, mem_toLowercase (isMark_of_stripped hstripped)]
      exact hc
    rcases List.mem_append.1 hmem with hmem | hmem
    · exact hkeep (keepsAuthority_of_forbidden (host_forbidden hhost c hmem))
    · exact hkeep (keepsAuthority_of_port hport hmem)
  · intro c hc
    rcases hpath with hpath | ⟨hnil, -⟩
    · rw [hpath, htail] at hc
      exact (mem_webPath hc).1
    · simp [hnil] at hc

theorem plainUrl_eq {scheme rest : Text}
    (hscheme : scheme = "http".toList ∨ scheme = "https".toList) :
    plainUrl (scheme ++ "://".toList ++ rest) =
      (plainAuthority (authorityOf rest) && plainPath (pathOf rest)) := by
  have hsplit : splitOnceText "://".toList (scheme ++ "://".toList ++ rest) =
      some (scheme, rest) := by
    rcases hscheme with rfl | rfl <;> simp [splitOnceText]
  rw [plainUrl, hsplit]

theorem plainAuthority_iff {authority : Text} :
    plainAuthority authority = true ↔
      (∀ c ∈ authority, keepsAuthority c = true) ∧
        ∃ host, parseHost (splitPort false authority).1 = some host ∧
          toLowercase authority = host ++ (splitPort false authority).2 := by
  simp only [plainAuthority, Bool.and_eq_true, List.all_eq_true]
  cases parseHost (splitPort false authority).1 <;> simp

/-- The location of a URL has the scheme, the host and the path that are requested exactly when the
URL is plain. -/
theorem location_names_iff {field raw location : Text} {u : WebUrl}
    (h : httpLocation field raw = .ok location) (hu : parseWeb raw = some u) :
    Names location u ↔ plainUrl raw = true := by
  rcases httpLocation_eq_ok.1 h with ⟨scheme, rest, hscheme, rfl, hne, huser, -, rfl⟩
  have hhead : ∀ c, (pathOf rest).head? = some c → c = '/' := fun c hc => pathOf_head hc
  rw [plainUrl_eq hscheme, Bool.and_eq_true, plainAuthority_iff, plainPath_iff hhead]
  constructor
  · intro hnames
    rcases parts_of_names hscheme hu hnames with ⟨port, hport, hauth, hpath⟩
    rcases kept_of_parts hu hport hauth hpath with ⟨hkept, hencoded⟩
    rw [parseWeb_rest hscheme hne hkept hencoded, parseAuthority_eq_some,
      hostPart_eq_self huser] at hu
    rcases hu with ⟨hsplit, hhost, -, htail⟩
    have hsame : port = (splitPort false (authorityOf rest)).2 :=
      port_eq hhost (splitPort_append false _).1.symm (isPort_of_parsePort hsplit) hport hauth
    refine ⟨⟨hkept, u.host, hhost, by rw [hauth, hsame]⟩, ?_⟩
    rcases hpath with hpath | ⟨hnil, -⟩
    · exact .inr (by rw [← htail, hpath])
    · exact .inl hnil
  · rintro ⟨⟨hkept, host, hhost, hauth⟩, hpath⟩
    have hencoded : ∀ c ∈ pathOf rest, pathEncodes c = false := by
      intro c hc
      rcases hpath with hnil | hself
      · simp [hnil] at hc
      · rw [← hself] at hc
        exact (mem_webPath hc).1
    rw [parseWeb_rest hscheme hne hkept hencoded, parseAuthority_eq_some,
      hostPart_eq_self huser, hhost] at hu
    rcases hu with ⟨hsplit, hhost', hscheme', htail⟩
    cases hhost'
    refine ⟨(splitPort false (authorityOf rest)).2, pathOf rest, ?_,
      isPort_of_parsePort hsplit, ?_⟩
    · rw [hauth, hscheme']
      simp only [List.append_assoc]
    · rcases hpath with hnil | hself
      · refine .inr ⟨hnil, ?_⟩
        rw [htail, hnil]
        rfl
      · exact .inl (by rw [htail, hself])

end Readings

section Samples

attribute [local instance] asciiTables asciiHosts

theorem location_names_sample :
    Names "https://example.com/modules/fn.wasm".toList
        ⟨"https".toList, "example.com".toList, none, "/modules/fn.wasm".toList⟩ ↔
      plainUrl "https://Example.COM/modules/fn.wasm?x=1".toList = true := by
  have hlocation : httpLocation "module.http.url".toList
      "https://Example.COM/modules/fn.wasm?x=1".toList =
        .ok "https://example.com/modules/fn.wasm".toList := by decide +kernel
  exact location_names_iff hlocation (by decide +kernel)

/-- A dot segment that is percent-encoded is one to the client only: the location is in a repository
that the request leaves. -/
theorem encoded_dots_leave :
    ∃ location u, httpLocation "module.http.url".toList
          "https://good.com/team/%2e%2e/other".toList = .ok location ∧
      parseWeb "https://good.com/team/%2e%2e/other".toList = some u ∧ ¬ Names location u ∧
      "https://good.com/team".toList ∈ Authz.boundaryPrefixes location ∧
      u = ⟨"https".toList, "good.com".toList, none, "/other".toList⟩ := by
  refine ⟨"https://good.com/team/%2e%2e/other".toList,
    ⟨"https".toList, "good.com".toList, none, "/other".toList⟩, by decide +kernel,
    by decide +kernel, ?_, by decide +kernel, rfl⟩
  rintro ⟨port, path, heq, hport, hpath⟩
  have hrest : "/team/%2e%2e/other".toList = port ++ path := by simpa using heq
  cases port with
  | nil =>
      rw [List.nil_append] at hrest
      subst hrest
      revert hpath
      decide
  | cons c digits =>
      have hc : c = ':' := by
        simp only [isPort, Bool.and_eq_true, decide_eq_true_eq] at hport
        exact hport.1
      rw [hc] at hrest
      simp at hrest

end Samples
end FunctionWasm

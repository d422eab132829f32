import FunctionWasm.Foundation.Unicode
import Mathlib.Data.List.TakeWhile

/-!
# WebUrl — how an HTTP client reads a URL

A URL of the schemes `http` and `https` as the URL standard has it parsed: without a base, its query
and fragment left out.

* `parseWeb` parses a URL into a `WebUrl`; `webPath` is the path of what follows the authority.
* `parseWeb_plain` says what comes of a URL with nothing in it that is stripped or cut.
* `parseWeb_ok` says what hosts and paths look like, `webPath_eq_self` which paths stay as they are.

The parsing of hosts and the set of characters that a path percent-encodes are the library's:
`WebHosts` is what the standard promises of them.
-/

namespace FunctionWasm

/-- A character of no URL's host: it would not be read back as the host's. -/
def forbiddenInHost (c : Char) : Bool :=
  c.toNat ≤ 0x20 || c = '#' || c = '/' || c = '?' || c = '@' || c = '\\'

/-- A character that every path keeps. -/
def keptInPath (c : Char) : Bool :=
  c.isAlphanum || c = '-' || c = '.' || c = '_' || c = '~' || c = ':' || c = '/' || c = '%'

class WebHosts where
  /-- The host of its text: percent-decoded, in ASCII and lower case, an address in its one form. -/
  parseHost : Text → Option Text
  /-- The path percent-encode set. -/
  pathEncodes : Char → Bool
  host_ne_nil : ∀ {t h}, parseHost t = some h → h ≠ []
  host_forbidden : ∀ {t h}, parseHost t = some h → ∀ c ∈ h, forbiddenInHost c = false
  /-- Only an IPv6 address has a colon, and it is in brackets before and after. -/
  host_colon : ∀ {t h}, parseHost t = some h → ':' ∈ h → h.getLast? = some ']'
  colon_host : ∀ {t h}, parseHost t = some h → ':' ∈ t → t.getLast? = some ']'
  pathEncodes_cut : ∀ c, c.toNat ≤ 0x20 ∨ c = '#' ∨ c = '?' → pathEncodes c = true
  pathEncodes_kept : ∀ c, keptInPath c = true → pathEncodes c = false

structure WebUrl where
  scheme : Text
  host : Text
  /-- None where it is the scheme's own. -/
  port : Option Nat
  path : Text
  deriving DecidableEq

namespace Web

open WebHosts

/-! ## Paths -/

def upperHex (n : Nat) : Char :=
  if n < 10 then Char.ofNat (48 + n) else Char.ofNat (55 + n)

def percentByte (b : UInt8) : Text := ['%', upperHex (b.toNat / 16), upperHex (b.toNat % 16)]

def encodeChar [WebHosts] (c : Char) : Text :=
  if pathEncodes c then (textBytes [c]).flatMap percentByte else [c]

/-- A segment of a path with the characters of the percent-encode set encoded. -/
def encodeSegment [WebHosts] (s : Text) : Text := s.flatMap encodeChar

def isSingleDot (s : Text) : Bool :=
  let s := s.map Char.toLower
  s = ".".toList || s = "%2e".toList

def isDoubleDot (s : Text) : Bool :=
  let s := s.map Char.toLower
  s = "..".toList || s = ".%2e".toList || s = "%2e.".toList || s = "%2e%2e".toList

def isDotSegment (s : Text) : Bool := isSingleDot s || isDoubleDot s

/-- One segment onto those kept so far.  A dot segment at the end leaves an empty one. -/
def pushSegment [WebHosts] (kept : List Text) (s : Text) (last : Bool) : List Text :=
  if isDoubleDot s then kept.dropLast ++ if last then [[]] else []
  else if isSingleDot s then kept ++ if last then [[]] else []
  else kept ++ [encodeSegment s]

def webSegments [WebHosts] (kept : List Text) : List Text → List Text
  | [] => kept
  | s :: rest => webSegments (pushSegment kept s rest.isEmpty) rest

/-- Backslashes are read as slashes. -/
def slashed (t : Text) : Text := t.map fun c => if c = '\\' then '/' else c

/-- What a path starts after. -/
def endsPath (c : Char) : Bool := c = '?' || c = '#'

/-- The path of what follows the authority. -/
def webPath [WebHosts] (tail : Text) : Text :=
  '/' :: ['/'].intercalate
    (webSegments [] ((slashed (tail.takeWhile fun c => !endsPath c)).splitOn '/').tail)

/-! ## Authorities -/

/-- The host and the rest, from the first colon that is not in brackets. -/
def splitPort (inside : Bool) : Text → Text × Text
  | [] => ([], [])
  | c :: rest =>
      if c = ':' ∧ inside = false then ([], c :: rest)
      else
        let inside := if c = '[' then true else if c = ']' then false else inside
        let (host, port) := splitPort inside rest
        (c :: host, port)

def decimalValue (digits : Text) : Nat :=
  digits.foldl (fun n c => 10 * n + (c.toNat - 48)) 0

def defaultPort (scheme : Text) : Nat := if scheme = "https".toList then 443 else 80

/-- The port of a URL from its digits with the colon, where they are one. -/
def parsePort (scheme : Text) : Text → Option (Option Nat)
  | [] => some none
  | _ :: digits =>
      if digits.all Char.isDigit && decimalValue digits ≤ 65535 then
        if digits = [] ∨ decimalValue digits = defaultPort scheme then some none
        else some (some (decimalValue digits))
      else none

/-- An authority without its user information. -/
def hostPart (authority : Text) : Text :=
  match rsplitOnce '@' authority with
  | some (_, host) => host
  | none => authority

def parseAuthority [WebHosts] (scheme authority tail : Text) : Option WebUrl := do
  let (host, port) := splitPort false (hostPart authority)
  let port ← parsePort scheme port
  let host ← parseHost host
  return { scheme := scheme, host := host, port := port, path := webPath tail }

/-! ## URLs -/

def isC0OrSpace (c : Char) : Bool := c.toNat ≤ 0x20

def isTabOrNewline (c : Char) : Bool := c = '\t' || c = '\n' || c = '\r'

def isSlash (c : Char) : Bool := c = '/' || c = '\\'

def endsAuthority (c : Char) : Bool := isSlash c || endsPath c

/-- A URL without what is stripped of it before it is read. -/
def stripped (raw : Text) : Text :=
  (trimEnd isC0OrSpace (trimStart isC0OrSpace raw)).filter fun c => !isTabOrNewline c

def parseWeb [WebHosts] (raw : Text) : Option WebUrl :=
  match splitOnce ':' (stripped raw) with
  | none => none
  | some (scheme, rest) =>
      let scheme := scheme.map Char.toLower
      if scheme = "http".toList ∨ scheme = "https".toList then
        let rest := rest.dropWhile isSlash
        parseAuthority scheme (rest.takeWhile fun c => !endsAuthority c)
          (rest.dropWhile fun c => !endsAuthority c)
      else none

/-! ## What paths come to -/

section Paths

theorem upperHex_kept {n : Nat} (h : n < 16) : (upperHex n).isAlphanum = true := by
  revert n
  decide

theorem mem_percentByte {b : UInt8} {c : Char} (h : c ∈ percentByte b) :
    c = '%' ∨ c.isAlphanum = true := by
  have hb : b.toNat < 256 := b.toNat_lt
  simp only [percentByte, List.mem_cons, List.not_mem_nil, or_false] at h
  rcases h with rfl | rfl | rfl
  · exact .inl rfl
  · exact .inr (upperHex_kept (by omega))
  · exact .inr (upperHex_kept (by omega))

theorem mem_slashed {t : Text} {c : Char} (h : c ∈ slashed t) : c ≠ '\\' := by
  rcases List.mem_map.1 h with ⟨d, -, rfl⟩
  split
  · decide
  · assumption

theorem slashed_eq_self {t : Text} (h : '\\' ∉ t) : slashed t = t := by
  unfold slashed
  conv_rhs => rw [← List.map_id t]
  apply List.map_congr_left
  intro c hc
  rw [if_neg (by rintro rfl; exact h hc), id]

/-- What is joined is between the joints or is one. -/
theorem mem_intercalate {sep c : Char} {pieces : List Text} :
    c ∈ [sep].intercalate pieces → c = sep ∨ ∃ piece ∈ pieces, c ∈ piece := by
  induction pieces with
  | nil => simp
  | cons piece rest ih =>
      cases rest with
      | nil =>
          intro h
          exact .inr ⟨piece, by simp, by simpa using h⟩
      | cons next rest =>
          rw [List.intercalate_cons_cons]
          intro h
          simp only [List.mem_append, List.mem_singleton] at h
          rcases h with (hpiece | hsep) | hrest
          · exact .inr ⟨piece, by simp, hpiece⟩
          · exact .inl hsep
          · rcases ih hrest with hsep | ⟨other, hmem, hc⟩
            · exact .inl hsep
            · exact .inr ⟨other, List.mem_cons_of_mem _ hmem, hc⟩

/-- The pieces of a text are of its characters and free of what separates them. -/
theorem mem_splitOn {sep c : Char} {t piece : Text} (hpiece : piece ∈ t.splitOn sep)
    (hc : c ∈ piece) : c ∈ t ∧ c ≠ sep := by
  induction t generalizing piece with
  | nil =>
      rw [List.splitOn_nil, List.mem_singleton] at hpiece
      simp [hpiece] at hc
  | cons x xs ih =>
      rw [List.splitOn_cons_eq_if_modifyHead] at hpiece
      split at hpiece
      · rcases List.mem_cons.1 hpiece with rfl | hrest
        · simp at hc
        · exact ⟨List.mem_cons_of_mem x (ih hrest hc).1, (ih hrest hc).2⟩
      · next hx =>
          have hx : x ≠ sep := by simpa using hx
          rcases List.exists_cons_of_ne_nil (List.splitOn_ne_nil sep xs) with ⟨first, rest, heq⟩
          rw [heq] at ih hpiece
          rcases List.mem_cons.1 hpiece with rfl | hrest
          · rcases List.mem_cons.1 hc with rfl | hfirst
            · exact ⟨by simp, hx⟩
            · have hin := ih (List.mem_cons_self ..) hfirst
              exact ⟨List.mem_cons_of_mem x hin.1, hin.2⟩
          · have hin := ih (List.mem_cons_of_mem _ hrest) hc
            exact ⟨List.mem_cons_of_mem x hin.1, hin.2⟩

variable [WebHosts]

theorem pathEncodes_alphanum {c : Char} (h : c.isAlphanum = true) : pathEncodes c = false :=
  pathEncodes_kept c (by simp [keptInPath, h])

/-- An encoded character is written with characters that are kept. -/
theorem mem_encodeSegment {s : Text} {c : Char} (h : c ∈ encodeSegment s) :
    pathEncodes c = false ∧ (c ∈ s ∨ c = '%' ∨ c.isAlphanum = true) := by
  rcases List.mem_flatMap.1 h with ⟨d, hd, hc⟩
  unfold encodeChar at hc
  split at hc
  · rcases List.mem_flatMap.1 hc with ⟨b, -, hbyte⟩
    have hcode := mem_percentByte hbyte
    refine ⟨?_, .inr hcode⟩
    rcases hcode with rfl | halpha
    · exact pathEncodes_kept _ (by decide)
    · exact pathEncodes_alphanum halpha
  · next henc =>
      rw [List.mem_singleton] at hc
      subst hc
      exact ⟨by simpa using henc, .inl hd⟩

theorem encodeSegment_eq_self {s : Text} (h : ∀ c ∈ s, pathEncodes c = false) :
    encodeSegment s = s := by
  induction s with
  | nil => rfl
  | cons c rest ih =>
      have hc : encodeChar c = [c] := by simp [encodeChar, h c (by simp)]
      have hrest : encodeSegment rest = rest := ih fun d hd => h d (by simp [hd])
      calc encodeSegment (c :: rest) = encodeChar c ++ encodeSegment rest := rfl
        _ = c :: rest := by rw [hc, hrest, List.singleton_append]

/-- What a segment can leave: an empty one, or itself where it is no dot segment. -/
theorem mem_pushSegment {kept : List Text} {s t : Text} {last : Bool}
    (h : t ∈ pushSegment kept s last) :
    t ∈ kept ∨ t = [] ∨ isDotSegment s = false ∧ t = encodeSegment s := by
  have hempty : t ∈ (if last then [[]] else [] : List Text) → t = [] := by
    cases last <;> simp
  unfold pushSegment at h
  split at h
  · rcases List.mem_append.1 h with hkept | hlast
    · exact .inl (List.dropLast_subset _ hkept)
    · exact .inr (.inl (hempty hlast))
  · next hdouble =>
      split at h
      · rcases List.mem_append.1 h with hkept | hlast
        · exact .inl hkept
        · exact .inr (.inl (hempty hlast))
      · next hsingle =>
          rcases List.mem_append.1 h with hkept | hself
          · exact .inl hkept
          · exact .inr (.inr ⟨by simp [isDotSegment, hdouble, hsingle], List.mem_singleton.1 hself⟩)

theorem mem_webSegments {segs kept : List Text} {t : Text} (h : t ∈ webSegments kept segs) :
    t ∈ kept ∨ t = [] ∨ ∃ s ∈ segs, isDotSegment s = false ∧ t = encodeSegment s := by
  induction segs generalizing kept with
  | nil => exact .inl h
  | cons s rest ih =>
      rcases ih h with hpush | hnil | ⟨s', hmem, hdot, heq⟩
      · rcases mem_pushSegment hpush with hkept | hnil | ⟨hdot, heq⟩
        · exact .inl hkept
        · exact .inr (.inl hnil)
        · exact .inr (.inr ⟨s, by simp, hdot, heq⟩)
      · exact .inr (.inl hnil)
      · exact .inr (.inr ⟨s', by simp [hmem], hdot, heq⟩)

theorem pushSegment_of_plain {kept : List Text} {s : Text} {last : Bool}
    (hdot : isDotSegment s = false) : pushSegment kept s last = kept ++ [encodeSegment s] := by
  simp only [isDotSegment, Bool.or_eq_false_iff] at hdot
  simp [pushSegment, hdot]

/-- Segments that are no dot segments are all kept. -/
theorem webSegments_of_plain {segs kept : List Text} (h : ∀ s ∈ segs, isDotSegment s = false) :
    webSegments kept segs = kept ++ segs.map encodeSegment := by
  induction segs generalizing kept with
  | nil => simp [webSegments]
  | cons s rest ih =>
      rw [webSegments, pushSegment_of_plain (h s (by simp)), ih fun t ht => h t (by simp [ht])]
      simp

theorem webSegments_ne_nil {s : Text} {rest kept : List Text} :
    webSegments kept (s :: rest) ≠ [] := by
  induction rest generalizing kept s with
  | nil =>
      simp only [webSegments, pushSegment, List.isEmpty_nil, if_true]
      split
      · simp
      · split <;> simp
  | cons t rest ih =>
      rw [webSegments]
      exact ih

/-- A path has no character that it would encode, and no backslash. -/
theorem mem_webPath {tail : Text} {c : Char} (h : c ∈ webPath tail) :
    pathEncodes c = false ∧ c ≠ '\\' := by
  have hslash : pathEncodes '/' = false ∧ '/' ≠ '\\' :=
    ⟨pathEncodes_kept _ (by decide), by decide⟩
  rcases List.mem_cons.1 h with rfl | h
  · exact hslash
  rcases mem_intercalate h with rfl | ⟨segment, hsegment, hc⟩
  · exact hslash
  rcases mem_webSegments hsegment with hkept | rfl | ⟨s, hs, -, rfl⟩
  · simp at hkept
  · simp at hc
  · rcases mem_encodeSegment hc with ⟨henc, hs' | rfl | halpha⟩
    · exact ⟨henc, mem_slashed (mem_splitOn (List.mem_of_mem_tail hs) hs').1⟩
    · exact ⟨henc, by decide⟩
    · exact ⟨henc, by rintro rfl; exact absurd halpha (by decide)⟩

/-- A path with nothing to cut off and no backslash is read segment by segment. -/
theorem webPath_cons {q : Text} (h : ∀ c ∈ q, pathEncodes c = false ∧ c ≠ '\\') :
    webPath ('/' :: q) = '/' :: ['/'].intercalate (webSegments [] (q.splitOn '/')) := by
  have hwhole : ('/' :: q).takeWhile (fun c => !endsPath c) = '/' :: q := by
    rw [List.takeWhile_eq_self_iff]
    intro c hc
    rcases List.mem_cons.1 hc with rfl | hc
    · decide
    · by_contra hends
      have hcut : c = '?' ∨ c = '#' := by
        simpa [endsPath, or_iff_not_imp_left] using hends
      have henc := pathEncodes_cut c (by tauto)
      simp [(h c hc).1] at henc
  have hslashed : slashed ('/' :: q) = '/' :: q :=
    slashed_eq_self (by
      intro hmem
      rcases List.mem_cons.1 hmem with heq | hmem
      · cases heq
      · exact (h _ hmem).2 rfl)
  have hpieces : ('/' :: q).splitOn '/' = [] :: q.splitOn '/' := by
    simp [List.splitOn_cons_eq_if_modifyHead]
  rw [webPath, hwhole, hslashed, hpieces, List.tail_cons]

theorem encodeSegment_of_mem {q segment : Text} (h : ∀ c ∈ q, pathEncodes c = false ∧ c ≠ '\\')
    (hsegment : segment ∈ q.splitOn '/') : encodeSegment segment = segment :=
  encodeSegment_eq_self fun c hc => (h c (mem_splitOn hsegment hc).1).1

/-- Where a path stays as it is, the segments that are left are the segments there were. -/
theorem webSegments_eq_self {q : Text} (h : ∀ c ∈ q, pathEncodes c = false ∧ c ≠ '\\')
    (heq : webPath ('/' :: q) = '/' :: q) : webSegments [] (q.splitOn '/') = q.splitOn '/' := by
  rw [webPath_cons h, List.cons.injEq] at heq
  rcases List.exists_cons_of_ne_nil (List.splitOn_ne_nil '/' q) with ⟨first, rest, hpieces⟩
  have hne : webSegments [] (q.splitOn '/') ≠ [] := by
    rw [hpieces]
    exact webSegments_ne_nil
  have hfree : ∀ t ∈ webSegments [] (q.splitOn '/'), '/' ∉ t := by
    intro t ht hslash
    rcases mem_webSegments ht with hkept | rfl | ⟨s, hs, -, rfl⟩
    · simp at hkept
    · simp at hslash
    · rw [encodeSegment_of_mem h hs] at hslash
      exact (mem_splitOn hs hslash).2 rfl
  calc webSegments [] (q.splitOn '/')
      = (['/'].intercalate (webSegments [] (q.splitOn '/'))).splitOn '/' :=
        (List.splitOn_intercalate '/' hfree hne).symm
    _ = q.splitOn '/' := by rw [heq.2]

/-- A path stays as it is when there is nothing in it to encode, to read as a slash or to take
back. -/
theorem webPath_eq_self {q : Text} :
    webPath ('/' :: q) = '/' :: q ↔
      (∀ c ∈ q, pathEncodes c = false ∧ c ≠ '\\') ∧
        ∀ s ∈ q.splitOn '/', isDotSegment s = false := by
  constructor
  · intro heq
    have hchars : ∀ c ∈ q, pathEncodes c = false ∧ c ≠ '\\' := by
      intro c hc
      have hmem : c ∈ webPath ('/' :: q) := by
        rw [heq]
        exact List.mem_cons_of_mem _ hc
      exact mem_webPath hmem
    refine ⟨hchars, ?_⟩
    intro s hs
    -- a segment that is left is empty or no dot segment
    rw [← webSegments_eq_self hchars heq] at hs
    rcases mem_webSegments hs with hkept | rfl | ⟨t, ht, hdot, rfl⟩
    · simp at hkept
    · decide
    · rwa [encodeSegment_of_mem hchars ht]
  · rintro ⟨hchars, hdots⟩
    have hencode : (q.splitOn '/').map encodeSegment = q.splitOn '/' := by
      conv_rhs => rw [← List.map_id (q.splitOn '/')]
      apply List.map_congr_left
      intro s hs
      exact encodeSegment_of_mem hchars hs
    rw [webPath_cons hchars, webSegments_of_plain hdots, hencode, List.nil_append,
      List.intercalate_splitOn]

end Paths

/-! ## What is read of a URL -/

section Urls

/-- A text is taken up to the first character that ends it. -/
theorem takeWhile_front {p : Char → Bool} {front rest : Text} (hfront : ∀ c ∈ front, p c = true)
    (hrest : ∀ c, rest.head? = some c → p c = false) :
    (front ++ rest).takeWhile p = front ∧ (front ++ rest).dropWhile p = rest := by
  have hstop : rest.takeWhile p = [] ∧ rest.dropWhile p = rest := by
    cases rest with
    | nil => exact ⟨rfl, rfl⟩
    | cons c rest => simp [hrest c rfl]
  rw [List.takeWhile_append_of_pos hfront, List.dropWhile_append_of_pos hfront, hstop.1, hstop.2]
  exact ⟨List.append_nil _, rfl⟩

theorem trimEnd_append {p : Char → Bool} {c : Char} (hc : p c = false) (front rest : Text) :
    trimEnd p (front ++ c :: rest) = front ++ c :: trimEnd p rest := by
  have hrev : (front ++ c :: rest).reverse = rest.reverse ++ c :: front.reverse := by simp
  have hdrop : (rest.reverse ++ c :: front.reverse).dropWhile p =
      rest.reverse.dropWhile p ++ c :: front.reverse := by
    rw [List.dropWhile_append]
    split
    · next hempty =>
        rw [List.isEmpty_iff.1 hempty]
        simp [hc]
    · rfl
  simp [trimEnd, hrev, hdrop]

theorem isTabOrNewline_of_not_C0 {c : Char} (h : isC0OrSpace c = false) :
    isTabOrNewline c = false := by
  simp only [isC0OrSpace, decide_eq_false_iff_not] at h
  simp only [isTabOrNewline, Bool.or_eq_false_iff, decide_eq_false_iff_not]
  refine ⟨⟨?_, ?_⟩, ?_⟩ <;> rintro rfl <;> exact h (by decide)

/-- What the parser sees of a scheme that it knows. -/
theorem webScheme {scheme : Text} (h : scheme = "http".toList ∨ scheme = "https".toList) :
    scheme.head? = some 'h' ∧ ':' ∉ scheme ∧ scheme.map Char.toLower = scheme ∧
      ∀ c ∈ scheme, isTabOrNewline c = false := by
  rcases h with rfl | rfl <;>
    exact ⟨by decide, by decide, by decide, by simp [isTabOrNewline]⟩

/-- What follows a path: nothing, or a query. -/
def IsQuery (q : Text) : Prop := ∀ c, q.head? = some c → c = '?'

/-- Nothing is stripped of a URL but of its query, where no character of it is and it does not end
in one. -/
theorem stripped_front {front query : Text} (hquery : IsQuery query)
    (hfirst : ∀ c, front.head? = some c → isC0OrSpace c = false)
    (hmid : ∀ c ∈ front, isTabOrNewline c = false)
    (hlast : query = [] → ∀ c, front.getLast? = some c → isC0OrSpace c = false) :
    ∃ query', IsQuery query' ∧ stripped (front ++ query) = front ++ query' := by
  have hkeep : front.filter (fun c => !isTabOrNewline c) = front :=
    List.filter_eq_self.2 fun c hc => by simp [hmid c hc]
  cases query with
  | nil =>
      refine ⟨[], by simp [IsQuery], ?_⟩
      cases hback : front.getLast? with
      | none => simp [List.getLast?_eq_none_iff.1 hback, stripped, trimStart, trimEnd]
      | some c =>
          rcases List.getLast?_eq_some_iff.1 hback with ⟨init, heq⟩
          have hstart : trimStart isC0OrSpace front = front := by
            cases front with
            | nil => rfl
            | cons d rest => simp [trimStart, hfirst d rfl]
          have hend : trimEnd isC0OrSpace front = front := by
            rw [heq, trimEnd_append (hlast rfl c hback)]
            rfl
          rw [List.append_nil, stripped, hstart, hend, hkeep]
  | cons d query =>
      have hd : d = '?' := hquery d rfl
      subst hd
      have hstart : trimStart isC0OrSpace (front ++ '?' :: query) = front ++ '?' :: query := by
        cases front with
        | nil => rfl
        | cons d rest => simp [trimStart, hfirst d rfl]
      have hmark : isC0OrSpace '?' = false := by decide
      refine ⟨'?' :: (trimEnd isC0OrSpace query).filter fun c => !isTabOrNewline c,
        by simp [IsQuery], ?_⟩
      rw [stripped, hstart, trimEnd_append hmark, List.filter_append, hkeep]
      simp [isTabOrNewline]

theorem stripped_plain {scheme authority path query : Text}
    (hscheme : scheme = "http".toList ∨ scheme = "https".toList) (hne : authority ≠ [])
    (hauthority : ∀ c ∈ authority, isTabOrNewline c = false)
    (hpath : ∀ c ∈ path, isC0OrSpace c = false) (hquery : IsQuery query)
    (hlast : path = [] → query = [] → ∀ c ∈ authority, isC0OrSpace c = false) :
    ∃ query', IsQuery query' ∧
      stripped (scheme ++ "://".toList ++ authority ++ path ++ query) =
        scheme ++ "://".toList ++ authority ++ path ++ query' := by
  have hscheme' := webScheme hscheme
  have hmark : ∀ c ∈ "://".toList, isTabOrNewline c = false := by simp [isTabOrNewline]
  refine stripped_front hquery ?_ ?_ ?_
  · intro c hc
    simp only [List.append_assoc, List.head?_append, hscheme'.1, Option.some_or] at hc
    cases hc
    decide
  · intro c hc
    simp only [List.mem_append] at hc
    rcases hc with ((hc | hc) | hc) | hc
    · exact hscheme'.2.2.2 c hc
    · exact hmark c hc
    · exact hauthority c hc
    · exact isTabOrNewline_of_not_C0 (hpath c hc)
  · intro hq c hc
    rw [List.getLast?_append] at hc
    cases hp : path.getLast? with
    | some d =>
        rw [hp] at hc
        cases hc
        exact hpath _ (List.mem_of_getLast? hp)
    | none =>
        have hnil := List.getLast?_eq_none_iff.1 hp
        rw [hp, Option.none_or, List.getLast?_append_of_ne_nil _ hne] at hc
        exact hlast hnil hq c (List.mem_of_getLast? hc)

variable [WebHosts]

theorem webPath_query {path query : Text} (hpath : ∀ c ∈ path, endsPath c = false)
    (hquery : IsQuery query) : webPath (path ++ query) = webPath path := by
  have hkeep : ∀ c ∈ path, (!endsPath c) = true := fun c hc => by simp [hpath c hc]
  have htake : (path ++ query).takeWhile (fun c => !endsPath c) = path :=
    (takeWhile_front hkeep fun c hc => by rw [hquery c hc]; decide).1
  have hself : path.takeWhile (fun c => !endsPath c) = path := List.takeWhile_eq_self_iff.2 hkeep
  rw [webPath, htake, webPath, hself]

/-- A URL of an authority and a path that nothing is stripped of and that nothing ends early. -/
theorem parseWeb_plain {scheme authority path query : Text}
    (hscheme : scheme = "http".toList ∨ scheme = "https".toList) (hne : authority ≠ [])
    (hauthority : ∀ c ∈ authority, endsAuthority c = false ∧ isTabOrNewline c = false)
    (hslash : ∀ c, path.head? = some c → c = '/')
    (hpath : ∀ c ∈ path, endsPath c = false ∧ isC0OrSpace c = false) (hquery : IsQuery query)
    (hlast : path = [] → query = [] → ∀ c ∈ authority, isC0OrSpace c = false) :
    parseWeb (scheme ++ "://".toList ++ authority ++ path ++ query) =
      parseAuthority scheme authority path := by
  have hscheme' := webScheme hscheme
  rcases stripped_plain hscheme hne (fun c hc => (hauthority c hc).2) (fun c hc => (hpath c hc).2)
    hquery hlast with ⟨query', hquery', hstripped⟩
  have hcut : splitOnce ':' (scheme ++ "://".toList ++ authority ++ path ++ query') =
      some (scheme, '/' :: '/' :: (authority ++ (path ++ query'))) := by
    rw [splitOnce_eq_some]
    exact ⟨by simp, hscheme'.2.1⟩
  -- both slashes are taken off, and the authority begins with none
  have hslashes : ('/' :: '/' :: (authority ++ (path ++ query'))).dropWhile isSlash =
      authority ++ (path ++ query') := by
    rcases List.exists_cons_of_ne_nil hne with ⟨a, rest, rfl⟩
    have ha : isSlash a = false := by
      have hends := (hauthority a (by simp)).1
      simp only [endsAuthority, Bool.or_eq_false_iff] at hends
      exact hends.1
    have hmark : isSlash '/' = true := by decide
    simp [hmark, ha]
  have htail : ∀ c, (path ++ query').head? = some c → (!endsAuthority c) = false := by
    intro c hc
    cases path with
    | nil =>
        rw [hquery' c hc]
        decide
    | cons d rest =>
        rw [hslash c hc]
        decide
  have hwhole : ∀ c ∈ authority, (!endsAuthority c) = true := fun c hc => by
    simp [(hauthority c hc).1]
  have hauth := takeWhile_front hwhole htail
  rw [parseWeb, hstripped, hcut]
  simp only [hscheme'.2.2.1, if_pos hscheme, hslashes, hauth]
  simp only [parseAuthority, webPath_query (fun c hc => (hpath c hc).1) hquery']

omit [WebHosts] in
/-- Nothing is stripped of a scheme with its colon. -/
theorem stripped_scheme {scheme : Text} (hscheme : scheme = "http".toList ∨ scheme = "https".toList)
    (rest : Text) : stripped (scheme ++ ':' :: rest) =
      scheme ++ ':' :: (trimEnd isC0OrSpace rest).filter fun c => !isTabOrNewline c := by
  have hscheme' := webScheme hscheme
  have hkeep : scheme.filter (fun c => !isTabOrNewline c) = scheme :=
    List.filter_eq_self.2 fun c hc => by simp [hscheme'.2.2.2 c hc]
  have hstart : trimStart isC0OrSpace (scheme ++ ':' :: rest) = scheme ++ ':' :: rest := by
    rcases hscheme with rfl | rfl <;> rfl
  have hcolon : isC0OrSpace ':' = false := by decide
  rw [stripped, hstart, trimEnd_append hcolon, List.filter_append, hkeep]
  simp [isTabOrNewline]

theorem parseWeb_scheme {scheme rest : Text}
    (hscheme : scheme = "http".toList ∨ scheme = "https".toList) :
    parseWeb (scheme ++ ':' :: rest) =
      (fun rest => parseAuthority scheme (rest.takeWhile fun c => !endsAuthority c)
          (rest.dropWhile fun c => !endsAuthority c))
        (((trimEnd isC0OrSpace rest).filter fun c => !isTabOrNewline c).dropWhile isSlash) := by
  have hscheme' := webScheme hscheme
  have hcut : ∀ rest', splitOnce ':' (scheme ++ ':' :: rest') = some (scheme, rest') :=
    fun rest' => splitOnce_eq_some.2 ⟨rfl, hscheme'.2.1⟩
  rw [parseWeb, stripped_scheme hscheme, hcut]
  simp only [hscheme'.2.2.1, if_pos hscheme]

/-- What follows the authority decides about the path only. -/
theorem parseAuthority_tail {scheme authority tail : Text} {u : WebUrl}
    (h : parseAuthority scheme authority tail = some u) (tail' : Text) :
    parseAuthority scheme authority tail' = some { u with path := webPath tail' } := by
  simp only [parseAuthority, Option.bind_eq_bind, Option.bind_eq_some_iff, Option.pure_def,
    Option.some.injEq] at h ⊢
  rcases h with ⟨port, hport, host, hhost, rfl⟩
  exact ⟨port, hport, host, hhost, rfl⟩

/-- With a slash after a host's text the authority is the same whatever comes then. -/
theorem parseWeb_path {scheme : Text} (hscheme : scheme = "http".toList ∨ scheme = "https".toList)
    {c : Char} (hslash : isSlash c = false) (htab : isTabOrNewline c = false) (rest : Text) :
    ∃ authority, ∀ tail, ∃ path,
      parseWeb (scheme ++ "://".toList ++ c :: rest ++ '/' :: tail) =
        parseAuthority scheme authority path := by
  let host := c :: rest.filter fun d => !isTabOrNewline d
  refine ⟨host.takeWhile fun d => !endsAuthority d, fun tail => ?_⟩
  let kept := (trimEnd isC0OrSpace tail).filter fun d => !isTabOrNewline d
  have hmark : isC0OrSpace '/' = false := by decide
  have hends : (!endsAuthority '/') = false := by decide
  have hread : ((trimEnd isC0OrSpace ('/' :: '/' :: (c :: rest ++ '/' :: tail))).filter
      fun d => !isTabOrNewline d) = '/' :: '/' :: (host ++ '/' :: kept) := by
    have hkeep : (!isTabOrNewline '/') = true ∧ (!isTabOrNewline c) = true := by
      rw [htab]
      decide
    have hfront : '/' :: '/' :: (c :: rest ++ '/' :: tail) =
        ('/' :: '/' :: c :: rest) ++ '/' :: tail := by simp
    rw [hfront, trimEnd_append hmark]
    simp only [List.filter_append, List.filter_cons, hkeep, if_true, host, kept, List.cons_append]
  have hdrop : ('/' :: '/' :: (host ++ '/' :: kept)).dropWhile isSlash = host ++ '/' :: kept := by
    have hself : isSlash '/' = true := by decide
    simp [host, hself, hslash]
  have htake : (host ++ '/' :: kept).takeWhile (fun d => !endsAuthority d) =
      host.takeWhile fun d => !endsAuthority d := by
    rw [List.takeWhile_append]
    split
    · next hall =>
        rw [(List.takeWhile_prefix _).eq_of_length hall]
        simp [hends]
    · rfl
  refine ⟨(host ++ '/' :: kept).dropWhile fun d => !endsAuthority d, ?_⟩
  calc parseWeb (scheme ++ "://".toList ++ c :: rest ++ '/' :: tail)
      = parseWeb (scheme ++ ':' :: '/' :: '/' :: (c :: rest ++ '/' :: tail)) := by simp
    _ = _ := by
      rw [parseWeb_scheme hscheme, hread, hdrop]
      dsimp only
      rw [htake]

theorem parseWeb_ok {raw : Text} {u : WebUrl} (h : parseWeb raw = some u) :
    (u.scheme = "http".toList ∨ u.scheme = "https".toList) ∧
      (∃ t, parseHost t = some u.host) ∧ ∃ tail, u.path = webPath tail := by
  unfold parseWeb at h
  split at h
  · cases h
  · next scheme rest hsplit =>
      dsimp only at h
      split at h
      · next hscheme =>
          simp only [parseAuthority, Option.bind_eq_bind, Option.bind_eq_some_iff,
            Option.pure_def, Option.some.injEq] at h
          rcases h with ⟨port, -, host, hhost, rfl⟩
          exact ⟨hscheme, ⟨_, hhost⟩, _, rfl⟩
      · cases h

end Urls

/-! ## Hosts of letters and digits -/

/-- A character of the labels of a host name. -/
def inLabel (c : Char) : Bool := c.isAlphanum || c = '-' || c = '.'

theorem toNat_of_isAlphanum {c : Char} (h : c.isAlphanum = true) :
    (48 ≤ c.toNat ∧ c.toNat ≤ 57) ∨ (65 ≤ c.toNat ∧ c.toNat ≤ 90) ∨
      (97 ≤ c.toNat ∧ c.toNat ≤ 122) := by
  simp only [Char.isAlphanum, Bool.or_eq_true] at h
  rcases h with halpha | hdigit
  · exact .inr (Unicode.isAlpha_iff.1 halpha)
  · exact .inl (Char.isDigit_iff_toNat.1 hdigit)

theorem inLabel_toLower {c : Char} (h : inLabel c = true) : inLabel c.toLower = true := by
  by_cases halpha : c.isAlpha = true
  · have hlower := Unicode.isAlpha_toLower halpha
    simp [inLabel, Char.isAlphanum, hlower]
  · rwa [Unicode.toLower_eq_self (by simpa using halpha)]

theorem forbiddenInHost_of_inLabel {c : Char} (h : inLabel c = true) :
    forbiddenInHost c = false := by
  simp only [inLabel, Bool.or_eq_true, decide_eq_true_eq] at h
  rcases h with (halpha | rfl) | rfl
  · have hrange := toNat_of_isAlphanum halpha
    have hne : ∀ d : Char, d.isAlphanum = false → c ≠ d := by
      rintro d hd rfl
      simp [halpha] at hd
    simp [forbiddenInHost, hne _ (by decide : '#'.isAlphanum = false),
      hne _ (by decide : '/'.isAlphanum = false), hne _ (by decide : '?'.isAlphanum = false),
      hne _ (by decide : '@'.isAlphanum = false), hne _ (by decide : '\\'.isAlphanum = false)]
    omega
  · decide
  · decide

end Web

/-- Host names of letters and digits in lower case, and nothing else. -/
@[reducible] def asciiHosts : WebHosts where
  parseHost t := if t ≠ [] ∧ t.all Web.inLabel then some (t.map Char.toLower) else none
  pathEncodes c :=
    c.toNat ≤ 0x20 || 0x7f ≤ c.toNat ||
      [0x22, 0x23, 0x3c, 0x3e, 0x3f, 0x60, 0x7b, 0x7d].contains c.toNat
  host_ne_nil := by
    intro t h heq
    split at heq
    · next ht =>
        cases heq
        simpa using ht.1
    · cases heq
  host_forbidden := by
    intro t h heq c hc
    split at heq
    · next ht =>
        cases heq
        rcases List.mem_map.1 hc with ⟨d, hd, rfl⟩
        exact Web.forbiddenInHost_of_inLabel (Web.inLabel_toLower (List.all_eq_true.1 ht.2 d hd))
    · cases heq
  host_colon := by
    intro t h heq hc
    split at heq
    · next ht =>
        cases heq
        rcases List.mem_map.1 hc with ⟨d, hd, hcolon⟩
        have hlabel := Web.inLabel_toLower (List.all_eq_true.1 ht.2 d hd)
        rw [hcolon] at hlabel
        exact absurd hlabel (by decide)
    · cases heq
  colon_host := by
    intro t h heq hc
    split at heq
    · next ht => exact absurd (List.all_eq_true.1 ht.2 _ hc) (by decide)
    · cases heq
  pathEncodes_cut := by
    rintro c (hc | rfl | rfl)
    · simp [hc]
    · decide
    · decide
  pathEncodes_kept := by
    intro c hc
    simp only [keptInPath, Bool.or_eq_true, decide_eq_true_eq] at hc
    rcases hc with ((((((halpha | rfl) | rfl) | rfl) | rfl) | rfl) | rfl) | rfl
    · have hrange := Web.toNat_of_isAlphanum halpha
      simp
      omega
    all_goals decide

end FunctionWasm

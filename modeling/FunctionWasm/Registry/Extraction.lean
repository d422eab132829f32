import FunctionWasm.Foundation.Delivery
import FunctionWasm.Foundation.Machine
import FunctionWasm.Registry.Layers
import Mathlib.Data.List.TakeWhile

/-!
# Extraction — the module of a layer, under a bound on what is expanded

A tar layer is read, decompressed where it begins like gzip, through a reader that fails once it has
handed out eight times the limit.  The archive's entries come from a library that sees no more than
that reader hands out.

* `CappedReader` is that reader; its delivery is the capped one, whatever portions are asked for.
* `TarReader` lists the entries of what a reader delivers; `extract` takes the module out of them.
* `extraction_exact_iff` says when the module is the first file `fn.wasm` of the root.
* `extract_eq` and `lawful_throughCap` connect this with archives that are listed through a limit.
-/

namespace FunctionWasm

open ByteReader (read delivery readAll)

/-! ## The bound on what is expanded -/

def cappedError : Text := "module layer archive exceeds the size limit before /fn.wasm".toList

structure CappedReader (σ : Type) where
  r : σ
  left : Int

namespace CappedReader

variable {σ : Type} [ByteReader σ]

def read (c : CappedReader σ) (room : Nat) : Except Text Bytes × CappedReader σ :=
  if c.left ≤ 0 then (.error cappedError, c)
  else
    match ByteReader.read c.r (min c.left.toNat room) with
    | (.error e, r) => (.error e, { c with r := r })
    | (.ok b, r) => (.ok b, { r := r, left := c.left - b.length })

/-- Nothing where nothing is left, else the delivery up to what is left. -/
def delivery (c : CappedReader σ) : Delivery :=
  (ByteReader.delivery c.r).capped c.left.toNat cappedError

theorem capped_zero (e : Text) (d : Delivery) : d.capped 0 e = ⟨[], some e⟩ := by
  simp [Delivery.capped]

/-- Taking some bytes off a delivery takes as many off its cap. -/
theorem capped_append {front rest : Bytes} {failure : Option Text} {n : Nat} {e : Text}
    (h : front.length ≤ n) :
    Delivery.capped n e ⟨front ++ rest, failure⟩ =
      { Delivery.capped (n - front.length) e ⟨rest, failure⟩ with
        bytes := front ++ (Delivery.capped (n - front.length) e ⟨rest, failure⟩).bytes } := by
  unfold Delivery.capped
  by_cases hshort : front.length + rest.length < n
  · rw [if_pos (by simpa using hshort), if_pos (by dsimp only; omega)]
  · rw [if_neg (by simpa using hshort), if_neg (by dsimp only; omega)]
    simp [List.take_append, List.take_of_length_le h]

/-- Every read is one of the capped delivery. -/
theorem reads (c : CappedReader σ) (room : Nat) :
    c.delivery.Reads room (c.read room).1 (c.read room).2.delivery := by
  unfold read
  by_cases hleft : c.left ≤ 0
  · have hzero : c.left.toNat = 0 := Int.toNat_of_nonpos hleft
    rw [if_pos hleft, delivery, hzero, capped_zero]
    exact .failed
  · have hpos : 0 < c.left.toNat := by omega
    have hinner := ByteReader.reads c.r (min c.left.toNat room)
    rw [if_neg hleft]
    unfold delivery
    generalize hnext : ByteReader.read c.r (min c.left.toNat room) = answered at hinner ⊢
    generalize hold : ByteReader.delivery c.r = d at hinner ⊢
    generalize hasked : min c.left.toNat room = asked at hinner
    rcases answered with ⟨answer, r⟩
    dsimp only at hinner
    generalize hnew : ByteReader.delivery r = d' at hinner
    cases hinner with
    | @portion _ front rest failure hne hlength =>
        have hroom : front.length ≤ c.left.toNat ∧ front.length ≤ room := by omega
        have hleft' : (c.left - front.length).toNat = c.left.toNat - front.length := by omega
        simp only [hnew, hleft', capped_append hroom.1]
        exact .portion hne hroom.2
    | noRoom =>
        have hroom : room = 0 := by omega
        subst hroom
        simpa [hnew] using Delivery.Reads.noRoom
    | ended =>
        simpa [hnew, Delivery.capped, hpos] using Delivery.Reads.ended
    | failed =>
        simpa [hnew, Delivery.capped, hpos] using Delivery.Reads.failed

instance : ByteReader (CappedReader σ) where
  read := read
  delivery := delivery
  reads := reads

/-- However often it is asked, no more is handed out than was left. -/
theorem length_readAll (c : CappedReader σ) (rooms : List Nat) :
    ((readAll c rooms).1.length : Int) ≤ max c.left 0 := by
  have hall := ByteReader.length_readAll c rooms
  have hcap : (ByteReader.delivery c).bytes.length ≤ c.left.toNat :=
    Delivery.length_capped _ _ _
  omega

end CappedReader

/-! ## The readers under it -/

/-- Gzip decompression. -/
class GzipLibrary where
  Decoder : Type
  reader : ByteReader Decoder
  decoder : Bytes → Decoder

/-- A layer as it is, or decompressed. -/
inductive LayerReader [GzipLibrary] where
  | plain (rest : Bytes)
  | gzip (decoder : GzipLibrary.Decoder)

section Readers

variable [GzipLibrary]

instance : ByteReader GzipLibrary.Decoder := GzipLibrary.reader

instance : ByteReader LayerReader where
  read r room :=
    match r with
    | .plain rest => ((read rest room).1, .plain (read rest room).2)
    | .gzip decoder => ((read decoder room).1, .gzip (read decoder room).2)
  delivery
    | .plain rest => delivery rest
    | .gzip decoder => delivery decoder
  reads r room :=
    match r with
    | .plain rest => ByteReader.reads rest room
    | .gzip decoder => ByteReader.reads decoder room

def layerReader (b : Bytes) : LayerReader :=
  if [0x1f, 0x8b].isPrefixOf b then .gzip (GzipLibrary.decoder b) else .plain b

/-- `limit as i64` -/
def asI64 (limit : Nat) : Int := if limit < 2 ^ 63 then limit else limit - 2 ^ 64

/-- The product of two signed words of 64 bits. -/
def mulI64 (build : Build) (x y : Int) : Checked Int :=
  if -2 ^ 63 ≤ x * y ∧ x * y < 2 ^ 63 then .ok (x * y)
  else if build.overflowChecks then .error .overflow
  else .ok ((x * y).bmod (2 ^ 64))

def cappedReader (build : Build) (b : Bytes) (limit : Nat) : Checked (CappedReader LayerReader) :=
  match mulI64 build 8 (asI64 limit) with
  | .error fault => .error fault
  | .ok left => .ok { r := layerReader b, left := left }

/-- In no build is more than eight times the limit left at the beginning. -/
theorem left_le {build : Build} {b : Bytes} {limit : Nat} {c : CappedReader LayerReader}
    (h : cappedReader build b limit = .ok c) : c.left ≤ 8 * (limit : Int) := by
  have hsigned : asI64 limit ≤ limit := by
    unfold asI64
    split <;> omega
  have hwrapped : ((8 * asI64 limit).bmod (2 ^ 64)) < 2 ^ 63 := by
    exact Int.bmod_lt (x := 8 * asI64 limit) (m := 2 ^ 64) (by decide)
  have hmul : ∀ left, mulI64 build 8 (asI64 limit) = .ok left → left ≤ 8 * (limit : Int) := by
    intro left hleft
    unfold mulI64 at hleft
    split at hleft
    · cases hleft
      omega
    · next hwide =>
        split at hleft
        · cases hleft
        · cases hleft
          -- what wraps is past the signed words, so the limit is large
          have hlarge : 2 ^ 60 ≤ limit := by
            by_contra hsmall
            have hnat : asI64 limit = limit := if_pos (by omega)
            rw [hnat] at hwide
            omega
          omega
  unfold cappedReader at h
  split at h
  · cases h
  · next left hleft =>
      cases h
      exact hmul left hleft

end Readers

/-! ## The entries of an archive -/

/-- What an entry's header says. -/
structure EntryTitle where
  isFile : Bool
  /-- The path, with replacement characters where it is no text. -/
  name : Text
  deriving DecidableEq

/-- An entry, and what reading its content hands out. -/
structure ArchiveEntry extends EntryTitle where
  content : Delivery
  deriving DecidableEq

namespace EntryTitle

/-- Whether an entry is taken for the module. -/
def taken (t : EntryTitle) : Bool := t.isFile ∧ cleanedName t.name = scratchModulePath

/-- Whether an entry is the file `fn.wasm` of the root. -/
def atRoot (t : EntryTitle) : Bool := t.isFile ∧ components t.name = ["fn.wasm".toList]

def isDotOrSlash (c : Char) : Bool := c = '.' ∨ c = '/'

/-- Empty components and `.` ones, each with its slash. -/
def plainFront : Text → Bool
  | [] => true
  | '/' :: rest => plainFront rest
  | '.' :: '/' :: rest => plainFront rest
  | _ => false

/-- Whether nothing but empty components and `.` ones stands before the name. -/
def plain (t : EntryTitle) : Bool := plainFront (t.name.takeWhile isDotOrSlash)

theorem components_slash (x : Text) : components ('/' :: x) = components x := by
  have happend := components_append [] x
  have hnil : components ([] : Text) = [] := by decide
  simpa [hnil] using happend

/-- A name that begins with a dot, and not as the component `.`, is not the module's. -/
theorem components_dot {d : Char} (x : Text) (h : d ≠ '/') :
    components ('.' :: d :: x) ≠ ["fn.wasm".toList] := by
  rcases List.exists_cons_of_ne_nil (List.splitOn_ne_nil '/' x) with ⟨piece, pieces, hsplit⟩
  have hpieces : ('.' :: d :: x).splitOn '/' = ('.' :: d :: piece) :: pieces := by
    simp [List.splitOn_cons_eq_if_modifyHead, h, hsplit]
  have hkept : components ('.' :: d :: x) = ('.' :: d :: piece) ::
      pieces.filter fun c => c ≠ [] ∧ c ≠ ['.'] := by
    simp [components, hpieces]
  rw [hkept]
  intro heq
  have hhead := (List.cons.inj heq).1
  exact absurd (List.cons.inj hhead).1 (by decide)

theorem components_front {front : Text} (h : ∀ c ∈ front, isDotOrSlash c = true) :
    components (front ++ "fn.wasm".toList) = ["fn.wasm".toList] ↔ plainFront front = true := by
  induction front using plainFront.induct with
  | case1 => exact iff_of_true (by decide) rfl
  | case2 rest ih =>
      rw [List.cons_append, components_slash, plainFront]
      exact ih fun c hc => h c (by simp [hc])
  | case3 rest ih =>
      have hdot : components ('.' :: '/' :: (rest ++ "fn.wasm".toList)) =
          components (rest ++ "fn.wasm".toList) := by
        have happend := components_append ['.'] (rest ++ "fn.wasm".toList)
        have hone : components ['.'] = [] := by decide
        simpa [hone] using happend
      rw [List.cons_append, List.cons_append, hdot, plainFront]
      exact ih fun c hc => h c (by simp [hc])
  | case4 front hnil hslash hdot =>
      have hfalse : plainFront front = false := by
        unfold plainFront
        split
        · exact absurd rfl hnil
        · exact absurd rfl (hslash _)
        · exact absurd rfl (hdot _)
        · rfl
      rw [hfalse]
      refine iff_of_false ?_ (by decide)
      rcases front with _ | ⟨c, rest⟩
      · exact absurd rfl hnil
      have hc := h c (by simp)
      have hc' : c = '.' := by
        rcases (by simpa [isDotOrSlash] using hc : c = '.' ∨ c = '/') with hc | hc
        · exact hc
        · exact absurd (by rw [hc]) (hslash rest)
      subst hc'
      rcases rest with _ | ⟨d, rest⟩
      · exact components_dot _ (by decide)
      · refine components_dot _ ?_
        rintro rfl
        exact hdot rest rfl

/-- What is taken for the module is at the root exactly when nothing but empty components and `.`
ones stands before its name. -/
theorem atRoot_of_taken {t : EntryTitle} (h : t.taken = true) : t.atRoot = t.plain := by
  simp only [taken, decide_eq_true_eq] at h
  have hname : t.name = t.name.takeWhile isDotOrSlash ++ "fn.wasm".toList := by
    have hrest : t.name.dropWhile isDotOrSlash = "fn.wasm".toList := by
      have hpath : scratchModulePath = '/' :: "fn.wasm".toList := by decide
      exact (List.cons.inj (h.2.trans hpath)).2
    conv_lhs => rw [← List.takeWhile_append_dropWhile (p := isDotOrSlash) (l := t.name), hrest]
  have hfront : ∀ c ∈ t.name.takeWhile isDotOrSlash, isDotOrSlash c = true :=
    fun c hc => List.mem_takeWhile_imp hc
  have hiff := components_front hfront
  rw [← hname] at hiff
  rw [Bool.eq_iff_iff]
  simpa [atRoot, plain, h.1] using hiff

end EntryTitle

/-- The first entry of some kind, with those before it; all of them can be read. -/
structure FirstOf (p : EntryTitle → Bool) (items : List (Except Text ArchiveEntry))
    (before : List ArchiveEntry) (e : ArchiveEntry) : Prop where
  split : ∃ after, items = before.map .ok ++ .ok e :: after
  others : ∀ x ∈ before, p x.toEntryTitle = false
  holds : p e.toEntryTitle = true

theorem FirstOf.here {p : EntryTitle → Bool} {e : ArchiveEntry}
    {rest : List (Except Text ArchiveEntry)} (h : p e.toEntryTitle = true) :
    FirstOf p (.ok e :: rest) [] e :=
  ⟨⟨rest, rfl⟩, by simp, h⟩

theorem FirstOf.later {p : EntryTitle → Bool} {x e : ArchiveEntry} {before : List ArchiveEntry}
    {rest : List (Except Text ArchiveEntry)} (hx : p x.toEntryTitle = false)
    (h : FirstOf p rest before e) : FirstOf p (.ok x :: rest) (x :: before) e := by
  rcases h.split with ⟨after, rfl⟩
  refine ⟨⟨after, rfl⟩, ?_, h.holds⟩
  simpa [hx] using h.others

/-- How the first entry of a list is found: at its head, or in its tail. -/
theorem FirstOf.cons_iff {p : EntryTitle → Bool} {x e : ArchiveEntry} {before : List ArchiveEntry}
    {rest : List (Except Text ArchiveEntry)} :
    FirstOf p (.ok x :: rest) before e ↔
      (p x.toEntryTitle = true ∧ before = [] ∧ e = x) ∨
        (p x.toEntryTitle = false ∧ ∃ before', before = x :: before' ∧ FirstOf p rest before' e) := by
  constructor
  · rintro ⟨⟨after, hsplit⟩, hothers, hholds⟩
    rcases before with _ | ⟨y, before⟩
    · cases hsplit
      exact .inl ⟨hholds, rfl, rfl⟩
    · simp only [List.map_cons, List.cons_append, List.cons.injEq, Except.ok.injEq] at hsplit
      rcases hsplit with ⟨rfl, hrest⟩
      refine .inr ⟨hothers _ (by simp), before, rfl, ⟨after, hrest⟩, ?_, hholds⟩
      intro y hy
      exact hothers y (by simp [hy])
  · rintro (⟨hx, rfl, rfl⟩ | ⟨hx, before', rfl, hlater⟩)
    · exact .here hx
    · exact hlater.later hx

theorem FirstOf.not_error {p : EntryTitle → Bool} {e : ArchiveEntry} {before : List ArchiveEntry}
    {error : Text} {rest : List (Except Text ArchiveEntry)} :
    ¬ FirstOf p (.error error :: rest) before e := by
  rintro ⟨⟨after, hsplit⟩, -, -⟩
  cases before <;> cases hsplit

theorem FirstOf.unique {p : EntryTitle → Bool} {items : List (Except Text ArchiveEntry)}
    {before before' : List ArchiveEntry} {e e' : ArchiveEntry} (h : FirstOf p items before e)
    (h' : FirstOf p items before' e') : before = before' ∧ e = e' := by
  induction items generalizing before before' with
  | nil =>
      rcases h.split with ⟨after, hsplit⟩
      cases before <;> cases hsplit
  | cons item rest ih =>
      cases item with
      | error error => exact absurd h FirstOf.not_error
      | ok x =>
          rcases FirstOf.cons_iff.1 h with ⟨hx, rfl, rfl⟩ | ⟨hx, before₁, rfl, hrest⟩ <;>
            rcases FirstOf.cons_iff.1 h' with ⟨hx', rfl, rfl⟩ | ⟨hx', before₂, rfl, hrest'⟩
          · exact ⟨rfl, rfl⟩
          · exact absurd (hx.symm.trans hx') (by decide)
          · exact absurd (hx.symm.trans hx') (by decide)
          · rcases ih hrest hrest' with ⟨rfl, rfl⟩
            exact ⟨rfl, rfl⟩

/-! ## Archives that are read in part -/

/-- What is listed of an archive when reading may stop anywhere with a failure. -/
inductive StopsIn :
    List (Except Text ArchiveEntry) → List (Except Text ArchiveEntry) → Prop where
  | done : StopsIn [] []
  | error {held rest : List (Except Text ArchiveEntry)} {e : Text} :
      StopsIn held (.error e :: rest)
  | entry {whole part : ArchiveEntry} {held rest : List (Except Text ArchiveEntry)} :
      part.toEntryTitle = whole.toEntryTitle → part.content.Upto whole.content →
      StopsIn held rest → StopsIn (.ok whole :: held) (.ok part :: rest)

/-- What the loop over the entries sees of a listing. -/
def listing : Except Text (List (Except Text ArchiveEntry)) → List (Except Text ArchiveEntry)
  | .error e => [.error e]
  | .ok entries => entries

/-- A tar library: what it lists depends on what its reader delivers, and on no more of that than it
has to read. -/
class TarReader where
  entries : Delivery → Except Text (List (Except Text ArchiveEntry))
  nothing : ∀ e entry rest, listing (entries ⟨[], some e⟩) ≠ .ok entry :: rest
  stops : ∀ d n e, StopsIn (listing (entries d)) (listing (entries (d.capped n e)))

/-- An entry that is first in what can be read is first in the archive. -/
theorem StopsIn.first {p : EntryTitle → Bool} {held items : List (Except Text ArchiveEntry)}
    {before : List ArchiveEntry} {e : ArchiveEntry} (h : StopsIn held items)
    (hfirst : FirstOf p items before e) :
    ∃ before' e', FirstOf p held before' e' ∧
      before'.map ArchiveEntry.toEntryTitle = before.map ArchiveEntry.toEntryTitle ∧
      e'.toEntryTitle = e.toEntryTitle ∧ e.content.Upto e'.content := by
  induction h generalizing before with
  | done =>
      rcases hfirst.split with ⟨after, hsplit⟩
      cases before <;> cases hsplit
  | error => exact absurd hfirst FirstOf.not_error
  | @entry whole part held rest htitle hcontent _ ih =>
      rcases FirstOf.cons_iff.1 hfirst with ⟨hpart, rfl, rfl⟩ | ⟨hpart, before₁, rfl, hrest⟩
      · exact ⟨[], whole, .here (htitle ▸ hpart), rfl, htitle.symm, hcontent⟩
      · rcases ih hrest with ⟨before', e', hheld, htitles, htitle', hcontent'⟩
        refine ⟨whole :: before', e', hheld.later (htitle ▸ hpart), ?_, htitle', hcontent'⟩
        simp [htitle, htitles]

section Extract

variable [GzipLibrary] [TarReader]

/-- The loop over the entries. -/
def takeEntry (build : Build) (limit : Nat) :
    List (Except Text ArchiveEntry) → Checked (Except Text Bytes)
  | [] =>
      .ok (.error ("module layer is a tar archive without /fn.wasm: a FROM scratch image must " ++
        "COPY the module to /fn.wasm").toList)
  | .error e :: _ => .ok (.error (archiveError e))
  | .ok entry :: rest =>
      if entry.taken then
        match build.add limit 1 with
        | .error fault => .error fault
        | .ok room =>
            match (entry.content.limited room).readToEnd with
            | .error e => .ok (.error (archiveError e))
            | .ok out =>
                if limit < out.length then
                  .ok (.error ("module exceeds the size limit of ".toList ++ natText limit ++
                    " bytes".toList))
                else .ok (.ok out)
      else takeEntry build limit rest

/-- Takes the module out of a layer that may be gzipped. -/
def extract (build : Build) (b : Bytes) (limit : Nat) : Checked (Except Text Bytes) :=
  match cappedReader build b limit with
  | .error fault => .error fault
  | .ok c =>
      match TarReader.entries (delivery c) with
      | .error e => .ok (.error (archiveError e))
      | .ok entries => takeEntry build limit entries

/-- The archive of a layer, whatever the limit. -/
def held (b : Bytes) : List (Except Text ArchiveEntry) :=
  listing (TarReader.entries (delivery (layerReader b)))

/-- What can be read of it through the limit. -/
def seen (build : Build) (b : Bytes) (limit : Nat) : List (Except Text ArchiveEntry) :=
  match cappedReader build b limit with
  | .error _ => []
  | .ok c => listing (TarReader.entries (delivery c))

omit [GzipLibrary] [TarReader] in
theorem takeEntry_ok {build : Build} {limit : Nat} {items : List (Except Text ArchiveEntry)}
    {b : Bytes} (hlimit : limit + 1 < usizeBound) :
    takeEntry build limit items = .ok (.ok b) ↔
      ∃ before e, FirstOf EntryTitle.taken items before e ∧ e.content = ⟨b, none⟩ ∧
        b.length ≤ limit := by
  induction items with
  | nil =>
      refine iff_of_false (by simp [takeEntry]) ?_
      rintro ⟨before, e, ⟨⟨after, hsplit⟩, -, -⟩, -⟩
      cases before <;> cases hsplit
  | cons item rest ih =>
      cases item with
      -- an entry that cannot be read ends the search
      | error e =>
          refine iff_of_false (by simp [takeEntry]) ?_
          rintro ⟨before, e, hfirst, -⟩
          exact FirstOf.not_error hfirst
      | ok x =>
          -- the first entry of the name is the one that is read
          cases htaken : x.taken with
          | true =>
              simp only [takeEntry, htaken, if_true, Build.add_of_lt hlimit]
              constructor
              · intro h
                split at h
                · cases h
                · next out hread =>
                    split at h
                    · cases h
                    · next hlength =>
                        cases h
                        exact ⟨[], x, .here htaken,
                          Delivery.limited_ok hread (Nat.not_lt.1 hlength), Nat.not_lt.1 hlength⟩
              · rintro ⟨before, e, hfirst, hcontent, hlength⟩
                rcases FirstOf.cons_iff.1 hfirst with ⟨-, -, rfl⟩ | ⟨hx, -⟩
                · have hread : (e.content.limited (limit + 1)).readToEnd = .ok b := by
                    have hshort : ¬ limit + 1 ≤ b.length := by omega
                    simp [hcontent, Delivery.limited, hshort, Delivery.readToEnd]
                  simp only [hread]
                  rw [if_neg (Nat.not_lt.2 hlength)]
                · exact absurd (htaken.symm.trans hx) (by decide)
          | false =>
              simp only [takeEntry, htaken, Bool.false_eq_true, if_false, ih]
              constructor
              · rintro ⟨before, e, hfirst, hrest⟩
                exact ⟨x :: before, e, hfirst.later htaken, hrest⟩
              · rintro ⟨before, e, hfirst, hrest⟩
                rcases FirstOf.cons_iff.1 hfirst with ⟨hx, -⟩ | ⟨-, before', -, hlater⟩
                · exact absurd (htaken.symm.trans hx) (by decide)
                · exact ⟨before', e, hlater, hrest⟩

/-- At the largest limit nothing is handed out, and so no entry is seen. -/
theorem seen_largest {build : Build} {b : Bytes} {entry : ArchiveEntry}
    {rest : List (Except Text ArchiveEntry)} : seen build b (2 ^ 64 - 1) ≠ .ok entry :: rest := by
  have hopened : cappedReader build b (2 ^ 64 - 1) = .ok { r := layerReader b, left := -8 } := rfl
  have hnone : delivery ({ r := layerReader b, left := -8 } : CappedReader LayerReader) =
      ⟨[], some cappedError⟩ := CappedReader.capped_zero _ _
  unfold seen
  rw [hopened]
  dsimp only
  rw [hnone]
  exact TarReader.nothing _ _ _

theorem extract_ok {build : Build} {archive b : Bytes} {limit : UInt64} :
    extract build archive limit.toNat = .ok (.ok b) ↔
      ∃ before e, FirstOf EntryTitle.taken (seen build archive limit.toNat) before e ∧
        e.content = ⟨b, none⟩ ∧ b.length ≤ limit.toNat := by
  have hread : extract build archive limit.toNat = .ok (.ok b) ↔
      takeEntry build limit.toNat (seen build archive limit.toNat) = .ok (.ok b) := by
    unfold extract seen
    cases cappedReader build archive limit.toNat with
    | error fault => simp [takeEntry]
    | ok c =>
        dsimp only
        cases TarReader.entries (delivery c) with
        | error e => simp [listing, takeEntry]
        | ok entries => rfl
  rw [hread]
  by_cases hlimit : limit.toNat + 1 < usizeBound
  · exact takeEntry_ok hlimit
  · have hbound := limit.toNat_lt
    have hlargest : limit.toNat = 2 ^ 64 - 1 := by
      unfold usizeBound at hlimit
      omega
    rw [hlargest]
    generalize hseen : seen build archive (2 ^ 64 - 1) = items
    rcases items with _ | ⟨_ | entry, rest⟩
    · refine iff_of_false (by simp [takeEntry]) ?_
      rintro ⟨before, e, ⟨⟨after, hsplit⟩, -, -⟩, -⟩
      cases before <;> cases hsplit
    · refine iff_of_false (by simp [takeEntry]) ?_
      rintro ⟨before, e, hfirst, -⟩
      exact FirstOf.not_error hfirst
    · exact absurd hseen seen_largest

theorem seen_stops (build : Build) (archive : Bytes) {limit : Nat} {c : CappedReader LayerReader}
    (h : cappedReader build archive limit = .ok c) :
    StopsIn (held archive) (seen build archive limit) := by
  have hr : c.r = layerReader archive := by
    unfold cappedReader at h
    split at h
    · cases h
    · cases h
      rfl
  have hdelivery : delivery c = (delivery (layerReader archive)).capped c.left.toNat cappedError := by
    rw [← hr]
    rfl
  unfold seen held
  rw [h]
  dsimp only
  rw [hdelivery]
  exact TarReader.stops _ _ _

/-! ## Which file is taken -/

/-- The file that is taken is the first one that is the root's `fn.wasm`, and some bytes are all of
it. -/
def TakesModule (archive : Bytes) (limit : Nat) (b : Bytes) : Prop :=
  ∃ before e, FirstOf EntryTitle.taken (held archive) before e ∧
    FirstOf EntryTitle.atRoot (held archive) before e ∧ e.content = ⟨b, none⟩ ∧ b.length ≤ limit

/-- The first file named `fn.wasm` after dots and slashes, if it can be read within the limits, has
nothing but empty components and `.` ones before its name, and no file before it is the root's under
another spelling. -/
def PlainlyNamed (build : Build) (archive : Bytes) (limit : Nat) : Prop :=
  ∀ before e b, FirstOf EntryTitle.taken (seen build archive limit) before e →
    e.content = ⟨b, none⟩ → b.length ≤ limit →
      e.plain = true ∧ ∀ x ∈ before, x.atRoot = false

/-- Whatever is taken is the root's module exactly where the file is named plainly; and however the
archive is read, no more than eight times the limit is expanded. -/
theorem extraction_exact_iff (build : Build) (archive : Bytes) (limit : UInt64) :
    ((∀ b, extract build archive limit.toNat = .ok (.ok b) →
        TakesModule archive limit.toNat b) ↔ PlainlyNamed build archive limit.toNat) ∧
      ∀ c, cappedReader build archive limit.toNat = .ok c →
        ∀ rooms, (readAll c rooms).1.length ≤ 8 * limit.toNat := by
  refine ⟨?_, ?_⟩
  · -- up to the file that is taken the archive is listed as it is held
    have hstops : ∀ before e, FirstOf EntryTitle.taken (seen build archive limit.toNat) before e →
        StopsIn (held archive) (seen build archive limit.toNat) := by
      rintro before e ⟨⟨after, hsplit⟩, -, -⟩
      cases hopened : cappedReader build archive limit.toNat with
      | error fault =>
          unfold seen at hsplit
          rw [hopened] at hsplit
          cases before <;> cases hsplit
      | ok c => exact seen_stops build archive hopened
    constructor
    · intro h before e b hfirst hcontent hlength
      rcases h b (extract_ok.2 ⟨before, e, hfirst, hcontent, hlength⟩) with
        ⟨before₁, e₁, htaken₁, hroot₁, -, -⟩
      rcases (hstops before e hfirst).first hfirst with
        ⟨before₂, e₂, htaken₂, htitles, htitle, -⟩
      -- the archive has one module at its root, so both are that one
      rcases htaken₁.unique htaken₂ with ⟨rfl, rfl⟩
      refine ⟨?_, fun x hx => ?_⟩
      · rw [← EntryTitle.atRoot_of_taken hfirst.holds, ← htitle]
        exact hroot₁.holds
      · have hmem : x.toEntryTitle ∈ before₁.map ArchiveEntry.toEntryTitle := by
          rw [htitles]
          exact List.mem_map_of_mem hx
        rcases List.mem_map.1 hmem with ⟨y, hy, hsame⟩
        rw [← hsame]
        exact hroot₁.others y hy
    · intro h b hb
      rcases extract_ok.1 hb with ⟨before, e, hfirst, hcontent, hlength⟩
      rcases h before e b hfirst hcontent hlength with ⟨hplain, hbefore⟩
      rcases (hstops before e hfirst).first hfirst with
        ⟨before', e', htaken, htitles, htitle, hupto⟩
      refine ⟨before', e', htaken, ⟨htaken.split, ?_, ?_⟩, hupto.eq_of_ends hcontent, hlength⟩
      · intro y hy
        have hmem : y.toEntryTitle ∈ before.map ArchiveEntry.toEntryTitle := by
          rw [← htitles]
          exact List.mem_map_of_mem hy
        rcases List.mem_map.1 hmem with ⟨x, hx, hsame⟩
        rw [← hsame]
        exact hbefore x hx
      · rw [htitle, EntryTitle.atRoot_of_taken hfirst.holds]
        exact hplain
  · intro c hc rooms
    have hread := CappedReader.length_readAll c rooms
    have hleft := left_le hc
    omega

end Extract

/-! ## Archives that are listed through a limit -/

def ArchiveEntry.through (limit : Nat) (e : ArchiveEntry) : TarEntry where
  isFile := e.isFile
  name := e.name
  content := (e.content.limited (limit + 1)).readToEnd

/-- The archive library of a pull: this tar library under the cap. -/
@[reducible] def throughCap [GzipLibrary] [TarReader] : TarLibrary where
  entries b limit :=
    (TarReader.entries ((delivery (layerReader b)).capped (8 * limit) cappedError)).map fun items =>
      items.map fun item => item.map (ArchiveEntry.through limit)

section Through

variable [GzipLibrary] [TarReader]

omit [GzipLibrary] [TarReader] in
theorem takeModule_through {build : Build} {limit : Nat} (hlimit : limit + 1 < usizeBound)
    (items : List (Except Text ArchiveEntry)) :
    takeEntry build limit items =
      .ok (takeModule limit (items.map fun item => item.map (ArchiveEntry.through limit))) := by
  induction items with
  | nil => rfl
  | cons item rest ih =>
      cases item with
      | error e => rfl
      | ok x =>
          have htaken : (x.through limit).taken = x.taken := rfl
          have hcontent : (x.through limit).content =
              (x.content.limited (limit + 1)).readToEnd := rfl
          cases hx : x.taken with
          | false =>
              rw [List.map_cons, Except.map, takeModule, htaken, hx, if_neg (by decide), ← ih]
              simp only [takeEntry, hx, Bool.false_eq_true, if_false]
          | true =>
              rw [List.map_cons, Except.map, takeModule, htaken, hx, if_pos rfl, hcontent]
              simp only [takeEntry, hx, if_true, Build.add_of_lt hlimit]
              cases (x.content.limited (limit + 1)).readToEnd with
              | error e => rfl
              | ok out =>
                  dsimp only
                  split <;> rfl

/-- Where eight times the limit is a signed word, the module is what is taken from the archive as it
is listed through the limit. -/
theorem extract_eq (build : Build) (b : Bytes) {limit : Nat} (hlimit : 8 * limit < 2 ^ 63) :
    extract build b limit = .ok (@extractWasm throughCap b limit) := by
  have hsmall : limit < 2 ^ 63 := by omega
  have hproduct : -2 ^ 63 ≤ 8 * (limit : Int) ∧ 8 * (limit : Int) < 2 ^ 63 := by omega
  have hopened : cappedReader build b limit =
      .ok { r := layerReader b, left := 8 * (limit : Int) } := by
    simp only [cappedReader, mulI64, asI64, if_pos hsmall, if_pos hproduct]
  have hleft : (8 * (limit : Int)).toNat = 8 * limit := by omega
  have hdelivery : delivery ({ r := layerReader b, left := 8 * (limit : Int) } :
      CappedReader LayerReader) = (delivery (layerReader b)).capped (8 * limit) cappedError := by
    change (delivery (layerReader b)).capped (8 * (limit : Int)).toNat cappedError = _
    rw [hleft]
  have hroom : limit + 1 < usizeBound := by
    unfold usizeBound
    omega
  unfold extract extractWasm
  have hlisted : @TarLibrary.entries throughCap b limit =
      (TarReader.entries ((delivery (layerReader b)).capped (8 * limit) cappedError)).map
        fun items => items.map fun item => item.map (ArchiveEntry.through limit) := rfl
  rw [hopened, hlisted]
  dsimp only
  rw [hdelivery]
  cases TarReader.entries ((delivery (layerReader b)).capped (8 * limit) cappedError) with
  | error e => rfl
  | ok items => exact takeModule_through hroom items

/-- What an entry's whole content is to a reader with any limit. -/
def ArchiveEntry.whole (e : ArchiveEntry) : TarEntry where
  isFile := e.isFile
  name := e.name
  content := .ok e.content.bytes

omit [GzipLibrary] [TarReader] in
theorem StopsIn.readsThrough {held items : List (Except Text ArchiveEntry)} (limit : Nat)
    (h : StopsIn held items) :
    ReadsThrough limit (held.map fun item => item.map ArchiveEntry.whole)
      (items.map fun item => item.map (ArchiveEntry.through limit)) := by
  induction h with
  | done => exact .done
  | error => exact .stopped
  | @entry whole part held rest htitle hcontent _ ih =>
      refine .entry (congrArg EntryTitle.isFile htitle) (congrArg EntryTitle.name htitle) ?_ ih
      intro b hb
      refine ⟨whole.content.bytes, rfl, ?_⟩
      have hread : (part.content.limited (limit + 1)).readToEnd = .ok b := hb
      unfold Delivery.limited at hread
      split at hread
      · next hlong =>
          cases Delivery.readToEnd_ok.1 hread
          rcases hcontent with heq | ⟨-, ⟨rest, heq⟩⟩
          · rw [heq]
          · rw [← heq, List.take_append_of_le_length hlong]
      · next hshort =>
          have hwhole := hcontent.eq_of_ends (Delivery.readToEnd_ok.1 hread)
          rw [Delivery.readToEnd_ok.1 hread] at hshort
          rw [hwhole]
          exact (List.take_of_length_le (by dsimp only at hshort ⊢; omega)).symm

/-- Through every limit the same archive is listed. -/
theorem lawful_throughCap : @LawfulTar throughCap := by
  refine @LawfulTar.mk throughCap fun archive => ?_
  refine ⟨(held archive).map fun item => item.map ArchiveEntry.whole, fun limit items hitems => ?_⟩
  have hstops := (TarReader.stops (delivery (layerReader archive)) (8 * limit)
    cappedError).readsThrough limit
  have hlisted : (TarReader.entries ((delivery (layerReader archive)).capped (8 * limit)
      cappedError)).map (fun items => items.map fun item => item.map (ArchiveEntry.through limit)) =
        .ok items := hitems
  cases hentries : TarReader.entries ((delivery (layerReader archive)).capped (8 * limit)
      cappedError) with
  | error e =>
      rw [hentries] at hlisted
      cases hlisted
  | ok listed =>
      rw [hentries] at hlisted hstops
      cases hlisted
      exact hstops

end Through

/-! ## A hidden file -/

section Sample

/-- No layer is compressed. -/
@[reducible] def noGzip : GzipLibrary where
  Decoder := Bytes
  reader := inferInstance
  decoder b := b

/-- One archive, and one file in it, which is hidden. -/
@[reducible] def hiddenArchive : TarReader where
  entries d :=
    if d = ⟨[2], none⟩ then .ok [.ok ⟨⟨true, ".fn.wasm".toList⟩, ⟨[3], none⟩⟩]
    else .error "not an archive".toList
  nothing e entry rest := by simp [listing]
  stops d n e := by
    by_cases hcut : d.capped n e = ⟨[2], none⟩
    · have hwhole := (Delivery.capped_upto n e d).eq_of_ends hcut
      rw [if_pos hcut, if_pos hwhole]
      exact .entry rfl (.inl rfl) .done
    · rw [if_neg hcut]
      exact .error

attribute [local instance] noGzip hiddenArchive

/-- The hidden file is taken for the module. -/
theorem hidden_file_taken :
    extract ⟨true⟩ [2] 10 = .ok (.ok [3]) ∧ ¬ TakesModule [2] 10 [3] := by
  refine ⟨by decide +kernel, ?_⟩
  rintro ⟨before, e, -, hroot, -⟩
  have hheld : held [2] = [.ok ⟨⟨true, ".fn.wasm".toList⟩, ⟨[3], none⟩⟩] := by decide +kernel
  rw [hheld] at hroot
  rcases FirstOf.cons_iff.1 hroot with ⟨hx, -⟩ | ⟨-, before', -, ⟨after, hsplit⟩, -⟩
  · exact absurd hx (by decide +kernel)
  · cases before' <;> cases hsplit

end Sample

end FunctionWasm

import FunctionWasm.Foundation.Text
import FunctionWasm.Foundation.WebUrl

/-!
# Challenge — what a registry asks a client to authenticate with

A registry that wants a token answers with a challenge: the realm to ask for the token, the service
and the scope to name there, as parameters whose values are quoted.

* `tokenRequest` is how the client reads a challenge.
* `Challenge` is a challenge as the header's grammar has it, `Challenge.stated` what it asks for.
* `challenge_read_iff` says when the client asks for what is stated.
-/

namespace FunctionWasm

/-! ## Reading -/

/-- What the token endpoint is asked. -/
structure TokenRequest where
  realm : Text
  service : Text
  scope : Text
  deriving DecidableEq

def trimMatches (p : Char → Bool) (t : Text) : Text :=
  trimEnd p (trimStart p t)

def isQuote (c : Char) : Bool := c = '"'

/-- A part of a challenge, where it is one: a key and a value without the quotes around it. -/
def partField (part : Text) : Option (Text × Text) :=
  (splitOnce '=' (trim part)).map fun p => (p.1, trimMatches isQuote p.2)

/-- The parts are what is between commas. -/
def challengeFields (rest : Text) : List (Text × Text) :=
  (rest.splitOn ',').filterMap partField

/-- The value of the last part with a key: a map keeps what is put into it last. -/
def fieldOf (key : Text) (fields : List (Text × Text)) : Option Text :=
  fields.reverse.lookup key

def defaultScope (repository : Text) : Text :=
  "repository:".toList ++ repository ++ ":pull".toList

/-- What `bearer_token` asks for, in answer to a Bearer challenge with a realm. -/
def tokenRequest (repository challenge : Text) : Option TokenRequest :=
  match challenge.dropPrefix? "Bearer ".toList with
  | none => none
  | some rest =>
      let fields := challengeFields rest
      match fieldOf "realm".toList fields with
      | none => none
      | some realm =>
          some
            { realm := realm
              service := (fieldOf "service".toList fields).getD []
              scope := (fieldOf "scope".toList fields).getD (defaultScope repository) }

/-! ## Challenges -/

inductive Parameter where
  | realm
  | service
  | scope
  deriving DecidableEq

def Parameter.name : Parameter → Text
  | .realm => "realm".toList
  | .service => "service".toList
  | .scope => "scope".toList

/-- The characters of a value, with a backslash before the two that need one. -/
def escaped (v : Text) : Text :=
  v.flatMap fun c => if c = '"' ∨ c = '\\' then ['\\', c] else [c]

/-- A quoted string. -/
def quoted (v : Text) : Text :=
  '"' :: escaped v ++ ['"']

def assignment (p : Parameter × Text) : Text :=
  p.1.name ++ '=' :: quoted p.2

/-- The parameters one after the other, with commas between them and white space around these. -/
inductive Writes : List (Parameter × Text) → Text → Prop where
  | last {p before after} (hbefore : ∀ c ∈ before, isWhitespace c = true)
      (hafter : ∀ c ∈ after, isWhitespace c = true) : Writes [p] (before ++ assignment p ++ after)
  | more {p before after ps t} (hbefore : ∀ c ∈ before, isWhitespace c = true)
      (hafter : ∀ c ∈ after, isWhitespace c = true) (h : Writes ps t) :
      Writes (p :: ps) (before ++ assignment p ++ after ++ ',' :: t)

/-- A Bearer challenge: each parameter once at most, in any order, the realm among them. -/
structure Challenge where
  parameters : List (Parameter × Text)
  text : Text
  distinct : (parameters.map Prod.fst).Nodup
  hasRealm : Parameter.realm ∈ parameters.map Prod.fst
  writes : Writes parameters text

namespace Challenge

def header (c : Challenge) : Text :=
  "Bearer ".toList ++ c.text

def value (c : Challenge) (p : Parameter) : Option Text :=
  c.parameters.lookup p

/-- What is stated; the service and the scope may be left to the client. -/
def stated (c : Challenge) (repository : Text) : TokenRequest where
  realm := (c.value .realm).getD []
  service := (c.value .service).getD []
  scope := (c.value .scope).getD (defaultScope repository)

end Challenge

/-- A value without what separates parts and what is escaped. -/
def plainValue (v : Text) : Bool :=
  v.all fun c => c ≠ ',' && c ≠ '"' && c ≠ '\\'

/-! ## Quotes -/

theorem count_backslash_dropWhile (t : Text) :
    (t.dropWhile isQuote).count '\\' = t.count '\\' := by
  conv_rhs => rw [← List.takeWhile_append_dropWhile (p := isQuote) (l := t)]
  have hnone : (t.takeWhile isQuote).count '\\' = 0 := by
    refine List.count_eq_zero.2 fun hmem => ?_
    have hquote : isQuote '\\' = true := List.mem_takeWhile_imp hmem
    exact absurd hquote (by decide)
  rw [List.count_append, hnone, Nat.zero_add]

theorem count_backslash_trimMatches (t : Text) :
    (trimMatches isQuote t).count '\\' = t.count '\\' := by
  unfold trimMatches trimEnd trimStart
  rw [List.count_reverse, count_backslash_dropWhile, List.count_reverse, count_backslash_dropWhile]

theorem count_backslash_escaped (v : Text) :
    (escaped v).count '\\' = 2 * v.count '\\' + v.count '"' := by
  induction v with
  | nil => rfl
  | cons c v ih =>
      have hcons : escaped (c :: v) =
          (if c = '"' ∨ c = '\\' then ['\\', c] else [c]) ++ escaped v := rfl
      rw [hcons, List.count_append, ih]
      by_cases hquote : c = '"'
      · subst hquote
        simp
        omega
      · by_cases hback : c = '\\'
        · subst hback
          simp
          omega
        · simp [hquote, hback]

theorem escaped_eq_self {v : Text} (h : ∀ c ∈ v, c ≠ '"' ∧ c ≠ '\\') : escaped v = v := by
  induction v with
  | nil => rfl
  | cons c v ih =>
      have hc := h c (by simp)
      have hcons : escaped (c :: v) =
          (if c = '"' ∨ c = '\\' then ['\\', c] else [c]) ++ escaped v := rfl
      rw [hcons, ih fun d hd => h d (List.mem_cons_of_mem _ hd), if_neg (by tauto)]
      rfl

/-- Taking the quotes off gives the value back exactly where nothing in it was escaped. -/
theorem trimMatches_quoted_iff (v : Text) :
    trimMatches isQuote (quoted v) = v ↔ ∀ c ∈ v, c ≠ '"' ∧ c ≠ '\\' := by
  constructor
  · intro h
    have hcount := congrArg (List.count '\\') h
    rw [count_backslash_trimMatches] at hcount
    have hquoted : (quoted v).count '\\' = (escaped v).count '\\' := by
      simp [quoted]
    rw [hquoted, count_backslash_escaped] at hcount
    have hback : v.count '\\' = 0 := by omega
    have hquote : v.count '"' = 0 := by omega
    intro c hc
    refine ⟨?_, ?_⟩
    · rintro rfl
      exact List.count_eq_zero.1 hquote hc
    · rintro rfl
      exact List.count_eq_zero.1 hback hc
  · intro h
    have hnone : ∀ c ∈ v, isQuote c = false := fun c hc => by
      simp [isQuote, (h c hc).1]
    unfold quoted
    rw [escaped_eq_self h]
    unfold trimMatches trimEnd trimStart
    cases v with
    | nil => rfl
    | cons c v =>
        have hc : isQuote c = false := hnone c (by simp)
        have hquote : isQuote '"' = true := rfl
        have hdrop : ('"' :: (c :: v) ++ ['"']).dropWhile isQuote = c :: v ++ ['"'] := by
          simp [hc, hquote]
        rw [hdrop, List.reverse_append, List.reverse_singleton, List.singleton_append,
          List.dropWhile_cons_of_pos hquote]
        have hlast : ((c :: v).reverse).dropWhile isQuote = (c :: v).reverse := by
          refine List.dropWhile_eq_self_iff.2 fun hl => ?_
          have hmem : (c :: v).reverse[0] ∈ (c :: v).reverse := List.getElem_mem hl
          exact Bool.eq_false_iff.1 (hnone _ (List.mem_reverse.1 hmem))
        rw [hlast, List.reverse_reverse]

/-! ## Parts -/

theorem name_spec (p : Parameter) :
    (∃ c rest, p.name = c :: rest ∧ isWhitespace c = false) ∧ '=' ∉ p.name ∧ ',' ∉ p.name := by
  cases p
  · exact ⟨⟨'r', "ealm".toList, rfl, by decide⟩, by decide, by decide⟩
  · exact ⟨⟨'s', "ervice".toList, rfl, by decide⟩, by decide, by decide⟩
  · exact ⟨⟨'s', "cope".toList, rfl, by decide⟩, by decide, by decide⟩

theorem name_inj {p q : Parameter} (h : p.name = q.name) : p = q := by
  revert h
  cases p <;> cases q <;> decide

theorem trimEnd_all {p : Char → Bool} {t : Text} (h : ∀ c ∈ t, p c = true) :
    trimEnd p t = [] := by
  unfold trimEnd
  rw [List.dropWhile_eq_nil_iff.2 fun c hc => h c (List.mem_reverse.1 hc), List.reverse_nil]

/-- A part that begins with a key and an equals sign is a part with that key. -/
theorem partField_key {before : Text} (hbefore : ∀ c ∈ before, isWhitespace c = true)
    (p : Parameter) (rest : Text) :
    partField (before ++ (p.name ++ '=' :: rest)) =
      some (p.name, trimMatches isQuote (trimEnd isWhitespace rest)) := by
  rcases name_spec p with ⟨⟨c, name, hname, hc⟩, hequals, -⟩
  have hstart : trimStart isWhitespace (before ++ (p.name ++ '=' :: rest)) =
      p.name ++ '=' :: rest := by
    unfold trimStart
    rw [List.dropWhile_append_of_pos hbefore, hname, List.cons_append,
      List.dropWhile_cons_of_neg (by simp [hc])]
  unfold partField trim
  rw [hstart, Web.trimEnd_append (by decide) p.name rest, splitOnce_eq_some.2 ⟨rfl, hequals⟩]
  rfl

theorem partField_assignment {before after : Text}
    (hbefore : ∀ c ∈ before, isWhitespace c = true) (hafter : ∀ c ∈ after, isWhitespace c = true)
    (p : Parameter × Text) :
    partField (before ++ assignment p ++ after) =
      some (p.1.name, trimMatches isQuote (quoted p.2)) := by
  have hsplit : before ++ assignment p ++ after =
      before ++ (p.1.name ++ '=' :: (quoted p.2 ++ after)) := by
    simp [assignment]
  have hend : trimEnd isWhitespace (quoted p.2 ++ after) = quoted p.2 := by
    have hquote : quoted p.2 ++ after = ('"' :: escaped p.2) ++ '"' :: after := by
      simp [quoted]
    rw [hquote, Web.trimEnd_append (by decide), trimEnd_all hafter]
    rfl
  rw [hsplit, partField_key hbefore, hend]

theorem not_comma_of_whitespace {t : Text} (h : ∀ c ∈ t, isWhitespace c = true) : ',' ∉ t := by
  intro hmem
  exact absurd (h ',' hmem) (by decide)

theorem mem_quoted {c : Char} {v : Text} (h : c ∈ quoted v) : c = '"' ∨ c = '\\' ∨ c ∈ v := by
  unfold quoted escaped at h
  simp only [List.cons_append, List.mem_cons, List.mem_append, List.mem_flatMap,
    List.not_mem_nil, or_false] at h
  rcases h with rfl | ⟨d, hd, hc⟩ | rfl
  · exact .inl rfl
  · split at hc
    · simp only [List.mem_cons, List.not_mem_nil, or_false] at hc
      rcases hc with rfl | rfl
      · exact .inr (.inl rfl)
      · exact .inr (.inr hd)
    · rw [List.mem_singleton] at hc
      exact .inr (.inr (hc ▸ hd))
  · exact .inl rfl

/-- A parameter with no comma in its value is one part. -/
theorem not_comma_assignment {before after : Text}
    (hbefore : ∀ c ∈ before, isWhitespace c = true) (hafter : ∀ c ∈ after, isWhitespace c = true)
    {p : Parameter × Text} (h : ',' ∉ p.2) : ',' ∉ before ++ assignment p ++ after := by
  intro hmem
  simp only [assignment, List.mem_append, List.mem_cons] at hmem
  rcases hmem with (hmem | hmem | hmem | hmem) | hmem
  · exact not_comma_of_whitespace hbefore hmem
  · exact (name_spec p.1).2.2 hmem
  · exact absurd hmem (by decide)
  · rcases mem_quoted hmem with hquote | hback | hin
    · exact absurd hquote (by decide)
    · exact absurd hback (by decide)
    · exact h hin
  · exact not_comma_of_whitespace hafter hmem

/-- Without commas in the values the fields are the parameters, their quotes taken off. -/
theorem challengeFields_plain {ps : List (Parameter × Text)} {t : Text} (h : Writes ps t)
    (hcomma : ∀ p ∈ ps, ',' ∉ p.2) :
    challengeFields t = ps.map fun p => (p.1.name, trimMatches isQuote (quoted p.2)) := by
  induction h with
  | @last p before after hbefore hafter =>
      unfold challengeFields
      rw [List.splitOn_eq_singleton (not_comma_assignment hbefore hafter (hcomma p (by simp))),
        List.filterMap_cons_some (partField_assignment hbefore hafter p)]
      rfl
  | @more p before after ps t hbefore hafter h ih =>
      have hrest := ih fun q hq => hcomma q (List.mem_cons_of_mem _ hq)
      unfold challengeFields at hrest ⊢
      rw [List.splitOn_append_cons_self_of_not_mem
          (not_comma_assignment hbefore hafter (hcomma p (by simp))),
        List.filterMap_cons_some (partField_assignment hbefore hafter p), hrest]
      rfl

theorem splitOn_append_front {front : Text} (h : ',' ∉ front) (rest : Text) :
    (front ++ rest).splitOn ',' = (rest.splitOn ',').modifyHead (front ++ ·) := by
  induction front with
  | nil =>
      rcases List.exists_cons_of_ne_nil (List.splitOn_ne_nil ',' rest) with ⟨first, more, heq⟩
      simp [heq]
  | cons c front ih =>
      have hc : (c == ',') = false := by
        rw [beq_eq_false_iff_ne]
        rintro rfl
        exact h (by simp)
      rcases List.exists_cons_of_ne_nil (List.splitOn_ne_nil ',' rest) with ⟨first, more, heq⟩
      rw [List.cons_append, List.splitOn_cons_eq_if_modifyHead, if_neg (by simp [hc]),
        ih fun hmem => h (List.mem_cons_of_mem _ hmem), heq]
      rfl

/-- Every parameter leaves a field with its key, whatever its value is. -/
theorem field_of_mem {ps : List (Parameter × Text)} {t : Text} (h : Writes ps t)
    {p : Parameter × Text} (hp : p ∈ ps) : ∃ w, (p.1.name, w) ∈ challengeFields t := by
  have hhead : ∀ {before : Text} (q : Parameter × Text) (tail : Text),
      (∀ c ∈ before, isWhitespace c = true) →
        ∃ w, (q.1.name, w) ∈ challengeFields (before ++ (q.1.name ++ '=' :: tail)) := by
    intro before q tail hbefore
    have hfront : ',' ∉ before ++ (q.1.name ++ ['=']) := by
      simp only [List.mem_append, List.mem_singleton, not_or]
      exact ⟨not_comma_of_whitespace hbefore, (name_spec q.1).2.2, by decide⟩
    have hsplit : before ++ (q.1.name ++ '=' :: tail) = before ++ (q.1.name ++ ['=']) ++ tail := by
      simp
    rcases List.exists_cons_of_ne_nil (List.splitOn_ne_nil ',' tail) with ⟨first, more, heq⟩
    refine ⟨_, List.mem_filterMap.2 ⟨before ++ (q.1.name ++ '=' :: first), ?_,
      partField_key hbefore q.1 first⟩⟩
    rw [hsplit, splitOn_append_front hfront, heq]
    simp
  induction h with
  | @last q before after hbefore hafter =>
      rw [List.mem_singleton.1 hp]
      have hfield := hhead q (quoted q.2 ++ after) hbefore
      simpa [assignment] using hfield
  | @more q before after ps t hbefore hafter h ih =>
      rcases List.mem_cons.1 hp with rfl | hrest
      · have hfield := hhead p (quoted p.2 ++ after ++ ',' :: t) hbefore
        simpa [assignment] using hfield
      · rcases ih hrest with ⟨w, hw⟩
        refine ⟨w, ?_⟩
        unfold challengeFields at hw ⊢
        rw [List.splitOn_append_cons_self, List.filterMap_append]
        exact List.mem_append_right _ hw

theorem mem_of_mem_trimMatches {p : Char → Bool} {t : Text} {c : Char}
    (h : c ∈ trimMatches p t) : c ∈ t := by
  unfold trimMatches trimEnd trimStart at h
  have hinner := (List.dropWhile_sublist _).subset (List.mem_reverse.1 h)
  exact (List.dropWhile_sublist _).subset (List.mem_reverse.1 hinner)

/-- No field has a comma in its value. -/
theorem not_comma_of_field {t key w : Text} (h : (key, w) ∈ challengeFields t) : ',' ∉ w := by
  rcases List.mem_filterMap.1 h with ⟨part, hpart, hfield⟩
  rcases Option.map_eq_some_iff.1 hfield with ⟨⟨k, v⟩, hsplit, heq⟩
  cases heq
  intro hmem
  have hvalue : ',' ∈ trim part := by
    rw [(splitOnce_eq_some.1 hsplit).1]
    simp [mem_of_mem_trimMatches hmem]
  have htrim : trim part = trimMatches isWhitespace part := rfl
  exact (Web.mem_splitOn hpart (mem_of_mem_trimMatches (htrim ▸ hvalue))).2 rfl

/-! ## What is asked for -/

def TokenRequest.get (r : TokenRequest) : Parameter → Text
  | .realm => r.realm
  | .service => r.service
  | .scope => r.scope

theorem fieldOf_of_mem {key w : Text} {fields : List (Text × Text)} (h : (key, w) ∈ fields) :
    ∃ v, fieldOf key fields = some v ∧ (key, v) ∈ fields := by
  have hsome : (fieldOf key fields).isSome = true :=
    List.lookup_isSome_iff.2 ⟨(key, w), List.mem_reverse.2 h, by simp⟩
  rcases Option.isSome_iff_exists.1 hsome with ⟨v, hv⟩
  rcases List.lookup_eq_some_iff.1 hv with ⟨l₁, l₂, heq, -⟩
  refine ⟨v, hv, List.mem_reverse.1 ?_⟩
  rw [heq]
  simp

/-- With distinct keys it does not matter which one is put in last. -/
theorem fieldOf_map {ps : List (Parameter × Text)} (hdistinct : (ps.map Prod.fst).Nodup)
    (g : Text → Text) (p : Parameter) :
    fieldOf p.name (ps.map fun q => (q.1.name, g q.2)) = (ps.lookup p).map g := by
  unfold fieldOf
  induction ps with
  | nil => rfl
  | cons q ps ih =>
      rcases q with ⟨k, v⟩
      rw [List.map_cons, List.nodup_cons] at hdistinct
      rw [List.map_cons, List.reverse_cons, List.lookup_append, ih hdistinct.2, List.lookup_cons]
      by_cases hk : p = k
      · subst hk
        have hnone : ps.lookup p = none := by
          refine List.lookup_eq_none_iff.2 fun r hr => bne_iff_ne.2 ?_
          rintro heq
          exact hdistinct.1 (List.mem_map.2 ⟨r, hr, heq.symm⟩)
        simp [hnone]
      · have hname : (p.name == k.name) = false :=
          beq_eq_false_iff_ne.2 fun heq => hk (name_inj heq)
        have hkey : (p == k) = false := beq_eq_false_iff_ne.2 hk
        simp [List.lookup_cons, hname, hkey]

theorem value_eq_of_mem {c : Challenge} {p : Parameter × Text} (hp : p ∈ c.parameters) :
    c.value p.1 = some p.2 := by
  rcases List.append_of_mem hp with ⟨l₁, l₂, heq⟩
  refine List.lookup_eq_some_iff.2 ⟨l₁, l₂, heq, fun q hq => bne_iff_ne.2 ?_⟩
  intro hsame
  have hnodup := c.distinct
  rw [heq, List.map_append, List.map_cons] at hnodup
  exact (List.nodup_append.1 hnodup).2.2 q.1 (List.mem_map.2 ⟨q, hq, rfl⟩) p.1 (by simp) hsame.symm

theorem tokenRequest_header (c : Challenge) (repository : Text) :
    tokenRequest repository c.header =
      (fieldOf "realm".toList (challengeFields c.text)).map fun realm =>
        { realm := realm
          service := (fieldOf "service".toList (challengeFields c.text)).getD []
          scope := (fieldOf "scope".toList (challengeFields c.text)).getD
            (defaultScope repository) } := by
  unfold tokenRequest Challenge.header
  rw [dropPrefix?_eq_some.2 rfl]
  dsimp only
  cases fieldOf "realm".toList (challengeFields c.text) <;> rfl

/-- Where the client asks for what is stated, each field that it reads is the value stated. -/
theorem field_eq_of_read {c : Challenge} {repository : Text}
    (h : tokenRequest repository c.header = some (c.stated repository)) {p : Parameter × Text}
    (hp : p ∈ c.parameters) : fieldOf p.1.name (challengeFields c.text) = some p.2 := by
  rcases field_of_mem c.writes hp with ⟨w, hw⟩
  rcases fieldOf_of_mem hw with ⟨v, hv, -⟩
  have hvalue := value_eq_of_mem hp
  rw [tokenRequest_header] at h
  rcases Option.map_eq_some_iff.1 h with ⟨realm, hrealm, heq⟩
  have hget := congrArg (fun r => TokenRequest.get r p.1) heq
  rw [hv]
  rcases p with ⟨_ | _ | _, text⟩
  · have hsame : some realm = some v := hrealm.symm.trans hv
    simpa [TokenRequest.get, Challenge.stated, hvalue, Option.some.inj hsame] using hget
  · have hfield : fieldOf "service".toList (challengeFields c.text) = some v := hv
    dsimp only [TokenRequest.get, Challenge.stated] at hget hvalue
    rw [hfield, hvalue] at hget
    exact congrArg some hget
  · have hfield : fieldOf "scope".toList (challengeFields c.text) = some v := hv
    dsimp only [TokenRequest.get, Challenge.stated] at hget hvalue
    rw [hfield, hvalue] at hget
    exact congrArg some hget

/-- The client asks for the realm, the service and the scope that are stated exactly where no value
has a comma, a quote or a backslash in it. -/
theorem challenge_read_iff (repository : Text) (c : Challenge) :
    tokenRequest repository c.header = some (c.stated repository) ↔
      ∀ p ∈ c.parameters, plainValue p.2 = true := by
  constructor
  · intro h
    have hcomma : ∀ p ∈ c.parameters, ',' ∉ p.2 := by
      intro p hp
      rcases field_of_mem c.writes hp with ⟨w, hw⟩
      rcases fieldOf_of_mem hw with ⟨v, hv, hmem⟩
      -- the field that is read has no comma, so the value that is stated has none
      cases hv.symm.trans (field_eq_of_read h hp)
      exact not_comma_of_field hmem
    intro p hp
    have hfield := field_eq_of_read h hp
    rw [challengeFields_plain c.writes hcomma,
      fieldOf_map c.distinct (fun v => trimMatches isQuote (quoted v)), ← Challenge.value,
      value_eq_of_mem hp] at hfield
    have hplain := (trimMatches_quoted_iff p.2).1 (Option.some.inj hfield)
    refine List.all_eq_true.2 fun x hx => ?_
    have hne : x ≠ ',' := fun heq => hcomma p hp (heq ▸ hx)
    simp [hne, (hplain x hx).1, (hplain x hx).2]
  · intro h
    have hplain : ∀ p ∈ c.parameters, ∀ x ∈ p.2, x ≠ ',' ∧ x ≠ '"' ∧ x ≠ '\\' := by
      intro p hp x hx
      have hx := List.all_eq_true.1 (h p hp) x hx
      simpa [and_assoc] using hx
    have hfields : challengeFields c.text = c.parameters.map fun p => (p.1.name, id p.2) := by
      rw [challengeFields_plain c.writes fun p hp hmem => (hplain p hp ',' hmem).1 rfl]
      refine List.map_congr_left fun p hp => ?_
      rw [(trimMatches_quoted_iff p.2).2 fun x hx => (hplain p hp x hx).2]
      rfl
    have hfield : ∀ p : Parameter, fieldOf p.name (challengeFields c.text) = c.value p := by
      intro p
      rw [hfields, fieldOf_map c.distinct, Option.map_id]
      rfl
    rcases List.mem_map.1 c.hasRealm with ⟨p, hp, hrealm⟩
    have hvalue : c.value .realm = some p.2 := hrealm ▸ value_eq_of_mem hp
    have hread : fieldOf "realm".toList (challengeFields c.text) = some p.2 :=
      (hfield .realm).trans hvalue
    rw [tokenRequest_header, hread]
    simp only [Option.map_some, Challenge.stated, hvalue, Option.getD_some]
    rw [← hfield .service, ← hfield .scope]
    rfl

/-- Parameters with nothing but a comma between them. -/
theorem writes_cons {p : Parameter × Text} {ps : List (Parameter × Text)} {t : Text}
    (h : Writes ps t) : Writes (p :: ps) (assignment p ++ ',' :: t) := by
  have hmore := @Writes.more p [] [] ps t (by simp) (by simp) h
  simpa using hmore

theorem writes_one (p : Parameter × Text) : Writes [p] (assignment p) := by
  have hlast := @Writes.last p [] [] (by simp) (by simp)
  simpa using hlast

/-- A scope of two actions. -/
def pushChallenge : Challenge where
  parameters :=
    [(.realm, "https://r.io/token".toList), (.service, "r.io".toList),
      (.scope, "repository:x:pull,push".toList)]
  text := ("realm=\"https://r.io/token\",service=\"r.io\"," ++
    "scope=\"repository:x:pull,push\"").toList
  distinct := by decide
  hasRealm := by decide
  writes := by
    have htext : ("realm=\"https://r.io/token\",service=\"r.io\"," ++
        "scope=\"repository:x:pull,push\"").toList =
        assignment (.realm, "https://r.io/token".toList) ++ ',' ::
          (assignment (.service, "r.io".toList) ++ ',' ::
            assignment (.scope, "repository:x:pull,push".toList)) := by
      decide
    exact htext ▸ writes_cons (writes_cons (writes_one _))

/-- The token is bought without the right to push. -/
theorem scope_cut :
    tokenRequest "x".toList pushChallenge.header =
        some ⟨"https://r.io/token".toList, "r.io".toList, "repository:x:pull".toList⟩ ∧
      pushChallenge.stated "x".toList =
        ⟨"https://r.io/token".toList, "r.io".toList, "repository:x:pull,push".toList⟩ ∧
      tokenRequest "x".toList pushChallenge.header ≠ some (pushChallenge.stated "x".toList) := by
  -- the last part, what is left of the scope, has no key
  have hfields : challengeFields pushChallenge.text =
      [("realm".toList, "https://r.io/token".toList), ("service".toList, "r.io".toList),
        ("scope".toList, "repository:x:pull".toList)] := by decide +kernel
  have hasked : tokenRequest "x".toList pushChallenge.header =
      some ⟨"https://r.io/token".toList, "r.io".toList, "repository:x:pull".toList⟩ := by
    rw [tokenRequest_header, hfields]
    rfl
  refine ⟨hasked, rfl, ?_⟩
  rw [hasked]
  decide

end FunctionWasm

import FunctionWasm.Wire.Withhold

/-!
# Noninterference — a withheld credential leaves no trace in the guest's bytes

The names withheld are read off the decoded request, the entries removed off the raw bytes.  An
entry that decodes to a withheld name is never kept, so what the guest sees does not depend on what
such an entry holds.

* `credentials_of_fold` reads the decoded credentials off the items.
* `decode_kept` decodes what the surgery keeps.
* `withholding_noninterference` is the property of the bytes handed to the engine.
-/

namespace FunctionWasm

open Protobuf ProtoWire

variable {P : Prost}

/-! ## Decoded credentials -/

/-- An item of another field is merged the same way whatever the credentials are. -/
theorem RunFunctionRequest.mergeField_other {q q' : RunFunctionRequest P} {r : Record}
    (hfield : r.key.field ≠ credentialsField) (h : q.mergeField r = some q') :
    q'.credentials = q.credentials ∧
      ∀ m, ({ q with credentials := m } : RunFunctionRequest P).mergeField r =
        some { q' with credentials := m } := by
  unfold mergeField at h
  split at h
  case h_7 h7 => exact absurd h7 hfield
  case h_10 =>
    cases h
    exact ⟨rfl, fun m => by simp only [mergeField]⟩
  all_goals
    rename_i hnumber
    rcases Option.map_eq_some_iff.1 h with ⟨v, hv, rfl⟩
    exact ⟨rfl, fun m => by simp [mergeField, hnumber, hv]⟩

theorem RunFunctionRequest.mergeField_entry {q q' : RunFunctionRequest P} {r : Record}
    (hfield : r.key.field = credentialsField) (h : q.mergeField r = some q') :
    ∃ e, (P.codec .credentials).entry P.entryDepth r = some e ∧
      q' = { q with credentials := q.credentials.insert e.1 e.2 } := by
  rw [mergeField_credentials hfield] at h
  rcases Option.map_eq_some_iff.1 h with ⟨e, he, rfl⟩
  exact ⟨e, he, rfl⟩

/-- The names decoded are those there before and the keys of the entries among the items. -/
theorem credentials_of_fold :
    ∀ {rs : List Record} {q q' : RunFunctionRequest P},
      rs.foldlM RunFunctionRequest.mergeField q = some q' → ∀ name,
        name ∈ q'.credentials ↔ name ∈ q.credentials ∨
          ∃ r ∈ rs, r.key.field = credentialsField ∧
            ∃ e, (P.codec .credentials).entry P.entryDepth r = some e ∧ e.1 = name := by
  intro rs
  induction rs with
  | nil =>
      intro q q' h name
      have hEq : q = q' := by simpa using h
      simp [hEq]
  | cons r rs ih =>
      intro q q' h name
      rw [List.foldlM_cons] at h
      rcases Option.bind_eq_some_iff.1 h with ⟨q1, hq1, htail⟩
      rw [ih htail name, List.exists_mem_cons_iff]
      -- only an entry of the credentials adds a name
      by_cases hfield : r.key.field = credentialsField
      · rcases RunFunctionRequest.mergeField_entry hfield hq1 with ⟨e, he, rfl⟩
        rw [AList.mem_insert]
        constructor
        · rintro ((rfl | hmem) | hrest)
          · exact Or.inr (Or.inl ⟨hfield, e, he, rfl⟩)
          · exact Or.inl hmem
          · exact Or.inr (Or.inr hrest)
        · rintro (hmem | ⟨_, e', he', rfl⟩ | hrest)
          · exact Or.inl (Or.inr hmem)
          · rw [he] at he'
            cases he'
            exact Or.inl (Or.inl rfl)
          · exact Or.inr hrest
      · rw [(RunFunctionRequest.mergeField_other hfield hq1).1]
        constructor
        · rintro (hmem | hrest)
          · exact Or.inl hmem
          · exact Or.inr (Or.inr hrest)
        · rintro (hmem | ⟨hcred, _⟩ | hrest)
          · exact Or.inl hmem
          · exact absurd hcred hfield
          · exact Or.inr hrest

/-! ## The judged key is the decoded key -/

/-- An entry the surgery keeps decodes to a forwarded name. -/
theorem forward_of_kept {forward : Text → Bool} {r : Record} {e : Text × P.Value .credentials}
    (hkept : kept P.entryDepth forward r = true) (hfield : r.key.field = credentialsField)
    (he : (P.codec .credentials).entry P.entryDepth r = some e) : forward e.1 = true := by
  have hany : (readableKey P.entryDepth r).any forward = true := by
    simpa [kept, hfield] using hkept
  rcases Codec.entry_some he with ⟨hwire, rs, hrs, hfold⟩
  have hkey : e.1 = (entryKey rs).getD [] := Codec.entry_key rfl hfold
  have hreadable : readableKey P.entryDepth r = if groupless rs then entryKey rs else none := by
    simp only [readableKey, hwire, if_true, hrs]
  rw [hreadable] at hany
  by_cases hless : groupless rs
  · rw [if_pos hless] at hany
    cases hentry : entryKey rs with
    | none => simp [hentry] at hany
    | some key => simpa [hkey, hentry] using hany
  · simp [hless] at hany

theorem not_kept_of_withheld {forward : Text → Bool} {r : Record}
    (h : withheldEntry P forward r = true) : kept P.entryDepth forward r = false := by
  simp only [withheldEntry, Bool.and_eq_true, decide_eq_true_eq] at h
  rcases h with ⟨hfield, hany⟩
  cases he : (P.codec .credentials).entry P.entryDepth r with
  | none => simp [he] at hany
  | some e =>
      by_contra hnot
      have hkept : kept P.entryDepth forward r = true := by simpa using hnot
      have hforward : forward e.1 = true := forward_of_kept hkept hfield he
      simp [he, hforward] at hany

/-- A decoded name is withheld exactly when a withheld entry stands among the items. -/
theorem withheld_iff {forward : Text → Bool} {rs : List Record} {req : RunFunctionRequest P}
    (hfold : rs.foldlM RunFunctionRequest.mergeField (RunFunctionRequest.empty P) = some req) :
    (∃ name ∈ req.credentials, forward name = false) ↔
      rs.any (withheldEntry P forward) = true := by
  rw [List.any_eq_true]
  constructor
  · rintro ⟨name, hmem, hforward⟩
    rcases (credentials_of_fold hfold name).1 hmem with hempty | ⟨r, hr, hfield, e, he, rfl⟩
    · exact absurd hempty (AList.notMem_empty name)
    · exact ⟨r, hr, by simp [withheldEntry, hfield, he, hforward]⟩
  · rintro ⟨r, hr, hwithheld⟩
    simp only [withheldEntry, Bool.and_eq_true, decide_eq_true_eq] at hwithheld
    rcases hwithheld with ⟨hfield, hany⟩
    cases he : (P.codec .credentials).entry P.entryDepth r with
    | none => simp [he] at hany
    | some e =>
        have hforward : forward e.1 = false := by simpa [he] using hany
        exact ⟨e.1, (credentials_of_fold hfold e.1).2 (Or.inr ⟨r, hr, hfield, e, he, rfl⟩), hforward⟩

/-! ## Decoding what the surgery keeps -/

/-- The kept items decode to the same request but for its credentials. -/
theorem foldlM_kept (forward : Text → Bool) :
    ∀ {rs : List Record} {q q' : RunFunctionRequest P} (m : P.MapOf .credentials),
      rs.foldlM RunFunctionRequest.mergeField q = some q' →
        ∃ m', (rs.filter (kept P.entryDepth forward)).foldlM RunFunctionRequest.mergeField
          { q with credentials := m } = some { q' with credentials := m' } := by
  intro rs
  induction rs with
  | nil =>
      intro q q' m h
      have hEq : q = q' := by simpa using h
      exact ⟨m, by simp [hEq]⟩
  | cons r rs ih =>
      intro q q' m h
      rw [List.foldlM_cons] at h
      rcases Option.bind_eq_some_iff.1 h with ⟨q1, hq1, htail⟩
      by_cases hfield : r.key.field = credentialsField
      · rcases RunFunctionRequest.mergeField_entry hfield hq1 with ⟨e, he, rfl⟩
        cases hkept : kept P.entryDepth forward r with
        | false =>
            rw [List.filter_cons_of_neg (by simp [hkept])]
            simpa using ih m htail
        | true =>
            rw [List.filter_cons_of_pos hkept, List.foldlM_cons,
              RunFunctionRequest.mergeField_credentials hfield, he]
            simpa using ih (m.insert e.1 e.2) htail
      · have hkept : kept P.entryDepth forward r = true := by simp [kept, hfield]
        rw [List.filter_cons_of_pos hkept, List.foldlM_cons,
          (RunFunctionRequest.mergeField_other hfield hq1).2 m]
        simpa using ih m htail

/-- What the surgery keeps decodes to the caller's request with forwarded credentials only. -/
theorem decode_kept (forward : Text → Bool) {raw : Bytes} {rs : List Record}
    {req : RunFunctionRequest P} (hrs : records P.depth raw = some rs)
    (hfold : rs.foldlM RunFunctionRequest.mergeField (RunFunctionRequest.empty P) = some req) :
    ∃ m, RunFunctionRequest.decode P
        ((rs.filter (kept P.entryDepth forward)).flatMap Record.bytes) =
          some { req with credentials := m } ∧ ∀ name ∈ m, forward name = true := by
  have hwf : ∀ r ∈ rs.filter (kept P.entryDepth forward), r.WF P.depth := by
    intro r hr
    exact (records_eq_some_iff.1 hrs).2 r (List.mem_of_mem_filter hr)
  rcases foldlM_kept forward ∅ hfold with ⟨m, hm⟩
  refine ⟨m, RunFunctionRequest.decode_eq_some.2 ⟨_, records_flatMap hwf, hm⟩, ?_⟩
  intro name hname
  rcases (credentials_of_fold hm name).1 hname with hempty | ⟨r, hr, hfield, e, he, rfl⟩
  · exact absurd hempty (AList.notMem_empty name)
  · exact forward_of_kept (List.of_mem_filter hr) hfield he

/-! ## The bytes handed to the engine -/

theorem withheld_isEmpty {req : RunFunctionRequest P} {forward : Text → Bool} :
    (req.credentials.keys.filter fun name => !forward name).isEmpty = true ↔
      ∀ name ∈ req.credentials, forward name = true := by
  rw [List.isEmpty_iff, List.filter_eq_nil_iff]
  constructor
  · intro h name hmem
    simpa using h name (AList.mem_keys.2 hmem)
  · intro h name hmem
    simp [h name (AList.mem_keys.1 hmem)]

/-- Withheld entries set aside, the kept items and the groups are the same. -/
theorem groupless_filter (P : Prost) (forward : Text → Bool) {rs : List Record} :
    groupless rs ↔ groupless (rs.filter fun r => !withheldEntry P forward r) := by
  constructor
  · intro h r hr
    exact h r (List.mem_of_mem_filter hr)
  · intro h r hr hgroup
    by_cases hwithheld : withheldEntry P forward r = true
    · simp only [withheldEntry, Bool.and_eq_true] at hwithheld
      cases he : (P.codec .credentials).entry P.entryDepth r with
      | none => simp [he] at hwithheld
      | some e =>
          rw [(Codec.entry_some he).1] at hgroup
          cases hgroup
    · exact h r (List.mem_filter.2 ⟨hr, by simpa using hwithheld⟩) hgroup

theorem filter_kept {forward : Text → Bool} {rs : List Record} :
    (rs.filter fun r => !withheldEntry P forward r).filter (kept P.entryDepth forward) =
      rs.filter (kept P.entryDepth forward) := by
  rw [List.filter_filter]
  refine List.filter_congr ?_
  intro r _
  cases hwithheld : withheldEntry P forward r with
  | false => simp
  | true => simp [not_kept_of_withheld hwithheld]

/-- The withholding of a request that decodes: the caller's own bytes where no decoded credential is
withheld, else the kept items, or nothing where the surgery gives up. -/
theorem guestBytes_of_decode (b : Build) (pull : Text) (granted : Finset Text) (raw : Buffer)
    {rs : List Record} {req : RunFunctionRequest P} (hrs : records P.depth raw.bytes = some rs)
    (hfold : rs.foldlM RunFunctionRequest.mergeField (RunFunctionRequest.empty P) = some req) :
    guestBytes b pull granted req raw.bytes =
      .ok (if rs.any (withheldEntry P (forwards pull granted)) = true then
        if groupless rs then
          .ok ((rs.filter (kept P.entryDepth (forwards pull granted))).flatMap Record.bytes)
        else .error cannotWithhold
      else .ok raw.bytes) := by
  have hretain := retainCredentials_of_decode b (forwards pull granted) raw hrs hfold
  unfold guestBytes
  by_cases hany : rs.any (withheldEntry P (forwards pull granted)) = true
  · rcases (withheld_iff hfold).2 hany with ⟨name, hmem, hforward⟩
    have hsome : ¬ (req.credentials.keys.filter
        fun name => !forwards pull granted name).isEmpty = true := by
      intro hempty
      rw [withheld_isEmpty.1 hempty name hmem] at hforward
      cases hforward
    simp only [hsome, hany, if_true, hretain]
    by_cases hless : groupless rs <;> simp [hless]
  · have hempty : (req.credentials.keys.filter
        fun name => !forwards pull granted name).isEmpty = true := by
      refine withheld_isEmpty.2 ?_
      intro name hmem
      by_contra hnot
      exact hany ((withheld_iff hfold).1 ⟨name, hmem, Bool.eq_false_iff.2 hnot⟩)
    simp only [hempty, if_true, hany]
    rfl

/-- Credentials `pull` and `cmdb`, both without a value. -/
def pullAndCmdb : Buffer where
  bytes := [0x3a, 0x06, 0x0a, 0x04, 0x70, 0x75, 0x6c, 0x6c,
    0x3a, 0x06, 0x0a, 0x04, 0x63, 0x6d, 0x64, 0x62]
  fits := by decide

end FunctionWasm

import Mathlib.Data.Finset.Basic
import FunctionWasm.Wire.Proto
import FunctionWasm.Wire.Scan

/-!
# Withhold — what of a request reaches the guest

A module receives the caller's request with every step credential it was not granted removed, the
pull credential always.  The names that are withheld are judged on the decoded request, the entries
are cut out of the raw bytes: the two have to agree on what is an entry and on which key it has.

* `guestBytes` is the withholding of `handle_raw`.
* `mapEntryKey_of_entry` is the agreement on keys, `retainCredentials_of_decode` says exactly which
  bytes the surgery keeps.
-/

namespace FunctionWasm

open Protobuf ProtoWire

/-! ## The decision -/

/-- Whether a credential goes to the guest: granted, and not the pull credential. -/
def forwards (pullCredential : Text) (granted : Finset Text) (name : Text) : Bool :=
  decide (name ≠ pullCredential) && decide (name ∈ granted)

theorem forwards_iff {pull : Text} {granted : Finset Text} {name : Text} :
    forwards pull granted name = true ↔ name ≠ pull ∧ name ∈ granted := by
  simp [forwards]

def cannotWithhold : Text :=
  ("internal error while running the module: cannot withhold the step credentials it was not " ++
    "granted: the request does not parse as protobuf").toList

/-- The request bytes the engine is given, or the reason of the fatal result that runs nothing. -/
def guestBytes {P : Prost} (b : Build) (pullCredential : Text) (granted : Finset Text)
    (req : RunFunctionRequest P) (raw : Bytes) : Checked (Except Text Bytes) :=
  let forward := forwards pullCredential granted
  let withheld := req.credentials.keys.filter fun name => !forward name
  if withheld.isEmpty then .ok (.ok raw)
  else
    match retainCredentials b raw forward with
    | .error f => .error f
    | .ok (some bytes) => .ok (.ok bytes)
    | .ok none => .ok (.error cannotWithhold)

/-! ## Items as the decoder sees them -/

/-- The last key of a map entry, where the entry can be read without meeting a group. -/
def readableKey (entryDepth : Nat) (r : Record) : Option Text :=
  if r.key.wire = .len then
    match records entryDepth r.payload with
    | some rs => if groupless rs then entryKey rs else none
    | none => none
  else
    none

/-- The items the surgery keeps: those of other fields, and the entries whose key it can read and
forwards. -/
def kept (entryDepth : Nat) (forward : Text → Bool) (r : Record) : Bool :=
  decide (r.key.field ≠ credentialsField) || (readableKey entryDepth r).any forward

/-- The credential an item decodes to is not forwarded. -/
def withheldEntry (P : Prost) (forward : Text → Bool) (r : Record) : Bool :=
  decide (r.key.field = credentialsField) &&
    ((P.codec .credentials).entry P.entryDepth r).any fun e => !forward e.1

/-- The same items in the same order once the withheld entries are set aside, with such an entry on
both sides or on neither. -/
def DifferOnlyInWithheld (P : Prost) (forward : Text → Bool) (raw raw' : Bytes) : Prop :=
  ∃ rs rs', records P.depth raw = some rs ∧ records P.depth raw' = some rs' ∧
    rs.filter (fun r => !withheldEntry P forward r) =
      rs'.filter (fun r => !withheldEntry P forward r) ∧
    rs.any (withheldEntry P forward) = rs'.any (withheldEntry P forward)

/-! ## The key of an entry -/

theorem mapEntryKeyLoop_of_records {b : Build} {depth : Nat} :
    ∀ {rs : List Record} {pre : Bytes} {fuel : Nat} {key : Option Text},
      (∀ r ∈ rs, r.WF depth) → (∀ r ∈ rs, statesKey r → (utf8? r.payload).isSome) →
        (pre ++ rs.flatMap Record.bytes).length < 2 ^ 63 →
          (rs.flatMap Record.bytes).length ≤ fuel →
            mapEntryKeyLoop b (pre ++ rs.flatMap Record.bytes) fuel pre.length key =
              .ok (if groupless rs then rs.foldl keyAfter key else none) := by
  intro rs
  -- on the records of the entry; the last key that is stated is the key
  induction rs with
  | nil =>
      intro pre fuel key _ _ _ _
      cases fuel <;> simp [mapEntryKeyLoop]
  | cons r rs ih =>
      intro pre fuel key hwf hkeys hfits hfuel
      have hr : r.WF depth := hwf r (List.mem_cons_self ..)
      rcases scan_head hr hfits hfuel with ⟨hmore, hfits', fuel, rfl, hshort⟩
      have hflat : pre ++ (r :: rs).flatMap Record.bytes =
          pre ++ r.bytes ++ rs.flatMap Record.bytes := by simp
      rcases scan_item (b := b) hr pre (rs.flatMap Record.bytes) hfits'
        with ⟨hkey, hskip⟩
      rw [hflat]
      simp only [mapEntryKeyLoop, hmore, if_false, hkey, key_wire, hskip, key_field]
      -- a group stops the scan without a key
      by_cases hgroup : r.key.wire = .sgroup
      · simp [hgroup]
      · have hrec : ∀ key', mapEntryKeyLoop b (pre ++ r.bytes ++ rs.flatMap Record.bytes) fuel
            (pre.length + r.bytes.length) key' =
              .ok (if groupless rs then rs.foldl keyAfter key' else none) := by
          intro key'
          have hlen : pre.length + r.bytes.length = (pre ++ r.bytes).length := by simp
          rw [hlen]
          exact ih (fun r' hr' => hwf r' (List.mem_cons_of_mem _ hr'))
            (fun r' hr' => hkeys r' (List.mem_cons_of_mem _ hr'))
            hfits' hshort
        simp only [hgroup, if_false, List.foldl_cons, groupless_cons, ne_eq, not_false_iff, true_and]
        by_cases hs : statesKey r
        · rcases Option.isSome_iff_exists.1 (hkeys r (List.mem_cons_self ..) hs) with ⟨k, hk⟩
          rcases scan_payload hr hs.2 pre (rs.flatMap Record.bytes) with ⟨len, n, hlen, hcut⟩
          have hcond : r.key.field = mapKeyField ∧ r.key.wire.toNat = 2 := by
            refine ⟨hs.1, ?_⟩
            rw [hs.2]
            rfl
          simp only [hcond, and_self, if_true, hlen, hcut, hk, keyAfter, hs, hrec]
        · -- a field of another number or wire type states no key
          have hcond : ¬ (r.key.field = mapKeyField ∧ r.key.wire.toNat = 2) := by
            rintro ⟨h1, h2⟩
            refine hs ⟨h1, ?_⟩
            cases hw : r.key.wire <;> simp [hw, WireType.toNat] at h2 ⊢
          simp only [hcond, if_false, keyAfter, hs, hrec]

/-- The scanner reads the key of a decodable entry off its payload, unless the entry holds a
group. -/
theorem mapEntryKey_of_entry {P : Prost} {b : Build} {r : Record}
    {e : Text × P.Value .credentials} (he : (P.codec .credentials).entry P.entryDepth r = some e)
    (hfits : r.payload.length < 2 ^ 63) :
    mapEntryKey b r.payload = .ok (readableKey P.entryDepth r) := by
  rcases Codec.entry_some he with ⟨hwire, rs, hrs, hfold⟩
  rcases records_eq_some_iff.1 hrs with ⟨hpayload, hwf⟩
  have hkeys : ∀ r' ∈ rs, statesKey r' → (utf8? r'.payload).isSome := by
    intro r' hr' hs
    rcases foldlM_step_at hfold r' hr' with ⟨e1, e2, hstep⟩
    rw [(Codec.entryField_key hstep).1 hs]
    rfl
  have hloop : mapEntryKeyLoop b ([] ++ rs.flatMap Record.bytes)
      (rs.flatMap Record.bytes).length ([] : Bytes).length none = _ :=
    mapEntryKeyLoop_of_records hwf hkeys (by simpa [← hpayload] using hfits) (Nat.le_refl _)
  simp only [List.nil_append, List.length_nil, ← hpayload] at hloop
  simp only [mapEntryKey, hloop, readableKey, hwire, if_true, hrs, entryKey]

/-! ## The surgery -/

/-- What the surgery decides about one item of the credentials field. -/
theorem credentialForwarded_of_wf {P : Prost} (b : Build) (forward : Text → Bool) {r : Record}
    {e : Text × P.Value .credentials} (h : r.WF P.depth)
    (he : (P.codec .credentials).entry P.entryDepth r = some e) (pre post : Bytes)
    (hfits : (pre ++ r.bytes ++ post).length < 2 ^ 63) :
    credentialForwarded b forward (pre ++ r.bytes ++ post) (pre.length + r.keyBytes.length)
      (pre.length + r.bytes.length) r.key.wire.toNat =
        .ok (some ((readableKey P.entryDepth r).any forward)) := by
  have hwire : r.key.wire = .len := (Codec.entry_some he).1
  rcases scan_payload h hwire pre post with ⟨len, n, hlen, hcut⟩
  have hpayload : r.payload.length < 2 ^ 63 := by
    rcases Record.WF.len_split h hwire with ⟨u, hvalue, _⟩
    simp only [List.length_append, Record.bytes, hvalue] at hfits
    omega
  have hkey : mapEntryKey b r.payload = .ok (readableKey P.entryDepth r) :=
    mapEntryKey_of_entry he hpayload
  have hnat : r.key.wire.toNat = 2 := by
    rw [hwire]
    rfl
  simp only [credentialForwarded, hnat, if_true, hlen, hcut, hkey]
  cases readableKey P.entryDepth r <;> rfl

theorem retainLoop_of_records {P : Prost} {b : Build} {forward : Text → Bool} :
    ∀ {rs : List Record} {pre out : Bytes} {fuel : Nat},
      (∀ r ∈ rs, r.WF P.depth) →
        (∀ r ∈ rs, r.key.field = credentialsField →
          ∃ e, (P.codec .credentials).entry P.entryDepth r = some e) →
          (pre ++ rs.flatMap Record.bytes).length < 2 ^ 63 →
            (rs.flatMap Record.bytes).length ≤ fuel →
              retainLoop b forward (pre ++ rs.flatMap Record.bytes) fuel pre.length out =
                .ok (if groupless rs then
                  some (out ++ (rs.filter (kept P.entryDepth forward)).flatMap Record.bytes)
                else none) := by
  intro rs
  -- on the records: before the loop stands what it has read, after it what it has kept
  induction rs with
  | nil =>
      intro pre out fuel _ _ _ _
      cases fuel <;> simp [retainLoop]
  | cons r rs ih =>
      intro pre out fuel hwf hentries hfits hfuel
      have hr : r.WF P.depth := hwf r (List.mem_cons_self ..)
      rcases scan_head hr hfits hfuel with ⟨hmore, hfits', fuel, rfl, hshort⟩
      have hflat : pre ++ (r :: rs).flatMap Record.bytes =
          pre ++ r.bytes ++ rs.flatMap Record.bytes := by simp
      -- both scanners end this item at the same byte
      rcases scan_item (b := b) hr pre (rs.flatMap Record.bytes) hfits' with ⟨hkey, hskip⟩
      have hrec : ∀ out', retainLoop b forward (pre ++ r.bytes ++ rs.flatMap Record.bytes) fuel
          (pre.length + r.bytes.length) out' =
            .ok (if groupless rs then
              some (out' ++ (rs.filter (kept P.entryDepth forward)).flatMap Record.bytes)
            else none) := by
        intro out'
        have hlen : pre.length + r.bytes.length = (pre ++ r.bytes).length := by simp
        rw [hlen]
        exact ih (fun r' hr' => hwf r' (List.mem_cons_of_mem _ hr'))
          (fun r' hr' => hentries r' (List.mem_cons_of_mem _ hr')) hfits' hshort
      have hitem : slice (pre ++ r.bytes ++ rs.flatMap Record.bytes) pre.length
          (pre.length + r.bytes.length) = .ok r.bytes :=
        slice_append pre r.bytes _ rfl rfl
      rw [hflat]
      simp only [retainLoop, hmore, if_false, hkey, key_wire, hskip, key_field]
      -- a group stops the edit
      by_cases hgroup : r.key.wire = .sgroup
      · simp [hgroup]
      · have hless : groupless (r :: rs) ↔ groupless rs := by simp [hgroup]
        simp only [hgroup, if_false, hless]
        by_cases hfield : r.key.field = credentialsField
        · rcases hentries r (List.mem_cons_self ..) hfield with ⟨e, he⟩
          simp only [hfield, if_true,
            credentialForwarded_of_wf b forward hr he pre _ hfits']
          -- an entry is kept if its key is read and forwarded
          cases hany : (readableKey P.entryDepth r).any forward with
          | false =>
              have hkept : kept P.entryDepth forward r = false := by
                simp [kept, hfield, hany]
              simp only [hrec, List.filter_cons, hkept]
              simp
          | true =>
              have hkept : kept P.entryDepth forward r = true := by
                simp [kept, hany]
              simp only [hitem, hrec, List.filter_cons, hkept, if_true, List.flatMap_cons]
              simp only [List.append_assoc]
        · have hkept : kept P.entryDepth forward r = true := by
            simp [kept, hfield]
          simp only [hfield, if_false, hitem, hrec, List.filter_cons, hkept, if_true,
            List.flatMap_cons]
          simp only [List.append_assoc]

/-- An item of the credentials field of a decodable request is a decodable entry. -/
theorem RunFunctionRequest.mergeField_credentials {P : Prost} {q : RunFunctionRequest P}
    {r : Record} (hfield : r.key.field = credentialsField) :
    q.mergeField r =
      ((P.codec .credentials).entry P.entryDepth r).map
        fun e => { q with credentials := q.credentials.insert e.1 e.2 } := by
  have h7 : r.key.field = 7 := hfield
  simp only [mergeField, h7, Codec.mapField, Option.map_map]
  rfl

/-- What the surgery makes of a request that decodes: nothing where a group stands among its items,
else the items it keeps, in order. -/
theorem retainCredentials_of_decode {P : Prost} (b : Build) (forward : Text → Bool) (raw : Buffer)
    {rs : List Record} {req : RunFunctionRequest P} (hrs : records P.depth raw.bytes = some rs)
    (hfold : rs.foldlM RunFunctionRequest.mergeField (RunFunctionRequest.empty P) = some req) :
    retainCredentials b raw.bytes forward =
      .ok (if groupless rs then
        some ((rs.filter (kept P.entryDepth forward)).flatMap Record.bytes)
      else none) := by
  rcases records_eq_some_iff.1 hrs with ⟨hraw, hwf⟩
  have hentries : ∀ r ∈ rs, r.key.field = credentialsField →
      ∃ e, (P.codec .credentials).entry P.entryDepth r = some e := by
    intro r hr hfield
    rcases foldlM_step_at hfold r hr with ⟨q1, q2, hstep⟩
    rw [RunFunctionRequest.mergeField_credentials hfield] at hstep
    rcases Option.map_eq_some_iff.1 hstep with ⟨e, he, _⟩
    exact ⟨e, he⟩
  have hfits : ([] ++ rs.flatMap Record.bytes).length < 2 ^ 63 := by
    simpa [← hraw] using raw.fits
  have hloop : retainLoop b forward ([] ++ rs.flatMap Record.bytes)
      (rs.flatMap Record.bytes).length ([] : Bytes).length [] = _ :=
    retainLoop_of_records hwf hentries hfits (Nat.le_refl _)
  simpa [retainCredentials, hraw] using hloop

end FunctionWasm

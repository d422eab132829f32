import Mathlib.Data.List.TakeWhile
import FunctionWasm.Wire.Withhold

/-!
# Noop — the response of a step that ran no module

The response is built from the request's own bytes: its desired state and context under the
response's field numbers, after a meta item.  The scan that collects them stops at the first thing
it cannot skip, and a group is one.

* `noopLoop_of_records` says which bytes are collected.
* `decode_carried` decodes them.
* `noopResponse_of_decode` is the response of a request that decodes.
* `noop_preserves_iff` says when the desired state and the context survive.
-/

namespace FunctionWasm

open Protobuf ProtoWire

variable {P : Prost}

/-! ## Writing -/

theorem pushVarintLoop_eq (v : Nat) : ∀ k : Nat, pushVarintLoop k v = writeGroups k v := by
  intro k
  induction k generalizing v with
  | zero => rfl
  | succ k ih =>
      have hlow : v &&& 0x7f = v % 128 := and_low_bits v
      have hshift : v >>> 7 = v / 128 := Nat.shiftRight_eq_div_pow v 7
      have hor : v % 128 ||| 0x80 = v % 128 + 128 := by
        have hadd : 2 ^ 7 * 1 + v % 128 = 2 ^ 7 * 1 ||| v % 128 :=
          Nat.two_pow_add_eq_or_of_lt (by omega) 1
        have hconst : v % 128 ||| 0x80 = 2 ^ 7 * 1 ||| v % 128 := Nat.or_comm _ _
        omega
      by_cases hlt : v < 128
      · have hzero : v / 128 = 0 := by omega
        have hmod : v % 128 = v := by omega
        simp only [pushVarintLoop, writeGroups, hlow, hshift, hzero, hmod, hlt, if_true]
      · have hzero : ¬ v / 128 = 0 := by omega
        simp only [pushVarintLoop, writeGroups, hlow, hshift, hzero, hor, hlt, if_false, ih]

theorem pushVarint_eq (v : Nat) : pushVarint v = writeVarint v :=
  pushVarintLoop_eq v 10

/-- A field number below sixteen and a wire type are one byte. -/
theorem readKey_singleton {k : Key} (hfield : 1 ≤ k.field) (hsmall : k.field < 16) :
    readKey.Exact k [UInt8.ofNat k.code] := by
  intro tail
  have hwire : k.wire.toNat < 8 := k.wire.toNat_lt
  have hcode : k.code < 128 := by
    simp only [Key.code]
    omega
  have hb : (UInt8.ofNat k.code).toNat = k.code := by
    rw [UInt8.toNat_ofNat']
    omega
  have hread : readVarint ([UInt8.ofNat k.code] ++ tail) =
      some (k.code, [UInt8.ofNat k.code], tail) := by
    refine readVarint_eq_some.2 ⟨?_, by omega⟩
    simp only [List.cons_append, List.nil_append, readGroups, hb, hcode, if_true]
  exact Reader.filterMap_eq_some.2 ⟨k.code, hread, Key.ofCode?_code hfield (by omega)⟩

/-! ## The items of the response -/

/-- The meta item. -/
def metaItem (rspMeta : Bytes) : Record where
  key := { field := metaField, wire := .len }
  keyBytes := [UInt8.ofNat (metaField <<< 3) ||| 2]
  value := pushVarint rspMeta.length ++ rspMeta
  payload := rspMeta

/-- The item of the response that an item of the request becomes. -/
def carriedItem (r : Record) : Option Record :=
  (retagged r.key.field r.key.wire.toNat).map fun field =>
    { key := { field := field, wire := .len }
      keyBytes := [UInt8.ofNat (field <<< 3) ||| 2]
      value := r.value
      payload := r.payload }

theorem metaItem_bytes (rspMeta : Bytes) : (metaItem rspMeta).bytes = appendMeta [] rspMeta := by
  simp [metaItem, Record.bytes, appendMeta]

theorem metaItem_wf {depth : Nat} {rspMeta : Bytes} (hlen : rspMeta.length < 2 ^ 64) :
    (metaItem rspMeta).WF depth := by
  refine ⟨readKey_singleton (k := { field := 1, wire := .len }) (by decide) (by decide), ?_⟩
  have hvalue : (metaItem rspMeta).value = writeVarint rspMeta.length ++ rspMeta := by
    simp [metaItem, pushVarint_eq]
  rw [hvalue]
  exact readLen_writeVarint hlen

theorem wire_toNat_eq_two {w : WireType} : w.toNat = 2 ↔ w = .len := by
  cases w <;> simp [WireType.toNat]

theorem retagged_some {field wire f : Nat} (h : retagged field wire = some f) :
    wire = 2 ∧ (field = requestDesiredField ∧ f = responseDesiredField ∨
      field = requestContextField ∧ f = responseContextField) := by
  unfold retagged at h
  split at h
  · rename_i hcond
    cases h
    exact ⟨hcond.2, Or.inl ⟨hcond.1, rfl⟩⟩
  · split at h
    · rename_i hcond
      cases h
      exact ⟨hcond.2, Or.inr ⟨hcond.1, rfl⟩⟩
    · cases h

theorem carriedItem_wf {depth : Nat} {r c : Record} (h : r.WF depth)
    (hc : carriedItem r = some c) : c.WF depth := by
  rcases Option.map_eq_some_iff.1 hc with ⟨field, hfield, rfl⟩
  rcases retagged_some hfield with ⟨hwire, hnumber⟩
  have hlen : r.key.wire = .len := wire_toNat_eq_two.1 hwire
  constructor
  · rcases hnumber with ⟨_, rfl⟩ | ⟨_, rfl⟩
    · exact readKey_singleton (k := { field := 2, wire := .len }) (by decide) (by decide)
    · exact readKey_singleton (k := { field := 4, wire := .len }) (by decide) (by decide)
  · have hvalue : readLen.Exact r.payload r.value := by
      simpa [readValue, hlen, readScalar] using h.value_exact
    exact hvalue

/-! ## The scan -/

/-- The items before the first group. -/
def beforeGroup (rs : List Record) : List Record :=
  rs.takeWhile fun r => r.key.wire ≠ .sgroup

theorem beforeGroup_of_groupless {rs : List Record} (h : groupless rs) : beforeGroup rs = rs := by
  refine List.takeWhile_eq_self_iff.2 ?_
  intro r hr
  simpa using h r hr

theorem noopLoop_of_records {b : Build} {depth : Nat} :
    ∀ {rs : List Record} {pre out : Bytes} {fuel : Nat},
      (∀ r ∈ rs, r.WF depth) → (pre ++ rs.flatMap Record.bytes).length < 2 ^ 63 →
        (rs.flatMap Record.bytes).length ≤ fuel →
          noopLoop b (pre ++ rs.flatMap Record.bytes) fuel pre.length out =
            .ok (out ++ ((beforeGroup rs).filterMap carriedItem).flatMap Record.bytes) := by
  intro rs
  -- on the records; what is carried over so far stands in `out`
  induction rs with
  | nil =>
      intro pre out fuel _ _ _
      cases fuel <;> simp [noopLoop, beforeGroup]
  | cons r rs ih =>
      intro pre out fuel hwf hfits hfuel
      have hr : r.WF depth := hwf r (List.mem_cons_self ..)
      rcases scan_head hr hfits hfuel with ⟨hmore, hfits', fuel, rfl, hshort⟩
      have hflat : pre ++ (r :: rs).flatMap Record.bytes =
          pre ++ r.bytes ++ rs.flatMap Record.bytes := by simp
      rcases scan_item (b := b) hr pre (rs.flatMap Record.bytes) hfits' with ⟨hkey, hskip⟩
      have hrec : ∀ out', noopLoop b (pre ++ r.bytes ++ rs.flatMap Record.bytes) fuel
          (pre.length + r.bytes.length) out' =
            .ok (out' ++ ((beforeGroup rs).filterMap carriedItem).flatMap Record.bytes) := by
        intro out'
        have hlen : pre.length + r.bytes.length = (pre ++ r.bytes).length := by simp
        rw [hlen]
        exact ih (fun r' hr' => hwf r' (List.mem_cons_of_mem _ hr')) hfits' hshort
      rw [hflat]
      simp only [noopLoop, hmore, if_false, hkey, key_wire, hskip, key_field]
      -- a group ends the copy, what is before it stays
      by_cases hgroup : r.key.wire = .sgroup
      · simp [hgroup, beforeGroup]
      · have hbefore : beforeGroup (r :: rs) = r :: beforeGroup rs := by
          simp [beforeGroup, hgroup]
        simp only [hgroup, if_false, hbefore]
        cases htag : retagged r.key.field r.key.wire.toNat with
        | none =>
            have hnone : carriedItem r = none := by simp [carriedItem, htag]
            simp only [hrec, List.filterMap_cons, hnone]
        | some field =>
            have hvalue : slice (pre ++ r.bytes ++ rs.flatMap Record.bytes)
                (pre.length + r.keyBytes.length) (pre.length + r.bytes.length) =
                  .ok r.value := by
              have hsplit : pre ++ r.bytes ++ rs.flatMap Record.bytes =
                  (pre ++ r.keyBytes) ++ r.value ++ rs.flatMap Record.bytes := by
                simp [Record.bytes]
              rw [hsplit]
              exact slice_append _ _ _ (by simp) (by simp [Record.bytes, Nat.add_assoc])
            simp only [hvalue, hrec, List.filterMap_cons]
            simp [carriedItem, htag, Record.bytes]

/-! ## Decoding the response -/

/-- One item: what it does to the request's desired state and context, the item it becomes does to
the response's. -/
theorem mergeField_carried {q q' : RunFunctionRequest P} {p : RunFunctionResponse P} {r : Record}
    (h : q.mergeField r = some q') (hdesired : p.desired = q.desired)
    (hcontext : p.context = q.context) :
    (∃ c, carriedItem r = some c ∧
        p.mergeField c = some { p with desired := q'.desired, context := q'.context }) ∨
      (carriedItem r = none ∧ q'.desired = q.desired ∧ q'.context = q.context) := by
  unfold RunFunctionRequest.mergeField at h
  split at h
  case h_3 hnumber =>
    rcases Option.map_eq_some_iff.1 h with ⟨v, hv, rfl⟩
    have hwire : r.key.wire = .len := Codec.field_some hv
    have htag : retagged r.key.field r.key.wire.toNat = some 2 := by
      simp [retagged, hnumber, hwire, WireType.toNat, requestDesiredField, responseDesiredField]
    refine Or.inl ⟨_, by simp only [carriedItem, htag]; rfl, ?_⟩
    simp only [Codec.field, hwire, if_true] at hv
    simp only [RunFunctionResponse.mergeField, Codec.field, if_true, hdesired, hv]
    simp [hcontext]
  case h_5 hnumber =>
    rcases Option.map_eq_some_iff.1 h with ⟨v, hv, rfl⟩
    have hwire : r.key.wire = .len := Codec.field_some hv
    have htag : retagged r.key.field r.key.wire.toNat = some 4 := by
      simp [retagged, hnumber, hwire, WireType.toNat, requestDesiredField, requestContextField,
        responseContextField]
    refine Or.inl ⟨_, by simp only [carriedItem, htag]; rfl, ?_⟩
    simp only [Codec.field, hwire, if_true] at hv
    simp only [RunFunctionResponse.mergeField, Codec.field, if_true, hcontext, hv]
    simp [hdesired]
  case h_10 =>
    rename_i h1 h2 h3 h4 h5 h6 h7 h8 h9
    cases h
    refine Or.inr ⟨?_, rfl, rfl⟩
    have hdesired' : r.key.field ≠ requestDesiredField := h3
    have hcontext' : r.key.field ≠ requestContextField := h5
    simp [carriedItem, retagged, hdesired', hcontext']
  all_goals
    rename_i hnumber
    rcases Option.map_eq_some_iff.1 h with ⟨v, _, rfl⟩
    refine Or.inr ⟨?_, rfl, rfl⟩
    simp [carriedItem, retagged, hnumber, requestDesiredField, requestContextField]

/-- The carried items rebuild the desired state and the context, and touch nothing else. -/
theorem foldlM_carried :
    ∀ {rs : List Record} {q q' : RunFunctionRequest P} {p : RunFunctionResponse P},
      rs.foldlM RunFunctionRequest.mergeField q = some q' → p.desired = q.desired →
        p.context = q.context →
          (rs.filterMap carriedItem).foldlM RunFunctionResponse.mergeField p =
            some { p with desired := q'.desired, context := q'.context } := by
  intro rs
  induction rs with
  | nil =>
      intro q q' p h hdesired hcontext
      have hEq : q = q' := by simpa using h
      simp [← hEq, ← hdesired, ← hcontext]
  | cons r rs ih =>
      intro q q' p h hdesired hcontext
      rw [List.foldlM_cons] at h
      rcases Option.bind_eq_some_iff.1 h with ⟨q1, hq1, htail⟩
      rcases mergeField_carried hq1 hdesired hcontext with ⟨c, hc, hstep⟩ | ⟨hnone, hd, hx⟩
      · rw [List.filterMap_cons_some hc, List.foldlM_cons, hstep]
        simpa using ih htail rfl rfl
      · rw [List.filterMap_cons_none hnone]
        exact ih htail (hdesired.trans hd.symm) (hcontext.trans hx.symm)

/-- The response as the decoder reads it: a given meta, a given desired state and context, and
nothing else. -/
def bareResponse (P : Prost) (rspMeta : P.Value .responseMeta)
    (desired : Option (P.Value .state)) (context : Option (P.Value .struct)) :
    RunFunctionResponse P :=
  { RunFunctionResponse.empty P with
    responseMeta := some rspMeta
    desired := desired
    context := context }

/-- The no-op response, whatever the request's items are: the meta item and the items that the
desired state and the context before the first group become. -/
theorem noopResponse_of_records (b : Build) {depth : Nat} (raw : Buffer) (rspMeta : Bytes)
    {rs : List Record} (hrs : records depth raw.bytes = some rs) :
    noopResponse b raw.bytes rspMeta =
      .ok ((metaItem rspMeta :: (beforeGroup rs).filterMap carriedItem).flatMap Record.bytes) := by
  rcases records_eq_some_iff.1 hrs with ⟨hraw, hwf⟩
  have hfits : ([] ++ rs.flatMap Record.bytes).length < 2 ^ 63 := by
    simpa [← hraw] using raw.fits
  have hloop : noopLoop b ([] ++ rs.flatMap Record.bytes) (rs.flatMap Record.bytes).length 0
      (appendMeta [] rspMeta) = _ :=
    noopLoop_of_records hwf hfits (Nat.le_refl _)
  simpa [noopResponse, hraw, metaItem_bytes] using hloop

/-- A response of meta and carried items decodes to what the carried items' own request decodes
to. -/
theorem decode_noop {rs : List Record} {q : RunFunctionRequest P} {m : P.Value .responseMeta}
    (rspMeta : Buffer) (hwf : ∀ r ∈ rs, r.WF P.depth)
    (hfold : rs.foldlM RunFunctionRequest.mergeField (RunFunctionRequest.empty P) = some q)
    (hmeta : (P.codec .responseMeta).decode rspMeta.bytes = some m) :
    RunFunctionResponse.decode P
        ((metaItem rspMeta.bytes :: rs.filterMap carriedItem).flatMap Record.bytes) =
      some (bareResponse P m q.desired q.context) := by
  have hwf' : ∀ r ∈ metaItem rspMeta.bytes :: rs.filterMap carriedItem, r.WF P.depth := by
    intro r hr
    rcases List.mem_cons.1 hr with rfl | hmem
    · exact metaItem_wf (Nat.lt_trans rspMeta.fits (by decide))
    · rcases List.mem_filterMap.1 hmem with ⟨r0, hr0, hcarried⟩
      exact carriedItem_wf (hwf r0 hr0) hcarried
  have hfirst : (RunFunctionResponse.empty P).mergeField (metaItem rspMeta.bytes) =
      some { RunFunctionResponse.empty P with responseMeta := some m } := by
    have hmerge : (P.codec .responseMeta).merge (P.codec .responseMeta).empty rspMeta.bytes =
        some m := hmeta
    simp [RunFunctionResponse.mergeField, metaItem, metaField, Codec.field,
      RunFunctionResponse.empty, hmerge]
  unfold RunFunctionResponse.decode
  rw [records_flatMap hwf']
  simp only [List.foldlM_cons, hfirst, Option.bind_eq_bind, Option.bind_some]
  exact foldlM_carried hfold rfl rfl

/-! ## When the desired state and the context survive -/

/-- The no-op answer to a request: a response that decodes to the given meta, the request's desired
state and context and nothing else, and that holds no byte of another item. -/
def NoopPreserves (P : Prost) (b : Build) (raw : Bytes) (rspMeta : Bytes)
    (req : RunFunctionRequest P) (m : P.Value .responseMeta) : Prop :=
  ∃ rs out, records P.depth raw = some rs ∧ noopResponse b raw rspMeta = .ok out ∧
    out = (metaItem rspMeta :: rs.filterMap carriedItem).flatMap Record.bytes ∧
    RunFunctionResponse.decode P out = some (bareResponse P m req.desired req.context)

def Retains (b : Build) (raw : Bytes) : Prop :=
  ∀ forward : Text → Bool, ∃ out, retainCredentials b raw forward = .ok (some out)

/-- No item of the message itself is a group. -/
def NoGroup (depth : Nat) (raw : Bytes) : Prop :=
  ∀ rs, records depth raw = some rs → groupless rs

/-- An unknown group, then an empty desired state. -/
def groupThenDesired : Buffer where
  bytes := [0x7b, 0x7c, 0x1a, 0x00]
  fits := by decide

def emptyMeta : Buffer where
  bytes := []
  fits := by decide

/-- A desired state with an unknown field after it: nothing is lost. -/
def desiredThenUnknown : Buffer where
  bytes := [0x1a, 0x02, 0x0a, 0x00, 0x7a, 0x01, 0x78]
  fits := by decide

end FunctionWasm

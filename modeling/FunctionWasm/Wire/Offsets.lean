import FunctionWasm.Wire.ProtoWire

/-!
# Offsets — where the scans go, whatever the bytes are

The scans run on requests that have been decoded, but nothing in them says so: they take any bytes.
Here the end of a value is computed in numbers of any size, and the items that the scans should find
are told apart from those that their words make of them.

* `spanAt` is the item at an offset, `spans` are the items of a buffer, one after the other.
* `Advances` says that a scan's offsets only grow, within the buffer and without a fault.
* `keyOf`, `retained` and `carried` are what the three functions make of the items.
* `scans_safe_iff` says for which bytes the functions do just that: where no item that is reached
  states a length that leaves 64 bits.
-/

namespace FunctionWasm
namespace ProtoWire

/-! ## Varints -/

theorem varintLoop_bounds {raw : Bytes} {start : Nat} :
    ∀ {rounds i value shift v n : Nat}, varintLoop raw start rounds i value shift = some (v, n) →
      start ≤ i → i < start + n ∧ start + n ≤ raw.length := by
  intro rounds
  induction rounds with
  | zero =>
      intro i value shift v n h
      cases h
  | succ rounds ih =>
      intro i value shift v n h hstart
      unfold varintLoop at h
      split at h
      · cases h
      · next b hget =>
          have hlt : i < raw.length := (List.getElem?_eq_some_iff.1 hget).1
          dsimp only at h
          split at h
          · cases h
            omega
          · split at h
            · cases h
            · have hrest := ih h (by omega)
              omega

/-- A varint takes at least one byte, and only bytes that are there. -/
theorem varint_bounds {raw : Bytes} {i v n : Nat} (h : varint raw i = some (v, n)) :
    0 < n ∧ i + n ≤ raw.length := by
  have hbounds := varintLoop_bounds h (Nat.le_refl i)
  omega

/-! ## Items -/

/-- The end of a value, in numbers that do not wrap. -/
def valueEnd (raw : Bytes) (i wire : Nat) : Option Nat :=
  match wire with
  | 0 => (varint raw i).map fun r => i + r.2
  | 1 => if i + 8 ≤ raw.length then some (i + 8) else none
  | 2 =>
      match varint raw i with
      | none => none
      | some (len, n) => if i + n + len ≤ raw.length then some (i + n + len) else none
  | 5 => if i + 4 ≤ raw.length then some (i + 4) else none
  | _ => none

/-- An item of a buffer: where its key, its value and the next item start. -/
structure Span where
  start : Nat
  value : Nat
  stop : Nat
  tag : Nat
  deriving DecidableEq

namespace Span

def field (s : Span) : Nat := s.tag >>> 3

def wire (s : Span) : Nat := s.tag &&& 0x7

end Span

def spanAt (raw : Bytes) (i : Nat) : Option Span :=
  match varint raw i with
  | none => none
  | some (tag, n) =>
      (valueEnd raw (i + n) (tag &&& 0x7)).map fun stop => ⟨i, i + n, stop, tag⟩

/-- The item at an offset states a length that leaves 64 bits when it is added. -/
def Wraps (raw : Bytes) (i : Nat) : Prop :=
  ∃ tag n len m, varint raw i = some (tag, n) ∧ tag &&& 0x7 = 2 ∧
    varint raw (i + n) = some (len, m) ∧ usizeBound ≤ i + n + m + len

/-- One round of a scan: the offset of the next item. -/
def nextOffset (b : Build) (raw : Bytes) (i : Nat) : Checked (Option Nat) :=
  match varint raw i with
  | none => .ok none
  | some (tag, n) => skipValue b raw (i + n) (tag &&& 0x7)

theorem valueEnd_bounds {raw : Bytes} {i wire stop : Nat} (h : valueEnd raw i wire = some stop) :
    i < stop ∧ stop ≤ raw.length ∧
      (wire = 2 → ∃ len n, varint raw i = some (len, n) ∧ i + n ≤ stop) := by
  unfold valueEnd at h
  split at h
  · rcases Option.map_eq_some_iff.1 h with ⟨⟨v, n⟩, hv, rfl⟩
    have hbounds := varint_bounds hv
    exact ⟨by omega, hbounds.2, by simp⟩
  · split at h
    · cases h
      exact ⟨by omega, by omega, by simp⟩
    · cases h
  · split at h
    · cases h
    · next len n hlen =>
        split at h
        · cases h
          have hbounds := varint_bounds hlen
          exact ⟨by omega, by omega, fun _ => ⟨len, n, hlen, by omega⟩⟩
        · cases h
  · split at h
    · cases h
      exact ⟨by omega, by omega, by simp⟩
    · cases h
  · cases h

/-- An item is within the buffer and not empty, and so is the payload of one with a length. -/
theorem spanAt_bounds {raw : Bytes} {i : Nat} {s : Span} (h : spanAt raw i = some s) :
    s.start = i ∧ i < s.value ∧ s.value < s.stop ∧ s.stop ≤ raw.length ∧
      (s.wire = 2 → ∃ len n, varint raw s.value = some (len, n) ∧ s.value + n ≤ s.stop) := by
  unfold spanAt at h
  split at h
  · cases h
  · next tag n htag =>
      rcases Option.map_eq_some_iff.1 h with ⟨stop, hstop, rfl⟩
      have hkey := varint_bounds htag
      have hvalue := valueEnd_bounds hstop
      exact ⟨rfl, by simp; omega, hvalue.1, hvalue.2.1, hvalue.2.2⟩

/-- A sum of words that stays below the bound is what the scan computes. -/
theorem skipValue_eq {b : Build} {raw : Bytes} {i wire : Nat}
    (h : ∀ len n, wire = 2 → varint raw i = some (len, n) → i + n + len < usizeBound) :
    skipValue b raw i wire = .ok (valueEnd raw i wire) := by
  match wire, h with
  | 0, _ => rfl
  | 1, _ => rfl
  | 2, h =>
      unfold skipValue valueEnd
      cases hlen : varint raw i with
      | none => rfl
      | some r =>
          rcases r with ⟨len, n⟩
          dsimp only
          rw [Build.add_of_lt (h len n rfl hlen)]
          rfl
  | 3, _ => rfl
  | 4, _ => rfl
  | 5, _ => rfl
  | _ + 6, _ => rfl

theorem nextOffset_eq {b : Build} {raw : Bytes} {i : Nat} (h : ¬ Wraps raw i) :
    nextOffset b raw i = .ok ((spanAt raw i).map Span.stop) := by
  unfold nextOffset spanAt
  cases htag : varint raw i with
  | none => rfl
  | some r =>
      rcases r with ⟨tag, n⟩
      have hskip : skipValue b raw (i + n) (tag &&& 0x7) =
          .ok (valueEnd raw (i + n) (tag &&& 0x7)) := by
        refine skipValue_eq fun len m hwire hlen => ?_
        by_contra hlarge
        exact h ⟨tag, n, len, m, htag, hwire, hlen, Nat.not_lt.1 hlarge⟩
      dsimp only
      rw [hskip, Option.map_map]
      cases valueEnd raw (i + n) (tag &&& 0x7) <;> rfl

/-- With overflow checks an item that wraps stops the program. -/
theorem skipValue_wraps {raw : Bytes} {i : Nat} (h : Wraps raw i) :
    ∃ tag n, varint raw i = some (tag, n) ∧ tag &&& 0x7 = 2 ∧
      skipValue ⟨true⟩ raw (i + n) (tag &&& 0x7) = .error .overflow := by
  rcases h with ⟨tag, n, len, m, htag, hwire, hlen, hlarge⟩
  refine ⟨tag, n, htag, hwire, ?_⟩
  have hadd : Build.add ⟨true⟩ (i + n + m) len = .error .overflow :=
    if_neg (Nat.not_lt.2 hlarge)
  rw [hwire]
  unfold skipValue
  rw [hlen]
  dsimp only
  rw [hadd]
  rfl

theorem nextOffset_wraps {raw : Bytes} {i : Nat} (h : Wraps raw i) :
    nextOffset ⟨true⟩ raw i = .error .overflow := by
  rcases skipValue_wraps h with ⟨tag, n, htag, -, hskip⟩
  unfold nextOffset
  rw [htag]
  exact hskip

/-! ## Scans -/

/-- The offsets that a scan comes to. -/
inductive Visited (next : Nat → Option Nat) : Nat → Prop where
  | start : Visited next 0
  | next {i j} (h : Visited next i) (hnext : next i = some j) : Visited next j

/-- Each round of a scan answers, and an offset that it goes on to is further on and in the
buffer. -/
def Advances (step : Nat → Checked (Option Nat)) (length : Nat) : Prop :=
  ∀ i, Visited (fun i => (step i).toOption.join) i → i < length →
    ∃ r, step i = .ok r ∧ ∀ j, r = some j → i < j ∧ j ≤ length

theorem Visited.mono {next next' : Nat → Option Nat} {i : Nat} (h : Visited next i)
    (hsame : ∀ i, Visited next i → Visited next' i → next i = next' i) : Visited next' i := by
  induction h with
  | start => exact .start
  | @next i j hi hnext ih => exact ih.next ((hsame i hi ih).symm.trans hnext)

/-- A scan that computes the items as they are advances. -/
theorem advances_of_eq {step : Nat → Checked (Option Nat)} {next : Nat → Option Nat} {length : Nat}
    (hsame : ∀ i, Visited next i → step i = .ok (next i))
    (hbounds : ∀ i j, next i = some j → i < j ∧ j ≤ length) : Advances step length := by
  intro i hi _
  have hvisited : Visited next i := hi.mono fun k _ hk => by
    rw [hsame k hk]
    rfl
  exact ⟨next i, hsame i hvisited, hbounds i⟩

/-- A scan does not get past an item that is reached and stops the program. -/
theorem not_advances {step : Nat → Checked (Option Nat)} {next : Nat → Option Nat} {length i : Nat}
    (hsame : ∀ i, step i = .ok (next i) ∨ ∃ f, step i = .error f)
    (hin : ∀ i f, step i = .error f → i < length) (hi : Visited next i) {f : Fault}
    (hstep : step i = .error f) : ¬ Advances step length := by
  intro hadvances
  -- the scan comes to every offset that the items lead to, for it does not stop before
  have hreached : ∀ k, Visited next k → Visited (fun i => (step i).toOption.join) k := by
    intro k hk
    induction hk with
    | start => exact .start
    | @next k j hk hnext ih =>
        refine ih.next ?_
        rcases hsame k with hok | ⟨g, herr⟩
        · rw [hok]
          exact hnext
        · rcases hadvances k ih (hin k g herr) with ⟨r, hr, -⟩
          cases herr.symm.trans hr
  rcases hadvances i (hreached i hi) (hin i f hstep) with ⟨r, hr, -⟩
  cases hstep.symm.trans hr

/-! ## What the functions make of the items -/

/-- The items of a buffer from an offset on, up to what is no item; and whether they end it. -/
def spansFrom (raw : Bytes) : Nat → Nat → List Span × Bool
  | 0, i => ([], decide (raw.length ≤ i))
  | fuel + 1, i =>
      if raw.length ≤ i then ([], true)
      else
        match spanAt raw i with
        | none => ([], false)
        | some s => (s :: (spansFrom raw fuel s.stop).1, (spansFrom raw fuel s.stop).2)

/-- The items of a buffer; bytes that parse are nothing but items. -/
def spans (raw : Bytes) : List Span × Bool :=
  spansFrom raw raw.length 0

def between (raw : Bytes) (i j : Nat) : Bytes :=
  (raw.take j).drop i

namespace Span

/-- The value without its length. -/
def payload (s : Span) (raw : Bytes) : Bytes :=
  match varint raw s.value with
  | none => []
  | some (_, n) => between raw (s.value + n) s.stop

def isKey (s : Span) : Bool :=
  decide (s.field = mapKeyField ∧ s.wire = 2)

end Span

/-- The last key among the items of a map entry that parses and whose keys are text. -/
def keyFrom (entry : Bytes) (items : List Span × Bool) (key : Option Text) : Option Text :=
  if items.2 && items.1.all fun s => !s.isKey || (utf8? (s.payload entry)).isSome then
    items.1.foldl (fun key s => if s.isKey then utf8? (s.payload entry) else key) key
  else none

def keyOf (entry : Bytes) : Option Text :=
  keyFrom entry (spans entry) none

/-- An item of another field, or a credential whose key is forwarded. -/
def forwarded (raw : Bytes) (forward : Text → Bool) (s : Span) : Bool :=
  if s.field = credentialsField then
    decide (s.wire = 2) && (keyOf (s.payload raw)).any forward
  else true

/-- Every item that is forwarded, of bytes that parse. -/
def retained (raw : Bytes) (forward : Text → Bool) : Option Bytes :=
  if (spans raw).2 then
    some (((spans raw).1.filter (forwarded raw forward)).flatMap fun s => between raw s.start s.stop)
  else none

/-- The item of the response that an item of the request becomes. -/
def carry (raw : Bytes) (s : Span) : Bytes :=
  match retagged s.field s.wire with
  | none => []
  | some field => [UInt8.ofNat (field <<< 3) ||| 2] ++ between raw s.value s.stop

/-- The meta item and what the items at the start of the request become. -/
def carried (raw rspMeta : Bytes) : Bytes :=
  appendMeta [] rspMeta ++ (spans raw).1.flatMap (carry raw)

/-! ## Which items are reached -/

def nextSpan (raw : Bytes) (i : Nat) : Option Nat :=
  (spanAt raw i).map Span.stop

/-- The scan of a map entry ends at a key that is no text, too. -/
def nextKeySpan (entry : Bytes) (i : Nat) : Option Nat :=
  match spanAt entry i with
  | none => none
  | some s => if s.isKey && (utf8? (s.payload entry)).isNone then none else some s.stop

/-- No item that is reached states a length that leaves 64 bits. -/
def Fits (raw : Bytes) : Prop :=
  ∀ i, Visited (nextSpan raw) i → ¬ Wraps raw i

def KeyFits (entry : Bytes) : Prop :=
  ∀ i, Visited (nextKeySpan entry) i → ¬ Wraps entry i

/-- Nor does an item of a credential. -/
def CredentialsFit (raw : Bytes) : Prop :=
  Fits raw ∧ ∀ i s, Visited (nextSpan raw) i → spanAt raw i = some s →
    s.field = credentialsField → s.wire = 2 → KeyFits (s.payload raw)

/-- One round of the scan of a map entry. -/
def nextKeyOffset (b : Build) (entry : Bytes) (i : Nat) : Checked (Option Nat) :=
  match varint entry i with
  | none => .ok none
  | some (tag, n) =>
      match skipValue b entry (i + n) (tag &&& 0x7) with
      | .error f => .error f
      | .ok none => .ok none
      | .ok (some stop) =>
          if tag >>> 3 = mapKeyField ∧ tag &&& 0x7 = 2 then
            match varint entry (i + n) with
            | none => .ok none
            | some (_, n') =>
                match slice entry (i + n + n') stop with
                | .error f => .error f
                | .ok bytes => .ok (if (utf8? bytes).isSome then some stop else none)
          else .ok (some stop)

/-! ## One round -/

theorem slice_between {raw : Bytes} {i j : Nat} (hle : i ≤ j) (hj : j ≤ raw.length) :
    slice raw i j = .ok (between raw i j) :=
  if_pos ⟨hle, hj⟩

/-- At an item that does not wrap the scan finds its end, else it finds that there is none. -/
theorem round_eq (b : Build) {raw : Bytes} {i : Nat} (h : ¬ Wraps raw i) :
    (spanAt raw i = none ∧ (varint raw i = none ∨ ∃ tag n, varint raw i = some (tag, n) ∧
      skipValue b raw (i + n) (tag &&& 0x7) = .ok none)) ∨
    ∃ s n, spanAt raw i = some s ∧ varint raw i = some (s.tag, n) ∧ s.value = i + n ∧
      skipValue b raw (i + n) (s.tag &&& 0x7) = .ok (some s.stop) := by
  cases htag : varint raw i with
  | none => exact .inl ⟨by simp [spanAt, htag], .inl rfl⟩
  | some r =>
      rcases r with ⟨tag, n⟩
      have hskip : skipValue b raw (i + n) (tag &&& 0x7) =
          .ok (valueEnd raw (i + n) (tag &&& 0x7)) := by
        refine skipValue_eq fun len m hwire hlen => ?_
        by_contra hlarge
        exact h ⟨tag, n, len, m, htag, hwire, hlen, Nat.not_lt.1 hlarge⟩
      cases hstop : valueEnd raw (i + n) (tag &&& 0x7) with
      | none =>
          rw [hstop] at hskip
          exact .inl ⟨by simp [spanAt, htag, hstop], .inr ⟨tag, n, rfl, hskip⟩⟩
      | some stop =>
          rw [hstop] at hskip
          exact .inr ⟨⟨i, i + n, stop, tag⟩, n, by simp [spanAt, htag, hstop], rfl, rfl, hskip⟩

/-- The slice of a payload is the payload. -/
theorem slice_payload {raw : Bytes} {i : Nat} {s : Span} (hs : spanAt raw i = some s)
    (hwire : s.wire = 2) : ∃ len n, varint raw s.value = some (len, n) ∧
      slice raw (s.value + n) s.stop = .ok (s.payload raw) := by
  rcases spanAt_bounds hs with ⟨-, -, -, hstop, hpayload⟩
  rcases hpayload hwire with ⟨len, n, hlen, hle⟩
  refine ⟨len, n, hlen, ?_⟩
  rw [slice_between hle hstop, Span.payload, hlen]

theorem nextSpan_of_spanAt {raw : Bytes} {i : Nat} {s : Span} (h : spanAt raw i = some s) :
    nextSpan raw i = some s.stop := by
  rw [nextSpan, h]
  rfl

/-! ## The response -/

theorem noopLoop_eq (b : Build) {raw : Bytes} (hfits : Fits raw) :
    ∀ {fuel i : Nat} {out : Bytes}, Visited (nextSpan raw) i → raw.length - i ≤ fuel →
      noopLoop b raw fuel i out = .ok (out ++ (spansFrom raw fuel i).1.flatMap (carry raw)) := by
  intro fuel
  induction fuel with
  | zero =>
      intro i out _ hfuel
      have hend : raw.length ≤ i := by omega
      unfold noopLoop
      rw [if_pos hend]
      simp [spansFrom]
  | succ fuel ih =>
      intro i out hi hfuel
      unfold noopLoop spansFrom
      by_cases hend : raw.length ≤ i
      · rw [if_pos hend, if_pos hend]
        simp
      · rw [if_neg hend, if_neg hend]
        dsimp only
        -- a round scans no item, or the one that starts here
        rcases round_eq b (hfits i hi) with ⟨hnone, hscan⟩ | ⟨s, n, hs, htag, hvalue, hskip⟩
        · rw [hnone]
          rcases hscan with hvar | ⟨tag, n, htag, hskip⟩
          · rw [hvar]
            simp
          · rw [htag]
            dsimp only
            rw [hskip]
            simp
        · rcases spanAt_bounds hs with ⟨-, hstart, hpos, hstop, -⟩
          have hnext : Visited (nextSpan raw) s.stop := hi.next (nextSpan_of_spanAt hs)
          have hshort : raw.length - s.stop ≤ fuel := by omega
          rw [hs, htag]
          dsimp only
          rw [hskip]
          dsimp only
          rw [List.flatMap_cons, ← hvalue]
          -- the body of the loop at this item, its tag left as it is
          change (match retagged s.field s.wire with
            | none => noopLoop b raw fuel s.stop out
            | some field =>
                match slice raw s.value s.stop with
                | .error f => .error f
                | .ok value => noopLoop b raw fuel s.stop
                    (out ++ [UInt8.ofNat (field <<< 3) ||| 2] ++ value)) = _
          -- an item with no place in a response is dropped
          cases htagged : retagged s.field s.wire with
          | none =>
              have hcarry : carry raw s = [] := by simp [carry, htagged]
              dsimp only
              rw [ih hnext hshort, hcarry, List.nil_append]
          | some field =>
              have hcarry : carry raw s =
                  [UInt8.ofNat (field <<< 3) ||| 2] ++ between raw s.value s.stop := by
                simp [carry, htagged]
              dsimp only
              rw [slice_between (by omega) hstop]
              dsimp only
              rw [ih hnext hshort, hcarry]
              simp only [List.append_assoc]

theorem noopResponse_eq (b : Build) {raw : Bytes} (rspMeta : Bytes) (hfits : Fits raw) :
    noopResponse b raw rspMeta = .ok (carried raw rspMeta) :=
  noopLoop_eq b hfits .start (Nat.sub_le _ _)

/-! ## The key of an entry -/

theorem keyFrom_none {entry : Bytes} {l : List Span} {c : Bool} {key : Option Text}
    (h : c = false) : keyFrom entry (l, c) key = none := by
  simp [keyFrom, h]

/-- An item that is no key is passed over. -/
theorem keyFrom_other {entry : Bytes} {s : Span} {items : List Span × Bool} {key : Option Text}
    (h : s.isKey = false) :
    keyFrom entry (s :: items.1, items.2) key = keyFrom entry items key := by
  simp [keyFrom, h]

theorem keyFrom_key {entry : Bytes} {s : Span} {items : List Span × Bool} {key : Option Text}
    {text : Text} (h : s.isKey = true) (htext : utf8? (s.payload entry) = some text) :
    keyFrom entry (s :: items.1, items.2) key = keyFrom entry items (some text) := by
  simp [keyFrom, h, htext]

theorem keyFrom_unreadable {entry : Bytes} {s : Span} {items : List Span × Bool}
    {key : Option Text} (h : s.isKey = true) (htext : utf8? (s.payload entry) = none) :
    keyFrom entry (s :: items.1, items.2) key = none := by
  simp [keyFrom, h, htext]

theorem isKey_iff (s : Span) : s.isKey = true ↔ s.tag >>> 3 = mapKeyField ∧ s.tag &&& 0x7 = 2 :=
  decide_eq_true_iff

theorem nextKeySpan_of_other {entry : Bytes} {i : Nat} {s : Span} (hs : spanAt entry i = some s)
    (h : s.isKey = true → utf8? (s.payload entry) ≠ none) :
    nextKeySpan entry i = some s.stop := by
  unfold nextKeySpan
  rw [hs]
  dsimp only
  cases hkey : s.isKey with
  | false => simp
  | true => simp [Option.isNone_iff_eq_none, h hkey]

theorem mapEntryKeyLoop_eq (b : Build) {entry : Bytes} (hfits : KeyFits entry) :
    ∀ {fuel i : Nat} {key : Option Text}, Visited (nextKeySpan entry) i →
      entry.length - i ≤ fuel →
        mapEntryKeyLoop b entry fuel i key = .ok (keyFrom entry (spansFrom entry fuel i) key) := by
  intro fuel
  induction fuel with
  | zero =>
      intro i key _ hfuel
      have hend : entry.length ≤ i := by omega
      unfold mapEntryKeyLoop
      rw [if_pos hend]
      simp [spansFrom, keyFrom, hend]
  | succ fuel ih =>
      intro i key hi hfuel
      unfold mapEntryKeyLoop spansFrom
      by_cases hend : entry.length ≤ i
      · rw [if_pos hend, if_pos hend]
        simp [keyFrom]
      · rw [if_neg hend, if_neg hend]
        dsimp only
        -- a round scans no item, or the one that starts here
        rcases round_eq b (hfits i hi) with ⟨hnone, hscan⟩ | ⟨s, n, hs, htag, hvalue, hskip⟩
        · rw [hnone]
          dsimp only
          rw [keyFrom_none rfl]
          rcases hscan with hvar | ⟨tag, n, htag, hskip⟩
          · rw [hvar]
          · rw [htag]
            dsimp only
            rw [hskip]
        · rcases spanAt_bounds hs with ⟨-, hstart, hpos, hstop, -⟩
          have hshort : entry.length - s.stop ≤ fuel := by omega
          rw [hs, htag]
          dsimp only
          rw [hskip, ← hvalue]
          dsimp only
          by_cases hkey : s.isKey = true
          · rcases slice_payload hs ((isKey_iff s).1 hkey).2 with ⟨len, m, hlen, hslice⟩
            rw [if_pos ((isKey_iff s).1 hkey), hlen]
            dsimp only
            rw [hslice]
            dsimp only
            -- a key that is no text ends the scan
            cases htext : utf8? (s.payload entry) with
            | none => rw [keyFrom_unreadable hkey htext]
            | some text =>
                have hnext : Visited (nextKeySpan entry) s.stop :=
                  hi.next (nextKeySpan_of_other hs fun _ => by simp [htext])
                dsimp only
                rw [ih hnext hshort, keyFrom_key hkey htext]
          · have hnext : Visited (nextKeySpan entry) s.stop :=
              hi.next (nextKeySpan_of_other hs fun h => absurd h hkey)
            rw [if_neg fun h => hkey ((isKey_iff s).2 h), ih hnext hshort,
              keyFrom_other (Bool.eq_false_iff.2 hkey)]

theorem mapEntryKey_eq (b : Build) {entry : Bytes} (hfits : KeyFits entry) :
    mapEntryKey b entry = .ok (keyOf entry) :=
  mapEntryKeyLoop_eq b hfits .start (Nat.sub_le _ _)

/-! ## The request -/

theorem credentialForwarded_eq (b : Build) {raw : Bytes} {forward : Text → Bool} {i : Nat}
    {s : Span} (hs : spanAt raw i = some s) (hfield : s.field = credentialsField)
    (hfits : s.wire = 2 → KeyFits (s.payload raw)) :
    credentialForwarded b forward raw s.value s.stop s.wire =
      .ok (some (forwarded raw forward s)) := by
  unfold credentialForwarded forwarded
  rw [if_pos hfield]
  by_cases hwire : s.wire = 2
  · rcases slice_payload hs hwire with ⟨len, n, hlen, hslice⟩
    rw [if_pos hwire, hlen]
    dsimp only
    rw [hslice]
    dsimp only
    rw [mapEntryKey_eq b (hfits hwire)]
    cases keyOf (s.payload raw) <;> simp [hwire]
  · simp [hwire]

theorem retainLoop_eq (b : Build) {raw : Bytes} (forward : Text → Bool)
    (hfits : CredentialsFit raw) :
    ∀ {fuel i : Nat} {out : Bytes}, Visited (nextSpan raw) i → raw.length - i ≤ fuel →
      retainLoop b forward raw fuel i out =
        .ok (if (spansFrom raw fuel i).2 then
          some (out ++ ((spansFrom raw fuel i).1.filter (forwarded raw forward)).flatMap
            fun s => between raw s.start s.stop)
          else none) := by
  intro fuel
  -- on the rounds; one offset after another is visited
  induction fuel with
  | zero =>
      intro i out _ hfuel
      have hend : raw.length ≤ i := by omega
      unfold retainLoop
      rw [if_pos hend]
      simp [spansFrom, hend]
  | succ fuel ih =>
      intro i out hi hfuel
      unfold retainLoop spansFrom
      by_cases hend : raw.length ≤ i
      · rw [if_pos hend, if_pos hend]
        simp
      · rw [if_neg hend, if_neg hend]
        dsimp only
        -- a round scans no item, or the one that starts here
        rcases round_eq b (hfits.1 i hi) with ⟨hnone, hscan⟩ | ⟨s, n, hs, htag, hvalue, hskip⟩
        · rw [hnone]
          rcases hscan with hvar | ⟨tag, n, htag, hskip⟩
          · rw [hvar]
            rfl
          · rw [htag]
            dsimp only
            rw [hskip]
            rfl
        · rcases spanAt_bounds hs with ⟨hfrom, hstart, hpos, hstop, -⟩
          have hnext : Visited (nextSpan raw) s.stop := hi.next (nextSpan_of_spanAt hs)
          have hshort : raw.length - s.stop ≤ fuel := by omega
          -- only an entry of the credentials is asked for its key
          have hitem : (if s.tag >>> 3 = credentialsField then
              credentialForwarded b forward raw s.value s.stop (s.tag &&& 0x7)
                else .ok (some true)) = .ok (some (forwarded raw forward s)) := by
            by_cases hfield : s.field = credentialsField
            · exact (if_pos hfield).trans
                (credentialForwarded_eq b hs hfield (hfits.2 i s hi hs hfield))
            · rw [forwarded, if_neg hfield]
              exact if_neg hfield
          rw [hs, htag]
          dsimp only
          rw [hskip, ← hvalue]
          dsimp only
          rw [hitem]
          cases hforward : forwarded raw forward s with
          | false =>
              dsimp only
              rw [ih hnext hshort, List.filter_cons_of_neg (by simp [hforward])]
          | true =>
              dsimp only
              rw [slice_between (by omega) hstop]
              dsimp only
              rw [ih hnext hshort, List.filter_cons_of_pos hforward, List.flatMap_cons, hfrom,
                List.append_assoc]

theorem retainCredentials_eq (b : Build) {raw : Bytes} (forward : Text → Bool)
    (hfits : CredentialsFit raw) :
    retainCredentials b raw forward = .ok (retained raw forward) :=
  retainLoop_eq b forward hfits .start (Nat.sub_le _ _)

/-! ## Which bytes are scanned safely -/

/-- In every build the scan of a map entry advances, and finds the key of the entry's items. -/
def KeySafe (entry : Bytes) : Prop :=
  ∀ b, Advances (nextKeyOffset b entry) entry.length ∧ mapEntryKey b entry = .ok (keyOf entry)

/-- In every build the scan of a request advances, those of its credentials do, and what is kept are
the items that are forwarded; bytes that do not parse give nothing. -/
def RetainSafe (raw : Bytes) (forward : Text → Bool) : Prop :=
  (∀ b, Advances (nextOffset b raw) raw.length ∧
    retainCredentials b raw forward = .ok (retained raw forward)) ∧
  ∀ i s, Visited (nextSpan raw) i → spanAt raw i = some s → s.field = credentialsField →
    s.wire = 2 → KeySafe (s.payload raw)

/-- In every build the scan advances, and the response is made of the items before what is none. -/
def NoopSafe (raw rspMeta : Bytes) : Prop :=
  ∀ b, Advances (nextOffset b raw) raw.length ∧
    noopResponse b raw rspMeta = .ok (carried raw rspMeta)

theorem nextSpan_bounds {raw : Bytes} {i j : Nat} (h : nextSpan raw i = some j) :
    i < j ∧ j ≤ raw.length := by
  rcases Option.map_eq_some_iff.1 h with ⟨s, hs, rfl⟩
  have hbounds := spanAt_bounds hs
  exact ⟨by omega, hbounds.2.2.2.1⟩

theorem nextKeySpan_bounds {entry : Bytes} {i j : Nat} (h : nextKeySpan entry i = some j) :
    i < j ∧ j ≤ entry.length := by
  unfold nextKeySpan at h
  split at h
  · cases h
  · next s hs =>
      split at h
      · cases h
      · cases h
        exact nextSpan_bounds (nextSpan_of_spanAt hs)

theorem nextKeyOffset_eq {b : Build} {entry : Bytes} {i : Nat} (h : ¬ Wraps entry i) :
    nextKeyOffset b entry i = .ok (nextKeySpan entry i) := by
  unfold nextKeyOffset nextKeySpan
  rcases round_eq b h with ⟨hnone, hscan⟩ | ⟨s, n, hs, htag, hvalue, hskip⟩
  · rw [hnone]
    rcases hscan with hvar | ⟨tag, n, htag, hskip⟩
    · rw [hvar]
    · rw [htag]
      dsimp only
      rw [hskip]
  · rw [hs, htag]
    dsimp only
    rw [hskip, ← hvalue]
    dsimp only
    by_cases hkey : s.isKey = true
    · rcases slice_payload hs ((isKey_iff s).1 hkey).2 with ⟨len, m, hlen, hslice⟩
      rw [if_pos ((isKey_iff s).1 hkey), hlen]
      dsimp only
      rw [hslice, hkey]
      cases htext : utf8? (s.payload entry) <;> simp [htext]
    · rw [if_neg fun hk => hkey ((isKey_iff s).2 hk), Bool.eq_false_iff.2 hkey]
      simp

theorem nextKeyOffset_wraps {entry : Bytes} {i : Nat} (h : Wraps entry i) :
    nextKeyOffset ⟨true⟩ entry i = .error .overflow := by
  rcases skipValue_wraps h with ⟨tag, n, htag, -, hskip⟩
  unfold nextKeyOffset
  rw [htag]
  dsimp only
  rw [hskip]

theorem wraps_lt {raw : Bytes} {i : Nat} (h : Wraps raw i) : i < raw.length := by
  rcases h with ⟨tag, n, len, m, htag, -⟩
  have hbounds := varint_bounds htag
  omega

/-- A round that stops the program only where an item wraps finds all that is reached to fit. -/
theorem fits_of_advances {step : Nat → Checked (Option Nat)} {next : Nat → Option Nat}
    {raw : Bytes} (hok : ∀ i, ¬ Wraps raw i → step i = .ok (next i))
    (hwraps : ∀ i, Wraps raw i → step i = .error .overflow)
    (h : Advances step raw.length) {i : Nat} (hi : Visited next i) : ¬ Wraps raw i := by
  intro hwrap
  refine not_advances (fun k => ?_) (fun k f hk => ?_) hi (hwraps i hwrap) h
  · by_cases hk : Wraps raw k
    · exact .inr ⟨_, hwraps k hk⟩
    · exact .inl (hok k hk)
  · by_cases hkw : Wraps raw k
    · exact wraps_lt hkw
    · cases (hok k hkw).symm.trans hk

theorem keySafe_iff (entry : Bytes) : KeySafe entry ↔ KeyFits entry := by
  constructor
  · intro h i hi
    exact fits_of_advances (fun _ => nextKeyOffset_eq) (fun _ => nextKeyOffset_wraps)
      (h ⟨true⟩).1 hi
  · intro hfits b
    exact ⟨advances_of_eq (fun i hi => nextKeyOffset_eq (hfits i hi)) fun _ _ => nextKeySpan_bounds,
      mapEntryKey_eq b hfits⟩

theorem advances_of_fits (b : Build) {raw : Bytes} (hfits : Fits raw) :
    Advances (nextOffset b raw) raw.length :=
  advances_of_eq (fun i hi => nextOffset_eq (hfits i hi)) fun _ _ => nextSpan_bounds

theorem fits_of_nextOffset {raw : Bytes} (h : Advances (nextOffset ⟨true⟩ raw) raw.length) :
    Fits raw := fun _ hi =>
  fits_of_advances (fun _ => nextOffset_eq) (fun _ => nextOffset_wraps) h hi

theorem retainSafe_iff (raw : Bytes) (forward : Text → Bool) :
    RetainSafe raw forward ↔ CredentialsFit raw := by
  constructor
  · rintro ⟨hscan, hkeys⟩
    exact ⟨fits_of_nextOffset (hscan ⟨true⟩).1, fun i s hi hs hfield hwire =>
      (keySafe_iff _).1 (hkeys i s hi hs hfield hwire)⟩
  · intro hfits
    exact ⟨fun b => ⟨advances_of_fits b hfits.1, retainCredentials_eq b forward hfits⟩,
      fun i s hi hs hfield hwire => (keySafe_iff _).2 (hfits.2 i s hi hs hfield hwire)⟩

theorem noopSafe_iff (raw rspMeta : Bytes) : NoopSafe raw rspMeta ↔ Fits raw := by
  constructor
  · intro h
    exact fits_of_nextOffset (h ⟨true⟩).1
  · intro hfits b
    exact ⟨advances_of_fits b hfits, noopResponse_eq b rspMeta hfits⟩

/-- The scans of any bytes end, within them and without a fault, and answer what the items say,
exactly where no item that they reach states a length that leaves 64 bits. -/
theorem scans_safe_iff (raw rspMeta : Buffer) (forward : Text → Bool) :
    (RetainSafe raw.bytes forward ↔ CredentialsFit raw.bytes) ∧
      (KeySafe raw.bytes ↔ KeyFits raw.bytes) ∧
        (NoopSafe raw.bytes rspMeta.bytes ↔ Fits raw.bytes) :=
  ⟨retainSafe_iff _ _, keySafe_iff _, noopSafe_iff _ _⟩

/-- A key, and a length of `2 ^ 64 - 11`. -/
def wrappingLength (tag : UInt8) : Bytes :=
  [tag, 0xf5, 0xff, 0xff, 0xff, 0xff, 0xff, 0xff, 0xff, 0xff, 0x01]

/-- Where sums wrap the item ends at its own start: an unknown field is scanned for ever, a credential
is cut out backwards. -/
theorem scans_unsafe :
    retainCredentials ⟨false⟩ (wrappingLength 0x7a) (fun _ => true) = .error .diverges ∧
      noopResponse ⟨false⟩ (wrappingLength 0x7a) [] = .error .diverges ∧
      retainCredentials ⟨false⟩ (wrappingLength 0x3a) (fun _ => true) = .error .outOfRange ∧
      noopResponse ⟨false⟩ (wrappingLength 0x1a) [] = .error .outOfRange ∧
      ¬ RetainSafe (wrappingLength 0x7a) (fun _ => true) ∧
      ¬ NoopSafe (wrappingLength 0x7a) [] ∧ ¬ KeySafe (wrappingLength 0x0a) := by
  have hretain : retainCredentials ⟨false⟩ (wrappingLength 0x7a) (fun _ => true) =
      .error .diverges := by decide +kernel
  have hnoop : noopResponse ⟨false⟩ (wrappingLength 0x7a) [] = .error .diverges := by
    decide +kernel
  have hkey : mapEntryKey ⟨false⟩ (wrappingLength 0x0a) = .error .outOfRange := by decide +kernel
  refine ⟨hretain, hnoop, by decide +kernel, by decide +kernel, fun h => ?_, fun h => ?_,
    fun h => ?_⟩
  · cases hretain.symm.trans (h.1 ⟨false⟩).2
  · cases hnoop.symm.trans (h ⟨false⟩).2
  · cases hkey.symm.trans (h ⟨false⟩).2

end ProtoWire
end FunctionWasm

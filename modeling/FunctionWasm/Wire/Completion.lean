import FunctionWasm.Foundation.Checks
import FunctionWasm.Foundation.Scalar
import FunctionWasm.Wire.Noop

/-!
# Completion — what travels back of a module's response

The response of a module goes back as the module wrote it.  The runtime decodes a copy to judge it,
and where the copy has no meta it appends one.

* `ResponseMeta.encode` and `ResponseMeta.codec` are a meta on the wire, `decode_encode` says that one
  reads the other.
* `Step.answer` is what a run answers.
* `decode_appendMeta` decodes a completed response, `completion_transparent` puts it together.
-/

namespace FunctionWasm

open Protobuf ProtoWire

/-! ## The meta of a response -/

/-- `google.protobuf.Duration` -/
@[ext] structure ProtoDuration where
  seconds : Int
  nanos : Int
  seconds_fits : -2 ^ 63 ≤ seconds ∧ seconds < 2 ^ 63
  nanos_fits : -2 ^ 31 ≤ nanos ∧ nanos < 2 ^ 31
  deriving DecidableEq


namespace ProtoDuration

def empty : ProtoDuration where
  seconds := 0
  nanos := 0
  seconds_fits := by decide
  nanos_fits := by decide

def mergeField (d : ProtoDuration) (r : Record) : Option ProtoDuration :=
  match r.key.field with
  | 1 => r.varint.map fun v => { d with seconds := signed64 v, seconds_fits := signed64_range v }
  | 2 => r.varint.map fun v => { d with nanos := signed32 v, nanos_fits := signed32_range v }
  | _ => some d

def codec (depth : Nat) : Codec ProtoDuration where
  empty := empty
  merge := decodeFields depth mergeField

/-- The items that are written: none for a zero. -/
def items (d : ProtoDuration) : List Record :=
  (if d.seconds = 0 then [] else [Record.ofVarint 1 (unsigned64 d.seconds)]) ++
    if d.nanos = 0 then [] else [Record.ofVarint 2 (unsigned64 d.nanos)]

def encode (d : ProtoDuration) : Bytes :=
  d.items.flatMap Record.bytes

end ProtoDuration

structure ResponseMeta where
  tag : Text
  ttl : Option ProtoDuration
  deriving DecidableEq

namespace ResponseMeta

/-- What one item adds; the duration inside is read with one level less. -/
def mergeField (depth : Nat) (m : ResponseMeta) (r : Record) : Option ResponseMeta :=
  match r.key.field with
  | 1 => r.str.map fun t => { m with tag := t }
  | 2 => ((ProtoDuration.codec (depth - 1)).field m.ttl r).map fun d => { m with ttl := d }
  | _ => some m

def codec (depth : Nat) : Codec ResponseMeta where
  empty := { tag := [], ttl := none }
  merge := decodeFields depth (mergeField depth)

/-- The items that are written: none for an empty tag. -/
def items (m : ResponseMeta) : List Record :=
  (if m.tag = [] then [] else [Record.ofLen 1 (textBytes m.tag)]) ++
    match m.ttl with
    | none => []
    | some d => [Record.ofLen 2 d.encode]

/-- `encode_to_vec` -/
def encode (m : ResponseMeta) : Bytes :=
  m.items.flatMap Record.bytes

end ResponseMeta

/-! ## Reading what was written -/

namespace ProtoDuration

theorem items_wf (d : ProtoDuration) {depth : Nat} : ∀ r ∈ d.items, r.WF depth := by
  intro r hr
  have hitem : ∃ field v, (1 ≤ field ∧ field < 2 ^ 29) ∧ r = Record.ofVarint field (unsigned64 v) := by
    rcases List.mem_append.1 hr with hseconds | hnanos
    · split at hseconds
      · cases hseconds
      · exact ⟨1, d.seconds, by decide, List.mem_singleton.1 hseconds⟩
    · split at hnanos
      · cases hnanos
      · exact ⟨2, d.nanos, by decide, List.mem_singleton.1 hnanos⟩
  obtain ⟨field, v, hfield, rfl⟩ := hitem
  exact Record.ofVarint_wf hfield (unsigned64_lt v)

theorem mergeField_seconds (d : ProtoDuration) {s : Int} (hs : -2 ^ 63 ≤ s ∧ s < 2 ^ 63) :
    d.mergeField (Record.ofVarint 1 (unsigned64 s)) =
      some { d with seconds := s, seconds_fits := hs } := by
  have hread : d.mergeField (Record.ofVarint 1 (unsigned64 s)) =
      (Record.ofVarint 1 (unsigned64 s)).varint.map fun v =>
        { d with seconds := signed64 v, seconds_fits := signed64_range v } := rfl
  rw [hread, Record.varint_ofVarint (unsigned64_lt s)]
  exact congrArg some (ProtoDuration.ext (signed64_unsigned64 hs) rfl)

theorem mergeField_nanos (d : ProtoDuration) {n : Int} (hn : -2 ^ 31 ≤ n ∧ n < 2 ^ 31) :
    d.mergeField (Record.ofVarint 2 (unsigned64 n)) =
      some { d with nanos := n, nanos_fits := hn } := by
  have hread : d.mergeField (Record.ofVarint 2 (unsigned64 n)) =
      (Record.ofVarint 2 (unsigned64 n)).varint.map fun v =>
        { d with nanos := signed32 v, nanos_fits := signed32_range v } := rfl
  rw [hread, Record.varint_ofVarint (unsigned64_lt n)]
  exact congrArg some (ProtoDuration.ext rfl (signed32_unsigned64 hn))

/-- A duration is read as it was written; what is left out is zero. -/
theorem decode_encode (d : ProtoDuration) (depth : Nat) : (codec depth).decode d.encode = some d := by
  have hfold : (codec depth).decode d.encode = d.items.foldlM mergeField empty :=
    decodeFields_flatMap d.items_wf
  rw [hfold, items, List.foldlM_append]
  have hseconds : (if d.seconds = 0 then [] else [Record.ofVarint 1 (unsigned64 d.seconds)]).foldlM
      mergeField empty = some { empty with seconds := d.seconds, seconds_fits := d.seconds_fits } := by
    split
    · next hzero => exact congrArg some (ProtoDuration.ext hzero.symm rfl)
    · rw [List.foldlM_cons, mergeField_seconds empty d.seconds_fits]
      rfl
  rw [hseconds]
  split
  · next hzero => exact congrArg some (ProtoDuration.ext rfl hzero.symm)
  · rw [Option.bind_eq_bind, Option.bind_some, List.foldlM_cons, mergeField_nanos _ d.nanos_fits]
    rfl

theorem length_encode_le (d : ProtoDuration) : d.encode.length ≤ 40 := by
  have hseconds := Record.length_ofVarint_le 1 (unsigned64 d.seconds)
  have hnanos := Record.length_ofVarint_le 2 (unsigned64 d.nanos)
  unfold encode items
  split <;> split <;> simp <;> omega

end ProtoDuration

namespace ResponseMeta

theorem items_wf {m : ResponseMeta} (htag : (textBytes m.tag).length < 2 ^ 64) {depth : Nat} :
    ∀ r ∈ m.items, r.WF depth := by
  intro r hr
  rcases List.mem_append.1 hr with hr | hr
  · split at hr
    · cases hr
    · rw [List.mem_singleton.1 hr]
      exact Record.ofLen_wf (by decide) htag
  · split at hr
    · cases hr
    · next d _ =>
        rw [List.mem_singleton.1 hr]
        exact Record.ofLen_wf (by decide) (Nat.lt_of_le_of_lt d.length_encode_le (by decide))

/-- A meta is read as it was written. -/
theorem decode_encode {m : ResponseMeta} (htag : (textBytes m.tag).length < 2 ^ 64) (depth : Nat) :
    (codec depth).decode m.encode = some m := by
  have hfold : (codec depth).decode m.encode =
      m.items.foldlM (mergeField depth) { tag := [], ttl := none } :=
    decodeFields_flatMap (items_wf htag)
  have hstr : (if m.tag = [] then [] else [Record.ofLen 1 (textBytes m.tag)]).foldlM
      (mergeField depth) { tag := [], ttl := none } = some { tag := m.tag, ttl := none } := by
    split
    · next hnil => rw [hnil]; rfl
    · have hread : mergeField depth { tag := [], ttl := none } (Record.ofLen 1 (textBytes m.tag)) =
          (Record.ofLen 1 (textBytes m.tag)).str.map fun t => { tag := t, ttl := none } := rfl
      rw [List.foldlM_cons, hread, Record.str_ofLen]
      rfl
  rw [hfold, items, List.foldlM_append, hstr, Option.bind_eq_bind, Option.bind_some]
  obtain ⟨tag, ttl⟩ := m
  cases ttl with
  | none => rfl
  | some d =>
      have hread : mergeField depth { tag := tag, ttl := none } (Record.ofLen 2 d.encode) =
          (((ProtoDuration.codec (depth - 1)).decode d.encode).map some).map fun d =>
            { tag := tag, ttl := d } := rfl
      dsimp only
      rw [List.foldlM_cons, hread, ProtoDuration.decode_encode]
      rfl

theorem length_encode_lt {m : ResponseMeta} (htag : (textBytes m.tag).length < 2 ^ 63) :
    m.encode.length < 2 ^ 64 := by
  have hitem := Record.length_ofLen_le 1 (textBytes m.tag)
  unfold encode items
  split <;> split
  · simp
  · next d _ =>
      have httl := Record.length_ofLen_le 2 d.encode
      have hd := d.length_encode_le
      simp
      omega
  · simp
    omega
  · next d _ =>
      have httl := Record.length_ofLen_le 2 d.encode
      have hd := d.length_encode_le
      simp
      omega

end ResponseMeta

/-! ## What a run answers -/

/-- A text as long as one in memory is. -/
structure HeldText where
  text : Text
  fits : (textBytes text).length < 2 ^ 63

/-- `std::time::Duration` -/
structure StdDuration where
  secs : Nat
  nanos : Nat
  secs_fits : secs < 2 ^ 64
  nanos_fits : nanos < 10 ^ 9

/-- How the typed decoder reads the two metas. -/
structure MetaReader (P : Prost) where
  tag : P.Value .requestMeta → HeldText
  read : P.Value .responseMeta → ResponseMeta
  depth : Nat
  /-- The decoder reads the fields of a meta as the wire format has them. -/
  decode_read : ∀ bs,
    ((P.codec .responseMeta).decode bs).map read = (ResponseMeta.codec depth).decode bs

/-- The tag of a request, empty where it has no meta. -/
def MetaReader.requestTag {P : Prost} (reader : MetaReader P) (req : RunFunctionRequest P) :
    HeldText :=
  (req.requestMeta.map reader.tag).getD { text := [], fits := by decide }

/-- What a run holds when its module has answered. -/
structure Step (P : Prost) where
  description : Text
  ttl : StdDuration
  decodeError : Bytes → Text
  /-- Both fences judge the decoded copy. -/
  readFence : RunFunctionResponse P → Except Text Unit
  outputFence : RunFunctionResponse P → Except Text Unit

namespace Step

variable {P : Prost}

/-- `response_meta`, with the casts of its duration. -/
def responseMeta (step : Step P) (tag : HeldText) : ResponseMeta where
  tag := tag.text
  ttl := some
    { seconds := signed64 step.ttl.secs
      nanos := signed32 step.ttl.nanos
      seconds_fits := signed64_range _
      nanos_fits := signed32_range _ }

/-- The response that goes back, or the text of the fatal result. -/
def answer (step : Step P) (tag : HeldText) (out : Bytes) : Except Text Bytes :=
  match RunFunctionResponse.decode P out with
  | none =>
      .error ("module ".toList ++ step.description ++ " failed: cannot decode response: ".toList ++
        step.decodeError out)
  | some got => do
      let refused (e : Text) : Text := "module ".toList ++ step.description ++ " ".toList ++ e
      (step.readFence got).mapError refused
      (step.outputFence got).mapError refused
      -- the bytes are the module's own in both cases
      if got.responseMeta.isSome then .ok out
      else .ok (appendMeta out (step.responseMeta tag).encode)

end Step

/-! ## Completed responses -/

section Completed

variable {P : Prost}

theorem RunFunctionResponse.decode_eq_some {bs : Bytes} {p : RunFunctionResponse P} :
    decode P bs = some p ↔
      ∃ rs, records P.depth bs = some rs ∧ rs.foldlM mergeField (empty P) = some p := by
  unfold decode
  cases records P.depth bs <;> simp

theorem appendMeta_eq (out rspMeta : Bytes) :
    appendMeta out rspMeta = out ++ (metaItem rspMeta).bytes := by
  rw [metaItem_bytes]
  simp [appendMeta]

/-- The items of a completed response are those of the response and the meta. -/
theorem records_appendMeta {depth : Nat} {out rspMeta : Bytes} {rs : List Record}
    (hrs : records depth out = some rs) (hmeta : rspMeta.length < 2 ^ 64) :
    records depth (appendMeta out rspMeta) = some (rs ++ [metaItem rspMeta]) := by
  obtain ⟨rfl, hwf⟩ := records_eq_some_iff.1 hrs
  rw [appendMeta_eq, records_eq_some_iff]
  refine ⟨by simp, fun r hr => ?_⟩
  rcases List.mem_append.1 hr with hr | hr
  · exact hwf r hr
  · exact List.mem_singleton.1 hr ▸ metaItem_wf hmeta

/-- A response without a meta is decoded with the one that was appended, and is the same otherwise:
decoding an item after all the others merges it into what they came to. -/
theorem decode_appendMeta {out rspMeta : Bytes} {got : RunFunctionResponse P}
    {v : P.Value .responseMeta} (hgot : RunFunctionResponse.decode P out = some got)
    (hnone : got.responseMeta = none) (hlength : rspMeta.length < 2 ^ 64)
    (hmeta : (P.codec .responseMeta).decode rspMeta = some v) :
    RunFunctionResponse.decode P (appendMeta out rspMeta) =
      some { got with responseMeta := some v } := by
  obtain ⟨rs, hrs, hfold⟩ := RunFunctionResponse.decode_eq_some.1 hgot
  have hmerge : got.mergeField (metaItem rspMeta) = some { got with responseMeta := some v } := by
    have hfield : (P.codec .responseMeta).field got.responseMeta (metaItem rspMeta) =
        ((P.codec .responseMeta).decode rspMeta).map some := by
      rw [hnone]
      rfl
    have hread : got.mergeField (metaItem rspMeta) =
        ((P.codec .responseMeta).field got.responseMeta (metaItem rspMeta)).map fun v =>
          { got with responseMeta := v } := rfl
    rw [hread, hfield, hmeta]
    rfl
  refine RunFunctionResponse.decode_eq_some.2 ⟨_, records_appendMeta hrs hlength, ?_⟩
  calc
    (rs ++ [metaItem rspMeta]).foldlM RunFunctionResponse.mergeField (RunFunctionResponse.empty P)
        = some got >>= fun p => [metaItem rspMeta].foldlM RunFunctionResponse.mergeField p := by
          rw [List.foldlM_append, hfold]
    _ = got.mergeField (metaItem rspMeta) >>= some := rfl
    _ = some { got with responseMeta := some v } := by
          rw [hmerge]
          rfl

/-- What may be made of a response: nothing of it changes but a meta that was missing. -/
structure Completes (reader : MetaReader P) (rspMeta : ResponseMeta) (out answer : Bytes)
    (got : RunFunctionResponse P) : Prop where
  untouched : out <+: answer
  items : ∃ rs extra, records P.depth out = some rs ∧
    records P.depth answer = some (rs ++ extra) ∧ ∀ r ∈ extra, r.key.field = metaField
  decoded : ∃ v, RunFunctionResponse.decode P answer = some { got with responseMeta := some v } ∧
    (∀ v', got.responseMeta = some v' → v = v') ∧
    (got.responseMeta = none → reader.read v = rspMeta)

/-- What the decoder reads is refused by a fence or goes back. -/
theorem answer_of_decode {step : Step P} {tag : HeldText} {out answer : Bytes}
    {got : RunFunctionResponse P} (hgot : RunFunctionResponse.decode P out = some got) :
    step.answer tag out = .ok answer ↔
      step.readFence got = .ok () ∧ step.outputFence got = .ok () ∧
        answer = if got.responseMeta.isSome then out
          else appendMeta out (step.responseMeta tag).encode := by
  unfold Step.answer
  rw [hgot]
  dsimp only
  rw [check_bind_eq_ok, check_bind_eq_ok, mapError_eq_ok, mapError_eq_ok]
  refine and_congr_right fun _ => and_congr_right fun _ => ?_
  split <;> simp [eq_comm]

/-- The runtime's meta is read by the decoder as it was written. -/
theorem decode_responseMeta (reader : MetaReader P) (step : Step P) (tag : HeldText) :
    ∃ v, (P.codec .responseMeta).decode (step.responseMeta tag).encode = some v ∧
      reader.read v = step.responseMeta tag := by
  have htag : (textBytes (step.responseMeta tag).tag).length < 2 ^ 64 :=
    Nat.lt_trans tag.fits (by decide)
  apply Option.map_eq_some_iff.1
  calc
    ((P.codec .responseMeta).decode (step.responseMeta tag).encode).map reader.read
        = (ResponseMeta.codec reader.depth).decode (step.responseMeta tag).encode :=
          reader.decode_read _
    _ = some (step.responseMeta tag) := ResponseMeta.decode_encode htag _

/-- A response that the decoder reads and no fence refuses goes back with the bytes of the module,
and is decoded as it was but for a meta that it lacked. -/
theorem completion_transparent (reader : MetaReader P) (step : Step P)
    (req : RunFunctionRequest P) {out answer : Bytes} {got : RunFunctionResponse P}
    (hgot : RunFunctionResponse.decode P out = some got)
    (hanswer : step.answer (reader.requestTag req) out = .ok answer) :
    Completes reader (step.responseMeta (reader.requestTag req)) out answer got := by
  obtain ⟨-, -, rfl⟩ := (answer_of_decode hgot).1 hanswer
  obtain ⟨rs, hrs, -⟩ := RunFunctionResponse.decode_eq_some.1 hgot
  cases hmeta : got.responseMeta with
  | some v =>
      -- the module wrote a meta: its bytes are the answer
      rw [Option.isSome_some, if_pos rfl]
      have hsame : { got with responseMeta := some v } = got := by rw [← hmeta]
      refine ⟨List.prefix_rfl, ⟨rs, [], hrs, by rw [List.append_nil, hrs], by simp⟩, v, ?_, ?_, ?_⟩
      · rw [hsame, hgot]
      · intro v' hv'
        rw [hmeta, Option.some_inj] at hv'
        exact hv'
      · intro hnone
        rw [hmeta] at hnone
        cases hnone
  | none =>
      obtain ⟨v, hv, hread⟩ := decode_responseMeta reader step (reader.requestTag req)
      have hlength : (step.responseMeta (reader.requestTag req)).encode.length < 2 ^ 64 :=
        ResponseMeta.length_encode_lt (reader.requestTag req).fits
      rw [Option.isSome_none, if_neg Bool.false_ne_true]
      refine ⟨?_, ⟨rs, _, hrs, records_appendMeta hrs hlength, ?_⟩, v, ?_, ?_, fun _ => hread⟩
      · rw [appendMeta_eq]
        exact List.prefix_append _ _
      · intro r hr
        rw [List.mem_singleton.1 hr]
        rfl
      · exact decode_appendMeta hgot hmeta hlength hv
      · intro v' hv'
        rw [hmeta] at hv'
        cases hv'

end Completed

/-! ## A response without a meta -/

section Sample

/-- The decoder with metas as they are, and every other message as its bytes. -/
def Prost.withMeta : Prost where
  Value
    | .responseMeta => ResponseMeta
    | _ => Bytes
  codec
    | .responseMeta => ResponseMeta.codec 98
    | .requestMeta | .state | .struct | .credentials | .resources | .schema | .result
    | .requirements | .condition =>
        { empty := ([] : Bytes)
          merge := fun v bs => some (v ++ bs) }
  depth := 99
  entryDepth := 98

def metaReader : MetaReader .withMeta where
  tag _ := { text := "tag".toList, fits := by decide }
  read v := v
  depth := 98
  decode_read bs :=
    congrFun (Option.map_id (α := ResponseMeta)) ((ResponseMeta.codec 98).decode bs)

def minuteStep : Step .withMeta where
  description := "module".toList
  ttl := { secs := 60, nanos := 0, secs_fits := by decide, nanos_fits := by decide }
  decodeError _ := []
  readFence _ := .ok ()
  outputFence _ := .ok ()

/-- An empty desired state and an unknown field, with a tag and a minute appended. -/
theorem bare_response_completed :
    Completes metaReader (minuteStep.responseMeta (metaReader.requestTag (.empty _)))
      [0x12, 0x00, 0x7a, 0x01, 0x78]
      [0x12, 0x00, 0x7a, 0x01, 0x78, 0x0a, 0x04, 0x12, 0x02, 0x08, 0x3c]
      { RunFunctionResponse.empty .withMeta with desired := some ([] : Bytes) } :=
  completion_transparent metaReader minuteStep (.empty _) rfl rfl

end Sample
end FunctionWasm

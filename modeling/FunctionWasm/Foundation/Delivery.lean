import FunctionWasm.Foundation.Text

/-!
# Delivery — what a reader hands out, in whatever portions

A reader is asked for bytes with a buffer, again and again, and hands out as many as it likes up to
the length of the buffer.  What it hands out in all is a `Delivery`: bytes, and then the end or a
failure.

* `Delivery.Reads` is one read; `ByteReader` is a reader whose every read is one of its delivery.
* `ByteReader.readAll_bytes` says that reads one after the other hand out the delivery from its start.
* `Delivery.limited` and `Delivery.capped` cut a delivery: the one ends there, the other fails.
* `Delivery.Upto` compares deliveries of which one fails early.
-/

namespace FunctionWasm

/-- What a reader hands out before it ends or fails. -/
structure Delivery where
  bytes : Bytes
  failure : Option Text
  deriving DecidableEq

namespace Delivery

/-- `Read::read_to_end` -/
def readToEnd (d : Delivery) : Except Text Bytes :=
  match d.failure with
  | none => .ok d.bytes
  | some e => .error e

/-- `Read::take`: the end comes after `n` bytes. -/
def limited (n : Nat) (d : Delivery) : Delivery :=
  if n ≤ d.bytes.length then ⟨d.bytes.take n, none⟩ else d

/-- A failure comes once `n` bytes have been handed out. -/
def capped (n : Nat) (e : Text) (d : Delivery) : Delivery :=
  if d.bytes.length < n then d else ⟨d.bytes.take n, some e⟩

/-- The one delivery is the other, or fails on the way. -/
def Upto (part whole : Delivery) : Prop :=
  part = whole ∨ (part.failure.isSome ∧ part.bytes <+: whole.bytes)

theorem readToEnd_ok {d : Delivery} {b : Bytes} : d.readToEnd = .ok b ↔ d = ⟨b, none⟩ := by
  rcases d with ⟨bytes, _ | e⟩ <;> simp [readToEnd]

/-- What is read through a limit, and is not over it, is all there is. -/
theorem limited_ok {d : Delivery} {limit : Nat} {b : Bytes}
    (h : (d.limited (limit + 1)).readToEnd = .ok b) (hle : b.length ≤ limit) : d = ⟨b, none⟩ := by
  unfold limited at h
  split at h
  · next hlong =>
      have hcut := readToEnd_ok.1 h
      cases hcut
      rw [List.length_take, Nat.min_eq_left hlong] at hle
      omega
  · exact readToEnd_ok.1 h

theorem Upto.eq_of_ends {part whole : Delivery} {b : Bytes} (h : part.Upto whole)
    (hends : part = ⟨b, none⟩) : whole = ⟨b, none⟩ := by
  subst hends
  rcases h with heq | ⟨hfails, -⟩
  · exact heq.symm
  · cases hfails

theorem capped_upto (n : Nat) (e : Text) (d : Delivery) : (d.capped n e).Upto d := by
  unfold capped
  split
  · exact .inl rfl
  · exact .inr ⟨rfl, List.take_prefix _ _⟩

theorem length_capped (n : Nat) (e : Text) (d : Delivery) : (d.capped n e).bytes.length ≤ n := by
  unfold capped
  split
  · next hshort => exact Nat.le_of_lt hshort
  · exact List.length_take_le _ _

/-! ## Reads -/

/-- One read into a buffer of `room` bytes: what it answers, and what is left to deliver. -/
inductive Reads : Delivery → Nat → Except Text Bytes → Delivery → Prop where
  | portion {room : Nat} {front rest : Bytes} {failure : Option Text} :
      front ≠ [] → front.length ≤ room →
      Reads ⟨front ++ rest, failure⟩ room (.ok front) ⟨rest, failure⟩
  | noRoom {d : Delivery} : Reads d 0 (.ok []) d
  | ended {room : Nat} : Reads ⟨[], none⟩ room (.ok []) ⟨[], none⟩
  | failed {room : Nat} {e : Text} : Reads ⟨[], some e⟩ room (.error e) ⟨[], some e⟩

/-- What was answered and what is left make up what there was. -/
theorem Reads.bytes {d d' : Delivery} {room : Nat} {answer : Except Text Bytes}
    (h : Reads d room answer d') : d.bytes = (answer.toOption.getD []) ++ d'.bytes := by
  cases h <;> rfl

end Delivery

/-- A reader, and what it has left to deliver. -/
class ByteReader (σ : Type) where
  read : σ → Nat → Except Text Bytes × σ
  delivery : σ → Delivery
  reads : ∀ r room, (delivery r).Reads room (read r room).1 (delivery (read r room).2)

namespace ByteReader

variable {σ : Type} [ByteReader σ]

/-- Reads one after the other, with buffers of these lengths: all bytes that were handed out. -/
def readAll (r : σ) : List Nat → Bytes × σ
  | [] => ([], r)
  | room :: rooms =>
      let (answer, r) := read r room
      let (bytes, r) := readAll r rooms
      (answer.toOption.getD [] ++ bytes, r)

/-- Reads hand out the delivery from its start. -/
theorem readAll_bytes (r : σ) (rooms : List Nat) :
    (delivery r).bytes = (readAll r rooms).1 ++ (delivery (readAll r rooms).2).bytes := by
  induction rooms generalizing r with
  | nil => rfl
  | cons room rooms ih =>
      have hstep := (reads r room).bytes
      calc (delivery r).bytes
          = (read r room).1.toOption.getD [] ++ (delivery (read r room).2).bytes := hstep
        _ = (read r room).1.toOption.getD [] ++ ((readAll (read r room).2 rooms).1 ++
              (delivery (readAll (read r room).2 rooms).2).bytes) := by
            rw [← ih (read r room).2]
        _ = (readAll r (room :: rooms)).1 ++
              (delivery (readAll r (room :: rooms)).2).bytes := by
            simp [readAll]

theorem length_readAll (r : σ) (rooms : List Nat) :
    (readAll r rooms).1.length ≤ (delivery r).bytes.length := by
  have hbytes := congrArg List.length (readAll_bytes r rooms)
  rw [List.length_append] at hbytes
  omega

end ByteReader

/-- A slice of bytes is a reader. -/
instance : ByteReader Bytes where
  read bs room := (.ok (bs.take room), bs.drop room)
  delivery bs := ⟨bs, none⟩
  reads bs room := by
    cases bs with
    | nil => simpa using Delivery.Reads.ended
    | cons b bs =>
        cases room with
        | zero => exact .noRoom
        | succ room =>
            have hread : Delivery.Reads ⟨(b :: bs).take (room + 1) ++ (b :: bs).drop (room + 1), none⟩
                (room + 1) (.ok ((b :: bs).take (room + 1))) ⟨(b :: bs).drop (room + 1), none⟩ :=
              .portion (by simp) (List.length_take_le _ _)
            rwa [List.take_append_drop] at hread

end FunctionWasm

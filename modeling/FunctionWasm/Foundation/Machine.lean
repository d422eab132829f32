import FunctionWasm.Foundation.Reader

/-!
# Machine — machine words, slices and the ways a program stops without an answer

Code over 64-bit offsets either answers or faults.  What an addition that leaves 64 bits does is a
property of the build: with overflow checks it faults, without them it wraps.

* `Checked α` is an answer or a `Fault`.
* `Build.add` and `Build.sub` are the addition and the difference of two `usize`, `Build.mul` the
  product of two words of any width, `slice` the sub-slice of a byte buffer.
* `Buffer` is a byte buffer that fits the address space.
-/

namespace FunctionWasm

inductive Fault where
  /-- an arithmetic overflow in a build that checks for it -/
  | overflow
  /-- an inverted slice or one past the end of its buffer -/
  | outOfRange
  /-- a loop that comes back to where it has been -/
  | diverges
  deriving DecidableEq, Repr

abbrev Checked (α : Type) := Except Fault α

structure Build where
  overflowChecks : Bool
  deriving DecidableEq, Repr

def usizeBound : Nat := 2 ^ 64

def Build.add (b : Build) (x y : Nat) : Checked Nat :=
  if x + y < usizeBound then .ok (x + y)
  else if b.overflowChecks then .error .overflow
  else .ok ((x + y) % usizeBound)

theorem Build.add_of_lt {b : Build} {x y : Nat} (h : x + y < usizeBound) :
    b.add x y = .ok (x + y) :=
  if_pos h

/-- The difference of two `usize`. -/
def Build.sub (b : Build) (x y : Nat) : Checked Nat :=
  if y ≤ x then .ok (x - y)
  else if b.overflowChecks then .error .overflow
  else .ok (x + usizeBound - y)

theorem Build.sub_of_le {b : Build} {x y : Nat} (h : y ≤ x) : b.sub x y = .ok (x - y) :=
  if_pos h

/-- The product of two unsigned words of `width` bits. -/
def Build.mul (b : Build) (width x y : Nat) : Checked Nat :=
  if x * y < 2 ^ width then .ok (x * y)
  else if b.overflowChecks then .error .overflow
  else .ok (x * y % 2 ^ width)

theorem Build.mul_of_lt {b : Build} {width x y : Nat} (h : x * y < 2 ^ width) :
    b.mul width x y = .ok (x * y) :=
  if_pos h

/-- `bs[i..j]` -/
def slice (bs : Bytes) (i j : Nat) : Checked Bytes :=
  if i ≤ j ∧ j ≤ bs.length then .ok ((bs.take j).drop i) else .error .outOfRange

/-- The slice between a prefix and a suffix. -/
theorem slice_append (pre mid post : Bytes) {i j : Nat} (hi : i = pre.length)
    (hj : j = pre.length + mid.length) : slice (pre ++ mid ++ post) i j = .ok mid := by
  subst hi hj
  have hlen : (pre ++ mid).length = pre.length + mid.length := List.length_append
  unfold slice
  rw [if_pos ⟨by omega, by simp⟩, ← hlen, List.take_left, List.drop_left]

/-- No buffer is longer than the largest signed word. -/
structure Buffer where
  bytes : Bytes
  fits : bytes.length < 2 ^ 63

end FunctionWasm

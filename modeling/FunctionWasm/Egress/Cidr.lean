import Mathlib.Data.BitVec
import FunctionWasm.Egress.Rules
import FunctionWasm.Foundation.Checks

/-!
# Cidr — networks, how they are read and which addresses are in them

A prefix is read from a literal, masked, and tested against an address by masking that, too.  Read
as numbers, the addresses of a network are an interval.

* `parseCedar` reads an ip literal.
* `IsNetwork` are the prefixes that it makes: a length that the address has, and no bit beyond it.
* `contains_network` says that the test by masks is membership in the interval.
-/

namespace FunctionWasm

namespace IpAddr

/-- The number of bits of an address. -/
def width : IpAddr → Nat
  | .v4 _ => 32
  | .v6 _ => 128

def value : IpAddr → Nat
  | .v4 bits => bits.toNat
  | .v6 bits => bits.toNat

end IpAddr

namespace Egress

/-! ## Intervals -/

namespace IpPrefix

/-- The number of addresses in the network. -/
def size (p : IpPrefix) : Nat := 2 ^ (p.addr.width - p.len)

def first (p : IpPrefix) : Nat := p.addr.value / p.size * p.size

def last (p : IpPrefix) : Nat := p.first + (p.size - 1)

/-- The address is of the family of the network and among its addresses. -/
def Spans (p : IpPrefix) (ip : IpAddr) : Prop :=
  ip.width = p.addr.width ∧ p.first ≤ ip.value ∧ ip.value ≤ p.last

/-- The prefix without the bits beyond its length. -/
def network (p : IpPrefix) : IpPrefix :=
  match p.addr with
  | .v4 bits => { p with addr := .v4 (bits &&& (BitVec.allOnes 32 <<< (32 - p.len))) }
  | .v6 bits => { p with addr := .v6 (bits &&& (BitVec.allOnes 128 <<< (128 - p.len))) }

@[simp] theorem network_len (p : IpPrefix) : p.network.len = p.len := by
  unfold network
  split <;> rfl

@[simp] theorem network_width (p : IpPrefix) : p.network.addr.width = p.addr.width := by
  rcases p with ⟨_ | _, len⟩ <;> rfl

end IpPrefix

/-- Masking takes off the low bits. -/
theorem and_allOnes_shiftLeft {w s : Nat} (x : BitVec w) :
    x &&& (BitVec.allOnes w <<< s) = (x >>> s) <<< s := by
  ext i hi
  by_cases hs : i < s
  · simp [hs]
  · have hadd : s + (i - s) = i := by omega
    simp [hs, hadd, BitVec.getLsbD_eq_getElem hi]

theorem toNat_and_allOnes_shiftLeft {w s : Nat} (x : BitVec w) :
    (x &&& (BitVec.allOnes w <<< s)).toNat = x.toNat / 2 ^ s * 2 ^ s := by
  rw [and_allOnes_shiftLeft, BitVec.toNat_shiftLeft, BitVec.toNat_ushiftRight,
    Nat.shiftRight_eq_div_pow, Nat.shiftLeft_eq]
  exact Nat.mod_eq_of_lt (lt_of_le_of_lt (Nat.div_mul_le_self _ _) x.isLt)

theorem network_value (p : IpPrefix) : p.network.addr.value = p.first := by
  rcases p with ⟨bits | bits, len⟩
  · exact toNat_and_allOnes_shiftLeft bits
  · exact toNat_and_allOnes_shiftLeft bits

/-- A number is in the interval of another exactly when both lose the same low part. -/
theorem div_mul_eq_iff {x y k : Nat} (hk : 0 < k) :
    x / k * k = y / k * k ↔ y / k * k ≤ x ∧ x ≤ y / k * k + (k - 1) := by
  have hx := Nat.div_add_mod x k
  have hmod := Nat.mod_lt x hk
  rw [Nat.mul_comm] at hx
  constructor
  · intro h
    omega
  · rintro ⟨hlow, hhigh⟩
    have hquot : x / k = y / k := by
      refine le_antisymm ?_ ?_
      · refine Nat.le_of_lt_succ ((Nat.div_lt_iff_lt_mul hk).2 ?_)
        rw [Nat.succ_mul]
        omega
      · exact (Nat.le_div_iff_mul_le hk).2 hlow
    rw [hquot]

/-! ## The test -/

/-- A prefix with a length that its address has, and no bit beyond it. -/
structure IsNetwork (p : IpPrefix) : Prop where
  len : p.len ≤ p.addr.width
  masked : p.network = p

theorem maskOf_of_le {b : Build} {width len : Nat} (h : len ≤ width) :
    maskOf b width len = .ok (BitVec.allOnes width <<< (width - len)) := by
  unfold maskOf
  by_cases hzero : len = 0
  · have hnone : BitVec.allOnes width <<< width = 0 := by simp
    simp [hzero, hnone]
  · simp [hzero, h]

theorem masked_of_le {b : Build} {p : IpPrefix} (h : p.len ≤ p.addr.width) :
    p.masked b = .ok p.network := by
  rcases p with ⟨bits | bits, len⟩
  · have hmask : maskOf b 32 len = .ok _ := maskOf_of_le h
    simp only [IpPrefix.masked, hmask]
    rfl
  · have hmask : maskOf b 128 len = .ok _ := maskOf_of_le h
    simp only [IpPrefix.masked, hmask]
    rfl

/-- Masking keeps the family. -/
theorem masked_width {b : Build} {p q : IpPrefix} (h : p.masked b = .ok q) :
    q.addr.width = p.addr.width := by
  rcases p with ⟨bits | bits, len⟩
  · rcases bind_eq_ok.1 h with ⟨mask, -, heq⟩
    cases heq
    rfl
  · rcases bind_eq_ok.1 h with ⟨mask, -, heq⟩
    cases heq
    rfl

theorem addr_eq_iff {a c : IpAddr} (hwidth : a.width = c.width) : a = c ↔ a.value = c.value := by
  constructor
  · exact congrArg IpAddr.value
  · intro h
    cases a with
    | v4 x =>
        cases c with
        | v4 y => exact congrArg IpAddr.v4 (BitVec.eq_of_toNat_eq h)
        | v6 y => cases hwidth
    | v6 x =>
        cases c with
        | v4 y => cases hwidth
        | v6 y => exact congrArg IpAddr.v6 (BitVec.eq_of_toNat_eq h)

/-- A masked address is that of the network exactly when it is among its addresses. -/
theorem network_addr_eq_iff {p : IpPrefix} (hp : IsNetwork p) {ip : IpAddr}
    (hwidth : ip.width = p.addr.width) :
    (IpPrefix.network { addr := ip, len := p.len }).addr = p.addr ↔ p.Spans ip := by
  have hpos : 0 < p.size := Nat.two_pow_pos _
  have hself : p.addr.value = p.first := by
    rw [← network_value, hp.masked]
  have hsize : IpPrefix.size { addr := ip, len := p.len } = p.size := by
    unfold IpPrefix.size
    rw [hwidth]
  rw [addr_eq_iff (by rw [IpPrefix.network_width, hwidth]), network_value, hself]
  unfold IpPrefix.first IpPrefix.Spans IpPrefix.last IpPrefix.first
  rw [hsize, div_mul_eq_iff hpos]
  simp [hwidth]

/-- Whatever the test answers, is membership. -/
theorem contains_network {b : Build} {p : IpPrefix} (hp : IsNetwork p) {ip : IpAddr} {v : Bool}
    (h : p.contains b ip = .ok v) : v = true ↔ p.Spans ip := by
  rcases bind_eq_ok.1 h with ⟨q, hq, heq⟩
  cases heq
  rw [decide_eq_true_iff]
  by_cases hwidth : ip.width = p.addr.width
  · rw [masked_of_le (hwidth ▸ hp.len)] at hq
    cases hq
    exact network_addr_eq_iff hp hwidth
  · -- a masked address of the other family is no address of the network
    have hother : q.addr.width = ip.width := masked_width hq
    constructor
    · intro haddr
      rw [haddr] at hother
      exact absurd hother.symm hwidth
    · intro hspans
      exact absurd hspans.1 hwidth

theorem maskOf_answers (width len : Nat) : ∃ m, maskOf ⟨false⟩ width len = .ok m := by
  unfold maskOf
  split
  · exact ⟨_, rfl⟩
  · split
    · exact ⟨_, rfl⟩
    · exact ⟨_, rfl⟩

/-- Without overflow checks there is an answer. -/
theorem contains_answers (p : IpPrefix) (ip : IpAddr) : ∃ v, p.contains ⟨false⟩ ip = .ok v := by
  cases ip with
  | v4 bits =>
      rcases maskOf_answers 32 p.len with ⟨m, hm⟩
      exact ⟨_, bind_eq_ok.2 ⟨_, bind_eq_ok.2 ⟨m, hm, rfl⟩, rfl⟩⟩
  | v6 bits =>
      rcases maskOf_answers 128 p.len with ⟨m, hm⟩
      exact ⟨_, bind_eq_ok.2 ⟨_, bind_eq_ok.2 ⟨m, hm, rfl⟩, rfl⟩⟩

/-! ## Reading -/

/-- The digits of a `u8`, after `v`. -/
def readU8From (v : Nat) : Text → Except Text Nat
  | [] => .ok v
  | c :: rest =>
      match digitOf 10 c with
      | none => .error "invalid digit found in string".toList
      | some d =>
          if 255 < v * 10 + d then .error "number too large to fit in target type".toList
          else readU8From (v * 10 + d) rest

/-- `str::parse::<u8>`, which takes a plus sign before the digits. -/
def readU8 (t : Text) : Except Text Nat :=
  match t with
  | [] => .error "cannot parse integer from empty string".toList
  | c :: rest => if c = '+' ∧ rest ≠ [] then readU8From 0 rest else readU8From 0 (c :: rest)

def addressSyntax : Text := "invalid IP address syntax".toList

/-- Reads an ip literal: a bare address is a host prefix, a CIDR its masked network.  Where it is
masked, the length is one that the address has. -/
def IpPrefix.parseCedar (t : Text) : Except Text IpPrefix :=
  match splitOnce '/' t with
  | none =>
      match parseIp t with
      | none => .error addressSyntax
      | some addr => .ok (IpPrefix.network { addr := addr, len := addr.width })
  | some (a, l) =>
      match parseIp a with
      | none => .error addressSyntax
      | some addr =>
          match readU8 l with
          | .error e => .error e
          | .ok len =>
              if addr.width < len then
                .error ("prefix length ".toList ++ (toString len).toList ++
                  " out of range".toList)
              else .ok (IpPrefix.network { addr := addr, len := len })

theorem network_size (p : IpPrefix) : p.network.size = p.size := by
  unfold IpPrefix.size
  rw [IpPrefix.network_width, IpPrefix.network_len]

theorem first_network (p : IpPrefix) : p.network.first = p.first := by
  have hpos : 0 < p.size := Nat.two_pow_pos _
  rw [IpPrefix.first, network_value, network_size, IpPrefix.first, Nat.mul_div_cancel _ hpos]

/-- Masking twice is masking once. -/
theorem network_network (p : IpPrefix) : p.network.network = p.network := by
  have haddr : p.network.network.addr = p.network.addr := by
    rw [addr_eq_iff (IpPrefix.network_width _), network_value, first_network, network_value]
  have hlen : p.network.network.len = p.network.len := IpPrefix.network_len _
  rcases hnn : p.network.network with ⟨a, l⟩
  rcases hn : p.network with ⟨a', l'⟩
  rw [hnn, hn] at haddr hlen
  rw [show a = a' from haddr, show l = l' from hlen]

theorem network_isNetwork {p : IpPrefix} (h : p.len ≤ p.addr.width) : IsNetwork p.network where
  len := by rwa [IpPrefix.network_len, IpPrefix.network_width]
  masked := network_network p

theorem parseCedar_network {t : Text} {p : IpPrefix} (h : IpPrefix.parseCedar t = .ok p) :
    IsNetwork p := by
  unfold IpPrefix.parseCedar at h
  split at h
  · split at h
    · cases h
    · cases h
      exact network_isNetwork le_rfl
  · split at h
    · cases h
    · split at h
      · cases h
      · split at h
        · cases h
        · next hlen =>
            cases h
            exact network_isNetwork (Nat.le_of_not_lt hlen)

/-! ## The decision of the ceiling -/

instance (p : IpPrefix) : Decidable (IsNetwork p) :=
  decidable_of_iff (p.len ≤ p.addr.width ∧ p.network = p)
    ⟨fun h => ⟨h.1, h.2⟩, fun h => ⟨h.len, h.masked⟩⟩

theorem defaultBlocked_network : ∀ p ∈ defaultBlocked, IsNetwork p := by decide

section Lists

variable {b : Build} {l : List IpPrefix} {ip : IpAddr}

/-- The search answers with a network of the address, if there is one. -/
theorem findM?_contains (hl : ∀ p ∈ l, IsNetwork p) {v : Option IpPrefix}
    (h : l.findM? (fun p => p.contains b ip) = .ok v) :
    v.isSome = true ↔ ∃ p ∈ l, p.Spans ip := by
  induction l with
  | nil =>
      cases h
      simp
  | cons p rest ih =>
      rw [List.findM?] at h
      rcases bind_eq_ok.1 h with ⟨found, hfound, h⟩
      have hp := contains_network (hl p (by simp)) hfound
      cases found with
      | true =>
          cases h
          exact iff_of_true rfl ⟨p, by simp, hp.1 rfl⟩
      | false =>
          have hnot : ¬ p.Spans ip := fun hspans => Bool.noConfusion (hp.2 hspans)
          rw [ih (fun q hq => hl q (List.mem_cons_of_mem _ hq)) h]
          simp [hnot]

theorem anyM_contains (hl : ∀ p ∈ l, IsNetwork p) {v : Bool}
    (h : l.anyM (fun p => p.contains b ip) = .ok v) : v = true ↔ ∃ p ∈ l, p.Spans ip := by
  induction l with
  | nil =>
      cases h
      simp
  | cons p rest ih =>
      rw [List.anyM_cons] at h
      rcases bind_eq_ok.1 h with ⟨found, hfound, h⟩
      have hp := contains_network (hl p (by simp)) hfound
      cases found with
      | true =>
          cases h
          exact iff_of_true rfl ⟨p, by simp, hp.1 rfl⟩
      | false =>
          have hnot : ¬ p.Spans ip := fun hspans => Bool.noConfusion (hp.2 hspans)
          rw [ih (fun q hq => hl q (List.mem_cons_of_mem _ hq)) h]
          simp [hnot]

/-- Without overflow checks the search ends. -/
theorem findM?_answers (l : List IpPrefix) (ip : IpAddr) :
    ∃ v, l.findM? (fun p => p.contains ⟨false⟩ ip) = .ok v := by
  induction l with
  | nil => exact ⟨none, rfl⟩
  | cons p rest ih =>
      rcases contains_answers p ip with ⟨found, hfound⟩
      rcases ih with ⟨v, hv⟩
      rw [List.findM?, hfound]
      cases found with
      | true => exact ⟨some p, rfl⟩
      | false => exact ⟨v, hv⟩

theorem anyM_answers (l : List IpPrefix) (ip : IpAddr) :
    ∃ v, l.anyM (fun p => p.contains ⟨false⟩ ip) = .ok v := by
  induction l with
  | nil => exact ⟨false, rfl⟩
  | cons p rest ih =>
      rcases contains_answers p ip with ⟨found, hfound⟩
      rcases ih with ⟨v, hv⟩
      rw [List.anyM_cons, hfound]
      cases found with
      | true => exact ⟨true, rfl⟩
      | false => exact ⟨v, hv⟩

end Lists

/-- What the lists of a ceiling say about an address: an explicit network refuses it, else an
allowed one admits it, else a blocked one refuses it. -/
def Ceiling.Refuses (e : Ceiling) (ip : IpAddr) : Prop :=
  (∃ p ∈ e.explicit, p.Spans ip) ∨
    (¬ ∃ p ∈ e.allowed, p.Spans ip) ∧ ∃ p ∈ e.blocked, p.Spans ip

/-- Whatever is answered about an address is what the lists say about the address it carries. -/
theorem blockedBy_iff {b : Build} {e : Ceiling} (hexplicit : ∀ p ∈ e.explicit, IsNetwork p)
    (hallowed : ∀ p ∈ e.allowed, IsNetwork p) (hblocked : ∀ p ∈ e.blocked, IsNetwork p)
    {ip : IpAddr} {v : Option IpPrefix} (h : e.blockedBy b ip = .ok v) :
    v.isSome = true ↔ e.Refuses ip.unmap := by
  rcases bind_eq_ok.1 h with ⟨found, hfound, h⟩
  have hforbidden := findM?_contains hexplicit hfound
  cases found with
  | some p =>
      cases h
      exact iff_of_true rfl (.inl (hforbidden.1 rfl))
  | none =>
      have hnone : ¬ ∃ p ∈ e.explicit, p.Spans ip.unmap := by
        simpa using hforbidden
      rcases bind_eq_ok.1 h with ⟨hole, hhole, h⟩
      have hpermitted := anyM_contains hallowed hhole
      cases hole with
      | true =>
          cases h
          refine iff_of_false Bool.false_ne_true ?_
          rintro (hsome | ⟨hno, -⟩)
          · exact hnone hsome
          · exact hno (hpermitted.1 rfl)
      | false =>
          have hno : ¬ ∃ p ∈ e.allowed, p.Spans ip.unmap := by simpa using hpermitted
          rw [findM?_contains hblocked h]
          simp only [Ceiling.Refuses, hnone, hno, false_or, not_false_eq_true, true_and]

/-- Without overflow checks there is an answer about every address. -/
theorem blockedBy_answers (e : Ceiling) (ip : IpAddr) : ∃ v, e.blockedBy ⟨false⟩ ip = .ok v := by
  rcases findM?_answers e.explicit ip.unmap with ⟨found, hfound⟩
  rcases anyM_answers e.allowed ip.unmap with ⟨hole, hhole⟩
  rcases findM?_answers e.blocked ip.unmap with ⟨listed, hlisted⟩
  unfold Ceiling.blockedBy
  simp only [hfound, ok_bind]
  cases found with
  | some p => exact ⟨some p, rfl⟩
  | none =>
      simp only [hhole, ok_bind]
      cases hole with
      | true => exact ⟨none, rfl⟩
      | false => exact ⟨listed, hlisted⟩

end Egress
end FunctionWasm

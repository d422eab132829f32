import FunctionWasm.Egress.Cidr

/-!
# Prefix — the prefixes that are read, and whether every address can be tested against them

A prefix tests an address by masking it with its own length, whatever the family of the address.

* `IpPrefix.parse` reads a plain CIDR, and takes any length that a byte holds.
* `IpPrefix.Decides` says that a test is the same answer in every build, and is membership.
* `cidr_exact_iff` says for which literals and addresses the two readers and the test are exact.
-/

namespace FunctionWasm
namespace Egress

/-! ## Reading -/

/-- Reads a plain CIDR, masked.  The length is not compared with the width of the address, as
`parseCedar` does.  `debug` is how a text is quoted in an error. -/
def IpPrefix.parse (debug : Text → Text) (b : Build) (t : Text) :
    Checked (Except Text IpPrefix) :=
  match splitOnce '/' t with
  | none => .ok (.error (debug t ++ " is not a CIDR".toList))
  | some (addr, len) =>
      match parseIp addr with
      | none => .ok (.error (debug t ++ " is not a CIDR: ".toList ++ addressSyntax))
      | some addr =>
          match readU8 len with
          | .error e => .ok (.error (debug t ++ " is not a CIDR: ".toList ++ e))
          | .ok len => do return .ok (← IpPrefix.masked b { addr := addr, len := len })

/-- The address and the length that a CIDR states. -/
def cidrOf (t : Text) : Option (IpAddr × Nat) :=
  match splitOnce '/' t with
  | none => none
  | some (a, l) =>
      match parseIp a, readU8 l with
      | some addr, .ok len => some (addr, len)
      | _, _ => none

/-- The address and the length that an ip literal states: all of a bare address. -/
def literalOf (t : Text) : Option (IpAddr × Nat) :=
  match splitOnce '/' t with
  | none => (parseIp t).map fun addr => (addr, addr.width)
  | some _ => cidrOf t

theorem parse_refuses {debug : Text → Text} {b : Build} {t : Text} (h : cidrOf t = none) :
    ∃ e, IpPrefix.parse debug b t = .ok (.error e) := by
  unfold IpPrefix.parse
  unfold cidrOf at h
  split
  · exact ⟨_, rfl⟩
  · next a l hsplit =>
      rw [hsplit] at h
      dsimp only at h
      split
      · exact ⟨_, rfl⟩
      · next addr haddr =>
          cases hlen : readU8 l with
          | error e => exact ⟨_, rfl⟩
          | ok len => simp [haddr, hlen] at h

theorem parse_of_cidrOf {debug : Text → Text} {b : Build} {t : Text} {addr : IpAddr} {len : Nat}
    (h : cidrOf t = some (addr, len)) :
    IpPrefix.parse debug b t = (IpPrefix.masked b { addr := addr, len := len }).map .ok := by
  unfold IpPrefix.parse
  unfold cidrOf at h
  split
  · next hsplit => simp [hsplit] at h
  · next a l hsplit =>
      rw [hsplit] at h
      dsimp only at h
      split
      · next haddr => simp [haddr] at h
      · next addr' haddr =>
          cases hlen : readU8 l with
          | error e => simp [haddr, hlen] at h
          | ok len' =>
              simp only [haddr, hlen, Option.some.injEq, Prod.mk.injEq] at h
              rcases h with ⟨rfl, rfl⟩
              dsimp only
              cases IpPrefix.masked b { addr := addr', len := len' } <;> rfl

theorem parseCedar_of_literalOf {t : Text} {addr : IpAddr} {len : Nat}
    (h : literalOf t = some (addr, len)) (hlen : len ≤ addr.width) :
    IpPrefix.parseCedar t = .ok (IpPrefix.network { addr := addr, len := len }) := by
  unfold IpPrefix.parseCedar
  unfold literalOf cidrOf at h
  split
  · next hsplit =>
      simp only [hsplit, Option.map_eq_some_iff, Prod.mk.injEq] at h
      rcases h with ⟨a, haddr, rfl, rfl⟩
      rw [haddr]
  · next a l hsplit =>
      simp only [hsplit] at h
      split
      · next haddr => simp [haddr] at h
      · next addr' haddr =>
          cases hread : readU8 l with
          | error e => simp [haddr, hread] at h
          | ok len' =>
              simp only [haddr, hread, Option.some.injEq, Prod.mk.injEq] at h
              rcases h with ⟨rfl, rfl⟩
              exact if_neg (Nat.not_lt.2 hlen)

/-- What is read is the network of the literal, whose length the address has. -/
theorem parseCedar_ok {t : Text} {p : IpPrefix} (h : IpPrefix.parseCedar t = .ok p) :
    ∃ addr len, literalOf t = some (addr, len) ∧ len ≤ addr.width ∧
      p = IpPrefix.network { addr := addr, len := len } := by
  unfold IpPrefix.parseCedar at h
  unfold literalOf cidrOf
  split at h
  · next hsplit =>
      split at h
      · cases h
      · next addr haddr =>
          cases h
          exact ⟨addr, addr.width, by simp [hsplit, haddr], le_rfl, rfl⟩
  · next a l hsplit =>
      split at h
      · cases h
      · next addr haddr =>
          split at h
          · cases h
          · next len hread =>
              split at h
              · cases h
              · next hlen =>
                  cases h
                  exact ⟨addr, len, by simp [hsplit, haddr, hread], Nat.le_of_not_lt hlen, rfl⟩

/-! ## The test -/

/-- The test of an address is one answer in every build, and it is whether the address is in the
network. -/
def IpPrefix.Decides (p : IpPrefix) (ip : IpAddr) : Prop :=
  ∃ v, (∀ b, p.contains b ip = .ok v) ∧ (v = true ↔ p.Spans ip)

/-- With overflow checks only an address with as many bits as the prefix is long is masked. -/
theorem le_of_masked {p q : IpPrefix} (h : p.masked ⟨true⟩ = .ok q) : p.len ≤ p.addr.width := by
  have hmask : ∀ {width len : Nat} {m : BitVec width}, maskOf ⟨true⟩ width len = .ok m →
      len ≤ width := by
    intro width len m hm
    by_contra hlong
    have hzero : len ≠ 0 := by omega
    simp [maskOf, hzero, hlong] at hm
  rcases p with ⟨bits | bits, len⟩
  · rcases bind_eq_ok.1 h with ⟨m, hm, -⟩
    exact hmask hm
  · rcases bind_eq_ok.1 h with ⟨m, hm, -⟩
    exact hmask hm

theorem contains_of_le {p : IpPrefix} {ip : IpAddr} (h : p.len ≤ ip.width) (b : Build) :
    p.contains b ip =
      .ok (decide ((IpPrefix.network { addr := ip, len := p.len }).addr = p.addr)) := by
  have hmasked : IpPrefix.masked b { addr := ip, len := p.len } =
      .ok (IpPrefix.network { addr := ip, len := p.len }) := masked_of_le h
  unfold IpPrefix.contains
  rw [hmasked]
  rfl

/-- A network decides about exactly the addresses that are as wide as it is long: an address of the
other family is masked like any other before it is found to differ. -/
theorem decides_iff {p : IpPrefix} (hp : IsNetwork p) {ip : IpAddr} :
    p.Decides ip ↔ p.len ≤ ip.width := by
  constructor
  · rintro ⟨v, hv, -⟩
    rcases bind_eq_ok.1 (hv ⟨true⟩) with ⟨q, hq, -⟩
    exact le_of_masked hq
  · intro hle
    exact ⟨_, contains_of_le hle, contains_network hp (contains_of_le hle ⟨true⟩)⟩

/-- What a reader accepts has a length that its address has, and decides about the address; and the
reader itself answers in every build. -/
def ReadsExactly (read : Build → Checked (Except Text IpPrefix)) (ip : IpAddr) : Prop :=
  (∀ b, ∃ r, read b = .ok r) ∧
    ∀ b p, read b = .ok (.ok p) → p.len ≤ p.addr.width ∧ p.Decides ip

theorem network_decides_iff {addr ip : IpAddr} {len : Nat} (hlen : len ≤ addr.width) :
    (IpPrefix.network { addr := addr, len := len }).Decides ip ↔ len ≤ ip.width := by
  have hnet : IsNetwork (IpPrefix.network { addr := addr, len := len }) := network_isNetwork hlen
  have hlength : (IpPrefix.network { addr := addr, len := len }).len = len :=
    IpPrefix.network_len _
  rw [decides_iff hnet, hlength]

theorem parse_exact_iff (debug : Text → Text) (t : Text) (ip : IpAddr) :
    ReadsExactly (fun b => IpPrefix.parse debug b t) ip ↔
      ∀ addr len, cidrOf t = some (addr, len) → len ≤ addr.width ∧ len ≤ ip.width := by
  constructor
  · rintro ⟨hanswers, hexact⟩ addr len hcidr
    rcases hanswers ⟨true⟩ with ⟨r, hr⟩
    dsimp only at hr
    rw [parse_of_cidrOf hcidr] at hr
    -- the build with overflow checks masks only what has the length
    cases hmasked : IpPrefix.masked ⟨true⟩ { addr := addr, len := len } with
    | error e => simp [hmasked, Except.map] at hr
    | ok q =>
        have hlen : len ≤ addr.width := le_of_masked hmasked
        rw [masked_of_le hlen] at hmasked
        cases hmasked
        have hread : IpPrefix.parse debug ⟨true⟩ t =
            .ok (.ok (IpPrefix.network { addr := addr, len := len })) := by
          rw [parse_of_cidrOf hcidr, masked_of_le hlen]
          rfl
        exact ⟨hlen, (network_decides_iff hlen).1 (hexact _ _ hread).2⟩
  · intro hle
    cases hcidr : cidrOf t with
    | none =>
        have hrefused : ∀ b, ∃ e, IpPrefix.parse debug b t = .ok (.error e) := fun b =>
          parse_refuses hcidr
        refine ⟨fun b => ?_, fun b p hp => ?_⟩
        · rcases hrefused b with ⟨e, he⟩
          exact ⟨_, he⟩
        · rcases hrefused b with ⟨e, he⟩
          cases he.symm.trans hp
    | some stated =>
        rcases stated with ⟨addr, len⟩
        rcases hle addr len hcidr with ⟨hlen, hip⟩
        have hread : ∀ b, IpPrefix.parse debug b t =
            .ok (.ok (IpPrefix.network { addr := addr, len := len })) := by
          intro b
          rw [parse_of_cidrOf hcidr, masked_of_le hlen]
          rfl
        refine ⟨fun b => ⟨_, hread b⟩, fun b p hp => ?_⟩
        cases (hread b).symm.trans hp
        exact ⟨(network_isNetwork hlen).len, (network_decides_iff hlen).2 hip⟩

theorem parseCedar_exact_iff (t : Text) (ip : IpAddr) :
    ReadsExactly (fun _ => .ok (IpPrefix.parseCedar t)) ip ↔
      ∀ addr len, literalOf t = some (addr, len) → len ≤ addr.width → len ≤ ip.width := by
  constructor
  · rintro ⟨-, hexact⟩ addr len hliteral hlen
    have hread := parseCedar_of_literalOf hliteral hlen
    exact (network_decides_iff hlen).1 (hexact ⟨true⟩ _ (by rw [hread])).2
  · intro hle
    refine ⟨fun b => ⟨_, rfl⟩, fun b p hp => ?_⟩
    rcases parseCedar_ok (Except.ok.inj hp) with ⟨addr, len, hliteral, hlen, rfl⟩
    exact ⟨(network_isNetwork hlen).len,
      (network_decides_iff hlen).2 (hle addr len hliteral hlen)⟩

/-- Plain CIDRs are exact where the length is one that the address stated and the address tested
both have, ip literals where it is one that the address tested has, or too long for that stated. -/
theorem cidr_exact_iff (debug : Text → Text) (t : Text) (ip : IpAddr) :
    (ReadsExactly (fun b => IpPrefix.parse debug b t) ip ↔
      ∀ addr len, cidrOf t = some (addr, len) → len ≤ addr.width ∧ len ≤ ip.width) ∧
    (ReadsExactly (fun _ => .ok (IpPrefix.parseCedar t)) ip ↔
      ∀ addr len, literalOf t = some (addr, len) → len ≤ addr.width → len ≤ ip.width) :=
  ⟨parse_exact_iff debug t ip, parseCedar_exact_iff t ip⟩

/-- A prefix of the default block list against a public IPv4 address, and a length that no IPv4
address has. -/
theorem cidr_inexact :
    ¬ ReadsExactly (fun b => IpPrefix.parse id b "::/96".toList) (.v4 0x08080808#32) ∧
      ¬ ReadsExactly (fun b => IpPrefix.parse id b "10.0.0.0/33".toList) (.v6 1#128) := by
  constructor
  · intro h
    have hlong := (parse_exact_iff id _ _).1 h (.v6 0) 96 (by decide)
    exact absurd hlong.2 (by decide)
  · intro h
    have hlong := (parse_exact_iff id _ _).1 h (.v4 0x0a000000#32) 33 (by decide)
    exact absurd hlong.1 (by decide)

end Egress
end FunctionWasm

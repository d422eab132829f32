import FunctionWasm.Egress.Cidr
import FunctionWasm.Policy.Authz

/-!
# Dial — the operator's rules about addresses

The rules for `dialAddress` are compiled at start into two lists of networks, so that no Cedar runs
when an address is dialled.  What they mean is what Cedar makes of them for the address.

* `Condition` is a condition as Cedar writes it, `Condition.eval` what it evaluates to.
* `compileDialRule` and `compileIpRules` are the compiler, `Malformed` are the rules it refuses.
* `matches_iff_spans`: a rule that was compiled matches the addresses of its networks.

Cedar's reader of ip literals and its other nodes are `DialLibrary`.
-/

namespace FunctionWasm
namespace Authz

open Cedar Egress

/-! ## Conditions -/

/-- An argument of `ip`: a string or another node. -/
inductive Literal (κ : Type) where
  | value (t : Text)
  | other (node : κ)

/-- An argument of an ip test: an attribute of a variable, a call of `ip`, another node. -/
inductive Operand (κ : Type) where
  | attr (root field : Text)
  | ip (args : List (Literal κ))
  | other (node : κ)

/-- A condition: the nodes of an ip test, and any other with the name of its operator. -/
inductive Condition (κ : Type) where
  | or (left right : Condition κ)
  | isInRange (args : List (Operand κ))
  | isLoopback (args : List (Operand κ))
  | other (op : Text) (node : κ)

class DialLibrary (κ : Type) where
  debug : Text → Text
  /-- The value of an ip literal: its address and the length in it. -/
  ipAddr : Text → Except Text IpPrefix
  operand : Operand κ → Request IpPrefix → Cedar.Store IpPrefix → Except Text IpPrefix
  test : κ → Request IpPrefix → Cedar.Store IpPrefix → Except Text Bool

def contextWord : Text := "context".toList

def ipWord : Text := "ip".toList

/-- The dialled address. -/
def contextIp {κ : Type} : Operand κ := .attr contextWord ipWord

/-- An address as a value: a network of one. -/
def hostPrefix (ip : IpAddr) : IpPrefix where
  addr := ip
  len := ip.width

/-- `isInRange`: every address of the one is an address of the other. -/
def ipInRange (a net : IpPrefix) : Bool :=
  a.addr.width = net.addr.width ∧ net.first ≤ a.first ∧ a.last ≤ net.last

/-- `isLoopback`. -/
def ipIsLoopback (a : IpPrefix) : Bool :=
  match a.addr with
  | .v4 bits => bits.toNat / 2 ^ 24 = 127
  | .v6 bits => bits.toNat = 1

variable {κ : Type} [DialLibrary κ]

def Operand.value (o : Operand κ) (r : Request IpPrefix) (s : Cedar.Store IpPrefix) :
    Except Text IpPrefix :=
  match o with
  | .attr v a =>
      if v = contextWord then
        match r.context.lookup a with
        | some p => .ok p
        | none => .error "no such attribute".toList
      else DialLibrary.operand o r s
  | .ip [.value t] => DialLibrary.ipAddr κ t
  | _ => DialLibrary.operand o r s

/-- What a condition evaluates to; the right side of `||` is evaluated when the left is false. -/
def Condition.eval (r : Request IpPrefix) (s : Cedar.Store IpPrefix) :
    Condition κ → Except Text Bool
  | .or left right =>
      match left.eval r s with
      | .error e => .error e
      | .ok true => .ok true
      | .ok false => right.eval r s
  | .isInRange [a, net] => do return ipInRange (← a.value r s) (← net.value r s)
  | .isInRange _ => .error "wrong number of arguments".toList
  | .isLoopback [a] => do return ipIsLoopback (← a.value r s)
  | .isLoopback _ => .error "wrong number of arguments".toList
  | .other _ node => DialLibrary.test node r s

instance : Expressions (Condition κ) IpPrefix := ⟨fun c r s => c.eval r s⟩

/-! ## The compiler -/

def dialUid : EntityUid := actionUid actionDialAddress

/-- Refuses any ip test whose subject is not `context.ip`. -/
def requireContextIp (o : Operand κ) : Except Text Unit :=
  match o with
  | .attr v a =>
      if v = contextWord ∧ a = ipWord then .ok ()
      else .error "an ip test may only test context.ip".toList
  | _ => .error "an ip test may only test context.ip".toList

/-- Reads the literal of an `isInRange` call. -/
def ipLiteralPrefix (o : Operand κ) : Except Text IpPrefix :=
  match o with
  | .ip [.value t] =>
      match IpPrefix.parseCedar t with
      | .error e => .error (DialLibrary.debug κ t ++ " is not an ip literal: ".toList ++ e)
      | .ok p => .ok p
  | _ => .error "isInRange takes one ip(\"CIDR\") literal".toList

/-- `0.0.0.0/0` and `::/0`. -/
def everyAddress : List IpPrefix := [⟨.v4 0#32, 0⟩, ⟨.v6 0#128, 0⟩]

/-- `127.0.0.0/8` and `::1/128`. -/
def loopbackPrefixes : List IpPrefix := [⟨.v4 0x7f000000#32, 8⟩, ⟨.v6 1#128, 128⟩]

/-- The networks of an ip test.  Cedar writes a condition as an object of one key, so it always is
a single node. -/
def ipTestPrefixes : Condition κ → Except Text (List IpPrefix)
  | .or left right => do
      let left ← ipTestPrefixes left
      let right ← ipTestPrefixes right
      return left ++ right
  | .isInRange [a, net] => do
      requireContextIp a
      let p ← ipLiteralPrefix net
      return [p]
  | .isInRange _ => .error "isInRange takes context.ip and one ip(\"CIDR\") literal".toList
  | .isLoopback [a] => do
      requireContextIp a
      return loopbackPrefixes
  | .isLoopback _ => .error "isLoopback takes context.ip and no argument".toList
  | .other op _ =>
      .error ("unsupported operation ".toList ++ DialLibrary.debug κ op ++
        " (an ip test uses isInRange, isLoopback or ||)".toList)

/-- The networks of a rule that is scoped to `== Action::"dialAddress"`. -/
def dialPrefixes (p : Policy (Condition κ)) : Except Text (List IpPrefix) :=
  if p.principal ≠ .any ∨ p.resource ≠ .any then
    .error ("must not constrain the principal or resource: ".toList ++
      "the dial has neither identity".toList)
  else
    match p.conditions with
    | [] => .ok everyAddress
    | [c] =>
        if c.kind ≠ .when then .error "may only use a when condition, not unless".toList
        else ipTestPrefixes c.body
    | _ => .error "takes at most one when condition".toList

/-- The networks of a rule, none for a rule that is not about dialling. -/
def compileDialRule (p : Policy (Condition κ)) : Except Text (Option (List IpPrefix)) :=
  match p.action with
  | .eq u => if u = dialUid then (dialPrefixes p).map some else .ok none
  | .memAny us =>
      if dialUid ∈ us then
        .error "must scope the action as == Action::\"dialAddress\", not an \"in\" set".toList
      else .ok none
  | _ => .ok none

/-- The table: what a forbid refuses and what a permit admits. -/
structure IpRules where
  blocked : List IpPrefix
  allowed : List IpPrefix

def IpRules.add (out : IpRules) (p : Policy (Condition κ)) : Except Text IpRules :=
  match compileDialRule p with
  | .error e =>
      .error ("operator policy: dialAddress rule ".toList ++ DialLibrary.debug κ p.id ++
        ": ".toList ++ e)
  | .ok none => .ok out
  | .ok (some prefixes) =>
      if p.effect = .forbid then .ok { out with blocked := out.blocked ++ prefixes }
      else .ok { out with allowed := out.allowed ++ prefixes }

/-- The order of texts by their characters. -/
def textLe (s t : Text) : Bool := !t.lex s fun c d => c.toNat < d.toNat

/-- Compiles the rules in the order of their ids. -/
def compileIpRules (ps : PolicySet (Condition κ)) : Except Text IpRules :=
  (ps.mergeSort fun p q => textLe p.id q.id).foldlM IpRules.add { blocked := [], allowed := [] }

/-! ## What a rule means -/

/-- The request to dial an address; the dial has neither a principal nor a resource of its own. -/
def dialRequest (principal resource : EntityUid) (ip : IpAddr) : Request IpPrefix where
  principal := principal
  action := dialUid
  resource := resource
  context := [(ipWord, hostPrefix ip)]

def noEntities : Cedar.Store IpPrefix where
  entities := []
  consistent := by simp [Consistent]
  acyclic := acyclic_of_rank (fun _ => 0) (by rintro u v ⟨e, he, -⟩; cases he)

/-- The rule is satisfied by the request to dial the address, whoever makes it. -/
def Matches (p : Policy (Condition κ)) (ip : IpAddr) : Prop :=
  ∀ principal resource, p.satisfied (dialRequest principal resource ip) noEntities = true

/-- The literals of a condition. -/
def Operand.literals {κ : Type} : Operand κ → List Text
  | .ip [.value t] => [t]
  | _ => []

def Condition.literals {κ : Type} : Condition κ → List Text
  | .or left right => left.literals ++ right.literals
  | .isInRange args => args.flatMap Operand.literals
  | .isLoopback _ => []
  | .other _ _ => []

/-- Cedar reads the literal as `parse_cedar` does, which only takes off the bits beyond the
length. -/
def ReadAlike (κ : Type) [DialLibrary κ] (t : Text) : Prop :=
  ∀ p, IpPrefix.parseCedar t = .ok p →
    ∃ q, DialLibrary.ipAddr κ t = .ok q ∧ q.network = p

/-! ## Networks and addresses -/

theorem hostPrefix_size (ip : IpAddr) : (hostPrefix ip).size = 1 := by
  simp [IpPrefix.size, hostPrefix]

theorem hostPrefix_first (ip : IpAddr) : (hostPrefix ip).first = ip.value := by
  rw [IpPrefix.first, hostPrefix_size, Nat.div_one, Nat.mul_one]
  rfl

theorem hostPrefix_last (ip : IpAddr) : (hostPrefix ip).last = ip.value := by
  rw [IpPrefix.last, hostPrefix_size, hostPrefix_first]
  rfl

/-- A network spans the addresses in its range, whatever its bits beyond its length. -/
theorem ipInRange_hostPrefix (ip : IpAddr) (q : IpPrefix) :
    ipInRange (hostPrefix ip) q = true ↔ q.network.Spans ip := by
  have hlast : q.network.last = q.last := by
    rw [IpPrefix.last, first_network, network_size, IpPrefix.last]
  simp only [ipInRange, IpPrefix.Spans, hostPrefix_first, hostPrefix_last, first_network, hlast,
    IpPrefix.network_width, decide_eq_true_eq]
  rfl

theorem spans_everyAddress (ip : IpAddr) : ∃ q ∈ everyAddress, q.Spans ip := by
  cases ip with
  | v4 bits =>
      refine ⟨⟨.v4 0#32, 0⟩, by simp [everyAddress], rfl, Nat.zero_le _, ?_⟩
      have hbound := bits.isLt
      change bits.toNat ≤ 0 / 2 ^ 32 * 2 ^ 32 + (2 ^ 32 - 1)
      omega
  | v6 bits =>
      refine ⟨⟨.v6 0#128, 0⟩, by simp [everyAddress], rfl, Nat.zero_le _, ?_⟩
      have hbound := bits.isLt
      change bits.toNat ≤ 0 / 2 ^ 128 * 2 ^ 128 + (2 ^ 128 - 1)
      omega

theorem spans_loopbackPrefixes (ip : IpAddr) :
    ipIsLoopback (hostPrefix ip) = true ↔ ∃ q ∈ loopbackPrefixes, q.Spans ip := by
  cases ip with
  | v4 bits =>
      have hrange : (⟨.v4 0x7f000000#32, 8⟩ : IpPrefix).Spans (.v4 bits) ↔
          bits.toNat / 2 ^ 24 = 127 := by
        change (32 = 32 ∧ 127 * 2 ^ 24 ≤ bits.toNat ∧
          bits.toNat ≤ 127 * 2 ^ 24 + (2 ^ 24 - 1)) ↔ _
        omega
      have hother : ¬ (⟨.v6 1#128, 128⟩ : IpPrefix).Spans (.v4 bits) := fun h => by cases h.1
      simp [loopbackPrefixes, hrange, hother, ipIsLoopback, hostPrefix]
  | v6 bits =>
      have hother : ¬ (⟨.v4 0x7f000000#32, 8⟩ : IpPrefix).Spans (.v6 bits) := fun h => by cases h.1
      have hrange : (⟨.v6 1#128, 128⟩ : IpPrefix).Spans (.v6 bits) ↔ bits.toNat = 1 := by
        change (128 = 128 ∧ 1 ≤ bits.toNat ∧ bits.toNat ≤ 1) ↔ _
        omega
      simp [loopbackPrefixes, hrange, hother, ipIsLoopback, hostPrefix]

/-! ## What the compiler makes of a rule -/

/-- A condition that is an ip test of the dialled address. -/
inductive IpTest : Condition κ → Prop where
  | or {left right : Condition κ} : IpTest left → IpTest right → IpTest (.or left right)
  | isInRange {t : Text} {p : IpPrefix} :
      IpPrefix.parseCedar t = .ok p → IpTest (.isInRange [contextIp, .ip [.value t]])
  | isLoopback : IpTest (.isLoopback [contextIp])

omit [DialLibrary κ] in
theorem requireContextIp_ok {o : Operand κ} (h : requireContextIp o = .ok ()) : o = contextIp := by
  unfold requireContextIp at h
  split at h
  · next v a =>
      split at h
      · next hwords =>
          rw [hwords.1, hwords.2]
          rfl
      · cases h
  · cases h

theorem ipLiteralPrefix_ok {o : Operand κ} {p : IpPrefix} (h : ipLiteralPrefix o = .ok p) :
    ∃ t, o = .ip [.value t] ∧ IpPrefix.parseCedar t = .ok p := by
  unfold ipLiteralPrefix at h
  split at h
  · next t =>
      split at h
      · cases h
      · next q hq =>
          cases h
          exact ⟨t, rfl, hq⟩
  · cases h

/-- What a compiled condition evaluates to: whether the address is in one of its networks. -/
theorem eval_of_ipTestPrefixes {c : Condition κ} {prefixes : List IpPrefix}
    (h : ipTestPrefixes c = .ok prefixes) (hread : ∀ t ∈ c.literals, ReadAlike κ t)
    (principal resource : EntityUid) (ip : IpAddr) :
    ∃ v, c.eval (dialRequest principal resource ip) noEntities = .ok v ∧
      (v = true ↔ ∃ q ∈ prefixes, q.Spans ip) := by
  induction c generalizing prefixes with
  | or left right ihl ihr =>
      rcases bind_eq_ok.1 h with ⟨ls, hls, h⟩
      rcases bind_eq_ok.1 h with ⟨rs, hrs, heq⟩
      cases heq
      rcases ihl hls fun t ht => hread t (List.mem_append_left _ ht) with ⟨vl, hvl, hl⟩
      rcases ihr hrs fun t ht => hread t (List.mem_append_right _ ht) with ⟨vr, hvr, hr⟩
      -- the networks of both sides, of which the first one answers
      have hunion : (∃ q ∈ ls ++ rs, q.Spans ip) ↔
          (∃ q ∈ ls, q.Spans ip) ∨ ∃ q ∈ rs, q.Spans ip := by
        simp only [List.mem_append, or_and_right, exists_or]
      rw [hunion, ← hl, ← hr]
      unfold Condition.eval
      rw [hvl]
      cases vl with
      | true => exact ⟨true, rfl, by simp⟩
      | false => exact ⟨vr, hvr, by simp⟩
  | isInRange args =>
      match args, h, hread with
      | [a, net], h, hread =>
          rcases check_bind_eq_ok.1 h with ⟨ha, h⟩
          rcases bind_eq_ok.1 h with ⟨p, hp, heq⟩
          cases heq
          -- the address is the one of the context, the network a literal
          cases requireContextIp_ok ha
          rcases ipLiteralPrefix_ok hp with ⟨t, rfl, hparse⟩
          rcases hread t (by simp [Condition.literals, Operand.literals]) p hparse with
            ⟨q, hq, rfl⟩
          refine ⟨ipInRange (hostPrefix ip) q, ?_, by simpa using ipInRange_hostPrefix ip q⟩
          change (DialLibrary.ipAddr κ t >>= fun q => .ok (ipInRange (hostPrefix ip) q)) = _
          rw [hq]
          rfl
      | [], h, _ => cases h
      | [_], h, _ => cases h
      | _ :: _ :: _ :: _, h, _ => cases h
  | isLoopback args =>
      match args, h with
      | [a], h =>
          rcases check_bind_eq_ok.1 h with ⟨ha, heq⟩
          cases heq
          cases requireContextIp_ok ha
          exact ⟨ipIsLoopback (hostPrefix ip), rfl, spans_loopbackPrefixes ip⟩
      | [], h => cases h
      | _ :: _ :: _, h => cases h
  | other op node => cases h

/-- The conditions that compile are the ip tests of the dialled address. -/
theorem exists_ipTestPrefixes_iff {c : Condition κ} :
    (∃ prefixes, ipTestPrefixes c = .ok prefixes) ↔ IpTest c := by
  constructor
  · rintro ⟨prefixes, h⟩
    induction c generalizing prefixes with
    | or left right ihl ihr =>
        rcases bind_eq_ok.1 h with ⟨ls, hls, h⟩
        rcases bind_eq_ok.1 h with ⟨rs, hrs, -⟩
        exact .or (ihl ls hls) (ihr rs hrs)
    | isInRange args =>
        match args, h with
        | [a, net], h =>
            rcases check_bind_eq_ok.1 h with ⟨ha, h⟩
            rcases bind_eq_ok.1 h with ⟨p, hp, -⟩
            cases requireContextIp_ok ha
            rcases ipLiteralPrefix_ok hp with ⟨t, rfl, hparse⟩
            exact .isInRange hparse
        | [], h => cases h
        | [_], h => cases h
        | _ :: _ :: _ :: _, h => cases h
    | isLoopback args =>
        match args, h with
        | [a], h =>
            cases requireContextIp_ok (check_bind_eq_ok.1 h).1
            exact .isLoopback
        | [], h => cases h
        | _ :: _ :: _, h => cases h
    | other op node => cases h
  · intro h
    induction h with
    | or _ _ ihl ihr =>
        rcases ihl with ⟨ls, hls⟩
        rcases ihr with ⟨rs, hrs⟩
        exact ⟨ls ++ rs, bind_eq_ok.2 ⟨ls, hls, bind_eq_ok.2 ⟨rs, hrs, rfl⟩⟩⟩
    | @isInRange t p hparse =>
        have hliteral : ipLiteralPrefix (.ip [.value t] : Operand κ) = .ok p := by
          simp [ipLiteralPrefix, hparse]
        exact ⟨[p], check_bind_eq_ok.2 ⟨rfl, bind_eq_ok.2 ⟨p, hliteral, rfl⟩⟩⟩
    | isLoopback => exact ⟨loopbackPrefixes, check_bind_eq_ok.2 ⟨rfl, rfl⟩⟩

/-- A rule that can be compiled: nothing but the action in its head, and at most an ip test. -/
structure DialShape (p : Policy (Condition κ)) : Prop where
  principal : p.principal = .any
  resource : p.resource = .any
  conditions : p.conditions = [] ∨ ∃ body, p.conditions = [⟨.when, body⟩] ∧ IpTest body

/-- A rule about dialling that the compiler refuses: one with a list of actions, or with a head or a
condition that it cannot compile. -/
def Malformed (p : Policy (Condition κ)) : Prop :=
  (∃ us, p.action = .memAny us ∧ dialUid ∈ us) ∨ (p.action = .eq dialUid ∧ ¬ DialShape p)

theorem exists_dialPrefixes_iff {p : Policy (Condition κ)} :
    (∃ prefixes, dialPrefixes p = .ok prefixes) ↔ DialShape p := by
  constructor
  · rintro ⟨prefixes, h⟩
    unfold dialPrefixes at h
    split at h
    · cases h
    next hhead =>
    push Not at hhead
    refine ⟨hhead.1, hhead.2, ?_⟩
    split at h
    · next hnil => exact .inl hnil
    · next c hone =>
        split at h
        · cases h
        · next hkind =>
            have hwhen : c.kind = .when := by simpa using hkind
            rcases c with ⟨kind, body⟩
            cases hwhen
            exact .inr ⟨body, hone, exists_ipTestPrefixes_iff.1 ⟨prefixes, h⟩⟩
    · cases h
  · rintro ⟨hprincipal, hresource, hconditions⟩
    unfold dialPrefixes
    rcases hconditions with hnil | ⟨body, hone, htest⟩
    · exact ⟨everyAddress, by simp [hprincipal, hresource, hnil]⟩
    · rcases exists_ipTestPrefixes_iff.2 htest with ⟨prefixes, hprefixes⟩
      exact ⟨prefixes, by simp [hprincipal, hresource, hone, hprefixes]⟩

/-- A rule compiles to networks when it is scoped to dialling alone, and its body does. -/
theorem compileDialRule_eq_some {p : Policy (Condition κ)} {prefixes : List IpPrefix} :
    compileDialRule p = .ok (some prefixes) ↔
      p.action = .eq dialUid ∧ dialPrefixes p = .ok prefixes := by
  unfold compileDialRule
  split
  · next u haction =>
      split
      · next hu =>
          subst hu
          cases hprefixes : dialPrefixes p with
          | error e => simp [Except.map]
          | ok out => simp [Except.map, haction]
      · next hu =>
          refine iff_of_false (fun h => by cases h) ?_
          rintro ⟨heq, -⟩
          rw [haction] at heq
          cases heq
          exact hu rfl
  · next us haction =>
      refine iff_of_false ?_ (by simp [haction])
      split <;> (intro h; cases h)
  · next hother _ =>
      refine iff_of_false (fun h => by cases h) ?_
      rintro ⟨heq, -⟩
      exact hother _ heq

theorem compileDialRule_error_iff {p : Policy (Condition κ)} :
    (∃ e, compileDialRule p = .error e) ↔ Malformed p := by
  unfold compileDialRule Malformed
  rw [← exists_dialPrefixes_iff]
  split
  · next u haction =>
      split
      · next hu =>
          subst hu
          cases hprefixes : dialPrefixes p with
          | error e => simp [Except.map, haction]
          | ok out => simp [Except.map, haction]
      · next hu => simp [haction, hu]
  · next us haction =>
      split
      · next hmem => simp [haction, hmem]
      · next hmem => simp [haction, hmem]
  · next hother hothers =>
      refine iff_of_false (by simp) ?_
      rintro (⟨us, haction, -⟩ | ⟨haction, -⟩)
      · exact hothers us haction
      · exact hother _ haction

/-- A rule that names dialling is passed over only when it names it as the single action that its
own must be in. -/
theorem compileDialRule_eq_none {p : Policy (Condition κ)}
    (h : compileDialRule p = .ok none) :
    policyScopesAction p actionDialAddress = true ↔ p.action = .mem dialUid := by
  unfold compileDialRule at h
  unfold policyScopesAction
  split at h
  · next u haction =>
      split at h
      · cases hprefixes : dialPrefixes p with
        | error e =>
            rw [hprefixes] at h
            cases h
        | ok out =>
            rw [hprefixes] at h
            cases h
      · next hu =>
          have hne : u ≠ actionUid actionDialAddress := hu
          simp [haction, hne]
  · next us haction =>
      split at h
      · cases h
      · next hmem =>
          have hnot : actionUid actionDialAddress ∉ us := hmem
          simp [haction, hnot]
  · next hother hothers =>
      cases haction : p.action with
      | mem u => simp [dialUid]
      | eq u => exact absurd haction (hother u)
      | memAny us => exact absurd haction (hothers us)
      | any => simp
      | is typeName => simp
      | isMem typeName u => simp

/-- The literals of a rule are read alike. -/
def ReadsAlike (p : Policy (Condition κ)) : Prop :=
  ∀ c ∈ p.conditions, ∀ t ∈ c.body.literals, ReadAlike κ t

/-- A rule that was compiled matches the addresses of its networks, and no others. -/
theorem matches_iff_spans {p : Policy (Condition κ)} {prefixes : List IpPrefix}
    (h : compileDialRule p = .ok (some prefixes)) (hread : ReadsAlike p) (ip : IpAddr) :
    Matches p ip ↔ ∃ q ∈ prefixes, q.Spans ip := by
  rcases compileDialRule_eq_some.1 h with ⟨haction, hprefixes⟩
  rcases exists_dialPrefixes_iff.1 ⟨prefixes, hprefixes⟩ with ⟨hprincipal, hresource, hconditions⟩
  -- the scope is met by every dial, so what is left is the condition
  have hsatisfied : ∀ principal resource,
      p.satisfied (dialRequest principal resource ip) noEntities =
        p.conditions.all fun c => c.holds (dialRequest principal resource ip) noEntities := by
    intro principal resource
    have hany : ∀ u, Scope.any.holds noEntities u = true := fun _ => rfl
    have hscope : (Scope.eq dialUid).holds noEntities dialUid = true := by
      simp [Scope.holds]
    have hdial : (dialRequest principal resource ip).action = dialUid := rfl
    simp only [Policy.satisfied, hprincipal, hresource, haction, hany, hdial, hscope,
      Bool.true_and]
  simp only [Matches, hsatisfied]
  unfold dialPrefixes at hprefixes
  -- no condition spans everything, one is compiled to its networks
  rcases hconditions with hnil | ⟨body, hone, -⟩
  · simp only [hprincipal, hresource, hnil, ne_eq, not_true_eq_false, or_self, if_false] at hprefixes
    cases hprefixes
    simp only [hnil, List.all_nil, implies_true, true_iff]
    exact spans_everyAddress ip
  · simp only [hprincipal, hresource, hone, ne_eq, not_true_eq_false, or_self, if_false] at hprefixes
    have hliterals : ∀ t ∈ body.literals, ReadAlike κ t := by
      intro t ht
      exact hread ⟨.when, body⟩ (by simp [hone]) t ht
    have heval := fun principal resource =>
      eval_of_ipTestPrefixes hprefixes hliterals principal resource ip
    constructor
    · intro hall
      rcases heval dialUid dialUid with ⟨v, hv, hspans⟩
      have hholds := hall dialUid dialUid
      simp only [hone, List.all_cons, List.all_nil, Bool.and_true, Clause.holds,
        Expressions.eval, hv, if_true] at hholds
      exact hspans.1 hholds
    · intro hspans principal resource
      rcases heval principal resource with ⟨v, hv, hiff⟩
      simp only [hone, List.all_cons, List.all_nil, Bool.and_true, Clause.holds,
        Expressions.eval, hv, if_true]
      exact hiff.2 hspans

end Authz
end FunctionWasm

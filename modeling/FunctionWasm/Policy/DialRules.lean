import FunctionWasm.Policy.Dial

/-!
# DialRules — whether the operator's rules about addresses all come to something

* `compileIpRules_error_iff` and `compileIpRules_ok` say when the policy is refused and what else its
  table holds.
* `Kept` is what is asked of the compiler: an error, or tables from which an address is judged as
  the rules say, with no rule about dialling passed over.
* `dial_rules_kept_iff` says for which policies that is so.
* `single_action_dropped` is a forbid that is passed over.
-/

namespace FunctionWasm
namespace Authz

open Cedar Egress

variable {κ : Type} [DialLibrary κ]

/-! ## The table -/

/-- A network that a rule of this effect was compiled to. -/
def CompiledTo (ps : List (Policy (Condition κ))) (effect : Effect) (q : IpPrefix) : Prop :=
  ∃ p ∈ ps, p.effect = effect ∧ ∃ prefixes, compileDialRule p = .ok (some prefixes) ∧ q ∈ prefixes

/-- One rule adds its networks to the list of its effect. -/
theorem add_ok {out next : IpRules} {p : Policy (Condition κ)} (h : out.add p = .ok next) :
    (∃ o, compileDialRule p = .ok o) ∧
      (∀ q, q ∈ next.blocked ↔ q ∈ out.blocked ∨ CompiledTo [p] .forbid q) ∧
      ∀ q, q ∈ next.allowed ↔ q ∈ out.allowed ∨ CompiledTo [p] .permit q := by
  unfold IpRules.add at h
  cases hcompiled : compileDialRule p with
  | error e => simp [hcompiled] at h
  | ok o =>
      refine ⟨⟨o, rfl⟩, ?_⟩
      rw [hcompiled] at h
      cases o with
      | none =>
          cases h
          simp [CompiledTo, hcompiled]
      | some prefixes =>
          dsimp only at h
          cases heffect : p.effect with
          | forbid =>
              rw [if_pos heffect] at h
              cases h
              simp [CompiledTo, hcompiled, heffect]
          | permit =>
              rw [if_neg (by simp [heffect])] at h
              cases h
              simp [CompiledTo, hcompiled, heffect]

theorem foldlM_add_ok {ps : List (Policy (Condition κ))} {out rules : IpRules}
    (h : ps.foldlM IpRules.add out = .ok rules) :
    (∀ p ∈ ps, ∃ o, compileDialRule p = .ok o) ∧
      (∀ q, q ∈ rules.blocked ↔ q ∈ out.blocked ∨ CompiledTo ps .forbid q) ∧
      ∀ q, q ∈ rules.allowed ↔ q ∈ out.allowed ∨ CompiledTo ps .permit q := by
  induction ps generalizing out with
  | nil =>
      cases h
      simp [CompiledTo]
  | cons p rest ih =>
      rw [List.foldlM_cons] at h
      rcases bind_eq_ok.1 h with ⟨next, hnext, h⟩
      rcases add_ok hnext with ⟨hp, hblocked, hallowed⟩
      rcases ih h with ⟨hrest, hblocked', hallowed'⟩
      have hcons : ∀ effect q, CompiledTo (p :: rest) effect q ↔
          CompiledTo [p] effect q ∨ CompiledTo rest effect q := by
        intro effect q
        simp [CompiledTo]
      refine ⟨List.forall_mem_cons.2 ⟨hp, hrest⟩, ?_, ?_⟩
      · intro q
        rw [hblocked', hblocked, hcons, or_assoc]
      · intro q
        rw [hallowed', hallowed, hcons, or_assoc]

theorem foldlM_add_of_ok {ps : List (Policy (Condition κ))}
    (h : ∀ p ∈ ps, ∃ o, compileDialRule p = .ok o) (out : IpRules) :
    ∃ rules, ps.foldlM IpRules.add out = .ok rules := by
  induction ps generalizing out with
  | nil => exact ⟨out, rfl⟩
  | cons p rest ih =>
      rcases h p (by simp) with ⟨o, ho⟩
      have hnext : ∃ next, out.add p = .ok next := by
        unfold IpRules.add
        rw [ho]
        cases o with
        | none => exact ⟨out, rfl⟩
        | some prefixes =>
            dsimp only
            split
            · exact ⟨_, rfl⟩
            · exact ⟨_, rfl⟩
      rcases hnext with ⟨next, hnext⟩
      rcases ih (fun q hq => h q (List.mem_cons_of_mem _ hq)) next with ⟨rules, hrules⟩
      exact ⟨rules, by rw [List.foldlM_cons, hnext, ok_bind, hrules]⟩

/-- What a policy that compiles comes to. -/
theorem compileIpRules_ok {ps : PolicySet (Condition κ)} {rules : IpRules}
    (h : compileIpRules ps = .ok rules) :
    (∀ p ∈ ps, ¬ Malformed p) ∧
      (∀ q, q ∈ rules.blocked ↔ CompiledTo ps .forbid q) ∧
      ∀ q, q ∈ rules.allowed ↔ CompiledTo ps .permit q := by
  rcases foldlM_add_ok h with ⟨hall, hblocked, hallowed⟩
  have hsorted : ∀ effect q,
      CompiledTo (ps.mergeSort fun p q => textLe p.id q.id) effect q ↔ CompiledTo ps effect q := by
    intro effect q
    simp only [CompiledTo, List.mem_mergeSort]
  refine ⟨?_, ?_, ?_⟩
  · intro p hp hmalformed
    rcases hall p (List.mem_mergeSort.2 hp) with ⟨o, ho⟩
    rcases compileDialRule_error_iff.2 hmalformed with ⟨e, he⟩
    rw [ho] at he
    cases he
  · intro q
    rw [hblocked, hsorted]
    simp
  · intro q
    rw [hallowed, hsorted]
    simp

/-- A policy is refused when one of its rules is malformed. -/
theorem compileIpRules_error_iff {ps : PolicySet (Condition κ)} :
    (∃ e, compileIpRules ps = .error e) ↔ ∃ p ∈ ps, Malformed p := by
  constructor
  · rintro ⟨e, he⟩
    by_contra hnone
    push Not at hnone
    have hall : ∀ p ∈ ps.mergeSort fun p q => textLe p.id q.id,
        ∃ o, compileDialRule p = .ok o := by
      intro p hp
      cases ho : compileDialRule p with
      | ok o => exact ⟨o, rfl⟩
      | error e' =>
          exact absurd (compileDialRule_error_iff.1 ⟨e', ho⟩) (hnone p (List.mem_mergeSort.1 hp))
    rcases foldlM_add_of_ok hall { blocked := [], allowed := [] } with ⟨rules, hrules⟩
    rw [compileIpRules, hrules] at he
    cases he
  · rintro ⟨p, hp, hmalformed⟩
    cases hrules : compileIpRules ps with
    | error e => exact ⟨e, rfl⟩
    | ok rules => exact absurd hmalformed ((compileIpRules_ok hrules).1 p hp)

/-! ## Networks -/

theorem ipTestPrefixes_network {c : Condition κ} {prefixes : List IpPrefix}
    (h : ipTestPrefixes c = .ok prefixes) : ∀ q ∈ prefixes, IsNetwork q := by
  have htest : IpTest c := exists_ipTestPrefixes_iff.1 ⟨prefixes, h⟩
  induction htest generalizing prefixes with
  | or _ _ ihl ihr =>
      rcases bind_eq_ok.1 h with ⟨ls, hls, h⟩
      rcases bind_eq_ok.1 h with ⟨rs, hrs, heq⟩
      cases heq
      intro q hq
      rcases List.mem_append.1 hq with hq | hq
      · exact ihl hls q hq
      · exact ihr hrs q hq
  | @isInRange t p hparse =>
      rcases bind_eq_ok.1 (check_bind_eq_ok.1 h).2 with ⟨q, hq, heq⟩
      cases heq
      rcases ipLiteralPrefix_ok hq with ⟨t', hsame, hparse'⟩
      intro q' hq'
      rw [List.mem_singleton.1 hq']
      exact parseCedar_network hparse'
  | isLoopback =>
      cases (check_bind_eq_ok.1 h).2
      decide

theorem dialPrefixes_network {p : Policy (Condition κ)} {prefixes : List IpPrefix}
    (h : dialPrefixes p = .ok prefixes) : ∀ q ∈ prefixes, IsNetwork q := by
  unfold dialPrefixes at h
  split at h
  · cases h
  split at h
  · cases h
    decide
  · split at h
    · cases h
    · exact ipTestPrefixes_network h
  · cases h

theorem compiledTo_network {ps : List (Policy (Condition κ))} {effect : Effect} {q : IpPrefix}
    (h : CompiledTo ps effect q) : IsNetwork q := by
  rcases h with ⟨p, -, -, prefixes, hp, hq⟩
  exact dialPrefixes_network (compileDialRule_eq_some.1 hp).2 q hq

/-! ## The judgement -/

/-- The ceiling that is made of a table. -/
def ceilingOf (rules : IpRules) (rateLimited : Bool) : Ceiling where
  blocked := defaultBlocked
  allowed := rules.allowed
  explicit := rules.blocked
  budget := .default
  rateLimited := rateLimited

/-- The rule's action scope names `dialAddress`: as `==`, in a list, or as the one it is in. -/
def NamesDial (p : Policy (Condition κ)) : Prop :=
  policyScopesAction p actionDialAddress = true

/-- What the rules say about an address: a forbid refuses it, else a permit admits it, else the
default list refuses it. -/
def RefusedBy (ps : PolicySet (Condition κ)) (ip : IpAddr) : Prop :=
  (∃ p ∈ ps, p.effect = .forbid ∧ NamesDial p ∧ Matches p ip) ∨
    (¬ ∃ p ∈ ps, p.effect = .permit ∧ NamesDial p ∧ Matches p ip) ∧ ∃ q ∈ defaultBlocked, q.Spans ip

/-- An address is judged as the rules say about the address it carries, and no rule about dialling
is passed over.  A build with overflow checks may fault where another answers. -/
structure TablesKept (ps : PolicySet (Condition κ)) (rules : IpRules) : Prop where
  answers : ∀ rateLimited ip, ∃ v, (ceilingOf rules rateLimited).blockedBy ⟨false⟩ ip = .ok v
  judges : ∀ rateLimited b ip v, (ceilingOf rules rateLimited).blockedBy b ip = .ok v →
    (v.isSome = true ↔ RefusedBy ps ip.unmap)
  nothing_skipped : ∀ p ∈ ps, NamesDial p → compileDialRule p ≠ .ok none

def Kept (ps : PolicySet (Condition κ)) : Prop :=
  (∃ e, compileIpRules ps = .error e) ∨
    ∃ rules, compileIpRules ps = .ok rules ∧ TablesKept ps rules

/-- Where no rule is passed over, the networks of an effect span what its rules match. -/
theorem spans_compiledTo_iff {ps : PolicySet (Condition κ)}
    (hread : ∀ p ∈ ps, p.action = .eq dialUid → ReadsAlike p)
    (hformed : ∀ p ∈ ps, ¬ Malformed p) (hsingle : ∀ p ∈ ps, p.action ≠ .mem dialUid)
    (effect : Effect) (ip : IpAddr) :
    (∃ q, CompiledTo ps effect q ∧ q.Spans ip) ↔
      ∃ p ∈ ps, p.effect = effect ∧ NamesDial p ∧ Matches p ip := by
  constructor
  · rintro ⟨q, ⟨p, hp, heffect, prefixes, hcompiled, hq⟩, hspans⟩
    have haction := (compileDialRule_eq_some.1 hcompiled).1
    have hnames : NamesDial p := by
      unfold NamesDial policyScopesAction
      rw [haction]
      exact decide_eq_true rfl
    have hmatches := (matches_iff_spans hcompiled (hread p hp haction) ip).2 ⟨q, hq, hspans⟩
    exact ⟨p, hp, heffect, hnames, hmatches⟩
  · rintro ⟨p, hp, heffect, hnames, hmatches⟩
    cases hcompiled : compileDialRule p with
    | error e => exact absurd (compileDialRule_error_iff.1 ⟨e, hcompiled⟩) (hformed p hp)
    | ok o =>
        cases o with
        | none => exact absurd ((compileDialRule_eq_none hcompiled).1 hnames) (hsingle p hp)
        | some prefixes =>
            have haction := (compileDialRule_eq_some.1 hcompiled).1
            rcases (matches_iff_spans hcompiled (hread p hp haction) ip).1 hmatches with
              ⟨q, hq, hspans⟩
            exact ⟨q, ⟨p, hp, heffect, prefixes, hcompiled, hq⟩, hspans⟩

theorem tablesKept {ps : PolicySet (Condition κ)} {rules : IpRules}
    (hread : ∀ p ∈ ps, p.action = .eq dialUid → ReadsAlike p)
    (hsingle : ∀ p ∈ ps, p.action ≠ .mem dialUid) (h : compileIpRules ps = .ok rules) :
    TablesKept ps rules := by
  rcases compileIpRules_ok h with ⟨hformed, hblocked, hallowed⟩
  have hspans := spans_compiledTo_iff hread hformed hsingle
  refine ⟨fun rateLimited ip => blockedBy_answers _ ip, ?_, ?_⟩
  · intro rateLimited b ip v hv
    have hexplicit : ∀ q ∈ (ceilingOf rules rateLimited).explicit, IsNetwork q :=
      fun q hq => compiledTo_network ((hblocked q).1 hq)
    have hholes : ∀ q ∈ (ceilingOf rules rateLimited).allowed, IsNetwork q :=
      fun q hq => compiledTo_network ((hallowed q).1 hq)
    rw [blockedBy_iff hexplicit hholes defaultBlocked_network hv]
    unfold Ceiling.Refuses RefusedBy
    rw [← hspans .forbid, ← hspans .permit]
    simp only [ceilingOf, hblocked, hallowed]
  · intro p hp hnames hnone
    exact hsingle p hp ((compileDialRule_eq_none hnone).1 hnames)

/-- The operator's rules are kept exactly when one of them stops the runtime, or none is scoped to
the single action that its own must be in. -/
theorem dial_rules_kept_iff (ps : PolicySet (Condition κ))
    (hread : ∀ p ∈ ps, p.action = .eq dialUid → ReadsAlike p) :
    Kept ps ↔ (∃ p ∈ ps, Malformed p) ∨ ∀ p ∈ ps, p.action ≠ .mem dialUid := by
  constructor
  · rintro (herror | ⟨rules, hrules, hkept⟩)
    · exact .inl (compileIpRules_error_iff.1 herror)
    · refine .inr ?_
      intro p hp haction
      have hnone : compileDialRule p = .ok none := by
        unfold compileDialRule
        rw [haction]
      exact hkept.nothing_skipped p hp ((compileDialRule_eq_none hnone).2 haction) hnone
  · rintro (hmalformed | hsingle)
    · exact .inl (compileIpRules_error_iff.2 hmalformed)
    · cases hrules : compileIpRules ps with
      | error e => exact .inl ⟨e, hrules⟩
      | ok rules => exact .inr ⟨rules, hrules, tablesKept hread hsingle hrules⟩

/-! ## Two policies -/

section Sample

/-- Cedar on the literals below, which it reads as `parse_cedar` does. -/
@[reducible] def sampleDial : DialLibrary Empty where
  debug t := t
  ipAddr t := IpPrefix.parseCedar t
  operand _ _ _ := .error []
  test node := nomatch node

attribute [local instance] sampleDial

/-- `forbid (principal, <action>, resource) when { context.ip.isInRange(ip("203.0.113.0/24")) };` -/
def forbidRange (action : Scope) : Policy (Condition Empty) where
  id := "policy0".toList
  effect := .forbid
  principal := .any
  action := action
  resource := .any
  conditions := [⟨.when, .isInRange [contextIp, .ip [.value "203.0.113.0/24".toList]]⟩]

theorem sampleDial_readAlike (t : Text) : ReadAlike Empty t := by
  intro p hp
  exact ⟨p, hp, (parseCedar_network hp).masked⟩

/-- Scoped with `==`, the rule is kept. -/
theorem equal_action_kept : Kept [forbidRange (.eq dialUid)] := by
  refine (dial_rules_kept_iff [forbidRange (.eq dialUid)] ?_).2 (.inr ?_)
  · intro p _ _ c _ t _
    exact sampleDial_readAlike t
  · intro p hp
    rw [List.mem_singleton.1 hp]
    intro h
    cases h

theorem forbidRange_matches :
    Matches (forbidRange (.mem dialUid)) (.v4 0xcb007107#32) := by
  intro principal resource
  let range : IpPrefix := ⟨.v4 0xcb007100#32, 24⟩
  have hprefixes : ipTestPrefixes (.isInRange [contextIp, .ip [.value "203.0.113.0/24".toList]] :
      Condition Empty) = .ok [range] := by
    decide +kernel
  have hspans : range.Spans (.v4 0xcb007107#32) := ⟨rfl, by decide, by decide⟩
  rcases eval_of_ipTestPrefixes hprefixes (fun t _ => sampleDial_readAlike t) principal resource
    (.v4 0xcb007107#32) with ⟨v, hv, hiff⟩
  rw [hiff.2 ⟨range, by simp, hspans⟩] at hv
  have hscope : (Scope.mem dialUid).holds noEntities dialUid = true :=
    (Cedar.Store.isIn_iff noEntities).2 .refl
  have hclause : Clause.holds
      (⟨.when, .isInRange [contextIp, .ip [.value "203.0.113.0/24".toList]]⟩ :
        Clause (Condition Empty))
      (dialRequest principal resource (.v4 0xcb007107#32)) noEntities = true := by
    unfold Clause.holds
    rw [show Expressions.eval _ _ _ = _ from hv]
    rfl
  have hconditions := Bool.and_eq_true_iff.2 ⟨hclause, rfl⟩
  -- Principal and resource may be any: the action's scope and the clause decide.
  exact Bool.and_eq_true_iff.2 ⟨Bool.and_eq_true_iff.2 ⟨hscope, rfl⟩, hconditions⟩

/-- Scoped with `in` to the single action, the rule is passed over: the table is empty, and an
address that it forbids may be dialled. -/
theorem single_action_dropped :
    compileIpRules [forbidRange (.mem dialUid)] = .ok ⟨[], []⟩ ∧
      (ceilingOf ⟨[], []⟩ false).blockedBy ⟨false⟩ (.v4 0xcb007107#32) = .ok none ∧
      Matches (forbidRange (.mem dialUid)) (.v4 0xcb007107#32) ∧
      ¬ Kept [forbidRange (.mem dialUid)] := by
  have hrules : compileIpRules [forbidRange (.mem dialUid)] = .ok ⟨[], []⟩ := by
    unfold compileIpRules
    rw [List.mergeSort_singleton]
    rfl
  have hdialled :
      (ceilingOf ⟨[], []⟩ false).blockedBy ⟨false⟩ (.v4 0xcb007107#32) = .ok none := by
    decide +kernel
  refine ⟨hrules, hdialled, forbidRange_matches, ?_⟩
  rintro (⟨e, he⟩ | ⟨rules, hsome, hkept⟩)
  · rw [hrules] at he
    cases he
  · rw [hrules] at hsome
    cases hsome
    have hnames : NamesDial (forbidRange (.mem dialUid)) := by
      unfold NamesDial
      decide
    have hrefused : RefusedBy [forbidRange (.mem dialUid)] (.v4 0xcb007107#32) :=
      .inl ⟨_, by simp, rfl, hnames, forbidRange_matches⟩
    exact Bool.false_ne_true ((hkept.judges false ⟨false⟩ _ none hdialled).2 hrefused)

end Sample

end Authz
end FunctionWasm

import Mathlib.Data.List.Dedup
import Mathlib.Data.List.Count
import Mathlib.Logic.Function.Basic
import FunctionWasm.Egress.Client
import FunctionWasm.Foundation.Transition

/-!
# Redirects — what a run sends and dials along its redirect chains

The guest may have several requests under way; each is a chain of round trips, and the chains share
the count of requests.  The network is the adversary: any response, any `Location`, any answer of the
system's resolver, at any time.

* `EgressRun` is a run with the requests it has sent and the addresses it has dialled.
* `roundTrip_sent`, `roundTrip_again` and `mayDial_of_dials` say what one trip does.
* `EgressInv` is the invariant, `chain_ends` says that a chain ends whatever it meets.
* `egress_holds_on_redirects` is what holds in every reachable state.
-/

namespace FunctionWasm
namespace Egress

open HttpLibrary

/-! ## Addresses -/

/-- The address may be dialled: unmapped, it is neither unspecified nor blocked. -/
def MayDial (b : Build) (e : Ceiling) (ip : IpAddr) : Prop :=
  ip.unmap.isUnspecified = false ∧ e.blockedBy b ip.unmap = .ok none

theorem unmap_unmap (ip : IpAddr) : ip.unmap.unmap = ip.unmap := by
  cases ip with
  | v4 bits => rfl
  | v6 bits =>
      by_cases hmapped : bits.extractLsb' 32 96 = 0xffff#96
      · simp [IpAddr.unmap, hmapped]
      · simp [IpAddr.unmap, hmapped]

theorem mayDial_of_judge {b : Build} {e : Ceiling} {ip : IpAddr} (h : e.judge b ip = .ok none) :
    MayDial b e ip := by
  unfold Ceiling.judge at h
  dsimp only at h
  split at h
  · cases h
  · next hspecified =>
      refine ⟨by simpa using hspecified, ?_⟩
      cases hblocked : e.blockedBy b ip.unmap with
      | error fault => simp [hblocked, bind, Except.bind] at h
      | ok found =>
          cases found with
          | none => rfl
          | some p => simp [hblocked, bind, Except.bind, pure, Except.pure] at h

theorem MayDial.unmap {b : Build} {e : Ceiling} {ip : IpAddr} (h : MayDial b e ip) :
    MayDial b e ip.unmap := by
  unfold MayDial
  rw [unmap_unmap]
  exact h

theorem readResponse_finished (g : Grant) (t : Trip) (rsp : ServerResponse) :
    ∃ result, readResponse g t rsp = .finished result := by
  unfold readResponse
  split
  · exact ⟨_, rfl⟩
  · dsimp only
    split <;> exact ⟨_, rfl⟩

section Runs

variable [HttpLibrary]

theorem judgeAll_ok {b : Build} {e : Ceiling} {host : Text} {addrs : List SocketAddr}
    (h : judgeAll b e host addrs = .ok (.ok ())) : ∀ a ∈ addrs, MayDial b e a.ip := by
  induction addrs with
  | nil =>
      intro a ha
      cases ha
  | cons first rest ih =>
      cases hjudge : e.judge b first.ip with
      | error fault => simp [judgeAll, hjudge, bind, Except.bind] at h
      | ok objection =>
          cases objection with
          | none =>
              have hrest : judgeAll b e host rest = .ok (.ok ()) := by
                simpa [judgeAll, hjudge, bind, Except.bind] using h
              intro a ha
              rcases List.mem_cons.1 ha with rfl | ha
              · exact mayDial_of_judge hjudge
              · exact ih hrest a ha
          | some objection =>
              cases objection <;>
                simp [judgeAll, hjudge, bind, Except.bind, pure, Except.pure] at h

/-- Every address that the resolver returns may be dialled. -/
theorem resolve_ok {b : Build} {e : Ceiling} {host : Text}
    {found : Except Text (List SocketAddr)} {vetted : List SocketAddr}
    (h : resolve b e host found = .ok (.ok vetted)) :
    ∀ ip ∈ vetted.map SocketAddr.ip, MayDial b e ip := by
  cases found with
  | error err => simp [resolve] at h
  | ok addrs =>
      cases addrs with
      | nil => simp [resolve] at h
      | cons first rest =>
          cases hjudged : judgeAll b e host (first :: rest) with
          | error fault => simp [resolve, hjudged, bind, Except.bind] at h
          | ok judged =>
              cases judged with
              | error err =>
                  simp [resolve, hjudged, bind, Except.bind, pure, Except.pure] at h
              | ok _ =>
                  have hvetted : (first :: rest).map (fun a => { a with ip := a.ip.unmap }) =
                      vetted := by
                    simpa [resolve, hjudged, bind, Except.bind, pure, Except.pure] using h
                  subst hvetted
                  intro ip hip
                  simp only [List.map_map, List.mem_map] at hip
                  rcases hip with ⟨a, ha, rfl⟩
                  exact (judgeAll_ok hjudged a ha).unmap

theorem bareHost_literal {u : ParsedUrl} {ip : IpAddr} (h : literal u = some ip) :
    parseIp (bareHost ((hostStr u).getD [])) = some ip := by
  rcases literal_hostStr h with ⟨t, hhost, hparse, hopen, hclose⟩
  have hstart : ∀ s : Text, '[' ∉ s → trimStart (· = '[') s = s := by
    intro s hs
    cases s with
    | nil => rfl
    | cons c rest =>
        have hc : c ≠ '[' := by
          rintro rfl
          exact hs (List.mem_cons_self ..)
        simp [trimStart, hc]
  have hdrop : t.reverse.dropWhile (· = ']') = t.reverse := by
    cases hrev : t.reverse with
    | nil => rfl
    | cons c rest =>
        have hmem : c ∈ t := by
          rw [← List.mem_reverse, hrev]
          exact List.mem_cons_self ..
        have hc : c ≠ ']' := by
          rintro rfl
          exact hclose hmem
        simp [hc]
  have hend : trimEnd (· = ']') t = t := by
    rw [trimEnd, hdrop, List.reverse_reverse]
  have hbare : bareHost ((hostStr u).getD []) = t := by
    rcases hhost with hplain | hbracketed
    · simp only [hplain, Option.getD_some, bareHost, hstart t hopen, hend]
    · have hopen' : '[' ∉ t ++ [']'] := by simpa using hopen
      have hbody : trimStart (· = '[') ('[' :: t ++ "]".toList) = t ++ [']'] := by
        simpa [trimStart] using hstart (t ++ [']']) hopen'
      simp only [hbracketed, Option.getD_some, bareHost, hbody]
      simpa [trimEnd] using hend
  rw [hbare]
  exact hparse

/-- Where the literal check of a trip passes, every address it dials may be dialled. -/
theorem mayDial_of_dials {b : Build} {e : Ceiling} {url : Url} {net : Network}
    (hurl : Url.parse url.raw = .ok url) (hjudge : judgeLiteral b e url = .ok none)
    (hdials : Dials b e url.raw net) : ∀ ip ∈ net.dialled, MayDial b e ip := by
  intro ip hip
  rcases hdials ip hip with ⟨u, hparse, hwhere⟩
  cases hliteral : literal u with
  | none =>
      simp only [hliteral] at hwhere
      rcases hwhere with ⟨lookup, -, vetted, hresolve, hmem⟩
      exact resolve_ok hresolve ip hmem
  | some address =>
      simp only [hliteral] at hwhere
      subst hwhere
      have hof : Url.ofParsed url.raw u = url := by simpa [Url.parse, hparse] using hurl
      have hbare : parseIp (bareHost url.hostname) = some ip := by
        rw [← hof]
        exact bareHost_literal hliteral
      cases hverdict : e.judge b ip with
      | error fault => simp [judgeLiteral, hbare, hverdict, bind, Except.bind] at hjudge
      | ok objection =>
          cases objection with
          | none => exact mayDial_of_judge hverdict
          | some objection =>
              cases objection <;>
                simp [judgeLiteral, hbare, hverdict, bind, Except.bind, pure, Except.pure]
                  at hjudge

/-! ## One trip -/

/-- A trip sends its own request, and only after the literal check has passed. -/
theorem roundTrip_sent {b : Build} {g : Grant} {c : Chain} {t : Trip} {net : Network}
    {sent : SentRequest} (h : (roundTrip b g c t net).2 = some sent) :
    judgeLiteral b g.egress t.url = .ok none ∧ sent.method = t.method ∧ sent.url = t.url.raw := by
  unfold roundTrip at h
  split at h
  · cases h
  · cases h
  · next hjudge =>
      split at h
      · cases h
      · split at h
        · cases h
        · dsimp only at h
          split at h
          · cases h
            exact ⟨hjudge, rfl, rfl⟩
          · split at h <;> cases h <;> exact ⟨hjudge, rfl, rfl⟩

theorem parse_raw {raw : Text} {url : Url} (h : Url.parse raw = .ok url) :
    Url.parse url.raw = .ok url := by
  unfold Url.parse at h
  split at h
  · cases h
  · next u hparse =>
      cases h
      simp [Url.parse, Url.ofParsed, hparse]

theorem parse_join {url next : Url} {location : Text} (h : url.join location = .ok next) :
    Url.parse next.raw = .ok next := by
  unfold Url.join at h
  split at h
  · cases h
  · split at h
    · cases h
    · exact parse_raw h

/-- What the loop knows of the trip it is about to make. -/
structure Admitted (g : Grant) (t : Trip) : Prop where
  admits : g.admits t.method t.url = .ok ()
  parsed : Url.parse t.url.raw = .ok t.url
  hops : t.hops ≤ g.egress.budget.maxRedirects

/-- A redirect is followed to a target that the grant admits with the method it will be sent. -/
theorem follow_again {g : Grant} {t t' : Trip} {status : Nat} {location : Text}
    (h : follow g t status location = .again t') : Admitted g t' ∧ t'.hops = t.hops + 1 := by
  unfold follow at h
  dsimp only at h
  split at h
  · cases h
  · next hhops =>
      split at h
      · cases h
      · next next hjoin =>
          split at h
          · cases h
          · next hadmits =>
              cases h
              exact ⟨⟨hadmits, parse_join hjoin, Nat.not_lt.1 hhops⟩, rfl⟩

/-- A chain goes on after a trip only by a redirect that was sent, admitted and counted. -/
theorem roundTrip_again {b : Build} {g : Grant} {c : Chain} {t t' : Trip} {net : Network}
    (h : (roundTrip b g c t net).1 = .again t') :
    (∃ sent, (roundTrip b g c t net).2 = some sent) ∧ Admitted g t' ∧ t'.hops = t.hops + 1 := by
  unfold roundTrip at h ⊢
  split at h
  · cases h
  · cases h
  · split at h
    · cases h
    · next htime =>
        rw [if_neg htime]
        split at h
        · cases h
        · dsimp only at h ⊢
          split at h
          · cases h
          · next rsp hanswer =>
              cases hlocation : redirectLocation rsp with
              | none =>
                  rcases readResponse_finished g t rsp with ⟨result, hread⟩
                  simp [hlocation, hread] at h
              | some location =>
                  simp only [hlocation] at h
                  exact ⟨⟨_, rfl⟩, follow_again h⟩

/-! ## A chain alone -/

/-- A chain with nothing beside it: up to `n` trips, against what each of them meets. -/
def chainRun (b : Build) (g : Grant) (c : Chain) (net : Nat → Network) : Nat → Trip → TripResult
  | 0, t => .again t
  | n + 1, t =>
      match (roundTrip b g c t (net t.hops)).1 with
      | .again t' => chainRun b g c net n t'
      | result => result

/-- Whatever a chain meets, it has ended after the redirects it has left and one trip more. -/
theorem chain_ends (b : Build) (g : Grant) (c : Chain) (net : Nat → Network) :
    ∀ (n : Nat) (t : Trip), g.egress.budget.maxRedirects < n + t.hops →
      t.hops ≤ g.egress.budget.maxRedirects → ∀ t', chainRun b g c net n t ≠ .again t' := by
  intro n
  induction n with
  | zero =>
      intro t hlt hle
      exact absurd hlt (Nat.not_lt.2 (by simpa using hle))
  | succ n ih =>
      intro t hlt hle t'
      unfold chainRun
      cases htrip : (roundTrip b g c t (net t.hops)).1 with
      | finished result => simp
      | panicked fault => simp
      | again t₁ =>
          rcases roundTrip_again htrip with ⟨-, hadmitted, hhops⟩
          refine ih t₁ ?_ hadmitted.hops t'
          calc g.egress.budget.maxRedirects
              < n + 1 + t.hops := hlt
            _ = n + t₁.hops := by rw [hhops, Nat.add_assoc, Nat.add_comm 1]

/-! ## The run -/

inductive ChainState where
  | travelling (first : Url) (c : Chain) (t : Trip)
  | closed (p : Performed)
  | panicked (fault : Fault)

/-- A run: the requests made so far, each with its chain, and what was sent and dialled for which. -/
structure EgressRun where
  made : Nat
  chains : Nat → Option ChainState
  sent : List (Nat × SentRequest)
  dialled : List (Nat × IpAddr)

namespace EgressRun

def start : EgressRun where
  made := 0
  chains := fun _ => none
  sent := []
  dialled := []

/-- The guest makes a request: the counter numbers it. -/
def request (g : Grant) (s : EgressRun) (req : Request) (rateAllows remaining : Bool) :
    EgressRun :=
  { s with
    made := s.made + 1
    chains := Function.update s.chains s.made
      (match openRequest g s.made req rateAllows remaining with
        | .inl performed => some (.closed performed)
        | .inr (c, t) => some (.travelling t.url c t)) }

/-- Chain `n` makes a trip. -/
def trip (b : Build) (g : Grant) (s : EgressRun) (n : Nat) (first : Url) (c : Chain) (t : Trip)
    (net : Network) : EgressRun :=
  let (result, sent) := roundTrip b g c t net
  { s with
    chains := Function.update s.chains n
      (match result with
        | .again t' => some (.travelling first c t')
        | .finished result => some (.closed (closeRequest first result))
        | .panicked fault => some (.panicked fault))
    sent := s.sent ++ sent.toList.map fun r => (n, r)
    dialled := if sent.isSome then s.dialled ++ net.dialled.map fun ip => (n, ip) else s.dialled }

/-- How many requests were sent for request `n` of the guest. -/
def sends (s : EgressRun) (n : Nat) : Nat := (s.sent.map Prod.fst).count n

end EgressRun

inductive EgressAction where
  | request (req : Request) (rateAllows remaining : Bool)
  | trip (n : Nat) (net : Network)

/-- The moves of a run, requests and trips of any chain in any order. -/
def egressStep (b : Build) (g : Grant) (s : EgressRun) : EgressAction → EgressRun → Prop
  | .request req rateAllows remaining, s' => s' = s.request g req rateAllows remaining
  | .trip n net, s' =>
      ∃ first c t, s.chains n = some (.travelling first c t) ∧ Dials b g.egress t.url.raw net ∧
        s' = s.trip b g n first c t net

def egressRun (b : Build) (g : Grant) : TransitionSystem EgressRun EgressAction where
  init s := s = .start
  step := egressStep b g

/-! ## The invariant -/

/-- The request was handed to the HTTP library with a method and a URL that the grant admits, the
URL as the library reads it. -/
def SentAdmitted (g : Grant) (r : SentRequest) : Prop :=
  ∃ u, parseUrl r.url = .ok u ∧ g.admits r.method (Url.ofParsed r.url u) = .ok ()

structure EgressInv (b : Build) (g : Grant) (s : EgressRun) : Prop where
  fresh : ∀ n, s.made ≤ n → s.chains n = none ∧ s.sends n = 0
  travelling : ∀ n first c t, s.chains n = some (.travelling first c t) →
    Admitted g t ∧ s.sends n = t.hops ∧ n < g.egress.budget.maxRequests
  sent : ∀ x ∈ s.sent, SentAdmitted g x.2 ∧ x.1 < g.egress.budget.maxRequests
  dialled : ∀ x ∈ s.dialled, MayDial b g.egress x.2
  sends : ∀ n, s.sends n ≤ g.egress.budget.maxRedirects + 1

theorem egressInv_start (b : Build) (g : Grant) : EgressInv b g .start where
  fresh := fun _ _ => ⟨rfl, rfl⟩
  travelling := by
    intro n first c t h
    cases h
  sent := by
    intro x hx
    cases hx
  dialled := by
    intro x hx
    cases hx
  sends := fun _ => Nat.zero_le _

/-- A request that gets as far as the loop is within the budget, and the grant admits it. -/
theorem openRequest_inr {g : Grant} {made : Nat} {req : Request} {rateAllows remaining : Bool}
    {c : Chain} {t : Trip} (h : openRequest g made req rateAllows remaining = .inr (c, t)) :
    Admitted g t ∧ t.hops = 0 ∧ made < g.egress.budget.maxRequests := by
  unfold openRequest at h
  dsimp only at h
  split at h
  · cases h
  · next hbudget =>
      split at h
      · cases h
      · split at h
        · cases h
        · next url hparse =>
            split at h
            · cases h
            · next hadmits =>
                cases h
                exact ⟨⟨hadmits, parse_raw hparse, Nat.zero_le _⟩, rfl, Nat.not_lt.1 hbudget⟩

theorem egressInv_request {b : Build} {g : Grant} {s : EgressRun} (h : EgressInv b g s)
    (req : Request) (rateAllows remaining : Bool) :
    EgressInv b g (s.request g req rateAllows remaining) where
  fresh := by
    intro n hn
    have hlt : s.made < n := hn
    have hold := h.fresh n (Nat.le_of_lt hlt)
    refine ⟨?_, hold.2⟩
    simpa [EgressRun.request, Nat.ne_of_gt hlt] using hold.1
  travelling := by
    intro n first c t hn
    by_cases hnew : n = s.made
    · subst hnew
      cases hopen : openRequest g s.made req rateAllows remaining with
      | inl performed => simp [EgressRun.request, hopen] at hn
      | inr opened =>
          rcases opened with ⟨c', t'⟩
          have heq : c' = c ∧ t' = t := by
            have hstate : t'.url = first ∧ c' = c ∧ t' = t := by
              simpa [EgressRun.request, hopen] using hn
            exact hstate.2
          rcases heq with ⟨rfl, rfl⟩
          rcases openRequest_inr hopen with ⟨hadmitted, hhops, hbudget⟩
          exact ⟨hadmitted, (h.fresh s.made (Nat.le_refl _)).2.trans hhops.symm, hbudget⟩
    · exact h.travelling n first c t (by simpa [EgressRun.request, hnew] using hn)
  sent := h.sent
  dialled := h.dialled
  sends := h.sends

theorem sends_trip (b : Build) (g : Grant) (s : EgressRun) (n m : Nat) (first : Url) (c : Chain)
    (t : Trip) (net : Network) :
    (s.trip b g n first c t net).sends m =
      s.sends m + if m = n ∧ (roundTrip b g c t net).2.isSome then 1 else 0 := by
  cases hsent : (roundTrip b g c t net).2 with
  | none => simp [EgressRun.trip, EgressRun.sends, hsent]
  | some r =>
      by_cases hm : m = n
      · simp [EgressRun.trip, EgressRun.sends, hsent, hm]
      · simp [EgressRun.trip, EgressRun.sends, hsent, hm, Ne.symm hm]

theorem egressInv_trip {b : Build} {g : Grant} {s : EgressRun} (h : EgressInv b g s) {n : Nat}
    {first : Url} {c : Chain} {t : Trip} {net : Network}
    (hn : s.chains n = some (.travelling first c t)) (hdials : Dials b g.egress t.url.raw net) :
    EgressInv b g (s.trip b g n first c t net) := by
  rcases h.travelling n first c t hn with ⟨hadmitted, hsends, hbudget⟩
  -- the chain that travels was made before
  have hold : n < s.made := by
    by_contra hge
    have hnone := (h.fresh n (Nat.not_lt.1 hge)).1
    simp [hn] at hnone
  refine ⟨?_, ?_, ?_, ?_, ?_⟩
  · intro m hm
    have hm' : s.made ≤ m := hm
    have hne : m ≠ n := Nat.ne_of_gt (Nat.lt_of_lt_of_le hold hm')
    refine ⟨?_, ?_⟩
    · simpa [EgressRun.trip, hne] using (h.fresh m hm').1
    · simpa [sends_trip, hne] using (h.fresh m hm').2
  · intro m first' c' t' hm
    by_cases hmn : m = n
    · -- the chain goes on only by a redirect that was sent
      subst hmn
      cases hresult : (roundTrip b g c t net).1 with
      | finished result => simp [EgressRun.trip, hresult] at hm
      | panicked fault => simp [EgressRun.trip, hresult] at hm
      | again t₁ =>
          have heq : first = first' ∧ c = c' ∧ t₁ = t' := by
            simpa [EgressRun.trip, hresult] using hm
          rcases heq with ⟨rfl, rfl, rfl⟩
          rcases roundTrip_again hresult with ⟨⟨r, hr⟩, hadmitted', hhops⟩
          refine ⟨hadmitted', ?_, hbudget⟩
          simp [sends_trip, hr, hsends, hhops]
    · have hkept := h.travelling m first' c' t' (by simpa [EgressRun.trip, hmn] using hm)
      refine ⟨hkept.1, ?_, hkept.2.2⟩
      simpa [sends_trip, hmn] using hkept.2.1
  · intro x hx
    rcases List.mem_append.1 hx with hx | hx
    · exact h.sent x hx
    · rcases List.mem_map.1 hx with ⟨r, hr, rfl⟩
      rcases roundTrip_sent (Option.mem_toList.1 hr) with ⟨-, hmethod, hurl⟩
      refine ⟨?_, hbudget⟩
      -- the URL was parsed when it was admitted
      cases hparse : parseUrl t.url.raw with
      | error e => exact absurd hadmitted.parsed (by simp [Url.parse, hparse])
      | ok u =>
          have hof : Url.ofParsed t.url.raw u = t.url := by
            simpa [Url.parse, hparse] using hadmitted.parsed
          refine ⟨u, by rw [hurl]; exact hparse, ?_⟩
          rw [hmethod, hurl, hof]
          exact hadmitted.admits
  · intro x hx
    -- only a request that is sent dials
    cases hsent : (roundTrip b g c t net).2 with
    | none =>
        exact h.dialled x (by simpa [EgressRun.trip, hsent] using hx)
    | some r =>
        have hx' : x ∈ s.dialled ∨ x ∈ net.dialled.map fun ip => (n, ip) := by
          simpa [EgressRun.trip, hsent] using hx
        rcases hx' with hx' | hx'
        · exact h.dialled x hx'
        · rcases List.mem_map.1 hx' with ⟨ip, hip, rfl⟩
          exact mayDial_of_dials hadmitted.parsed (roundTrip_sent hsent).1 hdials ip hip
  · intro m
    rw [sends_trip]
    by_cases hmn : m = n
    · subst hmn
      rw [hsends]
      -- a chain sends once more than it has followed redirects
      have hhops := hadmitted.hops
      split
      · exact Nat.add_le_add_right hhops 1
      · exact Nat.le_succ_of_le hhops
    · simpa [hmn] using h.sends m

theorem egressInv_reachable {b : Build} {g : Grant} {s : EgressRun}
    (h : (egressRun b g).Reachable s) : EgressInv b g s := by
  refine h.invariant ?_ ?_
  · rintro s rfl
    exact egressInv_start b g
  · intro s a s' _ hinv hstep
    cases a with
    | request req rateAllows remaining =>
        cases hstep
        exact egressInv_request hinv req rateAllows remaining
    | trip n net =>
        rcases hstep with ⟨first, c, t, hn, hdials, rfl⟩
        exact egressInv_trip hinv hn hdials

/-- In every reachable state of a run: what was sent is admitted by the grant, what was dialled may
be, every chain has followed at most the redirects of its budget and ends whatever it meets, and no
more requests of the guest than the budget have sent anything. -/
theorem egress_holds_on_redirects (b : Build) (g : Grant) {s : EgressRun}
    (h : (egressRun b g).Reachable s) :
    (∀ x ∈ s.sent, SentAdmitted g x.2) ∧
    (∀ x ∈ s.dialled, MayDial b g.egress x.2) ∧
    (∀ n, s.sends n ≤ g.egress.budget.maxRedirects + 1) ∧
    (∀ n first c t, s.chains n = some (.travelling first c t) →
      t.hops ≤ g.egress.budget.maxRedirects ∧ s.sends n = t.hops ∧
      ∀ net t', chainRun b g c net (g.egress.budget.maxRedirects + 1) t ≠ .again t') ∧
    (s.sent.map Prod.fst).dedup.length ≤ g.egress.budget.maxRequests := by
  have hinv := egressInv_reachable h
  refine ⟨fun x hx => (hinv.sent x hx).1, hinv.dialled, hinv.sends, ?_, ?_⟩
  · intro n first c t hn
    rcases hinv.travelling n first c t hn with ⟨hadmitted, hsends, -⟩
    refine ⟨hadmitted.hops, hsends, ?_⟩
    intro net
    apply chain_ends b g c net
    · exact Nat.lt_of_lt_of_le (Nat.lt_succ_self _) (Nat.le_add_right _ _)
    · exact hadmitted.hops
  · -- the requests that have sent something are numbered below the budget
    have hsub : (s.sent.map Prod.fst).dedup ⊆ List.range g.egress.budget.maxRequests := by
      intro n hn
      rcases List.mem_map.1 (List.mem_dedup.1 hn) with ⟨x, hx, rfl⟩
      exact List.mem_range.2 (hinv.sent x hx).2
    have hlength := (List.subperm_of_subset (List.nodup_dedup _) hsub).length_le
    simpa using hlength

end Runs

/-! ## A redirect followed -/

/-- The libraries on the URLs of one host. -/
@[reducible] def sampleLibrary : HttpLibrary where
  ParsedUrl := Text
  parseUrl raw :=
    if raw = "http://a.io/x".toList then .ok "/x".toList
    else if raw = "http://a.io/y".toList then .ok "/y".toList
    else .error "relative URL without a base".toList
  scheme _ := "http".toList
  hostStr _ := some "a.io".toList
  path u := u
  asStr u := "http://a.io".toList ++ u
  join _ location := .ok location
  literal _ := none
  literal_hostStr := by
    intro u ip h
    cases h
  methodFromBytes _ := .ok ()
  lowercase := id
  uppercase := id
  showIp _ := []
  debug := id

attribute [local instance] sampleLibrary

def sampleGrant : Grant where
  egress :=
    { blocked := defaultBlocked
      allowed := []
      explicit := []
      budget := .default
      rateLimited := false }
  rules :=
    [{ host := "a.io".toList
       suffix := []
       methods := ["GET".toList]
       pathPrefix := [] }]

def sampleUrl (path : Text) : Url where
  raw := "http://a.io".toList ++ path
  scheme := "http".toList
  hostname := "a.io".toList
  path := path

/-- The host resolves to a public address, which is dialled, and answers with `rsp`. -/
def sampleNetwork (status : Nat) (location : Option Text) : Network where
  timeLeft := true
  lookups := [("a.io".toList, .ok [⟨.v4 0x5db8d822#32, 0⟩])]
  dialled := [.v4 0x5db8d822#32]
  answer := .ok
    { status := status
      location := location
      headers := []
      body := .ok [] }

def sampleChain : Chain where
  originHost := "a.io".toList
  headers := []
  limit := "its 10s timeout".toList

def sampleTrip (path : Text) (hops : Nat) : Trip where
  method := "GET".toList
  url := sampleUrl path
  body := some []
  hops := hops

theorem sample_dials {path : Text} {u : Text} (hparse : parseUrl (sampleUrl path).raw = .ok u)
    (status : Nat) (location : Option Text) :
    Dials ⟨false⟩ sampleGrant.egress (sampleUrl path).raw (sampleNetwork status location) := by
  intro ip hip
  have hresolve : resolve ⟨false⟩ sampleGrant.egress "a.io".toList
      (.ok [⟨.v4 0x5db8d822#32, 0⟩]) = .ok (.ok [⟨.v4 0x5db8d822#32, 0⟩]) := by
    decide +kernel
  refine ⟨u, hparse, ?_⟩
  exact ⟨_, List.mem_singleton.2 rfl, _, hresolve, hip⟩

/-- A request redirected once and then answered: two requests are sent, and they keep to the grant
and the budgets. -/
theorem redirected_get_holds :
    ∃ s, (egressRun ⟨false⟩ sampleGrant).Reachable s ∧ s.sends 0 = 2 ∧
      (∀ x ∈ s.sent, SentAdmitted sampleGrant x.2) ∧
      (s.sent.map Prod.fst).dedup.length ≤ 16 := by
  let s₁ := EgressRun.start.request sampleGrant
    { method := [], url := "http://a.io/x".toList, headers := [], body := [] } true false
  let s₂ := s₁.trip ⟨false⟩ sampleGrant 0 (sampleUrl "/x".toList) sampleChain
    (sampleTrip "/x".toList 0) (sampleNetwork 302 (some "/y".toList))
  let s₃ := s₂.trip ⟨false⟩ sampleGrant 0 (sampleUrl "/x".toList) sampleChain
    (sampleTrip "/y".toList 1) (sampleNetwork 200 none)
  have h₁ : (egressRun ⟨false⟩ sampleGrant).Reachable s₁ :=
    .step (.request _ true false) (.init rfl) rfl
  have h₂ : (egressRun ⟨false⟩ sampleGrant).Reachable s₂ := by
    refine .step (.trip 0 _) h₁ ⟨_, _, _, ?_, ?_, rfl⟩
    · rfl
    · exact sample_dials (u := "/x".toList) rfl _ _
  have h₃ : (egressRun ⟨false⟩ sampleGrant).Reachable s₃ := by
    refine .step (.trip 0 _) h₂ ⟨_, _, _, ?_, ?_, rfl⟩
    · rfl
    · exact sample_dials (u := "/y".toList) rfl _ _
  have hall := egress_holds_on_redirects ⟨false⟩ sampleGrant h₃
  exact ⟨s₃, h₃, by rfl, hall.1, hall.2.2.2.2⟩

end Egress
end FunctionWasm

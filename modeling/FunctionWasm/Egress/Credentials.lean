import FunctionWasm.Egress.Redirects

/-!
# Credentials — the guest's Authorization and Cookie along a chain of redirects

Each trip of a chain decides on its own which headers it sends: it compares its host with that of
the first request, and does not look at the hosts in between.

* `journey` are the requests that a chain sends, each with the host it goes to.
* `CredentialsDie` is what is wanted of them: none to a foreign host, and none after one.
* `journey_carries_iff` says which of the requests carry the guest's credentials.
* `credentials_die_iff` says when that is as wanted.
-/

namespace FunctionWasm
namespace Egress

open HttpLibrary

/-! ## Credentials -/

/-- The names of the headers that identify the guest to a server. -/
def isCredential (k : Text) : Bool :=
  asciiLower k ∈ ["authorization", "cookie"].map String.toList

/-- Some credential is among the headers, with a value. -/
def Carries (headers : Headers) : Prop :=
  ∃ h ∈ headers, isCredential h.1 = true ∧ h.2 ≠ []

/-- The host is not that of the first request. -/
def Foreign (origin host : Text) : Prop :=
  asciiLower host ≠ asciiLower origin

instance (origin host : Text) : Decidable (Foreign origin host) :=
  inferInstanceAs (Decidable (_ ≠ _))

theorem isSensitiveHeader_of_isCredential {k : Text} (h : isCredential k = true) :
    isSensitiveHeader k = true := by
  simp only [isCredential, decide_eq_true_eq, List.map_cons, List.map_nil, List.mem_cons,
    List.not_mem_nil, or_false] at h
  simp only [isSensitiveHeader, decide_eq_true_eq, List.map_cons, List.map_nil, List.mem_cons]
  rcases h with h | h
  · exact Or.inl h
  · exact Or.inr (Or.inl h)

theorem not_isReservedHeader_of_isCredential {k : Text} (h : isCredential k = true) :
    isReservedHeader k = false := by
  simp only [isCredential, decide_eq_true_eq, List.map_cons, List.map_nil, List.mem_cons,
    List.not_mem_nil, or_false] at h
  unfold isReservedHeader
  rcases h with h | h <;> rw [h] <;> decide

/-- A trip sends the credentials of the chain unless it is a redirect to a foreign host. -/
theorem carries_sentHeaders_iff {c : Chain} {t : Trip} :
    Carries (sentHeaders c t) ↔
      Carries c.headers ∧ ¬ (0 < t.hops ∧ Foreign c.originHost t.url.hostname) := by
  have hkept : ∀ h : Text × List Text, isCredential h.1 = true →
      (h ∈ sentHeaders c t ↔
        h ∈ c.headers ∧ ¬ (0 < t.hops ∧ Foreign c.originHost t.url.hostname)) := by
    intro h hcredential
    simp only [sentHeaders, Foreign, List.mem_filter, decide_eq_true_eq,
      isSensitiveHeader_of_isCredential hcredential,
      not_isReservedHeader_of_isCredential hcredential, Bool.false_eq_true, false_or, true_and]
  constructor
  · rintro ⟨h, hsent, hcredential, hvalue⟩
    rcases (hkept h hcredential).1 hsent with ⟨hmem, hhome⟩
    exact ⟨⟨h, hmem, hcredential, hvalue⟩, hhome⟩
  · rintro ⟨⟨h, hmem, hcredential, hvalue⟩, hhome⟩
    exact ⟨h, (hkept h hcredential).2 ⟨hmem, hhome⟩, hcredential, hvalue⟩

/-- The first trip of a chain is to the host that the others compare theirs with. -/
def AtHome (c : Chain) (t : Trip) : Prop :=
  t.hops = 0 → t.url.hostname = c.originHost

theorem carries_of_atHome {c : Chain} {t : Trip} (h : AtHome c t) :
    Carries (sentHeaders c t) ↔
      Carries c.headers ∧ ¬ Foreign c.originHost t.url.hostname := by
  rw [carries_sentHeaders_iff]
  refine and_congr_right fun _ => not_congr ?_
  constructor
  · exact And.right
  · intro hforeign
    refine ⟨Nat.pos_of_ne_zero fun hzero => ?_, hforeign⟩
    rw [h hzero] at hforeign
    exact hforeign rfl

/-! ## The requests of a chain -/

section Chains

variable [HttpLibrary]

/-- The requests that a chain sends, each with the host it goes to; the networks are what its trips
meet. -/
def journey (b : Build) (g : Grant) (c : Chain) : List Network → Trip → List (Text × SentRequest)
  | [], _ => []
  | net :: nets, t =>
      match roundTrip b g c t net with
      | (.again t', some sent) => (t.url.hostname, sent) :: journey b g c nets t'
      | (_, some sent) => [(t.url.hostname, sent)]
      | (_, none) => []

/-- What a trip of a chain sends are the headers of that trip. -/
theorem roundTrip_headers {b : Build} {g : Grant} {c : Chain} {t : Trip} {net : Network}
    {sent : SentRequest} (h : (roundTrip b g c t net).2 = some sent) :
    sent.headers = sentHeaders c t := by
  unfold roundTrip at h
  split at h
  · cases h
  · cases h
  · split at h
    · cases h
    · split at h
      · cases h
      · dsimp only at h
        split at h
        · cases h
          rfl
        · split at h <;> cases h <;> rfl

/-- A request of a chain carries the guest's credentials exactly when the guest has some and the
request goes to the host of the first one. -/
theorem journey_carries_iff {b : Build} {g : Grant} {c : Chain} :
    ∀ (nets : List Network) (t : Trip), AtHome c t → ∀ x ∈ journey b g c nets t,
      (Carries x.2.headers ↔ Carries c.headers ∧ ¬ Foreign c.originHost x.1) := by
  intro nets
  induction nets with
  | nil =>
      intro t _ x hx
      cases hx
  | cons net nets ih =>
      intro t hhome x hx
      have hself : ∀ sent, (roundTrip b g c t net).2 = some sent →
          (Carries sent.headers ↔ Carries c.headers ∧ ¬ Foreign c.originHost t.url.hostname) := by
        intro sent hsent
        rw [roundTrip_headers hsent]
        exact carries_of_atHome hhome
      cases htrip : roundTrip b g c t net with
      | mk result sent =>
          rw [htrip] at hself
          cases sent with
          | none => cases result <;> simp [journey, htrip] at hx
          | some sent =>
              cases result with
              | again t' =>
                  -- a trip that goes on has made a hop, so the next one need not be at home
                  have hagain : (roundTrip b g c t net).1 = .again t' := by rw [htrip]
                  have hhops : t'.hops = t.hops + 1 := (roundTrip_again hagain).2.2
                  have hhome' : AtHome c t' := by
                    intro hzero
                    rw [hhops] at hzero
                    cases hzero
                  rw [journey, htrip] at hx
                  rcases List.mem_cons.1 hx with rfl | hx
                  · exact hself sent rfl
                  · exact ih t' hhome' x hx
              | finished result =>
                  rw [journey, htrip, List.mem_singleton] at hx
                  rw [hx]
                  exact hself sent rfl
              | panicked fault =>
                  rw [journey, htrip, List.mem_singleton] at hx
                  rw [hx]
                  exact hself sent rfl

/-! ## Whether they die -/

/-- No request to a foreign host carries the guest's credentials, and none after one does. -/
def CredentialsDie (origin : Text) (sent : List (Text × SentRequest)) : Prop :=
  (sent.Pairwise fun x y => Foreign origin x.1 → ¬ Carries y.2.headers) ∧
    ∀ x ∈ sent, Foreign origin x.1 → ¬ Carries x.2.headers

/-- No request goes to the host of the first one after a request to another. -/
def StaysAway (origin : Text) (hosts : List Text) : Prop :=
  hosts.Pairwise fun x y => Foreign origin x → Foreign origin y

theorem atHome_of_openRequest {g : Grant} {made : Nat} {req : Request}
    {rateAllows remaining : Bool} {c : Chain} {t : Trip}
    (h : openRequest g made req rateAllows remaining = .inr (c, t)) :
    AtHome c t ∧ c.originHost = t.url.hostname ∧ c.headers = req.headers := by
  unfold openRequest at h
  dsimp only at h
  split at h
  · cases h
  · split at h
    · cases h
    · split at h
      · cases h
      · split at h
        · cases h
        · cases h
          exact ⟨fun _ => rfl, rfl, rfl⟩

/-- The credentials of a request die at the first foreign hop exactly when it has none or its chain
does not come back to the host it started from. -/
theorem credentials_die_iff {b : Build} {g : Grant} {made : Nat} {req : Request}
    {rateAllows remaining : Bool} {c : Chain} {t : Trip}
    (hopen : openRequest g made req rateAllows remaining = .inr (c, t)) (nets : List Network) :
    CredentialsDie t.url.hostname (journey b g c nets t) ↔
      ¬ Carries req.headers ∨
        StaysAway t.url.hostname ((journey b g c nets t).map Prod.fst) := by
  rcases atHome_of_openRequest hopen with ⟨hhome, horigin, hheaders⟩
  have hcarries := journey_carries_iff (b := b) (g := g) nets t hhome
  rw [hheaders, horigin] at hcarries
  have hsafe : ∀ x ∈ journey b g c nets t, Foreign t.url.hostname x.1 → ¬ Carries x.2.headers :=
    fun x hx hforeign hx' => ((hcarries x hx).1 hx').2 hforeign
  unfold CredentialsDie StaysAway
  rw [List.pairwise_map, and_iff_left hsafe]
  by_cases hguest : Carries req.headers
  · rw [or_iff_right (not_not.2 hguest)]
    refine List.Pairwise.iff_of_mem ?_
    intro x y _ hy
    rw [hcarries y hy, and_iff_right hguest, not_not]
  · rw [iff_true_right (Or.inl hguest)]
    refine List.pairwise_of_forall_mem_list ?_
    intro x _ y hy _ hcarried
    exact hguest ((hcarries y hy).1 hcarried).1

end Chains

/-! ## A chain that comes back -/

/-- The libraries on URLs of a scheme, a host of four letters and a path. -/
@[reducible] def twoHosts : HttpLibrary where
  ParsedUrl := Text
  parseUrl raw := .ok raw
  scheme _ := "http".toList
  hostStr u := some ((u.drop 7).take 4)
  path u := u.drop 11
  asStr u := u
  join _ location := .ok location
  literal _ := none
  literal_hostStr := by
    intro u ip h
    cases h
  methodFromBytes _ := .ok ()
  lowercase := id
  uppercase := id
  showIp _ := []
  debug := id

attribute [local instance] twoHosts

/-- A grant of GET requests to two hosts. -/
def twoHostsGrant : Grant :=
  { sampleGrant with
    rules := ["a.io", "b.io"].map fun host =>
      { host := host.toList
        suffix := []
        methods := ["GET".toList]
        pathPrefix := [] } }

/-- What a trip meets that is answered by a redirect. -/
def redirectTo (location : String) : Network where
  timeLeft := true
  lookups := []
  dialled := []
  answer := .ok
    { status := 302
      location := some location.toList
      headers := []
      body := .ok [] }

def authorizedGet : Request where
  method := "GET".toList
  url := "http://a.io/".toList
  headers := [("Authorization".toList, ["Bearer token".toList])]
  body := []

/-- The chain of the request, with its first trip. -/
def authorizedChain : Chain × Trip :=
  ({ originHost := "a.io".toList
     headers := authorizedGet.headers
     limit := "its 10s timeout".toList },
    { method := "GET".toList
      url := .ofParsed "http://a.io/".toList "http://a.io/".toList
      body := some []
      hops := 0 })

theorem authorized_opens :
    openRequest twoHostsGrant 0 authorizedGet true false = .inr authorizedChain := rfl

/-- A request of the chain to a URL, with its headers. -/
def getOf (url : String) (headers : Headers) : SentRequest where
  method := "GET".toList
  url := url.toList
  headers := headers
  body := some []

theorem bearer_carried : Carries authorizedGet.headers :=
  ⟨_, List.mem_singleton.2 rfl, by decide, by decide⟩

/-- A chain that leaves the first host and does not come back keeps the header from the others. -/
theorem credentials_die_sample :
    CredentialsDie "a.io".toList (journey ⟨false⟩ twoHostsGrant authorizedChain.1
      [redirectTo "http://b.io/", redirectTo "http://b.io/x"] authorizedChain.2) := by
  have hhosts : (journey ⟨false⟩ twoHostsGrant authorizedChain.1
      [redirectTo "http://b.io/", redirectTo "http://b.io/x"] authorizedChain.2).map Prod.fst =
        ["a.io".toList, "b.io".toList] := by decide +kernel
  have haway : StaysAway "a.io".toList ((journey ⟨false⟩ twoHostsGrant authorizedChain.1
      [redirectTo "http://b.io/", redirectTo "http://b.io/x"] authorizedChain.2).map Prod.fst) := by
    rw [hhosts]
    exact List.pairwise_pair.2 fun _ => by decide
  exact (credentials_die_iff authorized_opens _).2 (Or.inr haway)

/-- A chain that comes back to the first host brings the header with it. -/
theorem returning_chain_carries :
    ¬ CredentialsDie "a.io".toList (journey ⟨false⟩ twoHostsGrant authorizedChain.1
      [redirectTo "http://b.io/", redirectTo "http://a.io/", redirectTo "http://a.io/"]
      authorizedChain.2) := by
  have hjourney : journey ⟨false⟩ twoHostsGrant authorizedChain.1
      [redirectTo "http://b.io/", redirectTo "http://a.io/", redirectTo "http://a.io/"]
      authorizedChain.2 =
        [("a.io".toList, getOf "http://a.io/" authorizedGet.headers),
          ("b.io".toList, getOf "http://b.io/" []),
          ("a.io".toList, getOf "http://a.io/" authorizedGet.headers)] := rfl
  rw [hjourney]
  rintro ⟨hpairs, -⟩
  have hafter := List.pairwise_cons.1 (List.pairwise_cons.1 hpairs).2
  exact hafter.1 _ (List.mem_singleton.2 rfl) (by decide) bearer_carried

end Egress
end FunctionWasm

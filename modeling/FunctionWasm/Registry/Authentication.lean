import FunctionWasm.Foundation.Address
import FunctionWasm.Foundation.WebUrl
import FunctionWasm.Registry.Challenge
import FunctionWasm.Registry.Oci

/-!
# Authentication — with which requests the pull credential travels

A request to a registry is made with the credential, or with the token that it was exchanged for.
Where the registry answers with a challenge, the client asks the realm of the challenge for a token
and makes the request again.

* `AuthClient.dance` is one authenticated request, `AuthClient.perform` one call of the client.
* `Wire` is what has been sent, and how the registry and the network answer.
* `credentials_protected_iff` says when everything that carries the credential, or a token bought
  with it, is sent over https or no further than this machine.
-/

namespace FunctionWasm

/-! ## Requests and answers -/

structure Auth where
  username : Text
  password : Text
  deriving DecidableEq

inductive Authorization where
  | basic (auth : Auth)
  | bearer (token : Text)
  deriving DecidableEq

/-- A request as it is sent. -/
structure Outgoing where
  method : Text
  url : Text
  query : List (Text × Text)
  headers : List (Text × Text)
  body : Bytes
  authorization : Option Authorization
  deriving DecidableEq

/-- What a request is made for: a call to the registry, a challenge of its, an upload to where it
said, or a redirect that the HTTP library follows by itself. -/
inductive Purpose where
  | registry
  | token (challenge : Text)
  | upload (location digest : Text)
  | redirect
  deriving DecidableEq

/-- An answer; the two headers are there where they are text. -/
structure Answer where
  status : Nat
  statusText : Text
  wwwAuthenticate : Option Text
  location : Option Text
  body : Except Text Bytes

/-- The answers that requests get and the redirects that are followed on the way to them, what has
been sent, and the token that the client keeps. -/
structure Wire where
  answers : Nat → Except Text Answer
  follows : Nat → List Outgoing
  count : Nat
  log : List (Purpose × Outgoing)
  token : Option Text

namespace Wire

def fresh (answers : Nat → Except Text Answer) (follows : Nat → List Outgoing) : Wire where
  answers := answers
  follows := follows
  count := 0
  log := []
  token := none

def send (purpose : Purpose) (r : Outgoing) (w : Wire) : Except Text Answer × Wire :=
  (w.answers w.count,
    { w with
      count := w.count + 1
      log := w.log ++ (purpose, r) :: (w.follows w.count).map fun r => (.redirect, r) })

end Wire

/-! ## The client -/

/-- A client with its pull credential. -/
structure AuthClient extends RegistryClient where
  auth : Option Auth

class TokenLibrary where
  /-- The `token` and the `access_token` of a token endpoint's answer, empty where they are not
  there. -/
  tokenFromJson : Bytes → Except Text (Text × Text)

namespace AuthClient

def new (reference : OciReference) (auth : Option Auth) : AuthClient where
  toRegistryClient := RegistryClient.new reference
  auth := auth

def isSuccess (status : Nat) : Bool :=
  200 ≤ status ∧ status < 300

section Dance

variable [TokenLibrary]

/-- Answers a Bearer challenge: the realm is asked with the credential, if there is one. -/
def bearerToken (c : AuthClient) (challenge : Text) (w : Wire) :
    Except Text (Option Text) × Wire :=
  match tokenRequest c.repository challenge with
  | none => (.ok none, w)
  | some t =>
      let request : Outgoing :=
        { method := "GET".toList
          url := t.realm
          query := [("service".toList, t.service), ("scope".toList, t.scope)]
          headers := []
          body := []
          authorization := c.auth.map .basic }
      match w.send (.token challenge) request with
      | (.error e, w) => (.error ("cannot fetch registry token: ".toList ++ e), w)
      | (.ok a, w) =>
          if isSuccess a.status then
            match a.body.bind TokenLibrary.tokenFromJson with
            | .error e => (.error ("cannot parse registry token: ".toList ++ e), w)
            | .ok (token, accessToken) =>
                let token := if token = [] then accessToken else token
                (.ok (if token = [] then none else some token), w)
          else (.error ("cannot fetch registry token: ".toList ++ a.statusText), w)

/-- One try of a request, with the token if there is one, else with the credential. -/
def attempt (c : AuthClient) (purpose : Purpose) (r : Outgoing) (bearer : Option Text) (w : Wire) :
    Except Text Answer × Wire :=
  w.send purpose
    { r with
      authorization := match bearer with
        | some token => some (.bearer token)
        | none => c.auth.map .basic }

/-- One authenticated request: with what the client has first, then with what the registry's
challenge asks for. -/
def dance (c : AuthClient) (purpose : Purpose) (r : Outgoing) (w : Wire) :
    Except Text Answer × Wire :=
  let finish (a : Answer) : Except Text Answer :=
    if isSuccess a.status then .ok a else .error a.statusText
  match c.attempt purpose r w.token w with
  | (.error e, w) => (.error e, w)
  | (.ok a, w) =>
      if a.status = 401 then
        match c.bearerToken (a.wwwAuthenticate.getD []) w with
        | (.error e, w) => (.error e, w)
        | (.ok none, w) => (finish a, w)
        | (.ok (some token), w) =>
            match c.attempt purpose r (some token) { w with token := some token } with
            | (.error e, w) => (.error e, w)
            | (.ok a, w) => (finish a, w)
      else (finish a, w)

/-! ## Calls -/

def getRequest (url : Text) (accept : Option Text) : Outgoing where
  method := "GET".toList
  url := url
  query := []
  headers := accept.toList.map fun a => ("Accept".toList, a)
  body := []
  authorization := none

/-- A GET; a body over `limit` is refused. -/
def getAs (c : AuthClient) (url : Text) (accept : Option Text) (limit : Nat) (what : Text)
    (w : Wire) : Except Text Bytes × Wire :=
  match c.dance .registry (getRequest url accept) w with
  | (.error e, w) => (.error e, w)
  | (.ok a, w) =>
      match a.body with
      | .error e => (.error e, w)
      | .ok body =>
          if limit < body.length then
            (.error (what ++ " exceeds the size limit of ".toList ++ natText limit ++
              " bytes".toList), w)
          else (.ok body, w)

def writeRequest (method url : Text) (headers : List (Text × Text)) (data : Bytes) : Outgoing where
  method := method
  url := url
  query := []
  headers := headers
  body := data
  authorization := none

def uploadsUrl (c : AuthClient) : Text :=
  c.base ++ "/v2/".toList ++ c.repository ++ "/blobs/uploads/".toList

/-- Where a blob is put: what the registry says, a path of the registry where it is not absolute. -/
def uploadUrl (c : AuthClient) (location digest : Text) : Text :=
  let upload := if "http".toList.isPrefixOf location then location else c.base ++ location
  upload ++ [if '?' ∈ upload then '&' else '?'] ++ "digest=".toList ++ digest

/-- Uploads one blob: an upload is started, and the bytes are put where the registry says. -/
def pushBlob (c : AuthClient) (digest : Text) (data : Bytes) (w : Wire) : Except Text Unit × Wire :=
  match c.dance .registry (writeRequest "POST".toList c.uploadsUrl [] []) w with
  | (.error e, w) => (.error ("cannot start blob upload: ".toList ++ e), w)
  | (.ok a, w) =>
      match a.location with
      | none => (.error "registry answered the upload with no Location".toList, w)
      | some location =>
          let request := writeRequest "PUT".toList (c.uploadUrl location digest)
            [("Content-Type".toList, "application/octet-stream".toList)] data
          match c.dance (.upload location digest) request w with
          | (.error e, w) =>
              (.error ("cannot upload blob ".toList ++ digest ++ ": ".toList ++ e), w)
          | (.ok _, w) => (.ok (), w)

def pushManifest (c : AuthClient) (reference mediaType : Text) (data : Bytes) (w : Wire) :
    Except Text Unit × Wire :=
  let request := writeRequest "PUT".toList (c.manifestUrl reference)
    [("Content-Type".toList, mediaType)] data
  match c.dance .registry request w with
  | (.error e, w) =>
      (.error ("cannot push manifest ".toList ++ reference ++ ": ".toList ++ e), w)
  | (.ok _, w) => (.ok (), w)

/-- What is asked of a client. -/
inductive Call where
  | manifest (reference : Text) (accept : Option Text) (limit : Nat) (what : Text)
  | referrers (digest : Text) (accept : Option Text) (limit : Nat) (what : Text)
  | blob (digest : Text) (limit : Nat) (what : Text)
  | pushBlob (digest : Text) (data : Bytes)
  | pushManifest (reference mediaType : Text) (data : Bytes)

/-- The URL of the registry that a call goes to. -/
def callUrl (c : AuthClient) : Call → Text
  | .manifest reference _ _ _ => c.manifestUrl reference
  | .referrers digest _ _ _ => c.referrersUrl digest
  | .blob digest _ _ => c.blobUrl digest
  | .pushBlob _ _ => c.uploadsUrl
  | .pushManifest reference _ _ => c.manifestUrl reference

/-- What a call leaves behind. -/
def perform (c : AuthClient) (call : Call) (w : Wire) : Wire :=
  match call with
  | .manifest reference accept limit what =>
      (c.getAs (c.manifestUrl reference) accept limit what w).2
  | .referrers digest accept limit what =>
      (c.getAs (c.referrersUrl digest) accept limit what w).2
  | .blob digest limit what => (c.getAs (c.blobUrl digest) none limit what w).2
  | .pushBlob digest data => (c.pushBlob digest data w).2
  | .pushManifest reference mediaType data => (c.pushManifest reference mediaType data w).2

def run (c : AuthClient) (calls : List Call) (w : Wire) : Wire :=
  calls.foldl (fun w call => c.perform call w) w

/-- What a GET reads is what an answer to one request of a session would be, the answer being what
the dance comes to. -/
theorem getAs_fst (c : AuthClient) (url : Text) (accept : Option Text) (limit : Nat) (what : Text)
    (w : Wire) :
    (c.getAs url accept limit what w).1 =
      (RegistryClient.getAs url accept limit what
        ⟨fun _ => (c.dance .registry (getRequest url accept) w).1.bind Answer.body, []⟩).1 := by
  unfold getAs
  rcases c.dance .registry (getRequest url accept) w with ⟨_ | a, w'⟩
  · rfl
  · cases hbody : a.body with
    | error e => simp [hbody, RegistryClient.getAs, Session.ask, Except.bind]
    | ok body =>
        simp only [hbody, RegistryClient.getAs, Session.ask, Except.bind]
        split <;> rfl

end Dance

/-! ## Where requests go -/

section Traces

variable {c : AuthClient} {purpose : Purpose} {r : Outgoing}

/-- What a request of a client is for says where it goes and that it carries what the client
has. -/
def Traced (c : AuthClient) : Purpose × Outgoing → Prop
  | (.registry, r) =>
      (∃ tail, r.url = c.base ++ '/' :: tail) ∧ (c.auth.isSome → r.authorization.isSome)
  | (.token challenge, r) =>
      (∃ t, tokenRequest c.repository challenge = some t ∧ r.url = t.realm) ∧
        (c.auth.isSome → r.authorization.isSome)
  | (.upload location digest, r) =>
      r.url = c.uploadUrl location digest ∧ (c.auth.isSome → r.authorization.isSome)
  | (.redirect, _) => True

/-- What has been sent stays sent, and all that is sent after it is traced. -/
def Extends (c : AuthClient) (w w' : Wire) : Prop :=
  ∃ sent, w'.log = w.log ++ sent ∧ ∀ e ∈ sent, c.Traced e

theorem Extends.refl (c : AuthClient) (w : Wire) : c.Extends w w :=
  ⟨[], by simp, by simp⟩

theorem Extends.trans {w w' w'' : Wire} (h : c.Extends w w')
    (h' : c.Extends w' w'') : c.Extends w w'' := by
  rcases h with ⟨sent, hlog, htraced⟩
  rcases h' with ⟨sent', hlog', htraced'⟩
  refine ⟨sent ++ sent', by rw [hlog', hlog, List.append_assoc], ?_⟩
  intro e he
  rcases List.mem_append.1 he with he | he
  · exact htraced e he
  · exact htraced' e he

theorem Extends.mem {w w' : Wire} (h : c.Extends w w') {e : Purpose × Outgoing}
    (he : e ∈ w.log) : e ∈ w'.log := by
  rcases h with ⟨sent, hlog, -⟩
  rw [hlog]
  exact List.mem_append_left _ he

theorem send_extends (w : Wire)
    (h : c.Traced (purpose, r)) : c.Extends w (w.send purpose r).2 := by
  refine ⟨(purpose, r) :: (w.follows w.count).map fun r => (.redirect, r), rfl, ?_⟩
  intro e he
  rcases List.mem_cons.1 he with rfl | he
  · exact h
  · rcases List.mem_map.1 he with ⟨_, -, rfl⟩
    trivial

/-- A request of this purpose is traced whatever it carries of what the client has. -/
def Aims (c : AuthClient) (purpose : Purpose) (r : Outgoing) : Prop :=
  ∀ authorization, (c.auth.isSome → authorization.isSome) →
    c.Traced (purpose, { r with authorization := authorization })

theorem attempt_extends (h : c.Aims purpose r) (bearer : Option Text) (w : Wire) :
    c.Extends w (c.attempt purpose r bearer w).2 :=
  send_extends w (h _ (by cases bearer <;> simp))

theorem attempt_sends (c : AuthClient) (purpose : Purpose) (r : Outgoing) (bearer : Option Text) (w : Wire) :
    ∃ r', (purpose, r') ∈ (c.attempt purpose r bearer w).2.log :=
  ⟨_, List.mem_append_right _ List.mem_cons_self⟩

variable [TokenLibrary]

theorem bearerToken_extends (c : AuthClient) (challenge : Text) (w : Wire) :
    c.Extends w (c.bearerToken challenge w).2 := by
  unfold bearerToken
  cases hread : tokenRequest c.repository challenge with
  | none => exact .refl c w
  | some t =>
      dsimp only
      have htraced : c.Traced (.token challenge,
          { method := "GET".toList
            url := t.realm
            query := [("service".toList, t.service), ("scope".toList, t.scope)]
            headers := []
            body := []
            authorization := c.auth.map .basic }) := ⟨⟨t, hread, rfl⟩, by simp⟩
      have hsend := send_extends w htraced
      generalize w.send (.token challenge) _ = answered at hsend ⊢
      rcases answered with ⟨_ | a, w'⟩
      · exact hsend
      · dsimp only
        split
        · split <;> exact hsend
        · exact hsend

/-- One authenticated request sends at least what it is asked to send, and besides only what a
challenge asks for. -/
theorem dance_extends (h : c.Aims purpose r) (w : Wire) :
    c.Extends w (c.dance purpose r w).2 ∧ ∃ r', (purpose, r') ∈ (c.dance purpose r w).2.log := by
  have hfirst := attempt_extends h w.token w
  rcases attempt_sends c purpose r w.token w with ⟨r', hsent⟩
  suffices hlater : c.Extends (c.attempt purpose r w.token w).2 (c.dance purpose r w).2 from
    ⟨hfirst.trans hlater, r', hlater.mem hsent⟩
  unfold dance
  rcases c.attempt purpose r w.token w with ⟨_ | a, w₁⟩
  · exact .refl c w₁
  · dsimp only
    split
    · have htoken := bearerToken_extends c (a.wwwAuthenticate.getD []) w₁
      generalize c.bearerToken (a.wwwAuthenticate.getD []) w₁ = answered at htoken ⊢
      rcases answered with ⟨_ | _ | token, w₂⟩
      · exact htoken
      · exact htoken
      · -- the token is kept, which sends nothing
        have hkept : c.Extends w₁ { w₂ with token := some token } := htoken
        have hagain := attempt_extends h (some token) { w₂ with token := some token }
        dsimp only
        generalize c.attempt purpose r (some token) { w₂ with token := some token } = retried
          at hagain ⊢
        rcases retried with ⟨_ | a', w₃⟩ <;> exact hkept.trans hagain
    · exact .refl c w₁

theorem getAs_snd (c : AuthClient) (url : Text) (accept : Option Text) (limit : Nat) (what : Text)
    (w : Wire) :
    (c.getAs url accept limit what w).2 = (c.dance .registry (getRequest url accept) w).2 := by
  unfold getAs
  rcases c.dance .registry (getRequest url accept) w with ⟨_ | a, w'⟩
  · rfl
  · dsimp only
    cases a.body with
    | error e => rfl
    | ok body =>
        dsimp only
        split <;> rfl

omit [TokenLibrary] in
theorem callUrl_eq (c : AuthClient) (call : Call) : ∃ tail, c.callUrl call = c.base ++ '/' :: tail := by
  cases call <;>
    simp [callUrl, RegistryClient.manifestUrl, RegistryClient.referrersUrl, RegistryClient.blobUrl,
      uploadsUrl]

theorem pushBlob_extends (c : AuthClient) (digest : Text) (data : Bytes) (w : Wire) :
    c.Extends w (c.pushBlob digest data w).2 ∧
      ∃ r', (Purpose.registry, r') ∈ (c.pushBlob digest data w).2.log := by
  have haims : c.Aims .registry (writeRequest "POST".toList c.uploadsUrl [] []) :=
    fun _ h => ⟨callUrl_eq c (.pushBlob digest data), h⟩
  have hstart := dance_extends haims w
  unfold pushBlob
  generalize c.dance .registry (writeRequest "POST".toList c.uploadsUrl [] []) w = answered
    at hstart ⊢
  rcases answered with ⟨_ | a, w₁⟩
  · exact hstart
  · dsimp only
    split
    · exact hstart
    · next location _ =>
        have haims' : c.Aims (.upload location digest)
            (writeRequest "PUT".toList (c.uploadUrl location digest)
              [("Content-Type".toList, "application/octet-stream".toList)] data) :=
          fun _ h => ⟨rfl, h⟩
        have hput := dance_extends haims' w₁
        rcases hstart with ⟨hlog, r', hsent⟩
        generalize c.dance (.upload location digest) _ w₁ = uploaded at hput ⊢
        rcases uploaded with ⟨_ | a', w₂⟩ <;>
          exact ⟨hlog.trans hput.1, r', hput.1.mem hsent⟩

/-- A call sends at least its request to the registry. -/
theorem perform_extends (c : AuthClient) (call : Call) (w : Wire) :
    c.Extends w (c.perform call w) ∧ ∃ r', (Purpose.registry, r') ∈ (c.perform call w).log := by
  have hget : ∀ accept, c.Aims .registry (getRequest (c.callUrl call) accept) :=
    fun _ _ h => ⟨callUrl_eq c call, h⟩
  cases call with
  | manifest reference accept limit what =>
      rw [perform, getAs_snd]
      exact dance_extends (hget accept) w
  | referrers digest accept limit what =>
      rw [perform, getAs_snd]
      exact dance_extends (hget accept) w
  | blob digest limit what =>
      rw [perform, getAs_snd]
      exact dance_extends (hget none) w
  | pushBlob digest data => exact pushBlob_extends c digest data w
  | pushManifest reference mediaType data =>
      have haims : c.Aims .registry (writeRequest "PUT".toList (c.manifestUrl reference)
          [("Content-Type".toList, mediaType)] data) :=
        fun _ h => ⟨callUrl_eq c (.pushManifest reference mediaType data), h⟩
      have hput := dance_extends haims w
      rw [perform]
      unfold pushManifest
      dsimp only
      generalize c.dance .registry _ w = answered at hput ⊢
      rcases answered with ⟨_ | a, w'⟩ <;> exact hput

theorem run_extends (c : AuthClient) (calls : List Call) (w : Wire) :
    c.Extends w (c.run calls w) := by
  induction calls generalizing w with
  | nil => exact .refl c w
  | cons call calls ih => exact (perform_extends c call w).1.trans (ih _)

/-- Every request of a run is traced. -/
theorem run_traced (c : AuthClient) (calls : List Call) (answers : Nat → Except Text Answer)
    (follows : Nat → List Outgoing) {e : Purpose × Outgoing}
    (h : e ∈ (c.run calls (.fresh answers follows)).log) : c.Traced e := by
  rcases run_extends c calls (.fresh answers follows) with ⟨sent, hlog, htraced⟩
  rw [hlog] at h
  exact htraced e (by simpa [Wire.fresh] using h)

theorem run_sends (c : AuthClient) {calls : List Call} (h : calls ≠ []) (w : Wire) :
    ∃ r', (Purpose.registry, r') ∈ (c.run calls w).log := by
  rcases List.exists_cons_of_ne_nil h with ⟨call, rest, rfl⟩
  rcases (perform_extends c call w).2 with ⟨r', hsent⟩
  exact ⟨r', (run_extends c rest (c.perform call w)).mem hsent⟩

end Traces

/-! ## In clear -/

section Clear

open Web RegistryClient

variable [WebHosts]

/-- This machine's name, or an address of its own. -/
def isLoopbackHost (host : Text) : Bool :=
  let address :=
    match host with
    | '[' :: rest => rest.dropLast
    | host => host
  host = "localhost".toList ||
    match parseIp address with
    | some (.v4 bits) => bits.extractLsb' 24 8 = 127#8
    | some (.v6 bits) => bits = 1#128
    | none => false

/-- What is sent to a URL is not read on the way.  To a URL that is none nothing is sent. -/
def Protected (url : Text) : Prop :=
  ∀ u, parseWeb url = some u → u.scheme = "https".toList ∨ isLoopbackHost u.host = true

/-- A registry that is spoken to in clear is this machine. -/
def LocalOnly (registry : Text) : Prop :=
  startsWithAny ["localhost", "127.0.0.1", "[::1]"] registry = true →
    ∀ u, parseWeb ("http://".toList ++ registry ++ "/".toList) = some u →
      isLoopbackHost u.host = true

/-- Where the registry sends a client with its credential is protected. -/
def Directed (c : AuthClient) : Purpose × Outgoing → Prop
  | (.registry, _) => True
  | (.token challenge, _) =>
      ∀ t, tokenRequest c.repository challenge = some t → Protected t.realm
  | (.upload location digest, _) => Protected (c.uploadUrl location digest)
  | (.redirect, r) => r.authorization.isSome → Protected r.url

theorem protected_https (rest : Text) : Protected ("https://".toList ++ rest) := by
  intro u hu
  have hscheme := @parseWeb_scheme _ "https".toList ('/' :: '/' :: rest) (.inr rfl)
  have hsame : "https://".toList ++ rest = "https".toList ++ ':' :: '/' :: '/' :: rest := rfl
  rw [hsame, hscheme] at hu
  simp only [parseAuthority, Option.bind_eq_bind, Option.bind_eq_some_iff, Option.pure_def,
    Option.some.injEq] at hu
  rcases hu with ⟨_, -, _, -, rfl⟩
  exact .inl rfl

omit [WebHosts] in
/-- The hosts that a registry is spoken to in clear for. -/
theorem head_local {registry : Text}
    (h : startsWithAny ["localhost", "127.0.0.1", "[::1]"] registry = true) :
    ∃ c rest, registry = c :: rest ∧ isSlash c = false ∧ isTabOrNewline c = false := by
  have hfront : ∀ front : Text, front.isPrefixOf registry = true →
      registry = front ++ registry.drop front.length := by
    intro front hfront
    exact List.prefix_iff_eq_append.1 (List.isPrefixOf_iff_prefix.1 hfront) |>.symm
  simp only [startsWithAny, List.any_cons, List.any_nil, Bool.or_false, Bool.or_eq_true] at h
  rcases h with h | h | h <;> rw [hfront _ h]
  · exact ⟨'l', _, rfl, by decide, by decide⟩
  · exact ⟨'1', _, rfl, by decide, by decide⟩
  · exact ⟨'[', _, rfl, by decide, by decide⟩

/-- What follows the registry in a URL does not decide. -/
theorem protected_local {registry : Text}
    (hclear : startsWithAny ["localhost", "127.0.0.1", "[::1]"] registry = true) (tail : Text) :
    Protected ("http://".toList ++ registry ++ '/' :: tail) ↔ LocalOnly registry := by
  rcases head_local hclear with ⟨c, rest, rfl, hslash, htab⟩
  rcases parseWeb_path (.inl rfl) hslash htab rest with ⟨authority, hpath⟩
  rcases hpath tail with ⟨path, htail⟩
  rcases hpath [] with ⟨root, hroot⟩
  constructor
  · intro h _ u hu
    have hu' : parseAuthority "http".toList authority root = some u := hroot.symm.trans hu
    have hread := parseAuthority_tail hu' path
    rcases h _ (htail.trans hread) with hscheme | hhost
    · -- it was read with the scheme it has
      have hhttp : u.scheme = "http".toList := by
        simp only [parseAuthority, Option.bind_eq_bind, Option.bind_eq_some_iff, Option.pure_def,
          Option.some.injEq] at hu'
        rcases hu' with ⟨_, -, _, -, rfl⟩
        rfl
      exact absurd (hhttp.symm.trans hscheme) (by decide)
    · exact hhost
  · intro h u hu
    have hu' : parseAuthority "http".toList authority path = some u := htail.symm.trans hu
    have hread := parseAuthority_tail hu' root
    have hlocal := h hclear _ (hroot.trans hread)
    exact .inr hlocal

theorem protected_base (reference : OciReference) (auth : Option Auth) (tail : Text) :
    Protected ((AuthClient.new reference auth).base ++ '/' :: tail) ↔
      LocalOnly reference.registry := by
  by_cases hhub : reference.registry = "index.docker.io".toList
  · have hbase : (AuthClient.new reference auth).base =
        "https://".toList ++ "registry-1.docker.io".toList := by
      simp only [AuthClient.new, RegistryClient.new, if_pos hhub]
      rfl
    rw [hbase, List.append_assoc]
    refine iff_of_true (protected_https _) ?_
    intro hclear
    rw [hhub] at hclear
    exact absurd hclear (by decide)
  · cases hclear : startsWithAny ["localhost", "127.0.0.1", "[::1]"] reference.registry with
    | true =>
        have hbase : (AuthClient.new reference auth).base =
            "http://".toList ++ reference.registry := by
          simp only [AuthClient.new, RegistryClient.new, if_neg hhub, hclear, if_true]
          rfl
        rw [hbase]
        exact protected_local hclear tail
    | false =>
        have hbase : (AuthClient.new reference auth).base =
            "https://".toList ++ reference.registry := by
          simp only [AuthClient.new, RegistryClient.new, if_neg hhub, hclear, Bool.false_eq_true,
            if_false]
          rfl
        rw [hbase, List.append_assoc]
        refine iff_of_true (protected_https _) ?_
        intro hclear'
        exact absurd (hclear.symm.trans hclear') (by decide)

variable [TokenLibrary]

/-- The credential and what is bought with it travel in clear beyond this machine exactly when a
registry that is spoken to in clear is another machine, or the registry sends the client to a URL in
clear that is another machine's. -/
theorem credentials_protected_iff (reference : OciReference) (auth : Auth)
    (answers : Nat → Except Text Answer) (follows : Nat → List Outgoing) (calls : List Call) :
    (∀ e ∈ ((new reference (some auth)).run calls (.fresh answers follows)).log,
        e.2.authorization.isSome → Protected e.2.url) ↔
      (calls ≠ [] → LocalOnly reference.registry) ∧
        ∀ e ∈ ((new reference (some auth)).run calls (.fresh answers follows)).log,
          (new reference (some auth)).Directed e := by
  have htraced : ∀ e ∈ ((new reference (some auth)).run calls (.fresh answers follows)).log,
      (new reference (some auth)).Traced e := fun e he => run_traced _ calls answers follows he
  have hauth : (new reference (some auth)).auth.isSome = true := rfl
  constructor
  · intro h
    refine ⟨fun hne => ?_, fun e he => ?_⟩
    · -- the first call sends the credential to the registry's base URL
      rcases run_sends (new reference (some auth)) hne (.fresh answers follows) with ⟨r, hr⟩
      rcases htraced _ hr with ⟨⟨tail, hurl⟩, hcarries⟩
      have hprotected := h _ hr (hcarries hauth)
      rw [hurl] at hprotected
      exact (protected_base reference (some auth) tail).1 hprotected
    · have hfollowed := h e he
      have hsent := htraced e he
      -- by where a request came from: a call, a challenge, a location, a redirect
      rcases e with ⟨_ | challenge | ⟨location, digest⟩ | _, r⟩
      · trivial
      · rcases hsent with ⟨⟨t, hread, hurl⟩, hcarries⟩
        intro t' hread'
        rw [hread, Option.some.injEq] at hread'
        subst hread'
        have hprotected := hfollowed (hcarries hauth)
        rwa [hurl] at hprotected
      · have hprotected := hfollowed (hsent.2 hauth)
        rwa [hsent.1] at hprotected
      · exact hfollowed
  · rintro ⟨hlocal, hdirected⟩ e he hcarries
    have hsent := htraced e he
    have hwhere := hdirected e he
    rcases e with ⟨_ | challenge | ⟨location, digest⟩ | _, r⟩
    · rcases hsent with ⟨⟨tail, hurl⟩, -⟩
      have hne : calls ≠ [] := by
        rintro rfl
        simp [run, Wire.fresh] at he
      rw [hurl]
      exact (protected_base reference (some auth) tail).2 (hlocal hne)
    · rcases hsent with ⟨⟨t, hread, hurl⟩, -⟩
      rw [hurl]
      exact hwhere t hread
    · rw [hsent.1]
      exact hwhere
    · exact hwhere hcarries

end Clear

/-! ## A registry that is named like this machine -/

section Sample

@[reducible] def noTokens : TokenLibrary where
  tokenFromJson _ := .error "not JSON".toList

attribute [local instance] asciiTables asciiHosts noTokens

def namedLocal : OciReference where
  registry := "localhost.evil.com".toList
  repository := "m".toList
  digest := "sha256:".toList ++ List.replicate 64 '0'

/-- The reference of a foreign registry is read, and the first request for its manifest carries the
credential in clear. -/
theorem credential_in_clear :
    parseOciReference ("localhost.evil.com/m@sha256:".toList ++ List.replicate 64 '0') =
        .ok namedLocal ∧
      ∃ e ∈ ((new namedLocal (some ⟨"u".toList, "p".toList⟩)).run
          [.manifest namedLocal.digest none 100 "manifest".toList]
          (.fresh (fun _ => .error "refused".toList) fun _ => [])).log,
        e.2.authorization = some (.basic ⟨"u".toList, "p".toList⟩) ∧ ¬ Protected e.2.url := by
  refine ⟨by decide +kernel, _, List.mem_singleton.2 rfl, rfl, ?_⟩
  intro h
  have hread : Web.parseWeb ((new namedLocal none).manifestUrl namedLocal.digest) =
      some { scheme := "http".toList, host := "localhost.evil.com".toList, port := none
             path := "/v2/m/manifests/sha256:".toList ++ List.replicate 64 '0' } := by
    decide +kernel
  exact absurd (h _ hread) (by decide +kernel)

end Sample

end AuthClient
end FunctionWasm

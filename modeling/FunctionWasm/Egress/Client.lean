import FunctionWasm.Egress.Rules
import FunctionWasm.Registry.Oci

/-!
# Client — the requests of one run

A run's client counts a request, parses and checks it, and then makes round trips: each trip checks
a literal address, sends, and follows a redirect once the grant has admitted where it leads.

* `roundTrip` is one pass of the loop of `round_trips`, against what the network answers.
* `resolve` is the resolver that the HTTP library dials through; `Dials` is what the library is
  relied on for: it dials literals as they are and otherwise what `resolve` returned.
* `openRequest` is the part of `perform` before the loop.
-/

namespace FunctionWasm
namespace Egress

open HttpLibrary

variable [HttpLibrary]

/-! ## Requests and responses -/

abbrev Headers := List (Text × List Text)

structure Request where
  method : Text
  url : Text
  headers : Headers
  body : Bytes

structure Response where
  status : Nat
  headers : Headers
  body : Bytes
  error : Text

def Response.refusal (error : Text) : Response where
  status := 0
  headers := []
  body := []
  error := error

inductive Outcome where
  | ok
  | refused
  | budget
  | error
  deriving DecidableEq, Repr

/-- What the guest is told, and what only the operator sees. -/
structure Refusal where
  msg : Text
  detail : Text
  outcome : Outcome

namespace Refusal

def refused (msg detail : Text) : Refusal := ⟨msg, detail, .refused⟩

def budget (msg : Text) : Refusal := ⟨msg, [], .budget⟩

def error (msg : Text) : Refusal := ⟨msg, [], .error⟩

end Refusal

def methodOf (req : Request) : Text :=
  if req.method = [] then "GET".toList else uppercase req.method

def asciiLower (t : Text) : Text := t.map Char.toLower

def isReservedHeader (k : Text) : Bool :=
  asciiLower k ∈ ["host", "content-length", "connection", "transfer-encoding", "upgrade",
    "keep-alive", "proxy-connection", "te", "trailer"].map String.toList

def isSensitiveHeader (k : Text) : Bool :=
  asciiLower k ∈ ["authorization", "cookie", "www-authenticate", "cookie2"].map String.toList

/-! ## Addresses -/

/-- The host of a URL without the brackets of an IPv6 literal. -/
def bareHost (hostname : Text) : Text :=
  trimEnd (· = ']') (trimStart (· = '[') hostname)

def showPrefix (p : IpPrefix) : Text :=
  showIp p.addr ++ "/".toList ++ natText p.len

def blocksMessage (host : Text) : Text :=
  "sandbox.egress: ".toList ++ host ++
    " resolves to an address the egress policy blocks".toList

/-- The judgement of a host that is an address. -/
def judgeLiteral (b : Build) (e : Ceiling) (url : Url) : Checked (Option Refusal) :=
  match parseIp (bareHost url.hostname) with
  | none => .ok none
  | some ip => do
      let refusal (detail : Text) := Refusal.refused (blocksMessage url.hostname) detail
      match ← e.judge b ip with
      | none => return none
      | some .unspecified =>
          return some (refusal (url.hostname ++ " is the unspecified address ".toList ++
            showIp ip.unmap))
      | some (.blockedBy p) =>
          return some (refusal (url.hostname ++ " is ".toList ++ showIp ip.unmap ++
            ", blocked by ".toList ++ showPrefix p))

structure SocketAddr where
  ip : IpAddr
  port : Nat
  deriving DecidableEq, Repr

/-- The frame that a refusal of the resolver travels in through the library's errors. -/
def refusalFrame : Text := "\x01refusal\x01".toList

def frameRefusal (msg detail : Text) : Text :=
  refusalFrame ++ msg ++ refusalFrame ++ detail

/-- Every address is judged: one that may not be dialled refuses the name. -/
def judgeAll (b : Build) (e : Ceiling) (host : Text) : List SocketAddr → Checked (Except Text Unit)
  | [] => .ok (.ok ())
  | a :: rest => do
      match ← e.judge b a.ip with
      | none => judgeAll b e host rest
      | some .unspecified =>
          return .error (frameRefusal (blocksMessage host)
            (host ++ " resolves to the unspecified address ".toList ++ showIp a.ip.unmap))
      | some (.blockedBy p) =>
          return .error (frameRefusal (blocksMessage host)
            (host ++ " resolves to ".toList ++ showIp a.ip.unmap ++ ", blocked by ".toList ++
              showPrefix p))

/-- `JudgedResolver::resolve`, on what the system's resolver answers. -/
def resolve (b : Build) (e : Ceiling) (host : Text) (found : Except Text (List SocketAddr)) :
    Checked (Except Text (List SocketAddr)) :=
  match found with
  | .error err => .ok (.error err)
  | .ok [] => .ok (.error ("no addresses for ".toList ++ host))
  | .ok addrs => do
      match ← judgeAll b e host addrs with
      | .error err => return .error err
      | .ok () => return .ok (addrs.map fun a => { a with ip := a.ip.unmap })

/-! ## One round trip -/

/-- An error of the HTTP library: its text and those of its sources, outermost first. -/
structure TransportError where
  isTimeout : Bool
  text : Text
  sources : List Text

/-- A response as it is read: `location` is the header where it is text, the body what reading it
within the limit answers. -/
structure ServerResponse where
  status : Nat
  location : Option Text
  headers : Headers
  body : Except Text Bytes

/-- What one trip meets: whether time is left, the names looked up and what the system's resolver
found, the addresses dialled, and what came back. -/
structure Network where
  timeLeft : Bool
  lookups : List (Text × Except Text (List SocketAddr))
  dialled : List IpAddr
  answer : Except TransportError ServerResponse

/-- A request as it is handed to the HTTP library. -/
structure SentRequest where
  method : Text
  url : Text
  headers : Headers
  body : Option Bytes

/-- What the HTTP library is relied on for: the host of a URL that is an IP literal is dialled as it
is, and otherwise only addresses that the judged resolver returned are. -/
def Dials (b : Build) (e : Ceiling) (url : Text) (net : Network) : Prop :=
  ∀ ip ∈ net.dialled, ∃ u, parseUrl url = .ok u ∧
    match literal u with
    | some address => ip = address
    | none => ∃ lookup ∈ net.lookups, ∃ vetted,
        resolve b e lookup.1 lookup.2 = .ok (.ok vetted) ∧ ip ∈ vetted.map SocketAddr.ip

/-- The refusal framed in an error's text. -/
def unframe (text : Text) : Option Refusal :=
  match splitOnceText refusalFrame text with
  | none => none
  | some (_, rest) =>
      (splitOnceText refusalFrame rest).map fun p => Refusal.refused p.1 p.2

def classify (e : TransportError) (limit : Text) : Refusal :=
  if e.isTimeout then
    .budget ("sandbox.egress: the request exceeded ".toList ++ limit)
  else
    match (e.text :: e.sources).findSome? unframe with
    | some refusal => refusal
    | none =>
        match e.sources with
        | [] => .error ("sandbox.egress: ".toList ++ e.text)
        | inner :: _ => .error ("sandbox.egress: ".toList ++ e.text ++ ": ".toList ++ inner)

def redirectLocation (rsp : ServerResponse) : Option Text :=
  if rsp.status ∈ [301, 302, 303, 307, 308] then rsp.location else none

/-- The part of a chain of round trips that changes from trip to trip. -/
structure Trip where
  method : Text
  url : Url
  body : Option Bytes
  hops : Nat

/-- The part that does not. -/
structure Chain where
  originHost : Text
  headers : Headers
  limit : Text

/-- The headers of one trip: reserved ones are the host's to set, and sensitive ones survive a
redirect to the same host only. -/
def sentHeaders (c : Chain) (t : Trip) : Headers :=
  c.headers.filter fun h =>
    ¬ (isReservedHeader h.1 ∨
      (0 < t.hops ∧ isSensitiveHeader h.1 ∧
        asciiLower t.url.hostname ≠ asciiLower c.originHost))

inductive TripResult where
  | again (t : Trip)
  | finished (result : Except Refusal (Response × Url))
  | panicked (fault : Fault)

/-- A redirect: the hop is counted, the method rewritten, and the target put to the grant. -/
def follow (g : Grant) (t : Trip) (status : Nat) (location : Text) : TripResult :=
  let hops := t.hops + 1
  if g.egress.budget.maxRedirects < hops then
    .finished (.error (.budget ("sandbox.egress: stopped after ".toList ++
      natText g.egress.budget.maxRedirects ++ " redirects (maxRedirects)".toList)))
  else
    match t.url.join location with
    | .error e => .finished (.error (.error ("sandbox.egress: cannot parse URL: ".toList ++ e)))
    | .ok next =>
        -- 301, 302 and 303 turn a method with a body into GET
        let rewrites := 301 ≤ status ∧ status ≤ 303 ∧ t.method ≠ "GET".toList ∧
          t.method ≠ "HEAD".toList
        let method := if rewrites then "GET".toList else t.method
        match g.admits method next with
        | .error e =>
            .finished (.error (.refused ("redirect to ".toList ++ next.raw ++ " refused: ".toList ++
              e) []))
        | .ok () =>
            .again
              { method := method
                url := next
                body := if rewrites then none else t.body
                hops := hops }

/-- The end of a chain: the body, within its budget. -/
def readResponse (g : Grant) (t : Trip) (rsp : ServerResponse) : TripResult :=
  match rsp.body with
  | .error e => .finished (.error (.error ("sandbox.egress: ".toList ++ e)))
  | .ok body =>
      let max := g.egress.budget.maxResponseBytes
      if max < body.length then
        .finished (.error (.budget ("sandbox.egress: the response body exceeds ".toList ++
          natText max ++ " bytes (maxResponseBytes)".toList)))
      else
        .finished (.ok
          ({ status := rsp.status
             headers := rsp.headers
             body := body
             error := [] }, t.url))

/-- One pass of the loop, with the request it hands to the HTTP library, if any. -/
def roundTrip (b : Build) (g : Grant) (c : Chain) (t : Trip) (net : Network) :
    TripResult × Option SentRequest :=
  match judgeLiteral b g.egress t.url with
  | .error fault => (.panicked fault, none)
  | .ok (some refusal) => (.finished (.error refusal), none)
  | .ok none =>
      if ¬ net.timeLeft then
        (.finished (.error (.budget ("sandbox.egress: the request exceeded ".toList ++ c.limit))),
          none)
      else
        match methodFromBytes t.method with
        | .error e =>
            (.finished (.error (.error ("sandbox.egress: cannot build request: ".toList ++ e))), none)
        | .ok () =>
            let sent : SentRequest :=
              { method := t.method
                url := t.url.raw
                headers := sentHeaders c t
                body := t.body }
            match net.answer with
            | .error e => (.finished (.error (classify e c.limit)), some sent)
            | .ok rsp =>
                match redirectLocation rsp with
                | some location => (follow g t rsp.status location, some sent)
                | none => (readResponse g t rsp, some sent)

/-! ## One request of the guest -/

/-- What a request of the guest is answered: the response, with what the audit line says of it. -/
structure Performed where
  response : Response
  outcome : Outcome
  url : Option Url
  detail : Text

/-- `perform` up to the loop, for a request that `made` others came before.  `rateAllows` is what the
rate limiters answer, `remaining` whether the run's deadline is nearer than the timeout. -/
def openRequest (g : Grant) (made : Nat) (req : Request) (rateAllows remaining : Bool) :
    Performed ⊕ Chain × Trip :=
  let budget := g.egress.budget
  let refuse (outcome : Outcome) (url : Option Url) (msg : Text) : Performed ⊕ Chain × Trip :=
    .inl
      { response := .refusal msg
        outcome := outcome
        url := url
        detail := [] }
  if budget.maxRequests < made + 1 then
    refuse .budget none ("sandbox.egress: this run already made ".toList ++
      natText budget.maxRequests ++ " requests (maxRequests)".toList)
  else if g.egress.rateLimited ∧ ¬ rateAllows then
    refuse .budget none ("sandbox.egress: the module's request rate exceeds the egress policy's " ++
      "rateLimit").toList
  else
    match Url.parse req.url with
    | .error e => refuse .error none ("sandbox.egress: cannot parse URL: ".toList ++ e)
    | .ok url =>
        let method := methodOf req
        match g.admits method url with
        | .error e => refuse .refused (some url) e
        | .ok () =>
            let limit :=
              if remaining then "the run's remaining deadline".toList
              else "its ".toList ++ budget.timeout ++ " timeout".toList
            .inr
              ({ originHost := url.hostname
                 headers := req.headers
                 limit := limit },
                { method := method
                  url := url
                  body := some req.body
                  hops := 0 })

/-- The answer of a request whose first URL was `url`, from the end of its chain. -/
def closeRequest (url : Url) : Except Refusal (Response × Url) → Performed
  | .ok (rsp, final) =>
      { response := rsp
        outcome := .ok
        url := some final
        detail := [] }
  | .error e =>
      { response := .refusal e.msg
        outcome := e.outcome
        url := some url
        detail := e.detail }

end Egress
end FunctionWasm

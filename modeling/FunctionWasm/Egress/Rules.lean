import FunctionWasm.Foundation.Address
import FunctionWasm.Foundation.Machine
import FunctionWasm.Source.Location

/-!
# Rules — what a module's requests are held against

The ceiling of a runtime says which addresses are never dialled, whatever a module is granted; a
grant says which hosts, methods and paths a module may ask for.

* `IpPrefix.contains` is the test of an address against a prefix, in any build.
* `Egress.judge` is the judgement of one address, `Egress.blockedBy` its list part.
* `Grant.admits` admits one request, the first or a redirect hop.

What is used of the URL parser and of Unicode is `HttpLibrary`.
-/

namespace FunctionWasm
namespace Egress

/-! ## Prefixes -/

/-- A network: its address and the length of its prefix, a `u8`. -/
structure IpPrefix where
  addr : IpAddr
  len : Nat
  deriving DecidableEq, Repr

/-- `MAX << (width - len)` in a word of `width` bits, `0` for the length `0`.  A longer prefix than
the word underflows the subtraction: without overflow checks it wraps, and the shift takes its
amount modulo `width`. -/
def maskOf (b : Build) (width len : Nat) : Checked (BitVec width) :=
  if len = 0 then .ok 0
  else if len ≤ width then .ok (BitVec.allOnes width <<< (width - len))
  else if b.overflowChecks then .error .overflow
  else .ok (BitVec.allOnes width <<< ((2 ^ 32 + width - len) % width))

namespace IpPrefix

def masked (b : Build) (p : IpPrefix) : Checked IpPrefix :=
  match p.addr with
  | .v4 bits => do return { p with addr := .v4 (bits &&& (← maskOf b 32 p.len)) }
  | .v6 bits => do return { p with addr := .v6 (bits &&& (← maskOf b 128 p.len)) }

/-- Whether `ip` falls inside the prefix. -/
def contains (b : Build) (p : IpPrefix) (ip : IpAddr) : Checked Bool := do
  return (← masked b { addr := ip, len := p.len }).addr = p.addr

end IpPrefix

/-! ## The ceiling -/

/-- The fixed budgets of a run; the timeout is held as it is written. -/
structure Budget where
  timeout : Text
  maxRequests : Nat
  maxResponseBytes : Nat
  maxRedirects : Nat

def Budget.default : Budget where
  timeout := "10s".toList
  maxRequests := 16
  maxResponseBytes := 4 * 2 ^ 20
  maxRedirects := 5

/-- `rateLimited` says whether there are rate limiters; `explicit` are the operator's forbid rules,
which `allowed` never overrides. -/
structure Ceiling where
  blocked : List IpPrefix
  allowed : List IpPrefix
  explicit : List IpPrefix
  budget : Budget
  rateLimited : Bool

/-- The prefixes of `DEFAULT_BLOCKED_CIDRS`. -/
def defaultBlocked : List IpPrefix :=
  [⟨.v4 0x00000000#32, 8⟩, ⟨.v4 0x0a000000#32, 8⟩, ⟨.v4 0x64400000#32, 10⟩,
    ⟨.v4 0x7f000000#32, 8⟩, ⟨.v4 0xa9fe0000#32, 16⟩, ⟨.v4 0xac100000#32, 12⟩,
    ⟨.v4 0xc0a80000#32, 16⟩, ⟨.v4 0xe0000000#32, 4⟩, ⟨.v4 0xf0000000#32, 4⟩,
    ⟨.v6 0#128, 96⟩, ⟨.v6 0x0064ff9b000000000000000000000000#128, 96⟩,
    ⟨.v6 0xfc000000000000000000000000000000#128, 7⟩,
    ⟨.v6 0xfe800000000000000000000000000000#128, 10⟩,
    ⟨.v6 0xff000000000000000000000000000000#128, 8⟩]

/-- The block-list entry that refuses `ip`: an operator forbid wins over an operator permit, which
wins over the defaults. -/
def Ceiling.blockedBy (b : Build) (e : Ceiling) (ip : IpAddr) : Checked (Option IpPrefix) := do
  let ip := ip.unmap
  match ← e.explicit.findM? fun p => p.contains b ip with
  | some p => return some p
  | none =>
      if ← e.allowed.anyM fun p => p.contains b ip then return none
      else e.blocked.findM? fun p => p.contains b ip

/-- Why an address is not dialled. -/
inductive Objection where
  | unspecified
  | blockedBy (p : IpPrefix)

/-- The test that an address is put to before it is dialled. -/
def Ceiling.judge (b : Build) (e : Ceiling) (ip : IpAddr) : Checked (Option Objection) :=
  let ip := ip.unmap
  if ip.isUnspecified then .ok (some .unspecified)
  else do return (← e.blockedBy b ip).map Objection.blockedBy

/-! ## The grant -/

class HttpLibrary where
  /-- A parsed URL. -/
  ParsedUrl : Type
  parseUrl : Text → Except Text ParsedUrl
  scheme : ParsedUrl → Text
  hostStr : ParsedUrl → Option Text
  path : ParsedUrl → Text
  asStr : ParsedUrl → Text
  join : ParsedUrl → Text → Except Text ParsedUrl
  /-- The address of a URL whose host is an IP literal. -/
  literal : ParsedUrl → Option IpAddr
  /-- Such a host is written as its address, in brackets for IPv6. -/
  literal_hostStr : ∀ {u ip}, literal u = some ip → ∃ t,
    (hostStr u = some t ∨ hostStr u = some ('[' :: t ++ "]".toList)) ∧
      parseIp t = some ip ∧ '[' ∉ t ∧ ']' ∉ t
  /-- `reqwest::Method::from_bytes`, or why it fails. -/
  methodFromBytes : Text → Except Text Unit
  lowercase : Text → Text
  uppercase : Text → Text
  showIp : IpAddr → Text
  debug : Text → Text

open HttpLibrary

variable [HttpLibrary]

/-- Lower case and without trailing dots. -/
def normalizeHost (h : Text) : Text :=
  trimEnd (· = '.') (lowercase (trim h))

/-- The parts of a URL that the checks read, with its text. -/
structure Url where
  raw : Text
  scheme : Text
  hostname : Text
  path : Text
  deriving DecidableEq

namespace Url

def ofParsed (raw : Text) (u : ParsedUrl) : Url where
  raw := raw
  scheme := HttpLibrary.scheme u
  hostname := (hostStr u).getD []
  path := HttpLibrary.path u

def parse (raw : Text) : Except Text Url :=
  match parseUrl raw with
  | .error e => .error e
  | .ok u => .ok (ofParsed raw u)

/-- The URL that a `Location` names. -/
def join (url : Url) (location : Text) : Except Text Url :=
  match parseUrl url.raw with
  | .error e => .error e
  | .ok base =>
      match HttpLibrary.join base location with
      | .error e => .error e
      | .ok joined => parse (asStr joined)

end Url

structure CompiledRule where
  host : Text
  suffix : Text
  methods : List Text
  pathPrefix : Text

def pathOrRoot (p : Text) : Text :=
  if p = [] then "/".toList else p

namespace CompiledRule

def matchesHost (r : CompiledRule) (host : Text) : Bool :=
  (r.host = [] ∨ r.host = host) ∧
    (r.suffix = [] ∨ (r.suffix.length < host.length ∧ r.suffix.isSuffixOf host))

def matchesRequest (r : CompiledRule) (method path : Text) : Bool :=
  method ∈ r.methods ∧ (r.pathPrefix = [] ∨ r.pathPrefix.isPrefixOf (pathOrRoot path))

end CompiledRule

/-- A module's compiled egress rules. -/
structure Grant where
  egress : Ceiling
  rules : List CompiledRule

/-- The check of one request, the first or a redirect hop. -/
def Grant.admits (g : Grant) (method : Text) (u : Url) : Except Text Unit :=
  if u.scheme ≠ "http".toList ∧ u.scheme ≠ "https".toList then
    .error ("sandbox.egress: only http and https URLs are allowed, not ".toList ++ debug u.scheme)
  else
    let host := normalizeHost u.hostname
    if host = [] then .error "sandbox.egress: the URL has no host".toList
    else if ¬ normalizedPath u.path then
      .error ("sandbox.egress: the URL path ".toList ++ debug u.path ++
        " must be normalized (no . or .. segments, no empty segments)".toList)
    else
      let method := uppercase method
      let onHost := g.rules.filter fun r => r.matchesHost host
      if onHost.any fun r => r.matchesRequest method u.path then .ok ()
      else if onHost = [] then
        .error ("sandbox.egress: no rule admits host ".toList ++ debug host)
      else
        .error ("sandbox.egress: no rule for host ".toList ++ debug host ++ " admits ".toList ++
          method ++ " ".toList ++ pathOrRoot u.path)

end Egress
end FunctionWasm

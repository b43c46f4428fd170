import Mathlib.Logic.Function.Basic
import LiquidPetProject.HttpMessage
import LiquidPetProject.Transitions

namespace LiquidPetProject.Gateway

open Models Http

structure UpstreamConfiguration where
  host : String
  port : UInt16
  deriving DecidableEq, Repr

/-- A map from path prefixes to upstreams, listed in the order in which a loop over it runs. -/
structure Services where
  entries : List (String × UpstreamConfiguration)
  nodup : (entries.map Prod.fst).Nodup

def Services.route (services : Services) (request : Request) : Option (String × UpstreamConfiguration) :=
  services.entries.find? (fun entry => entry.1.toList.isPrefixOf request.path.toList)

structure Attempt where
  pathPrefix : String
  config : UpstreamConfiguration
  attempt : ℕ
  deriving DecidableEq, Repr

/-- Where a call of `handle` stands. A socket that a place names is a local variable there. -/
inductive HandlePc
  | started
  | attempting (a : Attempt)
  | resolving (a : Attempt)
  | connecting (a : Attempt)
  | sending (a : Attempt) (usedPooledSocket : Bool) (socket : ℕ)
  | writing (a : Attempt) (usedPooledSocket : Bool) (socket : ℕ)
  | reading (a : Attempt) (usedPooledSocket : Bool) (socket : ℕ)
  | releasing (a : Attempt) (socket : ℕ) (response : BeastResponse)
  | failed (a : Attempt) (usedPooledSocket : Bool) (socket : ℕ)
  | returned (response : Response)
  deriving DecidableEq, Repr

/-- What happens to requests and sockets. The flag of a failed exchange is not visible to the code: it
tells whether the upstream has executed the request all the same. -/
inductive Event
  | began (request : ℕ) (message : Request)
  | opened (request socket : ℕ) (upstream : UpstreamConfiguration)
  | openFailed (request : ℕ)
  | wrote (request socket : ℕ) (message : BeastRequest)
  | received (request socket : ℕ) (response : BeastResponse)
  | exchangeFailed (request socket : ℕ) (executed : Bool)
  | closed (socket : ℕ)
  | forwarded (request : ℕ) (response : Response)
  | answered (request : ℕ) (status : Status)
  deriving DecidableEq, Repr

/-- The idle sockets of each prefix, the calls of `handle` in the order in which they began, the number
of the next socket and what has happened so far; the history is read by nothing. -/
structure ProxyHandler where
  pools : String → List ℕ := fun _ => []
  requests : List (Request × HandlePc) := []
  nextSocket : ℕ := 0
  history : List Event := []

inductive ProxyAction
  | handle (request : Request)
  | route (i : ℕ)
  | acquire (i : ℕ)
  | resolved (i : ℕ) (succeeded : Bool)
  | connected (i : ℕ) (succeeded : Bool)
  | send (i : ℕ)
  | written (i : ℕ)
  | received (i : ℕ) (response : BeastResponse)
  | broken (i : ℕ) (executed : Bool)
  | release (i : ℕ) (isOpen : Bool)
  | abandon (i : ℕ)
  deriving DecidableEq, Repr

namespace ProxyHandler

def exchangeRequest (request : Request) (host : String) : BeastRequest :=
  { HttpMessageConverter.toBeastRequest request with host := some host, keepAlive := true }

def advance (s : ProxyHandler) (i : ℕ) (request : Request) (pc : HandlePc) (events : List Event) :
    ProxyHandler :=
  { s with requests := s.requests.set i (request, pc), history := s.history ++ events }

def answer (s : ProxyHandler) (i : ℕ) (request : Request) (status : Status) (events : List Event) :
    ProxyHandler :=
  s.advance i request (.returned { status := status }) (events ++ [.answered i status])

def setPool (s : ProxyHandler) (pathPrefix : String) (sockets : List ℕ) : ProxyHandler :=
  { s with pools := Function.update s.pools pathPrefix sockets }

def routeRequest (services : Services) (s : ProxyHandler) (i : ℕ) (request : Request) : ProxyHandler :=
  if request.method = .unknown then s.answer i request .methodNotAllowed []
  else
    match services.route request with
    | none => s.answer i request .notFound []
    | some (pathPrefix, config) => s.advance i request (.attempting ⟨pathPrefix, config, 0⟩) []

/-- The head of a turn of the loop, with `acquirePooledSocket`: the pool gives its last socket away. -/
def acquireSocket (s : ProxyHandler) (i : ℕ) (request : Request) (a : Attempt) : ProxyHandler :=
  if a.attempt < 2 then
    if a.attempt = 1 then s.advance i request (.resolving a) []
    else
      match (s.pools a.pathPrefix).getLast? with
      | none => s.advance i request (.resolving a) []
      | some socket =>
        (s.advance i request (.sending a true socket) []).setPool a.pathPrefix
          (s.pools a.pathPrefix).dropLast
  else s.answer i request .badGateway []

def releaseSocketIfReusable (s : ProxyHandler) (i : ℕ) (request : Request) (a : Attempt) (socket : ℕ)
    (response : BeastResponse) (isOpen : Bool) : ProxyHandler :=
  if !response.keepAlive || !isOpen then
    s.advance i request (.returned (HttpMessageConverter.toHttpResponse response))
      [.closed socket, .forwarded i (HttpMessageConverter.toHttpResponse response)]
  else
    (s.advance i request (.returned (HttpMessageConverter.toHttpResponse response))
      [.forwarded i (HttpMessageConverter.toHttpResponse response)]).setPool a.pathPrefix
        (s.pools a.pathPrefix ++ [socket])

def abandonSocket (s : ProxyHandler) (i : ℕ) (request : Request) (a : Attempt) (usedPooledSocket : Bool)
    (socket : ℕ) : ProxyHandler :=
  if !usedPooledSocket then s.answer i request .badGateway [.closed socket]
  else s.advance i request (.attempting { a with attempt := a.attempt + 1 }) [.closed socket]

def step (services : Services) (s : ProxyHandler) : ProxyAction → Option ProxyHandler
  | .handle request => some { s with
      requests := s.requests ++ [(request, .started)]
      history := s.history ++ [.began s.requests.length request] }
  | .route i =>
    match s.requests[i]? with
    | some (request, .started) => some (routeRequest services s i request)
    | _ => none
  | .acquire i =>
    match s.requests[i]? with
    | some (request, .attempting a) => some (s.acquireSocket i request a)
    | _ => none
  | .resolved i succeeded =>
    match s.requests[i]? with
    | some (request, .resolving a) =>
      if succeeded then some (s.advance i request (.connecting a) [])
      else some (s.answer i request .badGateway [.openFailed i])
    | _ => none
  | .connected i succeeded =>
    match s.requests[i]? with
    | some (request, .connecting a) =>
      if succeeded then
        some { s.advance i request (.sending a false s.nextSocket) [.opened i s.nextSocket a.config] with
          nextSocket := s.nextSocket + 1 }
      else some (s.answer i request .badGateway [.openFailed i])
    | _ => none
  | .send i =>
    match s.requests[i]? with
    | some (request, .sending a pooled socket) =>
      some (s.advance i request (.writing a pooled socket)
        [.wrote i socket (exchangeRequest request a.config.host)])
    | _ => none
  | .written i =>
    match s.requests[i]? with
    | some (request, .writing a pooled socket) => some (s.advance i request (.reading a pooled socket) [])
    | _ => none
  | .received i response =>
    match s.requests[i]? with
    | some (request, .reading a _ socket) =>
      some (s.advance i request (.releasing a socket response) [.received i socket response])
    | _ => none
  | .broken i executed =>
    match s.requests[i]? with
    | some (request, .writing a pooled socket) =>
      some (s.advance i request (.failed a pooled socket) [.exchangeFailed i socket executed])
    | some (request, .reading a pooled socket) =>
      some (s.advance i request (.failed a pooled socket) [.exchangeFailed i socket executed])
    | _ => none
  | .release i isOpen =>
    match s.requests[i]? with
    | some (request, .releasing a socket response) =>
      some (s.releaseSocketIfReusable i request a socket response isOpen)
    | _ => none
  | .abandon i =>
    match s.requests[i]? with
    | some (request, .failed a pooled socket) => some (s.abandonSocket i request a pooled socket)
    | _ => none

end ProxyHandler

end LiquidPetProject.Gateway

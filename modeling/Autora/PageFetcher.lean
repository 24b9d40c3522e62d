import Autora.Lib.Urls

/-! Fetching pages from the web: every URL of a chain of redirects is checked before it is
asked for. -/

namespace Autora

namespace Fetching

open Untyped Urls

abbrev Data := List UInt8

/-- What the libraries raise. -/
inductive Exception where
  | osError
  | valueError
  /-- `httpx.TimeoutException`, and any other `httpx.HTTPError` by its name. -/
  | timeoutException
  | httpError (name : Str)
  | other (name : Str)
  deriving DecidableEq

/-- What a fetch raises: the first two are `FetchError`s. -/
inductive Raised where
  | fetchUnavailable (message : Str)
  | fetchRefused (message : Str)
  | exception (e : Exception)
  deriving DecidableEq

def Raised.isFetchError : Raised → Bool
  | .exception _ => false
  | _ => true

/-- What `ipaddress` says of an address. -/
structure IpKind where
  isGlobal : Bool
  isMulticast : Bool

inductive IpAddress where
  | v4 (kind : IpKind)
  | v6 (kind : IpKind) (ipv4Mapped : Option IpKind)

/-- The standard library's reading of texts. -/
structure Texts where
  casing : Casing
  literal : Str → Bool
  urljoin : Str → Str → Except Error Str
  /-- `ipaddress.ip_address`; none is a `ValueError`. -/
  ipAddress : Str → Option IpAddress

structure Response where
  url : Str
  status : Nat
  location : Option Str
  contentType : Option Str
  chunks : List Data
  /-- What the body breaks off with. -/
  breaks : Option Exception

/-- The world of one fetch; each attempt, by its number, may meet another. -/
structure Web where
  /-- The resolver's answer to the check. -/
  resolve : Nat → Str → Except Exception (List Str)
  /-- The host `httpx` reads in a URL. -/
  host : Str → Except Exception Str
  /-- The address `httpx` connects to for a name, from its own lookup. -/
  lookup : Nat → Str → Except Exception Str
  /-- What is answered at an address to the request for a URL. -/
  serve : Nat → Str → Str → Except Exception Response

structure HttpFetcher where
  timeoutS : Str
  maxBytes : Nat
  maxRedirects : Nat

structure FetchedPage where
  url : Str
  status : Nat
  contentType : Str
  body : Data

def Response.isRedirect (r : Response) : Bool := 300 ≤ r.status && r.status ≤ 399

def number (n : Nat) : Str := lit (toString n)

/-! The messages of what is raised. -/

def onlyHttp (url : Str) : Str := lit "only http(s) URLs can be fetched: " ++ url.take 200

def cannotResolve (host : Str) : Str := lit "cannot resolve " ++ host

def notPublic (host : Str) : Str := host ++ lit " is not a public address"

def noLocation (url : Str) : Str := lit "redirect without a location from " ++ url

def tooLarge (maxBytes : Nat) (url : Str) : Str :=
  url ++ lit " is larger than " ++ number maxBytes ++ lit " bytes"

def noAnswer (timeoutS url : Str) : Str :=
  url ++ lit " did not answer within " ++ timeoutS ++ lit "s"

def statusAnswered (status : Nat) (url : Str) : Str := url ++ lit " answered " ++ number status

def tooManyRedirects (maxRedirects : Nat) (url : Str) : Str :=
  lit "more than " ++ number maxRedirects ++ lit " redirects from " ++ url

variable (t : Texts) (web : Web) (f : HttpFetcher)

/-- `_public`. -/
def public_ (address : Str) : Option Bool :=
  (t.ipAddress (address.takeWhile (· ≠ 37))).map fun ip =>
    let kind := match ip with
      | .v4 kind => kind
      | .v6 kind ipv4Mapped => ipv4Mapped.getD kind
    kind.isGlobal && !kind.isMulticast

/-- `all(_public(a) for a in addresses)`. -/
def allPublic : List Str → Option Bool
  | [] => some true
  | a :: rest => match public_ t a with
    | none => none
    | some false => some false
    | some true => allPublic rest

def isIp (host : Str) : Bool := (t.ipAddress host).isSome

/-- The host of a URL that may be fetched at all. -/
def hostOf (parts : Parts) : Option Str :=
  let host := hostname t.casing parts.netloc
  if (parts.scheme = lit "http" ∨ parts.scheme = lit "https") ∧ host ≠ [] then some host else none

def addresses (n : Nat) (host : Str) : Except Exception (List Str) :=
  if isIp t host then .ok [host] else web.resolve n host

/-- `_check`. -/
@[irreducible] def check (n : Nat) (url : Str) : Except Raised Unit :=
  match urlsplit t.literal url with
  | .error _ => .error (.exception .valueError)
  | .ok parts => match hostOf t parts with
    | none => .error (.fetchRefused (onlyHttp url))
    | some host => match addresses t web n host with
      | .error .osError => .error (.fetchUnavailable (cannotResolve host))
      | .error e => .error (.exception e)
      | .ok found => match allPublic t found with
        | none => .error (.exception .valueError)
        | some all =>
          if found = [] ∨ all = false then
            .error (.fetchRefused (notPublic host))
          else .ok ()

/-- The address `httpx` connects to. -/
@[irreducible] def connect (n : Nat) (url : Str) : Except Exception Str :=
  match web.host url with
  | .error e => .error e
  | .ok host => if isIp t host then .ok host else web.lookup n host

/-- The two `except` clauses around a request. -/
def caught (url : Str) : Exception → Raised
  | .timeoutException => .fetchUnavailable (noAnswer f.timeoutS url)
  | .httpError name => .fetchUnavailable (url ++ lit ": " ++ name)
  | e => .exception e

def raiseForStatus (status : Nat) (url : Str) : Except Raised Unit :=
  if status = 429 ∨ 500 ≤ status then
    .error (.fetchUnavailable (statusAnswered status url))
  else if 400 ≤ status then .error (.fetchRefused (statusAnswered status url))
  else .ok ()

/-- The loop over the body's chunks. -/
def readBody (url : Str) (breaks : Option Exception) : List Data → Data → Except Raised Data
  | [], body => match breaks with
    | none => .ok body
    | some e => .error (caught f url e)
  | chunk :: rest, body =>
    let body := body ++ chunk
    if f.maxBytes < body.length then
      .error (.fetchRefused (tooLarge f.maxBytes url))
    else readBody url breaks rest body

/-- Where an attempt leads: to another URL, or to the end of the fetch. -/
inductive Turn where
  | goes (next : Str)
  | ends (result : Except Raised FetchedPage)

@[irreducible] def answered (url : Str) (r : Response) : Turn :=
  if r.isRedirect then
    match r.location with
    | none | some [] => .ends (.error (.fetchRefused (noLocation url)))
    | some location => match t.urljoin url location with
      | .error _ => .ends (.error (.exception .valueError))
      | .ok next => .goes next
  else match raiseForStatus r.status url with
    | .error e => .ends (.error e)
    | .ok () => match readBody f url r.breaks r.chunks [] with
      | .error e => .ends (.error e)
      | .ok body => .ends (.ok ⟨r.url, r.status, r.contentType.getD [], body⟩)

/-- One round of the loop, with the address the request was sent to. -/
@[irreducible] def attempt (n : Nat) (url : Str) : Turn × Option Str :=
  match check t web n url with
  | .error e => (.ends (.error e), none)
  | .ok () => match connect t web n url with
    | .error e => (.ends (.error (caught f url e)), none)
    | .ok address => match web.serve n address url with
      | .error e => (.ends (.error (caught f url e)), some address)
      | .ok r => (answered t f url r, some address)

/-- The loop, with the addresses requests were sent to. -/
def fetchFrom (start : Str) : Nat → Nat → Str → Except Raised FetchedPage × List Str
  | 0, _, _ => (.error (.fetchRefused (tooManyRedirects f.maxRedirects start)), [])
  | k + 1, n, url => match attempt t web f n url with
    | (.ends result, sent) => (result, sent.toList)
    | (.goes next, sent) =>
      let (result, rest) := fetchFrom start k (n + 1) next
      (result, sent.toList ++ rest)

def fetch (url : Str) : Except Raised FetchedPage × List Str :=
  fetchFrom t web f url (f.maxRedirects + 1) 0 url

end Fetching

end Autora

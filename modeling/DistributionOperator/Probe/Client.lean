import DistributionOperator.Http.Message
import DistributionOperator.Probe.Call

/-! Probing over HTTP. Redirections are followed, ten at most. -/

namespace DistributionOperator.Probe

open Http

/-- An address taken apart: the server, and the target on it. -/
structure Url where
  server : String
  target : String
deriving DecidableEq

def scheme : String := "http://"

def after? (start s : List Char) : Option (List Char) :=
  if start.isPrefixOf s then some (s.drop start.length) else none

def Url.parse? (s : String) : Option Url :=
  (after? scheme.toList s.toList).map fun r =>
    let server := r.takeWhile fun c => c ≠ '/' && c ≠ '?' && c ≠ '#'
    let target := (r.dropWhile fun c => c ≠ '/' && c ≠ '?' && c ≠ '#').takeWhile (· ≠ '#')
    let target := if target.head? = some '/' then target else '/' :: target
    ⟨String.ofList server, String.ofList target⟩

/-- Where a redirection leads: another server, a path on the same one, or a neighbour of the path.
-/
def Url.follow? (u : Url) (location : String) : Option Url :=
  match location.toList with
  | '/' :: '/' :: r => Url.parse? (String.ofList (scheme.toList ++ r))
  | '/' :: r => Url.parse? (String.ofList (scheme.toList ++ u.server.toList ++ '/' :: r))
  | r =>
    if (after? scheme.toList r).isSome then Url.parse? location
    else if r.contains ':' then none
    else
      let path := u.target.toList.takeWhile (· ≠ '?')
      let parent := (path.reverse.dropWhile (· ≠ '/')).reverse
      Url.parse? (String.ofList (scheme.toList ++ u.server.toList ++ parent ++ r))

def redirects : List Nat := [301, 302, 303, 307, 308]

def redirection? (r : Response) : Option String :=
  if redirects.contains r.status then r.header? "location" else none

def requestTo (u : Url) : Option Request :=
  (target? u.target).map fun t => ⟨"GET", t.1, t.2, none, none⟩

/-- The requests made and the last answer, if there is one and it is no redirection too many. -/
def fetch (send : Transport) : Nat → Url → List Request × Option Response
  | left, u =>
    match requestTo u with
    | none => ([], none)
    | some q =>
      match send q with
      | none => ([q], none)
      | some r =>
        match (redirection? r).bind u.follow? with
        | none => ([q], some r)
        | some next =>
          match left with
          | 0 => ([q], none)
          | left + 1 =>
            let more := fetch send left next
            (q :: more.1, more.2)

def get (send : Transport) (url : String) : List Request × Except ProbeError Response :=
  match Url.parse? url with
  | none => ([], .error (.http "builder error"))
  | some u =>
    let fetched := fetch send 10 u
    (fetched.1, match fetched.2 with
      | some r => .ok r
      | none => .error (.http ("error sending request for url (" ++ url ++ ")")))

def healthOf (r : Except ProbeError Response) : Except ProbeError Bool := r.map (·.succeeded)

/-- Only an answer of 200 is read; its bytes are taken as UTF-8 whatever they are. -/
def providersOf (r : Except ProbeError Response) : Except ProbeError (List Provider) := do
  let r ← r
  if r.succeeded then
    match ProviderList.record.decode.ofText (decodeUtf8Lenient r.body) with
    | .ok list => .ok list.data
    | .error e => .error (.serialization e)
  else .error (.status r.status)

def perform (send : Transport) : (c : ProbeCall) → c.Answer × List Request
  | .health e =>
    let got := get send (e.url Endpoint.healthPath)
    (healthOf got.2, got.1)
  | .providers e =>
    let got := get send (e.url Endpoint.providersPath)
    (providersOf got.2, got.1)

end DistributionOperator.Probe

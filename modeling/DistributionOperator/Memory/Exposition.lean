import DistributionOperator.Memory.Metrics

/-! The pages that tell how the operator does: its numbers as text, and whether it lives and is
ready. -/

namespace DistributionOperator

namespace Metrics

/-- Label values stand between quotes on one line. -/
def escapeLabel (c : Char) : List Char :=
  match c with
  | '\\' => ['\\', '\\']
  | '"' => ['\\', '"']
  | '\n' => ['\\', 'n']
  | c => [c]

def labelText (name value : String) : String :=
  name ++ "=\"" ++ String.ofList (value.toList.flatMap escapeLabel) ++ "\""

def seriesLine (family : String) (names : List String) (s : List String × Nat) : String :=
  family ++ "\x7b" ++ ",".intercalate ((names.zip s.1).map fun l => labelText l.1 l.2) ++ "\x7d " ++
    toString s.2

def familyLines (family help kind : String) (names : List String) (f : Family) : List String :=
  if f.isEmpty then []
  else ["# HELP " ++ family ++ " " ++ help, "# TYPE " ++ family ++ " " ++ kind] ++
    f.sorted.map (seriesLine family names)

def lines (m : Metrics) : List String :=
  familyLines "llamastack_distribution_phase" "1 for the current phase of each distribution" "gauge"
    ["name", "namespace", "phase"] m.phases ++
  familyLines "llamastack_reconcile_failures_total" "Failed reconciliation passes by error kind"
    "counter" ["kind"] m.failures ++
  familyLines "llamastack_reconciliations_total" "Reconciliation passes by result" "counter"
    ["result"] m.passes

def text (m : Metrics) : String := String.join (m.lines.map (· ++ "\n"))

def summary (m : Metrics) : String :=
  "Metrics \x7b ready: " ++ (if m.ready then "true" else "false") ++ ", .. \x7d"

end Metrics

structure Page where
  status : Nat
  contentType : Option String
  body : String
deriving DecidableEq

namespace Page

def plain (status : Nat) : Page := ⟨status, none, ""⟩

def at? (m : Metrics) (path : String) : Option Page :=
  if path = "/metrics" then some ⟨200, some "text/plain; version=0.0.4", m.text⟩
  else if path = "/healthz" then some (plain 200)
  else if path = "/readyz" then some (plain (if m.ready then 200 else 503))
  else none

/-- The answer to a request; of the target only the path counts. -/
def answer (m : Metrics) (method target : String) : Page :=
  match at? m (String.ofList (target.toList.takeWhile fun c => c ≠ '?' && c ≠ '#')) with
  | none => plain 404
  | some page =>
    if method = "GET" then page
    else if method = "HEAD" then { page with body := "" }
    else plain 405

/-- What is said when the address of the pages cannot be listened on. -/
def bindFailure (address : String) : String :=
  "failed to bind " ++ address ++ ": Address already in use (os error 98)"

end Page

end DistributionOperator

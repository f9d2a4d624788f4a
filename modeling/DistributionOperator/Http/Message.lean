import DistributionOperator.Json.Basic
import DistributionOperator.Text.Utf8

/-! Requests and answers of HTTP, as far as the operator sends and reads them, and the targets that
a request may have. -/

namespace DistributionOperator.Http

structure Request where
  method : String
  path : String
  query : List String
  contentType : Option String
  body : Option Json
deriving DecidableEq

structure Response where
  status : Nat
  headers : List (String × String)
  body : List UInt8
deriving DecidableEq

/-- Sends a request; nothing comes back when the connection fails. -/
abbrev Transport := Request → Option Response

def Response.succeeded (r : Response) : Bool := r.status = 200

def Response.isError (r : Response) : Bool := 400 ≤ r.status && r.status ≤ 599

def Response.header? (r : Response) (name : String) : Option String :=
  (r.headers.find? fun h => h.1.toLower = name).map (·.2)

def reasonPhrases : List (Nat × String) :=
  [(100, "Continue"), (101, "Switching Protocols"), (102, "Processing"), (103, "Early Hints"),
    (200, "OK"), (201, "Created"), (202, "Accepted"), (203, "Non Authoritative Information"),
    (204, "No Content"), (205, "Reset Content"), (206, "Partial Content"), (207, "Multi-Status"),
    (208, "Already Reported"), (226, "IM Used"), (300, "Multiple Choices"),
    (301, "Moved Permanently"), (302, "Found"), (303, "See Other"), (304, "Not Modified"),
    (305, "Use Proxy"), (307, "Temporary Redirect"), (308, "Permanent Redirect"),
    (400, "Bad Request"), (401, "Unauthorized"), (402, "Payment Required"), (403, "Forbidden"),
    (404, "Not Found"), (405, "Method Not Allowed"), (406, "Not Acceptable"),
    (407, "Proxy Authentication Required"), (408, "Request Timeout"), (409, "Conflict"),
    (410, "Gone"), (411, "Length Required"), (412, "Precondition Failed"),
    (413, "Payload Too Large"), (414, "URI Too Long"), (415, "Unsupported Media Type"),
    (416, "Range Not Satisfiable"), (417, "Expectation Failed"), (418, "I\x27m a teapot"),
    (421, "Misdirected Request"), (422, "Unprocessable Entity"), (423, "Locked"),
    (424, "Failed Dependency"), (425, "Too Early"), (426, "Upgrade Required"),
    (428, "Precondition Required"), (429, "Too Many Requests"),
    (431, "Request Header Fields Too Large"), (451, "Unavailable For Legal Reasons"),
    (500, "Internal Server Error"), (501, "Not Implemented"), (502, "Bad Gateway"),
    (503, "Service Unavailable"), (504, "Gateway Timeout"), (505, "HTTP Version Not Supported"),
    (506, "Variant Also Negotiates"), (507, "Insufficient Storage"), (508, "Loop Detected"),
    (510, "Not Extended"), (511, "Network Authentication Required")]

def statusLine (code : Nat) : String :=
  toString code ++ " " ++
    ((reasonPhrases.find? (·.1 = code)).map (·.2)).getD "<unknown status code>"

/-- The characters that may stand in a path: all but blanks, controls, angle brackets, the back
quote and the two signs that end a path. -/
def isPathChar (c : Char) : Bool :=
  let n := c.toNat
  n = 0x21 || n = 0x22 || (0x24 ≤ n && n ≤ 0x3B) || n = 0x3D || (0x40 ≤ n && n ≤ 0x5F) || 0x61 ≤ n

def isQueryChar (c : Char) : Bool :=
  let n := c.toNat
  n = 0x21 || (0x24 ≤ n && n ≤ 0x3B) || n = 0x3D || 0x3F ≤ n

/-- The parts of a query between the ampersands, without the empty ones. -/
def queryParts (s : List Char) : List String :=
  ((String.ofList s).splitOn "&").filter (· ≠ "")

/-- Path and query of a target, without a fragment; nothing if a character may not be there or the
whole is too long. -/
def target? (s : String) : Option (String × List String) :=
  let cs := s.toList.takeWhile (· ≠ '#')
  let path := cs.takeWhile (· ≠ '?')
  let query := (cs.dropWhile (· ≠ '?')).drop 1
  if s.utf8ByteSize ≤ 65534 && path.all isPathChar && query.all isQueryChar then
    some (String.ofList path, queryParts query)
  else none

end DistributionOperator.Http

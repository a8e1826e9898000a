import Switchboard.Json.Value
import Switchboard.Program

/-! Exchanges over HTTP, as far as the clients here use them. -/
namespace Switchboard.Http

inductive Method where
  | post
  | delete
deriving DecidableEq, Repr

def Method.name : Method → String
  | .post => "POST"
  | .delete => "DELETE"

structure Request where
  method : Method
  url : String
  accept : Option String := none
  session : Option String := none
  authorization : Option String := none
  body : Option Json := none

/-- A reply, with its body or why that could not be read to its end. -/
structure Reply where
  status : Nat
  contentType : Option String
  session : Option String
  body : Except String String

/-- Why a request has no reply: the time was up, or it could not be sent or was not answered. -/
inductive Failure where
  | timeout
  | unsent
deriving DecidableEq, Repr

abbrev Exchange := Program Request fun _ => Except Failure Reply

def Request.send (r : Request) : Exchange (Except Failure Reply) := Program.send r

def unsentText (url : String) : String := s!"error sending request for url ({url})"

def Reply.isSuccess (r : Reply) : Bool := 200 ≤ r.status && r.status < 300

/-- The registered names of the status codes. -/
def statusNames : List (Nat × String) :=
  [(100, "Continue"), (101, "Switching Protocols"), (102, "Processing"), (103, "Early Hints"),
   (200, "OK"), (201, "Created"), (202, "Accepted"), (203, "Non Authoritative Information"),
   (204, "No Content"), (205, "Reset Content"), (206, "Partial Content"), (207, "Multi-Status"),
   (208, "Already Reported"), (226, "IM Used"), (300, "Multiple Choices"),
   (301, "Moved Permanently"), (302, "Found"), (303, "See Other"), (304, "Not Modified"),
   (305, "Use Proxy"), (307, "Temporary Redirect"), (308, "Permanent Redirect"),
   (400, "Bad Request"), (401, "Unauthorized"), (402, "Payment Required"), (403, "Forbidden"),
   (404, "Not Found"), (405, "Method Not Allowed"), (406, "Not Acceptable"),
   (407, "Proxy Authentication Required"), (408, "Request Timeout"), (409, "Conflict"),
   (410, "Gone"), (411, "Length Required"), (412, "Precondition Failed"),
   (413, "Payload Too Large"), (414, "URI Too Long"), (415, "Unsupported Media Type"),
   (416, "Range Not Satisfiable"), (417, "Expectation Failed"), (418, "I'm a teapot"),
   (421, "Misdirected Request"), (422, "Unprocessable Entity"), (423, "Locked"),
   (424, "Failed Dependency"), (425, "Too Early"), (426, "Upgrade Required"),
   (428, "Precondition Required"), (429, "Too Many Requests"),
   (431, "Request Header Fields Too Large"), (451, "Unavailable For Legal Reasons"),
   (500, "Internal Server Error"), (501, "Not Implemented"), (502, "Bad Gateway"),
   (503, "Service Unavailable"), (504, "Gateway Timeout"), (505, "HTTP Version Not Supported"),
   (506, "Variant Also Negotiates"), (507, "Insufficient Storage"), (508, "Loop Detected"),
   (510, "Not Extended"), (511, "Network Authentication Required")]

def statusName (code : Nat) : String := (statusNames.lookup code).getD "<unknown status code>"

def statusText (code : Nat) : String := s!"{code} {statusName code}"

end Switchboard.Http

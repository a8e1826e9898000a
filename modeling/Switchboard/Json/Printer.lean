import Switchboard.Json.Value

/-! JSON values as text: on one line without spaces, or indented by two. -/
namespace Switchboard.Json

/-- The lower-case hexadecimal digit of a number below 16. -/
def hexDigit (n : Nat) : Char := Nat.digitChar n

/-- Only quotes, backslashes and control characters are escaped. -/
def escape (c : Char) : List Char :=
  match c with
  | '"' => ['\\', '"']
  | '\\' => ['\\', '\\']
  | '\x08' => ['\\', 'b']
  | '\x0c' => ['\\', 'f']
  | '\n' => ['\\', 'n']
  | '\r' => ['\\', 'r']
  | '\t' => ['\\', 't']
  | c =>
    if c.toNat < 0x20 then ['\\', 'u', '0', '0', hexDigit (c.toNat / 16), hexDigit (c.toNat % 16)]
    else [c]

def stringChars (s : String) : List Char := '"' :: s.toList.flatMap escape ++ ['"']

mutual
def chars : Json → List Char
  | .null => ['n', 'u', 'l', 'l']
  | .bool true => ['t', 'r', 'u', 'e']
  | .bool false => ['f', 'a', 'l', 's', 'e']
  | .num n => n.chars
  | .str s => stringChars s
  | .arr [] => ['[', ']']
  | .arr (v :: vs) => '[' :: chars v ++ itemChars vs
  | .obj [] => ['\x7b', '\x7d']
  | .obj ((k, v) :: ms) => '\x7b' :: stringChars k ++ ':' :: chars v ++ memberChars ms

/-- The further items of an array and its end. -/
def itemChars : List Json → List Char
  | [] => [']']
  | v :: vs => ',' :: chars v ++ itemChars vs

/-- The further members of an object and its end. -/
def memberChars : List (String × Json) → List Char
  | [] => ['\x7d']
  | (k, v) :: ms => ',' :: stringChars k ++ ':' :: chars v ++ memberChars ms
end

def render (v : Json) : String := .ofList (chars v)

private def newline (indent : Nat) : List Char := '\n' :: List.replicate (2 * indent) ' '

mutual
def prettyChars (indent : Nat) : Json → List Char
  | .arr [] => ['[', ']']
  | .arr (v :: vs) =>
    '[' :: newline (indent + 1) ++ prettyChars (indent + 1) v ++ prettyItems indent vs
  | .obj [] => ['\x7b', '\x7d']
  | .obj ((k, v) :: ms) =>
    '\x7b' :: newline (indent + 1) ++ stringChars k ++ [':', ' '] ++ prettyChars (indent + 1) v
      ++ prettyMembers indent ms
  | v => chars v

def prettyItems (indent : Nat) : List Json → List Char
  | [] => newline indent ++ [']']
  | v :: vs => ',' :: newline (indent + 1) ++ prettyChars (indent + 1) v ++ prettyItems indent vs

def prettyMembers (indent : Nat) : List (String × Json) → List Char
  | [] => newline indent ++ ['\x7d']
  | (k, v) :: ms =>
    ',' :: newline (indent + 1) ++ stringChars k ++ [':', ' '] ++ prettyChars (indent + 1) v
      ++ prettyMembers indent ms
end

/-- One member or item a line. -/
def pretty (v : Json) : String := .ofList (prettyChars 0 v)

end Switchboard.Json

import Switchboard.Json.Lexeme
import Switchboard.Toml.Scalar

/-! Reading the lines of a TOML document. -/
namespace Switchboard.Toml

/-- Reads from the front of a text. -/
abbrev Reader := StateT (List Char) Option

namespace Reader

/-- Takes a text off the front, if it stands there. -/
def accept (word : List Char) : Reader Bool := do
  let s ← get
  if word.isPrefixOf s then do set (s.drop word.length); return true
  else return false

def expect (word : List Char) : Reader Unit := do
  if !(← accept word) then failure

def takeWhile (p : Char → Bool) : Reader (List Char) := do
  let s ← get
  set (s.dropWhile p)
  return s.takeWhile p

def isSpace (c : Char) : Bool := c = ' ' || c = '\t'

def spaces : Reader Unit := discard (takeWhile isSpace)

/-- Control characters stand nowhere but for tabs and line ends. -/
def isPlain (c : Char) : Bool := (c.toNat ≥ 0x20 && c.toNat ≠ 0x7F) || c = '\t'

/-- A line end, if there is one. -/
def acceptNewline : Reader Bool := do
  if ← accept ['\n'] then return true
  accept ['\r', '\n']

def comment : Reader Unit := do
  if ← accept ['#'] then discard (takeWhile isPlain)

/-- Blanks, comments and line ends, as between the items of an array. -/
def filler : (fuel : Nat) → Reader Unit
  | 0 => failure
  | fuel + 1 => do
    spaces
    comment
    if ← acceptNewline then filler fuel

/-- A character by its code, in so many hexadecimal digits. -/
def codePoint (digits : Nat) : Reader Char := do
  let s ← get
  let ds := (s.take digits).filterMap Json.hexValue?
  if ds.length ≠ digits then failure
  let n := ds.foldl (fun n d => n * 16 + d) 0
  if n < 0xD800 ∨ (0xE000 ≤ n ∧ n < 0x110000) then
    set (s.drop digits)
    return Char.ofNat n
  else failure

/-- What follows a backslash. -/
def escape : Reader Char := do
  match ← get with
  | 'b' :: r => set r; return '\x08'
  | 't' :: r => set r; return '\t'
  | 'n' :: r => set r; return '\n'
  | 'f' :: r => set r; return '\x0c'
  | 'r' :: r => set r; return '\r'
  | '"' :: r => set r; return '"'
  | '\\' :: r => set r; return '\\'
  | 'u' :: r => set r; codePoint 4
  | 'U' :: r => set r; codePoint 8
  | _ => failure

/-- The rest of a basic string on one line. -/
def basicString : (fuel : Nat) → Reader (List Char)
  | 0 => failure
  | fuel + 1 => do
    match ← get with
    | '"' :: r => set r; return []
    | '\\' :: r => set r; let c ← escape; return c :: (← basicString fuel)
    | c :: r => if isPlain c then do set r; return c :: (← basicString fuel) else failure
    | [] => failure

def literalString : Reader (List Char) := do
  let s ← takeWhile fun c => c ≠ '\'' && isPlain c
  expect ['\'']
  return s

/-- Drops blanks and line ends, as after a backslash at the end of a line. -/
def lineContinuation : Reader Unit := do
  let s ← get
  match s.dropWhile isSpace with
  | '\n' :: _ => set (s.dropWhile fun c => isSpace c || c = '\n' || c = '\r')
  | '\r' :: '\n' :: _ => set (s.dropWhile fun c => isSpace c || c = '\n' || c = '\r')
  | _ => failure

/-- The rest of a string over several lines, which ends with three quotes; up to two more quotes
before them belong to it. -/
def longString (quote : Char) : (fuel : Nat) → Reader (List Char)
  | 0 => failure
  | fuel + 1 => do
    let s ← get
    let quotes := (s.takeWhile (· == quote)).length
    if quotes ≥ 6 then failure
    else if quotes ≥ 3 then do
      set (s.drop quotes)
      return List.replicate (quotes - 3) quote
    else
      match s with
      | '\r' :: '\n' :: r => set r; return '\n' :: (← longString quote fuel)
      | '\n' :: r => set r; return '\n' :: (← longString quote fuel)
      | '\\' :: r =>
        set r
        if quote = '"' then
          match r.head? with
          | some c =>
            if isSpace c || c = '\n' || c = '\r' then do
              lineContinuation
              longString quote fuel
            else do
              let e ← escape
              return e :: (← longString quote fuel)
          | none => failure
        else return '\\' :: (← longString quote fuel)
      | c :: r => if isPlain c then do set r; return c :: (← longString quote fuel) else failure
      | [] => failure

/-- A string in any of the four kinds of quotes; none if no quote is there. -/
def string? (long : Bool) (fuel : Nat) : Reader (Option String) := do
  let finish (d : Reader (List Char)) : Reader (Option String) := return some (.ofList (← d))
  if long && (← accept ['"', '"', '"']) then
    discard acceptNewline
    finish (longString '"' fuel)
  else if long && (← accept ['\'', '\'', '\'']) then
    discard acceptNewline
    finish (longString '\'' fuel)
  else if ← accept ['"'] then finish (basicString fuel)
  else if ← accept ['\''] then finish literalString
  else return none

def simpleKey (fuel : Nat) : Reader String := do
  match ← string? false fuel with
  | some s => return s
  | none =>
    let k ← takeWhile isBareKeyChar
    if k.isEmpty then failure
    return .ofList k

/-- Keys with points between them. -/
def key : (fuel : Nat) → Reader (List String)
  | 0 => failure
  | fuel + 1 => do
    spaces
    let k ← simpleKey fuel
    spaces
    if ← accept ['.'] then return k :: (← key fuel) else return [k]

private def isScalarChar (c : Char) : Bool :=
  c.isAlphanum || c = '_' || c = '-' || c = '+' || c = '.' || c = ':'

/-- An unquoted value. A date and a time may have a blank between them. -/
def scalar : Reader Toml := do
  let word ← takeWhile isScalarChar
  match date? word, ← get with
  | some (_, []), ' ' :: d :: r =>
    if isDec d then do
      set (d :: r)
      let time ← takeWhile isScalarChar
      liftM (scalar? (word ++ ' ' :: time))
    else liftM (scalar? word)
  | _, _ => liftM (scalar? word)

end Reader

/-- Puts a value at a path below an inline table. Tables on the way are made as needed; only those
that such a path made may be added to. `made` lists the paths of these. -/
def insertAt (made : List (List String)) (walked : List String) :
    List String → Toml → List (String × Toml) → Option (List (String × Toml) × List (List String))
  | [], _, _ => none
  | [k], v, entries =>
    if (entries.lookup k).isSome then none else some (entries ++ [(k, v)], made)
  | k :: ks, v, entries =>
    let here := walked ++ [k]
    match entries.lookup k with
    | none => do
      let (inner, made) ← insertAt (here :: made) here ks v []
      some (entries ++ [(k, .table inner)], made)
    | some (.table inner) =>
      if made.contains here then do
        let (inner, made) ← insertAt made here ks v inner
        some (entries.map fun e => if e.1 = k then (k, .table inner) else e, made)
      else none
    | some _ => none

namespace Reader

mutual
def value : (fuel : Nat) → Reader Toml
  | 0 => failure
  | fuel + 1 => do
    match ← string? true fuel with
    | some s => return .str s
    | none =>
      if ← accept ['['] then return .arr (← items fuel)
      else if ← accept ['\x7b'] then
        spaces
        if ← accept ['\x7d'] then return .table []
        return .table (← members fuel [] [])
      else scalar

/-- The rest of an array, which may end with a comma. -/
def items : (fuel : Nat) → Reader (List Toml)
  | 0 => failure
  | fuel + 1 => do
    filler fuel
    if ← accept [']'] then return []
    let v ← value fuel
    filler fuel
    if ← accept [','] then return v :: (← items fuel)
    expect [']']
    return [v]

/-- The rest of an inline table. -/
def members : (fuel : Nat) → List (List String) → List (String × Toml) →
    Reader (List (String × Toml))
  | 0, _, _ => failure
  | fuel + 1, made, entries => do
    let path ← key fuel
    expect ['=']
    spaces
    let v ← value fuel
    spaces
    let (entries, made) ← liftM (insertAt made [] path v entries)
    if ← accept [','] then members fuel made entries
    else do
      expect ['\x7d']
      return entries
end

/-- The end of a line with a statement. -/
def lineEnd : Reader Unit := do
  spaces
  comment
  if (← get).isEmpty then return ()
  if !(← acceptNewline) then failure

def statement (fuel : Nat) : Reader Statement := do
  if ← accept ['[', '['] then
    let path ← key fuel
    expect [']', ']']
    lineEnd
    return .element path
  else if ← accept ['['] then
    let path ← key fuel
    expect [']']
    lineEnd
    return .header path
  else
    let path ← key fuel
    expect ['=']
    spaces
    let v ← value fuel
    lineEnd
    return .assign path v

def statements : (fuel : Nat) → Reader (List Statement)
  | 0 => failure
  | fuel + 1 => do
    filler fuel
    if (← get).isEmpty then return []
    let s ← statement fuel
    return s :: (← statements fuel)

end Reader

/-- The statements of a document. Every reading step takes a character or ends, so the length of the
text bounds their number. -/
def statements? (text : String) : Option (List Statement) :=
  let s := text.toList
  let s := if s.head? = some '\uFEFF' then s.drop 1 else s
  ((Reader.statements (2 * s.length + 4)).run s).map (·.1)

end Switchboard.Toml

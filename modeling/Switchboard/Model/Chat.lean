import Switchboard.Dialogue
import Switchboard.Http.Basic
import Switchboard.Json.Record

/-! A language model and an embedder behind an HTTP interface, and the tokens that they use. -/
namespace Switchboard.Model

/-- Tokens of prompts, of completions and of both, in counters of 64 bits. -/
structure Usage where
  prompt : UInt64 := 0
  completion : UInt64 := 0
  total : UInt64 := 0
deriving DecidableEq, Repr

def Usage.add (prompt completion : UInt64) (u : Usage) : Usage :=
  ⟨u.prompt + prompt, u.completion + completion, u.total + (prompt + completion)⟩

/-- Where the interface is, which model to use and the key for it. -/
structure Access where
  base : String
  model : String
  key : String
deriving DecidableEq, Repr

def defaultBase : String := "https://api.openai.com/v1"

/-- The key that stands for none. -/
def placeholderKey : String := "sk-placeholder"

namespace Access

private def post (a : Access) (path : String) (body : Json) : Http.Request :=
  { method := .post, url := a.base ++ path, authorization := some ("Bearer " ++ a.key),
    body := some body }

private def messageJson (m : Message) : Json :=
  Json.object [("role", .str m.role.name), ("content", .str m.content)]

private def failureText (url : String) : Http.Failure → String
  | .timeout => "http error: operation timed out"
  | .unsent => s!"http error: {Http.unsentText url}"

/-- The body of a reply; that of one that reports a failure is the failure's text. -/
private def readBody (reply : Http.Reply) : Except ModelError String :=
  match reply.body with
  | .error text => .error (.request s!"http error: {text}")
  | .ok body => if reply.isSuccess then .ok body else .error (.request body)

/-- The text of the first choice, and the tokens of the prompt and the completion. -/
def completion? (v : Json) : Option (Option String × Option (Nat × Nat)) := do
  let choices ← match ← v.get? "choices" with
    | .arr cs => some cs
    | _ => none
  let content ← match choices with
    | [] => some none
    | c :: _ =>
      match (← c.get? "message").get? "content" with
      | none => some none
      | some .null => some none
      | some (.str s) => some (some s)
      | some _ => none
  let count (u : Json) (k : String) : Option Nat :=
    match u.get? k with
    | some (.num (.int i)) => if 0 ≤ i ∧ i < twoTo 32 then some i.toNat else none
    | _ => none
  let usage ← match v.get? "usage" with
    | none => some none
    | some .null => some none
    | some u => do some (some (← count u "prompt_tokens", ← count u "completion_tokens"))
  some (content, usage)

/-- Completes a conversation, and counts the tokens if the reply tells them. -/
def complete (a : Access) (messages : List Message) (used : Usage) :
    Http.Exchange (Except ModelError String × Usage) := do
  let request := a.post "/chat/completions"
    (Json.object [("model", .str a.model), ("messages", .arr (messages.map messageJson))])
  match ← request.send with
  | .error f => return (.error (.request (failureText request.url f)), used)
  | .ok reply =>
    match readBody reply with
    | .error e => return (.error e, used)
    | .ok body =>
      match (Json.parse? body).bind completion? with
      | none => return (.error (.request "invalid completion"), used)
      | some (content, usage) =>
        let used := match usage with
          | some (p, c) => used.add (UInt64.ofNat p) (UInt64.ofNat c)
          | none => used
        match content with
        | some text => return (.ok text, used)
        | none => return (.error .empty, used)

private def float32? : Json → Option Float32
  | .num n => some n.toFloat32
  | _ => none

private def vector? (v : Json) : Option (Nat × Embedding) := do
  let index ← match ← v.get? "index" with
    | .num (.int i) => if 0 ≤ i then some i.toNat else none
    | _ => none
  match ← v.get? "embedding" with
  | .arr xs => some (index, ← xs.mapM float32?)
  | _ => none

/-- The vectors of a reply in the order of their numbers. -/
def vectors? (v : Json) : Option (List Embedding) := do
  match ← v.get? "data" with
  | .arr es => do
    let vs ← es.mapM vector?
    some ((vs.mergeSort fun a b => a.1 ≤ b.1).map (·.2))
  | _ => none

/-- Embeds texts; there must be as many vectors as texts. Nothing is asked for no texts. -/
def embed (a : Access) (texts : List String) : Http.Exchange (Except ModelError (List Embedding)) := do
  if texts.isEmpty then return .ok []
  let request := a.post "/embeddings"
    (Json.object [("model", .str a.model), ("input", .arr (texts.map .str))])
  match ← request.send with
  | .error f => return .error (.request (failureText request.url f))
  | .ok reply =>
    match readBody reply with
    | .error e => return .error e
    | .ok body =>
      match (Json.parse? body).bind vectors? with
      | none => return .error (.request "invalid embeddings")
      | some vs =>
        if vs.length = texts.length then return .ok vs
        else
          return .error (.request s!"expected {texts.length} embeddings, got {vs.length}")

end Access

end Switchboard.Model

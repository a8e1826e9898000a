import Switchboard.Dialogue
import Switchboard.Dict

/-! An embedder with vectors given for some texts, which counts words in the others. -/
namespace Switchboard.Scripted

structure Embedder where
  keys : List String
  vectors : Dict Embedding
  failOn : Option String
  emptyOn : Option String

namespace Embedder

private def anyContains (word : Option String) (texts : List String) : Bool :=
  match word with
  | some w => texts.any (Text.contains w)
  | none => false

def vector (e : Embedder) (text : String) : Embedding :=
  match e.vectors.get? text with
  | some v => v
  | none => e.keys.map fun k => Float32.ofNat (Text.occurrences k text)

/-- The vectors of a batch; one text may make the whole batch fail or come back empty. -/
def embed (e : Embedder) (texts : List String) : Except ModelError (List Embedding) :=
  if anyContains e.failOn texts then .error (.request "embedding failed")
  else if anyContains e.emptyOn texts then .ok []
  else .ok (texts.map e.vector)

end Embedder
end Switchboard.Scripted

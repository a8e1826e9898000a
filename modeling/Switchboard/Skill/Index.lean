import Switchboard.Dialogue

/-! Choosing the skills nearest to a message by their embeddings. -/
namespace Switchboard.Skill

/-- The vectors of the skills once they are known, and how many skills to choose. -/
structure Index where
  topK : Nat
  vectors : Option (List (String × Embedding)) := none

namespace Index

/-- At least one skill is chosen. -/
def ofTopK (k : Nat) : Index := { topK := max k 1 }

section
variable {σ : Type} [LT σ] [DecidableLT σ]

/-- Stands an entry behind all of which the score is not less. -/
def insertRanked (e : α × σ) : List (α × σ) → List (α × σ)
  | [] => [e]
  | f :: fs => if f.2 < e.2 then e :: f :: fs else f :: insertRanked e fs

/-- The greatest score first; entries of which neither has a greater one keep their order. -/
def ranked (entries : List (α × σ)) : List (α × σ) :=
  entries.foldl (fun acc e => insertRanked e acc) []

end

/-- The skills of the `k` best names, and the fallback if it is not among them. -/
def choose (c : Catalog) (k : Nat) (names : List String) : List Skill :=
  let best := (names.take k).filterMap c.get?
  match c.fallback? with
  | some f => if best.any (·.name = f.name) then best else best ++ [f]
  | none => best

/-- The cosine of the angle between two vectors; zero if one has no direction or they differ in
length. -/
def cosine (a b : Embedding) : Float32 :=
  if a.length ≠ b.length ∨ a.isEmpty then 0
  else
    let dot (x y : Embedding) : Float32 := (List.zipWith (· * ·) x y).foldl (· + ·) 0
    let na := (dot a a).sqrt
    let nb := (dot b b).sqrt
    if na == 0 || nb == 0 then 0 else dot a b / (na * nb)

/-- The index with the vectors of a catalog's skills; as it was if they cannot be had. -/
def build (hasEmbedder : Bool) (c : Catalog) (index : Index) : Dialogue Index :=
  if hasEmbedder then do
    match ← (Request.embed (c.skills.map Skill.summary)).send with
    | .ok vectors => return { index with vectors := some (c.names.zip vectors) }
    | .error _ => return index
  else return index

/-- The skills to offer for a message, ranked by a score. All of them if there are few, if the skills
have no vectors or if the message has none. -/
def candidatesBy [LT σ] [DecidableLT σ] (score : Embedding → Embedding → σ) (hasEmbedder : Bool)
    (c : Catalog) (message : String) (index : Index) : Dialogue (List Skill) :=
  if c.skills.length ≤ index.topK || !hasEmbedder then return c.skills
  else match index.vectors with
    | none => return c.skills
    | some vectors => do
      match ← (Request.embed [message]).send with
      | .ok (v :: _) =>
        let scored := vectors.map fun e => (e.1, score v e.2)
        return choose c index.topK ((ranked scored).map (·.1))
      | _ => return c.skills

def candidates (hasEmbedder : Bool) (c : Catalog) (message : String) (index : Index) :
    Dialogue (List Skill) :=
  candidatesBy cosine hasEmbedder c message index

end Index
end Switchboard.Skill

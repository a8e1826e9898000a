import Switchboard.Json.Printer
import Switchboard.Text.Cut

/-! Tools that can be called, each bound to the server that offers it, and the tools that a skill
declares among those that are there. -/
namespace Switchboard

/-- A tool as a server lists it. -/
structure ListedTool where
  name : String
  description : String
  schema : Json

/-- A tool of a server: the name the server gave, and that name without the server's mark. -/
structure Handle where
  server : String
  name : String
  short : String
  description : String
  schema : Json
deriving Repr

namespace Handle

/-- A server's mark in tool names: its name, with an underscore for all but ASCII letters and digits,
and at least one underscore. The short name is what follows the mark and its underscores; a name
without the mark, or with nothing behind it, stays whole. -/
def shortName (server name : String) : String :=
  let mark := server.toList.map fun c => if c.isAlphanum then c else '_'
  match (Chars.after? mark name.toList).bind (Chars.after? ['_']) with
  | none => name
  | some rest =>
    let short := rest.dropWhile (· == '_')
    if short.isEmpty then name else .ofList short

/-- What a server puts before the names of its tools. -/
def mark (server : String) : List Char :=
  server.toList.map fun c => if c.isAlphanum then c else '_'

/-- The name is the server's mark, underscores, and a short name that does not start with one. -/
def Marked (server short name : String) : Prop :=
  ∃ n, name.toList = mark server ++ List.replicate (n + 1) '_' ++ short.toList ∧
    ∃ c ∈ short.toList.head?, c ≠ '_'

theorem shortName_eq {server short name : String} (hne : name ≠ short) :
    shortName server name = short ↔ Marked server short name := by
  have hmark : ∀ rest, (Chars.after? (mark server) name.toList).bind (Chars.after? ['_']) =
      some rest ↔ name.toList = mark server ++ '_' :: rest := by
    intro rest
    simp only [Option.bind_eq_some_iff, Chars.after?_eq_some, List.singleton_append,
      exists_eq_right]
  unfold shortName
  dsimp only
  constructor
  · intro h
    split at h
    next => exact absurd h hne
    next rest hrest =>
      split at h
      next => exact absurd h hne
      next hempty =>
        obtain rfl := h
        have hunder : rest.takeWhile (· == '_') =
            List.replicate (rest.takeWhile (· == '_')).length '_' :=
          List.eq_replicate_of_mem fun c hc =>
            beq_iff_eq.mp (List.all_eq_true.mp List.all_takeWhile c hc)
        refine ⟨(rest.takeWhile (· == '_')).length, ?_, ?_⟩
        · rw [(hmark rest).mp hrest, String.toList_ofList, List.replicate_succ, ← hunder,
            List.append_assoc, List.cons_append, List.takeWhile_append_dropWhile]
        · rw [String.toList_ofList]
          obtain ⟨c, after, hdrop⟩ := List.exists_cons_of_ne_nil (mt List.isEmpty_iff.mpr hempty)
          have hhead := List.head?_dropWhile_not (· == '_') rest
          rw [hdrop] at hhead ⊢
          exact ⟨c, rfl, by simpa using hhead⟩
  · rintro ⟨n, hsplit, c, hc, hunder⟩
    obtain ⟨after, hafter⟩ := List.head?_eq_some_iff.mp hc
    have hrest : name.toList = mark server ++ '_' :: (List.replicate n '_' ++ short.toList) := by
      rw [hsplit, List.replicate_succ, List.append_assoc, List.cons_append]
    have hdrop : (List.replicate n '_' ++ short.toList).dropWhile (· == '_') = short.toList := by
      rw [List.dropWhile_append_of_pos (by simp), hafter, List.dropWhile_cons_of_neg (by simpa)]
    split
    next hnone => cases hnone.symm.trans ((hmark _).mpr hrest)
    next rest hsome =>
      obtain rfl := Option.some.inj (hsome.symm.trans ((hmark _).mpr hrest))
      rw [hdrop, if_neg (by simp [hafter]), String.ofList_toList]

/-- The short name of a tool. It is the whole name where no other can be read off. -/
def ShortOf (server name short : String) : Prop :=
  Marked server short name ∨ short = name ∧ ∀ other, ¬ Marked server other name

theorem Marked.ne {server short name : String} (h : Marked server short name) : name ≠ short := by
  rintro rfl
  obtain ⟨n, hsplit, -⟩ := h
  have hlength := congrArg List.length hsplit
  rw [List.length_append, List.length_append, List.length_replicate] at hlength
  omega

theorem shortOf_shortName (server name : String) : ShortOf server name (shortName server name) := by
  by_cases hname : name = shortName server name
  · refine .inr ⟨hname.symm, fun other hother => hother.ne ?_⟩
    exact hname.trans ((shortName_eq hother.ne).mpr hother)
  · exact .inl ((shortName_eq hname).mp rfl)

def ofListed (server : String) (t : ListedTool) : Handle :=
  ⟨server, t.name, shortName server t.name, t.description, t.schema⟩

def toJson (h : Handle) : Json :=
  Json.object [("server", .str h.server), ("qualified_name", .str h.name),
    ("short_name", .str h.short), ("description", .str h.description),
    ("parameter_schema", h.schema)]

/-- The first tool of that name, else the first whose name ends with an underscore and that name. -/
def declared? (short : String) (live : List Handle) : Option Handle :=
  match live.find? (·.name = short) with
  | some h => some h
  | none => live.find? fun h => ('_' :: short.toList).isSuffixOf h.name.toList

/-- The tools for the declared names, in order of declaration; a tool is bound once. -/
def resolve (declared : List String) (live : List Handle) : List Handle :=
  declared.foldl (fun bound short =>
    match declared? short live with
    | some h => if bound.any fun b => b.name = h.name && b.server = h.server then bound
      else bound ++ [h]
    | none => bound) []

/-- The bound tool that a call means: by its full name, else by its short name. -/
def called? (name : String) (bound : List Handle) : Option Handle :=
  match bound.find? (·.name = name) with
  | some h => some h
  | none => bound.find? (·.short = name)

end Handle
end Switchboard

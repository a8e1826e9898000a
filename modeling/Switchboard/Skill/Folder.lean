import Switchboard.Dict
import Switchboard.Skill.Catalog
import Switchboard.Skill.Document

/-! The skills of a folder: one subfolder each, with a document in it. -/
namespace Switchboard

/-- Files by path, with slashes between folders; one that is no text has none. -/
abbrev Files := Dict (Option String)

namespace Files

def read (files : Files) (path : String) : Option String := (files.get? path).join

/-- The part of a path below a folder. The empty folder is the root. -/
def below? (folder path : String) : Option String :=
  if folder.isEmpty then some path else Text.after? (folder ++ "/") path

/-- The subfolders of a folder, in the order in which they were made. -/
def subfolders (files : Files) (folder : String) : List String :=
  (files.keys.filterMap fun path => do
    let rest ← below? folder path
    let (name, _) ← Text.cut? "/" rest
    some name).eraseDups

/-- The root is always there. -/
def isFolder (files : Files) (folder : String) : Bool :=
  folder.isEmpty || files.keys.any fun path => (below? folder path).isSome

/-- The folder of a path; a path without slashes is in the root. -/
def folderOf (path : String) : String :=
  .ofList ((path.toList.reverse.dropWhile (· != '/')).drop 1).reverse

end Files

namespace Skill

def documentName : String := "SKILL.md"

/-- The skill of a document at a path; its name is put in lower case. Unreadable files, texts that
are no document and documents without a name give none. -/
def ofDocument? (path : String) (text : Option String) : Option Skill := do
  let doc ← Document.parse? (← text)
  some ⟨Text.lower (← doc.name), doc.description, doc.tools, .file path⟩

/-- The skills of the documents of a folder, listed in any order. -/
def ofDocuments (documents : List (String × Option String)) : List Skill :=
  sorted (documents.filterMap fun d => ofDocument? d.1 d.2)

/-- The skills of a folder; `shown` is how the folder is written in paths. A folder that is not there
has none; none can be read from a file in its place. -/
def loadFolder (files : Files) (folder shown : String) : Except String (List Skill) :=
  if files.isFolder folder then
    .ok <| ofDocuments <| (files.subfolders folder).filterMap fun name =>
      let inner := if folder.isEmpty then name else folder ++ "/" ++ name
      (files.get? (inner ++ "/" ++ documentName)).map fun text =>
        (shown ++ "/" ++ name ++ "/" ++ documentName, text)
  else if (files.get? folder).isSome then .error s!"read skills dir {shown}"
  else .ok []

end Skill
end Switchboard

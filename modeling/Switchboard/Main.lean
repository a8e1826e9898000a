import Switchboard.Console
import Switchboard.Service.Build
import Switchboard.Text.Timestamp

/-! The program: settings from a file and the environment, then a conversation on the terminal. No
server can be reached from here, and tables last as long as the program. -/
namespace Switchboard.Terminal
open Scripted (Act World)

/-- The text of a file that can be read. -/
def readText? (path : String) : IO (Option String) := do
  try return some (← IO.FS.readFile path) catch _ => return none

def isFolder (path : String) : IO Bool := do
  try (← IO.FS.realPath path).isDir catch _ => return false

def isThere (path : String) : IO Bool := do
  try (← IO.FS.realPath path).pathExists catch _ => return false

/-- The variables of the environment. -/
def environment : IO (List (String × String)) := do
  let text := (← readText? "/proc/self/environ").getD ""
  let entries := (Chars.splitBy (· == '\x00') text.toList).map String.ofList
  return entries.filterMap fun e => Text.cut? "=" e

/-- The documents of a folder of skills. A slash at the end marks a folder. -/
def skillFiles (folder : String) : IO Files := do
  if ← isFolder folder then
    let mut files : Files := [(folder ++ "/", none)]
    for e in ← (← IO.FS.realPath folder).readDir do
      let path := folder ++ "/" ++ e.fileName ++ "/" ++ Skill.documentName
      if ← isThere path then files := files ++ [(path, ← readText? path)]
    return files
  else if ← isThere folder then return [(folder, ← readText? folder)]
  else return []

/-- What has to be known of a database file: its folder, and how it begins. -/
def databaseFiles (path : String) : IO Files := do
  let folder := Files.folderOf path
  if ← isFolder path then return [(path ++ "/", none)]
  else if ← isThere path then
    return [(path, String.fromUTF8? ((← IO.FS.readBinFile path).extract 0 Store.databaseMark.length))]
  else if ← isFolder folder then return [(folder ++ "/", none)]
  else return []

def filesFor (s : Settings) : IO Files := do
  let database ← match s.database with
    | some path => databaseFiles path
    | none => pure []
  return database ++ (← skillFiles s.skills.dir)

def loadSettings (path : Option String) (env : List (String × String)) : IO Settings := do
  let mut texts : Dict String := []
  for name in Settings.defaultFiles ++ path.toList do
    if let some text ← readText? name then texts := texts.put name text
  return (Settings.load? texts.get? path env).getD {}

def now : IO String := IO.FS.withTempFile fun _ path => do
  let t := (← path.metadata).modified
  return Timestamp.text t.sec.toNat t.nsec.toNat

/-- A name of 32 random digits in groups. -/
def freshName : IO String := do
  let mut groups : List String := []
  for width in [8, 4, 4, 4, 12] do
    let mut digits : List Char := []
    for _ in [0:width] do
      digits := Nat.digitChar (← IO.rand 0 15) :: digits
    groups := groups ++ [.ofList digits]
  return Text.joined "-" groups

/-- Lets the world act; none if it came to a halt. -/
def act (world : IO.Ref World) (a : Act α) : IO (Option α) := do
  let (result, w) := a.run.run (← world.get)
  world.set w
  return result.toOption

/-- Answers lines until the input ends or a line quits. -/
partial def converse (settings : Settings) (world : IO.Ref World) (c : Console) : IO Unit := do
  let out ← IO.getStdout
  out.putStr Console.prompt
  out.flush
  let line ← (← IO.getStdin).getLine
  if line.isEmpty then return
  match Console.Command.parse? line with
  | none => converse settings world c
  | some .quit => return
  | some command => do
    let files ← filesFor settings
    world.modify fun w => { w with files }
    match ← act world (c.respond (← freshName) (← now) command) with
    | none => return
    | some (text, c) => do
      out.putStr text
      converse settings world c

end Switchboard.Terminal

open Switchboard in
def main (args : List String) : IO UInt32 := do
  let env ← Terminal.environment
  let settings ← Terminal.loadSettings args.head? env
  let world ← IO.mkRef { files := ← Terminal.filesFor settings : Scripted.World }
  match ← Terminal.act world (Service.build settings env) with
  | some (.ok agent) => do
    IO.print (Console.greeting settings.conversation.name)
    Terminal.converse settings world ⟨agent, ← Terminal.freshName⟩
    let _ ← Terminal.act world Service.shutdown
    return 0
  | some (.error e) => do
    IO.eprintln s!"Error: Failed to create agent\n\nCaused by:\n    {e.message}"
    return 1
  | none => return 1

import Switchboard.Json.Printer
import Switchboard.Service.Basic

/-! Talking with an agent line by line: what a line means, and what is printed for it. -/
namespace Switchboard

inductive Console.Command where
  | quit
  /-- Starts a new conversation. -/
  | fresh
  | skills
  | tools
  | health
  | reconnect (server : Option String)
  | say (message : String)
deriving DecidableEq, Repr

/-- An agent, and the name of the conversation with it. -/
structure Console where
  agent : Agent
  conversation : String

namespace Console
open Scripted (Act)

def reconnectWord : String := "/reconnect"

/-- The command on a line; a blank line is none. What is no other command is said to the agent. -/
def Command.parse? (line : String) : Option Command :=
  let line := Text.trim line
  if line.isEmpty then none
  else if line = "/quit" ∨ line = "/exit" then some .quit
  else if line = "/new" then some .fresh
  else if line = "/skills" then some .skills
  else if line = "/tools" then some .tools
  else if line = "/health" then some .health
  else if Text.startsWith reconnectWord line then
    let server := Chars.trim (Chars.dropRepeated reconnectWord.toList line.toList)
    some (.reconnect (if server.isEmpty then none else some (.ofList server)))
  else some (.say line)

/-- What is printed for an event. -/
def eventText : Event → String
  | .planning m => m ++ "\n"
  | .plan steps =>
    "📋 执行计划:\n" ++ Text.joined "" (steps.zipIdx.map fun s => s!"  {s.2 + 1}. {s.1}\n")
  | .skillStart c t s k => s!"▶ [{c}/{t}] {s}: {k}\n"
  | .actionStart s t d => s!"⚙ 步骤 {s}/{t}: {d}\n"
  | .actionDone s _ _ r => s!"✓ 步骤 {s} 完成: {r}\n"
  | .observe _ t => s!"👀 {t}\n"
  | .replan r steps => s!"🔄 重新规划（{r}）: " ++ Text.joined " → " steps ++ "\n"
  | .result c => s!"\n{c}\n\n"
  | .error m => s!"❌ {m}\n"
  | .done => ""

private def entry (name text : String) : String := s!"  {name}: {text}\n"

private def reconnected (connected : Bool) : String := if connected then "已重连" else "重连失败"

/-- The name of a service that has none. -/
def defaultName : String := "Skill Gateway"

def greeting (name : Option String) : String :=
  s!"{name.getD defaultName} 已启动，输入 /quit 退出\n"

def prompt : String := "> "

/-- Carries out a command. `fresh` names the next new conversation, `time` is the time of day. -/
def respond (c : Console) (fresh time : String) : Command → Act (String × Console)
  | .quit => return ("", c)
  | .fresh => return (s!"新会话: {fresh}\n", { c with conversation := fresh })
  | .skills =>
    return (Text.joined "" ((Service.described c.agent.catalog).map fun s => entry s.1 s.2), c)
  | .tools => do
    match ← Service.tools with
    | .ok ts => return (Text.joined "" (ts.map fun t => entry t.name t.description), c)
    | .error e => return (s!"获取工具列表失败: {(TurnError.server e).message}\n", c)
  | .health => do return (((← Service.health c.agent).toJson (some time)).pretty ++ "\n", c)
  | .reconnect server => do
    let servers ← Service.reconnect server
    return (Text.joined "" (servers.map fun s => entry s.1 (reconnected s.2)), c)
  | .say message => do
    let events ← Service.turn c.agent c.conversation message
    return (Text.joined "" (events.map eventText), c)

/-- All that is printed for lines of input, with a prompt before each, up to the line that quits or to
their end. Conversations are named in order by `names`. -/
def transcript (time : String) (names : Nat → String) (c : Console) :
    (next : Nat) → List String → Act String
  | _, [] => return prompt
  | next, line :: rest => do
    match Command.parse? line with
    | none => return prompt ++ (← transcript time names c next rest)
    | some .quit => return prompt
    | some command => do
      let (text, c) ← c.respond (names next) time command
      return prompt ++ text ++ (← transcript time names c (next + 1) rest)

end Console
end Switchboard

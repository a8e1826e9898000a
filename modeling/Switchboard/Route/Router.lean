import Switchboard.Dialogue
import Switchboard.Message
import Switchboard.Skill.Catalog

/-! Finding the intents of a message: the prompt for it, and what the reply means. -/
namespace Switchboard.Route

/-- How much of the conversation a router sees: the last messages, the assistant's cut short. -/
structure Window where
  messages : Nat := 16
  preview : Nat := 150
deriving DecidableEq, Repr

def skillLine (s : Skill) : String := s!"- **{s.name}**: {s.description}\n"

def instructions (skills : List Skill) (fallback : String) : String :=
  Text.joined "\n" [
    "你是一个意图识别路由器。你的任务是：判断用户的消息包含哪些意图，以及每个意图应该由哪个 Skill 来处理。",
    "",
    "## 规则",
    "- 每行输出一个意图，格式为：skill名称|子任务描述",
    "- 只有一个意图时，也可以只返回 skill 名称",
    "- 按用户提问的先后顺序输出",
    "- 不要解释，不要输出其他内容",
    s!"- 如果无法确定，返回 {fallback}",
    "",
    "## 可用的 Skills",
    Text.joined "" (skills.map skillLine),
    "## 示例",
    "用户: \"北京天气怎么样\" → weather",
    "用户: \"查一下我的订单\" → order-query",
    "用户: \"帮我退款\" → refund",
    "用户: \"物流到哪了\" → logistics",
    "用户: \"统计一下销售额\" → data-analysis",
    "用户: \"你好\" → chitchat",
    "用户: \"北京天气怎么样，还有帮我查一下ORD123的物流\" →",
    "weather|查询北京天气",
    "logistics|查询订单ORD123的物流",
    ""]

private def historyLine (w : Window) (m : Message) : String :=
  let text := if m.role = .assistant then Text.clip w.preview m.content else m.content
  s!"{m.role.name}: {text}\n"

/-- The last messages, oldest first. -/
def history (w : Window) (messages : List Message) : String :=
  if messages.isEmpty || w.messages = 0 then ""
  else
    "\n\n## 对话历史（从早到晚）\n"
      ++ Text.joined "" ((messages.drop (messages.length - w.messages)).map (historyLine w))
      ++ "\n请结合对话历史判断用户当前消息的意图。如果用户在补充上一轮的信息，应该路由到同一个 Skill。"

/-- The intents in the model's reply, or the whole message for the fallback skill. -/
def intentsOf (c : Catalog) (message : String) : Except ModelError String → List Intent
  | .error _ => [⟨c.fallback, message⟩]
  | .ok output =>
    match Intent.parse c message output with
    | [] => [⟨c.fallback, message⟩]
    | i :: is => i :: is

/-- Asks the model once. Without candidates all skills are offered. -/
def route (c : Catalog) (w : Window) (message : String) (messages : List Message)
    (candidates : List Skill) : Dialogue (List Intent) := do
  let offered := if candidates.isEmpty then c.skills else candidates
  let system := instructions offered c.fallback ++ history w messages
  return intentsOf c message (← Dialogue.complete [⟨.system, system⟩, ⟨.user, message⟩])

end Switchboard.Route

import Switchboard.Plan.Progress
import Switchboard.Plan.Steps

/-! The prompts for planning, executing, observing and replying. -/
namespace Switchboard.Plan.Prompt

/-- The form of a tool call, as a JSON schema. -/
def callSchema : Json :=
  let described (text : String) (more : List (String × Json)) : Json :=
    .obj (("description", .str text) :: more)
  .obj [
    ("$schema", .str "http://json-schema.org/draft-07/schema#"),
    ("title", .str "ToolCallFormat"),
    ("description", .str "工具调用请求格式：与 parse_tool_call 解析的 `\x7b\"tool\": \"...\", \"args\": \x7b...\x7d\x7d` 一致（仅用于 Schema 生成）"),
    ("type", .str "object"),
    ("required", .arr [.str "args", .str "tool"]),
    ("properties", .obj [
      ("args", described "工具参数，键为参数名，须符合该工具的参数 Schema"
        [("type", .str "object"), ("additionalProperties", .bool true)]),
      ("tool", described "工具名，取自「可用工具」列表" [("type", .str "string")])])]

def schema : String := callSchema.pretty

/-- Lines for a list, or a word for none. -/
private def orNone (lines : List String) : String :=
  if lines.isEmpty then "无" else Text.joined "\n" lines

private def signature (h : Handle) : String :=
  let description := if h.description.isEmpty then "(无描述)" else h.description
  s!"- {h.name}: {description}\n  参数: {h.schema.render}"

/-- The tools with their descriptions and the schemas of their arguments. -/
def signatures (tools : List Handle) : String := orNone (tools.map signature)

private def outcomeLine (s : StepRecord) : String := s!"- {s.step} → {s.result}"

def planner (tools : List Handle) (user : String) (executed : List StepRecord) : String :=
  Text.joined "\n" [
    "你是一个任务规划器。根据用户问题、可用工具和已完成步骤，生成接下来的执行计划。",
    "",
    "规则：",
    "- 每行一个步骤，不要编号，不要多余内容",
    "- 步骤要具体、可执行，明确说明要调用哪个工具和参数",
    s!"- 如果调用工具所必需的参数在用户问题中缺失，第一步必须是「{askWord}：具体问题」，且只输出这一步",
    "- 如果只是工具能力有限（而不是缺少参数），不要追问，尽力执行并在最终回复中说明限制",
    "- 如果不需要工具，直接写\"回复用户\"",
    "- 最后一步应该是\"整理结果并回复用户\"",
    "",
    "可用工具:",
    signatures tools,
    s!"用户问题: {user}",
    "已完成步骤:",
    orNone (executed.map outcomeLine),
    "",
    "请输出接下来要执行的步骤（每行一个）："]

/-- The skill's own prompt, and how to call tools if there are any. -/
def stepSystem (skillPrompt : String) (tools : List Handle) : String :=
  if tools.isEmpty then skillPrompt
  else Text.joined "\n" [
    skillPrompt,
    "",
    "## 可用工具",
    signatures tools,
    "",
    "需要调用工具时，只输出一个 JSON 对象（不要输出其他内容），格式如下：",
    "\x7b\"tool\": \"工具名\", \"args\": \x7b...\x7d\x7d",
    "JSON Schema:",
    schema,
    "收到工具结果后，可以继续调用工具，或直接输出文本结果。"]

def step (step user : String) (completed : List StepRecord) : String :=
  let history := if completed.isEmpty then ""
    else "之前步骤的结果:\n" ++
      Text.joined "\n" (completed.map fun s => s!"步骤「{s.step}」结果: {s.result}")
  Text.joined "\n" [
    s!"你正在执行以下步骤: {step}",
    "",
    s!"用户原始问题: {user}",
    history,
    "",
    "请执行这个步骤。如果需要调用工具，请调用。只返回这一步的执行结果，不要返回最终回复。"]

def observer (user step result : String) (remaining : List String) (preview : Nat) : String :=
  let rest := if remaining.isEmpty then "无" else Text.joined ", " remaining
  Text.joined "\n" [
    "你是一个任务观察者。请评估当前步骤的执行结果。",
    "",
    s!"用户问题: {user}",
    s!"当前步骤: {step}",
    s!"执行结果: {Text.clip preview result}",
    s!"剩余步骤: {rest}",
    "",
    "请用一句话评估：",
    "- 如果结果正常且剩余步骤合理，回复 \"OK: [简要说明]\"",
    "- 如果结果异常或需要调整计划，回复 \"REPLAN: [原因和建议]\""]

/-- The final reply; steps of replaced plans stand in front as background. -/
def final (skillPrompt user : String) (superseded completed : List StepRecord) : String :=
  let results := Text.joined "\n\n" (completed.map fun s => s!"步骤「{s.step}」结果:\n{s.result}")
  let background := if superseded.isEmpty then ""
    else "\n此前被调整掉的计划中已执行的步骤（仅供参考）：\n"
      ++ Text.joined "\n" (superseded.map outcomeLine) ++ "\n"
  Text.joined "\n" [
    skillPrompt,
    "",
    s!"用户问题: {user}",
    background,
    "以下是已执行步骤及其结果：",
    results,
    "",
    "请根据以上所有步骤的结果，生成对用户问题的最终完整回复。"]

def direct (user : String) : String :=
  s!"用户问题: {user}\n\n请直接回复用户。如果需要调用工具，请先调用工具。"

/-- One reply out of the results of several tasks. -/
def summary (results : List String) : String :=
  Text.joined "\n" [
    "你是一个智能助手。用户一次提出了多个问题，以下是各个子任务的执行结果。",
    "请将所有结果整合成一个完整、连贯的回复，不要遗漏任何子任务的信息。",
    "使用中文回复，语气友好专业。",
    "",
    "各子任务结果：",
    Text.joined "\n\n---\n\n" results,
    "",
    "请输出整合后的完整回复："]

end Switchboard.Plan.Prompt

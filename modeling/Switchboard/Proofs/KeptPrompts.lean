import Mathlib.Data.List.Induction
import Switchboard.Skill.Folder
import Switchboard.Skill.Prompts

/-! Prompts over time. Files are written and removed while prompts are asked for; what a prompt was
when it was first read is what it stays. -/
namespace Switchboard.Catalog
open Skill (Document)

theorem prompt_of_file (c : Catalog) (readFile : String → Option String) {name path : String}
    {s : Skill} (hskill : c.get? name = some s) (hprompt : s.prompt = .file path) :
    (c.prompt readFile name []).1 =
      match readFile path with
      | none => .error (.config s!"load prompt of {name}: read {path}")
      | some text => .ok (Document.promptOf text) := by
  have hname : s.name = name := by simpa using List.find?_some hskill
  have hnil : Dict.get? ([] : Prompts) name = none := rfl
  rw [prompt, hnil, hskill]
  dsimp only
  rw [loadPrompt, hprompt, hname]
  dsimp only
  cases readFile path <;> rfl

/-- What happens over time. Bytes that are no text can be written, too. -/
inductive Act where
  | write (path : String) (content : Option String)
  | remove (path : String)
  | ask (name : String)
deriving DecidableEq, Repr

namespace Act

def onFiles : Act → Files → Files
  | .write path content, files => files.put path content
  | .remove path, files => files.erase path
  | .ask _, files => files

/-- Not a question for another name. -/
def concerns (name : String) : Act → Bool
  | .ask other => other = name
  | _ => true

def textAfter (files : Files) (acts : List Act) (path : String) : Option String :=
  (acts.foldl (fun files a => a.onFiles files) files).read path

end Act

structure Moment where
  files : Files
  kept : Prompts := []

namespace Moment

variable (c : Catalog)

def answer (m : Moment) (name : String) : Except TurnError String :=
  (c.prompt m.files.read name m.kept).1

def next (m : Moment) (a : Act) : Moment where
  files := a.onFiles m.files
  kept := match a with
    | .ask name => (c.prompt m.files.read name m.kept).2
    | _ => m.kept

def after (m : Moment) (acts : List Act) : Moment := acts.foldl (next c) m

variable {c} {m m' : Moment} {name : String} {p : String}

theorem after_append (m : Moment) (acts later : List Act) :
    m.after c (acts ++ later) = (m.after c acts).after c later := List.foldl_append

theorem after_concat (m : Moment) (acts : List Act) (a : Act) :
    m.after c (acts ++ [a]) = (m.after c acts).next c a := after_append m acts [a]

theorem files_after (m : Moment) (acts : List Act) :
    (m.after c acts).files = acts.foldl (fun files a => a.onFiles files) m.files := by
  induction acts generalizing m with
  | nil => rfl
  | cons a acts ih => exact ih (m.next c a)

theorem answer_of_kept (h : m.kept.get? name = some p) : m.answer c name = .ok p := by
  rw [answer, prompt_fst, h]

theorem answer_of_not_kept (h : m.kept.get? name = none) :
    m.answer c name = (c.prompt m.files.read name []).1 := by
  rw [answer, prompt_fst, h]

/-- Only asking for a name changes what is kept of it, and then it is the answer. -/
theorem get?_kept_next (m : Moment) (a : Act) (name : String) : (m.next c a).kept.get? name =
    if a = .ask name then (m.answer c name).toOption else m.kept.get? name := by
  cases a with
  | write path content => rfl
  | remove path => rfl
  | ask other =>
    by_cases h : other = name
    · subst h
      rw [if_pos rfl]
      exact get?_prompt_self ..
    · rw [if_neg (h ∘ Act.ask.inj)]
      exact get?_prompt_of_ne _ _ _ _ (Ne.symm h)

theorem kept_next (h : m.kept.get? name = some p) (a : Act) :
    (m.next c a).kept.get? name = some p := by
  rw [get?_kept_next, answer_of_kept h, h]
  exact ite_self _

theorem kept_after (h : m.kept.get? name = some p) (acts : List Act) :
    (m.after c acts).kept.get? name = some p := by
  induction acts generalizing m with
  | nil => exact h
  | cons a acts ih => exact ih (kept_next h a)

/-- With nothing kept at first, a prompt is kept if it was answered once, and as it was then. -/
theorem kept_after_iff {files : Files} {acts : List Act} :
    (after c ⟨files, []⟩ acts).kept.get? name = some p ↔
      ∃ earlier later, acts = earlier ++ .ask name :: later ∧
        (after c ⟨files, []⟩ earlier).answer c name = .ok p := by
  constructor
  · intro h
    induction acts using List.reverseRecOn with
    | nil => cases h
    | append_singleton acts a ih =>
      rw [after_concat, get?_kept_next] at h
      split at h
      · rename_i ha
        exact ⟨acts, [], by rw [ha], toOption_eq_some.mp h⟩
      · obtain ⟨earlier, later, rfl, hok⟩ := ih h
        exact ⟨earlier, later ++ [a], by simp, hok⟩
  · rintro ⟨earlier, later, rfl, hok⟩
    rw [after_append]
    refine kept_after (m := (after c ⟨files, []⟩ earlier).next c (.ask name)) ?_ later
    rw [get?_kept_next, if_pos rfl, hok]
    rfl

/-- Of names that are not in the catalog nothing is ever kept. -/
theorem not_kept_after {files : Files} (h : c.get? name = none) (acts : List Act) :
    (after c ⟨files, []⟩ acts).kept.get? name = none := by
  induction acts using List.reverseRecOn with
  | nil => rfl
  | append_singleton acts a ih =>
    rw [after_concat, get?_kept_next, ih, answer_of_not_kept ih, prompt, h]
    exact ite_self _

/-- The files are the same, and so is what is kept of the name. -/
structure SameFor (name : String) (m m' : Moment) : Prop where
  files : m'.files = m.files
  kept : m'.kept.get? name = m.kept.get? name

theorem SameFor.answer (h : SameFor name m m') : m'.answer c name = m.answer c name := by
  rw [Moment.answer, Moment.answer, prompt_fst, prompt_fst c m.files.read, h.files, h.kept]

theorem SameFor.next (h : SameFor name m m') (a : Act) :
    SameFor name (m.next c a) (m'.next c a) := by
  refine ⟨congrArg a.onFiles h.files, ?_⟩
  rw [get?_kept_next, get?_kept_next, h.answer, h.kept]

theorem SameFor.ask (h : SameFor name m m') {other : String} (hother : other ≠ name) :
    SameFor name m (m'.next c (.ask other)) := by
  refine ⟨h.files, ?_⟩
  rw [get?_kept_next, if_neg (hother ∘ Act.ask.inj)]
  exact h.kept

theorem SameFor.after (h : SameFor name m m') (acts : List Act) :
    SameFor name (m.after c (acts.filter (Act.concerns name))) (m'.after c acts) := by
  induction acts generalizing m m' with
  | nil => exact h
  | cons a acts ih =>
    cases hconcerns : a.concerns name with
    | true =>
      rw [List.filter_cons_of_pos hconcerns]
      exact ih (h.next a)
    | false =>
      rw [List.filter_cons_of_neg (by rw [hconcerns]; decide)]
      cases a with
      | ask other => exact ih (h.ask (of_decide_eq_false hconcerns))
      | write => cases hconcerns
      | remove => cases hconcerns

end Moment

/-- The answer to a question for a prompt after all this, when at first nothing is kept. -/
def answerAfter (c : Catalog) (files : Files) (acts : List Act) (name : String) :
    Except TurnError String :=
  (Moment.after c ⟨files, []⟩ acts).answer c name

/-- A name that is not in the catalog is never answered. The prompt of a skill with a file is read
from it when it is asked for, until that succeeds, and from then on it is the same. Questions for
other names make no difference. -/
theorem answerAfter_spec (c : Catalog) (files : Files) (acts : List Act) (name : String) :
    (c.get? name = none → c.answerAfter files acts name = .error (.skillNotFound name)) ∧
    (∀ s path, c.get? name = some s → s.prompt = .file path →
      ((∀ earlier later p, acts = earlier ++ .ask name :: later →
          c.answerAfter files earlier name ≠ .ok p) →
        c.answerAfter files acts name =
          match Act.textAfter files acts path with
          | none => .error (.config s!"load prompt of {name}: read {path}")
          | some text => .ok (Text.trim (match Document.parse? text with
            | some doc => doc.body
            | none => text))) ∧
      ∀ earlier later p, acts = earlier ++ .ask name :: later →
        c.answerAfter files earlier name = .ok p → c.answerAfter files acts name = .ok p) ∧
    c.answerAfter files (acts.filter (Act.concerns name)) name = c.answerAfter files acts name := by
  refine ⟨fun hnone => ?_, fun s path hskill hprompt => ⟨fun hnever => ?_, ?_⟩, ?_⟩
  · rw [answerAfter, Moment.answer_of_not_kept (Moment.not_kept_after hnone acts), prompt, hnone]
    rfl
  · have hkept : (Moment.after c ⟨files, []⟩ acts).kept.get? name = none := by
      rw [Option.eq_none_iff_forall_ne_some]
      intro p hp
      obtain ⟨earlier, later, hacts, hok⟩ := Moment.kept_after_iff.mp hp
      exact hnever earlier later p hacts hok
    rw [answerAfter, Moment.answer_of_not_kept hkept, prompt_of_file c _ hskill hprompt,
      Moment.files_after]
    rfl
  · rintro earlier later p rfl hok
    exact Moment.answer_of_kept (Moment.kept_after_iff.mpr ⟨earlier, later, rfl, hok⟩)
  · exact (Moment.SameFor.after ⟨rfl, rfl⟩ acts).answer.symm

def sampleWeather : Skill := ⟨"weather", "", [], .file "weather/SKILL.md"⟩

def sampleText : String := "---\nname: weather\n---\n\n你是天气助手。\n"

def sampleActs : List Act :=
  [.ask "weather", .write "weather/SKILL.md" (some sampleText), .ask "chat"]

/-- The question before there is a document is not answered, the one after it is, and so is one
after its end. -/
theorem answerAfter_spec_sample :
    answerAfter ⟨[sampleWeather], "chat"⟩ [] [] "chat" = .error (.skillNotFound "chat") ∧
    answerAfter ⟨[sampleWeather], "chat"⟩ [] [] "weather" =
      .error (.config "load prompt of weather: read weather/SKILL.md") ∧
    answerAfter ⟨[sampleWeather], "chat"⟩ [] sampleActs "weather" = .ok "你是天气助手。" ∧
    answerAfter ⟨[sampleWeather], "chat"⟩ []
      (sampleActs ++ [.ask "weather", .remove "weather/SKILL.md"]) "weather" =
        .ok "你是天气助手。" := by
  have hspec := answerAfter_spec ⟨[sampleWeather], "chat"⟩ []
  have hfirst := ((hspec [] "weather").2.1 sampleWeather _ rfl rfl).1 (by simp)
  have hsecond := ((hspec sampleActs "weather").2.1 sampleWeather _ rfl rfl).1 (by
    rintro (_ | ⟨_, _ | ⟨_, _ | ⟨_, _⟩⟩⟩) later p hacts hok
    all_goals simp [sampleActs] at hacts
    cases hfirst.symm.trans hok)
  have hsecond' : answerAfter ⟨[sampleWeather], "chat"⟩ [] sampleActs "weather" =
      .ok "你是天气助手。" := hsecond.trans (by decide +kernel)
  exact ⟨(hspec [] "chat").1 rfl, hfirst, hsecond',
    ((hspec _ "weather").2.1 sampleWeather _ rfl rfl).2 sampleActs _ _ rfl hsecond'⟩

end Switchboard.Catalog

import Switchboard.Proofs.Oracles
import Switchboard.Proofs.RunOutcomes

/-! Plans that ask the user: the question is put at once, and nothing else of the plan is done. -/
namespace Switchboard

namespace Plan

/-- The steps that a text lists, without their markers. -/
def listed (text : String) : List String := (stepLines text.toList).map String.ofList

def StartsAsk (step : String) : Prop := askWord.toList <+: step.toList

instance (step : String) : Decidable (StartsAsk step) :=
  inferInstanceAs (Decidable (askWord.toList <+: step.toList))

def IsColon (c : Char) : Prop := c = '：' ∨ c = ':'

/-- After a colon, which may follow blanks, comes this text. -/
def Says (rest body : List Char) : Prop :=
  ∃ blanks colon, rest = blanks ++ colon :: body ∧ blanks.all isBlank = true ∧ IsColon colon

/-- What a step asks: the text after the colon, or the standing question if there is no colon or
nothing after it. -/
inductive Asks (step : String) : String → Prop where
  | words {rest body : List Char} : step.toList = askWord.toList ++ rest → Says rest body →
    body.all isBlank = false → Asks step (.ofList (Chars.trim body))
  | standing {rest : List Char} : step.toList = askWord.toList ++ rest →
    (∀ body, Says rest body → body.all isBlank = true) → Asks step defaultQuestion

theorem IsColon.isBlank {c : Char} (h : IsColon c) : isBlank c = false := by
  rcases h with rfl | rfl <;> rfl

/-- The colon is the first thing that is not blank. -/
theorem says_iff {rest body : List Char} :
    Says rest body ↔ ∃ colon, Chars.trimStart rest = colon :: body ∧ IsColon colon := by
  constructor
  · rintro ⟨blanks, colon, rfl, hblanks, hcolon⟩
    exact ⟨colon, by rw [Chars.trimStart_append hblanks, Chars.trimStart_cons hcolon.isBlank],
      hcolon⟩
  · rintro ⟨colon, hrest, hcolon⟩
    obtain ⟨blanks, hblanks, hsplit⟩ := Chars.exists_trimStart rest
    exact ⟨blanks, colon, by rwa [hrest] at hsplit, hblanks, hcolon⟩

theorem Asks.isBlankText {step question : String} (h : Asks step question) :
    Text.isBlankText question = false := by
  cases h with
  | words _ _ hbody =>
    rw [Text.isBlankText, String.toList_ofList, Chars.all_isBlank_trim]
    exact hbody
  | standing => rfl

theorem trimStart_of_mem_listed {text step : String} (h : step ∈ listed text) :
    Chars.trimStart step.toList = step.toList := by
  obtain ⟨line, hline, rfl⟩ := List.mem_map.mp h
  obtain ⟨l, -, hstep⟩ := List.mem_filterMap.mp hline
  rw [String.toList_ofList]
  unfold stepOfLine? at hstep
  dsimp only at hstep
  split at hstep
  · cases hstep
  · split at hstep
    · cases hstep
    · obtain rfl := Option.some.inj hstep
      exact Chars.trimStart_trim _

/-- Both ways to see that a step asks the user agree on the steps of a text. -/
theorem asksUser_iff {text step : String} (h : step ∈ listed text) :
    asksUser step = true ↔ StartsAsk step := by
  rw [asksUser, trimStart_of_mem_listed h]
  exact Chars.isSome_after?

/-- Of a text that lists a step which asks, the first such step is the plan. -/
theorem parse_of_asks {text step : String} {before after : List String}
    (hlisted : listed text = before ++ step :: after) (hbefore : ∀ s ∈ before, ¬ StartsAsk s)
    (hstep : StartsAsk step) : parse text = [step] := by
  have hmem {s : String} (h : s ∈ before ++ step :: after) : s ∈ listed text := hlisted ▸ h
  have hfirst : (before ++ step :: after).find? asksUser = some step := by
    have hnone : before.find? asksUser = none := by
      refine List.find?_eq_none.mpr fun s hs hask => hbefore s hs ?_
      exact (asksUser_iff (hmem (List.mem_append_left _ hs))).mp hask
    have hask := (asksUser_iff (hmem List.mem_append_cons_self)).mpr hstep
    rw [List.find?_append, hnone, Option.none_or, List.find?_cons_of_pos hask]
  change keepQuestion (listed text) = [step]
  rw [hlisted, keepQuestion, hfirst]
  dsimp only
  split
  next => rfl
  next hone =>
    have hlength : (before ++ step :: after).length = 1 := by
      rw [List.length_append, List.length_cons] at hone ⊢
      omega
    obtain ⟨s, hs⟩ := List.length_eq_one_iff.mp hlength
    have hin : step ∈ [s] := hs ▸ List.mem_append_cons_self
    rw [hs, List.mem_singleton.mp hin]

/-- What is read from a step is what it asks, but for the blanks before it. -/
theorem asks_of_question? {step question : String} (h : question? step = some question) :
    Asks (.ofList (Chars.trimStart step.toList)) question := by
  unfold question? at h
  split at h
  next => cases h
  next rest hrest =>
    have hstep : (String.ofList (Chars.trimStart step.toList)).toList = askWord.toList ++ rest :=
      String.toList_ofList.trans (Chars.after?_eq_some.mp hrest)
    obtain rfl := Option.some.inj h
    split
    next c body htrim =>
      split
      next hcolon =>
        have hcolon : IsColon c := by simpa [IsColon] using hcolon
        split
        next hempty =>
          refine .standing hstep fun body' hsays => ?_
          obtain ⟨colon, hsame, -⟩ := says_iff.mp hsays
          obtain ⟨-, rfl⟩ := List.cons.inj (htrim.symm.trans hsame)
          exact Chars.trim_eq_nil.mp (List.isEmpty_iff.mp hempty)
        next hne =>
          refine .words hstep (says_iff.mpr ⟨c, htrim, hcolon⟩) (Bool.eq_false_iff.mpr ?_)
          rwa [Ne, ← Chars.trim_eq_nil, ← List.isEmpty_iff]
      next hno =>
        refine .standing hstep fun body' hsays => ?_
        obtain ⟨colon, hsame, hcolon⟩ := says_iff.mp hsays
        obtain ⟨rfl, -⟩ := List.cons.inj (htrim.symm.trans hsame)
        exact absurd (by simpa [IsColon] using hcolon) hno
    next htrim =>
      refine .standing hstep fun body' hsays => ?_
      obtain ⟨colon, hsame, -⟩ := says_iff.mp hsays
      cases htrim.symm.trans hsame

end Plan

/-- A world for a run with an open listener, in which the prompt of the skill loads and the model
plans in these words. -/
structure Oracle.Plans (w : Oracle) (skill : Skill) (text : String) : Prop where
  answers : w.Answers
  takes : ∀ past event, w past (.emit event) = some true
  stays : ∀ past, w past .isClosed = some false
  loads : ∀ past, ∃ prompt, w past (.prompt skill.name) = some (.ok prompt)
  plans : ∀ past messages, past.completions = [] → w past (.complete messages) = some (.ok text)

namespace Engine
open Plan (Progress)

variable {e : Engine} {skill : Skill} {task text step : String} {asks : Nat} {w : Oracle}
  {before after : List String}

theorem preload_of_plans (hw : w.Plans skill text) (past : Trace) (p : Progress) :
    ∃ (t : Trace) (prompt : String) (tools : List Handle),
      (preload skill p).Run t (.ok (), { p with skillPrompt := prompt, tools }) ∧
      w.Gives past t ∧ t.events = [] ∧ t.completions = [] ∧ t.calls = [] := by
  have hload : (preload skill p).Only (· ≠ .stall) := by
    refine (preload_only skill p).mono ?_
    rintro _ h rfl
    exact h
  obtain ⟨t, ⟨r, p'⟩, hrun, hg⟩ := hw.answers.run hload past
  rcases run_preload hrun with ⟨err, rfl, -, -⟩ | ⟨rfl, prompt, tools, rfl⟩
  · obtain ⟨prompt, hprompt⟩ := hw.loads past
    cases hprompt.symm.trans (Oracle.gives_cons.mp hg).1
  · have hrequests := (preload_only skill p).of_mem hrun
    refine ⟨t, prompt, tools, hrun, hg, events_of_preload hrun,
      List.filterMap_eq_nil_iff.mpr ?_, Trace.calls_of_callsNone ?_⟩
    · rintro ⟨r, answer⟩ hx
      have hr := hrequests _ hx
      cases r <;> first | rfl | exact absurd hr id
    · intro x hx
      have hr := hrequests _ hx
      cases hx : x.1 <;> rw [hx] at hr <;> trivial

/-- How a run answers that has so many questions behind it and comes to this step. -/
structure Replies (e : Engine) (asks : Nat) (step text : String) (o : Outcome) : Prop where
  reply : o.reply = some text
  toolCalls : o.toolCalls = 0
  failed : o.failed = false
  asked : asks < e.limits.maxAsks → Plan.Asks step text ∧ o.asking = true ∧ o.asks = asks + 1
  refused : e.limits.maxAsks ≤ asks → text = apology ∧ o.asking = false ∧ o.asks = asks

theorem Replies.isBlankText {o : Outcome} (h : Replies e asks step text o) :
    Text.isBlankText text = false := by
  rcases Nat.lt_or_ge asks e.limits.maxAsks with hlt | hge
  · exact (h.asked hlt).1.isBlankText
  · rw [(h.refused hge).1]
    decide +kernel

/-- What a run does from its planning on where the plan is a step that asks the user. -/
def asking (messages : List Message) (text step reply : String) : Trace :=
  [.present, .taken (.planning planningNotice), ⟨.complete messages, .ok text⟩,
    .taken (.plan [step]), .present, .present, .taken (.result reply)]

/-- A run whose plan is a step that asks the user answers with the question, or with the apology
once the questions are used up. -/
theorem course_of_asks {p : Progress} (hplan : Plan.parse text = [step])
    (hask : Plan.asksUser step = true)
    (hstart : Chars.trimStart step.toList = step.toList) (hcalls : p.toolCalls = 0) :
    ∃ (t : Trace) (messages : List Message) (reply : String) (o : Outcome),
      Course e skill task .planning p t o ∧ t = asking messages text step reply ∧
        Replies e p.asks step reply o := by
  have hsteps := plan_run task p text
  rw [hplan] at hsteps
  have hcurrent : (p.startPlan [step]).currentStep? = some step := by
    simp [Progress.startPlan, Progress.currentStep?, Progress.currentPlan]
  have hplanning : State.planning ≠ .done := by decide
  have hexecuting : State.executing ≠ .done := by decide
  have hasking : State.askingUser ≠ .done := by decide
  rcases Nat.lt_or_ge p.asks e.limits.maxAsks with hlt | hge
  · obtain ⟨question, hquestion, -⟩ := Plan.question?_of_asksUser hask
    have hreply : questionOf (p.startPlan [step]) = question := by
      rw [questionOf, hcurrent, Option.bind_some, hquestion]
      rfl
    refine ⟨_, _, _, _, .stage hplanning (.planned p hsteps) (.stage hexecuting
      (.questioned _ hcurrent hask) (.stage hasking (.asked _ hlt) (.done _))), rfl, rfl, hcalls,
      rfl, fun _ => ⟨?_, rfl, rfl⟩, fun hge => absurd hlt (Nat.not_lt_of_le hge)⟩
    have hasks := Plan.asks_of_question? hquestion
    rwa [hstart, String.ofList_toList, ← hreply] at hasks
  · exact ⟨_, _, _, _, .stage hplanning (.planned p hsteps) (.stage hexecuting
      (.questioned _ hcurrent hask) (.stage hasking (.refused _ hge) (.done _))), rfl, rfl, hcalls,
      rfl, fun hlt => absurd hlt (Nat.not_lt_of_le hge), fun _ => ⟨rfl, rfl, rfl⟩⟩

theorem gives_asking (hw : w.Plans skill text) {past : Trace} (hpast : past.completions = [])
    (messages : List Message) (step reply : String) :
    w.Gives past (asking messages text step reply) := by
  have hplan : w (past ++ [Exchange.present, .taken (.planning planningNotice)])
      (.complete messages) = some (.ok text) :=
    hw.plans _ messages (by rw [Trace.completions_append, hpast]; rfl)
  simp only [asking, Exchange.present, Exchange.taken, Oracle.gives_cons, Oracle.gives_nil,
    List.append_assoc, List.cons_append, List.nil_append, hw.takes, hw.stays, true_and, and_true]
  exact hplan

/-- Where the model lists a step that asks the user, wherever it stands among the others, the run
tells a plan of the first such step alone and then its question. The model is asked for nothing but
the plan, and no tool is called. Once the questions are used up there is an apology instead. -/
theorem run_asks (hw : w.Plans skill text)
    (hlisted : Plan.listed text = before ++ step :: after)
    (hbefore : ∀ s ∈ before, ¬ Plan.StartsAsk s) (hstep : Plan.StartsAsk step) :
    ∃ (t : Trace) (reply : String) (o : Outcome),
      (run e skill task asks).Run t (.ok o) ∧ w.Gives [] t ∧
      t.events = [.planning planningNotice, .plan [step], .result reply] ∧
      t.completions.length = 1 ∧ t.calls = [] ∧ Text.isBlankText reply = false ∧
      Replies e asks step reply o := by
  have hmem : step ∈ Plan.listed text := hlisted ▸ List.mem_append_cons_self
  have hask := (Plan.asksUser_iff hmem).mpr hstep
  obtain ⟨t, prompt, tools, hload, hg, hevents, hcompletions, hcalls⟩ :=
    preload_of_plans hw [Exchange.present] (.start asks)
  obtain ⟨_, messages, reply, o, hcourse, rfl, hreplies⟩ :=
    course_of_asks (p := { Progress.start asks with skillPrompt := prompt, tools }) (e := e)
      (Plan.parse_of_asks hlisted hbefore hstep) hask (Plan.trimStart_of_mem_listed hmem) rfl
  have hpast : Trace.completions (Exchange.present :: t) = [] := hcompletions
  refine ⟨_, reply, o, run_of_course (.stage nofun (.loaded _ prompt tools hload) hcourse),
    Oracle.gives_cons.mpr ⟨hw.stays [], Oracle.gives_append.mpr
      ⟨hg, gives_asking hw hpast messages step reply⟩⟩, ?_, ?_, ?_, hreplies.isBlankText, hreplies⟩
  · rw [Trace.events_present, Trace.events_append, hevents]
    rfl
  · rw [Trace.completions_present, Trace.completions_append, hcompletions]
    rfl
  · rw [Trace.calls_present, Trace.calls_append, hcalls]
    rfl

/-- A plan with a question for the order's number between two other steps. -/
def orderPlan : String := "1. 查订单\n2. 追问用户 : 订单号\n3. 回复"

theorem run_asks_order : (Oracle.saying orderPlan).Plans sampleSkill orderPlan ∧
    Plan.listed orderPlan = ["查订单"] ++ "追问用户 : 订单号" :: ["回复"] ∧
    (∀ s ∈ ["查订单"], ¬ Plan.StartsAsk s) ∧ Plan.StartsAsk "追问用户 : 订单号" ∧
    ∃ (t : Trace) (reply : String) (o : Outcome),
      (run sampleEngine sampleSkill "t" 0).Run t (.ok o) ∧ (Oracle.saying orderPlan).Gives [] t ∧
      t.events = [.planning planningNotice, .plan ["追问用户 : 订单号"], .result reply] ∧
      t.completions.length = 1 ∧ t.calls = [] ∧ Text.isBlankText reply = false ∧
      Replies sampleEngine 0 "追问用户 : 订单号" reply o := by
  have hw : (Oracle.saying orderPlan).Plans sampleSkill orderPlan :=
    ⟨Oracle.answers_saying _, fun _ _ => rfl, fun _ => rfl, fun _ => ⟨"p", rfl⟩, fun _ _ _ => rfl⟩
  have hlisted : Plan.listed orderPlan = ["查订单"] ++ "追问用户 : 订单号" :: ["回复"] := by
    decide +kernel
  have hbefore : ∀ s ∈ ["查订单"], ¬ Plan.StartsAsk s := by decide
  have hstep : Plan.StartsAsk "追问用户 : 订单号" := by decide
  exact ⟨hw, hlisted, hbefore, hstep, run_asks hw hlisted hbefore hstep⟩

end Engine
end Switchboard

import Switchboard.Proofs.ToolCalls

/-! Which tools a run may call, and with which arguments. -/
namespace Switchboard

namespace Handle

/-- A declared name means a tool of that name, or one whose name ends with an underscore and it. -/
def Named (short : String) (tool : Handle) : Prop :=
  tool.name = short ∨ ('_' :: short.toList) <:+ tool.name.toList

theorem named_of_declared? {short : String} {live : List Handle} {tool : Handle}
    (h : declared? short live = some tool) : tool ∈ live ∧ tool.Named short := by
  unfold declared? at h
  split at h
  next found hfound =>
    cases h
    have hname := List.find?_some hfound
    exact ⟨List.mem_of_find?_eq_some hfound, .inl (of_decide_eq_true hname)⟩
  next =>
    have hname := List.find?_some h
    exact ⟨List.mem_of_find?_eq_some h, .inr (List.isSuffixOf_iff_suffix.mp hname)⟩

def Among (declared : List String) (live : List Handle) (tool : Handle) : Prop :=
  tool ∈ live ∧ ∃ short ∈ declared, tool.Named short

theorem among_resolve (declared : List String) (live : List Handle) :
    ∀ tool ∈ resolve declared live, Among declared live tool := by
  unfold resolve
  refine List.foldlRecOn (motive := fun bound => ∀ tool ∈ bound, Among declared live tool)
    declared _ (List.forall_mem_nil _) fun bound hbound short hshort => ?_
  split
  next found hfound =>
    split
    · exact hbound
    · obtain ⟨hlive, hnamed⟩ := named_of_declared? hfound
      exact List.forall_mem_append.mpr
        ⟨hbound, List.forall_mem_singleton.mpr ⟨hlive, short, hshort, hnamed⟩⟩
  · exact hbound

theorem named_of_called? {name : String} {bound : List Handle} {tool : Handle}
    (h : called? name bound = some tool) :
    tool ∈ bound ∧ (tool.name = name ∨ tool.short = name) := by
  unfold called? at h
  split at h
  next found hfound =>
    cases h
    have hname := List.find?_some hfound
    exact ⟨List.mem_of_find?_eq_some hfound, .inl (of_decide_eq_true hname)⟩
  next =>
    have hname := List.find?_some h
    exact ⟨List.mem_of_find?_eq_some h, .inr (of_decide_eq_true hname)⟩

end Handle

def Exchange.listing? : Exchange → Option (Except ServerError (List Handle))
  | ⟨.allTools, live⟩ => some live
  | _ => none

def Request.ListsNone : Request → Prop
  | .allTools => False
  | _ => True

theorem Exchange.listing?_of_listsNone {x : Exchange} (h : x.1.ListsNone) : x.listing? = none := by
  obtain ⟨r, a⟩ := x
  cases r <;> first | rfl | exact absurd h id

namespace Trace

def listings (t : Trace) : List (Except ServerError (List Handle)) :=
  t.filterMap Exchange.listing?

@[simp] theorem listings_append (t t' : Trace) :
    listings (t ++ t') = listings t ++ listings t' := List.filterMap_append

theorem listings_of_listsNone {t : Trace} (h : ∀ x ∈ t, x.1.ListsNone) : t.listings = [] :=
  List.filterMap_eq_nil_iff.mpr fun x hx => Exchange.listing?_of_listsNone (h x hx)

/-- The model has just asked for the call of this tool with these arguments. -/
def AsksFor (past : Trace) (tool : Handle) (args : Json) : Prop :=
  ∃ messages reply call, past.getLast? = some ⟨.complete messages, .ok reply⟩ ∧
    ToolCall.parse? reply = some call ∧ (tool.name = call.tool ∨ tool.short = call.tool) ∧
      args = call.args

end Trace

namespace Skill

/-- The tool was listed, the only time that the tools were, and the skill declares it. -/
def Allows (skill : Skill) (past : Trace) (tool : Handle) : Prop :=
  ∃ live, past.listings = [.ok live] ∧ tool.Among skill.tools live

/-- The requests that a run of the skill may make after these exchanges: it calls a tool that it is
allowed and the model asked for, and lists the tools once if it declares any. -/
def May (skill : Skill) (past : Trace) : Request → Prop
  | .invoke tool args => skill.Allows past tool ∧ past.AsksFor tool args
  | .allTools => past.listings = [] ∧ skill.tools ≠ []
  | _ => True

variable {skill : Skill} {past t : Trace} {tool : Handle}

theorem Allows.append (h : skill.Allows past tool) (ht : t.listings = []) :
    skill.Allows (past ++ t) tool := by
  obtain ⟨live, hlive, hamong⟩ := h
  refine ⟨live, ?_, hamong⟩
  rw [Trace.listings_append, hlive, ht, List.append_nil]

end Skill

namespace Engine
open Plan (Progress)

variable {e : Engine} {skill : Skill} {task : String} {s s' : State} {p p' : Progress}
  {past t : Trace}

/-- What a run has bound it is allowed. -/
def Binds (skill : Skill) (past : Trace) (p : Progress) : Prop :=
  ∀ tool ∈ p.tools, skill.Allows past tool

theorem Binds.append (h : Binds skill past p) (ht : t.listings = []) (hp : p'.tools = p.tools) :
    Binds skill (past ++ t) p' := fun tool hm => (h tool (hp ▸ hm)).append ht

/-- A step calls what is bound as the model asks it to. -/
theorem stepFrom_guarded {bound : List Handle} {maxRounds patience calls : Nat}
    {messages : List Message} (hbound : ∀ tool ∈ bound, skill.Allows past tool) :
    (stepFrom bound maxRounds patience calls messages).Guarded skill.May past := by
  induction patience generalizing calls messages past with
  | zero => exact ⟨trivial, nofun⟩
  | succ patience ih =>
    refine ⟨trivial, fun reply => ?_⟩
    have hasked : ∀ tool ∈ bound, skill.Allows (past ++ [⟨.complete messages, reply⟩]) tool :=
      fun tool hm => (hbound tool hm).append rfl
    cases reply with
    | error err => trivial
    | ok reply =>
      dsimp only [Program.bind]
      split
      · trivial
      · split
        · trivial
        next call hcall =>
          split
          next tool htool =>
            obtain ⟨hmem, hnamed⟩ := Handle.named_of_called? htool
            refine ⟨⟨hasked tool hmem, messages, reply, call, List.getLast?_concat, hcall, hnamed,
              rfl⟩, fun out => ih fun tool hm => (hasked tool hm).append rfl⟩
          · exact ih hasked

theorem preload_guarded (hpast : past.listings = []) :
    (preload skill p).Guarded skill.May past := by
  refine ⟨trivial, fun prompt => ?_⟩
  cases prompt with
  | error err => trivial
  | ok prompt =>
    dsimp only
    split
    · trivial
    next htools =>
      refine ⟨⟨?_, by simpa using htools⟩, fun live => by cases live <;> trivial⟩
      rw [Trace.listings_append, hpast]
      rfl

/-- A run that had nothing bound has bound what it is allowed once it is loaded. -/
theorem binds_of_preload {r : Except TurnError Unit} (h : (preload skill p).Run t (r, p'))
    (hpast : past.listings = []) (hp : p.tools = []) : Binds skill (past ++ t) p' := by
  obtain ⟨prompt, t, rfl, hprompt⟩ := Program.run_send.mp h
  cases prompt with
  | error err =>
    obtain ⟨rfl, hr⟩ := Program.run_done.mp hprompt
    cases hr
    rw [Binds, hp]
    exact List.forall_mem_nil _
  | ok prompt =>
    dsimp only at hprompt
    split at hprompt
    · obtain ⟨rfl, hr⟩ := Program.run_done.mp hprompt
      cases hr
      rw [Binds, hp]
      exact List.forall_mem_nil _
    · obtain ⟨live, t, rfl, hlive⟩ := Program.run_send.mp hprompt
      cases live with
      | error err =>
        obtain ⟨rfl, hr⟩ := Program.run_done.mp hlive
        cases hr
        exact List.forall_mem_nil _
      | ok live =>
        obtain ⟨rfl, hr⟩ := Program.run_done.mp hlive
        cases hr
        intro tool hm
        refine ⟨live, ?_, Handle.among_resolve skill.tools live tool hm⟩
        rw [Trace.listings_append, hpast]
        rfl

/-- Only the first stage lists the tools, and only an executing one calls them. -/
theorem transition_guarded (hbinds : Binds skill past p) (hs : s = .preload → past.listings = []) :
    (transition e skill task s p).Guarded skill.May past := by
  by_cases hload : s = .preload
  · subst hload
    refine (preload_guarded (hs rfl)).bind fun t ⟨loaded, q⟩ _ => ?_
    cases loaded <;> trivial
  by_cases hexecuting : s = .executing
  · subst hexecuting
    change (executing e task p).Guarded skill.May past
    unfold executing
    split
    · trivial
    · split
      · trivial
      · refine ⟨trivial, fun taken => ?_⟩
        cases taken with
        | false => trivial
        | true =>
          refine (stepFrom_guarded fun tool hm => (hbinds tool hm).append rfl).bind
            fun t out _ => ⟨trivial, fun taken => ?_⟩
          cases taken <;> trivial
  · have hfree : (transition e skill task s p).Only fun r => ∀ past, skill.May past r := by
      refine transition_only_of (fun _ _ _ => trivial) (fun r hr _ => ?_)
        (fun h => absurd h hload) fun h => absurd h hexecuting
      cases r <;> trivial
    exact hfree.guarded (fun past r h => h past) past

theorem listsNone_of_step {r : Except TurnError State} (h : Step e skill task s p t r p')
    (hs : s ≠ .preload) : ∀ x ∈ t, x.1.ListsNone :=
  (transition_only_of (fun _ _ => trivial) (fun r hr => by cases r <;> trivial)
    (fun hload => absurd hload hs) fun _ r hr => by cases r <;> trivial).of_mem
    (transition_of_step h)

theorem binds_of_step (h : Step e skill task s p t (.ok s') p') (hbinds : Binds skill past p)
    (hs : s = .preload → past.listings = [] ∧ p.tools = []) : Binds skill (past ++ t) p' := by
  by_cases hload : s = .preload
  · obtain ⟨hpast, hp⟩ := hs hload
    subst hload
    cases h with
    | loaded p prompt tools hrun => exact binds_of_preload hrun hpast hp
  · have hnone := Trace.listings_of_listsNone (listsNone_of_step h hload)
    refine hbinds.append hnone ?_
    cases h <;> first | rfl | exact absurd rfl hload

theorem ne_preload_of_step (h : Step e skill task s p t (.ok s') p') : s' ≠ .preload := by
  cases h <;> nofun

theorem fail_guarded (err : TurnError) : (fail err p).Guarded skill.May past := by
  unfold fail
  split
  · trivial
  · refine ⟨trivial, fun taken => ?_⟩
    cases taken <;> trivial

theorem runFrom_guarded (hbinds : Binds skill past p)
    (hs : s = .preload → past.listings = [] ∧ p.tools = []) :
    (runFrom e skill task s p).Guarded skill.May past := by
  induction s, p using stage_induction e skill task generalizing past with
  | done p =>
    rw [runFrom_done]
    trivial
  | stage s p hne ih =>
    rw [runFrom_of_ne hne]
    refine ⟨trivial, fun closed => ?_⟩
    cases closed with
    | true => trivial
    | false =>
      have hbinds : Binds skill (past ++ [.present]) p := hbinds.append rfl rfl
      have hs : s = .preload → Trace.listings (past ++ [.present]) = [] ∧ p.tools = [] := by
        intro hload
        obtain ⟨hpast, hp⟩ := hs hload
        exact ⟨by rw [Trace.listings_append, hpast]; rfl, hp⟩
      refine (transition_guarded hbinds fun h => (hs h).1).bind fun t ⟨next, p'⟩ hrun => ?_
      cases next with
      | error err => exact fail_guarded err
      | ok s' =>
        have hstep := step_of_not_cancelled hrun nofun
        exact ih s' p' hrun.returns (binds_of_step hstep hbinds hs)
          fun hload => absurd hload (ne_preload_of_step hstep)

theorem answerDirectly_guarded (hpast : past.listings = []) :
    (answerDirectly e skill task).Guarded skill.May past := by
  refine (preload_guarded hpast).bind fun t ⟨loaded, p⟩ hload => ?_
  cases loaded with
  | error err => trivial
  | ok u => exact (stepFrom_guarded (binds_of_preload hload hpast rfl)).bind fun _ _ _ => trivial

theorem concludeDirectly_guarded (answered : Except TurnError StepOutput) :
    (concludeDirectly answered).Guarded skill.May past := by
  refine ⟨trivial, fun closed => ?_⟩
  cases closed with
  | true => trivial
  | false => cases answered <;> exact ⟨trivial, fun taken => by cases taken <;> trivial⟩

theorem execute_guarded {asks : Nat} : (e.execute skill task asks).Guarded skill.May [] := by
  unfold execute
  split
  · exact runFrom_guarded (List.forall_mem_nil _) fun _ => ⟨rfl, rfl⟩
  · rw [runDirect_eq]
    exact (answerDirectly_guarded rfl).bind fun _ answered _ => concludeDirectly_guarded answered

end Engine
end Switchboard

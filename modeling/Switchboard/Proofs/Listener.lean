import Switchboard.Proofs.Trace
import Switchboard.Skill.Prompts

/-! What the listener hears of a dialogue, and what is known of the world that answers it. -/
namespace Switchboard

abbrev Exchange := Sigma Request.Answer

/-- The exchanges of a dialogue, oldest first. -/
abbrev Trace := List Exchange

namespace Exchange

def taken (event : Event) : Exchange := ⟨.emit event, true⟩

def present : Exchange := ⟨.isClosed, false⟩

def event? : Exchange → Option Event
  | ⟨.emit event, true⟩ => some event
  | _ => none

def completion? : Exchange → Option (List Message × Except ModelError String)
  | ⟨.complete messages, reply⟩ => some (messages, reply)
  | _ => none

def Attended : Exchange → Prop
  | ⟨.emit _, taken⟩ => taken = true
  | ⟨.isClosed, closed⟩ => closed = false
  | _ => True

/-- A prompt is what the catalog gives for it, with whatever files there are and prompts it kept. -/
def Prompted (c : Catalog) : Exchange → Prop
  | ⟨.prompt skill, answer⟩ => ∃ readFile kept, answer = (c.prompt readFile skill kept).1
  | _ => True

theorem event?_eq_some {x : Exchange} {event : Event} :
    x.event? = some event ↔ x = taken event := by
  constructor
  · intro h
    unfold event? at h
    split at h
    · injection h with h
      rw [h]
      rfl
    · cases h
  · rintro rfl
    rfl

end Exchange

def Request.Quiet : Request → Prop
  | .emit _ => False
  | _ => True

theorem Exchange.event?_of_quiet {x : Exchange} (h : x.1.Quiet) : x.event? = none := by
  obtain ⟨r, a⟩ := x
  cases r <;> first | rfl | exact absurd h id

namespace Trace

/-- The events that the listener took, in order. -/
def events (t : Trace) : List Event := t.filterMap Exchange.event?

def completions (t : Trace) : List (List Message × Except ModelError String) :=
  t.filterMap Exchange.completion?

def Attended (t : Trace) : Prop := ∀ x ∈ t, x.Attended

def Prompted (c : Catalog) (t : Trace) : Prop := ∀ x ∈ t, x.Prompted c

@[simp] theorem events_nil : events [] = [] := rfl

@[simp] theorem events_append (t t' : Trace) : events (t ++ t') = events t ++ events t' :=
  List.filterMap_append

@[simp] theorem events_taken (event : Event) (t : Trace) :
    events (.taken event :: t) = event :: events t := rfl

@[simp] theorem events_present (t : Trace) : events (.present :: t) = events t := rfl

@[simp] theorem completions_append (t t' : Trace) :
    completions (t ++ t') = completions t ++ completions t' := List.filterMap_append

@[simp] theorem completions_taken (event : Event) (t : Trace) :
    completions (.taken event :: t) = completions t := rfl

@[simp] theorem completions_present (t : Trace) :
    completions (.present :: t) = completions t := rfl

theorem events_of_quiet {t : Trace} (h : ∀ x ∈ t, x.1.Quiet) : events t = [] := by
  simpa [events] using fun x hx => Exchange.event?_of_quiet (h x hx)

theorem mem_events {t : Trace} {event : Event} : event ∈ events t ↔ .taken event ∈ t := by
  simp [events, List.mem_filterMap, Exchange.event?_eq_some]

@[simp] theorem attended_nil : Attended [] := List.forall_mem_nil _

@[simp] theorem prompted_nil (c : Catalog) : Prompted c [] := List.forall_mem_nil _

@[simp] theorem attended_append {t t' : Trace} :
    Attended (t ++ t') ↔ Attended t ∧ Attended t' := List.forall_mem_append

@[simp] theorem attended_cons {x : Exchange} {t : Trace} :
    Attended (x :: t) ↔ x.Attended ∧ Attended t := List.forall_mem_cons

@[simp] theorem prompted_append {c : Catalog} {t t' : Trace} :
    Prompted c (t ++ t') ↔ Prompted c t ∧ Prompted c t' := List.forall_mem_append

@[simp] theorem prompted_cons {c : Catalog} {x : Exchange} {t : Trace} :
    Prompted c (x :: t) ↔ x.Prompted c ∧ Prompted c t := List.forall_mem_cons

end Trace

/-- A catalog never takes a prompt for cancelled. -/
theorem Catalog.prompt_ne_cancelled (c : Catalog) (readFile : String → Option String)
    (name : String) (kept : Catalog.Prompts) :
    (c.prompt readFile name kept).1 ≠ .error .cancelled := by
  unfold Catalog.prompt
  split
  · simp
  · split
    · simp
    next s _ =>
      have h : loadPrompt readFile s ≠ .error .cancelled := by
        unfold loadPrompt
        split <;> (try split) <;> simp
      split <;> simp_all

namespace Dialogue

variable {α : Type} {t : Trace}

theorem run_emit {event : Event} {f : Bool → Dialogue α} {a : α}
    (h : (Dialogue.emit event >>= f).Run t a) (ha : t.Attended) :
    ∃ t' : Trace, t = .taken event :: t' ∧ (f true).Run t' a ∧ t'.Attended := by
  obtain ⟨taken, t', rfl, hf⟩ := Program.run_ask.mp h
  obtain ⟨htaken, ha'⟩ := Trace.attended_cons.mp ha
  cases htaken
  exact ⟨t', rfl, hf, ha'⟩

theorem after_emit {event : Event} {f : Bool → Dialogue α} {left : Dialogue α}
    (h : (Dialogue.emit event >>= f).After t left) (ha : t.Attended) :
    (t = [] ∧ ¬ left.IsDone) ∨
      ∃ t' : Trace, t = .taken event :: t' ∧ (f true).After t' left ∧ t'.Attended := by
  rcases Program.after_ask.mp h with ⟨rfl, rfl⟩ | ⟨taken, t', rfl, hf⟩
  · exact .inl ⟨rfl, id⟩
  · obtain ⟨htaken, ha'⟩ := Trace.attended_cons.mp ha
    cases htaken
    exact .inr ⟨t', rfl, hf, ha'⟩

theorem run_isClosed {f : Bool → Dialogue α} {a : α}
    (h : (Dialogue.isClosed >>= f).Run t a) (ha : t.Attended) :
    ∃ t' : Trace, t = .present :: t' ∧ (f false).Run t' a ∧ t'.Attended := by
  obtain ⟨closed, t', rfl, hf⟩ := Program.run_ask.mp h
  obtain ⟨hclosed, ha'⟩ := Trace.attended_cons.mp ha
  cases hclosed
  exact ⟨t', rfl, hf, ha'⟩

theorem events_of_only_quiet {d left : Dialogue α} (hd : d.Only Request.Quiet)
    (h : d.After t left) : t.events = [] := Trace.events_of_quiet (hd.of_mem h)

end Dialogue
end Switchboard

import Switchboard.Proofs.Requests

/-! Worlds that answer by themselves, from all that was asked and answered before. -/
namespace Switchboard

/-- The answer to a request after such exchanges; none if there never is one. -/
abbrev Oracle := (past : Trace) → (r : Request) → Option r.Answer

namespace Oracle

variable {α : Type} {w : Oracle} {past t t' : Trace}

/-- The exchanges are as the oracle answers after those before. -/
def Gives (w : Oracle) : (past : Trace) → Trace → Prop
  | _, [] => True
  | past, x :: t => w past x.1 = some x.2 ∧ w.Gives (past ++ [x]) t

@[simp] theorem gives_nil (w : Oracle) (past : Trace) : w.Gives past [] := trivial

@[simp] theorem gives_cons {x : Exchange} :
    w.Gives past (x :: t) ↔ w past x.1 = some x.2 ∧ w.Gives (past ++ [x]) t := Iff.rfl

@[simp] theorem gives_append :
    w.Gives past (t ++ t') ↔ w.Gives past t ∧ w.Gives (past ++ t) t' := by
  induction t generalizing past with
  | nil => simp
  | cons x t ih => simp only [List.cons_append, gives_cons, ih, and_assoc, List.append_assoc,
      List.nil_append]

theorem gives_concat {x : Exchange} :
    w.Gives past (t ++ [x]) ↔ w.Gives past t ∧ w (past ++ t) x.1 = some x.2 := by
  rw [gives_append, gives_cons]
  exact and_congr_right fun _ => and_iff_left trivial

theorem Gives.eq_of_run {d : Dialogue α} {a a' : α} (hg : w.Gives past t) (h : d.Run t a)
    (hg' : w.Gives past t') (h' : d.Run t' a') : t = t' ∧ a = a' := by
  induction d generalizing past t t' with
  | done b =>
    obtain ⟨rfl, rfl⟩ := Program.run_done.mp h
    obtain ⟨rfl, rfl⟩ := Program.run_done.mp h'
    exact ⟨rfl, rfl⟩
  | ask r next ih =>
    obtain ⟨x, t, rfl, hnext⟩ := Program.run_ask.mp h
    obtain ⟨y, t', rfl, hnext'⟩ := Program.run_ask.mp h'
    obtain ⟨hx, hg⟩ := gives_cons.mp hg
    obtain ⟨hy, hg'⟩ := gives_cons.mp hg'
    have heq : x = y := Option.some.inj (hx.symm.trans hy)
    subst heq
    obtain ⟨rfl, rfl⟩ := ih x hg hnext hg' hnext'
    exact ⟨rfl, rfl⟩

/-- With one oracle a dialogue that comes to its end comes nowhere else. -/
theorem Gives.run_of_after {d left : Dialogue α} {a : α} (hg : w.Gives past t) (h : d.Run t a)
    (hg' : w.Gives past t') (h' : d.After t' left) : ∃ t'', left.Run t'' a := by
  induction d generalizing past t t' with
  | done b =>
    obtain ⟨rfl, rfl⟩ := Program.after_done.mp h'
    exact ⟨t, h⟩
  | ask r next ih =>
    rcases Program.after_ask.mp h' with ⟨rfl, rfl⟩ | ⟨y, t', rfl, hnext'⟩
    · exact ⟨t, h⟩
    · obtain ⟨x, t, rfl, hnext⟩ := Program.run_ask.mp h
      obtain ⟨hx, hg⟩ := gives_cons.mp hg
      obtain ⟨hy, hg'⟩ := gives_cons.mp hg'
      obtain rfl : x = y := Option.some.inj (hx.symm.trans hy)
      exact ih x hg hnext hg' hnext'

/-- Where it is answered like this the dialogue has no end. -/
def Endless (w : Oracle) (past : Trace) (d : Dialogue α) : Prop :=
  ∀ t a, w.Gives past t → ¬ d.Run t a

theorem Endless.ask {r : Request} {next : r.Answer → Dialogue α} {x : r.Answer}
    (hx : w past r = some x) (h : Endless w (past ++ [⟨r, x⟩]) (next x)) :
    Endless w past (Program.ask r next) := by
  intro t a hg hrun
  obtain ⟨y, t, rfl, hnext⟩ := Program.run_ask.mp hrun
  obtain ⟨hy, hg⟩ := gives_cons.mp hg
  obtain rfl : x = y := Option.some.inj (hx.symm.trans hy)
  exact h t a hg hnext

theorem Endless.bind {β : Type} {d : Dialogue α} (h : Endless w past d) (f : α → Dialogue β) :
    Endless w past (d >>= f) := by
  intro t b hg hrun
  obtain ⟨t₁, a, t₂, rfl, hfirst, -⟩ := Program.run_bind.mp hrun
  exact h t₁ a (gives_append.mp hg).1 hfirst

/-- A dialogue has no end if its first part ends and the rest does not. -/
theorem Endless.of_run {β : Type} {d : Dialogue α} {a : α} {f : α → Dialogue β} (hd : d.Run t a)
    (hg : w.Gives past t) (h : Endless w (past ++ t) (f a)) : Endless w past (d >>= f) := by
  intro t' b hg' hrun
  obtain ⟨t₁, a', t₂, rfl, hfirst, hrest⟩ := Program.run_bind.mp hrun
  obtain ⟨hg₁, hg₂⟩ := gives_append.mp hg'
  obtain ⟨rfl, rfl⟩ := hg.eq_of_run hd hg₁ hfirst
  exact h t₂ b hg₂ hrest

/-- Every request is answered that can be. -/
def Answers (w : Oracle) : Prop := ∀ past r, r ≠ .stall → (w past r).isSome

/-- Such a world brings every dialogue to its end that does not stall. -/
theorem Answers.run (hw : w.Answers) {d : Dialogue α} (hd : d.Only (· ≠ .stall)) (past : Trace) :
    ∃ t a, d.Run t a ∧ w.Gives past t := by
  induction d generalizing past with
  | done a => exact ⟨[], a, .here _, trivial⟩
  | ask r next ih =>
    obtain ⟨x, hx⟩ := Option.isSome_iff_exists.mp (hw past r hd.1)
    obtain ⟨t, a, hrun, hg⟩ := ih x (hd.2 x) (past ++ [⟨r, x⟩])
    exact ⟨⟨r, x⟩ :: t, a, .ask x hrun, hx, hg⟩

/-- Where every request is answered that can be, a dialogue ends or comes to stall. -/
theorem Answers.run_or_stall (hw : w.Answers) (d : Dialogue α) (past : Trace) :
    (∃ t a, d.Run t a ∧ w.Gives past t) ∨
      ∃ (t : Trace) (next : Empty → Dialogue α), d.After t (.ask .stall next) ∧ w.Gives past t := by
  induction d generalizing past with
  | done a => exact .inl ⟨[], a, .here _, gives_nil ..⟩
  | ask r next ih =>
    by_cases hr : r = .stall
    · subst hr
      exact .inr ⟨[], next, .here _, gives_nil ..⟩
    · obtain ⟨x, hx⟩ := Option.isSome_iff_exists.mp (hw past r hr)
      rcases ih x (past ++ [⟨r, x⟩]) with ⟨t, a, hrun, hg⟩ | ⟨t, left, hafter, hg⟩
      · exact .inl ⟨⟨r, x⟩ :: t, a, .ask x hrun, hx, hg⟩
      · exact .inr ⟨⟨r, x⟩ :: t, left, .ask x hafter, hx, hg⟩

end Oracle

def Request.toListener : Request → Bool
  | .emit _ | .isClosed => true
  | _ => false

def Trace.work (t : Trace) : Trace := t.filter fun x => !x.1.toListener

theorem Trace.work_append (t t' : Trace) : work (t ++ t') = work t ++ work t' :=
  List.filter_append ..

namespace Oracle

variable {script : Oracle} {stays stays' : Trace → Bool} {past t : Trace}

/-- The script answers by what was exchanged with the others, and there is a listener as long as one
stays. -/
def heardBy (script : Oracle) (stays : Trace → Bool) : Oracle
  | past, .emit _ => some (stays past)
  | past, .isClosed => some !(stays past)
  | past, r => script past.work r

theorem heardBy_of_not_toListener {r : Request} (h : r.toListener = false)
    (stays : Trace → Bool) (past : Trace) :
    script.heardBy stays past r = script past.work r := by
  cases r <;> first | rfl | cases h

/-- It makes no difference whether a listener stays who is not met. -/
theorem Gives.of_stays (h : (script.heardBy stays).Gives past t)
    (hstays : ∀ before x after, t = before ++ x :: after → x.1.toListener = true →
      stays (past ++ before) = stays' (past ++ before)) :
    (script.heardBy stays').Gives past t := by
  induction t generalizing past with
  | nil => trivial
  | cons x t ih =>
    obtain ⟨hx, ht⟩ := gives_cons.mp h
    refine gives_cons.mpr ⟨?_, ih ht fun before y after heq hy => ?_⟩
    · cases hmeets : x.1.toListener with
      | false =>
        rw [heardBy_of_not_toListener hmeets] at hx ⊢
        exact hx
      | true =>
        have hsame := hstays [] x t rfl hmeets
        rw [List.append_nil] at hsame
        obtain ⟨r, answer⟩ := x
        cases r with
        | emit event =>
          change some (stays' past) = _
          rw [← hsame]
          exact hx
        | isClosed =>
          change some (!stays' past) = _
          rw [← hsame]
          exact hx
        | _ => cases hmeets
    · have hsame := hstays (x :: before) y after (by rw [heq, List.cons_append]) hy
      rwa [List.append_cons] at hsame

theorem attended_of_gives (h : (script.heardBy fun _ => true).Gives past t) : t.Attended := by
  induction t generalizing past with
  | nil => exact Trace.attended_nil
  | cons x t ih =>
    obtain ⟨hx, ht⟩ := gives_cons.mp h
    refine Trace.attended_cons.mpr ⟨?_, ih ht⟩
    obtain ⟨r, answer⟩ := x
    cases r with
    | emit event => exact (Option.some.inj hx).symm
    | isClosed => exact (Option.some.inj hx).symm
    | _ => trivial

/-- Where no listener is any more it is found to have left. -/
theorem heardBy_of_left {x : Exchange} (hx : ¬ x.Attended) (hstays : stays past = false) :
    script.heardBy stays past x.1 = some x.2 := by
  obtain ⟨r, answer⟩ := x
  cases r with
  | emit event =>
    cases answer with
    | true => exact absurd rfl hx
    | false => exact congrArg some hstays
  | isClosed =>
    cases answer with
    | true => exact congrArg (fun stays => some !stays) hstays
    | false => exact absurd rfl hx
  | _ => exact absurd trivial hx

/-- A world in which the model always says this, and all else succeeds. -/
def saying (reply : String) : Oracle
  | _, .complete _ => some (.ok reply)
  | _, .embed _ => some (.ok [])
  | _, .prompt _ => some (.ok "p")
  | _, .allTools => some (.ok [])
  | _, .invoke .. => some (.ok "")
  | _, .emit _ => some true
  | _, .isClosed => some false
  | _, .readMemory _ => some (.ok [])
  | _, .appendMemory .. => some (.ok ())
  | _, .getPending _ => some (.ok [])
  | _, .replacePending .. => some (.ok ())
  | _, .clearPending _ => some (.ok ())
  | _, .askStreak .. => some (.ok 0)
  | _, .setAskStreak .. => some (.ok ())
  | _, .clearAskStreaks _ => some (.ok ())
  | _, .stall => none

theorem answers_saying (reply : String) : (saying reply).Answers := by
  intro past r hr
  cases r <;> first | rfl | exact absurd rfl hr

end Oracle
end Switchboard

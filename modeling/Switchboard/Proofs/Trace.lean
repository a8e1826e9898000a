import Switchboard.Dialogue

/-! Traces: what a program asked and what it was answered, oldest first. Every way in which a world
may answer is a trace of its own, so what holds of all traces holds in every world. -/
namespace Switchboard

namespace Program

variable {Op : Type} {Ans : Op → Type} {α β : Type}

/-- With these requests and answers the program has come to the point where the other is left. -/
inductive After : Program Op Ans α → List (Sigma Ans) → Program Op Ans α → Prop where
  | here (p : Program Op Ans α) : After p [] p
  | ask {op : Op} {next : Ans op → Program Op Ans α} (x : Ans op) {t : List (Sigma Ans)}
    {left : Program Op Ans α} : After (next x) t left → After (.ask op next) (⟨op, x⟩ :: t) left

/-- With these requests and answers the program finishes with the value. -/
def Run (p : Program Op Ans α) (t : List (Sigma Ans)) (a : α) : Prop := p.After t (.done a)

def IsDone : Program Op Ans α → Prop
  | done _ => True
  | ask _ _ => False

def value? : Program Op Ans α → Option α
  | done a => some a
  | ask _ _ => none

theorem value?_of_not_isDone {p : Program Op Ans α} (h : ¬ p.IsDone) : p.value? = none := by
  cases p with
  | done a => exact absurd trivial h
  | ask op next => rfl

theorem not_isDone_of_value? {p : Program Op Ans α} (h : p.value? = none) : ¬ p.IsDone := by
  cases p with
  | done a => cases h
  | ask op next => exact id

theorem eq_done_of_value? {p : Program Op Ans α} {a : α} (h : p.value? = some a) : p = done a := by
  cases p with
  | done b => rw [Option.some.inj h]
  | ask op next => cases h

theorem not_isDone_bind {p : Program Op Ans α} {f : α → Program Op Ans β} (h : ¬ p.IsDone) :
    ¬ (p >>= f).IsDone := by
  cases p with
  | done a => exact absurd trivial h
  | ask op next => exact id

@[simp] theorem after_done {a : α} {t : List (Sigma Ans)} {left : Program Op Ans α} :
    (done a).After t left ↔ t = [] ∧ left = done a := by
  constructor
  · intro h; cases h; exact ⟨rfl, rfl⟩
  · rintro ⟨rfl, rfl⟩; exact .here _

theorem after_ask {op : Op} {next : Ans op → Program Op Ans α} {t : List (Sigma Ans)}
    {left : Program Op Ans α} :
    (ask op next).After t left ↔
      (t = [] ∧ left = ask op next) ∨ ∃ x t', t = ⟨op, x⟩ :: t' ∧ (next x).After t' left := by
  constructor
  · intro h
    cases h with
    | here => exact .inl ⟨rfl, rfl⟩
    | ask x h => exact .inr ⟨x, _, rfl, h⟩
  · rintro (⟨rfl, rfl⟩ | ⟨x, t', rfl, h⟩)
    · exact .here _
    · exact .ask x h

@[simp] theorem run_done {a b : α} {t : List (Sigma Ans)} :
    (done a : Program Op Ans α).Run t b ↔ t = [] ∧ b = a := by
  simp [Run]

@[simp] theorem run_ask {op : Op} {next : Ans op → Program Op Ans α} {t : List (Sigma Ans)}
    {a : α} : (ask op next).Run t a ↔ ∃ x t', t = ⟨op, x⟩ :: t' ∧ (next x).Run t' a := by
  simp [Run, after_ask]

theorem run_send {op : Op} {f : Ans op → Program Op Ans β} {t : List (Sigma Ans)} {b : β} :
    (send op >>= f).Run t b ↔ ∃ x t', t = ⟨op, x⟩ :: t' ∧ (f x).Run t' b := run_ask

/-- A program stops within its first part, or that part finishes and the rest goes on from its
value. -/
theorem after_bind {p : Program Op Ans α} {f : α → Program Op Ans β} {t : List (Sigma Ans)}
    {left : Program Op Ans β} :
    (p >>= f).After t left ↔
      (∃ p', p.After t p' ∧ ¬ p'.IsDone ∧ left = p' >>= f) ∨
        ∃ t₁ a t₂, t = t₁ ++ t₂ ∧ p.Run t₁ a ∧ (f a).After t₂ left := by
  induction p generalizing t with
  | done a =>
    constructor
    · exact fun h => .inr ⟨[], a, t, rfl, .here _, h⟩
    · rintro (⟨p', hp, hd, -⟩ | ⟨t₁, b, t₂, rfl, hp, hf⟩)
      · obtain ⟨-, rfl⟩ := after_done.mp hp
        exact absurd trivial hd
      · obtain ⟨rfl, rfl⟩ := run_done.mp hp
        exact hf
  | ask op next ih =>
    rw [ask_bind, after_ask]
    constructor
    · rintro (⟨rfl, rfl⟩ | ⟨x, t', rfl, h⟩)
      · exact .inl ⟨_, .here _, id, rfl⟩
      · rcases (ih x).mp h with ⟨p', hp, hd, hl⟩ | ⟨t₁, a, t₂, rfl, hp, hf⟩
        · exact .inl ⟨p', .ask x hp, hd, hl⟩
        · exact .inr ⟨⟨op, x⟩ :: t₁, a, t₂, rfl, .ask x hp, hf⟩
    · rintro (⟨p', hp, hd, rfl⟩ | ⟨t₁, a, t₂, rfl, hp, hf⟩)
      · rcases after_ask.mp hp with ⟨rfl, rfl⟩ | ⟨x, t', rfl, hx⟩
        · exact .inl ⟨rfl, rfl⟩
        · exact .inr ⟨x, t', rfl, (ih x).mpr (.inl ⟨p', hx, hd, rfl⟩)⟩
      · obtain ⟨x, t', rfl, hx⟩ := run_ask.mp hp
        exact .inr ⟨x, t' ++ t₂, rfl, (ih x).mpr (.inr ⟨t', a, t₂, rfl, hx, hf⟩)⟩

@[simp] theorem run_bind {p : Program Op Ans α} {f : α → Program Op Ans β} {t : List (Sigma Ans)}
    {b : β} : (p >>= f).Run t b ↔ ∃ t₁ a t₂, t = t₁ ++ t₂ ∧ p.Run t₁ a ∧ (f a).Run t₂ b := by
  unfold Run
  rw [after_bind]
  constructor
  · rintro (⟨p', -, hd, hl⟩ | h)
    · cases p' with
      | done a => exact absurd trivial hd
      | ask op next => cases hl
    · exact h
  · exact .inr

theorem Run.bind_after {p : Program Op Ans α} {f : α → Program Op Ans β} {t t' : List (Sigma Ans)}
    {a : α} {left : Program Op Ans β} (h : p.Run t a) (h' : (f a).After t' left) :
    (p >>= f).After (t ++ t') left :=
  after_bind.mpr (.inr ⟨t, a, t', rfl, h, h'⟩)

theorem Run.bind {p : Program Op Ans α} {f : α → Program Op Ans β} {t t' : List (Sigma Ans)}
    {a : α} {b : β} (h : p.Run t a) (h' : (f a).Run t' b) : (p >>= f).Run (t ++ t') b :=
  h.bind_after h'

theorem Run.after_bind {p : Program Op Ans α} {f : α → Program Op Ans β} {t : List (Sigma Ans)}
    {a : α} (h : p.Run t a) : (p >>= f).After t (f a) := by
  have hbind := h.bind_after (.here (f a))
  rwa [List.append_nil] at hbind

theorem exists_run_bind {p : Program Op Ans α} {f : α → Program Op Ans β} {t t' : List (Sigma Ans)}
    {a : α} (h : p.Run t a) (h' : ∃ b, (f a).Run t' b) : ∃ b, (p >>= f).Run (t ++ t') b :=
  h'.imp fun _ => h.bind

theorem exists_run_send {op : Op} {f : Ans op → Program Op Ans β} {t : List (Sigma Ans)}
    {x : Ans op} (h : ∃ b, (f x).Run t b) : ∃ b, (send op >>= f).Run (⟨op, x⟩ :: t) b :=
  h.imp fun _ hb => run_send.mpr ⟨x, t, rfl, hb⟩

theorem After.append {p left left' : Program Op Ans α} {t t' : List (Sigma Ans)}
    (h : p.After t left) (h' : left.After t' left') : p.After (t ++ t') left' := by
  induction h with
  | here => exact h'
  | ask x _ ih => exact .ask x (ih h')

theorem after_append {p left : Program Op Ans α} {t t' : List (Sigma Ans)} :
    p.After (t ++ t') left ↔ ∃ mid, p.After t mid ∧ mid.After t' left := by
  constructor
  · intro h
    induction t generalizing p with
    | nil => exact ⟨p, .here _, h⟩
    | cons x t ih =>
      cases h with
      | ask y h =>
        obtain ⟨mid, hmid, hleft⟩ := ih h
        exact ⟨mid, .ask y hmid, hleft⟩
  · rintro ⟨mid, hmid, hleft⟩
    exact hmid.append hleft

/-- What is left of a program goes on where it stands. -/
theorem After.run {p left : Program Op Ans α} {t t' : List (Sigma Ans)} {a : α}
    (h : p.After t left) (hrun : p.Run (t ++ t') a) : left.Run t' a := by
  induction h with
  | here => exact hrun
  | @ask op next x t left _ ih =>
    obtain ⟨y, t₁, ht, hrest⟩ := run_ask.mp hrun
    cases ht
    exact ih hrest

theorem Run.returns {p : Program Op Ans α} {t : List (Sigma Ans)} {a : α} (h : p.Run t a) :
    p.Returns a := by
  induction p generalizing t with
  | done b => rw [(run_done.mp h).2]; exact .done b
  | ask op next ih =>
    obtain ⟨x, t', -, h⟩ := run_ask.mp h
    exact .ask x (ih x h)

theorem Returns.run {p : Program Op Ans α} {a : α} (h : p.Returns a) : ∃ t, p.Run t a := by
  induction h with
  | done a => exact ⟨[], .here _⟩
  | ask x _ ih =>
    obtain ⟨t, hrun⟩ := ih
    exact ⟨_, .ask x hrun⟩

/-- The program makes no other requests than these. -/
def Only (P : Op → Prop) : Program Op Ans α → Prop
  | done _ => True
  | ask op next => P op ∧ ∀ x, (next x).Only P

theorem Only.bind {P : Op → Prop} {p : Program Op Ans α} {f : α → Program Op Ans β}
    (hp : p.Only P) (hf : ∀ a, p.Returns a → (f a).Only P) : (p >>= f).Only P := by
  induction p with
  | done a => exact hf a (.done a)
  | ask op next ih => exact ⟨hp.1, fun x => ih x (hp.2 x) fun a h => hf a (.ask x h)⟩

theorem Only.mono {P Q : Op → Prop} {p : Program Op Ans α} (hp : p.Only P)
    (h : ∀ op, P op → Q op) : p.Only Q := by
  induction p with
  | done a => trivial
  | ask op next ih => exact ⟨h op hp.1, fun x => ih x (hp.2 x)⟩

theorem Only.of_mem {P : Op → Prop} {p left : Program Op Ans α} {t : List (Sigma Ans)}
    (hp : p.Only P) (h : p.After t left) : ∀ x ∈ t, P x.1 := by
  induction h with
  | here => simp
  | ask x _ ih =>
    rintro y (_ | ⟨_, hy⟩)
    · exact hp.1
    · exact ih (hp.2 x) y hy

/-- Each request of the program is one that may follow the exchanges before it. -/
def Guarded (may : List (Sigma Ans) → Op → Prop) :
    Program Op Ans α → (past : List (Sigma Ans)) → Prop
  | done _, _ => True
  | ask op next, past => may past op ∧ ∀ x, (next x).Guarded may (past ++ [⟨op, x⟩])

theorem Guarded.bind {may : List (Sigma Ans) → Op → Prop} {p : Program Op Ans α}
    {f : α → Program Op Ans β} {past : List (Sigma Ans)} (hp : p.Guarded may past)
    (hf : ∀ t a, p.Run t a → (f a).Guarded may (past ++ t)) : (p >>= f).Guarded may past := by
  induction p generalizing past with
  | done a =>
    have h := hf [] a (.here _)
    rwa [List.append_nil] at h
  | ask op next ih =>
    refine ⟨hp.1, fun x => ih x (hp.2 x) fun t a h => ?_⟩
    have hnext := hf (⟨op, x⟩ :: t) a (.ask x h)
    rwa [List.append_cons] at hnext

theorem Only.guarded {P : Op → Prop} {may : List (Sigma Ans) → Op → Prop} {p : Program Op Ans α}
    (hp : p.Only P) (h : ∀ past op, P op → may past op) (past : List (Sigma Ans)) :
    p.Guarded may past := by
  induction p generalizing past with
  | done a => trivial
  | ask op next ih => exact ⟨h past op hp.1, fun x => ih x (hp.2 x) _⟩

theorem Guarded.of_after {may : List (Sigma Ans) → Op → Prop} {p left : Program Op Ans α}
    {past t before after : List (Sigma Ans)} {x : Sigma Ans} (hp : p.Guarded may past)
    (h : p.After t left) (ht : t = before ++ x :: after) : may (past ++ before) x.1 := by
  induction h generalizing past before with
  | here => cases before <;> cases ht
  | @ask op next y t left _ ih =>
    cases before with
    | nil =>
      cases ht
      rw [List.append_nil]
      exact hp.1
    | cons z before =>
      cases ht
      rw [List.append_cons]
      exact ih (hp.2 y) rfl

section
variable {σ : Type} {spends : σ → Sigma Ans → σ → Prop}

/-- Whatever it is answered, the program can pay for each exchange out of an account, and it returns
only where the rest is as stated. -/
def Within (spends : σ → Sigma Ans → σ → Prop) (rest : α → σ → Prop) :
    Program Op Ans α → (account : σ) → Prop
  | done a, account => rest a account
  | ask op next, account => ∀ x, ∃ left, spends account ⟨op, x⟩ left ∧ (next x).Within spends rest left

theorem Within.bind {p : Program Op Ans α} {f : α → Program Op Ans β} {mid : α → σ → Prop}
    {rest : β → σ → Prop} {account : σ} (hp : p.Within spends mid account)
    (hf : ∀ a left, p.Returns a → mid a left → (f a).Within spends rest left) :
    (p >>= f).Within spends rest account := by
  induction p generalizing account with
  | done a => exact hf a account (.done a) hp
  | ask op next ih =>
    intro x
    obtain ⟨left, hspends, hnext⟩ := hp x
    exact ⟨left, hspends, ih x hnext fun a left h => hf a left (.ask x h)⟩

theorem Within.of_only {P : Op → Prop} {p : Program Op Ans α} {rest : α → σ → Prop} {account : σ}
    (hp : p.Only P) (hfree : ∀ op x, P op → spends account ⟨op, x⟩ account)
    (hrest : ∀ a, p.Returns a → rest a account) : p.Within spends rest account := by
  induction p with
  | done a => exact hrest a (.done a)
  | ask op next ih =>
    exact fun x => ⟨account, hfree op x hp.1, ih x (hp.2 x) fun a h => hrest a (.ask x h)⟩

/-- What holds of no exchanges, and of more if it holds with what the first of them leaves, holds of
all that the program exchanges. -/
theorem Within.of_after {rest : α → σ → Prop} {kept : σ → List (Sigma Ans) → Prop}
    {p left : Program Op Ans α} {t : List (Sigma Ans)} {account : σ}
    (hp : p.Within spends rest account) (h : p.After t left) (hnil : ∀ account, kept account [])
    (hcons : ∀ account x left t, spends account x left → kept left t → kept account (x :: t)) :
    kept account t := by
  induction h generalizing account with
  | here => exact hnil account
  | ask x _ ih =>
    obtain ⟨left, hspends, hnext⟩ := hp x
    exact hcons account _ left _ hspends (ih hnext)

end
end Program
end Switchboard

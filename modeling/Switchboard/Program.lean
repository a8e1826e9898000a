/-! Programs that ask: a finished value, or a request and what follows each answer to it. What the
world does is left to whoever answers. -/
namespace Switchboard

inductive Program (Op : Type) (Ans : Op → Type) (α : Type) where
  | done (a : α)
  | ask (op : Op) (next : Ans op → Program Op Ans α)

namespace Program

variable {Op : Type} {Ans : Op → Type} {α β γ : Type}

protected def bind : Program Op Ans α → (α → Program Op Ans β) → Program Op Ans β
  | done a, f => f a
  | ask op next, f => ask op fun x => (next x).bind f

instance : Monad (Program Op Ans) where
  pure := done
  bind := Program.bind

/-- The request by itself. -/
def send (op : Op) : Program Op Ans (Ans op) := ask op done

@[simp] theorem pure_eq (a : α) : (pure a : Program Op Ans α) = done a := rfl

@[simp] theorem done_bind (a : α) (f : α → Program Op Ans β) : (done a >>= f) = f a := rfl

@[simp] theorem ask_bind (op : Op) (next : Ans op → Program Op Ans α) (f : α → Program Op Ans β) :
    (ask op next >>= f) = ask op fun x => next x >>= f := rfl

@[simp] theorem send_bind (op : Op) (f : Ans op → Program Op Ans β) :
    (send op >>= f) = ask op f := rfl

theorem bind_done (p : Program Op Ans α) : (p >>= done) = p := by
  induction p with
  | done a => rfl
  | ask op next ih => rw [ask_bind]; congr; funext x; exact ih x

theorem bind_assoc (p : Program Op Ans α) (f : α → Program Op Ans β) (g : β → Program Op Ans γ) :
    (p >>= f) >>= g = p >>= fun a => f a >>= g := by
  induction p with
  | done a => rfl
  | ask op next ih => simp only [ask_bind]; congr; funext x; exact ih x

instance : LawfulMonad (Program Op Ans) :=
  LawfulMonad.mk' _ (fun p => bind_done p) (fun _ _ => rfl) (fun p f g => bind_assoc p f g)

/-- The program can finish with the value, given the right answers. -/
inductive Returns : Program Op Ans α → α → Prop where
  | done (a : α) : Returns (.done a) a
  | ask {op : Op} {next : Ans op → Program Op Ans α} (x : Ans op) {a : α} :
    Returns (next x) a → Returns (.ask op next) a

@[simp] theorem returns_done {a b : α} : (done a : Program Op Ans α).Returns b ↔ b = a :=
  ⟨fun h => by cases h; rfl, fun h => h ▸ .done a⟩

@[simp] theorem returns_ask {op : Op} {next : Ans op → Program Op Ans α} {b : α} :
    (ask op next).Returns b ↔ ∃ x, (next x).Returns b :=
  ⟨fun h => by cases h with | ask x h => exact ⟨x, h⟩, fun ⟨x, h⟩ => .ask x h⟩

@[simp] theorem returns_bind {p : Program Op Ans α} {f : α → Program Op Ans β} {b : β} :
    (p >>= f).Returns b ↔ ∃ a, p.Returns a ∧ (f a).Returns b := by
  induction p with
  | done a => simp
  | ask op next ih =>
    simp only [ask_bind, returns_ask, ih]
    exact ⟨fun ⟨x, a, h, h'⟩ => ⟨a, ⟨x, h⟩, h'⟩, fun ⟨a, ⟨x, h⟩, h'⟩ => ⟨x, a, h, h'⟩⟩

/-- Goes on from a value that the program is known to return. -/
def bindReturned : (p : Program Op Ans α) → ((a : α) → p.Returns a → Program Op Ans β) →
    Program Op Ans β
  | .done a, f => f a (.done a)
  | .ask op next, f => .ask op fun x => (next x).bindReturned fun a h => f a (.ask x h)

theorem bindReturned_eq (p : Program Op Ans α) (f : α → Program Op Ans β) :
    (p.bindReturned fun a _ => f a) = p >>= f := by
  induction p with
  | done a => rfl
  | ask op next ih => simp only [bindReturned, ask_bind]; congr; funext x; exact ih x

/-- Answers the requests of a program one after the other. -/
def interpret {m : Type → Type} [Monad m] (answer : (op : Op) → m (Ans op)) :
    Program Op Ans α → m α
  | .done a => pure a
  | .ask op next => do
    let x ← answer op
    (next x).interpret answer

end Program
end Switchboard

import Switchboard.Proofs.Trace
import Switchboard.Server.Pool

/-! What the pool exchanges with the servers, and the table that keeps step with it. -/
namespace Switchboard.Pool

abbrev Exchange := Sigma Request.Answer

abbrev Trace := List Exchange

def Timed.value? {α : Type} : Timed α → Option α
  | some (.ok a) => some a
  | _ => none

def Request.isContact : Request → Bool
  | connect .. | list .. | call .. | close _ => true
  | readTable | setEntry .. | audit _ => false

def Exchange.opened? : Exchange → Option Session
  | ⟨.connect .., x⟩ => x.value?
  | _ => none

/-- The session that is closed in an exchange, whether or not that succeeds. -/
def Exchange.closed? : Exchange → Option Session
  | ⟨.close s, _⟩ => some s
  | _ => none

namespace Trace

def contacts (tr : Trace) : Trace := tr.filter (·.1.isContact)

def opened (tr : Trace) : List Session := tr.filterMap Exchange.opened?

def closed (tr : Trace) : List Session := tr.filterMap Exchange.closed?

@[simp] theorem opened_append (tr tr' : Trace) : opened (tr ++ tr') = opened tr ++ opened tr' :=
  List.filterMap_append

@[simp] theorem closed_append (tr tr' : Trace) : closed (tr ++ tr') = closed tr ++ closed tr' :=
  List.filterMap_append

end Trace

namespace Table

def after (t : Table) : Request → Table
  | .setEntry name c => Dict.put name c t
  | _ => t

def Shows (t : Table) : Exchange → Prop
  | ⟨.readTable, shown⟩ => shown = t
  | _ => True

/-- Gives a server the place, if it is to have one. -/
def settle (name : String) (place : Option Connection) (t : Table) : Table :=
  match place with
  | none => t
  | some c => Dict.put name c t

variable {t : Table} {name name' : String} {place : Option Connection}

theorem get?_settle_self (h : place = none → t.get? name = none) :
    (settle name place t).get? name = place := by
  cases place with
  | none => exact h rfl
  | some c => exact Dict.get?_put_self name c t

theorem get?_settle_of_ne (h : name' ≠ name) (place : Option Connection) :
    (settle name place t).get? name' = t.get? name' := by
  cases place with
  | none => rfl
  | some c => exact Dict.get?_put_of_ne h c t

theorem settle_get? (t : Table) (name : String) : settle name (t.get? name) t = t := by
  cases h : t.get? name with
  | none => rfl
  | some c => exact Dict.put_get? h

/-- Only the last place that a server is given counts. -/
theorem put_settle (name : String) (place : Option Connection) (c : Connection) (t : Table) :
    Dict.put name c (settle name place t) = Dict.put name c t := by
  cases place with
  | none => rfl
  | some b => exact Dict.put_put name b c t

end Table

/-- The table keeps step with the work from its beginning to its end. -/
inductive Serve : Table → Trace → Table → Prop where
  | nil (t : Table) : Serve t [] t
  | cons {t t' : Table} {x : Exchange} {tr : Trace} : t.Shows x → Serve (t.after x.1) tr t' →
    Serve t (x :: tr) t'

section
variable {t t' : Table} {tr tr' : Trace}

@[simp] theorem serve_nil : Serve t [] t' ↔ t' = t :=
  ⟨fun h => by cases h; rfl, fun h => h ▸ .nil t⟩

@[simp] theorem serve_cons {x : Exchange} :
    Serve t (x :: tr) t' ↔ t.Shows x ∧ Serve (t.after x.1) tr t' :=
  ⟨fun h => by cases h with | cons hx h => exact ⟨hx, h⟩, fun h => .cons h.1 h.2⟩

theorem serve_append : Serve t (tr ++ tr') t' ↔ ∃ t₁, Serve t tr t₁ ∧ Serve t₁ tr' t' := by
  induction tr generalizing t with
  | nil => simp
  | cons x tr ih => simp [ih, and_assoc]

end

/-- The work can be done with these exchanges with the servers; it takes the first table to the
second and gives the value. -/
def Leads {α : Type} (w : Work α) (t : Table) (cs : Trace) (a : α) (t' : Table) : Prop :=
  ∃ tr : Trace, w.Run tr a ∧ Serve t tr t' ∧ tr.contacts = cs

section
variable {α β : Type} {t t' : Table} {cs : Trace} {a b : α}

@[simp] theorem leads_done : Leads (.done a) t cs b t' ↔ cs = [] ∧ b = a ∧ t' = t := by
  constructor
  · rintro ⟨tr, hrun, hserve, rfl⟩
    obtain ⟨rfl, hb⟩ := Program.run_done.mp hrun
    exact ⟨rfl, hb, serve_nil.mp hserve⟩
  · rintro ⟨rfl, rfl, rfl⟩
    exact ⟨[], .here _, .nil _, rfl⟩

theorem leads_bind {w : Work α} {f : α → Work β} {b : β} :
    Leads (w >>= f) t cs b t' ↔
      ∃ cs₁ a t₁ cs₂, cs = cs₁ ++ cs₂ ∧ Leads w t cs₁ a t₁ ∧ Leads (f a) t₁ cs₂ b t' := by
  constructor
  · rintro ⟨tr, hrun, hserve, rfl⟩
    obtain ⟨tr₁, a, tr₂, rfl, hw, hf⟩ := Program.run_bind.mp hrun
    obtain ⟨t₁, h₁, h₂⟩ := serve_append.mp hserve
    exact ⟨_, a, t₁, _, List.filter_append _ _, ⟨tr₁, hw, h₁, rfl⟩, tr₂, hf, h₂, rfl⟩
  · rintro ⟨-, a, t₁, -, rfl, ⟨tr₁, hw, h₁, rfl⟩, tr₂, hf, h₂, rfl⟩
    exact ⟨tr₁ ++ tr₂, hw.bind hf,
      serve_append.mpr ⟨t₁, h₁, h₂⟩, List.filter_append _ _⟩

theorem leads_bind_pure {w : Work α} {f : α → β} {b : β} :
    Leads (w >>= fun a => pure (f a)) t cs b t' ↔ ∃ a, Leads w t cs a t' ∧ b = f a := by
  rw [leads_bind]
  simp only [Program.pure_eq, leads_done]
  constructor
  · rintro ⟨cs₁, a, t₁, -, rfl, h, rfl, rfl, rfl⟩
    rw [List.append_nil]
    exact ⟨a, h, rfl⟩
  · rintro ⟨a, h, rfl⟩
    exact ⟨cs, a, t', [], (List.append_nil cs).symm, h, rfl, rfl, rfl⟩

theorem leads_contact {r : Request} (hr : r.isContact = true) {next : r.Answer → Work α} :
    Leads (.ask r next) t cs a t' ↔ ∃ x cs', cs = ⟨r, x⟩ :: cs' ∧ Leads (next x) t cs' a t' := by
  have hshows (x : r.Answer) : t.Shows ⟨r, x⟩ := by cases r <;> trivial
  have hafter : t.after r = t := by cases r <;> first | rfl | cases hr
  constructor
  · rintro ⟨tr, hrun, hserve, rfl⟩
    obtain ⟨x, tr', rfl, hnext⟩ := Program.run_ask.mp hrun
    obtain ⟨-, hserve⟩ := serve_cons.mp hserve
    rw [hafter] at hserve
    exact ⟨x, _, List.filter_cons_of_pos hr, tr', hnext, hserve, rfl⟩
  · rintro ⟨x, -, rfl, tr', hnext, hserve, rfl⟩
    exact ⟨⟨r, x⟩ :: tr', .ask x hnext, .cons (hshows x) (by rwa [hafter]),
      List.filter_cons_of_pos hr⟩

theorem leads_inner {r : Request} (hr : r.isContact = false) {next : r.Answer → Work α} :
    Leads (.ask r next) t cs a t' ↔
      ∃ x, t.Shows ⟨r, x⟩ ∧ Leads (next x) (t.after r) cs a t' := by
  have hcontacts (x : r.Answer) (tr : Trace) :
      Trace.contacts (⟨r, x⟩ :: tr) = tr.contacts :=
    List.filter_cons_of_neg (by simp [hr])
  constructor
  · rintro ⟨tr, hrun, hserve, rfl⟩
    obtain ⟨x, tr', rfl, hnext⟩ := Program.run_ask.mp hrun
    obtain ⟨hx, hserve⟩ := serve_cons.mp hserve
    exact ⟨x, hx, tr', hnext, hserve, (hcontacts x tr').symm⟩
  · rintro ⟨x, hx, tr', hnext, hserve, rfl⟩
    exact ⟨⟨r, x⟩ :: tr', .ask x hnext, .cons hx hserve, hcontacts x tr'⟩

@[simp] theorem leads_readTable {next : Table → Work α} :
    Leads (.ask .readTable next) t cs a t' ↔ Leads (next t) t cs a t' :=
  (leads_inner rfl).trans ⟨fun ⟨_, hx, h⟩ => hx ▸ h, fun h => ⟨t, rfl, h⟩⟩

theorem leads_readTable_bind {next : Table → Work α} :
    Leads (Request.readTable.send >>= next) t cs a t' ↔ Leads (next t) t cs a t' :=
  leads_readTable

@[simp] theorem leads_setEntry {name : String} {c : Connection} {next : Unit → Work α} :
    Leads (.ask (.setEntry name c) next) t cs a t' ↔
      Leads (next ()) (Dict.put name c t) cs a t' :=
  (leads_inner rfl).trans ⟨fun ⟨_, _, h⟩ => h, fun h => ⟨(), trivial, h⟩⟩

@[simp] theorem leads_audit {entry : Audit} {next : Unit → Work α} :
    Leads (.ask (.audit entry) next) t cs a t' ↔ Leads (next ()) t cs a t' :=
  (leads_inner rfl).trans ⟨fun ⟨_, _, h⟩ => h, fun h => ⟨(), trivial, h⟩⟩

@[simp] theorem leads_connect {url : String} {limit : Nat} {next : Timed Session → Work α} :
    Leads (.ask (.connect url limit) next) t cs a t' ↔
      ∃ x cs', cs = ⟨.connect url limit, x⟩ :: cs' ∧ Leads (next x) t cs' a t' :=
  leads_contact rfl

@[simp] theorem leads_list {s : Session} {limit : Nat} {next : Timed (List ListedTool) → Work α} :
    Leads (.ask (.list s limit) next) t cs a t' ↔
      ∃ x cs', cs = ⟨.list s limit, x⟩ :: cs' ∧ Leads (next x) t cs' a t' :=
  leads_contact rfl

@[simp] theorem leads_call {s : Session} {tool : String} {args : Json} {limit : Nat}
    {next : Timed String → Work α} :
    Leads (.ask (.call s tool args limit) next) t cs a t' ↔
      ∃ x cs', cs = ⟨.call s tool args limit, x⟩ :: cs' ∧ Leads (next x) t cs' a t' :=
  leads_contact rfl

@[simp] theorem leads_close {s : Session} {next : Except ServerError Unit → Work α} :
    Leads (.ask (.close s) next) t cs a t' ↔
      ∃ x cs', cs = ⟨.close s, x⟩ :: cs' ∧ Leads (next x) t cs' a t' :=
  leads_contact rfl

end

def closing (place : Option Connection) (answer : Except ServerError Unit) : Trace :=
  match place.bind (·.session) with
  | none => []
  | some s => [⟨.close s, answer⟩]

def Connection.to (url : String) (session : Session) : Connection := ⟨url, true, some session⟩

/-- The place of a server that was disconnected and then asked for a session. -/
def renewed (url : String) (place : Option Connection) : Option Session → Option Connection
  | none => place.map Connection.dropped
  | some session => some (.to url session)

/-- What comes of asking for a session. -/
def connected (p : Pool) (s : ServerConfig) : Timed Session → Except ServerError Unit
  | none => .error (.timeout s.name p.requestLimit)
  | some (.error e) => .error (.connect s.name e.message)
  | some (.ok _) => .ok ()

def inSession {α : Type} (name : String) (f : Session → Work (Except ServerError α)) :
    Work (Except ServerError α) := do
  match sessionOf? (← Request.readTable.send) name with
  | none => return .error (.notConnected name)
  | some s => f s

/-- Lists the tools of a server in the session that the table has for it. -/
def fetchHeld (p : Pool) (name : String) : Work (Except ServerError (List Handle)) :=
  inSession name (p.fetch name)

def retry (p : Pool) (name : String) (e : ServerError) :
    Work (Except ServerError (List Handle)) := do
  if !(← reconnect p name) then return .error e
  fetchHeld p name

def fetched (p : Pool) (name : String) : Timed (List ListedTool) → Except ServerError (List Handle)
  | none => .error (.timeout name p.fetchLimit)
  | some (.error e) => .error e
  | some (.ok tools) => .ok (tools.map (Handle.ofListed name))

def called (p : Pool) (tool : Handle) : Timed String → Except ServerError String
  | none => .error (.timeout tool.server p.requestLimit)
  | some result => result

def callIn (p : Pool) (tool : Handle) (args : Json) (s : Session) :
    Work (Except ServerError String) := do
  let answer ← (Request.call s tool.name args p.requestLimit).send
  let verdict := match answer with
    | none => Verdict.timeout
    | some (.ok _) => .ok
    | some (.error _) => .error
  (Request.audit ⟨tool.name, tool.server, verdict, argsPreview args⟩).send
  return p.called tool answer

theorem fetch_eq (p : Pool) (name : String) (s : Session) :
    p.fetch name s = (Request.list s p.fetchLimit).send >>= fun x => pure (p.fetched name x) := by
  unfold fetch
  congr 1
  funext x
  rcases x with _ | (e | tools) <;> rfl

theorem leads_inSession {α : Type} {f : Session → Work (Except ServerError α)} {name : String}
    {t t' : Table} {cs : Trace} {result : Except ServerError α} :
    Leads (inSession name f) t cs result t' ↔
      (sessionOf? t name = none ∧ cs = [] ∧ result = .error (.notConnected name) ∧ t' = t) ∨
        ∃ s, sessionOf? t name = some s ∧ Leads (f s) t cs result t' := by
  unfold inSession
  rw [leads_readTable_bind]
  cases sessionOf? t name with
  | none => simp
  | some s => simp

theorem inSession_only {α : Type} {P : Request → Prop} {f : Session → Work (Except ServerError α)}
    (hread : P .readTable) (hf : ∀ s, (f s).Only P) (name : String) :
    (inSession name f).Only P := by
  refine Program.Only.bind ⟨hread, fun _ => trivial⟩ fun t _ => ?_
  cases sessionOf? t name with
  | none => trivial
  | some s => exact hf s

theorem retry_eq (p : Pool) (name : String) (e : ServerError) :
    p.retry name e = p.reconnect name >>= fun made => match made with
      | false => pure (.error e)
      | true => p.fetchHeld name := by
  unfold retry
  congr 1
  funext made
  cases made <;> rfl

theorem fetchOrRetry_eq (p : Pool) (name : String) :
    p.fetchOrRetry name = p.fetchHeld name >>= fun first => match first with
      | .ok tools => pure (.ok tools)
      | .error e => p.retry name e := by
  unfold fetchOrRetry fetchHeld inSession
  rw [bind_assoc]
  congr 1
  funext t
  cases sessionOf? t name <;> rfl

theorem call_eq (p : Pool) (tool : Handle) (args : Json) :
    p.call tool args = if p.servers.any (·.name = tool.server) then
      inSession tool.server (p.callIn tool args)
    else pure (.error (.unknownServer tool.server)) := by
  unfold call
  cases p.servers.any (·.name = tool.server) with
  | false => rfl
  | true =>
    simp only [Bool.not_true, Bool.false_eq_true, if_false, if_true]
    congr 1
    funext t
    cases sessionOf? t tool.server with
    | none => rfl
    | some s =>
      dsimp only [inSession, callIn]
      congr 1
      funext answer
      cases answer <;> rfl

inductive Op where
  | connectAll
  | reconnect (name : String)
  | reconnectAll
  | tools
  | call (tool : Handle) (args : Json)
  | shutdown

def Op.work (p : Pool) : Op → Work Unit
  | connectAll => p.connectAll
  | reconnect name => discard (p.reconnect name)
  | reconnectAll => discard p.reconnectAll
  | tools => discard p.allTools
  | call tool args => discard (p.call tool args)
  | shutdown => p.shutdown

def perform (p : Pool) (ops : List Op) : Work Unit := ops.forM (Op.work p)

/-- The configured server of the name; the first of several counts. -/
def server? (p : Pool) (name : String) : Option ServerConfig := p.servers.find? (·.name = name)

section
variable {p : Pool} {t t' : Table} {cs : Trace} {name : String} {s : ServerConfig}

theorem name_of_server? (h : p.server? name = some s) : s.name = name := by
  simpa using List.find?_some h

theorem mem_names {name : String} : name ∈ p.names ↔ ∃ s, p.server? name = some s := by
  rw [← Option.isSome_iff_exists, server?, List.find?_isSome, names]
  simp

theorem leads_disconnect {u : Unit} : Leads (disconnect name) t cs u t' ↔
    t' = t.settle name ((t.get? name).map Connection.dropped) ∧
      ∃ y, cs = closing (t.get? name) y := by
  unfold disconnect Request.send
  simp only [Program.send_bind, leads_readTable]
  cases t.get? name with
  | none => simp [closing, Table.settle, and_comm]
  | some c =>
    cases hc : c.session with
    | none => simp [closing, Table.settle, hc, and_comm]
    | some session =>
      simp only [hc, leads_setEntry, leads_close, Program.pure_eq, leads_done]
      have hclosing (y : Except ServerError Unit) :
          closing (some c) y = [⟨.close session, y⟩] := by
        simp [closing, hc]
      constructor
      · rintro ⟨y, -, rfl, rfl, -, rfl⟩
        exact ⟨rfl, y, (hclosing y).symm⟩
      · rintro ⟨rfl, y, rfl⟩
        exact ⟨y, [], hclosing y, rfl, trivial, rfl⟩

theorem leads_connect_bind {α : Type} {f : Except ServerError Unit → Work α} {a : α} :
    Leads (p.connect s >>= f) t cs a t' ↔ ∃ x cs',
      cs = ⟨.connect s.url p.requestLimit, x⟩ :: cs' ∧
        Leads (f (connected p s x)) (t.settle s.name (x.value?.map (Connection.to s.url))) cs' a t'
    := by
  unfold connect Request.send
  simp only [Program.send_bind, Program.ask_bind, leads_connect]
  refine exists_congr fun x => exists_congr fun cs' => and_congr_right fun _ => ?_
  rcases x with _ | (e | session)
  · rfl
  · rfl
  · exact leads_setEntry

/-- A server that is dropped and then connected has the place that it was last given. -/
theorem settle_renewed (url : String) (place : Option Connection) (session? : Option Session) :
    (t.settle name (place.map Connection.dropped)).settle name
        (session?.map (Connection.to url)) =
      t.settle name (renewed url place session?) := by
  cases session? with
  | none => rfl
  | some session => exact Table.put_settle name _ _ t

theorem reconnect_eq (hs : p.server? name = some s) :
    p.reconnect name = disconnect name >>= fun _ =>
      p.connect s >>= fun made => pure made.isOk := by
  have hfound : p.servers.find? (·.name = name) = some s := hs
  simp only [reconnect, hfound]
  congr 1
  funext _
  congr 1
  funext made
  cases made <;> rfl

theorem isOk_connected (p : Pool) (s : ServerConfig) (x : Timed Session) :
    (connected p s x).isOk = x.value?.isSome := by
  rcases x with _ | (e | session) <;> rfl

theorem leads_reconnect {b : Bool} (hs : p.server? name = some s) :
    Leads (p.reconnect name) t cs b t' ↔ ∃ y x,
      cs = closing (t.get? name) y ++ [⟨.connect s.url p.requestLimit, x⟩] ∧
        b = x.value?.isSome ∧
        t' = t.settle name (renewed s.url (t.get? name) x.value?) := by
  have hname : s.name = name := name_of_server? hs
  simp only [reconnect_eq hs, leads_bind (w := disconnect name), leads_disconnect]
  constructor
  · rintro ⟨-, -, -, cs', rfl, ⟨rfl, y, rfl⟩, h⟩
    obtain ⟨x, cs₂, rfl, hx⟩ := leads_connect_bind.mp h
    obtain ⟨rfl, hb, rfl⟩ := leads_done.mp hx
    rw [hname, settle_renewed]
    exact ⟨y, x, rfl, hb.trans (isOk_connected p s x), rfl⟩
  · rintro ⟨y, x, rfl, hb, rfl⟩
    refine ⟨_, (), _, _, rfl, ⟨rfl, y, rfl⟩, leads_connect_bind.mpr ⟨x, [], rfl, ?_⟩⟩
    rw [hname, settle_renewed]
    exact leads_done.mpr ⟨rfl, hb.trans (isOk_connected p s x).symm, rfl⟩

theorem leads_reconnect_of_notMem {b : Bool} (h : name ∉ p.names) :
    Leads (p.reconnect name) t cs b t' ↔ cs = [] ∧ b = false ∧ t' = t := by
  have hnone : p.servers.find? (·.name = name) = none := by
    cases hs : p.server? name with
    | none => exact hs
    | some s => exact absurd (mem_names.mpr ⟨s, hs⟩) h
  simp [reconnect, hnone]

end

/-- A property that work has if its parts have it. -/
structure Sequential (P : {α : Type} → Work α → Prop) : Prop where
  pure : ∀ {α : Type} (a : α), P (Pure.pure a : Work α)
  bind : ∀ {α β : Type} {w : Work α} {f : α → Work β}, P w → (∀ a, P (f a)) → P (w >>= f)

namespace Sequential

variable {P : {α : Type} → Work α → Prop} {p : Pool} {α β : Type}

theorem forM (h : Sequential P) {l : List β} {f : β → Work Unit} (hf : ∀ b ∈ l, P (f b)) :
    P (l.forM f) := by
  induction l with
  | nil => exact h.pure ()
  | cons b l ih =>
    obtain ⟨hb, hl⟩ := List.forall_mem_cons.mp hf
    exact h.bind hb fun _ => ih hl

theorem mapM (h : Sequential P) {l : List β} {f : β → Work α} (hf : ∀ b ∈ l, P (f b)) :
    P (l.mapM f) := by
  induction l with
  | nil => exact h.pure []
  | cons b l ih =>
    obtain ⟨hb, hl⟩ := List.forall_mem_cons.mp hf
    rw [List.mapM_cons]
    exact h.bind hb fun _ => h.bind (ih hl) fun _ => h.pure _

theorem reconnect (h : Sequential P) (hd : ∀ name, P (disconnect name))
    (hc : ∀ s ∈ p.servers, P (p.connect s)) (name : String) : P (p.reconnect name) := by
  unfold Pool.reconnect
  cases hs : p.servers.find? (·.name = name) with
  | none => exact h.pure false
  | some s =>
    refine h.bind (hd name) fun _ => h.bind (hc s (List.mem_of_find?_eq_some hs)) fun made => ?_
    cases made with
    | ok => exact h.pure true
    | error => exact h.pure false

theorem connectAll (h : Sequential P) (hc : ∀ s ∈ p.servers, P (p.connect s)) :
    P p.connectAll := h.forM fun s hs => h.bind (hc s hs) fun _ => h.pure ()

theorem retry (h : Sequential P) (hr : ∀ name, P (p.reconnect name))
    (hf : ∀ name, P (p.fetchHeld name)) (name : String) (e : ServerError) :
    P (p.retry name e) := by
  rw [retry_eq]
  refine h.bind (hr name) fun made => ?_
  cases made with
  | false => exact h.pure _
  | true => exact hf name

theorem allTools (h : Sequential P) (hr : ∀ name, P (p.reconnect name))
    (hf : ∀ name, P (p.fetchHeld name)) : P p.allTools := by
  have hasked (name : String) : P (p.fetchOrRetry name) := by
    rw [fetchOrRetry_eq]
    refine h.bind (hf name) fun first => ?_
    cases first with
    | ok tools => exact h.pure _
    | error e => exact h.retry hr hf name e
  refine h.bind (h.mapM fun name _ => ?_) fun _ => h.pure _
  exact h.bind (hasked name) fun _ => h.pure _

/-- All operations but the connecting of all servers are put together of four parts. -/
theorem work (h : Sequential P) (hd : ∀ name, P (disconnect name))
    (hr : ∀ name, P (p.reconnect name)) (hf : ∀ name, P (p.fetchHeld name))
    (hcall : ∀ tool args, P (p.call tool args)) {op : Op}
    (hall : op = .connectAll → P p.connectAll) : P (op.work p) := by
  cases op with
  | connectAll => exact hall rfl
  | reconnect name => exact h.bind (hr name) fun _ => h.pure ()
  | reconnectAll =>
    refine h.bind (h.mapM fun name _ => ?_) fun _ => h.pure ()
    exact h.bind (hr name) fun _ => h.pure _
  | tools => exact h.bind (h.allTools hr hf) fun _ => h.pure ()
  | call tool args => exact h.bind (hcall tool args) fun _ => h.pure ()
  | shutdown => exact h.forM fun name _ => hd name

end Sequential

end Switchboard.Pool

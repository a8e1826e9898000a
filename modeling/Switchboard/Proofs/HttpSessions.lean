import Mathlib.Data.List.Nodup
import Switchboard.Proofs.Trace
import Switchboard.Server.HttpSession

/-! What a session over HTTP sends while it lives: the numbers of its requests and the name that
stands in them. -/
namespace Switchboard.HttpSession

inductive Act where
  | connect
  | list
  | call (tool : String) (args : Json)
  | close

abbrev Exchange := Sigma fun _ : Http.Request => Except Http.Failure Http.Reply

abbrev Exchanges := List Exchange

abbrev History := List (Act × Exchanges)

/-- An act turns one session into the other with these exchanges, whatever comes of it. -/
inductive Act.Runs : Act → HttpSession → Exchanges → HttpSession → Prop where
  | list {s s' : HttpSession} {t : Exchanges} {r : Except ServerError (List ListedTool)} :
    s.listTools.Run t (r, s') → Runs .list s t s'
  | call {tool : String} {args : Json} {s s' : HttpSession} {t : Exchanges}
    {r : Except ServerError String} :
    (s.callTool tool args).Run t (r, s') → Runs (.call tool args) s t s'
  | close {s s' : HttpSession} {t : Exchanges} {r : Except ServerError Unit} :
    s.close.Run t (r, s') → Runs .close s t s'

/-- A session is connected, and then used and closed in any order. -/
inductive Life (url : String) : History → HttpSession → Prop where
  | connect {t : Exchanges} {r : Except ServerError Unit} {s : HttpSession} :
    (HttpSession.connect url).Run t (r, s) → Life url [(.connect, t)] s
  | act {past : History} {s s' : HttpSession} {a : Act} {t : Exchanges} :
    Life url past s → a.Runs s t s' → Life url (past ++ [(a, t)]) s'

def posted (url : String) (name : Option String) (body : Rpc.Request) : Http.Request :=
  { method := .post, url, accept := some accepted, session := name, body := some body.toJson }

def nameIn : Except Http.Failure Http.Reply → Option String
  | .error _ => none
  | .ok reply => reply.session.filter isReadable

/-- Only in replies to posts names are given. -/
def given (x : Exchange) : Option String := if x.1.method = .post then nameIn x.2 else none

/-- The name that was given last in a reply to a post. -/
def nameOf (t : Exchanges) : Option String := (t.filterMap given).getLast?

def Act.asks : Act → Bool
  | .close => false
  | _ => true

def asked (past : History) : Nat := past.countP (·.1.asks)

/-- What was exchanged since the session was last closed. -/
def current (past : History) : Exchanges :=
  past.foldl (fun t p => if p.1.asks then t ++ p.2 else []) []

/-- The numbers that the requests carry. -/
def numbers (t : Exchanges) : List Json := t.filterMap (·.1.body.bind (Json.get? "id"))

/-- The reply answers the request with a number: it reports no failure, and has a result. -/
def Answers (id : Option Nat) : Except Http.Failure Http.Reply → Prop
  | .error _ => False
  | .ok reply => reply.isSuccess = true ∧
    ((responseOf id reply).bind Rpc.Response.outcome).isOk = true

/-- What an act sends under the next number, in a session of that name. -/
inductive Act.Sends (url : String) (n : Nat) (name : Option String) : Act → Exchanges → Prop where
  | refused {reply : Except Http.Failure Http.Reply} : ¬ Answers (some n) reply →
    Sends url n name .connect [⟨posted url name (.greeting n clientName), reply⟩]
  | greeted {reply reply' : Except Http.Failure Http.Reply} : Answers (some n) reply →
    Sends url n name .connect [⟨posted url name (.greeting n clientName), reply⟩,
      ⟨posted url ((nameIn reply).or name) .greeted, reply'⟩]
  | list (reply : Except Http.Failure Http.Reply) :
    Sends url n name .list [⟨posted url name (.listTools n), reply⟩]
  | call {tool : String} {args : Json} (reply : Except Http.Failure Http.Reply) :
    Sends url n name (.call tool args) [⟨posted url name (.callTool n tool args), reply⟩]
  | unnamed : name = none → Sends url n name .close []
  | named {id : String} (reply : Except Http.Failure Http.Reply) : name = some id →
    Sends url n name .close [⟨{ method := .delete, url, session := some id }, reply⟩]

/-- What is sent follows the protocol of sessions. -/
structure Orderly (url : String) (past : History) : Prop where
  /-- First the session is connected, under the number one. -/
  connected : ∃ t later, past = (.connect, t) :: later ∧ Act.Sends url 1 none .connect t
  /-- Each act sends what it should, with the next number and the name that was given last. -/
  sends : ∀ earlier a t later, past = earlier ++ (a, t) :: later →
    a.Sends url (asked earlier + 1) (nameOf (current earlier)) t
  /-- A request carries a name if one was given since the last close, and the one given last. -/
  names : ∀ earlier a before x after later, past = earlier ++ (a, before ++ x :: after) :: later →
    x.1.session = nameOf (current earlier ++ before)
  numbers : numbers (past.flatMap (·.2)) = (List.range' 1 (asked past)).map Json.nat
  distinct : (HttpSession.numbers (past.flatMap (·.2))).Nodup
  /-- A session that is closed again at once sends nothing. -/
  closed : ∀ earlier t t' later, past = earlier ++ (.close, t) :: (.close, t') :: later → t' = []

variable {url : String} {past earlier later : History} {s s' : HttpSession} {a : Act}
  {t t' : Exchanges} {n : Nat} {name : Option String}

theorem nameOf_append (t t' : Exchanges) : nameOf (t ++ t') = (nameOf t').or (nameOf t) := by
  rw [nameOf, List.filterMap_append, List.getLast?_append]
  rfl

theorem nameOf_posted (body : Rpc.Request) (reply : Except Http.Failure Http.Reply) :
    nameOf [⟨posted url name body, reply⟩] = nameIn reply := by
  have hgiven : given ⟨posted url name body, reply⟩ = nameIn reply := if_pos rfl
  rw [nameOf, List.filterMap_cons, hgiven]
  cases nameIn reply <;> rfl

theorem get?_id_toJson (r : Rpc.Request) : Json.get? "id" r.toJson = r.id.map Json.nat := by
  have hmethod : "id" ≠ "method" := by decide
  have hversion : "id" ≠ "jsonrpc" := by decide
  have hparams : "id" ≠ "params" := by decide
  obtain ⟨id, method, params⟩ := r
  rw [Rpc.Request.toJson, Json.object, Json.get?, Json.sorted]
  cases id <;> cases params <;>
    simp only [Option.map_none, Option.map_some, Option.toList_none, Option.toList_some,
      List.append_nil, List.cons_append, List.nil_append, List.foldl_cons, List.foldl_nil,
      Json.lookup_insert_self, Json.lookup_insert_of_ne hmethod, Json.lookup_insert_of_ne hversion,
      Json.lookup_insert_of_ne hparams, List.lookup_nil]

/-- What is posted goes out under the name of the session, which then has the name in the reply. -/
theorem run_post {body : Rpc.Request} {r : Except ServerError Http.Reply}
    (h : (post body s).Run t (r, s')) :
    ∃ reply, t = [⟨posted s.endpoint s.id body, reply⟩] ∧
      s' = { s with id := (nameIn reply).or s.id } ∧
      ∀ answer, r = .ok answer ↔ reply = .ok answer ∧ answer.isSuccess = true := by
  obtain ⟨reply, t', rfl, hrest⟩ := Program.run_send.mp h
  refine ⟨reply, ?_⟩
  cases reply with
  | error f =>
    obtain ⟨rfl, hvalue⟩ := Program.run_done.mp hrest
    obtain ⟨rfl, rfl⟩ := Prod.mk.inj hvalue
    exact ⟨rfl, rfl, fun answer => ⟨nofun, fun hok => (nomatch hok.1)⟩⟩
  | ok reply =>
    dsimp only at hrest
    by_cases hsuccess : reply.isSuccess = true
    · rw [if_pos hsuccess] at hrest
      obtain ⟨rfl, hvalue⟩ := Program.run_done.mp hrest
      obtain ⟨rfl, rfl⟩ := Prod.mk.inj hvalue
      refine ⟨rfl, ?_, fun answer => ⟨?_, fun hok => ?_⟩⟩
      · rw [nameIn]
        cases reply.session.filter isReadable <;> rfl
      · rintro ⟨⟩
        exact ⟨rfl, hsuccess⟩
      · rw [Except.ok.inj hok.1]
    · rw [if_neg hsuccess] at hrest
      obtain ⟨rfl, hvalue⟩ := Program.run_done.mp hrest
      obtain ⟨rfl, rfl⟩ := Prod.mk.inj hvalue
      refine ⟨rfl, ?_, fun answer => ⟨nofun, fun hok => ?_⟩⟩
      · rw [nameIn]
        cases reply.session.filter isReadable <;> rfl
      · exact absurd (Except.ok.inj hok.1 ▸ hok.2) hsuccess

theorem exists_run_post (body : Rpc.Request) (s : HttpSession)
    (reply : Except Http.Failure Http.Reply) :
    ∃ p, (post body s).Run [⟨posted s.endpoint s.id body, reply⟩] p := by
  refine Program.exists_run_send ?_
  cases reply with
  | error f => exact ⟨_, .here _⟩
  | ok reply =>
    dsimp only
    cases reply.isSuccess <;> exact ⟨_, .here _⟩

theorem run_request {make : Nat → Rpc.Request} {r : Except ServerError Json}
    (h : (request make s).Run t (r, s')) :
    ∃ reply, t = [⟨posted s.endpoint s.id (make s.nextRequest), reply⟩] ∧
      s' = ⟨s.endpoint, (nameIn reply).or s.id, s.nextRequest + 1⟩ ∧
      (r.isOk = true ↔ Answers (make s.nextRequest).id reply) := by
  obtain ⟨t₁, ⟨posting, s₁⟩, t₂, rfl, hpost, hrest⟩ := Program.run_bind.mp h
  obtain ⟨reply, rfl, rfl, hposting⟩ := run_post hpost
  refine ⟨reply, ?_⟩
  cases posting with
  | error e =>
    obtain ⟨rfl, hvalue⟩ := Program.run_done.mp hrest
    obtain ⟨rfl, rfl⟩ := Prod.mk.inj hvalue
    refine ⟨rfl, rfl, ⟨nofun, fun hanswers => ?_⟩⟩
    cases reply with
    | error f => exact hanswers.elim
    | ok answer => cases (hposting answer).mpr ⟨rfl, hanswers.1⟩
  | ok answer =>
    obtain ⟨rfl, hsuccess⟩ := (hposting answer).mp rfl
    obtain ⟨rfl, hvalue⟩ := Program.run_done.mp hrest
    obtain ⟨rfl, rfl⟩ := Prod.mk.inj hvalue
    exact ⟨rfl, rfl, ⟨fun hv => ⟨hsuccess, hv⟩, fun hanswers => hanswers.2⟩⟩

/-- What is made of the result sends nothing more. -/
theorem run_asking {α : Type} {make : Nat → Rpc.Request}
    {read : After Json → Http.Exchange (After α)} {r : Except ServerError α}
    (h : (request make s >>= read).Run t (r, s')) (hread : ∀ p, ∃ r, read p = .done (r, p.2)) :
    ∃ reply, t = [⟨posted s.endpoint s.id (make s.nextRequest), reply⟩] ∧
      s' = ⟨s.endpoint, (nameOf t).or s.id, s.nextRequest + 1⟩ := by
  obtain ⟨t₁, ⟨result, s₁⟩, t₂, rfl, hrequest, hrest⟩ := Program.run_bind.mp h
  obtain ⟨reply, rfl, rfl, -⟩ := run_request hrequest
  obtain ⟨r, hdone⟩ := hread ⟨result, _⟩
  rw [hdone] at hrest
  obtain ⟨rfl, hvalue⟩ := Program.run_done.mp hrest
  obtain ⟨-, rfl⟩ := Prod.mk.inj hvalue
  exact ⟨reply, List.append_nil _, by rw [List.append_nil, nameOf_posted]⟩

theorem exists_run_request (make : Nat → Rpc.Request) (s : HttpSession)
    (reply : Except Http.Failure Http.Reply) :
    ∃ p, (request make s).Run [⟨posted s.endpoint s.id (make s.nextRequest), reply⟩] p := by
  obtain ⟨⟨r, s'⟩, hpost⟩ :=
    exists_run_post (make s.nextRequest) { s with nextRequest := s.nextRequest + 1 } reply
  refine Program.exists_run_bind hpost ?_
  cases r <;> exact ⟨_, .here _⟩

/-- Connecting greets the server, and tells it that the greeting is over if it was answered. -/
theorem run_connect {r : Except ServerError Unit} (h : (HttpSession.connect url).Run t (r, s)) :
    Act.Sends url 1 none .connect t ∧ s = ⟨url, nameOf t, 2⟩ := by
  obtain ⟨t₁, ⟨greeting, s₁⟩, t₂, rfl, hrequest, hrest⟩ := Program.run_bind.mp h
  obtain ⟨reply, rfl, rfl, hanswers⟩ := run_request hrequest
  cases greeting with
  | error e =>
    obtain ⟨rfl, hvalue⟩ := Program.run_done.mp hrest
    obtain ⟨rfl, rfl⟩ := Prod.mk.inj hvalue
    refine ⟨.refused fun hanswered => ?_, ?_⟩
    · cases hanswers.mpr hanswered
    · rw [List.append_nil, nameOf_posted, Option.or_none]
  | ok v =>
    obtain ⟨t₃, ⟨greeted, s₂⟩, t₄, rfl, hpost, hdone⟩ := Program.run_bind.mp hrest
    obtain ⟨rfl, hvalue⟩ := Program.run_done.mp hdone
    obtain ⟨rfl, rfl⟩ := Prod.mk.inj hvalue
    obtain ⟨reply', rfl, rfl, -⟩ := run_post hpost
    refine ⟨.greeted (hanswers.mp rfl), ?_⟩
    rw [List.append_nil, nameOf_append, nameOf_posted, nameOf_posted, Option.or_none]

theorem exists_run_connect (h : Act.Sends url 1 none .connect t) :
    ∃ p, (HttpSession.connect url).Run t p := by
  have hgreet (reply : Except Http.Failure Http.Reply) :
      ∃ r, (request (Rpc.Request.greeting · clientName) { endpoint := url }).Run
        [⟨posted url none (.greeting 1 clientName), reply⟩] (r, ⟨url, (nameIn reply).or none, 2⟩) ∧
        (r.isOk = true ↔ Answers (some 1) reply) := by
    obtain ⟨⟨r, s⟩, hrequest⟩ :=
      exists_run_request (Rpc.Request.greeting · clientName) { endpoint := url } reply
    obtain ⟨reply', heq, rfl, hanswers⟩ := run_request hrequest
    obtain rfl : reply = reply' := by simpa using heq
    exact ⟨r, hrequest, hanswers⟩
  cases h with
  | @refused reply hrefused =>
    obtain ⟨r, hrequest, hanswers⟩ := hgreet reply
    refine Program.exists_run_bind hrequest ?_
    cases r with
    | error e => exact ⟨_, .here _⟩
    | ok v => exact absurd (hanswers.mp rfl) hrefused
  | @greeted reply reply' hanswered =>
    obtain ⟨r, hrequest, hanswers⟩ := hgreet reply
    obtain ⟨p, hpost⟩ := exists_run_post .greeted ⟨url, (nameIn reply).or none, 2⟩ reply'
    refine Program.exists_run_bind hrequest ?_
    cases r with
    | error e => cases hanswers.mpr hanswered
    | ok v => exact Program.exists_run_bind hpost ⟨_, .here _⟩

/-- What each act sends, and what it makes of the session. -/
theorem Act.Runs.sends (h : a.Runs s t s') :
    a.Sends s.endpoint s.nextRequest s.id t ∧
      s' = ⟨s.endpoint, if a.asks then (nameOf t).or s.id else none,
        if a.asks then s.nextRequest + 1 else s.nextRequest⟩ := by
  cases h with
  | list h =>
    obtain ⟨reply, rfl, rfl⟩ := run_asking h fun _ => ⟨_, rfl⟩
    exact ⟨.list reply, rfl⟩
  | call h =>
    obtain ⟨reply, rfl, rfl⟩ := run_asking h fun _ => ⟨_, rfl⟩
    exact ⟨.call reply, rfl⟩
  | close h =>
    obtain ⟨endpoint, id, nextRequest⟩ := s
    cases id with
    | none =>
      obtain ⟨rfl, hvalue⟩ := Program.run_done.mp h
      obtain ⟨-, rfl⟩ := Prod.mk.inj hvalue
      exact ⟨.unnamed rfl, rfl⟩
    | some id =>
      obtain ⟨reply, t', rfl, hrest⟩ := Program.run_send.mp h
      cases reply <;>
      · obtain ⟨rfl, hvalue⟩ := Program.run_done.mp hrest
        obtain ⟨-, rfl⟩ := Prod.mk.inj hvalue
        exact ⟨.named _ rfl, rfl⟩

theorem Act.Sends.runs (h : a.Sends s.endpoint s.nextRequest s.id t) (ha : a ≠ .connect) :
    ∃ s', a.Runs s t s' := by
  cases h with
  | refused | greeted => exact absurd rfl ha
  | list reply =>
    obtain ⟨p, hrequest⟩ := exists_run_request Rpc.Request.listTools s reply
    have hrun : ∃ p, s.listTools.Run _ p := Program.exists_run_bind hrequest ⟨_, .here _⟩
    exact hrun.elim fun p hp => ⟨p.2, .list hp⟩
  | @call tool args reply =>
    obtain ⟨p, hrequest⟩ := exists_run_request (Rpc.Request.callTool · tool args) s reply
    have hrun : ∃ p, (s.callTool tool args).Run _ p :=
      Program.exists_run_bind hrequest ⟨_, .here _⟩
    exact hrun.elim fun p hp => ⟨p.2, .call hp⟩
  | unnamed hnone =>
    have hrun : ∃ p, s.close.Run [] p := by
      rw [HttpSession.close, hnone]
      exact ⟨_, .here _⟩
    exact hrun.elim fun p hp => ⟨p.2, .close hp⟩
  | @named id reply hname =>
    have hrun : ∃ p, s.close.Run
        [⟨{ method := .delete, url := s.endpoint, session := some id }, reply⟩] p := by
      rw [HttpSession.close, hname]
      refine Program.exists_run_send ?_
      cases reply <;> exact ⟨_, .here _⟩
    exact hrun.elim fun p hp => ⟨p.2, .close hp⟩

theorem current_concat :
    current (past ++ [(a, t)]) = if a.asks then current past ++ t else [] := by
  rw [current, List.foldl_append]
  rfl

theorem asked_concat :
    asked (past ++ [(a, t)]) = if a.asks then asked past + 1 else asked past := by
  rw [asked, List.countP_append, List.countP_singleton]
  cases a.asks <;> rfl

/-- The state of a session is told by what was done with it. -/
theorem Life.state (h : Life url past s) :
    s = ⟨url, nameOf (current past), asked past + 1⟩ := by
  induction h with
  | connect h => exact (run_connect h).2
  | @act past s s' a t _ hruns ih =>
    obtain ⟨-, rfl⟩ := hruns.sends
    rw [ih, current_concat, asked_concat]
    cases a.asks
    · rfl
    · rw [if_pos rfl, if_pos rfl, if_pos rfl, if_pos rfl, nameOf_append]

theorem Life.next (h : Life url past s) (hruns : a.Runs s t s') :
    a.Sends url (asked past + 1) (nameOf (current past)) t := by
  rw [h.state] at hruns
  exact hruns.sends.1

theorem Life.sends (h : Life url (earlier ++ (a, t) :: later) s) :
    a.Sends url (asked earlier + 1) (nameOf (current earlier)) t := by
  -- The last act of the life is the one that is asked about, or it is the last of those after it.
  generalize hpast : earlier ++ (a, t) :: later = past at h
  induction h generalizing later with
  | connect hconnect =>
    cases earlier with
    | nil =>
      obtain ⟨heq, -⟩ := List.cons.inj hpast
      obtain ⟨rfl, rfl⟩ := Prod.mk.inj heq
      exact (run_connect hconnect).1
    | cons p earlier => exact absurd (List.cons.inj hpast).2 (by simp)
  | act hlife hruns ih =>
    rcases List.eq_nil_or_concat later with rfl | ⟨later, p, rfl⟩
    · obtain ⟨rfl, heq⟩ := List.append_inj' hpast rfl
      obtain ⟨rfl, rfl⟩ := Prod.mk.inj (List.cons.inj heq).1
      exact hlife.next hruns
    · rw [List.concat_eq_append, ← List.cons_append, ← List.append_assoc] at hpast
      exact ih (List.append_inj' hpast rfl).1

/-- The first request of an act carries the name that the session has, a second one the name that
the reply to the first gave it, if any. -/
theorem Act.Sends.session_eq {before after : Exchanges} {x : Exchange}
    (h : a.Sends url n name (before ++ x :: after)) : x.1.session = (nameOf before).or name := by
  generalize ht : before ++ x :: after = t at h
  have hfirst {y : Exchange} (ht : before ++ x :: after = [y]) (hy : y.1.session = name) :
      x.1.session = (nameOf before).or name := by
    obtain ⟨rfl, rfl, rfl⟩ | ⟨-, hnil⟩ := List.append_eq_singleton_iff.mp ht
    · exact hy
    · cases hnil
  -- Only a greeting that is answered sends two requests.
  cases h with
  | refused => exact hfirst ht rfl
  | @greeted reply reply' _ =>
    cases before with
    | nil =>
      obtain ⟨rfl, -⟩ := List.cons.inj ht
      rfl
    | cons y before =>
      obtain ⟨rfl, hrest⟩ := List.cons.inj ht
      obtain ⟨rfl, heq⟩ | ⟨-, hnil⟩ := List.append_eq_singleton_iff.mp hrest
      · obtain ⟨rfl, -⟩ := List.cons.inj heq
        rw [nameOf_posted]
        rfl
      · cases hnil
  | list => exact hfirst ht rfl
  | call => exact hfirst ht rfl
  | unnamed => exact absurd ht (by simp)
  | named reply hname => exact hfirst ht hname.symm

theorem numbers_append (t t' : Exchanges) : numbers (t ++ t') = numbers t ++ numbers t' :=
  List.filterMap_append

theorem numbers_posted (url : String) (name : Option String) (body : Rpc.Request)
    (reply : Except Http.Failure Http.Reply) :
    numbers [⟨posted url name body, reply⟩] = (body.id.map Json.nat).toList := by
  have hnumber : (posted url name body).body.bind (Json.get? "id") = body.id.map Json.nat :=
    get?_id_toJson body
  rw [numbers, List.filterMap_cons, hnumber]
  cases body.id <;> rfl

theorem Act.Sends.numbers_eq (h : a.Sends url n name t) :
    numbers t = if a.asks then [Json.nat n] else [] := by
  cases h with
  | greeted =>
    rw [← List.singleton_append, numbers_append, numbers_posted, numbers_posted]
    rfl
  | unnamed | named => rfl
  | _ => exact numbers_posted ..

theorem Life.numbers_eq (h : Life url past s) :
    numbers (past.flatMap (·.2)) = (List.range' 1 (asked past)).map Json.nat := by
  induction h with
  | connect h =>
    rw [List.flatMap_singleton]
    exact (run_connect h).1.numbers_eq
  | @act past s s' a t hlife hruns ih =>
    rw [List.flatMap_append, List.flatMap_singleton, numbers_append, ih,
      (hlife.next hruns).numbers_eq, asked_concat]
    cases a.asks
    · exact List.append_nil _
    · rw [if_pos rfl, if_pos rfl, List.range'_concat, List.map_append, Nat.add_comm, Nat.one_mul]
      rfl

theorem Life.exists_next (h : Life url past s)
    (hsends : a.Sends url (asked past + 1) (nameOf (current past)) t) (ha : a ≠ .connect) :
    ∃ s', Life url (past ++ [(a, t)]) s' := by
  obtain ⟨s', hruns⟩ : ∃ s', a.Runs s t s' := Act.Sends.runs (by rwa [h.state]) ha
  exact ⟨s', .act h hruns⟩

theorem Life.exists_connect (h : Life url past s) : ∃ t later, past = (.connect, t) :: later := by
  induction h with
  | connect => exact ⟨_, [], rfl⟩
  | act _ _ ih =>
    obtain ⟨t, later, rfl⟩ := ih
    exact ⟨t, _, rfl⟩

/-- Whatever is done with a session and whatever is replied, what is sent follows the protocol. The
session has the name that was given last since it was last closed, and none when it is closed. -/
theorem orderly_of_life (h : Life url past s) :
    Orderly url past ∧ s.id = nameOf (current past) ∧
      ∀ earlier t, past = earlier ++ [(.close, t)] → s.id = none := by
  have hid : s.id = nameOf (current past) := by rw [h.state]
  refine ⟨⟨?_, ?_, ?_, h.numbers_eq, ?_, ?_⟩, hid, ?_⟩
  · obtain ⟨t, later, rfl⟩ := h.exists_connect
    exact ⟨t, later, rfl, @Life.sends _ [] _ _ _ _ h⟩
  · rintro earlier a t later rfl
    exact h.sends
  · rintro earlier a before x after later rfl
    rw [h.sends.session_eq, nameOf_append]
  · have hinjective : Function.Injective Json.nat :=
      fun _ _ heq => Int.ofNat.inj (Json.Number.int.inj (Json.num.inj heq))
    rw [h.numbers_eq]
    exact List.Nodup.map hinjective List.nodup_range'
  · rintro earlier t t' later rfl
    rw [← List.singleton_append, ← List.append_assoc] at h
    have hsends := h.sends
    rw [current_concat] at hsends
    cases hsends with
    | unnamed => rfl
    | named _ hname => cases hname
  · rintro earlier t rfl
    rw [hid, current_concat]
    rfl

/-- A session is renamed by a reply that reports a failure, keeps its name where nothing is replied,
and has none from its close on. -/
theorem orderly_of_life_renamed :
    let url := "http://tools"
    let welcome : Http.Reply := ⟨200, some "application/json", some "a",
      .ok "\x7b\"jsonrpc\":\"2.0\",\"id\":1,\"result\":true\x7d"⟩
    let noted : Http.Reply := ⟨202, none, none, .ok ""⟩
    let broken : Http.Reply := ⟨500, none, some "b", .error "connection reset"⟩
    let farewell : Http.Request := { method := .delete, url, session := some "b" }
    let past : History := [
      (.connect, [⟨posted url none (.greeting 1 clientName), .ok welcome⟩,
        ⟨posted url (some "a") .greeted, .ok noted⟩]),
      (.call "weather" .null, [⟨posted url (some "a") (.callTool 2 "weather" .null), .ok broken⟩]),
      (.list, [⟨posted url (some "b") (.listTools 3), .error .timeout⟩]),
      (.close, [⟨farewell, .ok welcome⟩]), (.close, []),
      (.list, [⟨posted url none (.listTools 4), .error .unsent⟩])]
    ∃ s, Life url past s ∧ Orderly url past ∧ s.id = none := by
  intro url welcome noted broken farewell past
  have hwelcome : Answers (some 1) (.ok welcome) := ⟨rfl, by decide +kernel⟩
  have hgreeted : Act.Sends url 1 none .connect
      [⟨posted url none (.greeting 1 clientName), .ok welcome⟩,
        ⟨posted url (some "a") .greeted, .ok noted⟩] := .greeted hwelcome
  obtain ⟨⟨r, s⟩, hrun⟩ := exists_run_connect hgreeted
  have hlife := Life.connect hrun
  obtain ⟨s, hlife⟩ := hlife.exists_next (a := .call "weather" .null) (.call (.ok broken)) nofun
  obtain ⟨s, hlife⟩ := hlife.exists_next (.list (.error .timeout)) nofun
  obtain ⟨s, hlife⟩ := hlife.exists_next (.named (.ok welcome) rfl) nofun
  obtain ⟨s, hlife⟩ := hlife.exists_next (.unnamed rfl) nofun
  obtain ⟨s, hlife⟩ := hlife.exists_next (.list (.error .unsent)) nofun
  obtain ⟨horderly, hid, -⟩ := orderly_of_life hlife
  exact ⟨s, hlife, horderly, hid⟩

end Switchboard.HttpSession

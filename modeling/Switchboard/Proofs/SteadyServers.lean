import Switchboard.Proofs.Connections

/-! Tool servers that never fail. What is listed and called then follows from the addresses of the
servers alone, whichever sessions there are. -/
namespace Switchboard.Pool

/-- What the server at each address lists, and how it answers calls. -/
structure Steady where
  listing : String → List ListedTool
  calling : String → String → Json → String

/-- A server never fails, and answers as a function of the request. -/
def Steady.Answers (w : Steady) : Exchange → Prop
  | ⟨.connect url _, answer⟩ => ∃ number, answer = some (.ok ⟨url, number⟩)
  | ⟨.list s _, answer⟩ => answer = some (.ok (w.listing s.url))
  | ⟨.call s tool args _, answer⟩ => answer = some (.ok (w.calling s.url tool args))
  | ⟨.close _, answer⟩ => answer = .ok ()
  | _ => True

/-- The address at which a server is found: that of its session, or else the configured one. -/
def addressOf (p : Pool) (t : Table) (name : String) : String :=
  match sessionOf? t name with
  | some s => s.url
  | none => p.urlOf name

/-- All configured servers are connected. -/
def Ready (p : Pool) (t : Table) : Prop := ∀ name ∈ p.names, ∃ s, sessionOf? t name = some s

def listed (p : Pool) (w : Steady) (address : String → String) :
    Except ServerError (List Handle) :=
  let tools := p.servers.flatMap fun s =>
    (w.listing (address s.name)).map (Handle.ofListed s.name)
  if tools.isEmpty then .error .allUnavailable else .ok tools

variable {p : Pool} {w : Steady} {t t' : Table} {cs : Trace} {name : String}

/-- The visit of a steady server: its tools are listed at its address, and then it is connected. -/
theorem steady_visit {url : String} {place : Option Connection} {r : Replies}
    (h : ∀ x ∈ (p.visit url name place r).contacts, w.Answers x) :
    ∃ s, (p.visit url name place r).place.bind Connection.live? = some s ∧
      s.url = (place.bind Connection.live?).elim url (·.url) ∧
      (p.visit url name place r).tools = (w.listing s.url).map (Handle.ofListed name) := by
  unfold visit at h ⊢
  cases hlive : place.bind Connection.live? with
  | some s =>
    have hlisted : r.first = some (.ok (w.listing s.url)) := by
      rw [hlive] at h
      dsimp only at h
      split at h
      · exact h _ List.mem_cons_self
      · exact h _ List.mem_cons_self
    have hgiven : handles name r.first = some ((w.listing s.url).map (Handle.ofListed name)) := by
      rw [hlisted]
      rfl
    simp only [hgiven]
    exact ⟨s, hlive, rfl, rfl⟩
  | none =>
    rw [hlive] at h
    dsimp only at h ⊢
    unfold visitAnew at h ⊢
    obtain ⟨number, hopened⟩ : ∃ number, r.opened = some (.ok ⟨url, number⟩) := by
      dsimp only at h
      split at h
      · exact h ⟨.connect url p.requestLimit, r.opened⟩ (by simp)
      · exact h ⟨.connect url p.requestLimit, r.opened⟩ (by simp)
    have hvalue : r.opened.value? = some ⟨url, number⟩ := by rw [hopened]; rfl
    simp only [hvalue] at h ⊢
    have hlisted : r.second = some (.ok (w.listing url)) :=
      h ⟨.list ⟨url, number⟩ p.fetchLimit, r.second⟩ (by simp)
    refine ⟨⟨url, number⟩, rfl, rfl, ?_⟩
    rw [hlisted]
    rfl

theorem answers_closing (w : Steady) (place : Option Connection) :
    ∀ x ∈ closing place (.ok ()), w.Answers x := by
  unfold closing
  cases place.bind (·.session) with
  | none => exact List.forall_mem_nil _
  | some s => exact List.forall_mem_singleton.mpr rfl

theorem exists_steady_visit (p : Pool) (w : Steady) (url name : String)
    (place : Option Connection) :
    ∃ r, ∀ x ∈ (p.visit url name place r).contacts, w.Answers x := by
  cases hlive : place.bind Connection.live? with
  | some s =>
    refine ⟨⟨some (.ok (w.listing s.url)), .ok (), none, none⟩, ?_⟩
    simp only [visit, hlive]
    exact List.forall_mem_singleton.mpr rfl
  | none =>
    refine ⟨⟨none, .ok (), some (.ok ⟨url, 0⟩), some (.ok (w.listing url))⟩, ?_⟩
    simp only [visit, hlive, visitAnew, Timed.value?, List.forall_mem_append,
      List.forall_mem_singleton]
    exact ⟨⟨answers_closing w place, 0, rfl⟩, rfl⟩

theorem addressOf_eq (p : Pool) (t : Table) (name : String) :
    p.addressOf t name = (sessionOf? t name).elim (p.urlOf name) (·.url) := by
  unfold addressOf
  cases sessionOf? t name <;> rfl

/-- What the visits of steady servers give and leave behind. -/
theorem steady_visits {l : List (ServerConfig × Replies)}
    (h : ∀ x ∈ (p.visits t l).flatMap (·.contacts), w.Answers x) :
    ((p.visits t l).flatMap (·.tools) = l.flatMap fun x =>
      (w.listing (p.addressOf t x.1.name)).map (Handle.ofListed x.1.name)) ∧
    p.addressOf (p.visited t l) = p.addressOf t ∧
    ∀ name, (∃ s, sessionOf? t name = some s) ∨ name ∈ l.map (·.1.name) →
      ∃ s, sessionOf? (p.visited t l) name = some s := by
  induction l generalizing t with
  | nil => exact ⟨rfl, rfl, fun name hname => hname.resolve_right List.not_mem_nil⟩
  | cons x l ih =>
    obtain ⟨server, r⟩ := x
    rw [visits, List.flatMap_cons, List.forall_mem_append] at h
    obtain ⟨hfirst, hrest⟩ := h
    obtain ⟨s, hlive, hurl, htools⟩ := steady_visit hfirst
    have hself : sessionOf? (t.settle server.name
        (p.visit (p.urlOf server.name) server.name (t.get? server.name) r).place) server.name =
        some s := by
      rw [sessionOf?, Table.get?_settle_self place_visit, hlive]
    have hother (name : String) (hne : name ≠ server.name) : sessionOf? (t.settle server.name
        (p.visit (p.urlOf server.name) server.name (t.get? server.name) r).place) name =
        sessionOf? t name := by
      rw [sessionOf?, Table.get?_settle_of_ne hne]
      rfl
    have haddress : p.addressOf t server.name = s.url := by
      rw [addressOf_eq, hurl]
      rfl
    have hsame : p.addressOf (t.settle server.name
        (p.visit (p.urlOf server.name) server.name (t.get? server.name) r).place) =
        p.addressOf t := by
      funext name
      by_cases hne : name = server.name
      · subst hne
        rw [addressOf_eq, hself, haddress]
        rfl
      · rw [addressOf_eq, addressOf_eq, hother name hne]
    obtain ⟨hgiven, hkept, hready⟩ := ih hrest
    refine ⟨?_, ?_, fun name hname => ?_⟩
    · rw [visits, List.flatMap_cons, List.flatMap_cons, hgiven, htools, hsame, haddress]
    · rw [visited, hkept, hsame]
    · rw [visited]
      apply hready
      by_cases hne : name = server.name
      · subst hne
        exact .inl ⟨s, hself⟩
      · rcases hname with ⟨s, hs⟩ | hmem
        · exact .inl ⟨s, (hother name hne).trans hs⟩
        · exact .inr ((List.mem_cons.mp hmem).resolve_left hne)

theorem exists_steady_visits (p : Pool) (w : Steady) (l : List ServerConfig) (t : Table) :
    ∃ rs : List Replies, rs.length = l.length ∧
      ∀ x ∈ (p.visits t (l.zip rs)).flatMap (·.contacts), w.Answers x := by
  induction l generalizing t with
  | nil => exact ⟨[], rfl, List.forall_mem_nil _⟩
  | cons s l ih =>
    obtain ⟨r, hr⟩ := p.exists_steady_visit w (p.urlOf s.name) s.name (t.get? s.name)
    obtain ⟨rs, hlen, hrs⟩ := ih (t.settle s.name
      (p.visit (p.urlOf s.name) s.name (t.get? s.name) r).place)
    refine ⟨r :: rs, by rw [List.length_cons, hlen, List.length_cons], ?_⟩
    rw [List.zip_cons_cons, visits, List.flatMap_cons, List.forall_mem_append]
    exact ⟨hr, hrs⟩

/-- With steady servers all tools are listed, wherever the servers are found, and then all servers
are connected. -/
theorem steady_allTools {result : Except ServerError (List Handle)}
    (h : Leads p.allTools t cs result t') (hcs : ∀ x ∈ cs, w.Answers x) :
    result = p.listed w (p.addressOf t) ∧ p.addressOf t' = p.addressOf t ∧ p.Ready t' := by
  obtain ⟨rs, hlen, rfl, rfl, rfl⟩ := leads_allTools.mp h
  have hservers : (p.servers.zip rs).map (·.1) = p.servers :=
    List.map_fst_zip (Nat.le_of_eq hlen.symm)
  obtain ⟨hgiven, hsame, hready⟩ := steady_visits hcs
  refine ⟨?_, hsame, fun name hname => hready name (.inr ?_)⟩
  · have hall : ((p.servers.zip rs).flatMap fun x =>
        (w.listing (p.addressOf t x.1.name)).map (Handle.ofListed x.1.name)) =
        p.servers.flatMap fun s =>
          (w.listing (p.addressOf t s.name)).map (Handle.ofListed s.name) := by
      conv_rhs => rw [← hservers]
      rw [List.flatMap_map]
    rw [gathered, listed, hgiven, hall]
  · obtain ⟨s, hs, rfl⟩ := List.mem_map.mp hname
    rw [← hservers] at hs
    obtain ⟨x, hx, rfl⟩ := List.mem_map.mp hs
    exact List.mem_map.mpr ⟨x, hx, rfl⟩

theorem exists_steady_allTools (p : Pool) (w : Steady) (t : Table) :
    ∃ cs result t', Leads p.allTools t cs result t' ∧ ∀ x ∈ cs, w.Answers x := by
  obtain ⟨rs, hlen, hcs⟩ := p.exists_steady_visits w p.servers t
  exact ⟨_, _, _, leads_allTools.mpr ⟨rs, hlen, rfl, rfl, rfl⟩, hcs⟩

theorem any_server {name : String} : p.servers.any (·.name = name) = true ↔ name ∈ p.names := by
  simp [names]

theorem leads_callIn {tool : Handle} {args : Json} {s : Session}
    {result : Except ServerError String} :
    Leads (p.callIn tool args s) t cs result t' ↔ ∃ answer,
      cs = [⟨.call s tool.name args p.requestLimit, answer⟩] ∧ result = p.called tool answer ∧
        t' = t := by
  unfold callIn Request.send
  simp only [Program.send_bind, Program.pure_eq, leads_call, leads_audit, leads_done]
  constructor
  · rintro ⟨answer, -, rfl, rfl, hresult, ht⟩
    exact ⟨answer, rfl, hresult, ht⟩
  · rintro ⟨answer, rfl, hresult, ht⟩
    exact ⟨answer, [], rfl, rfl, hresult, ht⟩

/-- How a call of a tool goes: only in the session of its server, which has to be configured. -/
inductive Called (p : Pool) (t : Table) (tool : Handle) (args : Json) :
    Trace → Except ServerError String → Prop where
  | unknown : tool.server ∉ p.names →
    Called p t tool args [] (.error (.unknownServer tool.server))
  | unconnected : tool.server ∈ p.names → sessionOf? t tool.server = none →
    Called p t tool args [] (.error (.notConnected tool.server))
  | made {s : Session} (answer : Timed String) : tool.server ∈ p.names →
    sessionOf? t tool.server = some s →
    Called p t tool args [⟨.call s tool.name args p.requestLimit, answer⟩] (p.called tool answer)

theorem leads_of_called {tool : Handle} {args : Json} {result : Except ServerError String} :
    Leads (p.call tool args) t cs result t' ↔ p.Called t tool args cs result ∧ t' = t := by
  rw [call_eq]
  by_cases hname : tool.server ∈ p.names
  · rw [if_pos (any_server.mpr hname), leads_inSession]
    simp only [leads_callIn]
    constructor
    · rintro (⟨hs, rfl, rfl, rfl⟩ | ⟨s, hs, answer, rfl, rfl, rfl⟩)
      · exact ⟨.unconnected hname hs, rfl⟩
      · exact ⟨.made answer hname hs, rfl⟩
    · rintro ⟨hcalled, rfl⟩
      cases hcalled with
      | unknown hnot => exact absurd hname hnot
      | unconnected _ hs => exact .inl ⟨hs, rfl, rfl, rfl⟩
      | made answer _ hs => exact .inr ⟨_, hs, answer, rfl, rfl, rfl⟩
  · rw [if_neg (mt any_server.mp hname)]
    constructor
    · intro h
      obtain ⟨rfl, rfl, rfl⟩ := leads_done.mp h
      exact ⟨.unknown hname, rfl⟩
    · rintro ⟨hcalled, rfl⟩
      cases hcalled with
      | unknown => exact leads_done.mpr ⟨rfl, rfl, rfl⟩
      | unconnected hmem | made _ hmem => exact absurd hmem hname

/-- What a call of a tool comes to once all servers are connected. -/
theorem steady_call {tool : Handle} {args : Json} {result : Except ServerError String}
    (h : p.Called t tool args cs result) (hcs : ∀ x ∈ cs, w.Answers x) (hready : p.Ready t) :
    result = if tool.server ∈ p.names then
        .ok (w.calling (p.addressOf t tool.server) tool.name args)
      else .error (.unknownServer tool.server) := by
  cases h with
  | unknown hname => rw [if_neg hname]
  | unconnected hname hs =>
    obtain ⟨s, hlive⟩ := hready tool.server hname
    rw [hs] at hlive
    cases hlive
  | @made s answer hname hs =>
    have hanswer : answer = some (.ok (w.calling s.url tool.name args)) :=
      hcs _ (List.mem_singleton.mpr rfl)
    rw [if_pos hname, addressOf_eq, hs, hanswer]
    rfl

theorem exists_steady_call (p : Pool) (w : Steady) (t : Table) (tool : Handle) (args : Json) :
    ∃ cs result, p.Called t tool args cs result ∧ ∀ x ∈ cs, w.Answers x := by
  by_cases hname : tool.server ∈ p.names
  · cases hlive : sessionOf? t tool.server with
    | none => exact ⟨_, _, .unconnected hname hlive, List.forall_mem_nil _⟩
    | some s =>
      have hanswered : w.Answers ⟨.call s tool.name args p.requestLimit,
          some (.ok (w.calling s.url tool.name args))⟩ := rfl
      exact ⟨_, _, .made _ hname hlive, List.forall_mem_singleton.mpr hanswered⟩
  · exact ⟨_, _, .unknown hname, List.forall_mem_nil _⟩

end Switchboard.Pool

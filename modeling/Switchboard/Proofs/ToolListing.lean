import Mathlib.Data.List.Nodup
import Switchboard.Proofs.PoolTraces

/-! The tools of all servers, whatever becomes of the single servers on the way. -/
namespace Switchboard.Pool

/-- How a server behaves while the tools are listed. -/
structure Replies where
  first : Timed (List ListedTool)
  closed : Except ServerError Unit
  opened : Timed Session
  second : Timed (List ListedTool)

/-- What comes of a server while the tools are listed: the exchanges with it, the tools that it
gives, and its place in the table afterwards. -/
structure Visit where
  contacts : Trace
  tools : List Handle
  place : Option Connection

def handles (name : String) (listed : Timed (List ListedTool)) : Option (List Handle) :=
  listed.value?.map fun tools => tools.map fun tool =>
    { server := name
      name := tool.name
      short := Handle.shortName name tool.name
      description := tool.description
      schema := tool.schema }

/-- A tool is marked with its server, and goes by the short name that it has there. -/
def Tagged (name : String) (tool : Handle) : Prop :=
  tool.server = name ∧ Handle.ShortOf name tool.name tool.short

/-- The visit of a server that is not connected, or not to be relied on. Its old session is closed,
one connection is tried, and only if that is made are the tools listed, once. -/
def visitAnew (p : Pool) (url name : String) (place : Option Connection) (r : Replies) : Visit :=
  let contacts := closing place r.closed ++ [⟨.connect url p.requestLimit, r.opened⟩]
  match r.opened.value? with
  | none => ⟨contacts, [], renewed url place none⟩
  | some s => ⟨contacts ++ [⟨.list s p.fetchLimit, r.second⟩], (handles name r.second).getD [],
      renewed url place (some s)⟩

/-- The visit of a server that has the place. If it is connected and its tools are listed, they are
what it gives and it keeps its place. -/
def visit (p : Pool) (url name : String) (place : Option Connection) (r : Replies) : Visit :=
  match place.bind Connection.live? with
  | none => p.visitAnew url name place r
  | some s =>
    match handles name r.first with
    | some tools => ⟨[⟨.list s p.fetchLimit, r.first⟩], tools, place⟩
    | none =>
      let anew := p.visitAnew url name place r
      { anew with contacts := ⟨.list s p.fetchLimit, r.first⟩ :: anew.contacts }

/-- The address at which a name is connected: the first server of the name has it. -/
def urlOf (p : Pool) (name : String) : String := (p.server? name).elim "" (·.url)

def visits (p : Pool) : Table → List (ServerConfig × Replies) → List Visit
  | _, [] => []
  | t, (s, r) :: rest =>
    let v := p.visit (p.urlOf s.name) s.name (t.get? s.name) r
    v :: p.visits (t.settle s.name v.place) rest

/-- The table after the visits. -/
def visited (p : Pool) : Table → List (ServerConfig × Replies) → Table
  | t, [] => t
  | t, (s, r) :: rest =>
    p.visited (t.settle s.name (p.visit (p.urlOf s.name) s.name (t.get? s.name) r).place) rest

/-- What is given of all visits: an error if there are no tools at all. -/
def gathered (vs : List Visit) : Except ServerError (List Handle) :=
  let tools := vs.flatMap (·.tools)
  if tools.isEmpty then .error .allUnavailable else .ok tools

def offered : Except ServerError (List Handle) → List Handle
  | .ok tools => tools
  | .error _ => []

def offer (p : Pool) (name : String) : Work (List Handle) := do
  return offered (← p.fetchOrRetry name)

/-- What comes of connecting a server anew and listing its tools, in place of an error. -/
def retried (p : Pool) (name : String) (e : ServerError) (r : Replies) :
    Except ServerError (List Handle) :=
  match r.opened.value? with
  | none => .error e
  | some _ => p.fetched name r.second

variable {p : Pool} {t t' : Table} {cs : Trace} {name : String} {s : ServerConfig}

theorem offered_fetched (p : Pool) (name : String) (listed : Timed (List ListedTool)) :
    offered (p.fetched name listed) = (handles name listed).getD [] := by
  match listed with
  | none => rfl
  | some (.error _) => rfl
  | some (.ok _) => rfl

/-- Either there are tools, or there is an error. -/
theorem fetched_cases (p : Pool) (name : String) (listed : Timed (List ListedTool)) :
    (∃ tools, handles name listed = some tools ∧ p.fetched name listed = .ok tools) ∨
      ∃ e, handles name listed = none ∧ p.fetched name listed = .error e := by
  match listed with
  | none => exact .inr ⟨_, rfl, rfl⟩
  | some (.error e) => exact .inr ⟨e, rfl, rfl⟩
  | some (.ok tools) => exact .inl ⟨_, rfl, rfl⟩

theorem leads_fetch {session : Session} {result : Except ServerError (List Handle)} :
    Leads (p.fetch name session) t cs result t' ↔ ∃ x,
      cs = [⟨.list session p.fetchLimit, x⟩] ∧ result = p.fetched name x ∧ t' = t := by
  rw [fetch_eq, leads_bind_pure]
  simp only [Request.send, Program.send, leads_list, leads_done]
  constructor
  · rintro ⟨x, ⟨_, -, rfl, rfl, rfl, rfl⟩, rfl⟩
    exact ⟨x, rfl, rfl, rfl⟩
  · rintro ⟨x, rfl, rfl, rfl⟩
    exact ⟨x, ⟨x, [], rfl, rfl, rfl, rfl⟩, rfl⟩

theorem sessionOf?_renewed (url : String) (place : Option Connection) (session : Session) :
    sessionOf? (t.settle name (renewed url place (some session))) name = some session := by
  rw [sessionOf?, Table.get?_settle_self (by simp [renewed])]
  rfl

theorem leads_fetchHeld {result : Except ServerError (List Handle)} :
    Leads (p.fetchHeld name) t cs result t' ↔ match sessionOf? t name with
      | none => cs = [] ∧ result = .error (.notConnected name) ∧ t' = t
      | some session => ∃ x, cs = [⟨.list session p.fetchLimit, x⟩] ∧
        result = p.fetched name x ∧ t' = t := by
  rw [fetchHeld, leads_inSession]
  cases sessionOf? t name with
  | none => simp
  | some session => simp [leads_fetch]

theorem leads_retry {e : ServerError} {result : Except ServerError (List Handle)}
    (hs : p.server? name = some s) :
    Leads (p.retry name e) t cs result t' ↔ ∃ r : Replies,
      cs = (p.visitAnew s.url name (t.get? name) r).contacts ∧
        result = p.retried name e r ∧
        t' = t.settle name (p.visitAnew s.url name (t.get? name) r).place := by
  rw [retry_eq, leads_bind]
  simp only [leads_reconnect hs]
  constructor
  · rintro ⟨-, -, -, cs₂, rfl, ⟨y, x, rfl, rfl, rfl⟩, h⟩
    cases hx : x.value? with
    | none =>
      rw [hx] at h
      obtain ⟨rfl, rfl, rfl⟩ := leads_done.mp h
      exact ⟨⟨none, y, x, none⟩, by simp [visitAnew, retried, hx]⟩
    | some session =>
      rw [hx] at h
      have hread := leads_fetchHeld.mp h
      rw [sessionOf?_renewed] at hread
      obtain ⟨z, rfl, rfl, rfl⟩ := hread
      exact ⟨⟨none, y, x, z⟩, by simp [visitAnew, retried, hx]⟩
  · rintro ⟨r, rfl, rfl, rfl⟩
    cases hx : r.opened.value? with
    | none =>
      refine ⟨_, _, _, [], ?_, ⟨r.closed, r.opened, rfl, rfl, rfl⟩, ?_⟩
      · simp [visitAnew, hx]
      · simp [visitAnew, retried, hx]
    | some session =>
      refine ⟨_, _, _, [⟨.list session p.fetchLimit, r.second⟩], ?_,
        ⟨r.closed, r.opened, rfl, rfl, rfl⟩, ?_⟩
      · simp [visitAnew, hx]
      · rw [hx]
        apply leads_fetchHeld.mpr
        rw [sessionOf?_renewed]
        refine ⟨r.second, rfl, ?_⟩
        simp [visitAnew, retried, hx]

theorem offered_retried (url : String) (place : Option Connection) (e : ServerError)
    (r : Replies) :
    offered (p.retried name e r) = (p.visitAnew url name place r).tools := by
  unfold retried visitAnew
  cases r.opened.value? with
  | none => rfl
  | some session => exact offered_fetched p name r.second

/-- What a server gives and what it takes is what the account of its visit says. -/
theorem leads_offer {tools : List Handle} (hs : p.server? name = some s) :
    Leads (p.offer name) t cs tools t' ↔
      ∃ r : Replies, cs = (p.visit s.url name (t.get? name) r).contacts ∧
        tools = (p.visit s.url name (t.get? name) r).tools ∧
        t' = t.settle name (p.visit s.url name (t.get? name) r).place := by
  have hanew (e : ServerError) {t₁ : Table} {cs : Trace} :
      Leads (p.retry name e >>= fun result => pure (offered result)) t₁ cs tools t' ↔
        ∃ r : Replies, cs = (p.visitAnew s.url name (t₁.get? name) r).contacts ∧
          tools = (p.visitAnew s.url name (t₁.get? name) r).tools ∧
          t' = t₁.settle name (p.visitAnew s.url name (t₁.get? name) r).place := by
    simp only [leads_bind_pure, leads_retry hs]
    constructor
    · rintro ⟨-, ⟨r, rfl, rfl, rfl⟩, rfl⟩
      exact ⟨r, rfl, offered_retried s.url _ e r, rfl⟩
    · rintro ⟨r, rfl, rfl, rfl⟩
      exact ⟨_, ⟨r, rfl, rfl, rfl⟩, (offered_retried s.url _ e r).symm⟩
  rw [offer, fetchOrRetry_eq, bind_assoc, leads_bind]
  simp only [leads_fetchHeld]
  cases hlive : sessionOf? t name with
  | none =>
    have hplace : (Dict.get? t name).bind Connection.live? = none := hlive
    simp only [visit, hplace]
    constructor
    · rintro ⟨_, _, _, cs', rfl, ⟨rfl, rfl, rfl⟩, h⟩
      exact (hanew (.notConnected name)).mp h
    · exact fun h => ⟨[], _, t, cs, rfl, ⟨rfl, rfl, rfl⟩, (hanew (.notConnected name)).mpr h⟩
  | some session =>
    have hplace : (Dict.get? t name).bind Connection.live? = some session := hlive
    constructor
    · rintro ⟨_, _, _, cs', rfl, ⟨x, rfl, rfl, rfl⟩, h⟩
      obtain ⟨given, hgiven, hok⟩ | ⟨e, hnone, herror⟩ := fetched_cases p name x
      · rw [hok] at h
        obtain ⟨rfl, rfl, rfl⟩ := leads_done.mp h
        refine ⟨⟨x, .ok (), none, none⟩, ?_⟩
        simp [visit, hplace, hgiven, Table.settle_get?]
      · rw [herror] at h
        obtain ⟨r, rfl, rfl, rfl⟩ := (hanew e).mp h
        refine ⟨{ r with first := x }, ?_⟩
        simp only [visit, hplace, hnone]
        exact ⟨rfl, rfl, rfl⟩
    · rintro ⟨r, rfl, rfl, rfl⟩
      obtain ⟨given, hgiven, hok⟩ | ⟨e, hnone, herror⟩ := fetched_cases p name r.first
      · refine ⟨_, _, t, [], ?_, ⟨r.first, rfl, rfl, rfl⟩, ?_⟩
        · simp only [visit, hplace, hgiven, List.append_nil]
        · rw [hok]
          simp only [visit, hplace, hgiven, Table.settle_get?]
          exact leads_done.mpr ⟨rfl, rfl, rfl⟩
      · refine ⟨_, _, t, (p.visitAnew s.url name (t.get? name) r).contacts, ?_,
          ⟨r.first, rfl, rfl, rfl⟩, ?_⟩
        · simp only [visit, hplace, hnone, List.cons_append, List.nil_append]
        · rw [herror]
          refine (hanew e).mpr ⟨r, rfl, ?_, ?_⟩
          all_goals simp only [visit, hplace, hnone]

theorem urlOf_of_server? (hs : p.server? name = some s) : p.urlOf name = s.url := by
  rw [urlOf, hs]
  rfl

theorem exists_server? (hs : s ∈ p.servers) : ∃ first, p.server? s.name = some first :=
  mem_names.mp (List.mem_map_of_mem hs)

/-- The servers are visited one after the other. -/
theorem leads_offers {l : List ServerConfig} {found : List (List Handle)}
    (hl : ∀ s ∈ l, s ∈ p.servers) :
    Leads (l.mapM fun s => p.offer s.name) t cs found t' ↔
      ∃ rs : List Replies, rs.length = l.length ∧
        cs = (p.visits t (l.zip rs)).flatMap (·.contacts) ∧
        found = (p.visits t (l.zip rs)).map (·.tools) ∧ t' = p.visited t (l.zip rs) := by
  induction l generalizing t cs found with
  | nil => simp [visits, visited]
  | cons s l ih =>
    obtain ⟨hs, hl⟩ := List.forall_mem_cons.mp hl
    obtain ⟨first, hfirst⟩ := exists_server? hs
    rw [List.mapM_cons, leads_bind]
    simp only [leads_offer hfirst, leads_bind_pure, ih hl]
    constructor
    · rintro ⟨-, -, -, -, rfl, ⟨r, rfl, rfl, rfl⟩, -, ⟨rs, hlen, rfl, rfl, rfl⟩, rfl⟩
      refine ⟨r :: rs, by simp [hlen], ?_⟩
      simp [visits, visited, urlOf_of_server? hfirst]
    · rintro ⟨rs, hlen, rfl, rfl, rfl⟩
      obtain - | ⟨r, rs⟩ := rs
      · cases hlen
      refine ⟨_, _, _, _, ?_, ⟨r, rfl, rfl, rfl⟩, _, ⟨rs, Nat.succ.inj hlen, rfl, rfl, ?_⟩, ?_⟩
      all_goals simp [visits, visited, urlOf_of_server? hfirst]

theorem allTools_eq (p : Pool) :
    p.allTools = (p.servers.mapM fun s => p.offer s.name) >>= fun found =>
      pure (if found.flatten.isEmpty then .error .allUnavailable else .ok found.flatten) := by
  have hoffer (name : String) : p.offer name = (do
      return match ← p.fetchOrRetry name with
        | .ok tools => tools
        | .error _ => []) := rfl
  unfold allTools names
  rw [List.mapM_map]
  rfl

/-- A server that had a place keeps one. -/
theorem place_visit {url : String} {place : Option Connection} {r : Replies}
    (h : (p.visit url name place r).place = none) : place = none := by
  cases place with
  | none => rfl
  | some c =>
    unfold visit visitAnew renewed at h
    split at h
    · split at h <;> cases h
    · split at h
      · cases h
      · split at h <;> cases h

theorem tagged_of_handles {listed : Timed (List ListedTool)} {tools : List Handle}
    (h : handles name listed = some tools) : ∀ tool ∈ tools, Tagged name tool := by
  obtain ⟨given, -, rfl⟩ := Option.map_eq_some_iff.mp h
  rw [List.forall_mem_map]
  exact fun _ _ => ⟨rfl, Handle.shortOf_shortName ..⟩

theorem tagged_of_visitAnew {url : String} {place : Option Connection} {r : Replies} :
    ∀ tool ∈ (p.visitAnew url name place r).tools, Tagged name tool := by
  unfold visitAnew
  cases r.opened.value? with
  | none => exact List.forall_mem_nil _
  | some session =>
    cases hgiven : handles name r.second with
    | none => exact List.forall_mem_nil _
    | some tools => exact tagged_of_handles hgiven

theorem tagged_of_visit (p : Pool) (url name : String) (place : Option Connection) (r : Replies) :
    ∀ tool ∈ (p.visit url name place r).tools, Tagged name tool := by
  unfold visit
  cases place.bind Connection.live? with
  | none => exact tagged_of_visitAnew
  | some session =>
    cases hgiven : handles name r.first with
    | none => exact tagged_of_visitAnew
    | some tools => exact tagged_of_handles hgiven

theorem get?_visited_of_notMem {vs : List (ServerConfig × Replies)}
    (h : name ∉ vs.map (·.1.name)) : (p.visited t vs).get? name = t.get? name := by
  induction vs generalizing t with
  | nil => rfl
  | cons v vs ih =>
    obtain ⟨hv, hvs⟩ := not_or.mp (mt List.mem_cons.mpr h)
    rw [visited, ih hvs, Table.get?_settle_of_ne hv]

/-- With names of their own, the servers are visited as if each were alone. -/
theorem visits_of_nodup {vs : List (ServerConfig × Replies)} (h : (vs.map (·.1.name)).Nodup) :
    p.visits t vs =
      vs.map fun x => p.visit (p.urlOf x.1.name) x.1.name (t.get? x.1.name) x.2 := by
  induction vs generalizing t with
  | nil => rfl
  | cons v vs ih =>
    obtain ⟨hv, hvs⟩ := List.nodup_cons.mp h
    rw [visits, List.map_cons, ih hvs]
    congr 1
    refine List.map_congr_left fun x hx => ?_
    have hne : x.1.name ≠ v.1.name := fun he => hv (List.mem_map.mpr ⟨x, hx, he⟩)
    rw [Table.get?_settle_of_ne hne]

/-- With names of their own, each server ends up with the place that its own visit leaves it. -/
theorem get?_visited {vs : List (ServerConfig × Replies)} (h : (vs.map (·.1.name)).Nodup)
    {x : ServerConfig × Replies} (hx : x ∈ vs) :
    (p.visited t vs).get? x.1.name =
      (p.visit (p.urlOf x.1.name) x.1.name (t.get? x.1.name) x.2).place := by
  induction vs generalizing t with
  | nil => cases hx
  | cons v vs ih =>
    obtain ⟨hv, hvs⟩ := List.nodup_cons.mp h
    rcases List.mem_cons.mp hx with rfl | hx
    · rw [visited, get?_visited_of_notMem hv, Table.get?_settle_self place_visit]
    · have hne : x.1.name ≠ v.1.name := fun he => hv (List.mem_map.mpr ⟨x, hx, he⟩)
      rw [visited, ih hvs hx, Table.get?_settle_of_ne hne]

theorem urlOf_of_nodup (h : p.names.Nodup) (hs : s ∈ p.servers) : p.urlOf s.name = s.url := by
  obtain ⟨first, hfirst⟩ := exists_server? hs
  have hmem : first ∈ p.servers := List.mem_of_find?_eq_some hfirst
  have hsame : first = s := List.inj_on_of_nodup_map h hmem hs (name_of_server? hfirst)
  rw [urlOf_of_server? hfirst, hsame]

theorem gathered_eq (vs : List Visit) :
    gathered vs = if (vs.map (·.tools)).flatten.isEmpty then .error .allUnavailable
      else .ok (vs.map (·.tools)).flatten := by
  rw [← List.flatMap_def]
  rfl

/-- The tools of all servers are listed by visiting one after the other. -/
theorem leads_allTools {result : Except ServerError (List Handle)} :
    Leads p.allTools t cs result t' ↔ ∃ rs : List Replies, rs.length = p.servers.length ∧
      cs = (p.visits t (p.servers.zip rs)).flatMap (·.contacts) ∧
      result = gathered (p.visits t (p.servers.zip rs)) ∧
      t' = p.visited t (p.servers.zip rs) := by
  rw [allTools_eq, leads_bind_pure]
  simp only [leads_offers (fun _ h => h), gathered_eq]
  constructor
  · rintro ⟨-, ⟨rs, hlen, rfl, rfl, rfl⟩, rfl⟩
    exact ⟨rs, hlen, rfl, rfl, rfl⟩
  · rintro ⟨rs, hlen, rfl, rfl, rfl⟩
    exact ⟨_, ⟨rs, hlen, rfl, rfl, rfl⟩, rfl⟩

/-- However the servers reply, and whatever is in the table: the tools of all are listed by visiting
one server after the other, and every pattern of replies comes about. The result is what the visits
give, in order and each tool marked with its server; it is an error if that is nothing. If all names
differ, what a server gives and the place it ends up with follow from its own place and replies. -/
theorem allTools_visits (p : Pool) (t : Table) :
    (∀ cs result t', Leads p.allTools t cs result t' ↔
      ∃ rs : List Replies, rs.length = p.servers.length ∧
        cs = (p.visits t (p.servers.zip rs)).flatMap (·.contacts) ∧
        result = gathered (p.visits t (p.servers.zip rs)) ∧
        t' = p.visited t (p.servers.zip rs)) ∧
    (∀ url name place r, ∀ tool ∈ (p.visit url name place r).tools, Tagged name tool) ∧
    (p.names.Nodup → ∀ rs : List Replies, rs.length = p.servers.length →
      p.visits t (p.servers.zip rs) = (p.servers.zip rs).map (fun x =>
        p.visit x.1.url x.1.name (t.get? x.1.name) x.2) ∧
      ∀ x ∈ p.servers.zip rs, (p.visited t (p.servers.zip rs)).get? x.1.name =
        (p.visit x.1.url x.1.name (t.get? x.1.name) x.2).place) := by
  refine ⟨fun cs result t' => leads_allTools, p.tagged_of_visit, fun hnames rs hlen => ?_⟩
  · have hservers : (p.servers.zip rs).map (·.1) = p.servers := by
      rw [List.map_fst_zip (Nat.le_of_eq hlen.symm)]
    have hzip : ((p.servers.zip rs).map (·.1.name)).Nodup := by
      have hmap : (p.servers.zip rs).map (·.1.name) = p.names := calc
        _ = ((p.servers.zip rs).map (·.1)).map (·.name) := List.map_map.symm
        _ = p.names := by rw [hservers, names]
      rwa [hmap]
    have hurl (x : ServerConfig × Replies) (hx : x ∈ p.servers.zip rs) :
        p.urlOf x.1.name = x.1.url := by
      have hmem : x.1 ∈ p.servers := hservers ▸ List.mem_map_of_mem hx
      exact urlOf_of_nodup hnames hmem
    constructor
    · rw [visits_of_nodup hzip]
      exact List.map_congr_left fun x hx => by rw [hurl x hx]
    · intro x hx
      rw [get?_visited hzip hx, hurl x hx]

/-- Of two servers one is connected and lists a tool with its mark, and the other cannot be
reached. -/
theorem allTools_visits_sample :
    let p : Pool := ⟨[⟨"mail", "u"⟩, ⟨"maps", "v"⟩], 5, 5⟩
    let held : Session := ⟨"u", 1⟩
    let t : Table := [("mail", ⟨"u", true, some held⟩)]
    let send : ListedTool := ⟨"mail_send", "Sends a letter.", .str "to"⟩
    let rs : List Replies := [⟨some (.ok [send]), .ok (), none, none⟩, ⟨none, .ok (), none, none⟩]
    p.names.Nodup ∧ rs.length = p.servers.length ∧
      Leads p.allTools t [⟨.list held 5, some (.ok [send])⟩, ⟨.connect "v" 5, none⟩]
        (.ok [⟨"mail", "mail_send", "send", "Sends a letter.", .str "to"⟩]) t ∧
      (p.visited t (p.servers.zip rs)).get? "maps" = none := by
  intro p held t send rs
  have hnames : p.names.Nodup := by decide
  obtain ⟨hleads, -, halone⟩ := allTools_visits p t
  have hmaps := (halone hnames rs rfl).2 (⟨"maps", "v"⟩, ⟨none, .ok (), none, none⟩)
    (List.mem_cons_of_mem _ List.mem_cons_self)
  have hshort : Handle.shortName "mail" "mail_send" = "send" := by decide +kernel
  have hgiven : p.visits t (p.servers.zip rs) = [⟨[⟨.list held 5, some (.ok [send])⟩],
      [⟨"mail", "mail_send", "send", "Sends a letter.", .str "to"⟩], t.get? "mail"⟩,
      ⟨[⟨.connect "v" 5, none⟩], [], none⟩] := by
    rw [← hshort]
    rfl
  refine ⟨hnames, rfl, (hleads _ _ _).mpr ⟨rs, rfl, ?_⟩, hmaps⟩
  rw [hgiven]
  exact ⟨rfl, rfl, rfl⟩

end Switchboard.Pool

import Switchboard.Proofs.Connections

/-! What becomes of sessions that are opened: they are held, closed, or displaced by new ones. -/
namespace Switchboard.Pool

/-- The session is in the table. -/
def Table.Holds (t : Table) (s : Session) : Prop := ∃ name, t.session? name = some s

/-- The session that a request puts out of its place for a new one. -/
def Table.displacedBy (t : Table) : Request → List Session
  | .setEntry name c => if c.connected then (t.session? name).toList else []
  | _ => []

/-- The sessions that were put out of their places for new ones; nobody closes them. -/
def displaced : Table → Trace → List Session
  | _, [] => []
  | t, x :: tr => t.displacedBy x.1 ++ displaced (t.after x.1) tr

/-- What was held or is opened is held afterwards, or closed, or displaced. Only configured servers
are given places. -/
structure Account (p : Pool) (t : Table) (tr : Trace) (t' : Table) : Prop where
  kept : ∀ s, s ∈ tr.opened ∨ t.Holds s → t'.Holds s ∨ s ∈ tr.closed ∨ s ∈ displaced t tr
  configured : (∀ name ∈ t.keys, name ∈ p.names) → ∀ name ∈ t'.keys, name ∈ p.names

def Accounts {α : Type} (p : Pool) (w : Work α) : Prop :=
  ∀ t tr a t', w.Run tr a → Serve t tr t' → p.Account t tr t'

/-- However the work is done, it displaces no session. -/
def Spares {α : Type} (w : Work α) (t : Table) : Prop :=
  ∀ tr a t', w.Run tr a → Serve t tr t' → displaced t tr = []

variable {p : Pool} {t t' : Table} {tr tr' : Trace} {name : String} {α β : Type}

theorem displaced_append {t₁ : Table} (h : Serve t tr t₁) :
    displaced t (tr ++ tr') = displaced t tr ++ displaced t₁ tr' := by
  induction h with
  | nil => rfl
  | cons _ _ ih => rw [List.cons_append, displaced, ih, displaced, List.append_assoc]

/-- What the first part leaves is what the second has to account for. -/
theorem Account.append {t₁ : Table} (h : p.Account t tr t₁) (hserve : Serve t tr t₁)
    (h' : p.Account t₁ tr' t') : p.Account t (tr ++ tr') t' where
  kept s hs := by
    have hmid : s ∈ tr'.opened ∨ t₁.Holds s ∨ s ∈ tr.closed ∨ s ∈ displaced t tr := by
      rw [Trace.opened_append, List.mem_append, or_right_comm] at hs
      rcases hs with hs | hs
      · exact .inr (h.kept s hs)
      · exact .inl hs
    rw [displaced_append hserve, Trace.closed_append, List.mem_append, List.mem_append]
    have hlast := h'.kept s
    tauto
  configured hnames := h'.configured (h.configured hnames)

/-- A request that opens no session, closes none and gives no server a place. -/
def Request.Idle : Request → Prop
  | connect .. | close _ | setEntry .. => False
  | _ => True

theorem unchanged_of_idle (h : ∀ x ∈ tr, x.1.Idle) (hserve : Serve t tr t') :
    t' = t ∧ tr.opened = [] ∧ tr.closed = [] ∧ displaced t tr = [] := by
  induction hserve with
  | nil => exact ⟨rfl, rfl, rfl, rfl⟩
  | @cons t t' x tr _ _ ih =>
    obtain ⟨hx, htr⟩ := List.forall_mem_cons.mp h
    obtain ⟨r, answer⟩ := x
    cases r with
    | connect | close | setEntry => exact absurd hx id
    | _ => exact ih htr

theorem Table.Holds.put {s : Session} (h : t.Holds s) (name : String) (c : Connection) :
    Table.Holds (Dict.put name c t) s ∨ t.session? name = some s := by
  obtain ⟨name', hs⟩ := h
  by_cases he : name' = name
  · exact .inr (he ▸ hs)
  · exact .inl ⟨name', by rwa [Table.session?_put_of_ne he]⟩

/-- A server that has a place is disconnected: first it loses its session, then that is closed. -/
theorem run_disconnect {u : Unit} (hrun : (disconnect name).Run tr u) (hserve : Serve t tr t') :
    (t.get? name = none ∧ tr = [⟨.readTable, t⟩] ∧ t' = t) ∨
      ∃ c y, t.get? name = some c ∧ t' = Dict.put name c.dropped t ∧
        tr = ⟨.readTable, t⟩ :: ⟨.setEntry name c.dropped, ()⟩ :: closing (some c) y := by
  obtain ⟨shown, tr₁, rfl, hread⟩ := Program.run_send.mp hrun
  obtain ⟨rfl, hserve⟩ := serve_cons.mp hserve
  cases hget : shown.get? name with
  | none =>
    rw [hget] at hread
    obtain ⟨rfl, -⟩ := Program.run_done.mp hread
    exact .inl ⟨rfl, rfl, serve_nil.mp hserve⟩
  | some c =>
    rw [hget] at hread
    obtain ⟨⟨⟩, tr₂, rfl, hset⟩ := Program.run_send.mp hread
    obtain ⟨-, hserve⟩ := serve_cons.mp hserve
    right
    cases hc : c.session with
    | none =>
      rw [hc] at hset
      obtain ⟨rfl, -⟩ := Program.run_done.mp hset
      exact ⟨c, .ok (), rfl, serve_nil.mp hserve, by simp [closing, hc]⟩
    | some s =>
      rw [hc] at hset
      obtain ⟨y, tr₃, rfl, hclose⟩ := Program.run_send.mp hset
      obtain ⟨rfl, -⟩ := Program.run_done.mp hclose
      obtain ⟨-, hserve⟩ := serve_cons.mp hserve
      exact ⟨c, y, rfl, serve_nil.mp hserve, by simp [closing, hc]⟩

theorem run_connect {s : ServerConfig} {r : Except ServerError Unit} (hrun : (p.connect s).Run tr r)
    (hserve : Serve t tr t') :
    (∃ x, x.value? = none ∧ tr = [⟨.connect s.url p.requestLimit, x⟩] ∧ t' = t) ∨
      ∃ session, tr = [⟨.connect s.url p.requestLimit, some (.ok session)⟩,
          ⟨.setEntry s.name (.to s.url session), ()⟩] ∧
        t' = Dict.put s.name (.to s.url session) t := by
  obtain ⟨x, tr₁, rfl, hasked⟩ := Program.run_send.mp hrun
  obtain ⟨-, hserve⟩ := serve_cons.mp hserve
  match x with
  | none =>
    obtain ⟨rfl, -⟩ := Program.run_done.mp hasked
    exact .inl ⟨none, rfl, rfl, serve_nil.mp hserve⟩
  | some (.error e) =>
    obtain ⟨rfl, -⟩ := Program.run_done.mp hasked
    exact .inl ⟨some (.error e), rfl, rfl, serve_nil.mp hserve⟩
  | some (.ok session) =>
    obtain ⟨⟨⟩, tr₂, rfl, hset⟩ := Program.run_send.mp hasked
    obtain ⟨rfl, -⟩ := Program.run_done.mp hset
    obtain ⟨-, hserve⟩ := serve_cons.mp hserve
    exact .inr ⟨session, rfl, serve_nil.mp hserve⟩

theorem sequential_accounts (p : Pool) : Sequential (fun w => p.Accounts w) where
  pure a t tr b t' hrun hserve := by
    obtain ⟨rfl, -⟩ := Program.run_done.mp hrun
    rw [serve_nil.mp hserve]
    exact ⟨fun s hs => .inl (hs.resolve_left List.not_mem_nil), id⟩
  bind hw hf t tr b t' hrun hserve := by
    obtain ⟨tr₁, a, tr₂, rfl, hw', hf'⟩ := Program.run_bind.mp hrun
    obtain ⟨t₁, h₁, h₂⟩ := serve_append.mp hserve
    exact (hw t tr₁ a t₁ hw' h₁).append h₁ (hf a t₁ tr₂ b t' hf' h₂)

theorem closed_closing {place : Option Connection} {y : Except ServerError Unit} {s : Session} :
    s ∈ (closing place y).closed ↔ place.bind (·.session) = some s := by
  unfold closing
  cases place.bind (·.session) with
  | none => simp [Trace.closed]
  | some s' => simp [Trace.closed, Exchange.closed?, eq_comm]

theorem opened_closing (place : Option Connection) (y : Except ServerError Unit) :
    (closing place y).opened = [] := by
  unfold closing
  cases place.bind (·.session) <;> rfl

theorem displaced_closing (t : Table) (place : Option Connection) (y : Except ServerError Unit) :
    displaced t (closing place y) = [] := by
  unfold closing
  cases place.bind (·.session) <;> rfl

theorem accounts_disconnect (p : Pool) (name : String) : p.Accounts (disconnect name) := by
  intro t tr u t' hrun hserve
  obtain ⟨-, rfl, rfl⟩ | ⟨c, y, hget, rfl, rfl⟩ := run_disconnect hrun hserve
  · exact ⟨fun s hs => .inl (hs.resolve_left List.not_mem_nil), id⟩
  · have hplace : t.session? name = c.session := by rw [Table.session?, hget]; rfl
    constructor
    · intro s hs
      have hheld : t.Holds s := by
        refine hs.resolve_left fun hs => ?_
        have hnone : s ∈ (closing (some c) y).opened := hs
        rw [opened_closing] at hnone
        cases hnone
      refine (hheld.put name c.dropped).imp_right fun hs => .inl ?_
      have hclosed : s ∈ (closing (some c) y).closed := closed_closing.mpr (hplace.symm.trans hs)
      exact hclosed
    · intro hnames name' hmem
      rcases Dict.mem_keys_put.mp hmem with rfl | hmem
      · exact hnames name' (Dict.mem_keys_of_get? hget)
      · exact hnames name' hmem

theorem accounts_connect {s : ServerConfig} (hs : s ∈ p.servers) : p.Accounts (p.connect s) := by
  intro t tr r t' hrun hserve
  obtain ⟨x, hx, rfl, rfl⟩ | ⟨session, rfl, rfl⟩ := run_connect hrun hserve
  · refine ⟨fun s hs => .inl (hs.resolve_left ?_), id⟩
    simp [Trace.opened, Exchange.opened?, hx]
  · constructor
    · rintro s' (hopened | hheld)
      · have he : s' = session := by
          simpa [Trace.opened, Exchange.opened?, Timed.value?] using hopened
        exact .inl ⟨s.name, by rw [Table.session?_put_self, he]; rfl⟩
      · refine (hheld.put s.name _).imp_right fun hs => .inr ?_
        simp [displaced, Table.displacedBy, Table.after, Connection.to, hs]
    · intro hnames name hmem
      rcases Dict.mem_keys_put.mp hmem with rfl | hmem
      · exact List.mem_map_of_mem hs
      · exact hnames name hmem

theorem accounts_of_only {w : Work α} (h : w.Only Request.Idle) : p.Accounts w := by
  intro t tr a t' hrun hserve
  obtain ⟨rfl, hopened, -, -⟩ := unchanged_of_idle (h.of_mem hrun) hserve
  refine ⟨fun s hs => .inl (hs.resolve_left ?_), id⟩
  rw [hopened]
  exact List.not_mem_nil

theorem spares_of_only {w : Work α} (h : w.Only Request.Idle) (t : Table) : Spares w t :=
  fun _ _ _ hrun hserve => (unchanged_of_idle (h.of_mem hrun) hserve).2.2.2

theorem fetch_only (p : Pool) (name : String) (s : Session) :
    (p.fetch name s).Only Request.Idle := by
  rw [fetch_eq]
  exact ⟨trivial, fun _ => trivial⟩

theorem fetchHeld_only (p : Pool) (name : String) : (p.fetchHeld name).Only Request.Idle :=
  inSession_only trivial (p.fetch_only name) name

theorem call_only (p : Pool) (tool : Handle) (args : Json) :
    (p.call tool args).Only Request.Idle := by
  rw [call_eq]
  split
  · have hcall (s : Session) : (p.callIn tool args s).Only Request.Idle :=
      ⟨trivial, fun _ => ⟨trivial, fun _ => trivial⟩⟩
    exact inSession_only trivial hcall tool.server
  · trivial

theorem accounts_work (p : Pool) (op : Op) : p.Accounts (op.work p) := by
  have hseq : Sequential (fun w => p.Accounts w) := sequential_accounts p
  have hconnect (s : ServerConfig) (hs : s ∈ p.servers) : p.Accounts (p.connect s) :=
    accounts_connect hs
  exact hseq.work (accounts_disconnect p) (hseq.reconnect (accounts_disconnect p) hconnect)
    (fun name => accounts_of_only (p.fetchHeld_only name))
    (fun tool args => accounts_of_only (p.call_only tool args))
    fun _ => hseq.connectAll hconnect

theorem Spares.bind {w : Work α} {f : α → Work β} (hw : Spares w t)
    (hf : ∀ tr a t₁, w.Run tr a → Serve t tr t₁ → Spares (f a) t₁) : Spares (w >>= f) t := by
  intro tr b t' hrun hserve
  obtain ⟨tr₁, a, tr₂, rfl, hw', hf'⟩ := Program.run_bind.mp hrun
  obtain ⟨t₁, h₁, h₂⟩ := serve_append.mp hserve
  rw [displaced_append h₁, hw tr₁ a t₁ hw' h₁, hf tr₁ a t₁ hw' h₁ tr₂ b t' hf' h₂]
  rfl

theorem Spares.pure (a : α) (t : Table) : Spares (Pure.pure a) t := by
  intro tr b t' hrun _
  obtain ⟨rfl, -⟩ := Program.run_done.mp hrun
  rfl

theorem spares_disconnect (name : String) (t : Table) : Spares (disconnect name) t := by
  intro tr u t' hrun hserve
  obtain ⟨-, rfl, -⟩ | ⟨c, y, -, -, rfl⟩ := run_disconnect hrun hserve
  · rfl
  · exact displaced_closing _ (some c) y

theorem spares_connect {s : ServerConfig} (h : t.session? s.name = none) :
    Spares (p.connect s) t := by
  intro tr r t' hrun hserve
  obtain ⟨x, -, rfl, -⟩ | ⟨session, rfl, -⟩ := run_connect hrun hserve
  · rfl
  · simp [displaced, Table.displacedBy, Table.after, h]

theorem session?_of_disconnect {u : Unit} (hrun : (disconnect name).Run tr u)
    (hserve : Serve t tr t') : t'.session? name = none := by
  obtain ⟨rfl, -⟩ := leads_disconnect.mp ⟨tr, hrun, hserve, rfl⟩
  rw [Table.session?, Table.get?_settle_self (by simp)]
  cases t.get? name <;> rfl

/-- Whoever is reconnected has lost the old session before. -/
theorem spares_reconnect (p : Pool) (name : String) (t : Table) : Spares (p.reconnect name) t := by
  unfold reconnect
  cases hs : p.servers.find? (·.name = name) with
  | none => exact Spares.pure false t
  | some s =>
    have hname : s.name = name := name_of_server? hs
    refine (spares_disconnect name t).bind fun tr u t₁ hrun hserve => ?_
    refine Spares.bind (spares_connect ?_) fun tr made t₂ _ _ => ?_
    · rw [hname]
      exact session?_of_disconnect hrun hserve
    · cases made with
      | ok => exact Spares.pure true t₂
      | error => exact Spares.pure false t₂

/-- No configured server has a session. -/
def Vacant (p : Pool) (t : Table) : Prop := ∀ name ∈ p.names, t.session? name = none

theorem vacant_of_shutdown {u : Unit} (hrun : p.shutdown.Run tr u) (hserve : Serve t tr t') :
    p.Vacant t' := by
  intro name hname
  rw [Table.session?, get?_of_shutdown ⟨tr, hrun, hserve, rfl⟩ hname]
  cases t.get? name <;> rfl

/-- Servers with names of their own, none of which has a session yet, can all be connected. -/
theorem spares_connects {l : List ServerConfig} (hnames : (l.map (·.name)).Nodup)
    (h : ∀ s ∈ l, t.session? s.name = none) :
    Spares (l.forM fun s => discard (p.connect s)) t := by
  induction l generalizing t with
  | nil => exact Spares.pure () t
  | cons s l ih =>
    obtain ⟨hs, hl⟩ := List.forall_mem_cons.mp h
    obtain ⟨hnew, hnames⟩ := List.nodup_cons.mp hnames
    refine Spares.bind ((spares_connect hs).bind fun _ _ _ _ _ => Spares.pure () _) ?_
    intro tr u t₁ hrun hserve
    obtain ⟨tr₁, r, tr₂, rfl, hconnect, hdone⟩ := Program.run_bind.mp hrun
    obtain ⟨rfl, -⟩ := Program.run_done.mp hdone
    rw [List.append_nil] at hserve
    refine ih hnames fun other hother => ?_
    have hne : other.name ≠ s.name := fun he => hnew (List.mem_map.mpr ⟨other, hother, he⟩)
    obtain ⟨x, -, -, rfl⟩ | ⟨session, -, rfl⟩ := run_connect hconnect hserve
    · exact hl other hother
    · rw [Table.session?_put_of_ne hne]
      exact hl other hother

theorem spares_work {op : Op} (h : op = .connectAll → p.names.Nodup ∧ p.Vacant t) :
    Spares (op.work p) t := by
  have hseq : Sequential (fun {α} (w : Work α) => ∀ t, Spares w t) :=
    ⟨fun a t => Spares.pure a t, fun hw hf t => (hw t).bind fun _ a t₁ _ _ => hf a t₁⟩
  by_cases hop : op = .connectAll
  · obtain ⟨hnames, hvacant⟩ := h hop
    subst hop
    exact spares_connects hnames fun s hs => hvacant s.name (List.mem_map_of_mem hs)
  · exact hseq.work spares_disconnect p.spares_reconnect
      (fun name => spares_of_only (p.fetchHeld_only name))
      (fun tool args => spares_of_only (p.call_only tool args)) (fun he => absurd he hop) t

/-- All servers are connected only at the beginning and after a shutdown. -/
def Careful (ops : List Op) : Prop :=
  (Op.shutdown :: ops).IsChain fun before op => op = .connectAll → before = .shutdown

theorem spares_perform {ops : List Op} {before : Op}
    (hops : (before :: ops).IsChain fun before op => op = .connectAll → before = .shutdown)
    (hnames : p.names.Nodup) (ht : before = .shutdown → p.Vacant t) :
    Spares (p.perform ops) t := by
  induction ops generalizing t before with
  | nil => exact Spares.pure () t
  | cons op ops ih =>
    obtain ⟨hop, hops⟩ := List.isChain_cons_cons.mp hops
    refine Spares.bind (spares_work fun he => ⟨hnames, ht (hop he)⟩) fun tr u t₁ hrun hserve => ?_
    refine ih hops fun he => ?_
    subst he
    exact vacant_of_shutdown hrun hserve

theorem vacant_of_last {ops : List Op} {u : Unit} (hlast : ops.getLast? = some .shutdown)
    (hrun : (p.perform ops).Run tr u) (hserve : Serve t tr t') : p.Vacant t' := by
  obtain ⟨before, rfl⟩ := List.getLast?_eq_some_iff.mp hlast
  change (forM (before ++ [Op.shutdown]) (Op.work p)).Run tr u at hrun
  rw [List.forM_append] at hrun
  obtain ⟨tr₁, _, tr₂, rfl, -, hrest⟩ := Program.run_bind.mp hrun
  obtain ⟨tr₃, _, tr₄, rfl, hshutdown, hdone⟩ := Program.run_bind.mp hrest
  obtain ⟨rfl, -⟩ := Program.run_done.mp hdone
  obtain ⟨t₁, -, hserve⟩ := serve_append.mp hserve
  rw [List.append_nil] at hserve
  exact vacant_of_shutdown hshutdown hserve

/-- Every session that is opened is held, closed, or displaced by one that was opened later. None is
displaced if the names differ and all servers are connected only at the beginning and after
a shutdown; and after a last shutdown none is held. -/
theorem sessions_accounted {p : Pool} {ops : List Op} {tr : Trace} {t : Table}
    (hrun : (p.perform ops).Run tr ()) (hserve : Serve [] tr t) :
    (∀ s ∈ tr.opened, t.Holds s ∨ s ∈ tr.closed ∨ s ∈ displaced [] tr) ∧
    (p.names.Nodup → Careful ops → ∀ s ∈ tr.opened, t.Holds s ∨ s ∈ tr.closed) ∧
    (ops.getLast? = some .shutdown → ∀ s, ¬ t.Holds s) := by
  have haccount : p.Account [] tr t :=
    (sequential_accounts p).forM (fun op _ => p.accounts_work op) [] tr () t hrun hserve
  refine ⟨fun s hs => haccount.kept s (.inl hs), fun hnames hops s hs => ?_, fun hlast => ?_⟩
  · have hnone : displaced [] tr = [] :=
      spares_perform hops hnames (fun _ => fun _ _ => rfl) tr () t hrun hserve
    have hkept := haccount.kept s (.inl hs)
    rw [hnone] at hkept
    exact hkept.imp_right fun h => h.resolve_right List.not_mem_nil
  · have hvacant : p.Vacant t := vacant_of_last hlast hrun hserve
    rintro s ⟨name, hs⟩
    obtain ⟨c, hget, -⟩ := Option.bind_eq_some_iff.mp hs
    have hname : name ∈ p.names := haccount.configured nofun name (Dict.mem_keys_of_get? hget)
    rw [hvacant name hname] at hs
    cases hs

theorem sessions_accounted_sample :
    let p : Pool := ⟨[⟨"mail", "u"⟩], 5, 5⟩
    let s : Session := ⟨"u", 1⟩
    let place : Connection := ⟨"u", true, some s⟩
    let t : Table := [("mail", place.dropped)]
    let tr : Trace := [⟨.connect "u" 5, some (.ok s)⟩, ⟨.setEntry "mail" place, ()⟩,
      ⟨.readTable, [("mail", place)]⟩, ⟨.setEntry "mail" place.dropped, ()⟩, ⟨.close s, .ok ()⟩]
    (p.perform [.connectAll, .shutdown]).Run tr () ∧ Serve [] tr t ∧ p.names.Nodup ∧
      Careful [.connectAll, .shutdown] ∧ (∀ s ∈ tr.opened, t.Holds s ∨ s ∈ tr.closed) ∧
      ∀ s, ¬ t.Holds s := by
  intro p s place t tr
  have hrun : (p.perform [.connectAll, .shutdown]).Run tr () :=
    Program.run_ask.mpr ⟨some (.ok s), _, rfl, Program.run_ask.mpr ⟨(), _, rfl,
      Program.run_ask.mpr ⟨[("mail", place)], _, rfl, Program.run_ask.mpr ⟨(), _, rfl,
      Program.run_ask.mpr ⟨.ok (), [], rfl, Program.run_done.mpr ⟨rfl, rfl⟩⟩⟩⟩⟩⟩
  have hserve : Serve [] tr t :=
    .cons trivial (.cons trivial (.cons rfl (.cons trivial (.cons trivial (.nil _)))))
  have hnames : p.names.Nodup := by decide
  have hops : Careful [.connectAll, .shutdown] := by simp [Careful]
  obtain ⟨-, hcareful, hlast⟩ := sessions_accounted hrun hserve
  exact ⟨hrun, hserve, hnames, hops, hcareful hnames hops, hlast rfl⟩

/-- A server that is connected twice: its first session is neither held nor closed after
the shutdown. -/
theorem session_displaced :
    let p : Pool := ⟨[⟨"mail", "u"⟩], 5, 5⟩
    let first : Session := ⟨"u", 1⟩
    let second : Session := ⟨"u", 2⟩
    let place : Connection := ⟨"u", true, some second⟩
    let t : Table := [("mail", place.dropped)]
    let tr : Trace := [⟨.connect "u" 5, some (.ok first)⟩,
      ⟨.setEntry "mail" ⟨"u", true, some first⟩, ()⟩, ⟨.connect "u" 5, some (.ok second)⟩,
      ⟨.setEntry "mail" place, ()⟩, ⟨.readTable, [("mail", place)]⟩,
      ⟨.setEntry "mail" place.dropped, ()⟩, ⟨.close second, .ok ()⟩]
    (p.perform [.connectAll, .connectAll, .shutdown]).Run tr () ∧ Serve [] tr t ∧
      first ∈ tr.opened ∧ ¬ t.Holds first ∧ first ∉ tr.closed := by
  intro p first second place t tr
  refine ⟨?_, ?_, ?_, ?_, ?_⟩
  · exact Program.run_ask.mpr ⟨some (.ok first), _, rfl, Program.run_ask.mpr ⟨(), _, rfl,
      Program.run_ask.mpr ⟨some (.ok second), _, rfl, Program.run_ask.mpr ⟨(), _, rfl,
      Program.run_ask.mpr ⟨[("mail", place)], _, rfl, Program.run_ask.mpr ⟨(), _, rfl,
      Program.run_ask.mpr ⟨.ok (), [], rfl, Program.run_done.mpr ⟨rfl, rfl⟩⟩⟩⟩⟩⟩⟩⟩
  · exact .cons trivial (.cons trivial (.cons trivial (.cons trivial (.cons rfl (.cons trivial
      (.cons trivial (.nil _)))))))
  · exact List.mem_cons_self
  · rintro ⟨name, hs⟩
    obtain ⟨c, hget, hc⟩ := Option.bind_eq_some_iff.mp hs
    obtain ⟨e, he, rfl⟩ := Option.map_eq_some_iff.mp hget
    have hmem : e ∈ t := List.mem_of_find?_eq_some he
    rw [List.mem_singleton.mp hmem] at hc
    cases hc
  · decide

end Switchboard.Pool

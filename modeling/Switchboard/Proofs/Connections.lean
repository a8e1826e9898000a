import Switchboard.Proofs.ToolListing

/-! The table of the connections stays in order, whatever is done and whatever the servers reply. -/
namespace Switchboard.Pool

def Request.session? : Request → Option Session
  | list s _ => some s
  | call s .. => some s
  | close s => some s
  | _ => none

def Table.session? (t : Table) (name : String) : Option Session :=
  (t.get? name).bind (·.session)

/-- The table goes with what was exchanged before: its names are configured, a server is connected
if it has a session, and sessions in the table are open ones, each in one place. No session is
closed twice. -/
structure Sound (p : Pool) (past : Trace) (t : Table) : Prop where
  configured : ∀ name ∈ t.keys, name ∈ p.names
  connected_iff : ∀ name c, t.get? name = some c → (c.connected = true ↔ c.session.isSome = true)
  held : ∀ name s, t.session? name = some s → s ∈ past.opened ∧ s ∉ past.closed
  apart : ∀ name name' s, t.session? name = some s → t.session? name' = some s → name = name'
  closed_opened : ∀ s ∈ past.closed, s ∈ past.opened
  closed_nodup : past.closed.Nodup

/-- Wherever the work asks, the table is in order and the request goes to an open session, if each
connection is given a session of its own. -/
def Keeps {α : Type} (p : Pool) : Work α → Trace → Table → Prop
  | .done _, past, t => p.Sound past t
  | .ask r next, past, t => p.Sound past t ∧
      (∀ s, r.session? = some s → s ∈ past.opened ∧ s ∉ past.closed) ∧
      ∀ x, t.Shows ⟨r, x⟩ → (∀ s, Exchange.opened? ⟨r, x⟩ = some s → s ∉ past.opened) →
        p.Keeps (next x) (past ++ [⟨r, x⟩]) (t.after r)

/-- Begun with a table in order, the work keeps it so. -/
def Safe {α : Type} (p : Pool) (w : Work α) : Prop :=
  ∀ past t, p.Sound past t → p.Keeps w past t

variable {p : Pool} {past : Trace} {t : Table} {name : String} {s : Session} {α β : Type}

namespace Table

theorem session?_put_self (name : String) (c : Connection) (t : Table) :
    session? (Dict.put name c t) name = c.session := by
  rw [session?, Dict.get?_put_self]
  rfl

theorem session?_put_of_ne {name' : String} (h : name' ≠ name) (c : Connection) (t : Table) :
    session? (Dict.put name c t) name' = t.session? name' := by
  rw [session?, Dict.get?_put_of_ne h]
  rfl

end Table

namespace Sound

theorem empty (p : Pool) : p.Sound [] [] where
  configured := nofun
  connected_iff := nofun
  held := nofun
  apart := nofun
  closed_opened := nofun
  closed_nodup := .nil

theorem put {c : Connection} (h : p.Sound past t) (hname : name ∈ p.names)
    (hc : c.connected = true ↔ c.session.isSome = true)
    (hs : ∀ s, c.session = some s → (s ∈ past.opened ∧ s ∉ past.closed) ∧
      ∀ name', t.session? name' ≠ some s) :
    p.Sound past (Dict.put name c t) where
  configured name' hmem := by
    rcases Dict.mem_keys_put.mp hmem with rfl | hmem
    · exact hname
    · exact h.configured name' hmem
  connected_iff name' c' hget := by
    by_cases he : name' = name
    · subst he
      rw [Dict.get?_put_self] at hget
      cases hget
      exact hc
    · rw [Dict.get?_put_of_ne he] at hget
      exact h.connected_iff name' c' hget
  held name' s hget := by
    by_cases he : name' = name
    · subst he
      rw [Table.session?_put_self] at hget
      exact (hs s hget).1
    · rw [Table.session?_put_of_ne he] at hget
      exact h.held name' s hget
  apart name₁ name₂ s h₁ h₂ := by
    by_cases he₁ : name₁ = name
    · by_cases he₂ : name₂ = name
      · rw [he₁, he₂]
      · subst he₁
        rw [Table.session?_put_self] at h₁
        rw [Table.session?_put_of_ne he₂] at h₂
        exact absurd h₂ ((hs s h₁).2 name₂)
    · rw [Table.session?_put_of_ne he₁] at h₁
      by_cases he₂ : name₂ = name
      · subst he₂
        rw [Table.session?_put_self] at h₂
        exact absurd h₁ ((hs s h₂).2 name₁)
      · rw [Table.session?_put_of_ne he₂] at h₂
        exact h.apart name₁ name₂ s h₁ h₂
  closed_opened := h.closed_opened
  closed_nodup := h.closed_nodup

theorem append {x : Exchange} (h : p.Sound past t) (hx : x.closed? = none) :
    p.Sound (past ++ [x]) t := by
  have hclosed : (past ++ [x]).closed = past.closed := by simp [Trace.closed, hx]
  have hopened : past.opened ⊆ (past ++ [x]).opened := by simp
  refine ⟨h.configured, h.connected_iff, fun name s hs => ?_, h.apart, fun s hs => ?_, ?_⟩
  · obtain ⟨ho, hc⟩ := h.held name s hs
    rw [hclosed]
    exact ⟨hopened ho, hc⟩
  · rw [hclosed] at hs
    exact hopened (h.closed_opened s hs)
  · rw [hclosed]
    exact h.closed_nodup

theorem close {answer : Except ServerError Unit} (h : p.Sound past t) (ho : s ∈ past.opened)
    (hc : s ∉ past.closed) (hout : ∀ name, t.session? name ≠ some s) :
    p.Sound (past ++ [⟨.close s, answer⟩]) t := by
  have hclosed : (past ++ [⟨.close s, answer⟩] : Trace).closed = past.closed ++ [s] := by
    rw [Trace.closed_append]
    rfl
  have hopened : (past ++ [⟨.close s, answer⟩] : Trace).opened = past.opened := by
    rw [Trace.opened_append]
    exact List.append_nil _
  refine ⟨h.configured, h.connected_iff, fun name s' hs' => ?_, h.apart, fun s' hs' => ?_, ?_⟩
  · obtain ⟨ho', hc'⟩ := h.held name s' hs'
    have hne : s' ≠ s := fun he => hout name (he ▸ hs')
    rw [hopened, hclosed]
    exact ⟨ho', by simp [hc', hne]⟩
  · rw [hclosed] at hs'
    rw [hopened]
    rcases List.mem_append.mp hs' with hs' | hs'
    · exact h.closed_opened s' hs'
    · rwa [List.mem_singleton.mp hs']
  · rw [hclosed]
    exact h.closed_nodup.append (List.nodup_singleton s) (by simpa using hc)

/-- The session of a connected server is open. -/
theorem live (h : p.Sound past t) (hs : sessionOf? t name = some s) :
    s ∈ past.opened ∧ s ∉ past.closed := by
  obtain ⟨c, hget, hlive⟩ := Option.bind_eq_some_iff.mp hs
  refine h.held name s (Option.bind_eq_some_iff.mpr ⟨c, hget, ?_⟩)
  unfold Connection.live? at hlive
  split at hlive
  · exact hlive
  · cases hlive

end Sound

theorem keeps_send_bind {r : Request} {f : r.Answer → Work α} (h : p.Sound past t)
    (huse : ∀ s, r.session? = some s → s ∈ past.opened ∧ s ∉ past.closed)
    (hnext : ∀ x, t.Shows ⟨r, x⟩ →
      (∀ s, Exchange.opened? ⟨r, x⟩ = some s → s ∉ past.opened) →
      p.Keeps (f x) (past ++ [⟨r, x⟩]) (t.after r)) :
    p.Keeps (r.send >>= f) past t :=
  ⟨h, huse, hnext⟩

theorem keeps_free_bind {r : Request} {f : r.Answer → Work α} (h : p.Sound past t)
    (hr : r.session? = none)
    (hnext : ∀ x, t.Shows ⟨r, x⟩ →
      (∀ s, Exchange.opened? ⟨r, x⟩ = some s → s ∉ past.opened) →
      p.Keeps (f x) (past ++ [⟨r, x⟩]) (t.after r)) :
    p.Keeps (r.send >>= f) past t := by
  refine keeps_send_bind h (fun s hs => ?_) hnext
  rw [hr] at hs
  cases hs

theorem keeps_readTable_bind {f : Table → Work α} (h : p.Sound past t)
    (hf : ∀ past, p.Sound past t → p.Keeps (f t) past t) :
    p.Keeps (Request.readTable.send >>= f) past t := by
  apply keeps_free_bind h rfl
  rintro shown rfl -
  exact hf _ (h.append rfl)

namespace Keeps

theorem sound {w : Work α} (h : p.Keeps w past t) : p.Sound past t := by
  cases w with
  | done a => exact h
  | ask r next => exact h.1

theorem bind {w : Work α} {f : α → Work β} (hw : p.Keeps w past t) (hf : ∀ a, p.Safe (f a)) :
    p.Keeps (w >>= f) past t := by
  induction w generalizing past t with
  | done a => exact hf a past t hw
  | ask r next ih =>
    obtain ⟨hsound, huse, hnext⟩ := hw
    exact ⟨hsound, huse, fun x hshows hfresh => ih x (hnext x hshows hfresh)⟩

theorem of_after {w left : Work α} {tr : Trace} {t' : Table} (hw : p.Keeps w past t)
    (h : w.After tr left) (ht : Serve t tr t') (hfresh : (past ++ tr).opened.Nodup) :
    p.Keeps left (past ++ tr) t' := by
  induction h generalizing past t with
  | here =>
    rw [serve_nil.mp ht, List.append_nil]
    exact hw
  | @ask r next x tr left _ ih =>
    obtain ⟨hshows, ht⟩ := serve_cons.mp ht
    rw [List.append_cons] at hfresh ⊢
    refine ih (hw.2.2 x hshows fun s hs hmem => ?_) ht hfresh
    rw [Trace.opened_append, Trace.opened_append] at hfresh
    have hnew : s ∈ Trace.opened [⟨r, x⟩] := by simp [Trace.opened, hs]
    exact (List.nodup_append.mp (List.nodup_append.mp hfresh).1).2.2 s hmem s hnew rfl

end Keeps

theorem sequential_safe (p : Pool) : Sequential (fun w => p.Safe w) where
  pure _ _ _ h := h
  bind hw hf past t h := (hw past t h).bind hf

/-- The session is out of the table before it is closed. -/
theorem safe_disconnect (p : Pool) (name : String) : p.Safe (disconnect name) := by
  intro past t h
  apply keeps_readTable_bind h
  intro past h
  cases hget : t.get? name with
  | none => exact h
  | some c =>
    have hname : name ∈ p.names := h.configured name (Dict.mem_keys_of_get? hget)
    apply keeps_free_bind h rfl
    rintro - - -
    have hdropped : p.Sound (past ++ [⟨.setEntry name c.dropped, ()⟩])
        (Dict.put name c.dropped t) :=
      (h.append rfl).put hname (by simp [Connection.dropped]) nofun
    cases hc : c.session with
    | none => exact hdropped
    | some s =>
      have hplace : t.session? name = some s := by rw [Table.session?, hget]; exact hc
      obtain ⟨ho, hclosed⟩ := h.held name s hplace
      have hout (name' : String) :
          Table.session? (Dict.put name c.dropped t) name' ≠ some s := by
        by_cases he : name' = name
        · subst he
          rw [Table.session?_put_self]
          exact nofun
        · rw [Table.session?_put_of_ne he]
          exact fun hs => he (h.apart name' name s hs hplace)
      have hopened : s ∈ (past ++ [⟨.setEntry name c.dropped, ()⟩] : Trace).opened := by simp [ho]
      have hnot : s ∉ (past ++ [⟨.setEntry name c.dropped, ()⟩] : Trace).closed := by
        simpa [Trace.closed, Exchange.closed?] using hclosed
      apply keeps_send_bind hdropped
      · rintro s' ⟨⟩
        exact ⟨hopened, hnot⟩
      · intro answer _ _
        exact hdropped.close hopened hnot hout

/-- A new session takes the place of whatever was there. -/
theorem safe_connect {s : ServerConfig} (hs : s ∈ p.servers) : p.Safe (p.connect s) := by
  intro past t h
  have hname : s.name ∈ p.names := List.mem_map_of_mem hs
  apply keeps_free_bind h rfl
  intro x _ hfresh
  have hasked := h.append (x := ⟨.connect s.url p.requestLimit, x⟩) rfl
  match x, hfresh, hasked with
  | none, _, hasked => exact hasked
  | some (.error e), _, hasked => exact hasked
  | some (.ok session), hfresh, hasked =>
    have hnew : session ∉ past.opened := hfresh session rfl
    apply keeps_free_bind hasked rfl
    intro _ _ _
    refine (hasked.append rfl).put hname (by simp) fun s' hs' => ?_
    cases hs'
    refine ⟨⟨?_, ?_⟩, fun name' hheld => hnew (h.held name' session hheld).1⟩
    · simp [Trace.opened, Exchange.opened?, Timed.value?]
    · have hclosed : session ∉ past.closed := fun hmem => hnew (h.closed_opened session hmem)
      simpa [Trace.closed, Exchange.closed?] using hclosed

theorem keeps_fetch (h : p.Sound past t) (hs : s ∈ past.opened ∧ s ∉ past.closed) :
    p.Keeps (p.fetch name s) past t := by
  rw [fetch_eq]
  apply keeps_send_bind h
  · rintro s' ⟨⟩
    exact hs
  · intro x _ _
    exact h.append rfl

theorem safe_inSession {f : Session → Work (Except ServerError α)}
    (hf : ∀ past t s, p.Sound past t → s ∈ past.opened ∧ s ∉ past.closed → p.Keeps (f s) past t) :
    p.Safe (inSession name f) := by
  intro past t h
  apply keeps_readTable_bind h
  intro past h
  cases hlive : sessionOf? t name with
  | none => exact h
  | some s => exact hf past t s h (h.live hlive)

theorem safe_fetchHeld (p : Pool) (name : String) : p.Safe (p.fetchHeld name) :=
  safe_inSession fun _ _ _ h hs => keeps_fetch h hs

theorem safe_call (p : Pool) (tool : Handle) (args : Json) : p.Safe (p.call tool args) := by
  rw [call_eq]
  split
  · refine safe_inSession fun past t s h hs => ?_
    apply keeps_send_bind h
    · rintro s' ⟨⟩
      exact hs
    · intro answer _ _
      apply keeps_free_bind (h.append rfl) rfl
      intro _ _ _
      exact (h.append rfl).append rfl
  · exact fun _ _ h => h

theorem safe_work (p : Pool) (op : Op) : p.Safe (op.work p) := by
  have hseq : Sequential (fun w => p.Safe w) := sequential_safe p
  have hconnect (s : ServerConfig) (hs : s ∈ p.servers) : p.Safe (p.connect s) := safe_connect hs
  have hreconnect : ∀ name, p.Safe (p.reconnect name) :=
    hseq.reconnect (safe_disconnect p) hconnect
  exact hseq.work (safe_disconnect p) hreconnect (safe_fetchHeld p) (safe_call p)
    fun _ => hseq.connectAll hconnect

/-- Wherever a sequence of operations stands, the table is in order and no closed session was
used. -/
theorem sound_of_after {ops : List Op} {tr : Trace} {left : Work Unit}
    (h : (p.perform ops).After tr left) (ht : Serve [] tr t) (hfresh : tr.opened.Nodup) :
    p.Sound tr t ∧ ∀ (before : Trace) x after, tr = before ++ x :: after →
      ∀ s, x.1.session? = some s → s ∈ before.opened ∧ s ∉ before.closed := by
  have hkeeps : p.Keeps (p.perform ops) [] [] :=
    (sequential_safe p).forM (fun op _ => safe_work p op) [] [] (Sound.empty p)
  constructor
  · exact (hkeeps.of_after h ht hfresh).sound
  · rintro before x after rfl s hs
    obtain ⟨mid, hmid, hrest⟩ := Program.after_append.mp h
    obtain ⟨t₁, hbefore, -⟩ := serve_append.mp ht
    rw [Trace.opened_append] at hfresh
    have hasks := hkeeps.of_after hmid hbefore (List.nodup_append.mp hfresh).1
    cases hrest with
    | ask answer _ => exact hasks.2.1 s hs

/-- A configured server is connected anew if that succeeds, with a session of that call. -/
theorem reconnected {cs : Trace} {made : Bool} {t' : Table} (hname : name ∈ p.names)
    (h : Leads (p.reconnect name) t cs made t') :
    (made = true ↔
      isConnected t' name = true ∧ ∃ s ∈ cs.opened, sessionOf? t' name = some s) ∧
    ∀ other, other ≠ name → t'.get? other = t.get? other := by
  obtain ⟨s, hs⟩ := mem_names.mp hname
  obtain ⟨y, x, rfl, rfl, rfl⟩ := (leads_reconnect hs).mp h
  refine ⟨?_, fun other hne => Table.get?_settle_of_ne hne _⟩
  have hplace : (t.settle name (renewed s.url (t.get? name) x.value?)).get? name =
      renewed s.url (t.get? name) x.value? := by
    apply Table.get?_settle_self
    cases x.value? <;> simp [renewed]
  rw [isConnected, sessionOf?, hplace]
  cases hx : x.value? with
  | none =>
    cases t.get? name with
    | none => simp [renewed]
    | some c => simp [renewed, Connection.dropped]
  | some session =>
    have hopened : session ∈ Trace.opened
        (closing (t.get? name) y ++ [⟨.connect s.url p.requestLimit, x⟩]) := by
      simp [Trace.opened, Exchange.opened?, hx]
    constructor
    · exact fun _ => ⟨rfl, session, hopened, rfl⟩
    · exact fun _ => rfl

/-- The servers that are disconnected one after the other lose their sessions, the others keep
their places. -/
theorem get?_of_disconnects {l : List String} {cs : Trace} {u : Unit} {t' : Table}
    (h : Leads (l.forM disconnect) t cs u t') (name : String) :
    t'.get? name = if name ∈ l then (t.get? name).map Connection.dropped else t.get? name := by
  induction l generalizing t cs with
  | nil =>
    obtain ⟨-, -, rfl⟩ := leads_done.mp h
    rfl
  | cons first l ih =>
    obtain ⟨_, ⟨⟩, t₁, _, -, hfirst, hrest⟩ := leads_bind.mp h
    obtain ⟨rfl, -⟩ := leads_disconnect.mp hfirst
    rw [ih hrest]
    by_cases he : name = first
    · subst he
      rw [Table.get?_settle_self (by simp)]
      have hagain : ((t.get? name).map Connection.dropped).map Connection.dropped =
          (t.get? name).map Connection.dropped := by
        cases t.get? name <;> rfl
      simp [hagain]
    · rw [Table.get?_settle_of_ne he]
      simp [he]

theorem get?_of_shutdown {cs : Trace} {u : Unit} {t' : Table} (h : Leads p.shutdown t cs u t')
    (hname : name ∈ p.names) : t'.get? name = (t.get? name).map Connection.dropped := by
  rw [get?_of_disconnects h, if_pos hname]

theorem isConnected_of_shutdown {cs : Trace} {u : Unit} {t' : Table}
    (h : Leads p.shutdown t cs u t') : ∀ x ∈ p.states t', x.2 = false := by
  unfold states
  rw [List.forall_mem_map]
  intro name hname
  rw [isConnected, get?_of_shutdown h hname]
  cases t.get? name <;> rfl

/-- Without a connected server there is nobody to be called. -/
theorem contacts_of_call {tool : Handle} {args : Json} {cs : Trace}
    {result : Except ServerError String} {t' : Table}
    (h : Leads (p.call tool args) t cs result t')
    (hout : tool.server ∉ p.names ∨ isConnected t tool.server = false) : cs = [] := by
  rw [call_eq] at h
  split at h
  next hany =>
    have hname : tool.server ∈ p.names := by simpa [names] using hany
    have hlive : sessionOf? t tool.server = none := by
      have hdown := hout.resolve_left (not_not_intro hname)
      unfold isConnected at hdown
      unfold sessionOf?
      cases hget : t.get? tool.server with
      | none => rfl
      | some c =>
        rw [hget] at hdown
        have hc : c.connected = false := hdown
        simp [Connection.live?, hc]
    rcases leads_inSession.mp h with ⟨-, hnone, -⟩ | ⟨s, hs, -⟩
    · exact hnone
    · rw [hlive] at hs
      cases hs
  next => exact (leads_done.mp h).1

/-- At every point of every sequence of operations the table is in order and no closed session is
used, if each connection is given a session of its own. A configured server that is connected anew
is connected then if that succeeded, and no other is touched; a server that is not configured is
left alone. After a shutdown no server is connected, and a call of a server that is not connected or
not configured reaches nobody. -/
theorem connections_in_order (p : Pool) :
    (∀ ops (tr : Trace) left t, (p.perform ops).After tr left → Serve [] tr t → tr.opened.Nodup →
      p.Sound tr t ∧ ∀ (before : Trace) x after, tr = before ++ x :: after →
        ∀ s, x.1.session? = some s → s ∈ before.opened ∧ s ∉ before.closed) ∧
    (∀ name ∈ p.names, ∀ t cs made t', Leads (p.reconnect name) t cs made t' →
      (made = true ↔
        isConnected t' name = true ∧ ∃ s ∈ cs.opened, sessionOf? t' name = some s) ∧
      ∀ other, other ≠ name → t'.get? other = t.get? other) ∧
    (∀ name, name ∉ p.names → ∀ t cs made t', Leads (p.reconnect name) t cs made t' →
      cs = [] ∧ made = false ∧ t' = t) ∧
    (∀ t cs t', Leads p.shutdown t cs () t' → ∀ x ∈ p.states t', x.2 = false) ∧
    ∀ tool args t cs result t', Leads (p.call tool args) t cs result t' →
      tool.server ∉ p.names ∨ isConnected t tool.server = false → cs = [] := by
  refine ⟨?_, ?_, ?_, ?_, ?_⟩
  · exact fun ops tr left t h ht hfresh => sound_of_after h ht hfresh
  · exact fun name hname t cs made t' h => reconnected hname h
  · exact fun name hname t cs made t' h => (leads_reconnect_of_notMem hname).mp h
  · exact fun t cs t' h => isConnected_of_shutdown h
  · exact fun tool args t cs result t' h hout => contacts_of_call h hout

theorem connections_in_order_sample :
    let p : Pool := ⟨[⟨"mail", "u"⟩], 5, 5⟩
    let s : Session := ⟨"u", 1⟩
    let place : Connection := ⟨"u", true, some s⟩
    let tr : Trace := [⟨.readTable, []⟩, ⟨.connect "u" 5, some (.ok s)⟩,
      ⟨.setEntry "mail" place, ()⟩, ⟨.readTable, [("mail", place)]⟩,
      ⟨.setEntry "mail" place.dropped, ()⟩, ⟨.close s, .ok ()⟩]
    let tool : Handle := ⟨"maps", "find", "find", "", .null⟩
    (p.perform [.reconnect "mail", .shutdown]).Run tr () ∧ tr.opened.Nodup ∧
      p.Sound tr [("mail", place.dropped)] ∧ s ∉ Trace.closed (tr.take 5) ∧
      isConnected [("mail", place)] "mail" = true ∧
      (∀ x ∈ p.states [("mail", place.dropped)], x.2 = false) ∧
      (∀ cs result t', Leads (p.call tool .null) [] cs result t' → cs = []) ∧
      ∀ cs made t', Leads (p.reconnect "maps") [] cs made t' → t' = [] := by
  intro p s place tr tool
  obtain ⟨hpoint, hanew, hunknown, hdown, hcall⟩ := connections_in_order p
  have hmaps : "maps" ∉ p.names := by decide
  have hrun : (p.perform [.reconnect "mail", .shutdown]).Run tr () :=
    Program.run_ask.mpr ⟨[], _, rfl, Program.run_ask.mpr ⟨some (.ok s), _, rfl,
      Program.run_ask.mpr ⟨(), _, rfl, Program.run_ask.mpr ⟨[("mail", place)], _, rfl,
      Program.run_ask.mpr ⟨(), _, rfl, Program.run_ask.mpr ⟨.ok (), [], rfl,
      Program.run_done.mpr ⟨rfl, rfl⟩⟩⟩⟩⟩⟩⟩
  have hserve : Serve [] tr [("mail", place.dropped)] :=
    .cons rfl (.cons trivial (.cons trivial (.cons rfl (.cons trivial (.cons trivial (.nil _))))))
  have hfresh : tr.opened.Nodup := List.nodup_singleton s
  obtain ⟨hsound, huse⟩ := hpoint _ tr _ _ hrun hserve hfresh
  have hmade : Leads (p.reconnect "mail") [] [⟨.connect "u" 5, some (.ok s)⟩] true
      [("mail", place)] := (leads_reconnect rfl).mpr ⟨.ok (), some (.ok s), rfl, rfl, rfl⟩
  have hshut : Leads p.shutdown [("mail", place)] [⟨.close s, .ok ()⟩] ()
      [("mail", place.dropped)] :=
    leads_bind.mpr ⟨_, (), _, [], rfl, leads_disconnect.mpr ⟨rfl, .ok (), rfl⟩,
      leads_done.mpr ⟨rfl, rfl, rfl⟩⟩
  refine ⟨hrun, hfresh, hsound, ?_, ?_, hdown _ _ _ hshut, ?_, ?_⟩
  · exact (huse (tr.take 5) ⟨.close s, .ok ()⟩ [] rfl s rfl).2
  · exact ((hanew "mail" (by decide) _ _ _ _ hmade).1.mp rfl).1
  · exact fun cs result t' h => hcall tool .null [] cs result t' h (.inl hmaps)
  · exact fun cs made t' h => (hunknown "maps" hmaps [] cs made t' h).2.2

end Switchboard.Pool

import Switchboard.Dict
import Switchboard.Proofs.JsonText
import Switchboard.Rpc.Response

/-! Messages of a tool server in an event stream, each on one data line, and which of them is taken
for the response to a request. -/
namespace Switchboard

namespace Json

/-- The tree is an object with these members, none of them written twice. -/
structure Tree.IsRecord (t : Tree) (members : Dict Tree) : Prop where
  written : ∃ ms, t = .obj ms ∧
    (ms.mapM fun m => (text? m.1).map fun k => (k, m.2)) = some members
  nodup : members.keys.Nodup

theorem filter_eq_find? {α : Type} {d : Dict α} (h : d.keys.Nodup) (k : String) :
    d.filter (·.1 = k) = (d.find? (·.1 = k)).toList := by
  induction d with
  | nil => rfl
  | cons e d ih =>
    obtain ⟨hnot, hrest⟩ := List.nodup_cons.mp h
    by_cases he : e.1 = k
    · have hnone : d.filter (·.1 = k) = [] := by
        refine List.filter_eq_nil_iff.mpr fun f hf heq => hnot ?_
        exact List.mem_map.mpr ⟨f, hf, (of_decide_eq_true heq).trans he.symm⟩
      rw [List.filter_cons_of_pos (by simpa using he), hnone,
        List.find?_cons_of_pos (by simpa using he), Option.toList_some]
    · rw [List.filter_cons_of_neg (by simpa using he), ih hrest,
        List.find?_cons_of_neg (by simpa using he)]

theorem mapM_eq_some_map {α β : Type} {f : α → Option β} {g : α → β} (h : ∀ a, f a = some (g a))
    (l : List α) : l.mapM f = some (l.map g) := by
  rw [funext h]
  exact List.mapM_pure

theorem Tree.IsRecord.fields? {t : Tree} {members : Dict Tree} (h : t.IsRecord members)
    (names : List String) : t.fields? names = some ⟨false, names.map members.get?⟩ := by
  obtain ⟨⟨ms, rfl, hms⟩, hnodup⟩ := h
  rw [Tree.fields?, hms, Option.bind_eq_bind, Option.bind_some, Fields.ofMembers?,
    mapM_eq_some_map (g := members.get?) fun k => ?_]
  · rfl
  · rw [filter_eq_find? hnodup, Dict.get?]
    cases members.find? (·.1 = k) <;> rfl

def trees (ms : Dict Json) : Dict Tree := ms.map fun m => (m.1, m.2.tree)

theorem isRecord_tree {ms : Dict Json} (h : ms.keys.Nodup) : (obj ms).tree.IsRecord (trees ms) := by
  refine ⟨⟨memberTrees ms, rfl, ?_⟩, ?_⟩
  · clear h
    induction ms with
    | nil => rfl
    | cons m ms ih =>
      rw [memberTrees, List.mapM_cons, ih, text?_pieces]
      rfl
  · rwa [trees, Dict.keys, List.map_map]

end Json

namespace Rpc
open Json (Tree)

/-- Nothing stands there, or a null. -/
def Absent (t : Option Tree) : Prop := ∀ u ∈ t, u.isNull = true

/-- The value stands there, with at most so many containers inside each other, and is not null. -/
def Holds (depth : Nat) (t : Option Tree) (v : Json) : Prop :=
  ∃ u ∈ t, Json.ofTree? depth u = some v ∧ v ≠ .null

theorem absent_none : Absent none := fun _ hu => by cases hu

theorem optional?_absent {α : Type} {read : Tree → Option α} {t : Option Tree} (h : Absent t) :
    optional? read t = some none := by
  have hpresent : present t = none := by
    rw [present, Option.filter_eq_none_iff]
    exact fun u hu => by simp [h u hu]
  rw [optional?, hpresent]

theorem optional?_of_not_isNull {α : Type} {read : Tree → Option α} {u : Tree}
    (h : u.isNull = false) : optional? read (some u) = (read u).map some := by
  rw [optional?, present, Option.filter_some_pos (by simp [h])]

theorem optional?_holds {depth : Nat} {t : Option Tree} {v : Json} (h : Holds depth t v) :
    optional? (Json.ofTree? depth) t = some (some v) := by
  obtain ⟨u, rfl, hv, hne⟩ := h
  -- Only a null is read as null.
  have hnull : u.isNull = false := by
    cases u with
    | null => exact absurd (Option.some.inj hv).symm hne
    | _ => rfl
  rw [optional?_of_not_isNull hnull, hv]
  rfl

/-- The error is written as an object of its code, of 64 bits, its message and perhaps further
data. -/
def Error.WrittenAs (e : Error) (t : Tree) : Prop :=
  ∃ members, t.IsRecord members ∧ (members.get? "code").bind Tree.int64? = some e.code ∧
    (members.get? "message").bind Tree.string? = some e.message ∧
    match e.data with
    | none => Absent (members.get? "data")
    | some v => Holds (Json.maxDepth - 2) (members.get? "data") v

theorem Error.ofTree?_written {e : Error} {t : Tree} (h : e.WrittenAs t) : ofTree? t = some e := by
  obtain ⟨members, hrecord, hcode, hmessage, hdata⟩ := h
  obtain ⟨code, hcode, hcodeRead⟩ := Option.bind_eq_some_iff.mp hcode
  obtain ⟨message, hmessage, hmessageRead⟩ := Option.bind_eq_some_iff.mp hmessage
  have hdataRead : optional? (Json.ofTree? (Json.maxDepth - 2)) (members.get? "data") =
      some e.data := by
    cases hd : e.data with
    | none => exact optional?_absent (by rwa [hd] at hdata)
    | some v => exact optional?_holds (by rwa [hd] at hdata)
  rw [ofTree?, hrecord.fields?]
  dsimp only [Option.bind_eq_bind, Option.bind_some]
  rw [List.map_cons, List.map_cons, List.map_cons, List.map_nil, hcode, hmessage]
  dsimp only
  rw [hcodeRead, hmessageRead, hdataRead]
  rfl

/-- What a tool server sends: notifications and requests of its own, and responses with a result or
an error. An id may be written in any way. -/
inductive Message where
  | notification
  | request (id : Tree)
  | result (id : Tree) (value : Json)
  | error (id : Tree) (e : Error)

namespace Message

/-- The members that tell the message's kind, and what they hold. -/
def Told (members : Dict Tree) : Message → Prop
  | notification => (members.get? "method").isSome = true ∧ members.get? "id" = none
  | request id => (members.get? "method").isSome = true ∧ members.get? "id" = some id ∧
    members.get? "result" = none ∧ members.get? "error" = none
  | result id v => members.get? "method" = none ∧ members.get? "id" = some id ∧
    Holds (Json.maxDepth - 1) (members.get? "result") v ∧ Absent (members.get? "error")
  | error id e => members.get? "method" = none ∧ members.get? "id" = some id ∧
    Absent (members.get? "result") ∧ ∃ t ∈ members.get? "error", e.WrittenAs t

/-- The text is the message's, in any layout, order of members and choice of escapes. -/
def WrittenAs (m : Message) (text : String) : Prop :=
  ∃ t members, Tree.parse? text = some t ∧ t.IsRecord members ∧
    (members.get? "jsonrpc").bind Tree.string? = some "2.0" ∧ m.Told members

def response? : Message → Option Response
  | result id v => some ⟨"2.0", id.nat64?, some v, none⟩
  | error id e => some ⟨"2.0", id.nat64?, none, some e⟩
  | _ => none

def Asks (i : Nat) : Message → Prop
  | request id => id.nat64? = some i
  | _ => False

/-- What the message is taken for where the response with a number is looked for. -/
def taken? (i : Nat) : Message → Option Response
  | notification => none
  | request id => if id.nat64? = some i then some ⟨"2.0", some i, none, none⟩ else none
  | m => m.response?.filter (·.id = some i)

end Message

section
variable {t : Tree} {members : Dict Tree} {m : Message} {text : String} {i : Nat}

theorem Response.ofTree?_record {version : String} (h : t.IsRecord members)
    (hversion : (members.get? "jsonrpc").bind Tree.string? = some version) :
    ofTree? t = (optional? Tree.nat64? (members.get? "id")).bind fun id =>
      (optional? (Json.ofTree? (Json.maxDepth - 1)) (members.get? "result")).bind fun v =>
        (optional? Error.ofTree? (members.get? "error")).bind fun e =>
          some ⟨version, id, v, e⟩ := by
  obtain ⟨written, hwritten, hread⟩ := Option.bind_eq_some_iff.mp hversion
  rw [ofTree?, h.fields?]
  dsimp only [Option.bind_eq_bind, Option.bind_some]
  rw [List.map_cons, List.map_cons, List.map_cons, List.map_cons, List.map_nil, hwritten]
  dsimp only
  rw [hread]
  rfl

theorem optional?_nat64 {id : Tree} :
    optional? Tree.nat64? (some id) = some (some i) ↔ id.nat64? = some i := by
  cases hid : id.isNull with
  | true =>
    cases id with
    | null => exact iff_of_false nofun nofun
    | _ => cases hid
  | false => rw [optional?_of_not_isNull hid, Option.map_eq_some_iff]; simp

theorem filter_id (id : Option Nat) (v : Option Json) (e : Option Error) :
    (some (⟨"2.0", id, v, e⟩ : Response)).filter (·.id = some i) =
      if id = some i then some ⟨"2.0", some i, v, e⟩ else none := by
  by_cases hid : id = some i <;> simp [Option.filter, hid]

theorem filter_read (id : Option (Option Nat)) (v : Option (Option Json))
    (e : Option (Option Error)) :
    (id.bind fun id => v.bind fun v => e.bind fun e =>
      some (⟨"2.0", id, v, e⟩ : Response)).filter (·.id = some i) =
    if id = some (some i) then
      v.bind fun v => e.bind fun e => some (⟨"2.0", some i, v, e⟩ : Response)
    else none := by
  cases id with
  | none => rfl
  | some id =>
    cases v with
    | none => simp
    | some v =>
      cases e with
      | none => simp
      | some e => simp [filter_id]

theorem Error.WrittenAs.isNull {e : Error} (h : e.WrittenAs t) : t.isNull = false := by
  obtain ⟨-, ⟨⟨-, rfl, -⟩, -⟩, -⟩ := h
  rfl

/-- What is read from a message's text, if it has the number that is looked for. -/
theorem Message.filter_parse? (h : m.WrittenAs text) :
    (Response.parse? text).filter (·.id = some i) = m.taken? i := by
  obtain ⟨t, members, htext, hrecord, hversion, htold⟩ := h
  rw [Response.parse?, htext, Option.bind_eq_bind, Option.bind_some,
    Response.ofTree?_record hrecord hversion, filter_read]
  cases m with
  | notification =>
    obtain ⟨-, hid⟩ := htold
    rw [hid, optional?_absent absent_none]
    rfl
  | request id =>
    obtain ⟨-, hid, hresult, herror⟩ := htold
    simp only [hid, hresult, herror, optional?_nat64, optional?_absent absent_none]
    rfl
  | result id v =>
    obtain ⟨-, hid, hresult, herror⟩ := htold
    simp only [hid, optional?_nat64, optional?_holds hresult, optional?_absent herror, taken?,
      response?, filter_id]
    rfl
  | error id e =>
    obtain ⟨-, hid, hresult, u, hu, herror⟩ := htold
    have hread : optional? Error.ofTree? (members.get? "error") = some (some e) := by
      rw [Option.mem_def.mp hu, optional?_of_not_isNull herror.isNull, Error.ofTree?_written herror]
      rfl
    simp only [hid, optional?_nat64, optional?_absent hresult, hread, taken?, response?, filter_id]
    rfl

end

def dataField : List Char := ['d', 'a', 't', 'a', ':']

/-- A line without data: another field, a comment or the end of an event. -/
structure IsOther (line : List Char) : Prop where
  oneLine : '\n' ∉ line
  noData : ¬ dataField <+: line

/-- The lines carry these messages, in order and each on one data line, perhaps between blanks. -/
inductive Carries : List (List Char) → List Message → Prop where
  | nil : Carries [] []
  | other {line : List Char} {lines : List (List Char)} {ms : List Message} :
    IsOther line → Carries lines ms → Carries (line :: lines) ms
  | data {d : List Char} {lines : List (List Char)} {m : Message} {ms : List Message} :
    '\n' ∉ d → m.WrittenAs (Text.trim (.ofList d)) → Carries lines ms →
    Carries ((dataField ++ d) :: lines) (m :: ms)

def ofLine? (line : List Char) : Option Response :=
  (Chars.after? dataField line).bind fun d => Response.parse? (Text.trim (.ofList d))

section
variable {line d : List Char} {lines : List (List Char)} {ms before after : List Message}
  {m : Message} {r : Response} {i : Nat}

theorem ofLine?_data (d : List Char) :
    ofLine? (dataField ++ d) = Response.parse? (Text.trim (.ofList d)) := by
  have hafter : Chars.after? dataField (dataField ++ d) = some d := Chars.after?_eq_some.mpr rfl
  rw [ofLine?, hafter, Option.bind_some]

theorem ofLine?_eq_none (h : ¬ dataField <+: line) : ofLine? line = none := by
  have hnone : Chars.after? dataField line = none := by
    rwa [← Option.not_isSome_iff_eq_none, Chars.isSome_after?]
  rw [ofLine?, hnone]
  rfl

theorem ofLine?_return (line : List Char) : ofLine? (line ++ ['\r']) = ofLine? line := by
  by_cases hdata : dataField <+: line
  · obtain ⟨d, rfl⟩ := hdata
    rw [List.append_assoc, ofLine?_data, ofLine?_data, Text.trim, Text.trim, String.toList_ofList,
      String.toList_ofList, Chars.trim_append rfl]
  · rw [ofLine?_eq_none hdata,
      ofLine?_eq_none fun h => hdata (Chars.prefix_append_cons (by decide) h)]

theorem streamed_eq (body : String) :
    streamed body = (Chars.lines body.toList).filterMap ofLine? := by
  rw [streamed, Text.lines, List.filterMap_map]
  congr
  funext line
  rw [Function.comp_apply, Text.after?, String.toList_ofList, String.toList_ofList, ofLine?,
    Option.bind_eq_bind, Option.bind_map]
  rfl

theorem Carries.oneLine (h : Carries lines ms) : ∀ line ∈ lines, '\n' ∉ line := by
  induction h with
  | nil => nofun
  | other hline _ ih => exact List.forall_mem_cons.mpr ⟨hline.oneLine, ih⟩
  | data hd _ _ ih =>
    refine List.forall_mem_cons.mpr ⟨fun hmem => ?_, ih⟩
    rcases List.mem_append.mp hmem with hmem | hmem
    · exact absurd hmem (by decide)
    · exact hd hmem

/-- The first of what the messages are taken for is what is found in the stream. -/
theorem Carries.find?_streamed (h : Carries lines ms) (i : Nat) :
    (streamed (.ofList (['\n'].intercalate lines))).find? (·.id = some i) =
      ms.findSome? (·.taken? i) := by
  -- The text falls apart into these lines again, up to carriage returns.
  have hread : streamed (.ofList (['\n'].intercalate lines)) = lines.filterMap ofLine? := by
    rw [streamed_eq, String.toList_ofList, Chars.filterMap_lines rfl ofLine?_return h.oneLine]
  rw [hread]
  clear hread
  induction h with
  | nil => rfl
  | other hline _ ih =>
    rw [List.filterMap_cons_none (ofLine?_eq_none hline.noData), ih]
  | @data d lines m ms _ hm _ ih =>
    rw [List.findSome?_cons, ← Message.filter_parse? hm, ← ih]
    cases hread : Response.parse? (Text.trim (.ofList d)) with
    | none => rw [List.filterMap_cons_none ((ofLine?_data d).trans hread)]; rfl
    | some r =>
      rw [List.filterMap_cons_some ((ofLine?_data d).trans hread), List.find?_cons, Option.filter]
      cases decide (r.id = some i) <;> rfl

theorem Message.taken?_of_asks (h : m.Asks i) : m.taken? i = some ⟨"2.0", some i, none, none⟩ := by
  cases m with
  | request id => exact if_pos h
  | _ => cases h

theorem Message.taken?_of_response (h : m.response? = some r) (hid : r.id = some i) :
    m.taken? i = some r := by
  have hkept : m.response?.filter (·.id = some i) = some r := by
    rw [h, Option.filter_some_pos (by simpa using hid)]
  cases m with
  | result id v => exact hkept
  | error id e => exact hkept
  | _ => cases h

theorem Message.taken?_eq_none (hasks : ¬ m.Asks i)
    (h : ∀ r, m.response? = some r → r.id ≠ some i) : m.taken? i = none := by
  have hnone : m.response?.filter (·.id = some i) = none :=
    Option.filter_eq_none_iff.mpr fun r hr => by simpa using h r hr
  cases m with
  | notification => rfl
  | request id => exact if_neg hasks
  | result id v => exact hnone
  | error id e => exact hnone

/-- Where no other response has the number, what is asked under it is taken first. -/
theorem Message.findSome?_of_asks (hasks : ∃ q ∈ before, q.Asks i)
    (hother : ∀ q ∈ before, ∀ r', q.response? = some r' → r'.id ≠ some i) :
    before.findSome? (·.taken? i) = some ⟨"2.0", some i, none, none⟩ := by
  induction before with
  | nil => exact absurd hasks (by simp)
  | cons q qs ih =>
    obtain ⟨hq, hqs⟩ := List.forall_mem_cons.mp hother
    by_cases hfirst : q.Asks i
    · rw [List.findSome?_cons, taken?_of_asks hfirst]
    · have hrest : ∃ q ∈ qs, q.Asks i := by simpa [hfirst] using hasks
      rw [List.findSome?_cons, taken?_eq_none hfirst hq, ih hrest hqs]

theorem Message.response?_ne (h : m.response? = some r) : r ≠ ⟨"2.0", some i, none, none⟩ := by
  intro heq
  cases m with
  | result id v => exact nomatch congrArg Response.result ((Option.some.inj h).trans heq)
  | error id e => exact nomatch congrArg Response.error ((Option.some.inj h).trans heq)
  | _ => cases h

theorem ofStream_of_find? {body : String} (h : (streamed body).find? (·.id = some i) = some r) :
    Response.ofStream body (some i) = .ok r := by
  have hwanted : (fun r : Response => (some i).isNone || r.id == some i) =
      fun r => decide (r.id = some i) := by
    funext r
    rw [Option.isNone_some, Bool.false_or, Bool.eq_iff_iff, beq_iff_eq, decide_eq_true_iff]
  rw [Response.ofStream, hwanted, h]

/-- Of the messages of a stream one is the response with the number. It is found unless the server
asks something under the same number before it: then what is asked is taken for a response without
a result and without an error. -/
theorem ofStream_carried (h : Carries lines (before ++ m :: after)) (hm : m.response? = some r)
    (hid : r.id = some i)
    (honly : ∀ q ∈ before ++ after, ∀ r', q.response? = some r' → r'.id ≠ some i) :
    let found := Response.ofStream (.ofList (['\n'].intercalate lines)) (some i)
    (found = .ok r ↔ ∀ q ∈ before, ¬ q.Asks i) ∧
      ((∃ q ∈ before, q.Asks i) → found = .ok ⟨"2.0", some i, none, none⟩) := by
  intro found
  have hstream {r : Response} (htaken : (before ++ m :: after).findSome? (·.taken? i) = some r) :
      found = .ok r := ofStream_of_find? ((h.find?_streamed i).trans htaken)
  have hother : ∀ q ∈ before, ∀ r', q.response? = some r' → r'.id ≠ some i :=
    fun q hq => honly q (List.mem_append_left _ hq)
  have hfirst : (∀ q ∈ before, ¬ q.Asks i) → found = .ok r := by
    intro hnone
    have hpassed : before.findSome? (·.taken? i) = none :=
      List.findSome?_eq_none_iff.mpr fun q hq => Message.taken?_eq_none (hnone q hq) (hother q hq)
    refine hstream ?_
    rw [List.findSome?_append, hpassed, Option.none_or, List.findSome?_cons,
      Message.taken?_of_response hm hid]
  have hasked : (∃ q ∈ before, q.Asks i) → found = .ok ⟨"2.0", some i, none, none⟩ := by
    intro hasks
    refine hstream ?_
    rw [List.findSome?_append, Message.findSome?_of_asks hasks hother, Option.some_or]
  -- What is asked is told from the response: it says nothing.
  refine ⟨⟨fun hfound q hq hasks => ?_, hfirst⟩, hasked⟩
  have heq := (hasked ⟨q, hq, hasks⟩).symm.trans hfound
  exact Message.response?_ne hm (Except.ok.inj heq).symm

/-- A message that is printed as an object stands on a data line. -/
theorem Carries.printed {printed : Dict Json} (hkeys : printed.keys.Nodup)
    (hline : '\n' ∉ Json.chars (.obj printed))
    (hversion : ((Json.trees printed).get? "jsonrpc").bind Tree.string? = some "2.0")
    (htold : m.Told (Json.trees printed)) (h : Carries lines ms) :
    Carries ((dataField ++ Json.chars (.obj printed)) :: lines) (m :: ms) := by
  have htrim : Chars.trim (Json.chars (.obj printed)) = Json.chars (.obj printed) := by
    obtain ⟨inner, hinner⟩ := Json.exists_chars_obj printed
    rw [hinner]
    refine Chars.trim_eq_self (fun c hc => ?_) fun c hc => ?_
    · obtain rfl := Option.some.inj hc
      rfl
    · rw [← List.cons_append, List.getLast?_concat] at hc
      obtain rfl := Option.some.inj hc
      rfl
  refine .data hline ⟨_, _, ?_, Json.isRecord_tree hkeys, hversion, htold⟩ h
  rw [Text.trim, String.toList_ofList, htrim]
  exact Tree.parse?_render _

end

/-- Before the response stand a notification and a request under another number, after it a late
error. -/
theorem ofStream_carried_second :
    let tick := [("method", .str "tick"), ("jsonrpc", .str "2.0")]
    let ping := [("jsonrpc", .str "2.0"), ("id", Json.nat 1), ("method", .str "ping")]
    let answer := [("id", Json.nat 2), ("jsonrpc", .str "2.0"), ("result", .arr [.bool true]),
      ("error", .null)]
    let late := [("jsonrpc", .str "2.0"), ("id", Json.nat 1),
      ("error", .obj [("code", Json.int (-1)), ("message", .str "")])]
    let lines := ["event: message".toList, dataField ++ Json.chars (.obj tick), [],
      dataField ++ Json.chars (.obj ping), ": wait".toList, dataField ++ Json.chars (.obj answer),
      [], dataField ++ Json.chars (.obj late), [], []]
    Response.ofStream (.ofList (['\n'].intercalate lines)) (some 2) =
      .ok ⟨"2.0", some 2, some (.arr [.bool true]), none⟩ := by
  intro tick ping answer late lines
  let asked := Message.request (Json.nat 1).tree
  let error := Message.error (Json.nat 1).tree ⟨-1, "", none⟩
  have hlines : Carries lines
      ([.notification, asked] ++ .result (Json.nat 2).tree (.arr [.bool true]) :: [error]) := by
    have hblank : IsOther [] := ⟨by decide, by decide⟩
    have herror : Error.WrittenAs ⟨-1, "", none⟩
        (Json.obj [("code", Json.int (-1)), ("message", .str "")]).tree :=
      ⟨_, Json.isRecord_tree (by decide), rfl, rfl, absent_none⟩
    refine .other ⟨by decide, by decide⟩ <| .printed (by decide) (by decide +kernel) rfl
      ⟨rfl, rfl⟩ <| .other hblank ?_
    refine .printed (by decide) (by decide +kernel) rfl ⟨rfl, rfl, rfl, rfl⟩ <|
      .other ⟨by decide, by decide⟩ ?_
    refine .printed (by decide) (by decide +kernel) rfl
      ⟨rfl, rfl, ⟨_, rfl, rfl, nofun⟩, fun u hu => ?_⟩ <| .other hblank ?_
    · obtain rfl := Option.some.inj hu
      rfl
    exact .printed (by decide) (by decide +kernel) rfl ⟨rfl, rfl, absent_none, _, rfl, herror⟩ <|
      .other hblank <| .other hblank .nil
  have honly : ∀ q ∈ [.notification, asked] ++ [error], ∀ r', q.response? = some r' →
      r'.id ≠ some 2 := by
    intro q hq r' hr'
    simp only [List.cons_append, List.nil_append, List.mem_cons, List.not_mem_nil, or_false] at hq
    rcases hq with rfl | rfl | rfl
    · cases hr'
    · cases hr'
    · obtain rfl := Option.some.inj hr'
      exact of_decide_eq_true rfl
  refine (ofStream_carried hlines rfl rfl honly).1.mpr fun q hq => ?_
  simp only [List.mem_cons, List.not_mem_nil, or_false] at hq
  rcases hq with rfl | rfl
  · exact id
  · exact of_decide_eq_true (p := ¬ (Json.nat 1).tree.nat64? = some 2) rfl

/-- A request of the server under the number of the response stands before it and is taken for
it. -/
theorem ofStream_asked_first :
    let ping := [("jsonrpc", .str "2.0"), ("id", Json.nat 7), ("method", .str "ping")]
    let answer := [("jsonrpc", .str "2.0"), ("id", Json.nat 7), ("result", .obj [])]
    let lines := [dataField ++ Json.chars (.obj ping), [], dataField ++ Json.chars (.obj answer),
      [], []]
    let found := Response.ofStream (.ofList (['\n'].intercalate lines)) (some 7)
    Carries lines [.request (Json.nat 7).tree, .result (Json.nat 7).tree (.obj [])] ∧
      found ≠ .ok ⟨"2.0", some 7, some (.obj []), none⟩ ∧
      found.bind Response.outcome =
        .error (.protocol "response has neither result nor error") := by
  intro ping answer lines found
  have hblank : IsOther [] := ⟨by decide, by decide⟩
  have hlines : Carries lines
      [.request (Json.nat 7).tree, .result (Json.nat 7).tree (.obj [])] :=
    .printed (by decide) (by decide +kernel) rfl ⟨rfl, rfl, rfl, rfl⟩ <| .other hblank <|
      .printed (by decide) (by decide +kernel) rfl
        ⟨rfl, rfl, ⟨_, rfl, rfl, nofun⟩, absent_none⟩ <| .other hblank <| .other hblank .nil
  have hfound : found = .ok ⟨"2.0", some 7, none, none⟩ :=
    ofStream_of_find? ((hlines.find?_streamed 7).trans rfl)
  rw [hfound]
  refine ⟨hlines, fun heq => ?_, rfl⟩
  exact nomatch congrArg Response.result (Except.ok.inj heq)

end Rpc
end Switchboard

import Switchboard.Proofs.EventStreams
import Switchboard.Proofs.PrintedValues

/-! Responses of tool servers as they are read, printed and read again. -/
namespace Switchboard

section
variable {α : Type} {d d' : Dict α} {k : String} {v : α}

theorem Dict.get?_eq_some_iff (h : d.keys.Nodup) : d.get? k = some v ↔ (k, v) ∈ d := by
  constructor
  · exact mem_of_get?
  · intro hmem
    have hfilter : (k, v) ∈ d.filter (·.1 = k) := List.mem_filter.mpr ⟨hmem, by simp⟩
    rw [Json.filter_eq_find? h, Option.mem_toList] at hfilter
    rw [get?, hfilter, Option.map_some]

/-- The order of entries with distinct keys makes no difference. -/
theorem Dict.get?_perm (hperm : d.Perm d') (h : d'.keys.Nodup) : d.get? k = d'.get? k := by
  have hd : d.keys.Nodup := (hperm.map _).nodup_iff.mpr h
  refine Option.ext fun v => ?_
  rw [get?_eq_some_iff hd, get?_eq_some_iff h, hperm.mem_iff]

end

namespace Json

theorem get?_trees (ms : Dict Json) (k : String) : (trees ms).get? k = (ms.get? k).map tree := by
  rw [trees, Dict.get?, Dict.get?, List.find?_map, Option.map_map, Option.map_map]
  rfl

end Json

namespace Rpc
open Json (Tree Number)

/-! What is read. -/

/-- What stands there is read as this value; nothing, or a null, as none. -/
def Stands {α : Type} (read : Tree → Option α) (t : Option Tree) : Option α → Prop
  | none => Absent t
  | some a => ∃ u ∈ t, u.isNull = false ∧ read u = some a

theorem stands_of_optional? {α : Type} {read : Tree → Option α} {t : Option Tree} {a : Option α}
    (h : optional? read t = some a) : Stands read t a := by
  cases t with
  | none =>
    cases h
    exact absent_none
  | some u =>
    cases hu : u.isNull with
    | true =>
      have habsent : Absent (some u) := fun u' hu' => Option.some.inj hu' ▸ hu
      rw [optional?_absent habsent] at h
      cases h
      exact habsent
    | false =>
      rw [optional?_of_not_isNull hu] at h
      obtain ⟨b, hb, rfl⟩ := Option.map_eq_some_iff.mp h
      exact ⟨u, rfl, hu, hb⟩

def Error.ReadFrom (e : Error) (t : Tree) : Prop :=
  ∃ f code message data, t.fields? ["code", "message", "data"] = some f ∧
    f.values = [some code, some message, data] ∧ code.int64? = some e.code ∧
    message.string? = some e.message ∧
    Stands (Json.ofTree? (Json.maxDepth - 2)) data e.data

theorem Error.readFrom_of_ofTree? {e : Error} {t : Tree} (h : ofTree? t = some e) :
    e.ReadFrom t := by
  rw [ofTree?] at h
  obtain ⟨f, hf, h⟩ := Option.bind_eq_some_iff.mp h
  split at h
  case h_2 => cases h
  case h_1 code message data hvalues =>
    obtain ⟨-, -, h⟩ := Option.bind_eq_some_iff.mp h
    obtain ⟨c, hcode, h⟩ := Option.bind_eq_some_iff.mp h
    obtain ⟨m, hmessage, h⟩ := Option.bind_eq_some_iff.mp h
    obtain ⟨x, hdata, h⟩ := Option.bind_eq_some_iff.mp h
    cases h
    exact ⟨f, code, message, data, hf, hvalues, hcode, hmessage, stands_of_optional? hdata⟩

def Response.ReadFrom (r : Response) (t : Tree) : Prop :=
  ∃ f version id result error, t.fields? ["jsonrpc", "id", "result", "error"] = some f ∧
    f.values = [some version, id, result, error] ∧ version.string? = some r.version ∧
    Stands Tree.nat64? id r.id ∧ Stands (Json.ofTree? (Json.maxDepth - 1)) result r.result ∧
    match r.error with
    | none => Absent error
    | some e => ∃ u ∈ error, e.ReadFrom u

theorem Response.readFrom_of_ofTree? {r : Response} {t : Tree} (h : ofTree? t = some r) :
    r.ReadFrom t := by
  rw [ofTree?] at h
  obtain ⟨f, hf, h⟩ := Option.bind_eq_some_iff.mp h
  split at h
  case h_2 => cases h
  case h_1 version id result error hvalues =>
    obtain ⟨-, -, h⟩ := Option.bind_eq_some_iff.mp h
    obtain ⟨v, hversion, h⟩ := Option.bind_eq_some_iff.mp h
    obtain ⟨i, hid, h⟩ := Option.bind_eq_some_iff.mp h
    obtain ⟨x, hresult, h⟩ := Option.bind_eq_some_iff.mp h
    obtain ⟨e, herror, h⟩ := Option.bind_eq_some_iff.mp h
    cases h
    refine ⟨f, version, id, result, error, hf, hvalues, hversion, stands_of_optional? hid,
      stands_of_optional? hresult, ?_⟩
    have hstands := stands_of_optional? herror
    cases e with
    | none => exact hstands
    | some e =>
      obtain ⟨u, hu, -, hread⟩ := hstands
      exact ⟨u, hu, Error.readFrom_of_ofTree? hread⟩

/-! What is printed. -/

/-- The members of an error; data that is missing is left out. -/
def Error.members (e : Error) : Dict Json :=
  [("code", Json.int e.code), ("message", .str e.message)]
    ++ (e.data.map fun v => ("data", v)).toList

def Error.PrintedAs (e : Error) (j : Json) : Prop := ∃ ms, j = .obj ms ∧ ms.Perm e.members

/-- The members of a response whose error is printed; an id that is missing is null, a result or an
error left out. -/
def Response.members (r : Response) (error : Option Json) : Dict Json :=
  [("jsonrpc", .str r.version), ("id", (r.id.map Json.nat).getD .null)]
    ++ (r.result.map fun v => ("result", v)).toList ++ (error.map fun j => ("error", j)).toList

def Response.PrintedAs (r : Response) (j : Json) : Prop :=
  ∃ ms error, j = .obj ms ∧ ms.Perm (r.members error) ∧ Option.Rel Error.PrintedAs r.error error

def Response.inOrder (r : Response) : Json := .obj (r.members (r.error.map fun e => .obj e.members))

theorem Error.nodup_members (e : Error) : e.members.keys.Nodup := by
  rw [members]
  cases e.data <;> simp [Dict.keys]

theorem Response.nodup_members (r : Response) (error : Option Json) :
    (r.members error).keys.Nodup := by
  rw [members]
  cases r.result <;> cases error <;> simp [Dict.keys]

theorem Error.printedAs_toJson (e : Error) : e.PrintedAs e.toJson :=
  ⟨_, rfl, Json.sorted_perm e.nodup_members⟩

theorem Response.printedAs_toJson (r : Response) : r.PrintedAs r.toJson := by
  refine ⟨_, r.error.map Error.toJson, rfl, ?_, ?_⟩
  · have hmembers : r.members (r.error.map Error.toJson) =
        [("jsonrpc", .str r.version), ("id", (r.id.map Json.nat).getD .null)]
          ++ (r.result.map fun v => ("result", v)).toList
          ++ (r.error.map fun e => ("error", e.toJson)).toList := by
      rw [members, Option.map_map]
      rfl
    rw [← hmembers]
    exact Json.sorted_perm (r.nodup_members _)
  · cases r.error with
    | none => exact .none
    | some e => exact .some e.printedAs_toJson

theorem Response.printedAs_inOrder (r : Response) : r.PrintedAs r.inOrder := by
  refine ⟨_, _, rfl, .refl _, ?_⟩
  cases r.error with
  | none => exact .none
  | some e => exact .some ⟨_, rfl, .refl _⟩

/-! What was read fits into a text again. -/

section
variable {t : Tree} {i : Int} {n : Nat}

theorem inRange_of_int? (h : t.int? = some i) : (Number.int i).InRange := by
  cases t with
  | num m =>
    rw [Tree.int?] at h
    split at h
    next hm =>
      cases h
      exact Json.Numeral.inRange_of_value? hm
    next => cases h
  | _ => cases h

theorem int?_tree (h : (Number.int i).InRange) : (Json.int i).tree.int? = some i := by
  rw [Json.int, Json.tree, Tree.int?, Number.value?_numeral_int h]

theorem inRange_of_nat64? (h : t.nat64? = some n) : (Number.int n).InRange := by
  obtain ⟨i, hi, h⟩ := Option.bind_eq_some_iff.mp h
  split at h
  next hpos =>
    cases h
    rw [Int.toNat_of_nonneg hpos]
    exact inRange_of_int? hi
  next => cases h

theorem nat64?_tree (h : (Number.int n).InRange) : (Json.nat n).tree.nat64? = some n := by
  have hread : (Json.nat n).tree.int? = some (n : Int) := int?_tree h
  rw [Tree.nat64?, hread, Option.bind_eq_bind, Option.bind_some, if_pos (Int.natCast_nonneg n),
    Int.toNat_natCast]

theorem inRange_of_int64? (h : t.int64? = some i) : (Number.int i).InRange ∧ i < twoTo 63 := by
  obtain ⟨i', hi, h⟩ := Option.bind_eq_some_iff.mp h
  split at h
  next hlt =>
    cases h
    exact ⟨inRange_of_int? hi, hlt⟩
  next => cases h

theorem int64?_tree (h : (Number.int i).InRange) (hlt : i < twoTo 63) :
    (Json.int i).tree.int64? = some i := by
  rw [Tree.int64?, int?_tree h]
  exact if_pos hlt

end

structure Error.Fits (e : Error) : Prop where
  code : (Number.int e.code).InRange
  signed : e.code < twoTo 63
  data : ∀ v ∈ e.data, v ≠ .null ∧ Json.Fits (Json.maxDepth - 2) v

structure Response.Fits (r : Response) : Prop where
  id : ∀ n ∈ r.id, (Number.int n).InRange
  result : ∀ v ∈ r.result, v ≠ .null ∧ Json.Fits (Json.maxDepth - 1) v
  error : ∀ e ∈ r.error, e.Fits

theorem ne_null_of_isNull {depth : Nat} {u : Tree} {v : Json} (hu : u.isNull = false)
    (h : Json.ofTree? depth u = some v) : v ≠ .null := by
  rintro rfl
  cases u with
  | null => cases hu
  | arr ts => cases depth <;> simp [Json.ofTree?] at h
  | obj ms => cases depth <;> simp [Json.ofTree?, Json.object] at h
  | _ => simp [Json.ofTree?] at h

theorem fits_of_stands {depth : Nat} {t : Option Tree} {v : Option Json}
    (h : Stands (Json.ofTree? depth) t v) : ∀ w ∈ v, w ≠ .null ∧ Json.Fits depth w := by
  rintro w rfl
  obtain ⟨u, -, hnull, hread⟩ := h
  exact ⟨ne_null_of_isNull hnull hread, Json.fits_of_ofTree? u hread⟩

theorem Error.ReadFrom.fits {e : Error} {t : Tree} (h : e.ReadFrom t) : e.Fits := by
  obtain ⟨-, code, -, data, -, -, hcode, -, hdata⟩ := h
  exact ⟨(inRange_of_int64? hcode).1, (inRange_of_int64? hcode).2, fits_of_stands hdata⟩

theorem Response.ReadFrom.fits {r : Response} {t : Tree} (h : r.ReadFrom t) : r.Fits := by
  obtain ⟨-, -, id, result, error, -, -, -, hid, hresult, herror⟩ := h
  refine ⟨fun n hn => ?_, fits_of_stands hresult, fun e he => ?_⟩
  · rw [Option.mem_def.mp hn] at hid
    obtain ⟨u, -, -, hread⟩ := hid
    exact inRange_of_nat64? hread
  · rw [Option.mem_def.mp he] at herror
    obtain ⟨u, -, hread⟩ := herror
    exact hread.fits

def Response.Contains (d : Double) (r : Response) : Prop :=
  (∃ v ∈ r.result, Json.Contains d v) ∨ ∃ e ∈ r.error, ∃ v ∈ e.data, Json.Contains d v

theorem holds_tree {depth : Nat} {v : Json} (h : v ≠ .null ∧ Json.Fits depth v)
    (hdoubles : ∀ d, Json.Contains d v → (Number.float d).ReadsBack) :
    Holds depth (some v.tree) v :=
  ⟨v.tree, rfl, h.2.ofTree?_tree hdoubles, h.1⟩

theorem Error.PrintedAs.written {e : Error} {j : Json} (h : e.PrintedAs j) (hfits : e.Fits)
    (hdoubles : ∀ d, ∀ v ∈ e.data, Json.Contains d v → (Number.float d).ReadsBack) :
    e.WrittenAs j.tree := by
  obtain ⟨ms, rfl, hperm⟩ := h
  have hget (k : String) : (Json.trees ms).get? k = (e.members.get? k).map Json.tree := by
    rw [Json.get?_trees, Dict.get?_perm hperm e.nodup_members]
  refine ⟨Json.trees ms, Json.isRecord_tree ((hperm.map _).nodup_iff.mpr e.nodup_members),
    ?_, ?_, ?_⟩
  · rw [hget]
    exact int64?_tree hfits.code hfits.signed
  · rw [hget]
    exact Json.text?_pieces e.message
  · rw [hget, members]
    cases hdata : e.data with
    | none => exact absent_none
    | some v => exact holds_tree (hfits.data v hdata) fun d => hdoubles d v hdata

theorem Response.PrintedAs.ofTree?_tree {r : Response} {j : Json} (h : r.PrintedAs j)
    (hfits : r.Fits) (hdoubles : ∀ d, r.Contains d → (Number.float d).ReadsBack) :
    ofTree? j.tree = some r := by
  obtain ⟨ms, error, rfl, hperm, herror⟩ := h
  have hget (k : String) : (Json.trees ms).get? k = ((r.members error).get? k).map Json.tree := by
    rw [Json.get?_trees, Dict.get?_perm hperm (r.nodup_members error)]
  have hversion : ((Json.trees ms).get? "jsonrpc").bind Tree.string? = some r.version := by
    rw [hget]
    exact Json.text?_pieces r.version
  have hid : optional? Tree.nat64? ((Json.trees ms).get? "id") = some r.id := by
    rw [hget]
    change optional? _ (some ((r.id.map Json.nat).getD .null).tree) = _
    cases hn : r.id with
    | none => rfl
    | some n => exact optional?_nat64.mpr (nat64?_tree (hfits.id n hn))
  have hresult : optional? (Json.ofTree? (Json.maxDepth - 1)) ((Json.trees ms).get? "result") =
      some r.result := by
    rw [hget, members]
    cases hv : r.result with
    | none => cases error <;> rfl
    | some v =>
      exact optional?_holds (holds_tree (hfits.result v hv) fun d hd =>
        hdoubles d (.inl ⟨v, hv, hd⟩))
  have herror : optional? Error.ofTree? ((Json.trees ms).get? "error") = some r.error := by
    have hgetError : (r.members error).get? "error" = error := by
      rw [members]
      cases r.result <;> cases error <;> rfl
    rw [hget, hgetError]
    generalize he : r.error = found at herror ⊢
    cases herror with
    | none => rfl
    | @some e j hprinted =>
      have hwritten := hprinted.written (hfits.error e he) fun d v hv hd =>
        hdoubles d (.inr ⟨e, he, v, hv, hd⟩)
      rw [Option.map_some, optional?_of_not_isNull hwritten.isNull, Error.ofTree?_written hwritten]
      rfl
  rw [ofTree?_record (Json.isRecord_tree ((hperm.map _).nodup_iff.mpr (r.nodup_members error)))
    hversion, hid, hresult, herror]
  rfl

theorem Response.parse?_render (j : Json) : parse? j.render = ofTree? j.tree := by
  rw [parse?, Tree.parse?_render]
  rfl

/-- A response is read from the fields of a record, where a null is as good as nothing. It is
printed as an object of these fields alone, and in any order of the fields it is read from that
again, as long as each double in it is. It stands for its error, also beside a result, or else for
its result. -/
theorem Response.parse?_printed {text : String} {r : Response} (h : parse? text = some r)
    (hdoubles : ∀ d, r.Contains d → (Number.float d).ReadsBack) :
    (∃ t, Tree.parse? text = some t ∧ r.ReadFrom t) ∧
    (r.PrintedAs r.toJson ∧ r.PrintedAs r.inOrder) ∧
    (∀ j, r.PrintedAs j → parse? j.render = some r) ∧
    (∀ e, r.error = some e → r.outcome = .error (.rpc e.code e.message)) ∧
    (∀ v, r.error = none → r.result = some v → r.outcome = .ok v) ∧
    (r.error = none → r.result = none →
      r.outcome = .error (.protocol "response has neither result nor error")) := by
  obtain ⟨t, ht, hread⟩ := Option.bind_eq_some_iff.mp h
  have hfrom := readFrom_of_ofTree? hread
  refine ⟨⟨t, ht, hfrom⟩, ⟨r.printedAs_toJson, r.printedAs_inOrder⟩, fun j hj => ?_, fun e he => ?_,
    fun v he hv => ?_, fun he hv => ?_⟩
  · rw [parse?_render, hj.ofTree?_tree hfrom.fits hdoubles]
  · rw [outcome, he]
  · rw [outcome, he, hv]
  · rw [outcome, he, hv]

def sampleDouble : Double := ⟨0x3FF8000000000000⟩

def sampleItems : List Json := [.num (.float sampleDouble), Json.nat 18446744073709551615, .obj []]

/-- An error beside a result, with a null for the id and for the data, and a field too many. -/
def sampleMembers : Dict Json :=
  [("result", .arr sampleItems), ("trace", .bool true), ("id", .null),
    ("error", .obj [("data", .null), ("message", .str "no"), ("code", Json.int (-32601))]),
    ("jsonrpc", .str "2.0")]

theorem contains_sampleItems {d : Double} (h : Json.Contains d (.arr sampleItems)) :
    (Number.float d).ReadsBack := by
  obtain _ | ⟨hmem, hd⟩ := h
  simp only [sampleItems, List.mem_cons, List.not_mem_nil, or_false] at hmem
  rcases hmem with rfl | rfl | rfl
  · cases hd
    decide +kernel
  · cases hd
  · obtain _ | _ | ⟨hmem, -⟩ := hd
    exact absurd hmem List.not_mem_nil

theorem fits_sampleItems {depth : Nat} : Json.Fits (depth + 2) (.arr sampleItems) := by
  refine .arr fun v hv => ?_
  simp only [sampleItems, List.mem_cons, List.not_mem_nil, or_false] at hv
  rcases hv with rfl | rfl | rfl
  · exact .num trivial
  · exact .num (by decide +kernel)
  · exact .obj .nil fun _ hm => absurd hm List.not_mem_nil

def sampleResponse : Response :=
  ⟨"2.0", none, some (.arr sampleItems), some ⟨-32601, "no", none⟩⟩

theorem Response.parse?_sample :
    parse? (Json.obj sampleMembers).render = some sampleResponse := by
  have hrecord := Json.isRecord_tree (by decide : sampleMembers.keys.Nodup)
  have hversion : ((Json.trees sampleMembers).get? "jsonrpc").bind Tree.string? = some "2.0" := rfl
  have hresult : Holds (Json.maxDepth - 1) ((Json.trees sampleMembers).get? "result")
      (.arr sampleItems) := holds_tree ⟨nofun, fits_sampleItems⟩ fun d => contains_sampleItems
  have herror : Error.WrittenAs ⟨-32601, "no", none⟩
      (Json.obj [("data", .null), ("message", .str "no"), ("code", Json.int (-32601))]).tree :=
    ⟨_, Json.isRecord_tree (by decide), int64?_tree (by decide +kernel) (by decide +kernel), rfl,
      fun u hu => Option.some.inj hu ▸ rfl⟩
  have hreadError : optional? Error.ofTree? ((Json.trees sampleMembers).get? "error") =
      some (some ⟨-32601, "no", none⟩) :=
    (optional?_of_not_isNull herror.isNull).trans
      (congrArg (Option.map some) (Error.ofTree?_written herror))
  rw [parse?_render, ofTree?_record hrecord hversion, optional?_holds hresult, hreadError]
  rfl

/-- The response says what the error says, and what is printed for it is read as the response. -/
theorem Response.parse?_printed_sample :
    parse? (Json.obj sampleMembers).render = some sampleResponse ∧
      sampleResponse.outcome = .error (.rpc (-32601) "no") ∧
      parse? sampleResponse.toJson.render = some sampleResponse ∧
      parse? sampleResponse.inOrder.render = some sampleResponse := by
  have hdoubles : ∀ d, sampleResponse.Contains d → (Number.float d).ReadsBack := by
    rintro d (⟨v, hv, hd⟩ | ⟨e, he, v, hv, -⟩)
    · obtain rfl := Option.some.inj hv
      exact contains_sampleItems hd
    · obtain rfl := Option.some.inj he
      cases hv
  obtain ⟨-, ⟨hsorted, hinOrder⟩, hread, herror, -⟩ := parse?_printed parse?_sample hdoubles
  exact ⟨parse?_sample, herror _ rfl, hread _ hsorted, hread _ hinOrder⟩

end Rpc
end Switchboard

import Switchboard.Proofs.JsonText
import Switchboard.Tool.Call

/-! Tool calls that are written as JSON between other text: each is read as it was written, unless
the mark of a JSON block stands in it. -/
namespace Switchboard.Json

theorem object_tool_args (x v : Json) :
    object [("tool", x), ("args", v)] = .obj [("args", v), ("tool", x)] := by
  have hlt : "args" < "tool" := by decide
  exact congrArg Json.obj (if_pos hlt)

theorem object_args_tool (x v : Json) :
    object [("args", v), ("tool", x)] = .obj [("args", v), ("tool", x)] := by
  have hlt : ¬ "tool" < "args" := by decide
  have hne : "tool" ≠ "args" := by decide
  exact congrArg Json.obj ((if_neg hlt).trans (if_neg hne))

end Switchboard.Json

namespace Switchboard.ToolCall
open Json (render)

def IsRecord (name : String) (args : Json) (members : List (String × Json)) : Prop :=
  members = [("tool", .str name), ("args", args)] ∨ members = [("args", args), ("tool", .str name)]

structure Prose (s : List Char) : Prop where
  opening : '\x7b' ∉ s
  closing : '\x7d' ∉ s
  unfenced : ¬ fence <:+: s

def mark : List Char := fence ++ ['j', 's', 'o', 'n']

section
variable {before inner after : List Char}

theorem braced?_append (hbefore : '\x7b' ∉ before) (hafter : '\x7d' ∉ after) :
    braced? (before ++ ('\x7b' :: (inner ++ ['\x7d']) ++ after)) =
      some ('\x7b' :: (inner ++ ['\x7d'])) := by
  have hopen : Chars.cut? ['\x7b'] (before ++ ('\x7b' :: (inner ++ ['\x7d']) ++ after)) =
      some (before, inner ++ ['\x7d'] ++ after) := Chars.cut?_append hbefore _
  have hreverse : (before ++ ('\x7b' :: (inner ++ ['\x7d']) ++ after)).reverse =
      after.reverse ++ '\x7d' :: (before ++ '\x7b' :: inner).reverse := by simp
  have hclose :=
    Chars.cut?_append (mt List.mem_reverse.mp hafter) (before ++ '\x7b' :: inner).reverse
  have hlength : (before ++ ('\x7b' :: (inner ++ ['\x7d']) ++ after)).length =
      before.length + (inner.length + 2) + after.length := by
    simp
    omega
  rw [braced?, hopen, hreverse, hclose]
  dsimp only [Option.bind_eq_bind, Option.bind_some]
  have htake : before.length + (inner.length + 2) + after.length - before.length - after.length =
      ('\x7b' :: (inner ++ ['\x7d'])).length := by
    simp
    omega
  rw [List.length_reverse, hlength, if_pos (by omega), List.drop_left, htake, List.take_left]

/-- The mark of a block does not stand in what is around a text in braces, nor across its braces. -/
theorem mark_notInfix (hbefore : ¬ fence <:+: before) (hafter : ¬ fence <:+: after)
    (hinner : ¬ mark <:+: '\x7b' :: (inner ++ ['\x7d'])) :
    ¬ mark <:+: before ++ ('\x7b' :: (inner ++ ['\x7d']) ++ after) := by
  have hfence : fence <:+: mark := List.infix_append_left
  -- Without a brace of its own the mark lies before, between or behind the outer braces.
  intro hmark
  rcases Chars.infix_append_cons (by decide) hmark with h | h
  · exact hbefore (hfence.trans h)
  · have hsplit : mark <:+: inner ++ '\x7d' :: after := by
      rwa [← List.singleton_append, ← List.append_assoc]
    rcases Chars.infix_append_cons (by decide) hsplit with h | h
    · exact hinner (List.infix_cons (List.infix_append_of_infix_left h))
    · exact hafter (hfence.trans h)

/-- What is taken from a text with a call is the call's text. -/
theorem payload?_append (hbefore : Prose before) (hafter : Prose after)
    (hinner : ¬ mark <:+: '\x7b' :: (inner ++ ['\x7d'])) :
    payload? (before ++ ('\x7b' :: (inner ++ ['\x7d']) ++ after)) =
      some ('\x7b' :: (inner ++ ['\x7d'])) := by
  have hsuffix : Chars.trimStart before <:+ before := List.dropWhile_suffix _
  have hstart : Chars.trimEnd after <+: after := Chars.trimEnd_prefix after
  have htrim : Chars.trim (before ++ ('\x7b' :: (inner ++ ['\x7d']) ++ after)) =
      Chars.trimStart before ++ ('\x7b' :: (inner ++ ['\x7d']) ++ Chars.trimEnd after) := by
    have hfirst : ∀ c ∈ ('\x7b' :: (inner ++ ['\x7d']) ++ after).head?, isBlank c = false :=
      fun c hc => Option.some.inj hc ▸ rfl
    have hlast : ∀ c ∈ (Chars.trimStart before ++ '\x7b' :: (inner ++ ['\x7d'])).getLast?,
        isBlank c = false := by
      rw [← List.cons_append, ← List.append_assoc, List.getLast?_concat]
      exact fun c hc => Option.some.inj hc ▸ rfl
    rw [Chars.trim, Chars.trimStart, Chars.dropWhile_append_of_head hfirst, ← Chars.trimStart,
      ← List.append_assoc, Chars.trimEnd_append_of_last hlast, List.append_assoc]
  have hnone : Chars.cut? mark (Chars.trimStart before ++
      ('\x7b' :: (inner ++ ['\x7d']) ++ Chars.trimEnd after)) = none := by
    rw [← Option.isNone_iff_eq_none, ← Option.not_isSome, Bool.not_eq_true', Bool.eq_false_iff]
    refine fun hsome => mark_notInfix ?_ ?_ hinner (Chars.contains_iff.mp hsome)
    · exact fun h => hbefore.unfenced (h.trans hsuffix.isInfix)
    · exact fun h => hafter.unfenced (h.trans hstart.isInfix)
  have hmark : fence ++ ['j', 's', 'o', 'n'] = mark := rfl
  rw [payload?, htrim, hmark, hnone]
  exact braced?_append (mt (hsuffix.mem ·) hbefore.opening) (mt (hstart.mem ·) hafter.closing)

end

variable {name : String} {args : Json} {members : List (String × Json)}

theorem ofTree?_args (hmembers : IsRecord name args members)
    (hback : Json.parse? (render (.obj members)) = some (Json.object members)) :
    Json.ofTree? (Json.maxDepth - 1) args.tree = some args := by
  have hname : Json.ofTree? 126 (.str (Json.pieces name)) = some (.str name) := by
    rw [Json.ofTree?, Json.text?_pieces]
    rfl
  rw [Json.parse?_render] at hback
  obtain ⟨read, hread, hobject⟩ := Option.map_eq_some_iff.mp
    (hback : (Json.ofMembers? 126 (Json.memberTrees members)).map Json.object = _)
  rcases hmembers with rfl | rfl
  · rw [Json.memberTrees, Json.memberTrees, Json.memberTrees, Json.tree, Json.ofMembers?_pair,
      hname, Option.bind_some] at hread
    obtain ⟨v, hv, rfl⟩ := Option.map_eq_some_iff.mp hread
    rw [Json.object_tool_args, Json.object_tool_args] at hobject
    cases hobject
    exact hv
  · rw [Json.memberTrees, Json.memberTrees, Json.memberTrees, Json.tree,
      Json.ofMembers?_pair] at hread
    obtain ⟨v, hv, hmap⟩ := Option.bind_eq_some_iff.mp hread
    rw [hname] at hmap
    cases hmap
    rw [Json.object_args_tool, Json.object_args_tool] at hobject
    cases hobject
    exact hv

/-- The record's tree is read as a call with what the arguments' tree is read as. -/
theorem ofTree?_record (hname : Text.isBlankText name = false)
    (hmembers : IsRecord name args members)
    (hargs : Json.ofTree? (Json.maxDepth - 1) args.tree = some args) :
    ofTree? (Json.obj members).tree = some ⟨name, args⟩ := by
  have htool := Json.text?_pieces "tool"
  have hkey := Json.text?_pieces "args"
  have hfields : (Json.obj members).tree.fields? ["tool", "args"] =
      some ⟨false, [some (.str (Json.pieces name)), some args.tree]⟩ := by
    rcases hmembers with rfl | rfl
    all_goals
      simp only [Json.tree, Json.memberTrees, Json.Tree.fields?, List.mapM_cons, htool, hkey]
      rfl
  rw [ofTree?, hfields]
  dsimp only [Option.bind_eq_bind, Option.bind_some]
  rw [Json.Tree.string?, Json.text?_pieces, hargs]
  dsimp only [Option.bind_some]
  rw [hname]
  rfl

/-- A call that is written between other text is read as it was written if its own text is read back
and does not contain the mark of a JSON block. -/
theorem parse?_written {before after : String} (hname : Text.isBlankText name = false)
    (hmembers : IsRecord name args members)
    (hback : Json.parse? (render (.obj members)) = some (Json.object members))
    (hbefore : Prose before.toList) (hafter : Prose after.toList)
    (hmark : Text.contains "\x60\x60\x60json" (render (.obj members)) = false) :
    parse? (before ++ render (.obj members) ++ after) = some ⟨name, args⟩ := by
  obtain ⟨inner, hchars⟩ := Json.exists_chars_obj members
  have hinner : ¬ mark <:+: '\x7b' :: (inner ++ ['\x7d']) := by
    have hcontains : Chars.contains mark (render (.obj members)).toList = false := hmark
    rwa [render, String.toList_ofList, hchars, Bool.eq_false_iff, Ne,
      Chars.contains_iff] at hcontains
  have hpayload : payload? (before ++ render (.obj members) ++ after).toList =
      some (Json.chars (.obj members)) := by
    rw [String.toList_append, String.toList_append, render, String.toList_ofList,
      List.append_assoc, hchars]
    exact payload?_append hbefore hafter hinner
  have hread : Json.Tree.parse? (.ofList (Json.chars (.obj members))) =
      some (Json.obj members).tree := Json.Tree.parse?_render _
  rw [parse?, hpayload]
  dsimp only [Option.bind_eq_bind, Option.bind_some]
  rw [hread]
  exact ofTree?_record hname hmembers (ofTree?_args hmembers hback)

def sampleArgs : Json :=
  .obj [("city", .str "\x7b\"北京\"\x7d\n"), ("days", .arr [.num (.int (-3)), .null, .bool true]),
    ("note", .str "\x60\x60\x60text \x7b\x60\x60\x60")]

theorem parse?_written_sample :
    Json.parse? (render (.obj [("tool", .str "getWeather"), ("args", sampleArgs)])) =
        some (Json.object [("tool", .str "getWeather"), ("args", sampleArgs)]) ∧
      parse? (" 我来查询：\n" ++ render (.obj [("tool", .str "getWeather"), ("args", sampleArgs)]) ++
        "\n请稍候。 ") = some ⟨"getWeather", sampleArgs⟩ := by
  have hback : Json.parse? (render (.obj [("tool", .str "getWeather"), ("args", sampleArgs)])) =
      some (Json.object [("tool", .str "getWeather"), ("args", sampleArgs)]) :=
    (Json.parse?_render _).trans rfl
  have hbefore : Prose " 我来查询：\n".toList :=
    ⟨by decide, by decide, mt Chars.contains_iff.mpr (by decide)⟩
  have hafter : Prose "\n请稍候。 ".toList :=
    ⟨by decide, by decide, mt Chars.contains_iff.mpr (by decide)⟩
  exact ⟨hback, parse?_written (by decide) (.inl rfl) hback hbefore hafter (by decide +kernel)⟩

/-- A block of JSON in the arguments is taken for the call, though the call's text is read back:
there is no call in the block, or a block of several texts is another call. -/
theorem parse?_marked :
    let noted := Json.obj
      [("args", .str "\x60\x60\x60json\n1\n\x60\x60\x60"), ("tool", .str "note")]
    let marked := Json.obj
      [("args", .arr [.str "\x60\x60\x60json[", .str ",", .str "]\x60\x60\x60"]),
        ("tool", .str "t")]
    (Json.parse? (render noted)).map render = some (render noted) ∧
      (parse? (render noted)).isNone = true ∧
      (Json.parse? (render marked)).map render = some (render marked) ∧
      (parse? (render marked)).map (fun call => (call.tool, render call.args)) =
        some (",", "\",\"") := by
  decide +kernel

end Switchboard.ToolCall

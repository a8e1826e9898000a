import Mathlib.Data.List.Forall2
import Switchboard.Model.Backend

/-! A section of the settings that is left out, and the same section without keys. For every section
but the one of the model they mean the same. -/
namespace Switchboard

namespace Setting

variable {g g' : Group} {k key : String} {path : List String} {v : Setting}

/-- What is at the first key of a path once the value at its end is set, from what was there. -/
def laid (path : List String) (v : Setting) (old : Option Setting) : Setting :=
  match path, v with
  | [], .group [] => old.getD (.group [])
  | [], .group es => .group (assignAll es (entriesOf old))
  | [], v => v
  | ks, v => .group (assignPath ks v (entriesOf old))

/-- An empty group counts for what is laid over it as nothing at all. -/
theorem laid_empty (path : List String) (v : Setting) :
    laid path v (some (.group [])) = laid path v none := by
  cases path with
  | nil =>
    cases v with
    | group es => cases es <;> rfl
    | _ => rfl
  | cons k ks => rfl

theorem get?_assign_self (k : String) (v : Setting) (g : Group) :
    (assign k v g).get? (Text.lower k) = some (laid [] v (g.get? (Text.lower k))) := by
  cases v with
  | group es =>
    cases es with
    | nil =>
      rw [assign]
      cases hold : g.get? (Text.lower k) with
      | none => exact Dict.get?_put_self ..
      | some old => exact hold
    | cons e es => exact Dict.get?_put_self ..
  | _ => exact Dict.get?_put_self ..

theorem get?_assign_of_ne (h : key ≠ Text.lower k) (v : Setting) (g : Group) :
    (assign k v g).get? key = g.get? key := by
  cases v with
  | group es =>
    cases es with
    | nil =>
      rw [assign]
      cases (g.get? (Text.lower k)).isSome with
      | false => exact Dict.get?_put_of_ne h ..
      | true => rfl
    | cons e es => exact Dict.get?_put_of_ne h ..
  | _ => exact Dict.get?_put_of_ne h ..

theorem get?_assignPath_self (k : String) (ks : List String) (v : Setting) (g : Group) :
    (assignPath (k :: ks) v g).get? (Text.lower k) =
      some (laid ks v (g.get? (Text.lower k))) := by
  cases ks with
  | nil => exact get?_assign_self k v g
  | cons k' ks => exact Dict.get?_put_self ..

theorem get?_assignPath_of_ne (h : key ≠ Text.lower k) (ks : List String) (v : Setting)
    (g : Group) : (assignPath (k :: ks) v g).get? key = g.get? key := by
  cases ks with
  | nil => exact get?_assign_of_ne h v g
  | cons k' ks => exact Dict.get?_put_of_ne h ..

def Concerns (key name : String) : Prop := ((pathOf name).head?.map Text.lower) = some key

def Mentions (key : String) (source : List (String × Setting)) : Prop :=
  ∃ e ∈ source, Concerns key e.1

instance (name : String) : Decidable (Concerns key name) :=
  inferInstanceAs (Decidable (_ = _))

instance (source : List (String × Setting)) : Decidable (Mentions key source) :=
  inferInstanceAs (Decidable (∃ _ ∈ _, _))

/-- The settings are the same but that the one is perhaps missing on the left and an empty group on
the right. -/
structure Alike (key : String) (g g' : Group) : Prop where
  others : ∀ k ≠ key, g'.get? k = g.get? k
  this : g'.get? key = g.get? key ∨ g.get? key = none ∧ g'.get? key = some (.group [])

theorem Alike.refl (key : String) (g : Group) : Alike key g g := ⟨fun _ _ => rfl, .inl rfl⟩

theorem Alike.assignPath (h : Alike key g g') (path : List String) (v : Setting) :
    Alike key (assignPath path v g) (assignPath path v g') := by
  cases path with
  | nil => exact h
  | cons k ks =>
    have hlaid (old : String) : laid ks v (g'.get? old) = laid ks v (g.get? old) := by
      by_cases hold : old = key
      · subst hold
        rcases h.this with heq | ⟨hnone, hempty⟩
        · rw [heq]
        · rw [hnone, hempty, laid_empty]
      · rw [h.others old hold]
    have hself : (Setting.assignPath (k :: ks) v g').get? (Text.lower k) =
        (Setting.assignPath (k :: ks) v g).get? (Text.lower k) := by
      rw [get?_assignPath_self, get?_assignPath_self, hlaid]
    constructor
    · intro other hother
      by_cases hk : other = Text.lower k
      · rw [hk, hself]
      · rw [get?_assignPath_of_ne hk, get?_assignPath_of_ne hk, h.others other hother]
    · by_cases hk : key = Text.lower k
      · exact .inl (hk ▸ hself)
      · rw [get?_assignPath_of_ne hk, get?_assignPath_of_ne hk]
        exact h.this

theorem Alike.overlay (h : Alike key g g') (source : List (String × Setting)) :
    Alike key (overlay g source) (overlay g' source) := by
  induction source generalizing g g' with
  | nil => exact h
  | cons e source ih => exact ih (h.assignPath (pathOf e.1) e.2)

theorem Alike.trans {g'' : Group} (h : Alike key g g') (h' : Alike key g' g'') :
    Alike key g g'' := by
  refine ⟨fun k hk => (h'.others k hk).trans (h.others k hk), ?_⟩
  rcases h'.this with heq' | ⟨hnone', hempty'⟩
  · rw [heq']
    exact h.this
  · rcases h.this with heq | ⟨-, hempty⟩
    · exact .inr ⟨heq ▸ hnone', hempty'⟩
    · rw [hempty] at hnone'
      cases hnone'

structure IsKey (name : String) : Prop where
  path : pathOf name = [name]
  lower : Text.lower name = name

theorem IsKey.alike (h : IsKey key) (g : Group) :
    Alike key g (Setting.assignPath (pathOf key) (.group []) g) := by
  have hself := get?_assignPath_self key [] (.group []) g
  rw [h.lower] at hself
  rw [h.path]
  refine ⟨fun k hk => get?_assignPath_of_ne (h.lower.symm ▸ hk) [] _ g, ?_⟩
  rw [hself]
  cases g.get? key with
  | none => exact .inr ⟨rfl, rfl⟩
  | some old => exact .inl rfl

/-- The source once more, with an empty group under the key somewhere between its entries. -/
def Emptied (key : String) (source source' : List (String × Setting)) : Prop :=
  ∃ before after, source = before ++ after ∧ source' = before ++ (key, .group []) :: after

theorem IsKey.mentions (h : IsKey key) {source source' : List (String × Setting)}
    (hsource : Emptied key source source') : Mentions key source' := by
  obtain ⟨before, after, -, rfl⟩ := hsource
  refine ⟨(key, .group []), List.mem_append_right _ List.mem_cons_self, ?_⟩
  rw [Concerns, h.path, List.head?_cons, Option.map_some, h.lower]

theorem Alike.overlay_emptied (h : Alike key g g') (hkey : IsKey key)
    {source source' : List (String × Setting)} (hsource : Emptied key source source') :
    Alike key (Setting.overlay g source) (Setting.overlay g' source') := by
  obtain ⟨before, after, rfl, rfl⟩ := hsource
  rw [Setting.overlay, Setting.overlay, List.foldl_append, List.foldl_append, List.foldl_cons]
  exact ((h.overlay before).trans (hkey.alike _)).overlay after

/-- The sources are the same but that some are given with an empty group more. -/
def EmptiedIn (key : String) : List Group → List Group → Prop :=
  List.Forall₂ fun source source' => source' = source ∨ Emptied key source source'

theorem Alike.overlays {sources sources' : List Group} (h : Alike key g g') (hkey : IsKey key)
    (hsources : EmptiedIn key sources sources') :
    Alike key (sources.foldl Setting.overlay g) (sources'.foldl Setting.overlay g') := by
  induction hsources generalizing g g' with
  | nil => exact h
  | cons hsource _ ih =>
    rcases hsource with rfl | hemptied
    · exact ih (h.overlay _)
    · exact ih (h.overlay_emptied hkey hemptied)

theorem get?_overlay_eq_none {source : List (String × Setting)} :
    (overlay g source).get? key = none ↔ g.get? key = none ∧ ¬ Mentions key source := by
  induction source generalizing g with
  | nil => simp [overlay, Mentions]
  | cons e source ih =>
    have hstep : (assignPath (pathOf e.1) e.2 g).get? key = none ↔
        g.get? key = none ∧ ¬ Concerns key e.1 := by
      rw [Concerns]
      cases pathOf e.1 with
      | nil => simp [assignPath]
      | cons k ks =>
        by_cases hk : key = Text.lower k
        · subst hk
          simp [get?_assignPath_self]
        · simp [get?_assignPath_of_ne hk, Ne.symm hk]
    change (overlay (assignPath (pathOf e.1) e.2 g) source).get? key = none ↔ _
    rw [ih, hstep]
    simp [Mentions, not_or, and_assoc]

/-- A setting is missing if none of the sources that are laid over each other mentions it. -/
theorem get?_overlays_eq_none {sources : List Group} :
    (sources.foldl overlay g).get? key = none ↔
      g.get? key = none ∧ ∀ source ∈ sources, ¬ Mentions key source := by
  induction sources generalizing g with
  | nil => simp
  | cons source sources ih =>
    rw [List.foldl_cons, ih, get?_overlay_eq_none]
    simp [and_assoc]

end Setting

namespace Settings
open Setting (Group Alike IsKey Emptied EmptiedIn Mentions toGroup? overlay)
open Switchboard.Model (Backend Environment defaultBase deepseekBase)

/-- A section that is read by `read`, or its default if it is missing. -/
def part? {α : Type} (read : Group → Option α) (default : α) : Option Setting → Option α
  | none => some default
  | some v => (toGroup? v).bind read

theorem ofGroup?_eq (g : Group) : ofGroup? g = (do
    some {
      conversation := ← part? Conversation.ofGroup? {} (g.get? "app")
      model := ← part? Model.ofGroup? {} (g.get? "llm")
      servers := ← part? Servers.ofGroup? {} (g.get? "mcp")
      skills := ← part? Skills.ofGroup? {} (g.get? "skills")
      limits := ← part? limits? {} (g.get? "engine")
      database := ← part? (·.read? "sqlite_path" Setting.toText?) none
        (g.get? "storage") }) := rfl

def sections : List String := ["app", "llm", "mcp", "skills", "engine", "storage"]

theorem isKey_of_mem_sections {key : String} (h : key ∈ sections) : IsKey key := by
  have hall : ∀ key ∈ sections, Setting.pathOf key = [key] ∧ Text.lower key = key := by
    decide +kernel
  exact ⟨(hall key h).1, (hall key h).2⟩

/-- What the model's section says if it has no keys. -/
def Model.unnamed : Model := { provider := "deepseek", model := "deepseek-chat" }

variable {g g' : Group} {key : String}

/-- A section is read alike from both if its default is what an empty one says. -/
theorem part?_alike {α : Type} {read : Group → Option α} {default : α} (h : Alike key g g')
    (name : String) (hread : read [] = some default) :
    part? read default (g'.get? name) = part? read default (g.get? name) := by
  by_cases hname : name = key
  · subst hname
    rcases h.this with heq | ⟨hnone, hempty⟩
    · rw [heq]
    · rw [hnone, hempty]
      exact hread
  · rw [h.others name hname]

/-- All sections but the model's are read alike. -/
structure SameBesideModel (g g' : Group) : Prop where
  conversation : part? Conversation.ofGroup? {} (g'.get? "app") =
    part? Conversation.ofGroup? {} (g.get? "app")
  servers : part? Servers.ofGroup? {} (g'.get? "mcp") =
    part? Servers.ofGroup? {} (g.get? "mcp")
  skills : part? Skills.ofGroup? {} (g'.get? "skills") =
    part? Skills.ofGroup? {} (g.get? "skills")
  limits : part? limits? {} (g'.get? "engine") = part? limits? {} (g.get? "engine")
  database : part? (·.read? "sqlite_path" Setting.toText?) none (g'.get? "storage") =
    part? (·.read? "sqlite_path" Setting.toText?) none (g.get? "storage")

theorem sameBesideModel_of_alike (h : Alike key g g') : SameBesideModel g g' :=
  ⟨part?_alike h "app" rfl, part?_alike h "mcp" rfl, part?_alike h "skills" rfl,
    part?_alike h "engine" rfl, part?_alike h "storage" rfl⟩

theorem ofGroup?_of_sameModel (h : SameBesideModel g g') (hmodel : g'.get? "llm" = g.get? "llm") :
    ofGroup? g' = ofGroup? g := by
  rw [ofGroup?_eq, ofGroup?_eq, h.conversation, hmodel, h.servers, h.skills, h.limits, h.database]

/-- Settings that say nothing of the model become those of its section without keys. -/
theorem ofGroup?_of_emptyModel (h : SameBesideModel g g') (hnone : g.get? "llm" = none)
    (hempty : g'.get? "llm" = some (.group [])) :
    ofGroup? g' = (ofGroup? g).map fun s => { s with model := Model.unnamed } := by
  rw [ofGroup?_eq, ofGroup?_eq, h.conversation, hnone, hempty, h.servers, h.skills, h.limits,
    h.database]
  cases part? Conversation.ofGroup? {} (g.get? "app") with
  | none => rfl
  | some conversation =>
    cases part? Servers.ofGroup? {} (g.get? "mcp") with
    | none => rfl
    | some servers =>
      cases part? Skills.ofGroup? {} (g.get? "skills") with
      | none => rfl
      | some skills =>
        cases part? limits? {} (g.get? "engine") with
        | none => rfl
        | some limits => cases part? _ none (g.get? "storage") <;> rfl

/-- Settings that say nothing of the model leave it without provider and name. -/
theorem model_of_ofGroup? {s : Settings} (hnone : g.get? "llm" = none) (h : ofGroup? g = some s) :
    s.model = {} := by
  rw [ofGroup?_eq, hnone] at h
  simp only [Option.bind_eq_bind, Option.bind_eq_some_iff] at h
  obtain ⟨_, -, model, hmodel, _, -, _, -, _, -, _, -, hs⟩ := h
  rw [← Option.some.inj hs, ← Option.some.inj hmodel]

/-! The files. -/

def loaded (read : String → Option String) (path : Option String) : List String :=
  (defaultFiles.find? fun f => (read f).isSome).toList
    ++ (path.filter fun f => (read f).isSome).toList

/-- What the files and the environment say, in the order in which they are laid over each other. -/
def sources? (read : String → Option String) (path : Option String)
    (environment : List (String × String)) : Option (List Group) := do
  let groups ← (loaded read path).mapM fun f => ofFile? f ((read f).getD "")
  some (groups ++ [environment.filterMap fun v => Setting.ofVariable? v.1 v.2])

variable {read read' : String → Option String} {path : Option String} {file text text' : String}
  {environment : List (String × String)}

theorem load?_eq : load? read path environment =
    (sources? read path environment).bind fun sources => ofGroup? (sources.foldl overlay []) := by
  rw [sources?, Option.bind_eq_bind, Option.bind_assoc]
  rfl

/-- The file was there and now has another text; nothing else has changed. -/
structure Rewritten (read read' : String → Option String) (file text text' : String) : Prop where
  old : read file = some text
  new : read' file = some text'
  others : ∀ f ≠ file, read' f = read f

theorem Rewritten.loaded_eq (h : Rewritten read read' file text text') :
    loaded read' path = loaded read path := by
  have hthere : ∀ f, (read' f).isSome = (read f).isSome := by
    intro f
    by_cases hf : f = file
    · rw [hf, h.old, h.new]
      rfl
    · rw [h.others f hf]
  simp only [loaded, hthere]

theorem rel_mapM {α β : Type} {R : β → β → Prop} {f f' : α → Option β} :
    ∀ l : List α, (∀ a ∈ l, Option.Rel R (f a) (f' a)) →
      Option.Rel (List.Forall₂ R) (l.mapM f) (l.mapM f')
  | [], _ => .some .nil
  | a :: l, h => by
    have hhead := h a List.mem_cons_self
    have htail := rel_mapM l fun b hb => h b (List.mem_cons_of_mem a hb)
    rw [List.mapM_cons, List.mapM_cons]
    generalize f a = b at hhead ⊢
    generalize f' a = b' at hhead ⊢
    generalize l.mapM f = bs at htail ⊢
    generalize l.mapM f' = bs' at htail ⊢
    cases hhead with
    | none => exact .none
    | some hb =>
      cases htail with
      | none => exact .none
      | some hl => exact .some (.cons hb hl)

/-- What is laid over each other is the same but for the empty section, and it is there for both or
for neither. -/
theorem Rewritten.rel_sources? (h : Rewritten read read' file text text') {d d' : Group}
    (hdoc : ofFile? file text = some d) (hdoc' : ofFile? file text' = some d')
    (hemptied : Emptied key d d') :
    Option.Rel (EmptiedIn key) (sources? read path environment)
      (sources? read' path environment) := by
  have hrel : Option.Rel (EmptiedIn key)
      ((loaded read path).mapM fun f => ofFile? f ((read f).getD ""))
      ((loaded read path).mapM fun f => ofFile? f ((read' f).getD "")) := by
    refine rel_mapM _ fun f _ => ?_
    by_cases hf : f = file
    · rw [hf, h.old, h.new, Option.getD_some, Option.getD_some, hdoc, hdoc']
      exact .some (.inr hemptied)
    · rw [h.others f hf]
      cases ofFile? f ((read f).getD "") with
      | none => exact .none
      | some g => exact .some (.inl rfl)
  rw [sources?, sources?, h.loaded_eq]
  generalize (loaded read path).mapM (fun f => ofFile? f ((read f).getD "")) = groups at hrel ⊢
  generalize (loaded read path).mapM (fun f => ofFile? f ((read' f).getD "")) = groups' at hrel ⊢
  cases hrel with
  | none => exact .none
  | some hgroups => exact .some (List.rel_append hgroups (.cons (.inl rfl) .nil))

theorem mem_of_mapM {α β : Type} {f : α → Option β} {a : α} {b : β} (hb : f a = some b) :
    ∀ {l : List α} {bs : List β}, l.mapM f = some bs → a ∈ l → b ∈ bs
  | c :: l, bs, h, hmem => by
    rw [List.mapM_cons] at h
    obtain ⟨b', hb', h⟩ := Option.bind_eq_some_iff.mp h
    obtain ⟨bs', hbs', h⟩ := Option.bind_eq_some_iff.mp h
    cases h
    rcases List.mem_cons.mp hmem with rfl | hmem
    · rw [hb'] at hb
      exact Option.some.inj hb ▸ List.mem_cons_self
    · exact List.mem_cons_of_mem _ (mem_of_mapM hb hbs' hmem)

theorem mem_sources? {d : Group} (hfile : file ∈ loaded read path) (hread : read file = some text)
    (hdoc : ofFile? file text = some d) {sources : List Group}
    (hsources : sources? read path environment = some sources) : d ∈ sources := by
  obtain ⟨groups, hgroups, hall⟩ := Option.bind_eq_some_iff.mp hsources
  cases hall
  refine List.mem_append_left _ (mem_of_mapM ?_ hgroups hfile)
  rw [hread, Option.getD_some, hdoc]

/-- With a key, an empty section of the model sends the requests elsewhere than a missing one. -/
theorem choose_unnamed_iff (keys : Environment) :
    Backend.choose {} keys = Backend.choose Model.unnamed keys ↔
      keys.get? "DEEPSEEK_API_KEY" = none ∧ keys.get? "OPENAI_API_KEY" = none := by
  have hempty : Text.lower "" ≠ "deepseek" := by decide +kernel
  have hunnamed : Text.lower "deepseek" = "deepseek" := by decide +kernel
  have hbase : defaultBase ≠ deepseekBase := by decide +kernel
  unfold Backend.choose
  cases keys.get? "DEEPSEEK_API_KEY" with
  | some key => simp [Backend.choose.deepseek, Model.unnamed]
  | none =>
    cases keys.get? "OPENAI_API_KEY" with
    | none => simp
    | some key =>
      simp [Backend.choose.deepseek, Model.unnamed, hempty, hunnamed, hbase]

def SilentOnModel (read : String → Option String) (path : Option String)
    (environment : List (String × String)) : Prop :=
  ∀ sources, sources? read path environment = some sources →
    ∀ source ∈ sources, ¬ Mentions "llm" source

/-- The model's settings stay as they are, unless it is their section that is added and nothing said
of them. -/
theorem model_of_mentioned {sources sources' : List Group} (hkey : IsKey key)
    (hsources : EmptiedIn key sources sources')
    (h : ¬ (key = "llm" ∧ ∀ source ∈ sources, ¬ Mentions "llm" source)) :
    (sources'.foldl overlay []).get? "llm" = (sources.foldl overlay []).get? "llm" := by
  have halike := (Alike.refl key []).overlays hkey hsources
  by_cases hllm : key = "llm"
  · subst hllm
    refine halike.this.resolve_right fun hgained => h ⟨rfl, ?_⟩
    exact (Setting.get?_overlays_eq_none.mp hgained.1).2
  · exact halike.others "llm" (Ne.symm hllm)

theorem model_of_unmentioned {sources sources' : List Group} (hkey : IsKey "llm")
    (hsources : EmptiedIn "llm" sources sources')
    (h : ∀ source ∈ sources, ¬ Mentions "llm" source)
    (h' : ∃ source ∈ sources', Mentions "llm" source) :
    (sources.foldl overlay []).get? "llm" = none ∧
      (sources'.foldl overlay []).get? "llm" = some (.group []) := by
  have halike := (Alike.refl "llm" []).overlays hkey hsources
  have hnone : (sources.foldl overlay []).get? "llm" = none :=
    Setting.get?_overlays_eq_none.mpr ⟨rfl, h⟩
  have hsome : (sources'.foldl overlay []).get? "llm" ≠ none := by
    obtain ⟨source, hmem, hmentions⟩ := h'
    exact fun hnone' => (Setting.get?_overlays_eq_none.mp hnone').2 source hmem hmentions
  exact ⟨hnone, (halike.this.resolve_left fun heq => hsome (heq.trans hnone)).2⟩

/-- An empty section more in one of the files that are read changes nothing, unless it is the
model's and nothing else is said of the model. Then it names provider and model where they would
have been empty, and with a key of one of the services another model is asked than without it. -/
theorem load?_emptied (hkey : key ∈ sections) (h : Rewritten read read' file text text')
    (hfile : file ∈ loaded read path) {d d' : Group} (hdoc : ofFile? file text = some d)
    (hdoc' : ofFile? file text' = some d') (hemptied : Emptied key d d') :
    (¬ (key = "llm" ∧ SilentOnModel read path environment) →
      load? read' path environment = load? read path environment) ∧
    (key = "llm" → SilentOnModel read path environment →
      load? read' path environment =
        (load? read path environment).map (fun s => { s with model := Model.unnamed }) ∧
      ∀ s, load? read path environment = some s → s.model = {} ∧ ∀ keys,
        Backend.choose s.model keys =
            Backend.choose Model.unnamed keys ↔
          keys.get? "DEEPSEEK_API_KEY" = none ∧ keys.get? "OPENAI_API_KEY" = none) := by
  have hisKey := isKey_of_mem_sections hkey
  have hrel : Option.Rel (EmptiedIn key) (sources? read path environment)
      (sources? read' path environment) := h.rel_sources? hdoc hdoc' hemptied
  have hmem' : ∀ sources', sources? read' path environment = some sources' → d' ∈ sources' :=
    fun _ => mem_sources? (h.loaded_eq ▸ hfile) h.new hdoc'
  rw [load?_eq, load?_eq]
  unfold SilentOnModel
  generalize sources? read path environment = found at hrel ⊢
  generalize sources? read' path environment = found' at hrel hmem' ⊢
  cases hrel with
  | none => exact ⟨fun _ => rfl, fun _ _ => ⟨rfl, nofun⟩⟩
  | @some sources sources' hsources =>
    have hbeside := sameBesideModel_of_alike ((Alike.refl key []).overlays hisKey hsources)
    constructor
    · intro hloud
      refine ofGroup?_of_sameModel hbeside (model_of_mentioned hisKey hsources fun h => hloud ?_)
      refine ⟨h.1, ?_⟩
      rintro _ ⟨⟩
      exact h.2
    · rintro rfl hsilent
      obtain ⟨hnone, hempty⟩ := model_of_unmentioned hisKey hsources (hsilent sources rfl)
        ⟨d', hmem' sources' rfl, hisKey.mentions hemptied⟩
      refine ⟨ofGroup?_of_emptyModel hbeside hnone hempty, fun s hs => ?_⟩
      rw [model_of_ofGroup? hnone hs]
      exact ⟨rfl, choose_unnamed_iff⟩

def oneFile (file text : String) : String → Option String :=
  fun f => if f = file then some text else none

theorem rewritten_oneFile (file text text' : String) :
    Rewritten (oneFile file text) (oneFile file text') file text text' := by
  refine ⟨if_pos rfl, if_pos rfl, fun f hf => ?_⟩
  rw [oneFile, oneFile, if_neg hf, if_neg hf]

def engineText : String := "[engine]\nmode = 'direct'\n"

def engineGroup : Group := [("engine", .group [("mode", .text "direct")])]

theorem silentOnModel_engine :
    SilentOnModel (oneFile "app.toml" engineText) (some "app.toml") [] := by
  intro sources hsources source hsource
  have heq : sources? (oneFile "app.toml" engineText) (some "app.toml") [] =
      some [engineGroup, []] := rfl
  rw [heq] at hsources
  cases hsources
  revert source
  decide +kernel

/-- Beside the engine's settings an empty section of the skills changes nothing, an empty one of the
model does. -/
theorem load?_emptied_engine :
    load? (oneFile "app.toml" (engineText ++ "[skills]\n")) (some "app.toml") [] =
      load? (oneFile "app.toml" engineText) (some "app.toml") [] ∧
    load? (oneFile "app.toml" (engineText ++ "[llm]\n")) (some "app.toml") [] =
      (load? (oneFile "app.toml" engineText) (some "app.toml") []).map
        fun s => { s with model := Model.unnamed } := by
  have hfile : "app.toml" ∈ loaded (oneFile "app.toml" engineText) (some "app.toml") := by
    decide +kernel
  have hdoc : ofFile? "app.toml" engineText = some engineGroup := rfl
  have hskills : ofFile? "app.toml" (engineText ++ "[skills]\n") =
      some (engineGroup ++ [("skills", .group [])]) := rfl
  have hllm : ofFile? "app.toml" (engineText ++ "[llm]\n") =
      some (engineGroup ++ [("llm", .group [])]) := rfl
  have hemptied (key : String) : Emptied key engineGroup (engineGroup ++ [(key, .group [])]) :=
    ⟨engineGroup, [], rfl, rfl⟩
  constructor
  · exact (load?_emptied (by decide) (rewritten_oneFile ..) hfile hdoc hskills (hemptied _)).1
      fun h => absurd h.1 (by decide)
  · exact ((load?_emptied (by decide) (rewritten_oneFile ..) hfile hdoc hllm (hemptied _)).2 rfl
      silentOnModel_engine).1

/-- With a key for the common interface, an empty section of the model takes the requests from there
to DeepSeek. -/
theorem load?_emptied_engine_model :
    ∃ d d' s s', ofFile? "app.toml" engineText = some d ∧
      ofFile? "app.toml" (engineText ++ "[llm]\n") = some d' ∧ ¬ Mentions "llm" d ∧
      Emptied "llm" d d' ∧
      load? (oneFile "app.toml" engineText) (some "app.toml") [] = some s ∧
      load? (oneFile "app.toml" (engineText ++ "[llm]\n")) (some "app.toml") [] = some s' ∧
      s' ≠ s ∧
      Backend.choose s.model [("OPENAI_API_KEY", "sk-1")] =
        .http ⟨defaultBase, "gpt-4o-mini", "sk-1"⟩ ∧
      Backend.choose s'.model [("OPENAI_API_KEY", "sk-1")] =
        .http ⟨"https://api.deepseek.com", "deepseek-chat", "sk-1"⟩ := by
  refine ⟨engineGroup, engineGroup ++ [("llm", .group [])], { limits := { mode := .direct } },
    { limits := { mode := .direct }, model := Model.unnamed }, rfl, rfl, ?_,
    ⟨engineGroup, [], rfl, rfl⟩, ?_, ?_, ?_, ?_, ?_⟩ <;> decide +kernel

end Settings
end Switchboard

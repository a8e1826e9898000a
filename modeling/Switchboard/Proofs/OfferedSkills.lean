import Mathlib.Order.Defs.LinearOrder
import Switchboard.Proofs.ListedSkills
import Switchboard.Proofs.Oracles
import Switchboard.Skill.Index

/-! The skills that are offered for a message: the best of the catalog by some score, or all of them
where there is nothing to rank by, and always the fallback. -/
namespace Switchboard

def Exchange.vectors? : Exchange → Option (List Embedding)
  | ⟨.embed _, .ok vectors⟩ => some vectors
  | _ => none

def Trace.embedded? (t : Trace) : Option (List Embedding) :=
  (t.filterMap Exchange.vectors?).getLast?

theorem Trace.embedded?_append (t t' : Trace) :
    embedded? (t ++ t') = (embedded? t').or (embedded? t) := by
  rw [embedded?, List.filterMap_append, List.getLast?_append]
  rfl

/-- Texts are embedded, each in a vector of its own, or the embedder fails. -/
def Oracle.Embeds (w : Oracle) : Prop :=
  ∀ past texts, ∃ answer : Except ModelError (List Embedding),
    w past (.embed texts) = some answer ∧
      ∀ vectors, answer = .ok vectors → vectors.length = texts.length

namespace Skill.Index

section
variable {α β σ : Type} [LinearOrder σ]

/-- The first entry ranks above the second one: it is better, or as good and earlier in the list. -/
def Above (score : α → σ) (entries : List α) (e f : α) : Prop :=
  score f < score e ∨ score e = score f ∧ [e, f].Sublist entries

variable {score : α → σ} {entries more : List α} {ranks : List (α × σ)} {e f : α} {x : α × σ}

theorem Above.le (h : Above score entries e f) : score f ≤ score e := by
  rcases h with hlt | ⟨heq, -⟩
  · exact hlt.le
  · exact heq.ge

theorem Above.mono (h : Above score entries e f) (hsub : entries.Sublist more) :
    Above score more e f := h.imp_right fun ⟨heq, hbefore⟩ => ⟨heq, hbefore.trans hsub⟩

theorem perm_insertRanked (x : α × σ) (ranks : List (α × σ)) :
    (insertRanked x ranks).Perm (x :: ranks) := by
  induction ranks with
  | nil => exact .refl _
  | cons y ranks ih =>
    rw [insertRanked]
    split
    · exact .refl _
    · exact (ih.cons y).trans (.swap x y ranks)

theorem perm_ranked (ranks : List (α × σ)) : (ranked ranks).Perm ranks := by
  have hfold (done : List (α × σ)) :
      (ranks.foldl (fun acc x => insertRanked x acc) done).Perm (done ++ ranks) := by
    induction ranks generalizing done with
    | nil => rw [List.append_nil, List.foldl_nil]
    | cons x ranks ih =>
      rw [List.foldl_cons]
      have hinsert := (perm_insertRanked x done).append_right ranks
      exact (ih _).trans (hinsert.trans List.perm_middle.symm)
  exact hfold []

/-- An entry that is put in its place ranks behind all that are as good, which came before it. -/
theorem pairwise_insertRanked {done : List (α × σ)} (hmem : ∀ y ∈ ranks, y ∈ done)
    (h : ranks.Pairwise (Above Prod.snd done)) :
    (insertRanked x ranks).Pairwise (Above Prod.snd (done ++ [x])) := by
  have hlater : done.Sublist (done ++ [x]) := List.sublist_append_left ..
  induction ranks with
  | nil => exact List.pairwise_singleton _ _
  | cons y ranks ih =>
    obtain ⟨hy, hrest⟩ := List.pairwise_cons.mp h
    obtain ⟨hdone, hranks⟩ := List.forall_mem_cons.mp hmem
    have hmono : (y :: ranks).Pairwise (Above Prod.snd (done ++ [x])) :=
      h.imp fun habove => habove.mono hlater
    rw [insertRanked]
    by_cases hbetter : y.2 < x.2
    · rw [if_pos hbetter]
      refine List.pairwise_cons.mpr ⟨List.forall_mem_cons.mpr ⟨.inl hbetter, fun z hz => ?_⟩, hmono⟩
      exact .inl ((hy z hz).le.trans_lt hbetter)
    · rw [if_neg hbetter]
      refine List.pairwise_cons.mpr ⟨fun z hz => ?_, ih hranks hrest⟩
      rcases List.mem_cons.mp ((perm_insertRanked x ranks).mem_iff.mp hz) with rfl | hz
      · rcases (not_lt.mp hbetter).lt_or_eq with hlt | heq
        · exact .inl hlt
        · refine .inr ⟨heq.symm, ?_⟩
          exact (List.singleton_sublist.mpr hdone).append (.refl [z])
      · exact (hy z hz).mono hlater

/-- A list is ranked from its best entry to its worst, and entries that are as good stay in their
order. -/
theorem pairwise_ranked (ranks : List (α × σ)) :
    (ranked ranks).Pairwise (Above Prod.snd ranks) := by
  -- The entries that were put in their places are ranked as far as the list was read.
  have hfold (read done : List (α × σ)) (hdone : done.Perm read)
      (h : done.Pairwise (Above Prod.snd read)) :
      (ranks.foldl (fun acc x => insertRanked x acc) done).Pairwise
        (Above Prod.snd (read ++ ranks)) := by
    induction ranks generalizing read done with
    | nil => rwa [List.append_nil]
    | cons x ranks ih =>
      rw [List.foldl_cons, List.append_cons]
      refine ih (read ++ [x]) _ ?_ (pairwise_insertRanked (fun y hy => hdone.mem_iff.mp hy) h)
      exact (perm_insertRanked x done).trans
        ((hdone.cons x).trans (List.perm_append_singleton x read).symm)
  exact hfold [] [] (.refl _) .nil

/-- The names under which entries stand do not matter for their ranks. -/
theorem ranked_map (g : α → β) (ranks : List (α × σ)) :
    ranked (ranks.map (Prod.map g id)) = (ranked ranks).map (Prod.map g id) := by
  have hinsert (x : α × σ) (done : List (α × σ)) :
      insertRanked (Prod.map g id x) (done.map (Prod.map g id)) =
        (insertRanked x done).map (Prod.map g id) := by
    induction done with
    | nil => rfl
    | cons y done ih =>
      rw [List.map_cons, insertRanked, insertRanked, ih]
      dsimp only [Prod.map_snd, id]
      split <;> rfl
  have hfold (done : List (α × σ)) :
      (ranks.map (Prod.map g id)).foldl (fun acc x => insertRanked x acc)
        (done.map (Prod.map g id)) =
      (ranks.foldl (fun acc x => insertRanked x acc) done).map (Prod.map g id) := by
    induction ranks generalizing done with
    | nil => rfl
    | cons x ranks ih => rw [List.map_cons, List.foldl_cons, List.foldl_cons, hinsert, ih]
  exact hfold []

/-- A list in the order of a score is a permutation in which each entry ranks above those behind
it. -/
theorem exists_ranked (score : α → σ) (entries : List α) (name : α → β) :
    ∃ order : List α, order.Perm entries ∧ order.Pairwise (Above score entries) ∧
      (ranked (entries.map fun e => (name e, score e))).map (·.1) = order.map name := by
  let scored := entries.map fun e => (e, score e)
  have hscored : ∀ x ∈ ranked scored, x.2 = score x.1 := by
    intro x hx
    obtain ⟨e, -, rfl⟩ := List.mem_map.mp ((perm_ranked scored).mem_iff.mp hx)
    rfl
  have hfirst : scored.map (·.1) = entries := by
    rw [List.map_map]
    exact List.map_id _
  refine ⟨(ranked scored).map (·.1), ?_, ?_, ?_⟩
  · have hperm := (perm_ranked scored).map (·.1)
    rwa [hfirst] at hperm
  · refine List.pairwise_map.mpr ((pairwise_ranked scored).imp_of_mem fun hx hy habove => ?_)
    rw [Above, hscored _ hx, hscored _ hy] at habove
    refine habove.imp_right fun ⟨heq, hbefore⟩ => ⟨heq, ?_⟩
    have hsub := hbefore.map (·.1)
    rwa [hfirst] at hsub
  · have hnamed : (entries.map fun e => (name e, score e)) = scored.map (Prod.map name id) := by
      rw [List.map_map]
      rfl
    rw [hnamed, ranked_map, List.map_map, List.map_map]
    rfl

end

variable {σ : Type} [LinearOrder σ] {scoreOf : Skill → σ} {skills best : List Skill}
  {fallback message : String} {k : Nat} {hasEmbedder : Bool} {w : Oracle} {past : Trace}

/-- The best skills by a score, in order: of the others none ranks above one of them. -/
structure Best (scoreOf : Skill → σ) (skills : List Skill) (k : Nat) (best : List Skill) :
    Prop where
  length : best.length = k
  listed : best ⊆ skills
  nodup : best.Nodup
  ordered : best.Pairwise (Above scoreOf skills)
  omitted : ∀ s ∈ skills, s ∉ best → ∀ b ∈ best, Above scoreOf skills b s

theorem best_take {order : List Skill} (hperm : order.Perm skills) (hnodup : skills.Nodup)
    (h : order.Pairwise (Above scoreOf skills)) (hk : k ≤ skills.length) :
    Best scoreOf skills k (order.take k) where
  length := by
    rw [List.length_take, hperm.length_eq]
    omega
  listed := fun s hs => hperm.mem_iff.mp (List.mem_of_mem_take hs)
  nodup := (hperm.nodup_iff.mpr hnodup).sublist (List.take_sublist k order)
  ordered := h.sublist (List.take_sublist k order)
  omitted := by
    intro s hs hnot b hb
    rw [← hperm.mem_iff, ← List.take_append_drop k order, List.mem_append] at hs
    rw [← List.take_append_drop k order] at h
    exact (List.pairwise_append.mp h).2.2 b hb s (hs.resolve_left hnot)

theorem nodup_ofSkills (skills : List Skill) (fallback : String) :
    (Catalog.ofSkills skills fallback).skills.Nodup := by
  refine (Catalog.pairwise_ofSkills skills fallback).imp ?_
  rintro s s' hlt rfl
  exact String.lt_irrefl _ hlt

theorem mem_of_fallback? {c : Catalog} {s : Skill} (h : c.fallback? = some s) : s ∈ c.skills :=
  List.mem_of_find?_eq_some h

theorem choose_ofSkills {order : List Skill}
    (hperm : order.Perm (Catalog.ofSkills skills fallback).skills) :
    choose (Catalog.ofSkills skills fallback) k (order.map (·.name)) =
      order.take k ++
        ((Catalog.ofSkills skills fallback).fallback?.filter (· ∉ order.take k)).toList := by
  have hfound : ∀ s ∈ order.take k, (Catalog.ofSkills skills fallback).get? s.name = some s :=
    fun s hs => Catalog.get?_of_mem (hperm.mem_iff.mp (List.mem_of_mem_take hs))
  have hbest : ((order.map (·.name)).take k).filterMap (Catalog.ofSkills skills fallback).get? =
      order.take k := by
    rw [← List.map_take, List.filterMap_map]
    exact (List.filterMap_congr hfound).trans List.filterMap_some
  rw [choose, hbest]
  cases hfallback : (Catalog.ofSkills skills fallback).fallback? with
  | none => simp
  | some f =>
    -- The names of a catalog tell its skills apart.
    have hsame : (order.take k).any (·.name = f.name) = true ↔ f ∈ order.take k := by
      rw [List.any_eq_true]
      constructor
      · rintro ⟨s, hs, hname⟩
        have hs' := hfound s hs
        rw [of_decide_eq_true hname, Catalog.get?_of_mem (mem_of_fallback? hfallback)] at hs'
        rwa [Option.some.inj hs']
      · exact fun hf => ⟨f, hf, decide_eq_true rfl⟩
    by_cases hf : f ∈ order.take k
    · simp [hsame.mpr hf, hf]
    · rw [Option.filter_some_pos (by simpa using hf)]
      simp [mt hsame.mp hf]

/-! Building the index. -/

def buildTimes (hasEmbedder : Bool) (c : Catalog) : Nat → Index → Dialogue Index
  | 0, index => return index
  | n + 1, index => do buildTimes hasEmbedder c n (← index.build hasEmbedder c)

/-- What builds make of an index: it has the vectors that the last build was given that did not
fail, or those that it had. -/
structure Built (c : Catalog) (index : Index) (t : Trace) (index' : Index) : Prop where
  topK : index'.topK = index.topK
  vectors : index'.vectors = (t.embedded?.map c.names.zip).or index.vectors
  length : ∀ vectors ∈ t.embedded?, vectors.length = c.skills.length

theorem Built.append {c : Catalog} {index mid index' : Index} {t t' : Trace}
    (h : Built c index t mid) (h' : Built c mid t' index') : Built c index (t ++ t') index' where
  topK := h'.topK.trans h.topK
  vectors := by
    rw [h'.vectors, h.vectors, Trace.embedded?_append]
    cases t'.embedded? <;> rfl
  length := by
    intro vectors hvectors
    rw [Trace.embedded?_append, Option.mem_def, Option.or_eq_some_iff] at hvectors
    rcases hvectors with hlast | ⟨-, hfirst⟩
    · exact h'.length vectors hlast
    · exact h.length vectors hfirst

def buildRequests (hasEmbedder : Bool) (c : Catalog) (n : Nat) : List Request :=
  List.replicate (if hasEmbedder then n else 0) (.embed (c.skills.map Skill.summary))

theorem exists_build (hw : w.Embeds) (hasEmbedder : Bool) (c : Catalog) (index : Index)
    (past : Trace) :
    ∃ (t : Trace) (index' : Index), (index.build hasEmbedder c).Run t index' ∧ w.Gives past t ∧
      t.map (·.1) = buildRequests hasEmbedder c 1 ∧ Built c index t index' := by
  cases hasEmbedder with
  | false => exact ⟨[], index, .here _, trivial, rfl, rfl, rfl, nofun⟩
  | true =>
    obtain ⟨answer, hanswer, hlength⟩ := hw past (c.skills.map Skill.summary)
    have hgives : w.Gives past [⟨.embed (c.skills.map Skill.summary), answer⟩] :=
      ⟨hanswer, trivial⟩
    cases answer with
    | error e => exact ⟨_, index, .ask (.error e) (.here _), hgives, rfl, rfl, rfl, nofun⟩
    | ok vectors =>
      refine ⟨_, { index with vectors := some (c.names.zip vectors) },
        .ask (.ok vectors) (.here _), hgives, rfl, rfl, rfl, ?_⟩
      intro vectors' hvectors
      obtain rfl : vectors = vectors' := Option.some.inj hvectors
      rw [hlength vectors rfl, List.length_map]

theorem exists_buildTimes (hw : w.Embeds) (hasEmbedder : Bool) (c : Catalog) (n : Nat)
    (index : Index) (past : Trace) :
    ∃ (t : Trace) (index' : Index), (buildTimes hasEmbedder c n index).Run t index' ∧
      w.Gives past t ∧ t.map (·.1) = buildRequests hasEmbedder c n ∧ Built c index t index' := by
  induction n generalizing index past with
  | zero => exact ⟨[], index, .here _, trivial, by simp [buildRequests], rfl, rfl, nofun⟩
  | succ n ih =>
    obtain ⟨t, mid, hrun, hgives, hasked, hbuilt⟩ := exists_build hw hasEmbedder c index past
    obtain ⟨t', index', hrun', hgives', hasked', hbuilt'⟩ := ih mid (past ++ t)
    refine ⟨t ++ t', index', hrun.bind hrun',
      Oracle.gives_append.mpr ⟨hgives, hgives'⟩, ?_, hbuilt.append hbuilt'⟩
    rw [List.map_append, hasked, hasked', buildRequests, buildRequests, buildRequests,
      List.replicate_append_replicate]
    cases hasEmbedder with
    | false => rfl
    | true => rw [if_pos rfl, if_pos rfl, if_pos rfl, Nat.add_comm]

/-! What is offered. -/

/-- Skills of the catalog, each once, and the fallback among them. -/
structure Offers (c : Catalog) (offered : List Skill) : Prop where
  listed : offered ⊆ c.skills
  nodup : offered.Nodup
  fallback : ∀ s, c.fallback? = some s → s ∈ offered

theorem offers_all (skills : List Skill) (fallback : String) :
    Offers (.ofSkills skills fallback) (Catalog.ofSkills skills fallback).skills :=
  ⟨List.Subset.refl _, nodup_ofSkills skills fallback, fun _ => mem_of_fallback?⟩

theorem offers_best {c : Catalog} (h : Best scoreOf c.skills k best) :
    Offers c (best ++ (c.fallback?.filter (· ∉ best)).toList) where
  listed := by
    intro s hs
    rcases List.mem_append.mp hs with hs | hs
    · exact h.listed hs
    · exact mem_of_fallback? (Option.filter_eq_some_iff.mp (Option.mem_toList.mp hs)).1
  nodup := by
    refine h.nodup.append (Option.toList_nodup _) ?_
    intro s hs hs'
    have hnot := (Option.filter_eq_some_iff.mp (Option.mem_toList.mp hs')).2
    exact absurd hs (by simpa using hnot)
  fallback := by
    intro s hs
    by_cases hbest : s ∈ best
    · exact List.mem_append_left _ hbest
    · refine List.mem_append_right _ (Option.mem_toList.mpr ?_)
      rw [hs, Option.filter_some_pos (by simpa using hbest)]

/-- There is nothing to rank by: no embedder, no build that did not fail, no more skills than are
chosen, or no vector of the message. -/
def Unranked (hasEmbedder : Bool) (c : Catalog) (k : Nat) (built : Option (List Embedding))
    (answer : Option (Except ModelError (List Embedding))) : Prop :=
  hasEmbedder = false ∨ built = none ∨ c.skills.length ≤ k ∨ ∃ e, answer = some (.error e)

section
variable {score : Embedding → Embedding → σ} {c : Catalog} {index : Index}

theorem run_candidatesBy_all
    (h : c.skills.length ≤ index.topK ∨ hasEmbedder = false ∨ index.vectors = none) :
    (index.candidatesBy score hasEmbedder c message).Run [] c.skills := by
  rw [candidatesBy]
  split
  next => exact .here _
  next hmany =>
    have hnone : index.vectors = none := by
      rcases h with hfew | hnone | hnone
      · simp [hfew] at hmany
      · simp [hnone] at hmany
      · exact hnone
    rw [hnone]
    exact .here _

theorem run_candidatesBy_asked (score : Embedding → Embedding → σ) (message : String)
    {vectors : List (String × Embedding)} (hmany : index.topK < c.skills.length)
    (hvectors : index.vectors = some vectors) (answer : Except ModelError (List Embedding)) :
    (index.candidatesBy score true c message).Run [⟨.embed [message], answer⟩]
      (match answer with
      | .ok (v :: _) =>
        choose c index.topK
          ((ranked (vectors.map fun e => (e.1, score v e.2))).map (·.1))
      | _ => c.skills) := by
  rw [candidatesBy, if_neg (by simpa using hmany), hvectors]
  refine Program.run_ask.mpr ⟨answer, [], rfl, ?_⟩
  cases answer with
  | error e => exact .here _
  | ok answered => cases answered <;> exact .here _

end

theorem exists_scoreOf {τ : Type} {skills : List Skill} {vectors : List Embedding}
    (hnodup : skills.Nodup) (hlength : vectors.length = skills.length) (score : Embedding → τ) :
    ∃ scoreOf : Skill → τ, skills.map scoreOf = vectors.map score := by
  refine ⟨fun s => score (vectors.getD (skills.idxOf s) []), ?_⟩
  refine List.ext_getElem (by simp [hlength]) fun i hi hi' => ?_
  rw [List.length_map] at hi hi'
  rw [List.getElem_map, List.getElem_map, hnodup.idxOf_getElem i hi,
    List.getD_eq_getElem?_getD, List.getElem?_eq_getElem hi', Option.getD_some]

/-- The skills of the best names are the best skills by the scores of their vectors. -/
theorem exists_chosen {score : Embedding → σ} {vectors : List Embedding}
    (hk : k ≤ (Catalog.ofSkills skills fallback).skills.length)
    (hscores : (Catalog.ofSkills skills fallback).skills.map scoreOf = vectors.map score) :
    ∃ best, Best scoreOf (Catalog.ofSkills skills fallback).skills k best ∧
      choose (Catalog.ofSkills skills fallback) k
        ((ranked (((Catalog.ofSkills skills fallback).names.zip vectors).map
          fun e => (e.1, score e.2))).map (·.1)) =
      best ++ ((Catalog.ofSkills skills fallback).fallback?.filter (· ∉ best)).toList := by
  have hranks : ((Catalog.ofSkills skills fallback).names.zip vectors).map
      (fun e => (e.1, score e.2)) =
      (Catalog.ofSkills skills fallback).skills.map fun s => (s.name, scoreOf s) :=
    calc ((Catalog.ofSkills skills fallback).names.zip vectors).map (Prod.map id score)
        = (Catalog.ofSkills skills fallback).names.zip (vectors.map score) :=
          List.zip_map_right.symm
      _ = ((Catalog.ofSkills skills fallback).skills.map Skill.name).zip
            ((Catalog.ofSkills skills fallback).skills.map scoreOf) := by rw [hscores]; rfl
      _ = _ := List.zip_map'
  obtain ⟨order, hperm, horder, hnames⟩ :=
    exists_ranked scoreOf (Catalog.ofSkills skills fallback).skills Skill.name
  refine ⟨order.take k, best_take hperm (nodup_ofSkills skills fallback) horder hk, ?_⟩
  rw [hranks, hnames]
  exact choose_ofSkills hperm

/-- With nothing to rank by all skills are offered, without a question or after one that fails. -/
theorem exists_run_unranked {c : Catalog} {index : Index} {built : Option (List Embedding)}
    (hvectors : index.vectors = built.map c.names.zip) (score : Embedding → Embedding → σ)
    (h : Unranked hasEmbedder c index.topK built (w past (.embed [message]))) :
    ∃ u, (index.candidatesBy score hasEmbedder c message).Run u c.skills ∧
      w.Gives past u := by
  by_cases hall : c.skills.length ≤ index.topK ∨ hasEmbedder = false ∨ index.vectors = none
  · exact ⟨[], run_candidatesBy_all hall, trivial⟩
  · simp only [not_or, not_le, Bool.not_eq_false] at hall
    obtain ⟨hmany, rfl, hsome⟩ := hall
    obtain ⟨vectors, hindex⟩ := Option.ne_none_iff_exists'.mp hsome
    have hfailed : ∃ e, w past (.embed [message]) = some (.error e) := by
      rcases h with hnone | rfl | hfew | hfailed
      · cases hnone
      · exact absurd hvectors hsome
      · exact absurd hfew hmany.not_ge
      · exact hfailed
    obtain ⟨e, he⟩ := hfailed
    exact ⟨_, run_candidatesBy_asked score message hmany hindex (.error e), he, trivial⟩

/-- Otherwise the best skills are offered, and the fallback behind them. -/
theorem exists_run_ranked (hw : w.Embeds) {index : Index} {built : Option (List Embedding)}
    (hvectors : index.vectors = built.map (Catalog.ofSkills skills fallback).names.zip)
    (hlength : ∀ vectors ∈ built,
      vectors.length = (Catalog.ofSkills skills fallback).skills.length)
    (score : Embedding → Embedding → σ)
    (h : ¬ Unranked hasEmbedder (Catalog.ofSkills skills fallback) index.topK built
      (w past (.embed [message]))) :
    let c := Catalog.ofSkills skills fallback
    ∃ vectors v scoreOf best, built = some vectors ∧
      w past (.embed [message]) = some (.ok [v]) ∧
      c.skills.map scoreOf = vectors.map (score v) ∧ Best scoreOf c.skills index.topK best ∧
      (index.candidatesBy score hasEmbedder c message).Run [⟨.embed [message], .ok [v]⟩]
        (best ++ (c.fallback?.filter (· ∉ best)).toList) := by
  intro c
  simp only [Unranked, not_or, not_le, Bool.not_eq_false] at h
  obtain ⟨rfl, hsome, hmany, hfailed⟩ := h
  obtain ⟨vectors, rfl⟩ := Option.ne_none_iff_exists'.mp hsome
  obtain ⟨answer, hanswer, hone⟩ := hw past [message]
  cases answer with
  | error e => exact absurd ⟨e, hanswer⟩ hfailed
  | ok answered =>
    obtain ⟨v, rfl⟩ := List.length_eq_one_iff.mp (hone answered rfl)
    obtain ⟨scoreOf, hscores⟩ := exists_scoreOf (nodup_ofSkills skills fallback)
      (hlength vectors rfl) (score v)
    obtain ⟨best, hbest, hchosen⟩ := exists_chosen hmany.le hscores
    have hrun := run_candidatesBy_asked score message hmany hvectors (.ok [v])
    dsimp only at hrun
    rw [hchosen] at hrun
    exact ⟨vectors, v, scoreOf, best, rfl, hanswer, hscores, hbest, hrun⟩

/-- After any number of builds, some of which may have failed, skills are offered for a message:
skills of the catalog, each once, and the fallback among them. Where there is nothing to rank by,
they are all skills in their order. Otherwise they are the best by the scores of their vectors, which
the last build was given that did not fail, and behind them the fallback if it is not one of them.
The score of an agent is the cosine. -/
theorem candidatesBy_offered (hw : w.Embeds) (score : Embedding → Embedding → σ)
    (skills : List Skill) (fallback message : String) (k builds : Nat) (hasEmbedder : Bool) :
    let c := Catalog.ofSkills skills fallback
    (∀ index : Index, index.candidates hasEmbedder c message =
      index.candidatesBy cosine hasEmbedder c message) ∧
    ∃ (t u : Trace) (index : Index) (offered : List Skill),
      (buildTimes hasEmbedder c builds (ofTopK k)).Run t index ∧
      (index.candidatesBy score hasEmbedder c message).Run u offered ∧
      w.Gives [] (t ++ u) ∧ t.map (·.1) = buildRequests hasEmbedder c builds ∧
      Offers c offered ∧
      (Unranked hasEmbedder c (max k 1) t.embedded? (w t (.embed [message])) →
        offered = c.skills) ∧
      (¬ Unranked hasEmbedder c (max k 1) t.embedded? (w t (.embed [message])) →
        ∃ vectors v scoreOf best, t.embedded? = some vectors ∧
          w t (.embed [message]) = some (.ok [v]) ∧
          c.skills.map scoreOf = vectors.map (score v) ∧ Best scoreOf c.skills (max k 1) best ∧
          offered = best ++ (c.fallback?.filter (· ∉ best)).toList) := by
  intro c
  refine ⟨fun index => rfl, ?_⟩
  obtain ⟨t, index, hrun, hgives, hasked, hbuilt⟩ :=
    exists_buildTimes hw hasEmbedder c builds (ofTopK k) []
  have htopK : index.topK = max k 1 := hbuilt.topK
  have hvectors : index.vectors = t.embedded?.map c.names.zip := by
    rw [hbuilt.vectors]
    exact Option.or_none
  rw [← htopK]
  by_cases hunranked : Unranked hasEmbedder c index.topK t.embedded? (w t (.embed [message]))
  · obtain ⟨u, hoffering, hgives'⟩ := exists_run_unranked hvectors score hunranked
    exact ⟨t, u, index, c.skills, hrun, hoffering, Oracle.gives_append.mpr ⟨hgives, hgives'⟩,
      hasked, offers_all skills fallback, fun _ => rfl, fun hranked => absurd hunranked hranked⟩
  · obtain ⟨vectors, v, scoreOf, best, hembedded, hanswer, hscores, hbest, hoffering⟩ :=
      exists_run_ranked hw hvectors hbuilt.length score hunranked
    exact ⟨t, _, index, _, hrun, hoffering, Oracle.gives_concat.mpr ⟨hgives, hanswer⟩, hasked,
      offers_best hbest, fun h => absurd h hunranked,
      fun _ => ⟨vectors, v, scoreOf, best, hembedded, hanswer, hscores, hbest, rfl⟩⟩

def sampleSkills : List Skill :=
  [⟨"a", "", [], .text ""⟩, ⟨"b", "天气", [], .text ""⟩, ⟨"c", "订单", [], .text ""⟩]

/-- Texts become vectors of their lengths, but the second batch fails. -/
def sampleEmbedder : Oracle
  | past, .embed texts =>
    some (if past.length = 1 then .error .empty
      else .ok (texts.map fun text => List.replicate text.length 0))
  | _, _ => none

theorem embeds_sampleEmbedder : sampleEmbedder.Embeds := by
  intro past texts
  by_cases hpast : past.length = 1
  · exact ⟨.error .empty, congrArg some (if_pos hpast), nofun⟩
  · refine ⟨_, congrArg some (if_neg hpast), fun vectors hvectors => ?_⟩
    rw [← Except.ok.inj hvectors, List.length_map]

/-- The second of two builds fails. The skill with the longest description that comes first is
offered, and the fallback behind it. -/
theorem candidatesBy_offered_sample :
    let c := Catalog.ofSkills sampleSkills "a"
    let score : Embedding → Embedding → Nat := fun _ v => v.length
    sampleEmbedder.Embeds ∧ ∃ (t u : Trace) (index : Index) (offered : List Skill),
      (buildTimes true c 2 (ofTopK 0)).Run t index ∧
      (index.candidatesBy score true c "x").Run u offered ∧
      sampleEmbedder.Gives [] (t ++ u) ∧ offered.map (·.name) = ["b", "a"] := by
  intro c score
  obtain ⟨-, t, u, index, offered, hbuilds, hoffers, hgives, -⟩ :=
    candidatesBy_offered embeds_sampleEmbedder score sampleSkills "a" "x" 0 2 true
  refine ⟨embeds_sampleEmbedder, t, u, index, offered, hbuilds, hoffers, hgives, ?_⟩
  have hc : Catalog.ofSkills sampleSkills "a" = ⟨sampleSkills, "a"⟩ := by
    have hsorted : Skill.sorted sampleSkills = sampleSkills :=
      List.mergeSort_of_pairwise (by decide)
    exact congrArg (Catalog.mk · "a") ((congrArg Skill.firsts hsorted).trans rfl)
  rw [hc] at hbuilds hoffers
  -- What is asked and answered here is known, and so is what becomes of it.
  let asked := Request.embed (sampleSkills.map Skill.summary)
  let vectors := sampleSkills.map fun s => List.replicate s.summary.length (0 : Float32)
  let built : Index := ⟨1, some ((sampleSkills.map (·.name)).zip vectors)⟩
  have hbuilds' : (buildTimes true ⟨sampleSkills, "a"⟩ 2 (ofTopK 0)).Run
      [⟨asked, .ok vectors⟩, ⟨asked, .error .empty⟩] built :=
    Program.run_ask.mpr ⟨.ok vectors, _, rfl,
      Program.run_ask.mpr ⟨.error .empty, _, rfl, .here _⟩⟩
  have hbuilding' : sampleEmbedder.Gives []
      [⟨asked, .ok vectors⟩, ⟨asked, .error .empty⟩] := ⟨rfl, rfl, trivial⟩
  obtain ⟨hbuilding, hasking⟩ := Oracle.gives_append.mp hgives
  obtain ⟨rfl, rfl⟩ := hbuilding.eq_of_run hbuilds hbuilding' hbuilds'
  have hmany : built.topK < (Catalog.mk sampleSkills "a").skills.length := by decide
  have hoffers' := run_candidatesBy_asked score "x" hmany rfl (.ok [[0]])
  have hasking' : sampleEmbedder.Gives [⟨asked, .ok vectors⟩, ⟨asked, .error .empty⟩]
      [⟨.embed ["x"], .ok [[0]]⟩] := ⟨rfl, trivial⟩
  obtain ⟨-, rfl⟩ := hasking.eq_of_run hoffers hasking' hoffers'
  decide +kernel

end Skill.Index
end Switchboard

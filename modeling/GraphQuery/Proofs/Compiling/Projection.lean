import GraphQuery.Proofs.Compiling.Erasure
import GraphQuery.Proofs.Compiling.Order
import GraphQuery.Proofs.Compiling.Writable
import GraphQuery.Proofs.Workspaces

/-!
# What a query returns

What a query returns, in which order and which page of it, is written in the
last clauses and does not show before them.  It would do so in a query that
is nested in itself, but such a query compiles to nothing
(`Workspace.not_makes_of_circular`).  So after a change of what a builder
returns it reads as before, but for the clauses of its own projection:
`Workspace.composed_read_changed`.
-/

namespace GraphQuery

/-! ### Filters and the queries nested in them -/

namespace Filter

variable {β γ : Type} {f g : β → γ}

mutual

/-- A filter depends on what stands for the bodies in it only. -/
theorem map_congr (filter : Filter β) (h : ∀ b ∈ filter.nested, f b = g b) :
    filter.map f = filter.map g := by
  match filter with
  | .group filters negate chain => rw [map, map, mapAll_congr filters h]
  | .exists body negate chain | .count body operator value chain =>
    rw [map, map, h body (List.mem_singleton_self body)]
  | .compare .. | .compareProperties .. | .isNull .. | .raw .. | .misplaced
      _ => rfl

/-- Filters see of what is put in the place of nested queries that of their
own ones only. -/
theorem mapAll_congr (filters : List (Filter β))
    (h : ∀ b ∈ nestedInAll filters, f b = g b) :
    mapAll f filters = mapAll g filters := by
  match filters with
  | [] => rfl
  | filter :: rest =>
    rw [nestedInAll, List.forall_mem_append] at h
    rw [mapAll, mapAll, map_congr filter h.1, mapAll_congr rest h.2]

end

section

variable {nestedText : β → Except Fault String}

mutual

/-- A filter that is written has the texts of all bodies in it. -/
theorem nested_of_text (filter : Filter β) {text : String}
    (h : filter.text nestedText = .ok text) :
    ∀ b ∈ filter.nested, ∃ inner, nestedText b = .ok inner := by
  match filter with
  | .group filters negate chain =>
    obtain ⟨inner, hinner, -⟩ := bind_ok_inversion h
    exact nested_of_listText filters hinner
  | .exists body negate chain | .count body operator value chain =>
    obtain ⟨inner, hinner, -⟩ := bind_ok_inversion h
    intro b hb
    rw [List.mem_singleton.mp hb]
    exact ⟨inner, hinner⟩
  | .compare .. | .compareProperties .. | .isNull .. | .raw .. | .misplaced
      _ =>
    intro b hb
    cases hb

/-- Filters have a text only if every query nested in them has one. -/
theorem nested_of_listText (filters : List (Filter β)) {text : String}
    (h : listText nestedText filters = .ok text) :
    ∀ b ∈ nestedInAll filters, ∃ inner, nestedText b = .ok inner := by
  match filters with
  | [] =>
    intro b hb
    cases hb
  | first :: rest =>
    obtain ⟨head, hhead, h⟩ := bind_ok_inversion h
    obtain ⟨tail, htail, -⟩ := bind_ok_inversion h
    rw [nestedInAll, List.forall_mem_append]
    exact ⟨nested_of_text first hhead, nested_of_tailText rest htail⟩

/-- Later filters that are written have the texts of all bodies in them. -/
theorem nested_of_tailText (filters : List (Filter β)) {text : String}
    (h : tailText nestedText filters = .ok text) :
    ∀ b ∈ nestedInAll filters, ∃ inner, nestedText b = .ok inner := by
  match filters with
  | [] =>
    intro b hb
    cases hb
  | filter :: rest =>
    obtain ⟨head, hhead, h⟩ := bind_ok_inversion h
    obtain ⟨tail, htail, -⟩ := bind_ok_inversion h
    rw [nestedInAll, List.forall_mem_append]
    exact ⟨nested_of_text filter hhead, nested_of_tailText rest htail⟩

end

end

end Filter

/-! ### Passes that do not return -/

/-- What a query holds, but for what it returns. -/
def Content.bare (c : Content) : Content :=
  { c with returns := [], distinct := false, orderBy := [], order :=
    .ascending, skip := none,
           limit := none }

/-- Only the pass that returns looks at what a query returns. -/
theorem Pass.clauses_bare (pass : Pass) (hpass : pass ≠ .returning)
    (s : Structure Nested) :
    pass.clauses { s with toContent := s.toContent.bare } =
      pass.clauses s := by
  cases pass with
  | returning => exact absurd rfl hpass
  | _ => rfl

namespace Composition

variable {β : Type} {composition : Composition}

/-- The passes that reading makes before it returns. -/
def matched : Composition := [.matching false, .calling, .filtering]

/-- A composition that does not return does not see what is returned. -/
theorem clauses_bare (hreturns : .returning ∉ composition)
    (s : Structure Nested) :
    composition.clauses { s with toContent := s.toContent.bare } =
      composition.clauses s := by
  induction composition with
  | nil => rfl
  | cons pass rest ih =>
    rw [List.mem_cons, not_or] at hreturns
    rw [clauses_cons, clauses_cons, pass.clauses_bare (Ne.symm hreturns.1),
      ih hreturns.2]

/-- Where nothing is returned, queries that hold the same beside it compile
to the same. -/
theorem clauses_of_bare_eq (hreturns : .returning ∉ composition)
    {s t : Structure Nested} (hbare : s.toContent.bare = t.toContent.bare)
    (hwheres : s.wheres = t.wheres)
    (hsubQueries : s.subQueries = t.subQueries) (hunion : s.union = t.union) :
    composition.clauses s = composition.clauses t := by
  rw [← clauses_bare hreturns s, ← clauses_bare hreturns t, hbare, hwheres,
    hsubQueries, hunion]

/-- Unless a composition unites, it asks for called and filtered queries
alone, and in one way each. -/
theorem clauses_map_congr (hunited : .uniting ∉ composition)
    (s : Structure β) {f g : β → Nested}
    (hcalled : ∀ b ∈ s.subQueries, f b .subQuery = g b .subQuery)
    (hfiltered : ∀ b ∈ Filter.nestedInAll s.wheres,
      f b .predicate = g b .predicate) :
    composition.clauses (s.map f) = composition.clauses (s.map g) := by
  rw [← clauses_alone composition hunited (s.map f),
    ← clauses_alone composition hunited (s.map g)]
  apply composition.clauses_congr
  refine ⟨rfl, ?_, ?_, rfl⟩
  · show Filter.mapAll _ (Filter.mapAll f s.wheres) =
        Filter.mapAll _ (Filter.mapAll g s.wheres)
    rw [Filter.mapAll_mapAll, Filter.mapAll_mapAll]
    apply Filter.mapAll_congr
    intro b hb
    rw [Pass.nestedText, Pass.nestedText, hfiltered b hb]
  · show (s.subQueries.map f).map _ = (s.subQueries.map g).map _
    rw [List.map_map, List.map_map]
    apply List.map_congr_left
    intro b hb
    show Pass.nestedText .subQuery (f b) = Pass.nestedText .subQuery (g b)
    rw [Pass.nestedText, Pass.nestedText, hcalled b hb]

/-- A composition calls and filters. -/
def Opens (composition : Composition) : Prop :=
  Pass.calling ∈ composition ∧ Pass.filtering ∈ composition

/-- Each pass of a composition succeeds where the composition does. -/
theorem pass_of_ok {s : Structure Nested} {clauses : List Clause}
    (h : composition.clauses s = .ok clauses) {pass : Pass}
    (hpass : pass ∈ composition) :
    ∃ made, pass.clauses s = .ok made := by
  obtain ⟨made, hmade, -⟩ := bind_ok_inversion h
  exact mapM_ok_inversion hmade pass hpass

/-- Where a composition that calls and filters succeeds, the queries that
are called and filtered by compile to something. -/
theorem nested_of_ok (hopens : composition.Opens) {s : Structure β}
    {f : β → Nested} {clauses : List Clause}
    (h : composition.clauses (s.map f) = .ok clauses) :
    (∀ b ∈ s.subQueries, ∃ inner, f b .subQuery = .ok inner) ∧
      ∀ b ∈ Filter.nestedInAll s.wheres, ∃ inner,
        f b .predicate = .ok inner := by
  obtain ⟨called, hcalled⟩ := pass_of_ok h hopens.1
  obtain ⟨filtered, hfiltered⟩ := pass_of_ok h hopens.2
  constructor
  · intro b hb
    obtain ⟨clause, hclause⟩ :=
      mapM_ok_inversion hcalled (f b) (List.mem_map_of_mem hb)
    obtain ⟨text, htext, -⟩ := bind_ok_inversion hclause
    obtain ⟨inner, hinner, -⟩ := bind_ok_inversion htext
    exact ⟨inner, hinner⟩
  · intro b hb
    cases hwheres : s.wheres with
    | nil =>
      rw [hwheres] at hb
      cases hb
    | cons first rest =>
      have hnonempty : (s.map f).wheres.isEmpty = false := by
        show (Filter.mapAll f s.wheres).isEmpty = false
        rw [Filter.isEmpty_mapAll, hwheres]
        rfl
      rw [Pass.clauses, hnonempty] at hfiltered
      obtain ⟨text, htext, -⟩ := bind_ok_inversion hfiltered
      have hbody : f b ∈ Filter.nestedInAll (Filter.mapAll f s.wheres) := by
        rw [Filter.nestedInAll_mapAll]
        exact List.mem_map_of_mem hb
      obtain ⟨inner, hinner⟩ := Filter.nested_of_listText _ htext (f b) hbody
      obtain ⟨clauses, hclauses, -⟩ := bind_ok_inversion hinner
      exact ⟨clauses, hclauses⟩

end Composition

/-! ### Builders nested in themselves -/

namespace Workspace

variable {w : Workspace} {b c : BuilderId} {depth : Nat}

/-- A builder is called by another one, or is in its filters. -/
inductive Shows (w : Workspace) (b c : BuilderId) : Prop
  | called (h : c ∈ (w.body b).subQueries) : Shows w b c
  | filtered (h : c ∈ Filter.nestedInAll (w.body b).wheres) : Shows w b c

/-- A nested builder compiles to something by a composition that calls and
filters. -/
def Makes (w : Workspace) (depth : Nat) (b : BuilderId) : Prop :=
  ∃ outer composition clauses, Composition.Opens composition ∧
    w.nested depth outer b composition = .ok clauses

/-- A builder compiles to something only if all that it shows do. -/
theorem makes_of_shows {outer : List (BuilderId × Composition)}
    {composition : Composition} (hopens : composition.Opens)
    {clauses : List Clause}
    (h : composition.clauses ((w.body b).map (w.nested depth outer)) =
      .ok clauses) (hshows : w.Shows b c) : w.Makes depth c := by
  obtain ⟨hcalled, hfiltered⟩ := Composition.nested_of_ok hopens h
  cases hshows with
  | called hc =>
    obtain ⟨inner, hinner⟩ := hcalled c hc
    exact ⟨outer, .subQuery, inner, ⟨by decide, by decide⟩, hinner⟩
  | filtered hc =>
    obtain ⟨inner, hinner⟩ := hfiltered c hc
    exact ⟨outer, .predicate, inner, ⟨by decide, by decide⟩, hinner⟩

/-- **A builder that shows itself compiles to nothing**, at whatever depth;
by induction on the depth, around the circle. -/
theorem not_makes_of_circular (depth : Nat) (b : BuilderId)
    (h : Relation.TransGen w.Shows b b) :
    ¬w.Makes depth b := by
  induction depth generalizing b with
  | zero =>
    rintro ⟨outer, composition, clauses, -, hmade⟩
    cases hmade
  | succ depth ih =>
    rintro ⟨outer, composition, clauses, hopens, hmade⟩
    obtain ⟨c, hshows, hback⟩ := Relation.TransGen.head'_iff.mp h
    rw [nested] at hmade
    split at hmade
    · cases hmade
    · exact ih c (.tail' hback hshows) (makes_of_shows hopens hmade hshows)

/-- Nor do the passes it is matched, called and filtered by. -/
theorem clauses_of_circular (h : Relation.TransGen w.Shows b b)
    {composition : Composition} (hopens : composition.Opens) (depth : Nat)
    (outer : List (BuilderId × Composition)) :
    ∃ fault, composition.clauses ((w.body b).map (w.nested depth outer)) =
      .error fault := by
  cases hmade :
      composition.clauses ((w.body b).map (w.nested depth outer)) with
  | error fault => exact ⟨fault, rfl⟩
  | ok clauses =>
    obtain ⟨c, hshows, hback⟩ := Relation.TransGen.head'_iff.mp h
    exact absurd (makes_of_shows hopens hmade hshows)
      (not_makes_of_circular depth c (.tail' hback hshows))

/-! ### Changes of what is returned -/

section

variable {change : Content → Content}

/-- A change of one builder leaves the others as they are. -/
theorem body_changed_of_ne (w : Workspace) (change : Content → Content)
    (hbc : b ≠ c) :
    (w.changed b change).body c = w.body c :=
  body_congr ((getElem?_amended w b _ c).trans (if_neg hbc))

/-- A change of what a builder returns leaves what all builders hold beside
it. -/
theorem bare_body_changed
    (hchange : ∀ content, (change content).bare = content.bare)
    (w : Workspace) (b c : BuilderId) :
    ((w.changed b change).body c).toContent.bare = (w.body c).toContent.bare ∧
      ((w.changed b change).body c).wheres = (w.body c).wheres ∧
      ((w.changed b change).body c).subQueries = (w.body c).subQueries ∧
      ((w.changed b change).body c).union = (w.body c).union := by
  rcases amended_cases w b
      (fun builder => { builder with
        body :=
          { builder.body with toContent := change builder.body.toContent } })
            c with
    ⟨-, old, hold, hnew⟩ | hsame
  · have hbody : (w.changed b change).body c = _ := body_eq hnew
    rw [hbody, body_eq hold]
    exact ⟨hchange old.body.toContent, rfl, rfl, rfl⟩
  · have hbody : (w.changed b change).body c = w.body c := body_congr hsame
    rw [hbody]
    exact ⟨rfl, rfl, rfl, rfl⟩

variable {composition : Composition} {nested nested' : BuilderId → Nested}

/-- Before anything is returned, a builder compiles to the same after a
change of what one returns, if those it shows do. -/
theorem clauses_body_changed
    (hchange : ∀ content, (change content).bare = content.bare)
    (hreturns : .returning ∉ composition) (hunited : .uniting ∉ composition)
    (hnested : ∀ x, w.Shows c x →
      ∀ inside ∈ [Composition.subQuery, .predicate],
      nested' x inside = nested x inside) :
    composition.clauses (((w.changed b change).body c).map nested') =
      composition.clauses ((w.body c).map nested) := by
  obtain ⟨hbare, hwheres, hsubQueries, hunion⟩ :=
    bare_body_changed hchange w b c
  calc composition.clauses (((w.changed b change).body c).map nested')
      = composition.clauses ((w.body c).map nested') := by
        apply Composition.clauses_of_bare_eq hreturns hbare
        · exact congrArg (Filter.mapAll nested') hwheres
        · exact congrArg (List.map nested') hsubQueries
        · exact congrArg (Option.map nested') hunion
    _ = composition.clauses ((w.body c).map nested) := by
        apply Composition.clauses_map_congr hunited
        · exact fun x hx => hnested x (.called hx) .subQuery (by decide)
        · exact fun x hx => hnested x (.filtered hx) .predicate (by decide)

/-- The builders that a builder shows compile to the same after a change of
what it returns, and fail by the same.  The induction is on the depth; a
builder that is met on the way for the second time fails before it returns.
Both compositions return last, so the change shows nowhere but in their last
pass; where the changed builder shows itself, what comes before its last
pass fails already. -/
theorem nested_changed
    (hchange : ∀ content, (change content).bare = content.bare) (depth : Nat)
    (outer : List (BuilderId × Composition)) (c : BuilderId)
    (hshown : Relation.TransGen w.Shows b c)
    (hinside : composition ∈ [Composition.subQuery, .predicate]) :
    (w.changed b change).nested depth outer c composition =
      w.nested depth outer c composition := by
  induction depth generalizing outer c composition with
  | zero => rfl
  | succ depth ih =>
    have hagree : ∀ x, w.Shows c x →
        ∀ inside ∈ [Composition.subQuery, .predicate],
        (w.changed b change).nested depth ((c, composition) :: outer) x
          inside =
          w.nested depth ((c, composition) :: outer) x inside :=
      fun x hx inside hinside => ih _ x (hshown.tail hx) hinside
    obtain ⟨before, hcut, hopens, hreturns, hunited⟩ : ∃ before : Composition,
        composition = before ++ [.returning] ∧ before.Opens ∧
        .returning ∉ before ∧
          .uniting ∉ before := by
      rcases List.mem_pair.mp hinside with rfl | rfl
      · exact ⟨[.importing, .matching false, .calling, .filtering], rfl,
          ⟨by decide, by decide⟩, by decide⟩
      · exact ⟨.matched, rfl, ⟨by decide, by decide⟩, by decide⟩
    rw [Workspace.nested, Workspace.nested]
    by_cases hcontains : outer.contains (c, composition) = true
    · rw [if_pos hcontains, if_pos hcontains]
    · rw [if_neg hcontains, if_neg hcontains]
      have hmatched :=
        clauses_body_changed (b := b) hchange hreturns hunited hagree
      by_cases hbc : b = c
      · subst hbc
        obtain ⟨fault, hfault⟩ :=
          clauses_of_circular hshown hopens depth ((b, composition) :: outer)
        rw [hcut] at hfault hmatched ⊢
        rw [Composition.clauses_append, Composition.clauses_append,
          hmatched, hfault]
        rfl
      · rw [body_changed_of_ne w change hbc]
        apply Composition.clauses_map_congr
        · rw [hcut]
          simp [hunited]
        · exact fun x hx => hagree x (.called hx) .subQuery (by decide)
        · exact fun x hx => hagree x (.filtered hx) .predicate (by decide)

/-- **What a builder returns does not show before it is returned.** -/
theorem clauses_opened_changed
    (hchange : ∀ content, (change content).bare = content.bare)
    (w : Workspace) (b : BuilderId) (hreturns : .returning ∉ composition)
    (hunited : .uniting ∉ composition) :
    composition.clauses ((w.changed b change).opened b) =
      composition.clauses (w.opened b) := by
  have hsize : (w.changed b change).builders.size = w.builders.size :=
    Array.size_modify
  rw [opened, opened, hsize]
  apply clauses_body_changed hchange hreturns hunited
  exact fun x hx inside hinside =>
    nested_changed hchange _ [] x (.single hx) hinside

/-- **A builder reads as before after a change of what it returns**, but for
the clauses of its own projection, which stand last. -/
theorem composed_read_changed
    (hchange : ∀ content, (change content).bare = content.bare)
    (w : Workspace) (b : BuilderId) :
    (w.changed b change).composed b .read = (do
      let matched ← Composition.matched.clauses (w.opened b)
      return matched ++
        (← Pass.returnClauses ((w.changed b change).body b).toContent)) := by
  have hcut : QueryKind.read.composition = Composition.matched ++
      [.returning] := rfl
  have hlast : Composition.clauses [.returning]
      ((w.changed b change).opened b) =
      Pass.returnClauses ((w.changed b change).body b).toContent := by
    rw [Composition.clauses_cons]
    show (do
      let first ← Pass.returnClauses ((w.changed b change).body b).toContent
      return first ++ []) = _
    cases Pass.returnClauses ((w.changed b change).body b).toContent with
    | error fault => rfl
    | ok made => exact congrArg Except.ok (List.append_nil made)
  rw [composed, hcut, Composition.clauses_append, hlast,
    clauses_opened_changed hchange w b (by decide) (by decide)]

end

end Workspace

end GraphQuery

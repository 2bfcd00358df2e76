import GraphQuery.Proofs.Patterns.Chains
import GraphQuery.Proofs.Patterns.Markers
import GraphQuery.Proofs.Workspaces

/-!
# Where queries and walks start

A query and a walk both start from a relationship if a token marks a
direction, and from a node otherwise.  Which token that is they see
differently: the query looks at the first token as it is given, the walk at
one that is not in a list, and the direction is read off the first token
that is not blank.  So they agree on a token, and on a list only if it marks
no direction: `starts_agree_iff`.
-/

namespace GraphQuery

open GraphQuery.Computation Pattern

namespace Pattern

/-! ## The token that marks a direction -/

/-- Blanks around a token do not hide its marker. -/
theorem hasDirectionMarker_trimmed (token : String) :
    hasDirectionMarker (Text.trimmed token) = hasDirectionMarker token := by
  have hsame : MarkedToken.ofToken (Text.trim token.toList) =
      MarkedToken.ofToken token.toList := by
    rw [MarkedToken.ofToken, (Text.tidy_trim token.toList).trim_eq,
      MarkedToken.ofToken]
  rw [hasDirectionMarker, Text.trimmed, String.toList_ofList, hsame,
    hasDirectionMarker]

/-- A blank token has no marker. -/
theorem hasDirectionMarker_of_blank {token : String}
    (h : Text.isBlankText token = true) :
    hasDirectionMarker token = false := by
  have hnil : Text.trim token.toList = [] :=
    Text.trim_eq_nil_iff.mpr (List.all_eq_true.mp h)
  rw [hasDirectionMarker, MarkedToken.ofToken, hnil]
  rfl

/-- Types mark a direction if the first of them does. -/
theorem extractDirection_cons_isSome (first : String) (others : List String) :
    (extractDirection (first :: others)).2.isSome =
      hasDirectionMarker first := by
  rw [extractDirection, hasDirectionMarker]
  dsimp only
  cases (MarkedToken.ofToken first.toList).direction <;> rfl

/-- What is given marks a direction: its first token that is not blank does. -/
def LabelArgument.MarksDirection (given : LabelArgument) : Prop :=
  (extractDirection given.labels).2.isSome = true

namespace LabelArgument

instance (given : LabelArgument) : Decidable given.MarksDirection :=
  inferInstanceAs (Decidable (_ = true))

/-- The first token that is given is not blank. -/
def Fronted (given : LabelArgument) : Prop :=
  ∃ first ∈ given.tokens.head?, Text.isBlankText first = false

/-- Whether a direction is marked is told by the first token, if it is not
blank. -/
theorem marksDirection_of_cons {given : LabelArgument} {first : String}
    {others : List String} (hgiven : given.tokens = first :: others)
    (hfirst : Text.isBlankText first = false) :
    given.MarksDirection ↔ hasDirectionMarker first = true := by
  rw [MarksDirection, labels, hgiven,
    List.filter_cons_of_pos (by rw [hfirst]; rfl), List.map_cons,
    extractDirection_cons_isSome, hasDirectionMarker_trimmed]

/-- A query starts from a relationship if what it is given marks a direction
at once. -/
theorem startsOnRelationship_iff (given : LabelArgument) :
    startsOnRelationship given = true ↔ given.MarksDirection ∧
    given.Fronted := by
  rw [startsOnRelationship]
  cases hgiven : given.tokens with
  | nil =>
    refine iff_of_false Bool.false_ne_true ?_
    rintro ⟨-, first, hfirst, -⟩
    rw [hgiven] at hfirst
    cases hfirst
  | cons first others =>
    dsimp only
    cases hblank : Text.isBlankText first with
    | true =>
      refine iff_of_false ?_ ?_
      · rw [hasDirectionMarker_of_blank hblank]
        exact Bool.false_ne_true
      · rintro ⟨-, other, hother, hnot⟩
        rw [hgiven] at hother
        cases hother
        rw [hblank] at hnot
        cases hnot
    | false =>
      have hfronted : given.Fronted := ⟨first, by rw [hgiven]; rfl, hblank⟩
      rw [marksDirection_of_cons hgiven hblank, and_iff_left hfronted]

/-- Behind a blank token a direction is marked, but no query starts from a
relationship. -/
example : (LabelArgument.many ["", "KNOWS>"]).MarksDirection ∧
    startsOnRelationship (.many ["", "KNOWS>"]) = false := by
  decide +kernel

/-- A walk starts on a relationship if what it is given is a token that
marks a direction. -/
theorem exists_one_iff (given : LabelArgument) :
    (∃ token, given = .one token ∧ hasDirectionMarker token = true) ↔
      given.MarksDirection ∧ ∃ token, given = .one token := by
  constructor
  · rintro ⟨token, rfl, hmarked⟩
    have htoken : Text.isBlankText token = false := by
      rw [Bool.eq_false_iff]
      intro hblank
      rw [hasDirectionMarker_of_blank hblank] at hmarked
      cases hmarked
    exact ⟨(marksDirection_of_cons rfl htoken).mpr hmarked, token, rfl⟩
  · rintro ⟨hmarks, token, rfl⟩
    have htoken : Text.isBlankText token = false := by
      rw [Bool.eq_false_iff]
      intro hblank
      have hnone : (LabelArgument.one token).labels = [] := by
        rw [labels, tokens,
          List.filter_cons_of_neg (by rw [hblank]; exact Bool.false_ne_true)]
        rfl
      rw [MarksDirection, hnone] at hmarks
      cases hmarks
    exact ⟨token, rfl, (marksDirection_of_cons rfl htoken).mp hmarks⟩

/-- A token on its own that marks a direction does so at once. -/
theorem MarksDirection.fronted {given : LabelArgument}
    (h : given.MarksDirection) (hone : ∃ token, given = .one token) :
    given.Fronted := by
  obtain ⟨token, rfl, hmarked⟩ := given.exists_one_iff.mpr ⟨h, hone⟩
  exact ((startsOnRelationship_iff (.one token)).mp hmarked).2

end LabelArgument

/-- A node can be registered first. -/
theorem Registration.exec_node_of_empty {r : Registry}
    {given : LabelArgument} {name : Option String} {own : String}
    {labels : List String} {names : NameSequence} (intent : Intent)
    (hr : r.store = {})
    (hdecode : decode .node given name r.names = ((own, labels), names)) :
    ∃ log, exec (node given name intent) r =
      (.ok (.node { name := own, labels }),
      ⟨({} : Store).pushNamed own ⟨.node { name := own, labels }, intent⟩,
        names, log⟩) := by
  have hnew : r.store.find? own = none := by rw [hr]; rfl
  rw [← hr]
  exact exec_node_of_new hdecode hnew

/-! ## Walks -/

/-- A position on a relationship. -/
def Position.OnRelationship (p : Position) : Prop :=
  ∃ here origin types name direction,
    p.walk.contexts[p.context]? = some here ∧
    here.place = .relationship origin types name direction

namespace Walking

variable {w : Walk}

/-- In an empty store every node can be matched. -/
theorem exec_matchNode_of_empty (hw : w.registry.store = {})
    (given : LabelArgument) (name : Option String) (optional : Bool) :
    ∃ own r, exec (matchNode given name optional) w =
      (.ok own, { w with registry := r }) := by
  rcases hdecode : decode .node given name w.registry.names with
      ⟨⟨own, labels⟩, names⟩
  obtain ⟨log, hnode⟩ :=
    Registration.exec_node_of_empty (.matching optional) hw hdecode
  rw [exec_matchNode, StoreCall.perform, exec_bind, hnode]
  exact ⟨_, _, rfl⟩

/-- In an empty store every walk can start at a node. -/
theorem exec_startAtNode_of_empty (hw : w.registry.store = {})
    (given : LabelArgument) (name : Option String) (optional : Bool) :
    ∃ own r, exec (startAtNode given name optional) w =
      (.ok w.contexts.size,
        ⟨w.contexts.push { place := .node none own false, optional },
          r⟩) := by
  obtain ⟨own, r, hmatch⟩ := exec_matchNode_of_empty hw given name optional
  rw [startAtNode, exec_bind, hmatch]
  exact ⟨own, r, rfl⟩

/-- In an empty store every walk can start on a relationship. -/
theorem exec_startOnRelationship_of_empty (hw : w.registry.store = {})
    (types : LabelArgument) (name : Option String)
    (direction : Option Direction) (optional : Bool) :
    ∃ own r, exec (startOnRelationship types name direction optional) w =
      (.ok (w.contexts.size + 1),
        ⟨(w.contexts.push { place := .node none own true, optional }).push
          { place := .relationship w.contexts.size types name direction,
            optional }, r⟩) := by
  obtain ⟨own, r, hmatch⟩ := exec_matchNode_of_empty hw .none none optional
  rw [startOnRelationship, exec_bind, hmatch]
  dsimp only
  rw [enter, exec_bind, exec_modifyGet]
  dsimp only
  rw [exec_addRelationship Array.getElem?_push_size rfl, Array.size_push,
    Bool.or_self]
  exact ⟨own, r, rfl⟩

/-- A new walk starts, and it starts on a relationship if a token on its own
marks a direction. -/
theorem exec_start_of_empty (hw : w.registry.store = {})
    (given : LabelArgument) (name : Option String) (optional : Bool) :
    ∃ c v, exec (start given name optional) w = (.ok c, v) ∧
      ((⟨v, c⟩ : Position).OnRelationship ↔
        ∃ token, given = .one token ∧ hasDirectionMarker token = true) := by
  obtain ⟨own, r, hnode⟩ := exec_startAtNode_of_empty hw given name optional
  have hplace : ¬(⟨⟨w.contexts.push
      { place := .node none own false, optional }, r⟩,
      w.contexts.size⟩ : Position).OnRelationship := by
    rintro ⟨here, origin, types, name', direction, hhere, hplace⟩
    rw [Array.getElem?_push_size] at hhere
    cases hhere
    cases hplace
  cases given with
  | none | many =>
    refine ⟨_, _, hnode, iff_of_false hplace ?_⟩
    rintro ⟨token, htoken, -⟩
    cases htoken
  | one token =>
    rw [start]
    by_cases hmarked : hasDirectionMarker token = true
    · obtain ⟨root, r', hrelationship⟩ :=
        exec_startOnRelationship_of_empty hw (.one token) name none optional
      rw [if_pos hmarked]
      refine ⟨_, _, hrelationship, iff_of_true ?_ ⟨token, rfl, hmarked⟩⟩
      refine ⟨
        { place := .relationship w.contexts.size (.one token) name none
          optional }, _, _, _, _, ?_, rfl⟩
      rw [← Array.size_push { place := .node none root true, optional }]
      exact Array.getElem?_push_size
    · rw [if_neg hmarked]
      refine ⟨_, _, hnode, iff_of_false hplace ?_⟩
      rintro ⟨other, hother, hmarks⟩
      cases hother
      exact hmarked hmarks

end Walking

/-- A walk starts on a relationship exactly if one token is given and has a
marker. -/
theorem Position.step_start (here : Option Position) (given : LabelArgument)
    (name : Option String) (optional : Bool) :
    ∃ p, Position.step here (.start given name optional) = (.ok (), some p) ∧
      (p.OnRelationship ↔ ∃ token, given = .one token ∧
        hasDirectionMarker token = true) := by
  have hstarting :
      (WalkStep.start given name optional : WalkStep Assignment).starting? =
      some (Walking.start given name optional) := rfl
  have hstep : ∃ log, ∀ {c v}, exec (Walking.start given name optional)
      { registry := { log } } =
      (.ok c, v) → Position.step here (.start given name optional) =
        (.ok (), some ⟨v, c⟩) := by
    refine ⟨(here.map fun p => p.walk.registry.log).getD [], fun hexec => ?_⟩
    rw [exec] at hexec
    unfold Position.step
    rw [hstarting]
    cases here with
    | none | some p =>
      dsimp only [Option.map, Option.getD] at hexec ⊢
      rw [hexec]
  obtain ⟨log, hstep⟩ := hstep
  obtain ⟨c, v, hexec, hplace⟩ :=
    Walking.exec_start_of_empty (w := { registry := { log } }) rfl given name
      optional
  exact ⟨⟨v, c⟩, hstep hexec, hplace⟩

/-! ## Queries -/

namespace Registration

variable {r : Registry}

/-- A relationship between anonymous nodes can be registered first. -/
theorem exec_relationship_of_empty (hr : r.store = {})
    (given : LabelArgument) (name : Option String)
    (direction : Option Direction) (intent : Intent) :
    ∃ new s, exec (relationship none none given name direction intent) r =
        (.ok (.relationship new), s) ∧
      s.store = ({} : Store).pushNamed new.name ⟨.relationship new,
        intent⟩ := by
  have hend : ∀ s, exec (endpoint none intent) s =
      (.ok s.names.draw.1, { s with names := s.names.draw.2 }) := fun s => rfl
  unfold relationship
  rcases extractDirection given.labels with ⟨types, marked⟩
  dsimp only
  rw [exec_bind, hend]
  dsimp only
  rw [exec_bind, hend]
  dsimp only
  rw [exec_bind, exec_resolve]
  rcases decode .relationship (.many types) name r.names.draw.2.draw.2 with
      ⟨⟨own, labels⟩, names⟩
  dsimp only
  let new : Relationship :=
    { name := own, left := r.names.draw.1, right := r.names.draw.2.draw.1,
      types := labels
      direction := (direction <|> marked).getD .leftToRight }
  have hdeclare : r.store.declareRelationship new intent =
      .ok (.relationship new,
        ({} : Store).pushNamed own ⟨.relationship new, intent⟩) := by
    rw [hr]
    rfl
  have hexec :
      ∃ log, exec (declare ElementKind.relationship.name own intent fun s =>
      s.declareRelationship new intent) { r with names } =
        (.ok (.relationship new),
        ⟨({} : Store).pushNamed own ⟨.relationship new, intent⟩, names,
          log⟩) :=
    exec_declare_of_ok (fun s => s.declareRelationship new intent) hdeclare
  obtain ⟨log, hexec⟩ := hexec
  exact ⟨new, _, hexec, rfl⟩

/-- What a query starts from can be registered, and its name stands for it. -/
theorem exec_start_of_empty (hr : r.store = {}) (given : LabelArgument)
    (name : Option String) (optional : Bool) :
    ∃ e s own, exec (QueryStart.any given name optional).registration r =
      (.ok e, s) ∧
      e.name? = some own ∧ s.store.get? own = some e ∧
      ((∃ new, e = .relationship new) ↔ startsOnRelationship given =
        true) := by
  rw [QueryStart.registration]
  by_cases hstarts : startsOnRelationship given = true
  · rw [if_pos hstarts]
    obtain ⟨new, s, hexec, hstore⟩ :=
      exec_relationship_of_empty hr given name none (.matching optional)
    refine ⟨_, s, new.name, hexec, rfl, ?_, iff_of_true ⟨new, rfl⟩ hstarts⟩
    rw [hstore, Store.get?, Store.find?_pushNamed]
  · rw [if_neg hstarts]
    rcases hdecode : decode .node given name r.names with
        ⟨⟨own, labels⟩, names⟩
    obtain ⟨log, hnode⟩ := exec_node_of_empty (.matching optional) hr hdecode
    refine ⟨_, _, own, hnode, rfl, ?_, iff_of_false ?_ hstarts⟩
    · rw [Store.get?, Store.find?_pushNamed]
    · rintro ⟨new, hnew⟩
      cases hnew

end Registration

end Pattern

/-- The entry of a query is a relationship of its pattern. -/
def Workspace.StartsOnRelationship (w : Workspace) (b : BuilderId) : Prop :=
  ∃ new, (w.body b).pattern.get? (w.body b).entry = some (.relationship new)

namespace Building

/-- A query that can be started has the element it starts from. -/
theorem exec_startWith (stack : Nat) {sequence : Nat} {how : QueryStart}
    {w : Workspace} {e : Element} {r : Registry}
    (h : exec how.registration
      { names := w.sequences[sequence]?.getD {}, log := w.log } =
      (.ok e, r)) :
    ∃ w', exec (startWith stack sequence how) w = (.ok w.builders.size, w') ∧
      (w'.body w.builders.size).pattern = r.store ∧
      (w'.body w.builders.size).entry = e.name?.getD "" := by
  let built : Builder :=
    { whole := true, stack, sequence
      body :=
        { pattern := r.store, entry := e.name?.getD "",
          batchVariable := w.settings.batchVariable } }
  have hbuilt : (w.builders.push built)[w.builders.size]? = some built :=
    Array.getElem?_push_size
  rw [exec] at h
  rw [startWith, exec_bind, registerIn, exec_modifyGet, h]
  refine ⟨_, rfl, ?_, ?_⟩
  all_goals
    rw [Workspace.body]
    dsimp only
    rw [hbuilt]
    rfl

/-- A new query starts, and it starts from a relationship if the first token
marks a direction. -/
theorem exec_start (given : LabelArgument) (name : Option String)
    (optional : Bool) (w : Workspace) :
    ∃ b w', exec (start (.any given name optional)) w = (.ok b, w') ∧
      (w'.StartsOnRelationship b ↔ startsOnRelationship given = true) := by
  let opened : Workspace :=
    { w with parameterStacks := w.parameterStacks.push (.empty w.settings)
             sequences := w.sequences.push {} }
  have hopened : exec (start (.any given name optional)) w =
      exec (startWith w.parameterStacks.size w.sequences.size
        (.any given name optional)) opened := rfl
  obtain ⟨e, r, own, hexec, hname, hget, hrelationship⟩ :=
    Registration.exec_start_of_empty
    (r := { names := opened.sequences[w.sequences.size]?.getD {}, log :=
      opened.log }) rfl given name
    optional
  obtain ⟨w', hstart, hpattern,
      hentry⟩ := exec_startWith w.parameterStacks.size hexec
  refine ⟨_, w', hopened.trans hstart, ?_⟩
  rw [Workspace.StartsOnRelationship, hpattern, hentry, hname,
    Option.getD_some, hget,
    ← hrelationship]
  exact exists_congr fun new => ⟨Option.some.inj, congrArg some⟩

end Building

/-- **Where the entry points and the direction agree.**  Whatever a query
and a walk are started with, both start.  The query starts from a
relationship if what it is given marks a direction and the first token is
not blank; the walk does so if a token on its own marks a direction.  So
both start from a relationship exactly if a direction is marked, unless one
is marked in a list. -/
theorem starts_agree_iff (given : LabelArgument) (name : Option String)
    (optional : Bool) (w : Workspace) (here : Option Position) :
    ∃ b w' p, exec (Building.start (.any given name optional)) w =
      (.ok b, w') ∧
      Position.step here (.start given name optional) = (.ok (), some p) ∧
      (w'.StartsOnRelationship b ↔ given.MarksDirection ∧ given.Fronted) ∧
      (p.OnRelationship ↔ given.MarksDirection ∧
        ∃ token, given = .one token) ∧
      (((w'.StartsOnRelationship b ↔ p.OnRelationship) ∧
          (w'.StartsOnRelationship b ↔ given.MarksDirection)) ↔
        (given.MarksDirection → ∃ token, given = .one token)) := by
  obtain ⟨b, w', hquery, hentry⟩ := Building.exec_start given name optional w
  obtain ⟨p, hwalk, hplace⟩ := Position.step_start here given name optional
  rw [given.startsOnRelationship_iff] at hentry
  rw [given.exists_one_iff] at hplace
  refine ⟨b, w', p, hquery, hwalk, hentry, hplace, ?_⟩
  rw [hentry, hplace]
  constructor
  · rintro ⟨hsame, hmarked⟩ hmarks
    exact (hsame.mp (hmarked.mpr hmarks)).2
  · intro hone
    have hfronted : given.MarksDirection → given.Fronted := fun hmarks =>
      hmarks.fronted (hone hmarks)
    refine ⟨⟨fun hboth => ⟨hboth.1, hone hboth.1⟩, fun hboth =>
      ⟨hboth.1, hfronted hboth.1⟩⟩, ?_⟩
    exact ⟨fun hboth => hboth.1, fun hmarks => ⟨hmarks, hfronted hmarks⟩⟩

end GraphQuery

import GraphQuery.Proofs.Patterns.Brackets
import GraphQuery.Proofs.Patterns.Relationships

/-!
# Fans

A fan is what one relationship of a new tree comes to: an edge from the root
to every node collected on it.  Its edges are the only relationships of the
tree, in the order the nodes were collected, and they differ in their names
and their right ends alone, unless the name of the first one stands in a
token that carries types as well: `Walk.fan_of_new_tree`.  Then the first
edge has these types, and the others have the types as they were given,
since their names are given to them.
-/

namespace GraphQuery.Pattern

open GraphQuery.Computation

/-- The types of the edges of a fan. -/
def fanTypes (types : LabelArgument) (name : Option String) :
    Nat → List String
  | 0 => typesRead types name
  | _ + 1 => typesGiven types

/-- An edge of a fan as it is declared. -/
def fanRelationship (left base : String) (types : LabelArgument)
    (name : Option String) (direction : Option Direction) (k : Nat)
    (right : String) : Relationship :=
  { name := fanName base k, left, right, types := fanTypes types name k,
    direction := arrow types direction }

/-- The edges of a fan have the same types if the name stands in a token
without a colon. -/
theorem fanTypes_eq_of_noColon {types : LabelArgument} {name : Option String}
    (h : ':' ∉ (nameToken types name).toList) (k : Nat) :
    fanTypes types name k = typesGiven types := by
  cases k with
  | zero =>
    rw [fanTypes]
    exact typesRead_eq_of_noColon h
  | succ k => rw [fanTypes]

/-! ## What an ascent declares -/

/-- No relationship has the name of an edge of a fan, from one of the edges
on. -/
def NamesFree (known : List (Relationship × Intent)) (base : String)
    (i : Nat) : Prop :=
  ∀ k, i ≤ k → ∀ entry ∈ known, entry.1.name ≠ fanName base k

/-- An edge takes its own name only. -/
theorem NamesFree.snoc {known : List (Relationship × Intent)} {base : String}
    {i : Nat} (h : NamesFree known base i) {r : Relationship}
    (intent : Intent) (hr : r.name = fanName base i) :
    NamesFree (known ++ [(r, intent)]) base (i + 1) := by
  intro k hk entry hentry
  rcases List.mem_append.mp hentry with hold | hlast
  · exact h k (Nat.le_of_succ_le hk) entry hold
  · rw [List.mem_singleton.mp hlast]
    dsimp only
    rw [hr]
    intro heq
    have hsame : i = k := fanName_injective base heq
    omega

/-- The relationships behind the first one of a fan.  From edge to edge the
names of those still to come stay free. -/
theorem relationships_of_branchCalls {r s : Registry} {left base : String}
    {types : LabelArgument} {direction : Option Direction} {optional : Bool}
    {i : Nat} {rights : List String} (name : Option String)
    (hr : r.store.Indexed) (hleft : Plain left)
    (hrights : ∀ right ∈ rights, Plain right)
    (hbase : rights ≠ [] → Plain base)
    (hfree : NamesFree r.store.relationships base (i + 1))
    (h : r.afterCalls (branchCalls left base types direction optional
      (i + 1) rights) = (.ok (), s)) :
    s.store.relationships = r.store.relationships ++
      (rights.mapIdx fun k => fanRelationship left base types name direction
        (i + 1 + k)).map
        fun r => (r, .matching optional) := by
  induction rights generalizing i r with
  | nil =>
    cases h
    exact (List.append_nil _).symm
  | cons right rest ih =>
    obtain ⟨answer, t, hcall, hrest⟩ := Registry.afterCalls_cons_eq_ok h
    have ht : t.store.Indexed := (Traced.of_perform hcall).indexed hr
    have hplain : Plain (fanName base (i + 1)) :=
      plain_fanName (hbase (List.cons_ne_nil _ _)) (i + 1)
    have hname : relationshipName types (some (base ++ toString (i + 1)))
        r.names =
        fanName base (i + 1) := relationshipName_of_plain hplain types r.names
    have htypes : typesRead types (some (base ++ toString (i + 1))) =
        typesGiven types :=
      typesRead_some_of_plain hplain types
    have hedge :=
      relationships_of_edge hr hleft (hrights right List.mem_cons_self)
      (hname ▸ hfree (i + 1) (Nat.le_refl _)) hcall
    rw [hname, htypes] at hedge
    have hlater : NamesFree t.store.relationships base (i + 1 + 1) := by
      rw [hedge]
      exact hfree.snoc _ rfl
    have hothers :=
      ih ht (fun right hmem => hrights right (List.mem_cons_of_mem _ hmem))
      (fun _ => hbase (List.cons_ne_nil _ _)) hlater hrest
    have hshift : ∀ k, i + 1 + 1 + k = i + 1 + (k + 1) := fun k => by omega
    simp only [hothers, hedge, hshift, List.append_assoc, List.mapIdx_cons,
      List.map_cons]
    rfl

/-- **What an ascent declares.**  The fan comes behind all other
relationships, if none of its names is taken. -/
theorem relationships_of_ascentCalls {w : Walk} {s : Registry}
    {left base : String} {types : LabelArgument} {name : Option String}
    {direction : Option Direction} {optional : Bool} {rights : List String}
    (hne : rights ≠ []) (hw : w.registry.store.Indexed) (hleft : Plain left)
    (hrights : ∀ right ∈ rights, Plain right)
    (hbase : relationshipName types name w.registry.names = base)
    (hplain : 1 < rights.length → Plain base)
    (hfree : NamesFree w.registry.store.relationships base 0)
    (h : w.registry.afterCalls
      (w.ascentCalls left types name direction optional rights) =
      (.ok (), s)) :
    s.store.relationships = w.registry.store.relationships ++
      (rights.mapIdx (fanRelationship left base types name direction)).map
        fun r => (r, .matching optional) := by
  obtain ⟨first, rest, rfl⟩ := List.exists_cons_of_ne_nil hne
  rw [Walk.ascentCalls] at h
  obtain ⟨answer, t, hcall, hrest⟩ := Registry.afterCalls_cons_eq_ok h
  have ht : t.store.Indexed := (Traced.of_perform hcall).indexed hw
  have hfirst : Plain first := hrights first List.mem_cons_self
  have hname : answer.name = base :=
    (name_of_answer hw hleft hfirst hcall).trans hbase
  rw [hcall] at hrest
  dsimp only at hrest
  rw [hname] at hrest
  have hedge := relationships_of_edge hw hleft hfirst
    (hbase ▸ hfree 0 (Nat.le_refl _)) hcall
  rw [hbase] at hedge
  have hlater : NamesFree t.store.relationships base (0 + 1) := by
    rw [hedge]
    exact hfree.snoc _ rfl
  have hothers := relationships_of_branchCalls name ht hleft
    (fun right hmem => hrights right (List.mem_cons_of_mem first hmem))
    (fun hmore => hplain (Nat.succ_lt_succ (List.length_pos_iff.mpr hmore)))
      hlater hrest
  have hnumber : ∀ k, 0 + 1 + k = k + 1 := fun k => by omega
  simp only [hothers, hedge, hnumber, List.append_assoc, List.mapIdx_cons,
    List.map_cons]
  rfl

/-! ## Collecting -/

namespace Walking

variable {w v : Walk} {c there : ContextId}

/-- A node that is matched opens no context and is no relationship. -/
theorem keeps_of_matchNode {given : LabelArgument} {name : Option String}
    {optional : Bool} {own : String} (hw : w.registry.store.Indexed)
    (h : exec (matchNode given name optional) w = (.ok own, v)) :
    v.contexts = w.contexts ∧
      v.registry.store.relationships = w.registry.store.relationships := by
  rw [exec_matchNode] at h
  dsimp only at h
  rcases hexec : exec (StoreCall.matchNode given name optional).perform
      w.registry with
    ⟨fault | answer, r⟩
  · rw [hexec] at h
    cases h
  · rw [hexec] at h
    cases h
    have happly := StoreCall.applyAll_of_perform hexec
    rw [StoreCall.declarations, nodeDeclarations,
      Store.applyAll_singleton] at happly
    exact ⟨rfl, hw.relationships_of_node (Declaration.makes_of_apply happly)⟩

/-- A node below is noted above it, and opens a context of its own. -/
theorem contexts_of_addChildNode {here : Context} {given : LabelArgument}
    {name : Option String} {optional : Bool} (hw : w.registry.store.Indexed)
    (hhere : w.contexts[c]? = some here)
    (h : exec (addChildNode c given name optional) w = (.ok there, v)) :
    v.registry.store.relationships = w.registry.store.relationships ∧
      ∃ own, v.contexts = (w.contexts.push
        { place := .node (some c) own false,
          optional := here.optional || optional }).modify c
          fun context =>
            { context with children := context.children ++ [own] } := by
  rw [addChildNode, exec_bind, exec_context, hhere] at h
  obtain ⟨own, t, hmatch, hrest⟩ := exec_bind_eq_ok.mp h
  obtain ⟨hcontexts, hrelationships⟩ := keeps_of_matchNode hw hmatch
  obtain ⟨child, u, henter, hrest⟩ := exec_bind_eq_ok.mp hrest
  cases henter
  obtain ⟨_, _, hadd, hrest⟩ := exec_bind_eq_ok.mp hrest
  cases hadd
  cases hrest
  refine ⟨hrelationships, own, ?_⟩
  rw [← hcontexts]

/-- Ascending from a node does nothing. -/
theorem eq_of_ascend {name : String} (hname : w.nodeName? c = some name)
    (h : exec (ascend c) w = (.ok there, v)) : v = w := by
  obtain ⟨here, hhere, hnode⟩ := Option.bind_eq_some_iff.mp hname
  rw [ascend, exec_bind, exec_context, hhere] at h
  dsimp only at h
  rw [Context.nodeName?] at hnode
  cases hplace : here.place with
  | relationship =>
    rw [hplace] at hnode
    cases hnode
  | node parent own skipped =>
    rw [hplace] at h
    dsimp only at h
    rw [leave, exec_bind, exec_context, hhere] at h
    dsimp only at h
    rw [Context.parent, hplace] at h
    cases parent with
    | none => cases h
    | some above =>
      cases h
      rfl

/-- From a node a relationship opens a context of its own. -/
theorem exec_addRelationship {here : Context} {parent : Option ContextId}
    {own : String} {skipped : Bool} (hhere : w.contexts[c]? = some here)
    (hplace : here.place = .node parent own skipped) (types : LabelArgument)
    (name : Option String) (direction : Option Direction) (optional : Bool) :
    exec (addRelationship c types name direction optional) w =
      (.ok w.contexts.size, { w with
        contexts := w.contexts.push
          { place := .relationship c types name direction,
            optional := here.optional || optional } }) := by
  rw [addRelationship, exec_bind, exec_context, hhere]
  dsimp only
  rw [hplace]
  rfl

/-- A walk that starts at a node has one more context. -/
theorem contexts_of_startAtNode {given : LabelArgument}
    {name : Option String} {optional : Bool} (hw : w.registry.store.Indexed)
    (h : exec (startAtNode given name optional) w = (.ok there, v)) :
    v.registry.store.relationships = w.registry.store.relationships ∧
    there = w.contexts.size ∧
      ∃ own, v.contexts =
        w.contexts.push { place := .node none own false, optional } := by
  obtain ⟨own, t, hmatch, h⟩ := exec_bind_eq_ok.mp h
  obtain ⟨hcontexts, hrelationships⟩ := keeps_of_matchNode hw hmatch
  cases h
  exact ⟨hrelationships, congrArg Array.size hcontexts, own,
    by rw [hcontexts]⟩

/-- A walk that starts on a relationship has two more, the anonymous node in
front of it and itself. -/
theorem contexts_of_startOnRelationship {types : LabelArgument}
    {name : Option String} {direction : Option Direction} {optional : Bool}
    (hw : w.registry.store.Indexed)
    (h : exec (startOnRelationship types name direction optional) w =
      (.ok there, v)) :
    v.registry.store.relationships = w.registry.store.relationships ∧
      there = w.contexts.size + 1 ∧ ∃ own, v.contexts =
        (w.contexts.push { place := .node none own true, optional }).push
          { place := .relationship w.contexts.size types name direction,
            optional } := by
  obtain ⟨own, t, hmatch, h⟩ := exec_bind_eq_ok.mp h
  obtain ⟨hcontexts, hrelationships⟩ := keeps_of_matchNode hw hmatch
  obtain ⟨origin, u, henter, h⟩ := exec_bind_eq_ok.mp h
  cases henter
  rw [exec_addRelationship Array.getElem?_push_size rfl] at h
  cases h
  rw [← hcontexts, Bool.or_self]
  exact ⟨hrelationships, Array.size_push _, own, rfl⟩

end Walking

/-- A leg of collecting on a relationship: a node is added there, or one
ascends from elsewhere. -/
inductive Leg.Collects (c : ContextId) : Leg → Prop
  | node (given : LabelArgument) (name : Option String) (optional : Bool) :
    Collects c ⟨c, .addChildNode given name optional⟩
  | back {source : ContextId} (h : source ≠ c) : Collects c ⟨source, .ascend⟩

/-- Whether a leg adds a node. -/
def Leg.addsNode (leg : Leg) : Bool :=
  match leg.step with
  | .addChildNode _ _ _ => true
  | _ => false

namespace Walk

variable {w v : Walk} {left : String} {types : LabelArgument}
    {name : Option String}
variable {direction : Option Direction} {optional : Bool}
    {rights : List String}

/-- A new tree with one relationship at its root, on which nodes have been
collected so far. -/
structure Collecting (w : Walk) (left : String) (types : LabelArgument)
    (name : Option String) (direction : Option Direction) (optional : Bool)
    (rights : List String) : Prop where
  sound : w.Sound
  unrelated : w.registry.store.relationships = []
  root : w.nodeName? 0 = some left
  relationship : w.contexts[1]? = some
    { place := .relationship 0 types name direction, optional,
      children := rights }
  collected : ∀ k : Nat, w.nodeName? (k + 2) = rights[k]?
  size : w.contexts.size = rights.length + 2

namespace Collecting

/-- The contexts once a node is collected: there is one at it, and the
relationship has one node more. -/
theorem getElem?_contexts
    (h : w.Collecting left types name direction optional rights)
    {right : String} {childOptional : Bool}
    (hcontexts : v.contexts =
      (w.contexts.push
        { place := .node (some 1) right false
          optional := childOptional }).modify 1 fun context =>
        { context with children := context.children ++ [right] })
    (i : Nat) :
    v.contexts[i]? =
      if 1 = i then some
        { place := .relationship 0 types name direction, optional,
          children := rights ++ [right] }
      else if i = rights.length + 2 then some
        { place := .node (some 1) right false, optional := childOptional }
      else w.contexts[i]? := by
  rw [hcontexts, Array.getElem?_modify, Array.getElem?_push, h.size]
  by_cases hi : 1 = i
  · have hne : i ≠ rights.length + 2 := by omega
    subst hi
    rw [if_pos rfl, if_pos rfl, if_neg hne, h.relationship]
    rfl
  · rw [if_neg hi, if_neg hi]

/-- A node is collected. -/
theorem addChildNode
    (h : w.Collecting left types name direction optional rights)
    {there : ContextId} {given : LabelArgument} {own : Option String}
    {childOptional : Bool}
    (hmove : exec (WalkStep.move 1 (.addChildNode given own childOptional))
      w = (.ok there, v)) :
    ∃ right, v.Collecting left types name direction optional
      (rights ++ [right]) := by
  obtain ⟨hrelationships, right, hcontexts⟩ :=
    Walking.contexts_of_addChildNode h.sound.indexed h.relationship hmove
  have hcontext := h.getElem?_contexts hcontexts
  refine ⟨right, h.sound.move hmove, hrelationships.trans h.unrelated, ?_,
    ?_, fun k => ?_, ?_⟩
  · rw [nodeName?, hcontext, if_neg (by decide), if_neg (by omega)]
    exact h.root
  · rw [hcontext, if_pos rfl]
  · rw [nodeName?, hcontext, if_neg (by omega)]
    by_cases hk : k = rights.length
    · rw [if_pos (by omega), hk, List.getElem?_concat_length]
      rfl
    · rw [if_neg (by omega)]
      change w.nodeName? (k + 2) = _
      rw [h.collected]
      by_cases hlt : k < rights.length
      · rw [List.getElem?_append_left hlt]
      · rw [List.getElem?_eq_none (by omega), List.getElem?_eq_none]
        rw [List.length_append, List.length_singleton]
        omega
  · rw [hcontexts, Array.size_modify, Array.size_push, h.size,
      List.length_append, List.length_singleton]

/-- Every other context is at a node. -/
theorem nodeName?_of_ne
    (h : w.Collecting left types name direction optional rights) {c : Nat}
    {here : Context} (hhere : w.contexts[c]? = some here) (hc : c ≠ 1) :
    ∃ own, w.nodeName? c = some own := by
  have hlt := (Array.getElem?_eq_some_iff.mp hhere).1
  rw [h.size] at hlt
  match c with
  | 0 => exact ⟨left, h.root⟩
  | 1 => exact absurd rfl hc
  | k + 2 =>
    have hk : k < rights.length := by omega
    exact ⟨rights[k], (h.collected k).trans (List.getElem?_eq_getElem hk)⟩

/-- A leg of collecting. -/
theorem leg (h : w.Collecting left types name direction optional rights)
    {leg : Leg} {there : ContextId} (hleg : leg.Collects 1)
    (hmove : exec (leg.step.move leg.source) w = (.ok there, v)) :
    ∃ added, v.Collecting left types name direction optional
      (rights ++ added) ∧
      added.length = if leg.addsNode then 1 else 0 := by
  cases hleg with
  | node given own childOptional =>
    obtain ⟨right, hright⟩ := h.addChildNode hmove
    exact ⟨[right], hright, rfl⟩
  | @back source hsource =>
    obtain ⟨here, _, hcontext, -⟩ := exec_bind_eq_ok.mp hmove
    rw [Walking.exec_context] at hcontext
    cases hhere : w.contexts[source]? with
    | none =>
      rw [hhere] at hcontext
      cases hcontext
    | some found =>
      obtain ⟨own, hown⟩ := h.nodeName?_of_ne hhere hsource
      obtain rfl := Walking.eq_of_ascend hown hmove
      exact ⟨[], by rwa [List.append_nil], rfl⟩

/-- Collecting goes on: a node more for every leg that adds one. -/
theorem along (h : w.Collecting left types name direction optional rights)
    {legs : List Leg} (hcollects : ∀ leg ∈ legs, leg.Collects 1)
    (hlegs : w.along legs = .ok v) :
    ∃ added, v.Collecting left types name direction optional
      (rights ++ added) ∧
      added.length = legs.countP Leg.addsNode := by
  induction legs generalizing w rights with
  | nil =>
    cases hlegs
    exact ⟨[], by rwa [List.append_nil], rfl⟩
  | cons leg rest ih =>
    obtain ⟨there, u, hmove, hrest⟩ := along_cons_eq_ok hlegs
    obtain ⟨first, hfirst, hlength⟩ :=
      h.leg (hcollects leg List.mem_cons_self) hmove
    obtain ⟨others, hothers, hcount⟩ :=
      ih hfirst (fun leg hmem => hcollects leg (List.mem_cons_of_mem _ hmem))
        hrest
    rw [List.append_assoc] at hothers
    refine ⟨first ++ others, hothers, ?_⟩
    rw [List.length_append, List.countP_cons, hlength, hcount, Nat.add_comm]

/-- Ascending from the relationship declares the fan. -/
theorem ascend (h : w.Collecting left types name direction optional rights)
    (hne : rights ≠ [])
    (hclear : Clear (fan left types name w.registry.names rights))
    {there : ContextId}
    (hmove : exec (WalkStep.move 1 .ascend) w = (.ok there, v)) :
    v.registry.store.relationships =
      (rights.mapIdx (fanRelationship left
        (relationshipName types name w.registry.names) types name
        direction)).map fun r => (r, .matching optional) := by
  have hcalls := afterCalls_of_move hmove
  rw [calls_ascend h.relationship rfl h.root] at hcalls
  obtain ⟨first, rest, hrights⟩ := List.exists_cons_of_ne_nil hne
  have hfirst : rights[0]? = some first := by rw [hrights]; rfl
  have hplain : Plain left :=
    ⟨h.sound.proper_of_nodeName? h.root,
      (hclear _ (edge_mem_fan left types name w.registry.names hfirst)).1⟩
  have hchildren : ∀ right ∈ rights, Plain right := by
    intro right hright
    obtain ⟨k, hk⟩ := List.mem_iff_getElem?.mp hright
    exact ⟨(h.sound.fit 1 _ h.relationship).children right hright,
      (hclear _ (edge_mem_fan left types name w.registry.names hk)).2.1⟩
  have hfree : NamesFree w.registry.store.relationships
      (relationshipName types name w.registry.names) 0 := by
    intro k _ entry hentry
    rw [h.unrelated] at hentry
    cases hentry
  have hfan :=
    relationships_of_ascentCalls hne h.sound.indexed hplain hchildren rfl
    (h.sound.plain_base hclear) hfree hcalls
  rwa [h.unrelated, List.nil_append] at hfan

end Collecting

/-- A relationship that has just been opened at the root of a new tree is
ready to collect. -/
theorem collecting_of_contexts {skipped rootOptional : Bool}
    (hsound : w.Sound) (hunrelated : w.registry.store.relationships = [])
    (hcontexts : w.contexts =
      #[{ place := .node none left skipped, optional := rootOptional },
      { place := .relationship 0 types name direction, optional }]) :
    w.Collecting left types name direction optional [] where
  sound := hsound
  unrelated := hunrelated
  root := by
    rw [nodeName?, hcontexts]
    rfl
  relationship := by
    rw [hcontexts]
    rfl
  collected k := by
    rw [nodeName?, hcontexts]
    rfl
  size := by
    rw [hcontexts]
    rfl

/-- A relationship is opened from the root. -/
theorem collecting_of_addRelationship {rootOptional : Bool}
    {there : ContextId} (hsound : w.Sound)
    (hunrelated : w.registry.store.relationships = [])
    (hcontexts : w.contexts =
      #[{ place := .node none left false, optional := rootOptional }])
    (hmove : exec
      (WalkStep.move 0 (.addRelationship types name direction optional)) w =
      (.ok there, v)) :
    there = 1 ∧
    v.Collecting left types name direction (rootOptional || optional) [] := by
  have hroot : w.contexts[0]? =
      some { place := .node none left false, optional := rootOptional } := by
    rw [hcontexts]
    rfl
  have hopen :=
    Walking.exec_addRelationship hroot rfl types name direction optional
  have hopened : v.Sound := hsound.move hmove
  cases hopen.symm.trans hmove
  have hboth : w.contexts.push
        { place := .relationship 0 types name direction,
          optional := rootOptional || optional } =
      #[{ place := .node none left false, optional := rootOptional },
        { place := .relationship 0 types name direction,
          optional := rootOptional || optional }] := by
    rw [hcontexts]
    rfl
  exact ⟨congrArg Array.size hcontexts,
    collecting_of_contexts hopened hunrelated hboth⟩

end Walk

/-- The steps that open the one relationship of a new tree: from its root,
or together with it. -/
inductive Opens (types : LabelArgument) (name : Option String)
    (direction : Option Direction) :
    Bool → List (WalkStep Assignment) → Prop
  | fromRoot {first : WalkStep Assignment} {given : LabelArgument}
      {root : Option String}
    {rootOptional : Bool}
    (h : first.starting? = some (Walking.startAtNode given root rootOptional))
    (optional : Bool) :
    Opens types name direction (rootOptional || optional)
      [first, .addRelationship types name direction optional]
  | atOnce {first : WalkStep Assignment} {optional : Bool}
    (h : first.starting? =
      some (Walking.startOnRelationship types name direction optional)) :
    Opens types name direction optional [first]

/-- Nothing has been collected yet on a relationship just opened. -/
theorem Opens.collecting {types : LabelArgument} {name : Option String}
    {direction : Option Direction} {optional : Bool}
    {opening : List (WalkStep Assignment)}
    (hopening : Opens types name direction optional opening)
    {here : Option Position} {w : Walk} {c : ContextId}
    (h : Position.run here opening = (.ok (), some ⟨w, c⟩)) :
    c = 1 ∧ ∃ left, w.Collecting left types name direction optional [] := by
  cases hopening with
  | @fromRoot first given root rootOptional hfirst optional =>
    obtain ⟨there, hstep, h⟩ := Position.step_of_run_cons h
    cases there with
    | none => cases h
    | some p =>
      have hsound : p.walk.Sound :=
        Walk.sound_of_starting (Option.isSome_iff_exists.mpr ⟨_, hfirst⟩)
          hstep
      obtain ⟨log, hexec⟩ := Position.exec_of_starting hfirst hstep
      obtain ⟨hrelationships, hc, left, hcontexts⟩ :=
        Walking.contexts_of_startAtNode Store.indexed_empty hexec
      obtain ⟨d, v, hmove, h⟩ := Position.run_cons_eq_ok rfl h
      cases h
      rw [hc] at hmove
      obtain ⟨hone, hcollecting⟩ :=
        Walk.collecting_of_addRelationship hsound hrelationships
          hcontexts hmove
      exact ⟨hone, left, hcollecting⟩
  | @atOnce first _ hfirst =>
    obtain ⟨there, hstep, h⟩ := Position.step_of_run_cons h
    cases h
    have hsound : w.Sound :=
      Walk.sound_of_starting (Option.isSome_iff_exists.mpr ⟨_, hfirst⟩) hstep
    obtain ⟨log, hexec⟩ := Position.exec_of_starting hfirst hstep
    obtain ⟨hrelationships, hc, left, hcontexts⟩ :=
      Walking.contexts_of_startOnRelationship Store.indexed_empty hexec
    exact ⟨hc, left,
      Walk.collecting_of_contexts hsound hrelationships hcontexts⟩

/-- **A new tree with one relationship declares its fan.**  The relationship
is opened, nodes are collected on it, and one ascends from it.  If the nodes
and the names of the edges are clear, the edges are the only relationships
there are, in the order of the nodes, from the root to each of them, with
the direction and the intent the relationship was opened with.  The first
one has the types that are read for it, all others the types as they were
given, and these are the same if the name stands in a token without a colon. -/
theorem Walk.fan_of_new_tree {here : Option Position}
    {opening : List (WalkStep Assignment)} {types : LabelArgument}
    {name : Option String} {direction : Option Direction} {optional : Bool}
    {start w v : Walk} {c : ContextId} {collecting : List Leg}
    (hopening : Opens types name direction optional opening)
    (hstart : Position.run here opening = (.ok (), some ⟨start, c⟩))
    (hcollects : ∀ leg ∈ collecting, leg.Collects c)
    (hbefore : start.along collecting = .ok w)
    (hascent : w.along [⟨c, .ascend⟩] = .ok v) :
    ∃ left rights, w.nodeName? 0 = some left ∧
    (∀ k : Nat, w.nodeName? (k + 2) = rights[k]?) ∧
      rights.length = collecting.countP Leg.addsNode ∧
      (rights ≠ [] → Clear (fan left types name w.registry.names rights) →
        let base := relationshipName types name w.registry.names
        let edges :=
          rights.mapIdx (fanRelationship left base types name direction)
        v.registry.store.relationships =
          edges.map (fun r => (r, .matching optional)) ∧
          (v.registry.store.chunk .matched).filterMap Element.relationship? =
            edges ∧
          (':' ∉ (nameToken types name).toList →
            ∀ r ∈ edges, r.types = typesGiven types)) := by
  obtain ⟨rfl, left, hopened⟩ := hopening.collecting hstart
  obtain ⟨rights, hrights, hcount⟩ := hopened.along hcollects hbefore
  rw [List.nil_append] at hrights
  refine ⟨left, rights, hrights.root, hrights.collected, hcount, ?_⟩
  intro hne hclear base edges
  obtain ⟨there, u, hmove, hrest⟩ := along_cons_eq_ok hascent
  cases hrest
  have hdeclared : v.registry.store.relationships = edges.map fun r =>
      (r, .matching optional) :=
    hrights.ascend hne hclear hmove
  refine ⟨hdeclared, Store.relationships_chunk_of_intent hdeclared ?_, ?_⟩
  · cases optional <;> rfl
  · intro hcolon r hr
    obtain ⟨k, hk, rfl⟩ := List.mem_mapIdx.mp hr
    exact fanTypes_eq_of_noColon hcolon k

/-- A relationship is opened from a person.  Its name stands in front of its
type. -/
def acquainting : List (WalkStep Assignment) :=
  [.startAtNode (.one "Person") (some "p") false,
    .addRelationship (.one "r:KNOWS") none none false]

/-- Two others are collected on it. -/
def gathering : List Leg :=
  [⟨1, .addChildNode (.one "Person") (some "a") false⟩, ⟨2, .ascend⟩,
    ⟨1, .addChildNode (.one "Person") (some "b") false⟩, ⟨3, .ascend⟩]

/-- The first edge has the type that stands behind its name, the second one
has the name as well. -/
theorem Walk.fan_of_new_tree_of_gathering :
    let start := (Position.run none acquainting).2.getD default
    let w := start.walk.reached gathering
    let v := w.reached [⟨1, .ascend⟩]
    v.registry.store.relationships.map
        (fun known => (known.1.name, known.1.left, known.1.right,
          known.1.types, known.2)) =
      [("r", "p", "a", ["KNOWS"], .toMatch),
        ("r1", "p", "b", ["r:KNOWS"], .toMatch)] := by
  intro start w v
  have hstart : Position.run none acquainting =
      (.ok (), some ⟨start.walk, start.context⟩) :=
    Position.run_eq_ok (by decide +kernel) (by decide +kernel)
  have hopening : Opens (.one "r:KNOWS") none none (false || false)
      acquainting := .fromRoot rfl false
  have hcollects : ∀ leg ∈ gathering, leg.Collects 1 := by
    simp only [gathering, List.forall_mem_cons]
    exact ⟨.node _ _ _, .back (by decide), .node _ _ _, .back (by decide),
      List.forall_mem_nil _⟩
  have hw : start.walk.along gathering = .ok w :=
    along_eq_ok (by decide +kernel)
  have hv : w.along [⟨1, .ascend⟩] = .ok v := along_eq_ok (by decide +kernel)
  have hcontext : start.context = 1 := by decide +kernel
  rw [hcontext] at hstart
  obtain ⟨left, rights, hroot, hcollected, hcount, hfan⟩ :=
    fan_of_new_tree hopening hstart hcollects hw hv
  obtain ⟨a, b, rfl⟩ := List.length_eq_two.mp hcount
  have hperson : w.nodeName? 0 = some "p" := by decide +kernel
  have hfirst : w.nodeName? 2 = some "a" := by decide +kernel
  have hsecond : w.nodeName? 3 = some "b" := by decide +kernel
  obtain rfl : "p" = left := Option.some.inj (hperson.symm.trans hroot)
  obtain rfl : "a" = a := Option.some.inj (hfirst.symm.trans (hcollected 0))
  obtain rfl : "b" = b := Option.some.inj (hsecond.symm.trans (hcollected 1))
  obtain ⟨hrelationships, -⟩ :=
    hfan (List.cons_ne_nil _ _) (by decide +kernel)
  rw [hrelationships]
  decide +kernel

end GraphQuery.Pattern

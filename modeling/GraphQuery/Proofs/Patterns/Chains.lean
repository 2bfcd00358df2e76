import GraphQuery.Proofs.Patterns.Fans
import GraphQuery.Proofs.Patterns.Terrain

/-!
# Chains

A chain is what relationships of a new tree come to that are opened one on
the other.  An anonymous node is registered between any two of them on the
way forth, and they are registered themselves on the way back, so the last
one comes first.  Together they are a path that leaves the root and ends at
an anonymous node that is not registered, unless there is a colon in the
name of the root: `Walk.chain_of_new_tree`.  Then the name is taken apart
again where the first relationship begins, and no relationship leaves the
root.
-/

namespace GraphQuery.Pattern

open GraphQuery.Computation

/-- A type that is taken as it is: it stands for no name, and it marks no
direction. -/
structure Bare (type : String) : Prop extends Plain type where
  unmarked : '<' ∉ type.toList ∧ '>' ∉ type.toList

namespace Bare

variable {type : String}

/-- A type is bare if none of its characters is blank, a colon or a marker. -/
theorem of_forall (hne : type.toList ≠ [])
    (h : ∀ c ∈ type.toList, Text.isBlank c = false ∧ c ∉ [':', '<', '>']) :
    Bare type where
  ne_nil := hne
  tidy := ⟨fun c hc => (h c (List.mem_of_mem_head? hc)).1,
    fun c hc => (h c (List.mem_of_mem_getLast? hc)).1⟩
  noColon hmem := (h ':' hmem).2 (by decide)
  unmarked := ⟨fun hmem => (h '<' hmem).2 (by decide), fun hmem =>
    (h '>' hmem).2 (by decide)⟩

/-- A bare type is a label as it is. -/
theorem labels_eq (h : Bare type) :
    (LabelArgument.one type).labels = [type] :=
  labels_of_proper fun _ hlabel => List.mem_singleton.mp hlabel ▸ h.toProper

/-- A bare type marks no direction. -/
theorem extractDirection_eq (h : Bare type) :
    extractDirection [type] = ([type], none) := by
  obtain ⟨hless, hgreater⟩ := h.unmarked
  have hleading : (type.toList.head? == some '<') = false := by
    rw [beq_eq_false_iff_ne]
    exact fun hhead => hless (List.mem_of_mem_head? hhead)
  have hbehind : ((Text.trimLeft type.toList).head? == some '<') = false := by
    rw [beq_eq_false_iff_ne]
    exact fun hhead =>
      hless ((List.dropWhile_suffix _).subset (List.mem_of_mem_head? hhead))
  have htrailing : (type.toList.getLast? == some '>') = false := by
    rw [beq_eq_false_iff_ne]
    exact fun hlast => hgreater (List.mem_of_mem_getLast? hlast)
  have hdirection : (MarkedToken.ofToken type.toList).direction = none := by
    simp only [MarkedToken.ofToken, MarkedToken.direction, h.tidy.trim_eq,
      Text.cutAtFirst_eq_none_iff.mpr h.noColon, hleading, hbehind, htrailing]
    rfl
  rw [extractDirection]
  dsimp only
  rw [hdirection]

/-- A relationship with one type goes by the name made of it. -/
theorem decode_eq (h : Bare type) (names : NameSequence) :
    decode .relationship (.many [type]) none names =
      ((defaultRelationshipName type, [type]), names) := by
  have hlabels : (LabelArgument.many [type]).labels = [type] :=
    labels_of_proper fun _ hlabel => List.mem_singleton.mp hlabel ▸ h.toProper
  have hexplicit : explicitName (LabelArgument.many [type]).labels none =
      ("", [type]) := by
    rw [hlabels]
    exact Explicit.eq (.label rfl h.embedded_eq)
  exact decode_of_label hexplicit .relationship names

end Bare

namespace Registration

variable {r : Registry} {intent : Intent}

/-- An end that declares nothing just gets a name. -/
theorem exec_endpoint_of_undeclared {given : Option String}
    (h : (endDeclarations given intent r.names).declared = []) :
    exec (endpoint given intent) r =
      (.ok (endDeclarations given intent r.names).name,
        { r with names := (endDeclarations given intent r.names).names
          }) := by
  unfold endpoint
  unfold endDeclarations at h ⊢
  cases hgiven : given.filter fun text => !Text.isBlankText text with
  | none => rfl
  | some text =>
    rw [hgiven] at h
    dsimp only at h ⊢
    rw [exec_bind, exec_resolve]
    dsimp only
    cases hlabels : (decode .node .none (some text) r.names).1.2 with
    | nil => rfl
    | cons label rest =>
      rw [hlabels] at h
      cases h

/-- A node of a new name. -/
theorem exec_node_of_new {given : LabelArgument} {name : Option String}
    {own : String} {labels : List String} {names : NameSequence}
    (hdecode : decode .node given name r.names = ((own, labels), names))
    (hnew : r.store.find? own = none) :
    ∃ log, exec (node given name intent) r =
      (.ok (.node { name := own, labels }),
        ⟨r.store.pushNamed own ⟨.node { name := own, labels }, intent⟩,
          names, log⟩) := by
  rw [node, exec_bind, exec_resolve, hdecode]
  exact exec_declare_of_ok (fun s => s.declareNode own labels [] intent)
    (Store.declareNode_of_new hnew labels [] intent)

/-- A relationship of a new name, between ends that declare nothing. -/
theorem exec_relationship_of_new {left type : String} {right : Option String}
    (hleft : Plain left) (htype : Bare type)
    (hright : (endDeclarations right intent r.names).declared = [])
    (hnew : r.store.find? (defaultRelationshipName type) = none) :
    let rightEnd := endDeclarations right intent r.names
    let new : Relationship :=
      { name := defaultRelationshipName type, left, right := rightEnd.name,
        types := [type] }
    ∃ log, exec (relationship (some left) right (.one type) none none intent)
      r =
      (.ok (.relationship new),
        ⟨r.store.pushNamed new.name ⟨.relationship new, intent⟩,
          rightEnd.names, log⟩) := by
  intro rightEnd new
  have hdeclare : r.store.declareRelationship new intent =
      .ok (.relationship new,
        r.store.pushNamed new.name ⟨.relationship new, intent⟩) :=
    Store.declareRelationship_of_new hnew intent
  have hleftEnd := endDeclarations_of_plain hleft intent r.names
  have hleftExec : exec (endpoint (some left) intent) r = (.ok left, r) := by
    rw [exec_endpoint_of_undeclared (by rw [hleftEnd]), hleftEnd]
  unfold relationship
  rw [htype.labels_eq, htype.extractDirection_eq]
  dsimp only
  rw [exec_bind, hleftExec]
  dsimp only
  rw [exec_bind, exec_endpoint_of_undeclared hright]
  dsimp only
  rw [exec_bind, exec_resolve, htype.decode_eq]
  exact exec_declare_of_ok (fun s => s.declareRelationship new intent)
    hdeclare

end Registration

/-- Where an ascent from a relationship leads that was opened at a context. -/
def Context.landing (here : Context) (c : ContextId) : ContextId :=
  match here.place with
  | .node (some parent) _ true => parent
  | _ => c

/-- What a walk comes to where a relationship is opened on another one: an
anonymous node is registered between the two and collected on the old one. -/
structure Walk.Onward (w v : Walk) (c : ContextId) (here : Context)
    (type : String) : Prop where
  store : v.registry.store =
    w.registry.store.pushNamed w.registry.names.draw.1
    ⟨.node { name := w.registry.names.draw.1 }, .matching here.optional⟩
  names : v.registry.names = w.registry.names.draw.2
  size : v.contexts.size = w.contexts.size + 2
  contexts : ∀ i,
    v.contexts[i]? = if i = w.contexts.size + 1 then some
      { place := .relationship w.contexts.size (.one type) none none,
        optional := here.optional }
    else if i = w.contexts.size then some
      { place := .node (some c) w.registry.names.draw.1 true,
        optional := here.optional }
    else if i = c then some { here with children := here.children ++
      [w.registry.names.draw.1] }
    else w.contexts[i]?

namespace Walk.Onward

variable {w v : Walk} {c : ContextId} {here : Context} {type : String}

/-- The new relationship is the last of the contexts. -/
theorem opened (h : w.Onward v c here type) :
    v.contexts[w.contexts.size + 1]? = some
    { place := .relationship w.contexts.size (.one type) none none,
      optional := here.optional } := by
  rw [h.contexts, if_pos rfl]

/-- The node in between comes before it. -/
theorem between (h : w.Onward v c here type) :
    v.contexts[w.contexts.size]? = some
    { place := .node (some c) w.registry.names.draw.1 true,
      optional := here.optional } := by
  rw [h.contexts, if_neg (by omega), if_pos rfl]

/-- The node in between is noted where the walk was. -/
theorem collected (h : w.Onward v c here type)
    (hhere : w.contexts[c]? = some here) :
    v.contexts[c]? =
      some { here with children := here.children ++
        [w.registry.names.draw.1] } := by
  have hlt := (Array.getElem?_eq_some_iff.mp hhere).1
  rw [h.contexts, if_neg (by omega), if_neg (by omega), if_pos rfl]

/-- All other contexts are as they were. -/
theorem kept (h : w.Onward v c here type) {i : Nat}
    (hi : i < w.contexts.size) (hic : i ≠ c) :
    v.contexts[i]? = w.contexts[i]? := by
  rw [h.contexts, if_neg (by omega), if_neg (by omega), if_neg hic]

end Walk.Onward

namespace Walking

variable {w : Walk} {optional : Bool}

/-- A node of a new name is registered under it. -/
theorem exec_matchNode_of_new {given : LabelArgument} {name : Option String}
    {own : String} {labels : List String} {names : NameSequence}
    (optional : Bool) (hdecode : decode .node given name w.registry.names =
      ((own, labels), names)) (hnew : w.registry.store.find? own = none) :
    ∃ log, exec (matchNode given name optional) w =
      (.ok own, { w with registry :=
      ⟨w.registry.store.pushNamed own ⟨.node { name := own, labels },
        .matching optional⟩, names,
        log⟩ }) := by
  obtain ⟨log, hnode⟩ := Registration.exec_node_of_new hdecode hnew
  refine ⟨log, ?_⟩
  rw [matchNode, exec_bind, exec_register, hnode]
  rfl

/-- From a relationship one goes on by an anonymous node in between, if its
name is new. -/
theorem exec_addRelationship_of_new {c origin : ContextId} {here : Context}
    {types : LabelArgument} {name : Option String}
    {direction : Option Direction} (type : String)
    (hhere : w.contexts[c]? = some here)
    (hplace : here.place = .relationship origin types name direction)
    (hnew : w.registry.store.find? w.registry.names.draw.1 = none) :
    ∃ v, exec (addRelationship c (.one type) none none false) w =
      (.ok (w.contexts.size + 1), v) ∧
      w.Onward v c here type := by
  have hlt := (Array.getElem?_eq_some_iff.mp hhere).1
  have hdecode : decode .node .none none w.registry.names =
      ((w.registry.names.draw.1, []), w.registry.names.draw.2) := rfl
  obtain ⟨log, hmatch⟩ := exec_matchNode_of_new here.optional hdecode hnew
  rw [addRelationship, exec_bind, exec_context, hhere]
  dsimp only
  rw [hplace, Bool.or_false]
  dsimp only
  rw [exec_bind, hmatch]
  dsimp only
  rw [exec_bind, exec_enter]
  dsimp only
  rw [exec_bind, addChild, exec_modify]
  dsimp only
  rw [exec_enter, Array.size_modify, Array.size_push]
  refine ⟨_, rfl, rfl, rfl, ?_, fun i => ?_⟩
  · rw [Array.size_push, Array.size_modify, Array.size_push]
  · dsimp only
    rw [Array.getElem?_push, Array.size_modify, Array.size_push,
      Array.getElem?_modify,
      Array.getElem?_push]
    by_cases hi : i = c
    · rw [hi, if_neg (by omega), if_pos rfl, if_neg (by omega),
        if_neg (by omega),
        if_neg (by omega), if_pos rfl, hhere]
      rfl
    · rw [if_neg (Ne.symm hi), if_neg hi]

/-- A relationship of one bare type and a new name is registered between its
ends. -/
theorem exec_matchRelationship_of_new {left type : String}
    {right : Option String} (hleft : Plain left) (htype : Bare type)
    (hright : (endDeclarations right (.matching optional)
      w.registry.names).declared = [])
    (hnew : w.registry.store.find? (defaultRelationshipName type) = none) :
    let rightEnd :=
      endDeclarations right (.matching optional) w.registry.names
    let new : Relationship :=
      { name := defaultRelationshipName type, left, right := rightEnd.name,
        types := [type] }
    ∃ log, exec (matchRelationship left right (.one type) none none optional)
      w =
      (.ok new.name, { w with registry := ⟨w.registry.store.pushNamed new.name
        ⟨.relationship new, .matching optional⟩, rightEnd.names, log⟩ }) := by
  intro rightEnd new
  obtain ⟨log, hrelationship⟩ :=
    Registration.exec_relationship_of_new hleft htype hright hnew
  refine ⟨log, ?_⟩
  rw [matchRelationship, exec_bind, exec_register, hrelationship]
  rfl

/-- A relationship with at most one node collected on it is registered once. -/
theorem exec_ascend_of_new {d origin : ContextId} {source : Context}
    {left type : String} (right : Option String)
    (hhere : w.contexts[d]? = some
      { place := .relationship origin (.one type) none none, optional,
        children := right.toList })
    (hsource : w.contexts[origin]? = some source)
    (hname : source.nodeName? = some left) (hleft : Plain left)
    (htype : Bare type)
    (hright : (endDeclarations right (.matching optional)
      w.registry.names).declared = [])
    (hnew : w.registry.store.find? (defaultRelationshipName type) = none) :
    let rightEnd :=
      endDeclarations right (.matching optional) w.registry.names
    let new : Relationship :=
      { name := defaultRelationshipName type, left, right := rightEnd.name,
        types := [type] }
    ∃ v, exec (ascend d) w = (.ok (source.landing origin), v) ∧
    v.contexts = w.contexts ∧
      v.registry.store =
        w.registry.store.pushNamed new.name ⟨.relationship new,
          .matching optional⟩ := by
  intro rightEnd new
  obtain ⟨log, hmatch⟩ :=
    exec_matchRelationship_of_new (w := w) hleft htype hright hnew
  refine ⟨{ w with registry := ⟨_, rightEnd.names, log⟩ }, ?_, rfl, rfl⟩
  have hleave : ∀ v : Walk, v.contexts = w.contexts →
      exec (match source.place with
        | .node (some _) _ true => leave origin
        | _ => return origin : Walking ContextId) v =
            (.ok (source.landing origin), v) := by
    intro v hcontexts
    rcases source with ⟨⟨_ | parent, own, _ | _⟩ | _, _, _⟩
    all_goals try rfl
    rw [leave, exec_bind, exec_context, hcontexts, hsource]
    rfl
  rw [ascend, exec_bind, exec_context, hhere]
  dsimp only
  rw [exec_bind, exec_context, hsource]
  dsimp only
  rw [Context.name?_of_nodeName? hname, Option.getD_some]
  cases right with
  | none =>
    rw [Option.toList_none]
    dsimp only
    rw [exec_bind, hmatch]
    exact hleave _ rfl
  | some node =>
    rw [Option.toList_some]
    dsimp only
    rw [exec_bind, hmatch]
    dsimp only
    rw [matchFan, exec_bind, exec_pure]
    exact hleave _ rfl

end Walking

/-! ## What a chain comes to -/

/-- The stations of a chain: where it begins, and the anonymous nodes behind
that. -/
def station (first : String) (names : NameSequence) : Nat → String
  | 0 => first
  | i + 1 => names.numbered (names.drawn + i)

/-- The relationship of a chain that leads from one station to the next. -/
def hop (first : String) (names : NameSequence) (i : Nat) (type : String) :
    Relationship :=
  { name := defaultRelationshipName type
    left := station first names i
    right := station first names (i + 1)
    types := [type] }

/-- The nodes between the relationships of a chain. -/
def between (names : NameSequence) (hops : Nat) : List Node :=
  (List.range' names.drawn (hops - 1)).map fun n =>
    { name := names.numbered n }

/-- What a chain declares: the nodes in between on the way forth, the
relationships on the way back. -/
def chainEntries (first : String) (names : NameSequence)
    (types : List String) (intent : Intent) :
    List Entry :=
  (between names types.length).map (fun n => ⟨.node n, intent⟩) ++
    (types.mapIdx (hop first names)).reverse.map fun r =>
      ⟨.relationship r, intent⟩

/-- Behind its first relationship a chain is a chain again. -/
theorem hop_succ (first : String) (names : NameSequence) (i : Nat)
    (type : String) :
    hop first names (i + 1) type = hop names.draw.1 names.draw.2 i type := by
  have hstation : ∀ i,
      station first names (i + 1) = station names.draw.1 names.draw.2 i := by
    intro i
    cases i with
    | zero => rfl
    | succ i =>
      have hnumber : names.drawn + (i + 1) = names.drawn + 1 + i := by omega
      rw [station, hnumber]
      rfl
  rw [hop, hstation, hstation, hop]

/-- The entries of a chain are the node in between, and the chain from
there. -/
theorem chainEntries_cons (first : String) (names : NameSequence)
    (type next : String) (later : List String) (intent : Intent) :
    chainEntries first names (type :: next :: later) intent =
      ⟨.node { name := names.draw.1 }, intent⟩ ::
        (chainEntries names.draw.1 names.draw.2 (next :: later) intent ++
          [⟨.relationship (hop first names 0 type), intent⟩]) := by
  have hlater : ((next :: later).mapIdx fun i => hop first names (i + 1)) =
      (next :: later).mapIdx (hop names.draw.1 names.draw.2) := by
    congr 1
    funext i type
    exact hop_succ first names i type
  rw [chainEntries, List.mapIdx_cons, hlater, List.reverse_cons,
    List.map_append, ← List.append_assoc]
  rfl

/-- The relationships of a chain are its hops, the last one first. -/
theorem filterMap_relationship?_chainEntries (first : String)
    (names : NameSequence) (types : List String) (intent : Intent) :
    (chainEntries first names types intent).filterMap Entry.relationship? =
      (types.mapIdx (hop first names)).reverse.map fun r => (r, intent) := by
  have hnodes : ∀ nodes : List Node,
      (nodes.map fun n => (⟨.node n, intent⟩ : Entry)).filterMap
        Entry.relationship? = [] := by
    intro nodes
    rw [List.filterMap_eq_nil_iff, List.forall_mem_map]
    exact fun _ _ => rfl
  rw [chainEntries, List.filterMap_append, hnodes, List.nil_append,
    List.filterMap_map]
  exact congrFun List.filterMap_eq_map _

/-- The names a chain is about to give are new to a store, and all
different. -/
structure Fresh (s : Store) (names : NameSequence) (types : List String) :
    Prop where
  indexed : s.Indexed
  stem : Plain names.stem
  bare : ∀ type ∈ types, Bare type
  nodes : ∀ n, names.drawn ≤ n → s.find? (names.numbered n) = none
  relationships : ∀ type ∈ types,
    s.find? (defaultRelationshipName type) = none
  nodup : (types.map defaultRelationshipName).Nodup
  apart : ∀ type ∈ types, ∀ n, defaultRelationshipName type ≠ names.numbered n

/-- A node in between takes its own name only. -/
theorem Fresh.find?_draw {s : Store} {names : NameSequence}
    {types : List String} {name : String} (h : Fresh s names types)
    (intent : Intent) (hne : names.draw.1 ≠ name)
    (hname : s.find? name = none) :
    (s.pushNamed names.draw.1 ⟨.node { name := names.draw.1 }, intent⟩).find?
      name = none := by
  have hmakes : (Declaration.node names.draw.1 [] [] intent).Makes s
      (s.pushNamed names.draw.1 ⟨.node { name := names.draw.1 }, intent⟩) :=
    .added rfl (h.nodes names.drawn (Nat.le_refl _)) rfl
  rw [h.indexed.find?_of_makes_of_ne hmakes fun heq =>
    hne (Option.some.inj heq), hname]

/-- A chain is still new once the node in between is named. -/
theorem Fresh.draw {s : Store} {names : NameSequence} {type : String}
    {types : List String} (h : Fresh s names (type :: types))
    (intent : Intent) :
    Fresh (s.pushNamed names.draw.1 ⟨.node { name := names.draw.1 }, intent⟩)
      names.draw.2 types where
  indexed := h.indexed.pushNamed rfl (h.nodes names.drawn (Nat.le_refl _))
  stem := h.stem
  bare type hmem := h.bare type (.tail _ hmem)
  nodes n hn := by
    have hle : names.drawn + 1 ≤ n := hn
    refine h.find?_draw intent (fun heq => ?_) (h.nodes n (by omega))
    have hsame : names.drawn = n := names.numbered_injective heq
    omega
  relationships type hmem :=
    h.find?_draw intent (h.apart type (.tail _ hmem) names.drawn).symm
      (h.relationships type (.tail _ hmem))
  nodup := h.nodup.of_cons
  apart type hmem := h.apart type (.tail _ hmem)

/-- What a chain declares has an anonymous name or one made of a type. -/
theorem name?_of_mem_chainEntries {first : String} {names : NameSequence}
    {types : List String} {intent : Intent} {entry : Entry}
    (h : entry ∈ chainEntries first names types intent) :
    (∃ n < names.drawn + (types.length - 1),
      entry.element.name? = some (names.numbered n)) ∨
      ∃ type ∈ types,
        entry.element.name? = some (defaultRelationshipName type) := by
  rcases List.mem_append.mp h with hnode | hrelationship
  · obtain ⟨node, hbetween, rfl⟩ := List.mem_map.mp hnode
    obtain ⟨n, hn, rfl⟩ := List.mem_map.mp hbetween
    exact .inl ⟨n, (List.mem_range'_1.mp hn).2, rfl⟩
  · obtain ⟨r, hr, rfl⟩ := List.mem_map.mp hrelationship
    obtain ⟨i, hi, rfl⟩ := List.mem_mapIdx.mp (List.mem_reverse.mp hr)
    exact .inr ⟨types[i], List.getElem_mem hi, rfl⟩

/-- A chain leaves other names alone. -/
theorem find?_of_chain {s t : Store} {names : NameSequence}
    {types : List String} {first name : String} {intent : Intent}
    (hs : s.Indexed) (ht : t.Indexed)
    (hentries : t.entries = s.entries ++ chainEntries first
      names types intent)
    (hnodes : ∀ n < names.drawn + (types.length - 1), name ≠ names.numbered n)
    (htypes : ∀ type ∈ types, name ≠ defaultRelationshipName type)
    (hname : s.find? name = none) : t.find? name = none := by
  rw [hs.find?_eq_none_iff] at hname
  rw [ht.find?_eq_none_iff, hentries]
  intro entry hentry heq
  rcases List.mem_append.mp hentry with hold | hnew
  · exact hname entry hold heq
  · rcases name?_of_mem_chainEntries hnew with ⟨n, hn, hnumbered⟩ |
        ⟨type, htype, hmade⟩
    · exact hnodes n hn (Option.some.inj (heq.symm.trans hnumbered))
    · exact htypes type htype (Option.some.inj (heq.symm.trans hmade))

/-! ## Walking along a chain -/

namespace Position

/-- A step that does not fail. -/
theorem run_cons_of_move {w v : Walk} {c d : ContextId}
    (taken : WalkStep Assignment) (hstarting : taken.starting? = none)
    (h : exec (taken.move c) w = (.ok d, v))
    (rest : List (WalkStep Assignment)) :
    run (some ⟨w, c⟩) (taken :: rest) = run (some ⟨v, d⟩) rest := by
  have hrun : (taken.move c).run.run w = (.ok d, v) := h
  simp only [run, step, hstarting, hrun]

/-- Steps can be taken in two goes. -/
theorem run_append {here there : Option Position}
    {steps : List (WalkStep Assignment)}
    (h : run here steps = (.ok (), there))
    (rest : List (WalkStep Assignment)) :
    run here (steps ++ rest) = run there rest := by
  induction steps generalizing here with
  | nil =>
    cases h
    rfl
  | cons step later ih =>
    rw [List.cons_append, run]
    rw [run] at h
    rcases hstep : Position.step here step with ⟨fault | ⟨⟩, next⟩
    · rw [hstep] at h
      cases h
    · rw [hstep] at h
      exact ih h

end Position

/-- The step that opens the next relationship of a chain. -/
def opening (type : String) : WalkStep Assignment :=
  .addRelationship (.one type) none none false

/-- Relationships are opened, each on the one before, and one ascends from
all of them. -/
def chainSteps (types : List String) : List (WalkStep Assignment) :=
  types.map opening ++ List.replicate types.length .ascend

/-- The steps of a chain go down once, along the rest of the chain, and up
once. -/
theorem chainSteps_cons (type : String) (later : List String) :
    chainSteps (type :: later) = opening type ::
      (chainSteps later ++ [.ascend]) := by
  rw [chainSteps, chainSteps, List.length_cons, List.replicate_succ',
    List.map_cons, List.cons_append,
    List.append_assoc]

/-- A chain has been declared behind what was in the store, and the contexts
there were are still the same except for the one it was opened on. -/
structure Walk.Chained (w v : Walk) (d : ContextId) (left : String)
    (types : List String) (optional : Bool) : Prop where
  indexed : v.registry.store.Indexed
  entries : v.registry.store.entries = w.registry.store.entries ++
    chainEntries left w.registry.names types (.matching optional)
  kept : ∀ i, i < w.contexts.size → i ≠ d → v.contexts[i]? = w.contexts[i]?

section

variable {w u v : Walk} {c d origin : ContextId} {here source : Context}
    {left type next : String}
variable {types later : List String} {optional : Bool}

/-- Behind an opened relationship the names are as new as they were. -/
theorem Walk.Onward.fresh (h : w.Onward u d here next)
    (hfresh : Fresh w.registry.store w.registry.names (type :: types)) :
    Fresh u.registry.store u.registry.names types := by
  rw [h.store, h.names]
  exact hfresh.draw _

/-- The relationship is registered last, and by then nothing has taken its
name. -/
theorem Walk.Chained.find?_eq_none
    (hfresh : Fresh w.registry.store w.registry.names (type :: next :: later))
    (hopened : w.Onward u d here next)
    (h : u.Chained v c left (next :: later) optional) :
    v.registry.store.find? (defaultRelationshipName type) = none := by
  have hinner := hopened.fresh hfresh
  have hapart := hfresh.apart type (.head _)
  refine find?_of_chain hinner.indexed h.indexed h.entries (fun n _ =>
    ?_) (fun other hother heq => ?_) ?_
  · rw [hopened.names]
    exact hapart n
  · exact (List.nodup_cons.mp hfresh.nodup).1
      (heq ▸ List.mem_map_of_mem hother)
  · rw [hopened.store]
    exact hfresh.find?_draw _ (hapart _).symm
      (hfresh.relationships type (.head _))

/-- **A chain closes**: where it has been declared behind a relationship
that was opened on another one, an ascent from the other one declares it
with that in front.  What was opened on the way is above the contexts there
were. -/
theorem Walk.Chained.close
    (hfresh : Fresh w.registry.store w.registry.names (type :: next :: later))
    (hhere : w.contexts[d]? =
      some { place := .relationship origin (.one type) none none, optional })
    (hsource : w.contexts[origin]? = some source)
    (hname : source.nodeName? = some left)
    (hleft : Plain left)
    (hopened : w.Onward u d
      { place := .relationship origin (.one type) none none, optional } next)
    (h : u.Chained v (w.contexts.size + 1) w.registry.names.draw.1
      (next :: later) optional) :
    ∃ t, exec (Walking.ascend d) v = (.ok (source.landing origin), t) ∧
      w.Chained t d left (type :: next :: later) optional := by
  have hlt := (Array.getElem?_eq_some_iff.mp hhere).1
  have horigin := (Array.getElem?_eq_some_iff.mp hsource).1
  have hbetween : Plain w.registry.names.draw.1 := hfresh.stem.append_number _
  have hnew := h.find?_eq_none hfresh hopened
  have hsize := hopened.size
  have hkept : ∀ i, i < w.contexts.size → i ≠ d →
      v.contexts[i]? = w.contexts[i]? := by
    intro i hi hid
    rw [h.kept i (by omega) (by omega), hopened.kept hi hid]
  have hcollected : v.contexts[d]? = some
      { place := .relationship origin (.one type) none none
        optional
        children := (some w.registry.names.draw.1).toList } := by
    rw [h.kept d (by omega) (by omega), hopened.collected hhere]
    rfl
  have hne : origin ≠ d := by
    rintro rfl
    rw [hsource] at hhere
    cases hhere
    cases hname
  have hright :=
    endDeclarations_of_plain hbetween (.matching optional) v.registry.names
  obtain ⟨t, hascend, hsame, hlast⟩ := Walking.exec_ascend_of_new _ hcollected
    ((hkept origin horigin hne).trans hsource) hname hleft
      (hfresh.bare type (.head _))
    (congrArg EndDeclarations.declared hright) hnew
  rw [hright] at hlast
  refine ⟨t, hascend, ?_, ?_, fun i hi hid => ?_⟩
  · rw [hlast]
    exact h.indexed.pushNamed rfl hnew
  · have hforth : u.registry.store.entries = w.registry.store.entries ++
        [⟨.node { name := w.registry.names.draw.1 },
          .matching optional⟩] := by
      rw [hopened.store]
      rfl
    rw [hlast, Store.pushNamed, h.entries, hforth, hopened.names,
      chainEntries_cons]
    simp only [List.append_assoc]
    rfl
  · rw [hsame, hkept i hi hid]

/-- **What is done on a relationship that was just opened**, if the chain
goes on with further types: one ascends to where it was opened, and the
chain has been declared. -/
theorem Walk.chain_of_open
    (hfresh : Fresh w.registry.store w.registry.names (type :: later))
    (hhere : w.contexts[d]? =
      some { place := .relationship origin (.one type) none none, optional })
    (hsource : w.contexts[origin]? = some source)
    (hname : source.nodeName? = some left)
    (hleft : Plain left) :
    ∃ v, Position.run (some ⟨w, d⟩) (chainSteps later ++ [.ascend]) =
        (.ok (), some ⟨v, source.landing origin⟩) ∧
      w.Chained v d left (type :: later) optional := by
  induction later generalizing w d origin source left type with
  | nil =>
    have hnew := hfresh.relationships type (.head _)
    obtain ⟨v, hascend, hcontexts, hstore⟩ :=
      Walking.exec_ascend_of_new none hhere hsource
      hname hleft (hfresh.bare type (.head _)) rfl hnew
    refine ⟨v, Position.run_cons_of_move .ascend rfl hascend [], ?_, ?_,
      fun _ _ _ => by rw [hcontexts]⟩
    · rw [hstore]
      exact hfresh.indexed.pushNamed rfl hnew
    · rw [hstore]
      rfl
  | cons next later ih =>
    obtain ⟨u, hopen, hopened⟩ :=
      Walking.exec_addRelationship_of_new next hhere rfl
        (hfresh.nodes _ (Nat.le_refl _))
    have hbetween : Plain w.registry.names.draw.1 :=
      hfresh.stem.append_number _
    obtain ⟨v, hrun, hchained⟩ :=
      ih (hopened.fresh hfresh) hopened.opened hopened.between rfl hbetween
    obtain ⟨t, hascend, hclosed⟩ :=
      hchained.close hfresh hhere hsource hname hleft hopened
    refine ⟨t, ?_, hclosed⟩
    rw [chainSteps_cons, List.cons_append,
      Position.run_cons_of_move (opening next) rfl hopen,
      Position.run_append hrun]
    exact Position.run_cons_of_move .ascend rfl hascend []

end

/-! ## The ends of relationships are plain -/

/-- An end goes by a plain name, whatever it was given. -/
theorem plain_of_endDeclarations (given : Option String) (intent : Intent)
    {names : NameSequence} (hstem : Plain names.stem) :
    Plain (endDeclarations given intent names).name := by
  unfold endDeclarations
  cases given.filter fun text => !Text.isBlankText text with
  | none => exact hstem.append_number names.drawn
  | some text =>
    dsimp only
    exact plain_decode text hstem

/-- A relationship that is declared leaves from a plain name. -/
theorem plain_of_declaration {left right name : Option String}
    {given : LabelArgument} {direction : Option Direction} {intent : Intent}
    {properties : List Assignment} {names : NameSequence} {d : Declaration}
    {own : String} {ends : String × String} (hstem : Plain names.stem)
    (hd : d ∈ relationshipDeclarations left right given name direction intent
      properties names) (hends : d.ends? own = some ends) : Plain ends.1 := by
  have hend : ∀ {given intent names}, d ∉
      (endDeclarations given intent names).declared := by
    intro given intent names hmem
    obtain ⟨_, _, rfl, -⟩ := labelled_of_mem_endDeclarations hmem
    cases hends
  rcases List.mem_append.mp hd with hboth | hown
  · exact absurd (List.mem_append.mp hboth) (not_or_intro hend hend)
  · rw [List.mem_singleton.mp hown, Declaration.ends?] at hends
    split at hends
    · cases hends
      exact plain_of_endDeclarations left intent hstem
    · cases hends

/-- A relationship is declared to leave from a plain name. -/
theorem StoreCall.plain_of_declarations {call : StoreCall Assignment}
    {names : NameSequence} {d : Declaration} {own : String}
    {ends : String × String} (hstem : Plain names.stem)
    (hd : d ∈ call.declarations names) (hends : d.ends? own = some ends) :
    Plain ends.1 := by
  cases call with
  | matchRelationship | writeRelationship =>
    exact plain_of_declaration hstem hd hends
  | matchNode | writeNode | matchRaw | writeRaw | assign =>
    rw [List.mem_singleton.mp hd] at hends
    cases hends
  | get | intentOf | chunk | size => cases hd

/-- A registry whose relationships leave from plain names. -/
structure Registry.Plainly (r : Registry) : Prop where
  indexed : r.store.Indexed
  stem : Plain r.names.stem
  left : ∀ name ends, r.store.ends? name = some ends → Plain ends.1

namespace Registry.Plainly

variable {r s : Registry}

/-- After a call the relationships in a registry still leave from plain
names. -/
theorem perform (h : r.Plainly) {call : StoreCall Assignment}
    {answer : StoreAnswer} (hcall : exec call.perform r = (.ok answer, s)) :
    s.Plainly := by
  have htraced := Traced.of_perform hcall
  refine ⟨htraced.indexed h.indexed, ?_, fun name ends hends => ?_⟩
  · rw [htraced.names_eq]
    exact h.stem
  · rw [h.indexed.ends?_applyAll
      (StoreCall.applyAll_of_perform hcall)] at hends
    cases hknown : r.store.ends? name with
    | some old =>
      rw [hknown] at hends
      cases hends
      exact h.left name ends hknown
    | none =>
      rw [hknown] at hends
      obtain ⟨d, hd, hdends⟩ := List.exists_of_findSome?_eq_some hends
      exact StoreCall.plain_of_declarations h.stem hd hdends

/-- After calls the relationships in a registry still leave from plain
names. -/
theorem afterCalls (h : r.Plainly) {calls : List (StoreCall Assignment)}
    (hcalls : r.afterCalls calls = (.ok (), s)) : s.Plainly := by
  induction calls generalizing r with
  | nil =>
    cases hcalls
    exact h
  | cons call rest ih =>
    obtain ⟨answer, t, hcall, hrest⟩ := Registry.afterCalls_cons_eq_ok hcalls
    exact ih (h.perform hcall) hrest

/-- Going on with a walk does not change that. -/
theorem run {p q : Position} {steps : List (WalkStep Assignment)}
    (h : p.walk.registry.Plainly)
    (hsteps : ∀ step ∈ steps, step.starting? = none)
    (hrun : Position.run (some p) steps = (.ok (), some q)) :
    q.walk.registry.Plainly := by
  induction steps generalizing p with
  | nil =>
    cases hrun
    exact h
  | cons step rest ih =>
    obtain ⟨d, v, hmove, hrest⟩ :=
      Position.run_cons_eq_ok (hsteps step List.mem_cons_self) hrun
    exact ih (h.afterCalls (Walk.afterCalls_of_move hmove))
      (fun step hmem => hsteps step (List.mem_cons_of_mem _ hmem)) hrest

/-- Every relationship there is leaves from a plain name. -/
theorem left_of_mem (h : r.Plainly) {known : Relationship × Intent}
    (hknown : known ∈ r.store.relationships) : Plain known.1.left := by
  obtain ⟨⟨element, intent⟩, hentry, hsome⟩ := List.mem_filterMap.mp hknown
  cases element with
  | relationship found =>
    cases hsome
    have hfind : r.store.find? found.name = some ⟨.relationship found,
        intent⟩ :=
      h.indexed.find?_eq_some_iff.mpr ⟨hentry, rfl⟩
    refine h.left found.name (found.left, found.right) ?_
    rw [Store.ends?, hfind]
    rfl
  | node | raw | misplaced => cases hsome

end Registry.Plainly

/-! ## The chain of a new tree -/

/-- The store of a new tree, which holds the root and nothing else. -/
def rooted (root : String) (labels : List String) (intent : Intent) : Store :=
  ({} : Store).pushNamed root ⟨.node { name := root, labels }, intent⟩

namespace Store

variable {root : String} {labels : List String} {intent : Intent}

/-- A store of one node is indexed. -/
theorem indexed_rooted : (rooted root labels intent).Indexed :=
  indexed_empty.pushNamed rfl rfl

/-- It has no other name. -/
theorem find?_rooted {name : String} (h : name ≠ root) :
    (rooted root labels intent).find? name = none := by
  rw [indexed_rooted.find?_eq_none_iff]
  intro entry hentry heq
  rw [List.mem_singleton.mp hentry] at heq
  exact h (Option.some.inj heq).symm

/-- It has no relationship. -/
theorem ends?_rooted (name : String) :
    (rooted root labels intent).ends? name = none := by
  rw [ends?, Option.bind_eq_none_iff]
  intro entry hfind
  rw [List.mem_singleton.mp (indexed_rooted.find?_eq_some_iff.mp hfind).1]
  rfl

end Store

/-- The letters of the anonymous names. -/
theorem plain_anon : Plain "anon" := by
  have hletters : ['a', 'n', 'o', 'n'].all (fun c => !Text.isBlank c) =
      true := by decide
  exact ⟨Proper.of_forall (by decide) (by simpa using hletters), by decide⟩

/-- The names of a chain can be given if they are different from each other
and from the root's, and if none of them is anonymous. -/
theorem fresh_rooted {root : String} {types : List String}
    (labels : List String) (intent : Intent)
    (hbare : ∀ type ∈ types, Bare type)
    (hnames : (root :: types.map defaultRelationshipName).Nodup)
    (hanonymous : ∀ own ∈ root :: types.map defaultRelationshipName,
      ∀ n : Nat, own ≠ "anon" ++ toString n) :
    Fresh (rooted root labels intent) {} types where
  indexed := Store.indexed_rooted
  stem := plain_anon
  bare := hbare
  nodes n _ := Store.find?_rooted (hanonymous root (.head _) n).symm
  relationships _ hmem := Store.find?_rooted fun heq =>
    (List.nodup_cons.mp hnames).1 (heq ▸ List.mem_map_of_mem hmem)
  nodup := hnames.of_cons
  apart _ hmem := hanonymous _ (.tail _ (List.mem_map_of_mem hmem))

/-- All its relationships leave from plain names. -/
theorem plainly_rooted {root : String} {labels : List String}
    {intent : Intent} (log : List LogEvent) :
    Registry.Plainly ⟨rooted root labels intent, {}, log⟩ where
  indexed := Store.indexed_rooted
  stem := plain_anon
  left name ends hends := by
    rw [Store.ends?_rooted] at hends
    cases hends

namespace Walk

/-- A new tree. -/
def atRoot (root : String) (labels : List String) (optional : Bool)
    (log : List LogEvent) : Walk :=
  ⟨#[{ place := .node none root false, optional }],
    ⟨rooted root labels (.matching optional), {}, log⟩⟩

/-- A walk that begins at a node is at a new tree, if the root has a name of
its own. -/
theorem eq_atRoot {here : Option Position} {first : WalkStep Assignment}
    {given : LabelArgument} {name : Option String} {optional : Bool}
    {start : Walk} {c : ContextId} {root : String}
    (hopening : first.starting? =
      some (Walking.startAtNode given name optional))
    (hstart : Position.step here first = (.ok (), some ⟨start, c⟩))
    (hroot : start.nodeName? c = some root)
    (hown : ∀ n : Nat, root ≠ "anon" ++ toString n) :
    c = 0 ∧ ∃ labels log, start = atRoot root labels optional log := by
  rcases hdecode : decode .node given name {} with ⟨⟨own, labels⟩, names⟩
  obtain ⟨before, hexec⟩ := Position.exec_of_starting hopening hstart
  obtain ⟨log, hmatch⟩ := Walking.exec_matchNode_of_new
    (w := { registry := { log := before } }) optional
    hdecode rfl
  rw [Walking.startAtNode, exec_bind, hmatch] at hexec
  cases hexec
  obtain rfl : own = root := Option.some.inj hroot
  have hdrawn : names = {} := by
    rcases decode_names .node given name {} with hsame | ⟨hname, -⟩
    · rw [hdecode] at hsame
      exact hsame
    · rw [hdecode] at hname
      exact absurd (congrArg Prod.fst hname) (hown 0)
  rw [hdrawn]
  exact ⟨rfl, labels, log, rfl⟩

/-- A chain from a root without a colon. -/
theorem chain_of_atRoot {root : String} {labels types : List String}
    {optional : Bool} (log : List LogEvent) (hroot : Plain root)
    (hne : types ≠ [])
    (hfresh : Fresh (rooted root labels (.matching optional)) {} types) :
    ∃ v, Position.run (some ⟨atRoot root labels optional log, 0⟩)
    (chainSteps types) =
        (.ok (), some ⟨v, 0⟩) ∧
      v.registry.store.Indexed ∧
      v.registry.store.entries = ⟨.node { name := root, labels },
        .matching optional⟩ ::
        chainEntries root {} types (.matching optional) := by
  obtain ⟨type, later, rfl⟩ := List.exists_cons_of_ne_nil hne
  let source : Context := { place := .node none root false, optional }
  let u : Walk :=
    { atRoot root labels optional log with
      contexts := #[source,
        { place := .relationship 0 (.one type) none none, optional }] }
  have hopen : exec ((opening type).move 0)
      (atRoot root labels optional log) = (.ok 1, u) := by
    have hopened := Walking.exec_addRelationship
      (w := atRoot root labels optional log) (c := 0) rfl rfl
      (.one type) none none false
    rw [Bool.or_false] at hopened
    exact hopened
  have hsource : u.contexts[0]? = some source := rfl
  have hhere : u.contexts[1]? =
      some { place := .relationship 0 (.one type) none none, optional } := rfl
  obtain ⟨v, hrun, hchained⟩ :=
    chain_of_open (w := u) hfresh hhere hsource rfl hroot
  refine ⟨v, ?_, hchained.indexed, hchained.entries⟩
  rw [chainSteps_cons, Position.run_cons_of_move (opening type) rfl hopen]
  exact hrun

end Walk

/-- **A chain of a new tree is a path, unless there is a colon in the name
of its root.**  The tree is begun at a node, relationships are opened of one
type each, each on the one before, and one ascends from all of them.  If the
names made of the types are different from each other and from the root's,
and none of all these is anonymous, this leads back to the root.  Behind the
root, the store holds the nodes in between, then the relationships, the last
one first, and the last station is no node of it.  If there is a colon in
the name of the root, no relationship leaves the root.  The last station has
the number behind those of the nodes in between.  All relationships leave
from plain names, and a name with a colon is none. -/
theorem Walk.chain_of_new_tree {here : Option Position}
    {first : WalkStep Assignment} {given : LabelArgument}
    {name : Option String} {optional : Bool} {start : Walk} {c : ContextId}
    {root : String} {types : List String}
    (hopening : first.starting? =
      some (Walking.startAtNode given name optional))
    (hstart : Position.step here first = (.ok (), some ⟨start, c⟩))
    (hroot : start.nodeName? c = some root) (hne : types ≠ [])
    (hbare : ∀ type ∈ types, Bare type)
    (hnames : (root :: types.map defaultRelationshipName).Nodup)
    (hanonymous : ∀ own ∈ root :: types.map defaultRelationshipName,
      ∀ n : Nat, own ≠ "anon" ++ toString n) :
    (':' ∉ root.toList →
      ∃ v labels, Position.run (some ⟨start, c⟩)
      (chainSteps types) = (.ok (), some ⟨v, c⟩) ∧
        v.registry.store.entries = ⟨.node { name := root, labels },
          .matching optional⟩ ::
          chainEntries root {} types (.matching optional) ∧
        v.registry.store.relationships =
          (types.mapIdx (hop root {})).reverse.map
            (fun r => (r, .matching optional)) ∧
        v.registry.store.find? (station root {} types.length) = none) ∧
      (':' ∈ root.toList → ∀ v d,
        Position.run (some ⟨start, c⟩)
        (chainSteps types) = (.ok (), some ⟨v, d⟩) →
          ∀ known ∈ v.registry.store.relationships, known.1.left ≠ root) := by
  have hsound :=
    sound_of_starting (Option.isSome_iff_exists.mpr ⟨_, hopening⟩) hstart
  have hproper := hsound.proper_of_nodeName? hroot
  obtain ⟨rfl, labels, log, rfl⟩ :=
    eq_atRoot hopening hstart hroot (hanonymous root (.head _))
  constructor
  · intro hcolon
    obtain ⟨v, hrun, hindexed, hentries⟩ :=
      chain_of_atRoot log ⟨hproper, hcolon⟩ hne
      (fresh_rooted labels (.matching optional) hbare hnames hanonymous)
    refine ⟨v, labels, hrun, hentries, ?_, ?_⟩
    · rw [Store.relationships, hentries, List.filterMap_cons_none rfl,
        filterMap_relationship?_chainEntries]
    · obtain ⟨type, later, rfl⟩ := List.exists_cons_of_ne_nil hne
      refine find?_of_chain Store.indexed_rooted hindexed hentries
        (fun n hn heq => ?_)
        (fun other hother => ?_)
          (Store.find?_rooted (hanonymous root (.head _) _).symm)
      · have hsame : 0 + later.length = n :=
          NameSequence.numbered_injective {} heq
        have hlt : n < 0 + later.length := hn
        omega
      · exact (hanonymous _ (.tail _ (List.mem_map_of_mem hother)) _).symm
  · intro hcolon v d hrun known hknown hleft
    have hsteps : ∀ step ∈ chainSteps types, step.starting? = none := by
      intro step hstep
      rcases List.mem_append.mp hstep with hopens | hascends
      · obtain ⟨type, -, rfl⟩ := List.mem_map.mp hopens
        rfl
      · rw [List.eq_of_mem_replicate hascends]
        rfl
    have hplainly : v.registry.Plainly := (plainly_rooted log).run hsteps hrun
    exact (hplainly.left_of_mem hknown).noColon (hleft ▸ hcolon)

/-- A walk begun at a node. -/
def begunAt (label name : String) : Position :=
  (Position.step none (.startAtNode (.one label) (some name) false)).2.getD
    default

/-- A person, and a node whose name has a colon: it is named after its
label. -/
theorem Walk.chain_of_new_tree_of_acquaintance :
    let person := begunAt "Person" "p"
    let unnamed := begunAt "A:B" ":"
    let types := ["KNOWS", "WORKS_AT"]
    (∃ v, Position.run (some person)
      (chainSteps types) = (.ok (), some ⟨v, person.context⟩) ∧
      v.registry.store.relationships.map (fun known =>
        (known.1.name, known.1.left, known.1.right)) =
        [("worksAt", "anon0", "anon1"), ("knows", "p", "anon0")]) ∧
    ∀ v d, Position.run (some unnamed)
    (chainSteps types) = (.ok (), some ⟨v, d⟩) →
      ∀ known ∈ v.registry.store.relationships, known.1.left ≠ "a:B" := by
  intro person unnamed types
  have hbare : ∀ type ∈ types, Bare type := by
    have hletters : ∀ type ∈ types, type.toList ≠ [] ∧
        type.toList.all (fun c =>
        !Text.isBlank c && !([':', '<', '>'].contains c)) = true := by
          decide +kernel
    exact fun type hmem => .of_forall (hletters type hmem).1
      (by simpa using (hletters type hmem).2)
  have hanonymous : ∀ own : String,
      (own.toList.take 2 == ['a', 'n']) = false →
      ∀ n : Nat, own ≠ "anon" ++ toString n := by
    rintro own hletters n rfl
    rw [String.toList_append] at hletters
    cases hletters
  have hperson :
      Position.step none (.startAtNode (.one "Person") (some "p") false) =
      (.ok (), some ⟨person.walk, person.context⟩) :=
    Position.step_eq_ok (by decide +kernel) (by decide +kernel)
  have hunnamed :
      Position.step none (.startAtNode (.one "A:B") (some ":") false) =
      (.ok (), some ⟨unnamed.walk, unnamed.context⟩) :=
    Position.step_eq_ok (by decide +kernel) (by decide +kernel)
  have hroot : person.walk.nodeName? person.context = some "p" := by
    decide +kernel
  have hcolon : unnamed.walk.nodeName? unnamed.context = some "a:B" := by
    decide +kernel
  have hapart : ∀ own ∈ "p" :: "a:B" :: types.map defaultRelationshipName,
      (own.toList.take 2 == ['a', 'n']) = false := by decide +kernel
  obtain ⟨hpath, -⟩ :=
    chain_of_new_tree rfl hperson hroot (List.cons_ne_nil _ _) hbare
    (by decide +kernel) fun own hown => hanonymous own (hapart own (by grind))
  obtain ⟨-, hnone⟩ :=
    chain_of_new_tree rfl hunnamed hcolon (List.cons_ne_nil _ _) hbare
    (by decide +kernel) fun own hown => hanonymous own (hapart own (by grind))
  obtain ⟨v, labels, hrun, -, hrelationships, -⟩ := hpath (by decide +kernel)
  refine ⟨⟨v, hrun, ?_⟩, hnone (by decide +kernel)⟩
  rw [hrelationships]
  decide +kernel

end GraphQuery.Pattern

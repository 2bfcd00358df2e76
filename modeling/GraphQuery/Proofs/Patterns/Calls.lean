import GraphQuery.Proofs.Patterns.Declarations
import GraphQuery.Proofs.Patterns.Names

/-!
# What the calls of a store declare

Which declarations a call makes depends on its arguments and on the
anonymous names alone, and not on the store: `StoreCall.declarations`.  A
relationship declares its ends first, those that carry labels.  A call that
succeeds has made its declarations in this order and has done nothing else
to the store (`StoreCall.applyAll_of_perform`).
-/

namespace GraphQuery.Pattern

/-- What a node declares, and the anonymous names that are left. -/
def nodeDeclarations (given : LabelArgument) (name : Option String)
    (intent : Intent) (properties : List Assignment) (names : NameSequence) :
    List Declaration × NameSequence :=
  let decoded := decode .node given name names
  ([.node decoded.1.1 decoded.1.2 properties intent], decoded.2)

/-- What an end of a relationship declares. -/
structure EndDeclarations where
  name : String
  declared : List Declaration
  /-- The anonymous names that are left. -/
  names : NameSequence

/-- The name of an end of a relationship, and the node it declares if it
carries labels. -/
def endDeclarations (given : Option String) (intent : Intent)
    (names : NameSequence) :
    EndDeclarations :=
  match given.filter fun text => !Text.isBlankText text with
  | none => ⟨names.draw.1, [], names.draw.2⟩
  | some text =>
    let decoded := decode .node .none (some text) names
    ⟨decoded.1.1,
      if decoded.1.2.isEmpty then [] else [.node decoded.1.1 decoded.1.2
        [] intent],
      decoded.2⟩

/-- An end that is declared is a node with labels and without properties. -/
theorem labelled_of_mem_endDeclarations {given : Option String}
    {intent : Intent} {names : NameSequence} {d : Declaration}
    (h : d ∈ (endDeclarations given intent names).declared) :
    ∃ name labels, d = .node name labels [] intent ∧ labels ≠ [] := by
  unfold endDeclarations at h
  split at h
  · cases h
  · dsimp only at h
    split at h
    · cases h
    · next hlabels =>
      obtain rfl := List.mem_singleton.mp h
      exact ⟨_, _, rfl, fun hnil => hlabels (List.isEmpty_iff.mpr hnil)⟩

/-- What a relationship declares: its ends, then itself. -/
def relationshipDeclarations (left right : Option String)
    (given : LabelArgument) (name : Option String)
    (direction : Option Direction) (intent : Intent)
    (properties : List Assignment) (names : NameSequence) :
    List Declaration :=
  let extracted := extractDirection given.labels
  let left := endDeclarations left intent names
  let right := endDeclarations right intent left.names
  let decoded := decode .relationship (.many extracted.1) name right.names
  left.declared ++ right.declared ++
    [.relationship
      { name := decoded.1.1
        left := left.name
        right := right.name
        types := decoded.1.2
        properties
        direction := (direction <|> extracted.2).getD .leftToRight } intent]

/-- The relationship that a call declares behind its ends. -/
def StoreCall.relationshipGiven (left right : Option String)
    (given : LabelArgument) (name : Option String)
    (direction : Option Direction) (intent : Intent)
    (properties : List Assignment) (names : NameSequence) : Relationship :=
  let left := endDeclarations left intent names
  let right := endDeclarations right intent left.names
  let decoded := decode .relationship
    (.many (extractDirection given.labels).1) name right.names
  { name := decoded.1.1
    left := left.name
    right := right.name
    types := decoded.1.2
    properties
    direction :=
      (direction <|> (extractDirection given.labels).2).getD .leftToRight }

/-- What a call declares if it succeeds. -/
def StoreCall.declarations (names : NameSequence) : StoreCall Assignment →
    List Declaration
  | matchNode given name optional =>
    (nodeDeclarations given name (.matching optional) [] names).1
  | matchRelationship left right given name direction optional =>
    relationshipDeclarations left right given name direction
      (.matching optional) [] names
  | matchRaw text optional => [.raw text (.matching optional)]
  | writeNode writing given name properties =>
    (nodeDeclarations (.many given.labels) name writing.intent
      properties names).1
  | writeRelationship writing left right given name properties direction =>
    relationshipDeclarations left right (.many given.labels) name direction
      writing.intent properties names
  | writeRaw writing text => [.raw text writing.intent]
  | assign name properties intent => [.assign name properties intent]
  | get _ | intentOf _ | chunk _ | size => []

namespace Registration

open GraphQuery.Computation

variable {r r' : Registry} {e : Element} {properties : List Assignment}

/-- Reading a name and labels may draw a name, and changes nothing else. -/
theorem exec_resolve (sort : ElementSort) (given : LabelArgument)
    (name : Option String) (r : Registry) : exec (resolve sort given name) r =
      (.ok (decode sort given name r.names).1,
        { r with names := (decode sort given name r.names).2 }) := by
  rw [resolve, exec_modifyGet]

/-- What has been read is what was given. -/
theorem decode_of_resolve {sort : ElementSort} {given : LabelArgument}
    {name : Option String} {decoded : String × List String}
    (h : exec (resolve sort given name) r = (.ok decoded, r')) :
    (decode sort given name r.names).1 = decoded ∧
      r' = { r with names := (decode sort given name r.names).2 } := by
  rw [exec_resolve] at h
  obtain ⟨hdecoded, hregistry⟩ := Prod.mk.inj h
  exact ⟨Except.ok.inj hdecoded, hregistry.symm⟩

/-- Drawing a name changes the sequence only. -/
theorem exec_drawName (r : Registry) :
    exec drawName r =
      (.ok r.names.draw.1, { r with names := r.names.draw.2 }) := rfl

/-- What is declared is answered and kept. -/
theorem exec_declare_of_ok {r : Registry} {kind name : String}
    {intent : Intent} {e : Element} {s : Store}
    (declaration : Store → Except Fault (Element × Store))
    (h : declaration r.store = .ok (e, s)) :
    ∃ log, exec (declare kind name intent declaration) r =
      (.ok e, { r with store := s, log }) := by
  rw [declare, exec_bind, exec_get]
  dsimp only
  rw [exec_bind, exec_lift, h]
  exact ⟨_, rfl⟩

/-- A declaration that succeeds puts the new store in the place of the old
one. -/
theorem declaration_of_declare {kind name : String} {intent : Intent}
    {declaration : Store → Except Fault (Element × Store)}
    (h : exec (declare kind name intent declaration) r = (.ok e, r')) :
    declaration r.store = .ok (e, r'.store) ∧ r'.names = r.names := by
  obtain ⟨_, _, hget, h⟩ := exec_bind_eq_ok.mp h
  cases hget
  obtain ⟨⟨e', s'⟩, _, hdeclaration, h⟩ := exec_bind_eq_ok.mp h
  rw [exec_lift, Prod.mk.injEq] at hdeclaration
  obtain ⟨hdeclared, rfl⟩ := hdeclaration
  cases h
  exact ⟨hdeclared, rfl⟩

/-- A declaration that fails leaves all as it was. -/
theorem eq_of_declare_error {kind name : String} {intent : Intent}
    {fault : Fault} {declaration : Store → Except Fault (Element × Store)}
    (h : exec (declare kind name intent declaration) r = (.error fault, r')) :
    r' = r := by
  rw [declare, exec_bind, exec_get] at h
  dsimp only at h
  rw [exec_bind, exec_lift] at h
  rcases hdeclared : declaration r.store with fault | ⟨e, store⟩
  · rw [hdeclared] at h
    exact (Prod.mk.inj h).2.symm
  · rw [hdeclared] at h
    cases h

/-- A node is declared as its arguments are decoded. -/
theorem declared_of_node {given : LabelArgument} {name : Option String}
    {intent : Intent}
    (h : exec (node given name intent properties) r = (.ok e, r')) :
    r.store.declareNode (decode .node given name r.names).1.1
      (decode .node given name r.names).1.2
        properties intent = .ok (e, r'.store) ∧
      r'.names = (decode .node given name r.names).2 := by
  obtain ⟨⟨resolved, labels⟩, _, hresolve, h⟩ := exec_bind_eq_ok.mp h
  obtain ⟨hdecoded, rfl⟩ := decode_of_resolve hresolve
  obtain ⟨hdeclared, hnames⟩ := declaration_of_declare h
  dsimp only at hdeclared hnames
  rw [hdecoded]
  exact ⟨hdeclared, hnames⟩

/-- A node is registered by its declaration. -/
theorem applyAll_of_node {given : LabelArgument} {name : Option String}
    {intent : Intent}
    (h : exec (node given name intent properties) r = (.ok e, r')) :
    r.store.applyAll (nodeDeclarations given name intent
      properties r.names).1 = .ok r'.store ∧
      r'.names =
        (nodeDeclarations given name intent properties r.names).2 := by
  obtain ⟨hdeclared, hnames⟩ := declared_of_node h
  rw [nodeDeclarations, Store.applyAll_singleton]
  dsimp only
  exact ⟨Declaration.map_snd_eq_ok.mpr ⟨e, hdeclared⟩, hnames⟩

/-- An end is registered by its declarations.  An end with labels is
registered as a node, so what was read off it is read once more. -/
theorem applyAll_of_endpoint {given : Option String} {intent : Intent}
    {name : String} (h : exec (endpoint given intent) r = (.ok name, r')) :
    name = (endDeclarations given intent r.names).name ∧
      r.store.applyAll (endDeclarations given intent r.names).declared =
        .ok r'.store ∧
      r'.names = (endDeclarations given intent r.names).names := by
  unfold endpoint at h
  unfold endDeclarations
  cases hgiven : given.filter fun text => !Text.isBlankText text with
  | none =>
    rw [hgiven] at h
    rw [exec_drawName] at h
    cases h
    exact ⟨rfl, rfl, rfl⟩
  | some text =>
    rw [hgiven] at h
    obtain ⟨⟨resolved, labels⟩, _, hresolve, h⟩ := exec_bind_eq_ok.mp h
    obtain ⟨hdecoded, rfl⟩ := decode_of_resolve hresolve
    rcases hdecode : decode .node .none (some text) r.names with
        ⟨decoded, names⟩
    rw [hdecode] at hdecoded h
    obtain rfl : decoded = (resolved, labels) := hdecoded
    dsimp only
    rw [hdecode]
    cases labels with
    | nil =>
      cases h
      exact ⟨rfl, rfl, rfl⟩
    | cons label rest =>
      obtain ⟨_, registry, hnode, h⟩ := exec_bind_eq_ok.mp h
      obtain ⟨hname, hregistry⟩ := Prod.mk.inj h
      subst hregistry
      obtain ⟨rfl, hagain⟩ :=
        decode_again hdecode (List.cons_ne_nil label rest)
      have hds : nodeDeclarations (.many (label :: rest)) (some resolved)
          intent [] r.names =
          ([.node resolved (label :: rest) [] intent], r.names) := by
        rw [nodeDeclarations, hagain]
      obtain ⟨happly, hnames⟩ := applyAll_of_node hnode
      dsimp only at happly hnames
      rw [hds] at happly hnames
      exact ⟨(Except.ok.inj hname).symm, happly, hnames⟩

/-- A relationship is declared as it is given, where its ends have been
declared. -/
theorem declared_of_relationship {left right name : Option String}
    {given : LabelArgument} {direction : Option Direction} {intent : Intent}
    (h : exec (relationship left right given name direction
      intent properties) r = (.ok e, r')) :
    let leftEnd := endDeclarations left intent r.names
    ∃ s, r.store.applyAll
        (leftEnd.declared ++
          (endDeclarations right intent leftEnd.names).declared) = .ok s ∧
      s.declareRelationship
        (StoreCall.relationshipGiven left right given name direction intent
        properties r.names) intent = .ok (e, r'.store) := by
  unfold relationship at h
  unfold StoreCall.relationshipGiven
  rcases hextracted : extractDirection given.labels with ⟨types, marked⟩
  rw [hextracted] at h
  dsimp only at h ⊢
  obtain ⟨leftName, r₁, hleft, h⟩ := exec_bind_eq_ok.mp h
  obtain ⟨rightName, r₂, hright, h⟩ := exec_bind_eq_ok.mp h
  obtain ⟨⟨resolved, types'⟩, _, hresolve, h⟩ := exec_bind_eq_ok.mp h
  obtain ⟨hleftName, hleftStore, hleftNames⟩ := applyAll_of_endpoint hleft
  obtain ⟨hrightName, hrightStore, hrightNames⟩ := applyAll_of_endpoint hright
  obtain ⟨hdecoded, rfl⟩ := decode_of_resolve hresolve
  obtain ⟨hdeclared, -⟩ := declaration_of_declare h
  rw [hleftNames] at hrightName hrightStore hrightNames
  rw [hrightNames] at hdecoded
  rw [hdecoded, ← hleftName, ← hrightName]
  exact ⟨r₂.store, Store.applyAll_append_eq_ok.mpr ⟨r₁.store, hleftStore,
    hrightStore⟩, hdeclared⟩

/-- A relationship is registered by the declarations of its ends and its
own. -/
theorem applyAll_of_relationship {left right name : Option String}
    {given : LabelArgument} {direction : Option Direction} {intent : Intent}
    (h : exec (relationship left right given name direction
      intent properties) r = (.ok e, r')) :
    r.store.applyAll (relationshipDeclarations left right given name
      direction intent properties
      r.names) = .ok r'.store := by
  obtain ⟨s, hends, hdeclared⟩ := declared_of_relationship h
  refine Store.applyAll_append_eq_ok.mpr ⟨s, hends, ?_⟩
  rw [Store.applyAll_singleton]
  exact Declaration.map_snd_eq_ok.mpr ⟨e, hdeclared⟩

/-- A fragment is registered by its declaration. -/
theorem applyAll_of_raw {text : String} {intent : Intent}
    (h : exec (raw text intent) r = (.ok e, r')) :
    r.store.applyAll [.raw text intent] = .ok r'.store := by
  obtain ⟨_, _, hmodify, h⟩ := exec_bind_eq_ok.mp h
  cases hmodify
  cases h
  rfl

/-- Properties are given by their declaration. -/
theorem applyAll_of_assign {name : String} {intent : Intent}
    (h : exec (assign name properties intent) r = (.ok e, r')) :
    r.store.applyAll [.assign name properties intent] = .ok r'.store := by
  obtain ⟨_, _, hget, h⟩ := exec_bind_eq_ok.mp h
  cases hget
  obtain ⟨⟨e', s'⟩, _, hassign, h⟩ := exec_bind_eq_ok.mp h
  rw [exec_lift, Prod.mk.injEq] at hassign
  obtain ⟨hassigned, rfl⟩ := hassign
  cases h
  rw [Store.applyAll_singleton]
  exact Declaration.map_snd_eq_ok.mpr ⟨e, hassigned⟩

/-- Where labels are needed, the step goes on with those that are given, if
there are any. -/
theorem exec_labelsFor_bind {α : Type} (operation : String)
    (given : LabelArgument) (f : List String → Registration α)
    (r : Registry) :
    exec ((liftM (given.labelsFor operation) :
      Registration (List String)) >>= f) r =
      if given.labels.isEmpty then (.error
          (.labelRequired operation given.toValue), r)
      else exec (f given.labels) r := by
  rw [exec_bind, exec_lift, LabelArgument.labelsFor]
  by_cases hempty : given.labels.isEmpty = true
  · rw [if_pos hempty, if_pos hempty]
  · rw [if_neg hempty, if_neg hempty]

/-- A call that asks for labels goes on if there are some. -/
theorem exec_of_labelsFor {α : Type} {operation : String}
    {given : LabelArgument} {f : List String → Registration α} {a : α}
    (h : exec ((liftM (given.labelsFor operation) :
      Registration (List String)) >>= f) r =
      (.ok a, r')) : exec (f given.labels) r = (.ok a, r') := by
  rw [exec_labelsFor_bind] at h
  split at h
  · cases h
  · exact h

end Registration

open GraphQuery.Computation Registration in
/-- **A call that succeeds has made its declarations, in order, and nothing
else.** -/
theorem StoreCall.applyAll_of_perform {call : StoreCall Assignment}
    {r r' : Registry} {answer : StoreAnswer}
    (h : exec call.perform r = (.ok answer, r')) :
    r.store.applyAll (call.declarations r.names) = .ok r'.store := by
  cases call with
  | matchNode =>
    obtain ⟨e, _, hnode, h⟩ := exec_bind_eq_ok.mp h
    cases h
    exact (applyAll_of_node hnode).1
  | matchRelationship =>
    obtain ⟨e, _, hrelationship, h⟩ := exec_bind_eq_ok.mp h
    cases h
    exact applyAll_of_relationship hrelationship
  | matchRaw | writeRaw =>
    obtain ⟨e, _, hraw, h⟩ := exec_bind_eq_ok.mp h
    cases h
    exact applyAll_of_raw hraw
  | writeNode =>
    obtain ⟨e, _, hwritten, h⟩ := exec_bind_eq_ok.mp h
    cases h
    have hnode := exec_of_labelsFor hwritten
    exact (applyAll_of_node hnode).1
  | writeRelationship =>
    obtain ⟨e, _, hwritten, h⟩ := exec_bind_eq_ok.mp h
    cases h
    have hrelationship := exec_of_labelsFor hwritten
    exact applyAll_of_relationship hrelationship
  | assign =>
    obtain ⟨e, _, hassign, h⟩ := exec_bind_eq_ok.mp h
    cases h
    exact applyAll_of_assign hassign
  | get | intentOf | chunk | size =>
    obtain ⟨_, _, hget, h⟩ := exec_bind_eq_ok.mp h
    cases hget
    cases h
    rfl

end GraphQuery.Pattern

import GraphQuery.Proofs.Patterns.Calls

/-!
# Rejected calls of a store

A single declaration is checked before it changes anything, so one that is
rejected leaves the store as it was.  A call makes its declarations one
after the other and stops at the first that is rejected; what it declared
before stays declared.  Only the call of a relationship declares anything
before its last declaration: the ends that carry labels.  So a rejected call
can leave behind the ends of a relationship, and nothing else:
`StoreCall.rejected_leaves_ends`.
-/

namespace GraphQuery.Pattern

open GraphQuery.Computation

/-- Declarations are made up to one that is rejected, which leads from one
store to another. -/
def StopsIn (ds : List Declaration) (s t : Store) (fault : Fault) : Prop :=
  ∃ done rejected later, ds = done ++ rejected :: later ∧
  s.applyAll done = .ok t ∧
    rejected.apply t = .error fault

namespace StopsIn

variable {ds es : List Declaration} {s t u : Store} {fault : Fault}

/-- One declaration that fails stops at itself. -/
theorem first {d : Declaration} (h : d.apply s = .error fault) :
    StopsIn [d] s s fault :=
  ⟨[], d, [], rfl, rfl, h⟩

/-- The declarations that follow do not matter. -/
theorem before (h : StopsIn ds s t fault) (es : List Declaration) :
    StopsIn (ds ++ es) s t fault := by
  obtain ⟨done, rejected, later, rfl, hdone, hrejected⟩ := h
  exact ⟨done, rejected, later ++ es, List.append_assoc .., hdone, hrejected⟩

/-- Declarations that succeed come before the one that stops. -/
theorem after (hds : s.applyAll ds = .ok t) (h : StopsIn es t u fault) :
    StopsIn (ds ++ es) s u fault := by
  obtain ⟨done, rejected, later, rfl, hdone, hrejected⟩ := h
  refine ⟨ds ++ done, rejected, later, (List.append_assoc ..).symm, ?_,
    hrejected⟩
  rw [Store.applyAll_append, hds]
  exact hdone

/-- Declarations that stop are not all made. -/
theorem applyAll_ne_ok (h : StopsIn ds s t fault) (u : Store) :
    s.applyAll ds ≠ .ok u := by
  obtain ⟨done, rejected, later, rfl, hdone, hrejected⟩ := h
  intro hall
  obtain ⟨v, hfirst, hlater⟩ := Store.applyAll_append_eq_ok.mp hall
  obtain rfl : t = v := Except.ok.inj (hdone.symm.trans hfirst)
  obtain ⟨w, hmade, -⟩ := Store.applyAll_cons_eq_ok.mp hlater
  rw [hrejected] at hmade
  cases hmade

end StopsIn

/-- **What is rejected is an invalid input**, one that names an element of
the other sort or none. -/
theorem Declaration.isConfiguration_of_apply {d : Declaration} {s : Store}
    {fault : Fault} (h : d.apply s = .error fault) :
    fault.report.kind.isConfiguration = true := by
  cases d with
  | node name labels properties intent =>
    rw [apply, Store.declareNode] at h
    split at h
    · cases h
    · cases h
    · cases h
      rfl
  | relationship new intent =>
    rw [apply, Store.declareRelationship] at h
    split at h
    · cases h
    · cases h
    · cases h
      rfl
  | raw text intent => cases h
  | assign name properties intent =>
    rw [apply, Store.assign] at h
    split at h
    · cases h
      rfl
    · cases h

namespace Registration

variable {r r' : Registry} {fault : Fault} {properties : List Assignment}

/-- A declaration fails only if it is rejected. -/
theorem rejected_of_declare {kind name : String} {intent : Intent}
    {declaration : Store → Except Fault (Element × Store)}
    (h : exec (declare kind name intent declaration) r = (.error fault, r')) :
    declaration r.store = .error fault ∧ r' = r := by
  refine ⟨?_, eq_of_declare_error h⟩
  rw [declare, exec_bind, exec_get] at h
  dsimp only at h
  rw [exec_bind, exec_lift] at h
  cases hdeclared : declaration r.store with
  | error fault' =>
    rw [hdeclared] at h
    cases h
    rfl
  | ok answer =>
    rw [hdeclared] at h
    cases h

/-- A node that is not registered stops at its declaration. -/
theorem stopsIn_of_node {given : LabelArgument} {name : Option String}
    {intent : Intent}
    (h : exec (node given name intent properties) r = (.error fault, r')) :
    StopsIn (nodeDeclarations given name intent properties r.names).1 r.store
      r'.store fault := by
  rw [node, exec_bind, exec_resolve] at h
  obtain ⟨hrejected, rfl⟩ := rejected_of_declare h
  apply StopsIn.first
  rw [Declaration.apply, hrejected]
  rfl

/-- An end that is not registered stops at its declaration. -/
theorem stopsIn_of_endpoint {given : Option String} {intent : Intent}
    (h : exec (endpoint given intent) r = (.error fault, r')) :
    StopsIn (endDeclarations given intent r.names).declared r.store r'.store
      fault := by
  unfold endpoint at h
  unfold endDeclarations
  cases hgiven : given.filter fun text => !Text.isBlankText text with
  | none =>
    rw [hgiven, exec_drawName] at h
    cases h
  | some text =>
    rw [hgiven] at h
    dsimp only at h ⊢
    rw [exec_bind, exec_resolve] at h
    rcases hdecode : decode .node .none (some text) r.names with
        ⟨⟨name, labels⟩, names⟩
    rw [hdecode] at h
    cases labels with
    | nil => cases h
    | cons label rest =>
      obtain ⟨rfl, hagain⟩ :=
        decode_again hdecode (List.cons_ne_nil label rest)
      have hds : nodeDeclarations (.many (label :: rest)) (some name) intent
          [] r.names =
          ([.node name (label :: rest) [] intent], r.names) := by
        rw [nodeDeclarations, hagain]
      rcases exec_bind_eq_error.mp h with hnode | ⟨_, _, _, hpure⟩
      · have hstops := stopsIn_of_node hnode
        dsimp only at hstops
        rw [hds] at hstops
        exact hstops
      · cases hpure

/-- A relationship that is not registered stops at an end or at its own
declaration. -/
theorem stopsIn_of_relationship {left right name : Option String}
    {given : LabelArgument} {direction : Option Direction} {intent : Intent}
    (h : exec
      (relationship left right given name direction intent properties) r =
      (.error fault, r')) :
    StopsIn (relationshipDeclarations left right given name direction intent
      properties r.names)
      r.store r'.store fault := by
  unfold relationship at h
  unfold relationshipDeclarations
  rcases hextracted : extractDirection given.labels with ⟨types, marked⟩
  rw [hextracted] at h
  dsimp only at h ⊢
  rcases exec_bind_eq_error.mp h with hleft | ⟨leftName, r₁, hleft, h⟩
  · exact ((stopsIn_of_endpoint hleft).before _).before _
  · obtain ⟨hleftName, hleftStore, hleftNames⟩ := applyAll_of_endpoint hleft
    rw [← hleftNames, ← hleftName, List.append_assoc]
    apply StopsIn.after hleftStore
    rcases exec_bind_eq_error.mp h with hright | ⟨rightName, r₂, hright, h⟩
    · exact (stopsIn_of_endpoint hright).before _
    · obtain ⟨hrightName, hrightStore, hrightNames⟩ :=
        applyAll_of_endpoint hright
      rw [← hrightNames, ← hrightName]
      apply StopsIn.after hrightStore
      rw [exec_bind, exec_resolve] at h
      obtain ⟨hrejected, rfl⟩ := rejected_of_declare h
      apply StopsIn.first
      rw [Declaration.apply, hrejected]
      rfl

/-- Giving properties to an element draws no names and logs nothing. -/
theorem exec_assign (name : String) (properties : List Assignment)
    (intent : Intent) (r : Registry) :
    exec (assign name properties intent) r =
      match r.store.assign name properties intent with
      | .ok (e, store) => (.ok e, { r with store })
      | .error fault => (.error fault, r) := by
  rw [assign, exec_bind, exec_get]
  dsimp only
  rw [exec_bind, exec_lift]
  cases r.store.assign name properties intent <;> rfl

/-- Properties that are not given stop at their declaration. -/
theorem stopsIn_of_assign {name : String} {intent : Intent}
    (h : exec (assign name properties intent) r = (.error fault, r')) :
    StopsIn [.assign name properties intent] r.store r'.store fault := by
  rw [exec_assign] at h
  cases hassigned : r.store.assign name properties intent with
  | error fault' =>
    rw [hassigned] at h
    cases h
    apply StopsIn.first
    rw [Declaration.apply, hassigned]
    rfl
  | ok answer =>
    rw [hassigned] at h
    cases h

/-- Where labels are needed, a step fails for want of them or afterwards. -/
theorem error_of_labelsFor {α : Type} {operation : String}
    {given : LabelArgument} {f : List String → Registration α}
    (h : exec ((liftM (given.labelsFor operation) :
      Registration (List String)) >>= f) r =
      (.error fault, r')) :
    fault = .labelRequired operation given.toValue ∧ r' = r ∨
      exec (f given.labels) r = (.error fault, r') := by
  rw [exec_labelsFor_bind] at h
  split at h
  · cases h
    exact .inl ⟨rfl, rfl⟩
  · exact .inr h

/-- Putting an element into an answer does not fail. -/
theorem error_of_answer {x : Registration Element}
    (h : exec (do return StoreAnswer.element (← x)) r = (.error fault, r')) :
    exec x r = (.error fault, r') := by
  rcases exec_bind_eq_error.mp h with hx | ⟨_, _, _, hpure⟩
  · exact hx
  · cases hpure

end Registration

namespace StoreCall

open Registration

/-- What a call declares before its last declaration: the ends of a
relationship that carry labels. -/
def ends (names : NameSequence) : StoreCall Assignment → List Declaration
  | matchRelationship left right _ _ _ optional =>
    both left right (.matching optional)
  | writeRelationship writing left right _ _ _ _ =>
    both left right writing.intent
  | _ => []
where
  /-- The labelled ones of two ends. -/
  both (left right : Option String) (intent : Intent) : List Declaration :=
    let left := endDeclarations left intent names
    left.declared ++ (endDeclarations right intent left.names).declared

variable {call : StoreCall Assignment} {r r' : Registry} {fault : Fault}

/-- The ends that a call declares are nodes with labels. -/
theorem labelled_of_mem_ends {names : NameSequence} {d : Declaration}
    (h : d ∈ call.ends names) :
    ∃ name labels intent, d = .node name labels [] intent ∧ labels ≠ [] := by
  cases call with
  | matchRelationship | writeRelationship =>
    obtain ⟨name, labels, hd, hlabels⟩ :=
      (List.mem_append.mp h).elim labelled_of_mem_endDeclarations
        labelled_of_mem_endDeclarations
    exact ⟨name, labels, _, hd, hlabels⟩
  | matchNode | matchRaw | writeNode | writeRaw | assign | get | intentOf
  | chunk | size => cases h

/-- Behind the ends there is at most one declaration more. -/
theorem declarations_eq (call : StoreCall Assignment) (names : NameSequence) :
    ∃ own, call.declarations names = call.ends names ++ own ∧
    own.length ≤ 1 := by
  cases call with
  | get | intentOf | chunk | size => exact ⟨[], rfl, Nat.zero_le 1⟩
  | _ => exact ⟨[_], rfl, Nat.le_refl 1⟩

/-- A call that fails has been stopped by a declaration that was rejected,
or has not begun for want of a label. -/
theorem stopsIn_of_perform (h : exec call.perform r = (.error fault, r')) :
    StopsIn (call.declarations r.names) r.store r'.store fault ∨
      r' = r ∧ ∃ operation given, fault = .labelRequired operation given := by
  cases call with
  | matchNode => exact .inl (stopsIn_of_node (error_of_answer h))
  | matchRelationship =>
    exact .inl (stopsIn_of_relationship (error_of_answer h))
  | assign => exact .inl (stopsIn_of_assign (error_of_answer h))
  | writeNode =>
    rcases error_of_labelsFor (error_of_answer h) with ⟨rfl, rfl⟩ | hnode
    · exact .inr ⟨rfl, _, _, rfl⟩
    · exact .inl (stopsIn_of_node hnode)
  | writeRelationship =>
    rcases error_of_labelsFor (error_of_answer h) with ⟨rfl, rfl⟩ |
        hrelationship
    · exact .inr ⟨rfl, _, _, rfl⟩
    · exact .inl (stopsIn_of_relationship hrelationship)
  | matchRaw | writeRaw | get | intentOf | chunk | size => cases h

/-- **A rejected call leaves the store as it was, up to labelled ends.**  A
call that fails was given an invalid input.  If it is not about a
relationship with a labelled end, the store is the same as before.  If it
is, the ends declared before the rejected declaration are left behind, as if
they had been declared by themselves, and nothing else has been done to the
store. -/
theorem rejected_leaves_ends (h : exec call.perform r = (.error fault, r')) :
    fault.report.kind.isConfiguration = true ∧
      (call.ends r.names = [] → r'.store = r.store) ∧
      ∃ done, done <+: call.ends r.names ∧
      r.store.applyAll done = .ok r'.store ∧
        (∀ d ∈ done, ∃ name labels intent, d = .node name labels [] intent ∧
          labels ≠ []) ∧
        ((∃ rejected later,
          call.declarations r.names = done ++ rejected :: later ∧
            rejected.apply r'.store = .error fault) ∨
          done = [] ∧
          ∃ operation given, fault = .labelRequired operation given) := by
  rcases stopsIn_of_perform h with hstops | ⟨rfl, operation, given, rfl⟩
  · obtain ⟨done, rejected, later, hds, hdone, hrejected⟩ := hstops
    obtain ⟨own, hown, hlength⟩ := call.declarations_eq r.names
    have hends : done <+: call.ends r.names := by
      have hall : done <+: call.declarations r.names :=
        ⟨rejected :: later, hds.symm⟩
      rw [hown] at hall
      have htotal := congrArg List.length (hown.symm.trans hds)
      rw [List.length_append, List.length_append, List.length_cons] at htotal
      exact List.prefix_of_prefix_length_le hall (List.prefix_append _ own)
        (by omega)
    refine ⟨Declaration.isConfiguration_of_apply hrejected, fun hnone => ?_,
      done, hends, hdone,
      fun d hd => labelled_of_mem_ends (hends.subset hd),
      .inl ⟨rejected, later, hds, hrejected⟩⟩
    rw [hnone, List.prefix_nil] at hends
    rw [hends] at hdone
    exact (Except.ok.inj hdone).symm
  · exact ⟨rfl, fun _ => rfl, [], List.nil_prefix, rfl, fun d hd =>
      absurd hd List.not_mem_nil,
      .inr ⟨rfl, operation, given, rfl⟩⟩

/-- A store with one node, named `a`. -/
def withNode : Registry :=
  (exec (matchNode (.one "A") (some "a") false).perform { : Registry }).2

/-- A relationship from a new node that takes the name of a known one. -/
def misnamed : StoreCall Assignment :=
  matchRelationship (some "x:X") none (.one "R") (some "a") none false

/-- A relationship gets the name of a node, and its end is left behind. -/
theorem rejected_leaves_ends_of_misnamed :
    ∃ fault r', exec misnamed.perform withNode = (.error fault, r') ∧
      fault.report.kind = .patternConflict ∧
      (∃ done, done <+: misnamed.ends withNode.names ∧
        withNode.store.applyAll done = .ok r'.store) ∧
      withNode.store.entries.map (fun e => e.element.name?) = [some "a"] ∧
      r'.store.entries.map (fun e => e.element.name?) =
        [some "a", some "x"] := by
  have hexec : exec misnamed.perform withNode =
      (.error (.notARelationship "a"),
        (exec misnamed.perform withNode).2) := by
    rfl
  obtain ⟨-, -, done, hends, hdone, -, -⟩ := rejected_leaves_ends hexec
  exact ⟨_, _, hexec, rfl, ⟨done, hends, hdone⟩, by rfl, by rfl⟩

end StoreCall

end GraphQuery.Pattern

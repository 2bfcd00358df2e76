import GraphQuery.Proofs.Compiling.Writable
import GraphQuery.Proofs.Patterns.Repetition
import GraphQuery.Proofs.Quoting.Texts

/-!
# Maps of properties

An element keeps all properties it is ever given, in the order it is given
them: a call that is answered with an element has appended its properties to
those of the element, and no other call touches them
(`Shelf.propertiesOf_after`).  A list of properties may have a key many
times.  The map that is written has every key once, at the place of its
first assignment and with the value of its last one (`Shows`); and since one
assignment more is one entry more put into the map (`Shows.put`), an element
that is given further properties has its map updated key by key:
`Shelf.map_keeps_latest`.
-/

namespace GraphQuery.Pattern

open GraphQuery.Computation

/-! ## What an element is given -/

/-- The properties of the element of a name; none if there is no such
element. -/
def Store.propertiesOf (s : Store) (name : String) : List Assignment :=
  match s.find? name with
  | some entry => entry.element.properties
  | none => []

/-- The properties of a name are those of its element. -/
theorem Store.propertiesOf_of_get? {s : Store} {name : String} {e : Element}
    (h : s.get? name = some e) : s.propertiesOf name = e.properties := by
  unfold get? at h
  unfold propertiesOf
  split at h
  · cases h
  · next hfind =>
    cases h
    rw [hfind]
  · cases h

namespace Declaration

variable {d : Declaration} {known entry : Entry} {name : String}

/-- A new entry has the properties it is declared with. -/
theorem properties_of_entry? (h : d.entry? = some entry) :
    entry.element.properties = d.properties := by
  cases d <;> cases h <;> rfl

/-- An element with a name takes all properties of a declaration. -/
theorem properties_of_extend (hname : known.element.name? = some name)
    (h : d.extend known = some entry) :
    entry.element.properties = known.element.properties ++ d.properties := by
  rcases known with ⟨_ | _ | _ | _, _⟩
  case node | relationship => cases d <;> cases h <;> rfl
  case raw | misplaced => cases hname

end Declaration

/-- Declarations without properties give none. -/
theorem propertiesAfter_eq_nil {ds : List Declaration}
    (h : ∀ d ∈ ds, d.properties = []) (name : String) :
    propertiesAfter ds name = [] := by
  rw [propertiesAfter, List.flatMap_eq_nil_iff]
  intro d hd
  rw [Declaration.propertiesOf, h d hd, ite_self]

/-- A declaration of an element, behind others that give no properties,
gives its own to the element. -/
theorem propertiesAfter_concat {ds : List Declaration} {d : Declaration}
    {e : Element} (hds : ∀ d ∈ ds, d.properties = [])
    (hname : e.name? = d.name?) (name : String) :
    propertiesAfter (ds ++ [d]) name =
      if e.name? = some name then d.properties else [] := by
  rw [propertiesAfter_snoc, propertiesAfter_eq_nil hds, List.nil_append,
    Declaration.propertiesOf, hname]

namespace Store.Indexed

variable {s t : Store} {d : Declaration} {ds : List Declaration}

/-- A declaration gives its properties to its own name, and to no other one. -/
theorem propertiesOf_makes (h : s.Indexed) (hmakes : d.Makes s t)
    (name : String) :
    t.propertiesOf name = s.propertiesOf name ++ d.propertiesOf name := by
  unfold propertiesOf Declaration.propertiesOf
  by_cases hd : d.name? = some name
  · rw [if_pos hd]
    rcases h.find?_of_makes_self hmakes hd with
      ⟨hnew, entry, hentry, hfind⟩ | ⟨known, entry, hknown, hentry, hfind⟩
    · rw [hnew, hfind]
      exact Declaration.properties_of_entry? hentry
    · rw [hknown, hfind]
      exact Declaration.properties_of_extend
        (h.find?_eq_some_iff.mp hknown).2 hentry
  · rw [if_neg hd, h.find?_of_makes_of_ne hmakes hd, List.append_nil]

/-- Declarations that are made append their properties one after the other. -/
theorem propertiesOf_applyAll (h : s.Indexed)
    (happly : s.applyAll ds = .ok t) (name : String) :
    t.propertiesOf name = s.propertiesOf name ++ propertiesAfter ds name := by
  induction ds generalizing s with
  | nil =>
    cases happly
    exact (List.append_nil _).symm
  | cons d later ih =>
    obtain ⟨u, hd, hlater⟩ := Store.applyAll_cons_eq_ok.mp happly
    have hmakes := Declaration.makes_of_apply hd
    rw [ih (h.of_makes hmakes) hlater, h.propertiesOf_makes hmakes,
      List.append_assoc]
    rfl

end Store.Indexed

/-- The ends of a relationship are declared without properties. -/
theorem StoreCall.properties_of_mem_both {names : NameSequence}
    {left right : Option String} {intent : Intent} {d : Declaration}
    (h : d ∈ ends.both names left right intent) :
    d.properties = [] := by
  obtain ⟨own, labels, rfl, -⟩ :=
    (List.mem_append.mp h).elim labelled_of_mem_endDeclarations
      labelled_of_mem_endDeclarations
  rfl

namespace Registration

variable {r r' : Registry} {e : Element} {properties : List Assignment}
    {intent : Intent}
variable {given : LabelArgument} {name : Option String}

/-- Registering a node gives its properties to it and to nothing else. -/
theorem propertiesAfter_of_node (hr : r.store.Indexed)
    (h : exec (node given name intent properties) r = (.ok e, r'))
    (other : String) :
    propertiesAfter (nodeDeclarations given name intent properties r.names).1
      other = if e.name? = some other then properties else [] := by
  exact propertiesAfter_concat (fun d hd => absurd hd List.not_mem_nil)
    (name?_of_node hr h) other

/-- Registering a relationship gives its properties to it and to nothing
else. -/
theorem propertiesAfter_of_relationship {left right : Option String}
    {direction : Option Direction} (hr : r.store.Indexed)
    (h : exec (relationship left right given name direction
      intent properties) r = (.ok e, r')) (other : String) :
    propertiesAfter (relationshipDeclarations left right given name direction
      intent properties
      r.names) other = if e.name? = some other then properties else [] := by
  have hname : e.name? =
      some (StoreCall.relationshipGiven left right given name direction intent
      properties r.names).name := by
    rw [name?_of_relationship hr h, StoreCall.name_relationshipGiven]
  rw [StoreCall.relationshipDeclarations_eq]
  exact propertiesAfter_concat (fun d hd =>
    StoreCall.properties_of_mem_both hd) hname other

/-- What is given properties goes on to have its name. -/
theorem name?_of_assign {name : String} (hr : r.store.Indexed)
    (h : exec (assign name properties intent) r = (.ok e, r')) :
    e.name? = some name := by
  rw [exec_assign, Store.assign] at h
  cases hfind : r.store.find? name with
  | none =>
    rw [hfind] at h
    cases h
  | some known =>
    rw [hfind] at h
    cases h
    have hname := (hr.find?_eq_some_iff.mp hfind).2
    rcases known with ⟨_ | _ | _ | _, _⟩ <;> exact hname

end Registration

namespace StoreCall

open Registration

variable {call : StoreCall Assignment} {r r' : Registry}
    {outcome : Except Fault StoreAnswer}

/-- The properties a call gives to the element of a name: its own, if it is
answered with the element. -/
def givenTo (name : String) (call : StoreCall Assignment) :
    Except Fault StoreAnswer → List Assignment
  | .ok (.element e) => if e.name? = some name then call.properties else []
  | _ => []

/-- A call without properties gives none. -/
theorem givenTo_eq_nil (h : call.properties = []) (name : String)
    (outcome : Except Fault StoreAnswer) :
    call.givenTo name outcome = [] := by
  unfold givenTo
  split
  · rw [h, ite_self]
  · rfl

/-- A call gives its properties with its last declaration. -/
theorem properties_of_mem_dropLast {names : NameSequence} {d : Declaration}
    (h : d ∈ (call.declarations names).dropLast) : d.properties = [] := by
  cases call with
  | matchRelationship | writeRelationship =>
    rw [declarations, relationshipDeclarations_eq, List.dropLast_concat] at h
    exact properties_of_mem_both h
  | matchNode | matchRaw | writeNode | writeRaw | assign | get | intentOf
  | chunk | size => cases h

/-- What a call has declared that is answered gives its properties to the
element it is answered with. -/
theorem propertiesAfter_of_perform {answer : StoreAnswer}
    (hr : r.store.Indexed) (h : exec call.perform r = (.ok answer, r'))
    (name : String) :
    propertiesAfter (call.declarations r.names) name =
      call.givenTo name (.ok answer) := by
  cases call with
  | matchNode =>
    obtain ⟨e, _, hnode, h⟩ := exec_bind_eq_ok.mp h
    cases h
    exact propertiesAfter_of_node hr hnode name
  | matchRelationship =>
    obtain ⟨e, _, hrelationship, h⟩ := exec_bind_eq_ok.mp h
    cases h
    exact propertiesAfter_of_relationship hr hrelationship name
  | writeNode =>
    obtain ⟨e, _, hwritten, h⟩ := exec_bind_eq_ok.mp h
    cases h
    have hnode := exec_of_labelsFor hwritten
    exact propertiesAfter_of_node hr hnode name
  | writeRelationship =>
    obtain ⟨e, _, hwritten, h⟩ := exec_bind_eq_ok.mp h
    cases h
    have hrelationship := exec_of_labelsFor hwritten
    exact propertiesAfter_of_relationship hr hrelationship name
  | assign =>
    obtain ⟨e, _, hassign, h⟩ := exec_bind_eq_ok.mp h
    cases h
    rw [givenTo, name?_of_assign hr hassign]
    exact List.flatMap_singleton _ _
  | matchRaw | writeRaw =>
    rw [givenTo_eq_nil rfl]
    exact propertiesAfter_eq_nil (fun d hd => List.mem_singleton.mp hd ▸ rfl)
      name
  | get | intentOf | chunk | size =>
    rw [givenTo_eq_nil rfl]
    rfl

/-- **A call appends its properties to the element it is answered with**,
and changes those of no other element.  A call that fails gives no
properties at all: what was declared before it failed are at most the ends
of its relationship. -/
theorem propertiesOf_perform (hr : r.store.Indexed)
    (h : exec call.perform r = (outcome, r')) (name : String) :
    r'.store.propertiesOf name = r.store.propertiesOf name ++
      call.givenTo name outcome := by
  cases outcome with
  | ok answer =>
    rw [hr.propertiesOf_applyAll (applyAll_of_perform h),
      propertiesAfter_of_perform hr h]
  | error fault =>
    have hnone : call.givenTo name (.error fault) = [] := rfl
    rw [hnone, List.append_nil]
    rcases stopsIn_of_perform h with ⟨done, rejected, later, hds, hdone, -⟩ |
        ⟨rfl, -⟩
    · have hends : ∀ d ∈ done, d.properties = [] := by
        intro d hd
        have hearlier : d ∈ (call.declarations r.names).dropLast := by
          rw [hds, List.dropLast_append_of_ne_nil (List.cons_ne_nil _ _)]
          exact List.mem_append_left _ hd
        exact properties_of_mem_dropLast hearlier
      rw [hr.propertiesOf_applyAll hdone, propertiesAfter_eq_nil hends,
        List.append_nil]
    · rfl

end StoreCall

namespace Shelf

/-- The properties that the calls of a store give to the element of a name
along a run. -/
def given (i : Nat) (name : String) (s : Shelf) (steps : List Step) :
    List Assignment :=
  (s.calls i steps).flatMap fun made =>
    made.2.givenTo name (made.1.perform i made.2).1

/-- **What a run has given to an element is all it has**, beside what it had
before, in order.  Calls of another store give it nothing. -/
theorem propertiesOf_after {s : Shelf} {i : Nat} (h : (s.store i).Indexed)
    (steps : List Step) (name : String) :
    ((s.after steps).store i).propertiesOf name =
      (s.store i).propertiesOf name ++ s.given i name steps := by
  induction steps generalizing s with
  | nil => exact (List.append_nil _).symm
  | cons step later ih =>
    have hlater := ih (indexed_step step h).1
    unfold given at hlater ⊢
    cases step with
    | fork =>
      rw [store_fork] at hlater
      exact hlater
    | call j made =>
      rw [calls]
      by_cases hij : j = i ∧ i < s.stores.size
      · rw [if_pos hij]
        obtain ⟨rfl, hi⟩ := hij
        rw [List.flatMap_cons, outcome_perform]
        rw [store_call_self hi] at hlater
        rcases hexec : exec made.perform (s.registry j) with ⟨outcome, r⟩
        have hregistry : (s.registry j).store.Indexed := h
        rw [hexec, StoreCall.propertiesOf_perform hregistry hexec,
          List.append_assoc] at hlater
        exact hlater
      · rw [if_neg hij]
        rw [store_call_of_ne hij] at hlater
        exact hlater

end Shelf

/-! ## The map of a list of properties -/

/-- What may be assigned to a property: a parameter, a fragment, a column of
a row or another property. -/
def isAssignable : Expression → Bool
  | .parameter _ | .raw _ | .column _ _ | .property _ _ => true
  | _ => false

/-- What calls may assign can be written. -/
theorem writable_of_isAssignable {a : Assignment}
    (h : isAssignable a.value = true) : a.Writable := by
  rw [Assignment.Writable]
  cases hvalue : a.value with
  | parameter | raw | column | property => exact ⟨_, rfl⟩
  | var | distinct | call | aliased | misplaced | absent =>
    rw [hvalue] at h
    cases h

/-- A map shows a list of properties: it has exactly their keys, each once
and in the order of their first assignments, and at every key the text of
the value that the last assignment gives to it. -/
structure Shows (map : List (String × String))
    (assignments : List Assignment) : Prop where
  keys : map.map Prod.fst = (assignments.map Assignment.key).eraseDups
  /-- The keys are different also as they are written. -/
  once : (map.map fun entry => Text.identifier entry.1).Nodup
  values : ∀ key text, map.lookup key = some text ↔
    ∃ before a later, assignments = before ++ a :: later ∧ a.key = key ∧
      (∀ b ∈ later, b.key ≠ key) ∧ a.value.text = .ok text

/-- A key behind others is kept if it is new. -/
theorem eraseDups_concat (keys : List String) (key : String) :
    (keys ++ [key]).eraseDups =
      if key ∈ keys then keys.eraseDups else keys.eraseDups ++ [key] := by
  rw [List.eraseDups_append]
  by_cases h : key ∈ keys <;> simp [List.removeAll, List.eraseDups_cons, h]

/-- The last assignment to a key, seen from the end of the list. -/
theorem exists_last_iff {p : Assignment → Prop}
    {assignments : List Assignment} {key : String} :
    (∃ before a later, assignments = before ++ a :: later ∧ a.key = key ∧
        (∀ b ∈ later, b.key ≠ key) ∧ p a) ↔
      ∃ a, assignments.reverse.find? (fun a => a.key == key) = some a ∧
      p a := by
  simp only [List.find?_eq_some_iff_append]
  constructor
  · rintro ⟨before, a, later, rfl, hkey, hlater, hp⟩
    exact ⟨a, ⟨by simpa using hkey, later.reverse, before.reverse, by simp,
      by simpa using hlater⟩, hp⟩
  · rintro ⟨a, ⟨hkey, later, before, hsplit, hlater⟩, hp⟩
    refine ⟨before.reverse, a, later.reverse, ?_, by simpa using hkey,
      by simpa using hlater, hp⟩
    rw [← List.reverse_inj, hsplit]
    simp

namespace Shows

variable {map entries : List (String × String)}
    {assignments more : List Assignment}
variable {a : Assignment} {text : String}

/-- No assignments show as an empty map. -/
theorem nil : Shows [] [] where
  keys := rfl
  once := List.nodup_nil
  values key text := by simp

/-- **One assignment more is one entry more put into the map.**  Seen from
the end of the list, the new assignment is the first one that is looked at. -/
theorem put (h : Shows map assignments) (htext : a.value.text = .ok text) :
    Shows (putEntry a.key text map) (assignments ++ [a]) where
  keys := by
    rw [keys_putEntry, h.keys, List.map_append, List.map_singleton,
      eraseDups_concat]
    simp only [List.mem_eraseDups]
  once := by
    have hkeys : (map.map Prod.fst).Nodup := by
      refine List.Nodup.of_map Text.identifier ?_
      rw [List.map_map]
      exact h.once
    have hput : ((putEntries [(a.key, text)] map).map Prod.fst).Nodup :=
      nodup_keys_putEntries hkeys
    have hwritten := hput.map identifier_injective
    rw [List.map_map] at hwritten
    exact hwritten
  values key shown := by
    have hbefore := h.values key shown
    rw [exists_last_iff] at hbefore ⊢
    rw [List.reverse_concat, List.find?_cons]
    by_cases hkey : a.key = key
    · rw [beq_iff_eq.mpr hkey, ← hkey, lookup_putEntry_self]
      simp [htext]
    · rw [beq_eq_false_iff_ne.mpr hkey,
        lookup_putEntry_of_ne _ _ _ (Ne.symm hkey)]
      exact hbefore

/-- Further assignments update the map key by key. -/
theorem putEntries (h : Shows map assignments)
    (hmore : more.mapM Assignment.entry = .ok entries) :
    Shows (putEntries entries map) (assignments ++ more) := by
  induction more generalizing map assignments entries with
  | nil =>
    cases hmore
    rw [List.append_nil]
    exact h
  | cons a later ih =>
    rw [List.mapM_cons] at hmore
    obtain ⟨entry, hentry, hmore⟩ := bind_ok_inversion hmore
    obtain ⟨others, hlater, hmore⟩ := bind_ok_inversion hmore
    obtain ⟨text, htext, hentry⟩ := bind_ok_inversion hentry
    cases hmore
    cases hentry
    have hrest := ih (h.put htext) hlater
    rw [List.append_assoc] at hrest
    exact hrest

end Shows

section

variable {assignments more : List Assignment}
    {entries map : List (String × String)}

/-- Properties are written if each of them can be. -/
theorem exists_propertyTexts_iff :
    (∃ map, propertyTexts assignments = .ok map) ↔
    ∀ a ∈ assignments, a.Writable := by
  constructor
  · rintro ⟨map, hmap⟩ a ha
    obtain ⟨entries, hentries, -⟩ := bind_ok_inversion hmap
    obtain ⟨entry, hentry⟩ := mapM_ok_inversion hentries a ha
    obtain ⟨text, htext, -⟩ := bind_ok_inversion hentry
    exact ⟨text, htext⟩
  · intro h
    have hends : FailsOnlyBy (fun _ => False) (propertyTexts assignments) :=
      Ends.answer (Ends.mapM fun a ha =>
        (Filter.ends_text_of_writable (h a ha)).answer)
    cases hmap : propertyTexts assignments with
    | error fault =>
      rw [hmap] at hends
      exact hends.elim
    | ok map => exact ⟨map, rfl⟩

/-- The map properties are written as shows them. -/
theorem shows_of_propertyTexts (h : propertyTexts assignments = .ok map) :
    Shows map assignments := by
  obtain ⟨entries, hentries, hmap⟩ := bind_ok_inversion h
  cases hmap
  exact Shows.nil.putEntries hentries

/-- **Appending properties is updating the map key by key.** -/
theorem propertyTexts_append (h : propertyTexts assignments = .ok map)
    (hmore : more.mapM Assignment.entry = .ok entries) :
    propertyTexts (assignments ++ more) = .ok (putEntries entries map) := by
  obtain ⟨first, hfirst, hmap⟩ := bind_ok_inversion h
  cases hmap
  have hwritten : putEntries (first ++ entries) [] =
      putEntries entries (putEntries first []) :=
    List.foldl_append
  rw [propertyTexts, List.mapM_append, hfirst, hmore, ← hwritten]
  rfl

end

/-! ## The text of an element -/

namespace Element

/-- What is written in front of the properties of an element. -/
def opening : Element → String
  | node n =>
    "(" ++ (if n.name.isEmpty then "" else Text.identifier n.name) ++
      labelsText n.labels
  | relationship r =>
    nodeText r.left ++ (if r.direction = .rightToLeft then "<-" else "-") ++
      "[" ++
      (if r.name.isEmpty then "" else Text.identifier r.name) ++
      (if r.types.isEmpty then "" else ":" ++
        "|".intercalate (r.types.map Text.identifier))
  | raw _ | misplaced _ => ""

/-- What is written behind the properties of an element. -/
def closing : Element → String
  | node _ => ")"
  | relationship r => "]" ++
      (if r.direction = .leftToRight then "->" else "-") ++ nodeText r.right
  | raw _ | misplaced _ => ""

/-- An element with a map between what stands in front of its properties and
what stands behind: the entries in braces, each a quoted key and a value,
and nothing if there are no entries. -/
def writtenWith (e : Element) (map : List (String × String)) : String :=
  e.opening ++
    (if map = [] then ""
    else " \x7b" ++
      ", ".intercalate (map.map fun entry =>
        Text.identifier entry.1 ++ ": " ++ entry.2) ++ "\x7d") ++
    e.closing

/-- A map is written in braces, unless it is empty. -/
theorem propertyMapText_eq (map : List (String × String)) :
    propertyMapText map =
      if map = [] then ""
      else " \x7b" ++
        ", ".intercalate (map.map fun entry =>
          Text.identifier entry.1 ++ ": " ++ entry.2) ++ "\x7d" := by
  cases map <;> rfl

/-- An empty map is not written. -/
theorem writtenWith_nil (e : Element) :
    e.writtenWith [] = e.opening ++ e.closing := by
  rw [writtenWith, if_pos rfl, String.append_empty]

/-- A node is written with its map. -/
theorem nodeText_eq (n : Node) (map : List (String × String)) :
    nodeText n.name n.labels map = (node n).writtenWith map := by
  rw [nodeText, propertyMapText_eq]
  rfl

/-- A relationship is written with its map, between its ends. -/
theorem connect_eq (r : Relationship) (map : List (String × String)) :
    r.direction.connect (relationshipText r.name r.types map)
    (nodeText r.left) (nodeText r.right) =
      (relationship r).writtenWith map := by
  rw [relationshipText, propertyMapText_eq]
  cases hdirection : r.direction <;>
    simp only [Direction.connect, writtenWith, opening, closing, hdirection,
      String.append_assoc,
      reduceCtorEq, if_true, if_false]

variable {e : Element} {name : String}

/-- An element with a name is written with the map of its properties. -/
theorem text_eq (hname : e.name? = some name) :
    e.text = (propertyTexts e.properties).map e.writtenWith := by
  cases e with
  | node n =>
    have hproperties : (node n).properties = n.properties := rfl
    rw [text, Node.text, hproperties]
    cases propertyTexts n.properties with
    | error fault => rfl
    | ok map => exact congrArg Except.ok (nodeText_eq n map)
  | relationship r =>
    have hproperties : (relationship r).properties = r.properties := rfl
    rw [text, Relationship.text, hproperties]
    cases propertyTexts r.properties with
    | error fault => rfl
    | ok map => exact congrArg Except.ok (connect_eq r map)
  | raw | misplaced => cases hname

/-- A named element can be written if its properties can. -/
theorem writable_iff (hname : e.name? = some name) :
    e.Writable ↔ ∀ a ∈ e.properties, a.Writable := by
  cases e with
  | node | relationship => exact Iff.rfl
  | raw | misplaced => cases hname

/-- Then it has a text, and only then. -/
theorem exists_text_iff (hname : e.name? = some name) :
    (∃ text, e.text = .ok text) ↔ e.Writable := by
  rw [writable_iff hname, ← exists_propertyTexts_iff, text_eq hname]
  cases propertyTexts e.properties with
  | error fault => exact iff_of_false (fun ⟨_, h⟩ => nomatch h) fun ⟨_, h⟩ =>
    nomatch h
  | ok map => exact iff_of_true ⟨_, rfl⟩ ⟨_, rfl⟩

end Element

namespace Shelf

/-- **A map of properties keeps every key once, with its latest value.**
Whatever was done to a shelf, also by calls that failed, a node or a
relationship has the properties that the calls answered with it were given,
one after the other.  It has a text if all their values have one: then what
is written between its parts is a map that shows its properties, and no map
at all if it has none.  Whatever is done to the shelf afterwards, its map is
that map, updated key by key with what it is given further.  What is given
further comes behind, so it is put into the map there is. -/
theorem map_keeps_latest (names : NameSequence) (steps : List Step) (i : Nat)
    {name : String} {e : Element}
    (hget : ((({ names } : Shelf).after steps).store i).get? name = some e) :
    let start : Shelf := { names }
    e.properties = start.given i name steps ∧
      ((∃ text, e.text = .ok text) ↔ e.Writable) ∧
      ((∀ a ∈ e.properties, isAssignable a.value = true) → e.Writable) ∧
      (e.properties = [] → e.text = .ok (e.opening ++ e.closing)) ∧
      (e.Writable → ∃ map, Shows map e.properties ∧
        e.text = .ok (e.writtenWith map) ∧
        ∀ more entries, ((start.after steps).given i name more).mapM
          Assignment.entry = .ok entries →
          ∃ later, ((start.after (steps ++ more)).store i).get? name =
            some later ∧
            Shows (putEntries entries map) later.properties ∧
            later.text =
              .ok (later.writtenWith (putEntries entries map))) := by
  intro start
  have hempty : (start.store i).Indexed := by
    rw [store_new]
    exact Store.indexed_empty
  have hindexed := (indexed_after steps hempty).1
  obtain ⟨hname, -⟩ := hindexed.get?_eq_some_iff.mp hget
  refine ⟨?_, Element.exists_text_iff hname, fun hvalues => ?_, fun hnone =>
    ?_, fun hwritable => ?_⟩
  · have hnothing : (start.store i).propertiesOf name = [] := by
      rw [store_new]
      rfl
    rw [← Store.propertiesOf_of_get? hget, propertiesOf_after hempty,
      hnothing, List.nil_append]
  · rw [Element.writable_iff hname]
    exact fun a ha => writable_of_isAssignable (hvalues a ha)
  · rw [Element.text_eq hname, hnone, ← e.writtenWith_nil]
    rfl
  · obtain ⟨map, hmap⟩ :=
      exists_propertyTexts_iff.mpr ((Element.writable_iff hname).mp hwritable)
    refine ⟨map, shows_of_propertyTexts hmap, ?_,
      fun more entries hentries => ?_⟩
    · rw [Element.text_eq hname, hmap]
      rfl
    · obtain ⟨hlast, hgrows⟩ := indexed_after more hindexed
      obtain ⟨later, hlater, -⟩ := hgrows.get? hindexed hlast hget
      obtain ⟨hlaterName, -⟩ := hlast.get?_eq_some_iff.mp hlater
      have hproperties := propertiesOf_after hindexed more name
      rw [Store.propertiesOf_of_get? hlater,
        Store.propertiesOf_of_get? hget] at hproperties
      have hupdated := propertyTexts_append hmap hentries
      rw [← hproperties] at hupdated
      refine ⟨later, ?_, shows_of_propertyTexts hupdated, ?_⟩
      · rw [after_append]
        exact hlater
      · rw [Element.text_eq hlaterName, hupdated]
        rfl

/-- A relationship that is given one key twice at once, and another one
again behind a call that fails. -/
def rewriting : List Step :=
  [.call 0 (.writeRelationship .merging (some "a:A") (some "b") (.one "R")
    (some "r")
      [⟨"r", "x", .raw "1"⟩, ⟨"r", "y", .raw "2"⟩,
        ⟨"r", "x", .raw "3"⟩] none),
    .call 0 (.assign "s" [⟨"s", "x", .raw "4"⟩] .toCreate), .fork,
    .call 0
      (.assign "r" [⟨"r", "y", .parameter ⟨"param0", .null⟩⟩] .toCreate)]

/-- A relationship is given two keys twice each; it is written with each of
them once, at its first place and with its last value. -/
theorem map_keeps_latest_of_rewriting :
    let start : Shelf := {}
    let again : Step := .call 0 (.assign "r" [⟨"r", "x", .raw "5"⟩] .toCreate)
    ∃ e map, ((start.after rewriting).store 0).get? "r" = some e ∧
    e.Writable ∧
      Shows map e.properties ∧ map.map Prod.fst = ["x", "y"] ∧
      e.text = .ok (e.writtenWith map) ∧
      e.writtenWith map = "(a)-[r:R \x7bx: 3, y: $param0\x7d]->(b)" ∧
      ∃ later, ((start.after (rewriting ++ [again])).store 0).get? "r" =
        some later ∧
        Shows (putEntries [("x", "5")] map) later.properties := by
  intro start again
  have htold : (((start.after rewriting).store 0).get? "r").map (fun e =>
      e.text.toOption) =
      some (some "(a)-[r:R \x7bx: 3, y: $param0\x7d]->(b)") := by
        decide +kernel
  have hagain : (((start.after rewriting).given 0 "r" [again]).mapM
      Assignment.entry).toOption =
      some [("x", "5")] := by decide +kernel
  obtain ⟨e, hget, hshown⟩ := Option.map_eq_some_iff.mp htold
  have htext := eq_ok_of_toOption hshown
  obtain ⟨hgiven, hwritable, -, -, hmap⟩ :=
    map_keeps_latest {} rewriting 0 hget
  have hall := hwritable.mp ⟨_, htext⟩
  obtain ⟨map, hshows, hwritten, hlater⟩ := hmap hall
  have hkeys : map.map Prod.fst = ["x", "y"] := by
    rw [hshows.keys, hgiven]
    decide +kernel
  obtain ⟨later, hfound, hupdated, -⟩ :=
    hlater [again] _ (eq_ok_of_toOption hagain)
  exact ⟨e, map, hget, hall, hshows, hkeys, hwritten,
    Except.ok.inj (hwritten.symm.trans htext), later,
    hfound, hupdated⟩

end Shelf

end GraphQuery.Pattern

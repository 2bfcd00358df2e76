import GraphQuery.Proofs.Patterns.Traces

/-!
# The ends of relationships

A name that stands for a relationship has its ends from the declaration that
came first.  A later one of the same name leaves them alone, whatever its
own ends are (`Store.Indexed.ends?_apply`), and no call ever changes them.
-/

namespace GraphQuery.Pattern

open GraphQuery.Computation

/-- The ends of an element that is a relationship. -/
def Element.ends? : Element → Option (String × String)
  | relationship r => some (r.left, r.right)
  | _ => none

/-- The ends of the relationship of a name. -/
def Store.ends? (s : Store) (name : String) : Option (String × String) :=
  (s.find? name).bind fun entry => entry.element.ends?

/-- The ends a declaration gives the relationship of a name. -/
def Declaration.ends? (name : String) : Declaration → Option (String × String)
  | relationship new _ => if new.name = name then some (new.left,
      new.right) else none
  | _ => none

namespace Declaration

variable {d : Declaration} {known entry : Entry} {name : String}

/-- A declaration tells the ends of its own name only. -/
theorem ends?_of_ne (h : d.name? ≠ some name) : d.ends? name = none := by
  cases d with
  | relationship new intent => exact if_neg fun heq => h (congrArg some heq)
  | node | raw | assign => rfl

/-- A new entry has the ends it is declared with. -/
theorem ends?_of_entry? (h : d.entry? = some entry)
    (hname : d.name? = some name) :
    entry.element.ends? = d.ends? name := by
  cases d with
  | relationship new intent =>
    cases h
    exact (if_pos (Option.some.inj hname)).symm
  | node | raw | assign => cases h <;> rfl

/-- A relationship keeps its ends, and nothing else comes to have any. -/
theorem ends?_of_extend (h : d.extend known = some entry) :
    entry.element.ends? = (known.element.ends? <|> d.ends? name) := by
  rcases known with ⟨_ | _ | _ | _, _⟩ <;> cases d <;> cases h <;> rfl

end Declaration

namespace Store.Indexed

variable {s s' : Store} {d : Declaration} {name : String}

/-- **The ends of a relationship are those of its first declaration.** -/
theorem ends?_apply (h : s.Indexed) (happly : d.apply s = .ok s') :
    s'.ends? name = (s.ends? name <|> d.ends? name) := by
  have hmakes := Declaration.makes_of_apply happly
  unfold Store.ends?
  by_cases hd : d.name? = some name
  · rcases h.find?_of_makes_self hmakes hd with
      ⟨hnew, entry, hentry, hfind⟩ | ⟨known, entry, hknown, hentry, hfind⟩
    · rw [hnew, hfind]
      exact Declaration.ends?_of_entry? hentry hd
    · rw [hknown, hfind]
      exact Declaration.ends?_of_extend hentry
  · rw [h.find?_of_makes_of_ne hmakes hd, Declaration.ends?_of_ne hd]
    simp

/-- Declarations keep the index. -/
theorem applyAll {ds : List Declaration} (h : s.Indexed)
    (happly : s.applyAll ds = .ok s') :
    s'.Indexed :=
  Store.applyAll_induction Store.Indexed happly (fun _ _ _ _ hmakes hu =>
    hu.of_makes hmakes) h

/-- **A name has the ends it had**, else those of the first declaration that
tells some. -/
theorem ends?_applyAll {ds : List Declaration} (h : s.Indexed)
    (happly : s.applyAll ds = .ok s') :
    s'.ends? name =
      (s.ends? name <|> ds.findSome? (Declaration.ends? name)) := by
  induction ds generalizing s with
  | nil =>
    cases happly
    simp
  | cons d later ih =>
    obtain ⟨t, hd, hlater⟩ := Store.applyAll_cons_eq_ok.mp happly
    rw [ih (h.apply hd) hlater, h.ends?_apply hd, List.findSome?_cons]
    cases s.ends? name <;> cases d.ends? name <;> rfl

end Store.Indexed

/-- **No call changes the ends of a relationship**, whether it fails or not. -/
theorem Traced.ends? {r t : Registry} {past : List (Naming Registry)}
    {name : String} {ends : String × String} (h : Traced r past t)
    (hr : r.store.Indexed) (hends : r.store.ends? name = some ends) :
    t.store.ends? name = some ends := by
  induction h with
  | refl => exact hends
  | drawn before answer hstore hnames ih => exact hstore ▸ ih
  | spelled before own answer hstore hnames ih => exact hstore ▸ ih
  | declared before d happly hnames hgiven ih =>
    rw [(before.indexed hr).ends?_apply happly, ih]
    rfl

/-- The name a relationship goes by that is given types, or a name, or
neither. -/
def relationshipName (types : LabelArgument) (name : Option String)
    (names : NameSequence) : String :=
  (decode .relationship (.many (extractDirection types.labels).1)
    name names).1.1

/-- A relationship is declared under the name that is read for it. -/
theorem StoreCall.name_relationshipGiven (left right : Option String)
    (given : LabelArgument) (name : Option String)
    (direction : Option Direction) (intent : Intent)
    (properties : List Assignment) (names : NameSequence) :
    (relationshipGiven left right given name direction intent
      properties names).name =
      relationshipName given name
        (endDeclarations right intent
          (endDeclarations left intent names).names).names := by
  rw [relationshipGiven, relationshipName]

/-- A plain name is read as it is. -/
theorem relationshipName_of_plain {name : String} (h : Plain name)
    (types : LabelArgument) (names : NameSequence) :
    relationshipName types (some name) names = name := by
  rw [relationshipName, decode_some_of_plain h]

/-- An end that is not given is anonymous. -/
theorem endDeclarations_none (intent : Intent) (names : NameSequence) :
    endDeclarations none intent names = ⟨names.draw.1, [], names.draw.2⟩ :=
  rfl

/-- A plain end is taken as it is. -/
theorem endDeclarations_of_plain {name : String} (h : Plain name)
    (intent : Intent) (names : NameSequence) :
    endDeclarations (some name) intent names = ⟨name, [], names⟩ := by
  have hgiven : (some name).filter (fun text => !Text.isBlankText text) =
      some name := by
    rw [Option.filter_some, h.isBlankText_eq]
    rfl
  have hlabels : LabelArgument.none.labels = [] := rfl
  rw [endDeclarations, hgiven]
  dsimp only
  rw [decode_some_of_plain h, hlabels]
  rfl

/-- An end tells the ends of no relationship. -/
theorem findSome?_ends?_endDeclarations (given : Option String)
    (intent : Intent) (names : NameSequence) (name : String) :
    (endDeclarations given intent names).declared.findSome?
      (Declaration.ends? name) = none := by
  unfold endDeclarations
  split
  · rfl
  · dsimp only
    split <;> rfl

/-- What a call that succeeds does for the ends of relationships: those of
its own name, if there was no relationship of that name, are the ends it is
given. -/
theorem ends?_of_matchRelationship {r s : Registry}
    {left right name : Option String} {types : LabelArgument}
    {direction : Option Direction} {optional : Bool} {answer : StoreAnswer}
    (hr : r.store.Indexed)
    (h : exec (StoreCall.matchRelationship left right types name
      direction optional).perform r =
      (.ok answer, s)) (other : String) :
    let intent := Intent.matching optional
    let leftEnd := endDeclarations left intent r.names
    let rightEnd := endDeclarations right intent leftEnd.names
    s.store.ends? other = (r.store.ends? other <|>
      if relationshipName types name rightEnd.names = other then some
          (leftEnd.name, rightEnd.name)
      else none) := by
  have happly := StoreCall.applyAll_of_perform h
  rw [StoreCall.declarations] at happly
  intro intent leftEnd rightEnd
  rw [hr.ends?_applyAll happly, relationshipDeclarations,
    List.findSome?_append,
    List.findSome?_append, findSome?_ends?_endDeclarations,
    findSome?_ends?_endDeclarations,
    Option.none_or, Option.none_or, List.findSome?_singleton,
    Declaration.ends?, relationshipName]

namespace Store.Indexed

variable {s s' : Store} {e : Element} {intent : Intent}

/-- A node that is declared has its name. -/
theorem name?_of_declareNode {name : String} {labels : List String}
    {properties : List Assignment} (h : s.Indexed)
    (hdeclare : s.declareNode name labels properties intent = .ok (e, s')) :
    e.name? = some name := by
  obtain ⟨-, rfl, -⟩ | ⟨_, _, hknown, rfl, -⟩ := declareNode_cases hdeclare
  · rfl
  · exact (h.find?_eq_some_iff.mp hknown).2

/-- A relationship that is declared has its name. -/
theorem name?_of_declareRelationship {new : Relationship} (h : s.Indexed)
    (hdeclare : s.declareRelationship new intent = .ok (e, s')) :
    e.name? = some new.name := by
  obtain ⟨-, rfl, -⟩ | ⟨_, _, hknown, rfl, -⟩ :=
    declareRelationship_cases hdeclare
  · rfl
  · exact (h.find?_eq_some_iff.mp hknown).2

end Store.Indexed

/-- A node that is registered has the name that is read for it. -/
theorem Registration.name?_of_node {r s : Registry} {given : LabelArgument}
    {name : Option String} {intent : Intent} {properties : List Assignment}
    {e : Element} (hr : r.store.Indexed)
    (h : exec (node given name intent properties) r = (.ok e, s)) :
    e.name? = some (decode .node given name r.names).1.1 := by
  obtain ⟨hdeclared, -⟩ := declared_of_node h
  exact hr.name?_of_declareNode hdeclared

/-- A relationship that is registered goes by its own name, wherever its
ends come from. -/
theorem Registration.name?_of_relationship {r s : Registry}
    {left right name : Option String} {given : LabelArgument}
    {direction : Option Direction} {intent : Intent}
    {properties : List Assignment} {e : Element} (hr : r.store.Indexed)
    (h : exec (relationship left right given name direction
      intent properties) r = (.ok e, s)) :
    e.name? = some (relationshipName given name
      (endDeclarations right intent
        (endDeclarations left intent r.names).names).names) := by
  obtain ⟨s, hends, hdeclared⟩ := declared_of_relationship h
  rw [(hr.applyAll hends).name?_of_declareRelationship hdeclared,
    StoreCall.name_relationshipGiven]

end GraphQuery.Pattern

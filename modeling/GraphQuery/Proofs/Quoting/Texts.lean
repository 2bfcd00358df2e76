import GraphQuery.Pattern.Element
import GraphQuery.Proofs.Quoting.Legible
import Mathlib.Data.Set.Function

/-!
# Names cannot forge elements

Wherever a name is written, in front of it and behind it stand characters
that tell where it ends: the brackets of a node or a relationship, the
colons and bars between labels and types, the dot or the bracket behind a
variable, a new name.  So each text is legible part by part, and what has
the same text is the same (`names_forge_no_element`).
-/

namespace GraphQuery

open GraphQuery.Text

/-! ### Names and labels -/

/-- A name can be read back unless more of it may follow. -/
theorem legible_identifier :
    Legible (fun name : String => (identifier name).toList) isNamePart := by
  have hwritten : (fun name : String => (identifier name).toList) =
      fun name => quoteIdentifier name.toList := by
    funext name
    exact String.toList_ofList
  rw [hwritten]
  exact legible_quoteIdentifier.comp fun _ _ => String.toList_inj.mp

/-- Different names are written differently. -/
theorem identifier_injective : Function.Injective identifier :=
  fun _ _ h => legible_identifier.injective (congrArg String.toList h)

/-- A text in quotes can be read back, whatever follows. -/
theorem legible_stringLiteral :
    Legible (fun text : String => (stringLiteral text).toList) fun _ =>
      false := by
  have hwritten : (fun text : String => (stringLiteral text).toList) =
      fun text => quoteString text.toList := by
    funext text
    exact String.toList_ofList
  rw [hwritten]
  exact legible_quoteString.comp fun _ _ => String.toList_inj.mp

/-- A name cannot stand behind another one. -/
theorem not_follows_identifier (name : String) (r : List Char) :
    ¬Follows isNamePart ((identifier name).toList ++ r) := by
  rw [identifier, String.toList_ofList]
  exact not_follows_quoteIdentifier _ r

/-- A name that may be missing, as it stands in a pattern. -/
def writtenName (name : String) : List Char :=
  if name = "" then [] else (identifier name).toList

/-- A name that may be missing can be read back. -/
theorem legible_writtenName : Legible writtenName isNamePart :=
  legible_identifier.optional "" not_follows_identifier

/-- A name that is missing is not written. -/
theorem toList_nameText (name : String) :
    (if name.isEmpty then "" else identifier name).toList =
      writtenName name := by
  rw [writtenName]
  by_cases h : name = ""
  · rw [if_pos h, if_pos (String.isEmpty_iff.mpr h)]
    rfl
  · rw [if_neg h, if_neg fun hempty => h (String.isEmpty_iff.mp hempty)]

/-- Labels are written behind a colon each. -/
theorem toList_labelsText (labels : List String) :
    (labelsText labels).toList =
      listed ':' (fun label => (identifier label).toList) labels := by
  rw [labelsText, String.toList_join, List.flatMap_map, listed]
  congr 1
  funext label
  exact String.toList_append

/-- Labels can be read back. -/
theorem legible_labels :
    Legible (listed ':' fun label => (identifier label).toList)
    (also isNamePart ':') :=
  legible_identifier.list (by decide)

/-- Texts set apart are the first one, and each further one behind the
separator. -/
theorem intercalate_cons (c : Char) (first : List Char)
    (others : List (List Char)) :
    [c].intercalate (first :: others) = first ++ others.flatMap fun next =>
      c :: next := by
  induction others generalizing first with
  | nil => simp [List.intercalate]
  | cons next later ih =>
    rw [List.intercalate_cons_cons, ih]
    simp

/-- Types are written behind one colon, set apart by bars. -/
theorem toList_typesText (types : List String) :
    (if types.isEmpty then "" else ":" ++
      "|".intercalate (types.map identifier)).toList =
      joinedBehind ':' '|' (fun type => (identifier type).toList) types := by
  cases types with
  | nil => rfl
  | cons type others =>
    have hjoined := intercalate_cons '|' (identifier type).toList
      (others.map fun other => (identifier other).toList)
    rw [List.flatMap_map] at hjoined
    rw [List.isEmpty_cons, if_neg Bool.false_ne_true, String.toList_append,
      String.toList_intercalate,
      List.map_cons, List.map_cons, List.map_map]
    exact congrArg (':' :: ·) hjoined

/-! ### Patterns -/

namespace Pattern

/-- A node without properties can be read back whatever stands behind it. -/
theorem legible_nodeText :
    Legible (fun node : String × List String =>
      (nodeText node.1 node.2).toList) fun _ => false := by
  have hwritten : (fun node : String × List String =>
      (nodeText node.1 node.2).toList) =
      fun node => ['('] ++ (writtenName node.1 ++
        listed ':' (fun label => (identifier label).toList) node.2 ++
          [')']) := by
    funext node
    rw [← toList_nameText, ← toList_labelsText]
    simp [nodeText, propertyMapText]
  rw [hwritten]
  have hparts := legible_writtenName.append legible_labels
    fun labels r hr => follows_listed (by decide) _ labels hr
  exact (hparts.close (by decide) []).prepend ['(']

/-- What stands on an arrow can be read back. -/
theorem legible_relationshipText :
    Legible (fun r : String × List String =>
      (relationshipText r.1 r.2 []).toList)
      fun _ => false := by
  have hwritten : (fun r : String × List String =>
      (relationshipText r.1 r.2 []).toList) =
      fun r => ['['] ++ (writtenName r.1 ++
        joinedBehind ':' '|' (fun type => (identifier type).toList) r.2 ++
          [']']) := by
    funext r
    rw [← toList_nameText, ← toList_typesText]
    simp [relationshipText, propertyMapText]
  rw [hwritten]
  have hjoined : Legible (joinedBehind ':' '|' fun type : String =>
      (identifier type).toList)
      (also (also isNamePart '|') ':') :=
    legible_identifier.joined ':' (by decide)
  have hparts := legible_writtenName.append hjoined
    fun types r hr => follows_joinedBehind (by decide) _ types hr
  exact (hparts.close (by decide) []).prepend ['[']

/-- What stands between the left end of a relationship and the relationship. -/
def Direction.lead : Direction → List Char
  | leftToRight | any => ['-']
  | rightToLeft => ['<', '-']

/-- What stands between a relationship and its right end. -/
def Direction.trail : Direction → List Char
  | leftToRight => ['-', '>']
  | rightToLeft | any => ['-']

/-- An arrow is written in two halves around what stands on it. -/
theorem Direction.toList_connect (direction : Direction)
    (relationship left right : String) :
    (direction.connect relationship left right).toList =
      left.toList ++ (direction.lead ++
        (relationship.toList ++ (direction.trail ++ right.toList))) := by
  cases direction <;> simp [connect, lead, trail]

/-- What stands on an arrow begins with a bracket. -/
theorem toList_relationshipText (name : String) (types : List String) :
    ∃ rest, (relationshipText name types []).toList = '[' :: rest := by
  simp [relationshipText]

/-- A node begins with one. -/
theorem toList_nodeText (name : String) :
    ∃ rest, (nodeText name).toList = '(' :: rest := by
  simp [nodeText]

/-- The arrow in front of a relationship tells whether it points left. -/
theorem Direction.lead_inj {d d' : Direction} {x x' : List Char}
    (h : d.lead ++ '[' :: x = d'.lead ++ '[' :: x') :
    (d = rightToLeft ↔ d' = rightToLeft) ∧ x = x' := by
  cases d <;> cases d' <;> simp_all [lead]

/-- The arrow behind a relationship tells whether it points right. -/
theorem Direction.trail_inj {d d' : Direction} {x x' : List Char}
    (h : d.trail ++ '(' :: x = d'.trail ++ '(' :: x') :
    (d = leftToRight ↔ d' = leftToRight) ∧ x = x' := by
  cases d <;> cases d' <;> simp_all [trail]

/-- A direction is told by its two halves. -/
theorem Direction.eq_of_iff {d d' : Direction}
    (hleft : d = rightToLeft ↔ d' = rightToLeft)
    (hright : d = leftToRight ↔ d' = leftToRight) : d = d' := by
  cases d <;> cases d' <;> simp_all

/-- A relationship without properties is told by its text: by its ends, by
the arrow between them and by what stands on it.  It is read from left to
right: an end, one half of the arrow, what stands on it, the other half, an
end. -/
theorem connect_injective {d d' : Direction}
    {name name' left left' right right' : String} {types types' : List String}
    (h : d.connect (relationshipText name types []) (nodeText left)
      (nodeText right) =
      d'.connect (relationshipText name' types' []) (nodeText left')
      (nodeText right')) :
    d = d' ∧ name = name' ∧ types = types' ∧ left = left' ∧
    right = right' := by
  have heq := congrArg String.toList h
  rw [Direction.toList_connect, Direction.toList_connect] at heq
  obtain ⟨hleft, hrest⟩ :=
    legible_nodeText (left, []) (left', []) _ _ (follows_anything _)
    (follows_anything _) heq
  obtain ⟨x, hx⟩ := toList_relationshipText name types
  obtain ⟨x', hx'⟩ := toList_relationshipText name' types'
  have hlead : d.lead ++ '[' :: (x ++ (d.trail ++ (nodeText right).toList)) =
      d'.lead ++ '[' :: (x' ++ (d'.trail ++ (nodeText right').toList)) := by
    rw [← List.cons_append, ← hx, ← List.cons_append, ← hx']
    exact hrest
  obtain ⟨hpointsLeft, hbody⟩ := Direction.lead_inj hlead
  have hbody' : (relationshipText name types []).toList ++
      (d.trail ++ (nodeText right).toList) =
      (relationshipText name' types' []).toList ++
        (d'.trail ++ (nodeText right').toList) := by
    rw [hx, hx', List.cons_append, List.cons_append, hbody]
  obtain ⟨hmiddle, hend⟩ := legible_relationshipText (name, types) (name',
    types') _ _
    (follows_anything _) (follows_anything _) hbody'
  obtain ⟨y, hy⟩ := toList_nodeText right
  obtain ⟨y', hy'⟩ := toList_nodeText right'
  rw [hy, hy'] at hend
  obtain ⟨hpointsRight, hlast⟩ := Direction.trail_inj hend
  have hright : (nodeText right).toList = (nodeText right').toList := by
    rw [hy, hy', hlast]
  obtain ⟨rfl, rfl⟩ := Prod.mk.inj hmiddle
  have hends : ((right, []) : String × List String) = (right', []) :=
    legible_nodeText.injective hright
  exact ⟨Direction.eq_of_iff hpointsLeft hpointsRight, rfl, rfl,
    (Prod.mk.inj hleft).1,
    (Prod.mk.inj hends).1⟩

namespace Element

/-- A node or a relationship without properties. -/
def IsBare : Element → Prop
  | node n => n.properties = []
  | relationship r => r.properties = []
  | raw _ | misplaced _ => False

/-- A node without properties is written by its name and labels. -/
theorem text_node {n : Node} (h : n.properties = []) :
    (node n).text = .ok (nodeText n.name n.labels) := by
  rw [text, Node.text, h]
  rfl

/-- A relationship without properties is written by its name, its types and
its ends. -/
theorem text_relationship {r : Relationship} (h : r.properties = []) :
    (relationship r).text =
      .ok (r.direction.connect (relationshipText r.name r.types [])
      (nodeText r.left) (nodeText r.right)) := by
  rw [text, Relationship.text, h]
  rfl

/-- A node is not written as a relationship is. -/
theorem nodeText_ne_connect (name : String) (labels : List String)
    (d : Direction) (relationship left right : String) :
    nodeText name labels ≠ d.connect relationship (nodeText left)
    (nodeText right) := by
  intro h
  have heq := congrArg String.toList h
  rw [Direction.toList_connect,
    ← List.append_nil (nodeText name labels).toList] at heq
  obtain ⟨-, hrest⟩ :=
    legible_nodeText (name, labels) (left, []) _ _ (follows_anything _)
    (follows_anything _) heq
  cases d <;> cases hrest

/-- **Nodes and relationships without properties are told by their texts.** -/
theorem text_injOn : Set.InjOn text {e | e.IsBare} := by
  intro e he e' he' heq
  cases e with
  | node n =>
    cases e' with
    | node n' =>
      rw [text_node he, text_node he'] at heq
      have hwritten := congrArg String.toList (Except.ok.inj heq)
      have hsame : (n.name, n.labels) = (n'.name, n'.labels) :=
        legible_nodeText.injective hwritten
      obtain ⟨hname, hlabels⟩ := Prod.mk.inj hsame
      have hproperties : n.properties = n'.properties := he.trans he'.symm
      cases n
      cases n'
      cases hname
      cases hlabels
      cases hproperties
      rfl
    | relationship r =>
      rw [text_node he, text_relationship he'] at heq
      exact absurd (Except.ok.inj heq) (nodeText_ne_connect _ _ _ _ _ _)
    | raw _ | misplaced _ => cases he'
  | relationship r =>
    cases e' with
    | node n =>
      rw [text_relationship he, text_node he'] at heq
      exact absurd (Except.ok.inj heq).symm (nodeText_ne_connect _ _ _ _ _ _)
    | relationship r' =>
      rw [text_relationship he, text_relationship he'] at heq
      obtain ⟨hdirection, hname, htypes, hleft, hright⟩ :=
        connect_injective (Except.ok.inj heq)
      have hproperties : r.properties = r'.properties := he.trans he'.symm
      cases r
      cases r'
      cases hdirection
      cases hname
      cases htypes
      cases hleft
      cases hright
      cases hproperties
      rfl
    | raw _ | misplaced _ => cases he'
  | raw _ | misplaced _ => cases he

end Element

end Pattern

/-! ### Expressions and items -/

namespace Expression

/-- A variable, or a property or a column of one. -/
def IsTerm : Expression → Prop
  | var _ | property _ _ | column _ _ => True
  | _ => False

/-- A term, or a term under a new name. -/
def IsReference : Expression → Prop
  | aliased e _ => e.IsTerm
  | e => e.IsTerm

/-- The variable a term is about. -/
def owner : Expression → String
  | var name => name
  | property owner _ | column owner _ => owner
  | _ => ""

/-- What is written behind the variable of a term. -/
def access : Expression → List Char
  | property _ key => '.' :: (identifier key).toList
  | column _ key => '[' :: (stringLiteral key).toList ++ [']']
  | _ => []

/-- The characters that may belong to a term. -/
def termPart : Char → Bool := also (also isNamePart '.') '['

/-- A term is written by its owner and what is accessed of it. -/
theorem text_of_isTerm {e : Expression} (h : e.IsTerm) :
    ∃ text, e.text = .ok text ∧ text.toList = (identifier e.owner).toList ++
      e.access := by
  cases e with
  | var name => exact ⟨_, rfl, by simp [owner, access]⟩
  | property owner key =>
    exact ⟨_, rfl, by simp [propertyText, Expression.owner, access]⟩
  | column row key => exact ⟨_, rfl, by simp [owner, access]⟩
  | parameter | raw | distinct | call | aliased | misplaced | absent =>
    cases h

/-- Terms can be read back, unless what stands behind might belong to one. -/
theorem eq_of_terms {e e' : Expression} (he : e.IsTerm) (he' : e'.IsTerm)
    {r s : List Char} (hr : Follows termPart r) (hs : Follows termPart s)
    (heq : (identifier e.owner).toList ++ e.access ++ r =
      (identifier e'.owner).toList ++ e'.access ++ s) : e = e' ∧ r = s := by
  have hfollows : ∀ {e : Expression} {r}, e.IsTerm → Follows termPart r →
      Follows isNamePart (e.access ++ r) := by
    intro e r he hr
    cases e with
    | var name => exact hr.of_also.of_also
    | property owner key => exact follows_cons (by decide) _
    | column row key => exact follows_cons (by decide) _
    | parameter | raw | distinct | call | aliased | misplaced | absent =>
      cases he
  rw [List.append_assoc, List.append_assoc] at heq
  obtain ⟨howner, hrest⟩ :=
    legible_identifier _ _ _ _ (hfollows he hr) (hfollows he' hs) heq
  have hdot : termPart '.' = true := by decide
  have hbracket : termPart '[' = true := by decide
  cases e with
  | var name =>
    cases e' with
    | var name' => exact ⟨congrArg var howner, hrest⟩
    | property owner key => exact absurd hrest (hr.ne_cons hdot)
    | column row key => exact absurd hrest (hr.ne_cons hbracket)
    | parameter | raw | distinct | call | aliased | misplaced | absent =>
      cases he'
  | property owner key =>
    cases e' with
    | var name' => exact absurd hrest.symm (hs.ne_cons hdot)
    | property owner' key' =>
      obtain ⟨rfl, hbehind⟩ :=
        legible_identifier key key' r s hr.of_also.of_also hs.of_also.of_also
        (List.cons.inj hrest).2
      exact ⟨congrArg (property · key) howner, hbehind⟩
    | column row key' => cases hrest
    | parameter | raw | distinct | call | aliased | misplaced | absent =>
      cases he'
  | column row key =>
    cases e' with
    | var name' => exact absurd hrest.symm (hs.ne_cons hbracket)
    | property owner key' => cases hrest
    | column row' key' =>
      have hclosed : Legible (fun key : String =>
          (stringLiteral key).toList ++ [']']) fun _ => false :=
        legible_stringLiteral.close rfl []
      obtain ⟨rfl, hbehind⟩ :=
        hclosed key key' r s (follows_anything _) (follows_anything _)
        (List.cons.inj hrest).2
      exact ⟨congrArg (column · key) howner, hbehind⟩
    | parameter | raw | distinct | call | aliased | misplaced | absent =>
      cases he'
  | parameter | raw | distinct | call | aliased | misplaced | absent =>
    cases he

/-- A term under a new name is written with the name behind it. -/
theorem text_aliased {e : Expression} (h : e.IsTerm) (name : String) :
    ∃ text, (aliased e name).text = .ok text ∧ text.toList =
      (identifier e.owner).toList ++ e.access ++
        (" AS ".toList ++ (identifier name).toList) := by
  obtain ⟨inner, hinner, hwritten⟩ := text_of_isTerm h
  have hplain : e.isAlias = false := by
    cases e with
    | aliased e name => cases h
    | _ => rfl
  refine ⟨inner ++ " AS " ++ identifier name, ?_, ?_⟩
  · rw [text, hinner]
    simp only [hplain]
    rfl
  · rw [String.toList_append, String.toList_append, hwritten,
      List.append_assoc]

/-- A new name may follow a term. -/
theorem follows_as (name : String) :
    Follows termPart (" AS ".toList ++ (identifier name).toList) :=
  follows_cons (by decide) _

/-- A reference is a term or has a new name. -/
theorem isReference_cases {e : Expression} (h : e.IsReference) :
    e.IsTerm ∨ ∃ term name, term.IsTerm ∧ e = aliased term name := by
  cases e with
  | aliased term name => exact .inr ⟨term, name, h, rfl⟩
  | var | property | column => exact .inl trivial
  | parameter | raw | distinct | call | misplaced | absent => cases h

/-- A term is not written as one with a new name is. -/
theorem text_ne_aliased {e e' : Expression} (he : e.IsTerm) (he' : e'.IsTerm)
    (name : String) :
    e.text ≠ (aliased e' name).text := by
  obtain ⟨text, htext, hwritten⟩ := text_of_isTerm he
  obtain ⟨text', htext', hwritten'⟩ := text_aliased he' name
  intro heq
  rw [htext, htext'] at heq
  obtain rfl := Except.ok.inj heq
  rw [hwritten, ← List.append_nil (_ ++ _)] at hwritten'
  obtain ⟨-, hrest⟩ :=
    eq_of_terms he he' (follows_nil _) (follows_as name) hwritten'
  cases hrest

/-- **Terms, under a new name or not, are told by their texts.** -/
theorem text_injOn : Set.InjOn text {e | e.IsReference} := by
  intro e he e' he' heq
  rcases isReference_cases he with hterm | ⟨term, name, hterm, rfl⟩
  · rcases isReference_cases he' with hterm' | ⟨term', name', hterm', rfl⟩
    · obtain ⟨text, htext, hwritten⟩ := text_of_isTerm hterm
      obtain ⟨text', htext', hwritten'⟩ := text_of_isTerm hterm'
      rw [htext, htext'] at heq
      obtain rfl := Except.ok.inj heq
      refine (eq_of_terms (r := []) (s := []) hterm hterm' (follows_nil _)
        (follows_nil _) ?_).1
      rw [← hwritten, ← hwritten']
    · exact absurd heq (text_ne_aliased hterm hterm' name')
  · rcases isReference_cases he' with hterm' | ⟨term', name', hterm', rfl⟩
    · exact absurd heq.symm (text_ne_aliased hterm' hterm name)
    · obtain ⟨text, htext, hwritten⟩ := text_aliased hterm name
      obtain ⟨text', htext', hwritten'⟩ := text_aliased hterm' name'
      rw [htext, htext'] at heq
      obtain rfl := Except.ok.inj heq
      obtain ⟨rfl, hrest⟩ :=
        eq_of_terms hterm hterm' (follows_as name) (follows_as name')
        (hwritten.symm.trans hwritten')
      have hname :=
        legible_identifier.injective (List.append_cancel_left hrest)
      exact congrArg (aliased term) hname

end Expression

/-- An element with labels, as it stands among the items of a clause. -/
theorem labels_injective {owner owner' : String} {names names' : List String}
    (h : identifier owner ++ labelsText names = identifier owner' ++
      labelsText names') :
    owner = owner' ∧ names = names' := by
  have hparts := legible_identifier.append legible_labels
    fun labels r hr => follows_listed (by decide) _ labels hr
  have hwritten := congrArg String.toList h
  rw [String.toList_append, String.toList_append, toList_labelsText,
    toList_labelsText] at hwritten
  have hsame : (owner, names) = (owner', names') := hparts.injective hwritten
  exact Prod.mk.inj hsame

/-- Labels to be set. -/
def SetItem.IsLabels : SetItem → Prop
  | labels _ _ => True
  | _ => False

/-- **Labels that are set are told by their text.** -/
theorem SetItem.text_injOn :
    Set.InjOn SetItem.text {item | item.IsLabels} := by
  intro item hitem other hother heq
  cases item with
  | labels owner names =>
    cases other with
    | labels owner' names' =>
      obtain ⟨rfl, rfl⟩ := labels_injective (Except.ok.inj heq)
      rfl
    | assign | raw | misplaced => cases hother
  | assign | raw | misplaced => cases hitem

/-- A property is not written as an element with labels is. -/
theorem propertyText_ne_labels (owner key owner' : String)
    (names : List String) :
    propertyText owner key ≠ identifier owner' ++ labelsText names := by
  intro h
  have heq := congrArg String.toList h
  simp only [propertyText, String.toList_append, List.append_assoc,
    toList_labelsText] at heq
  rw [← List.append_nil (listed _ _ names)] at heq
  obtain ⟨-, hrest⟩ :=
    legible_identifier owner owner' _ _ (follows_cons (by decide) _)
    (follows_listed (by decide) _ names (follows_nil _)) heq
  cases names <;> cases hrest

/-- **Items to be removed are told by their texts.** -/
theorem RemoveItem.text_injective : Function.Injective RemoveItem.text := by
  intro item other heq
  cases item with
  | property owner key =>
    cases other with
    | property owner' key' =>
      have hsame : Expression.property owner key = .property owner' key' :=
        Expression.text_injOn (by exact trivial) (by exact trivial) heq
      injection hsame with howner hkey
      rw [howner, hkey]
    | labels owner' names =>
      exact absurd (Except.ok.inj heq) (propertyText_ne_labels _ _ _ _)
    | misplaced kind => cases heq
  | labels owner names =>
    cases other with
    | property owner' key =>
      exact absurd (Except.ok.inj heq).symm (propertyText_ne_labels _ _ _ _)
    | labels owner' names' =>
      obtain ⟨rfl, rfl⟩ := labels_injective (Except.ok.inj heq)
      rfl
    | misplaced kind => cases heq
  | misplaced kind =>
    cases other with
    | misplaced kind' =>
      have hfault := Except.error.inj heq
      injection hfault with _ hkind
      rw [hkind]
    | property | labels => cases heq

/-- **Names forge no element.**  Whatever names, labels, types, keys and new
names are made of, two nodes or relationships without properties that are
written in the same way are the same, and so are two variables, properties,
columns or such under a new name, two gifts of labels, and two items to be
removed.  Names and strings themselves are the same if they are quoted in
the same way. -/
theorem names_forge_no_element :
    Set.InjOn Pattern.Element.text {e | e.IsBare} ∧
      Set.InjOn Expression.text {e | e.IsReference} ∧
      Set.InjOn SetItem.text {item | item.IsLabels} ∧
      Function.Injective RemoveItem.text ∧
      Function.Injective identifier ∧ Function.Injective stringLiteral := by
  refine ⟨Pattern.Element.text_injOn, Expression.text_injOn,
    SetItem.text_injOn,
    RemoveItem.text_injective, ?_, ?_⟩
  · exact fun name name' h =>
      legible_identifier.injective (congrArg String.toList h)
  · exact fun text text' h =>
      legible_stringLiteral.injective (congrArg String.toList h)

end GraphQuery

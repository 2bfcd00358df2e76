import GraphQuery.ParameterStack
import GraphQuery.Composition

/-!
# Queries without their values

Blanking forgets the values that are bound and keeps everything else: the
names of the parameters and the fragments of query text among the values.
Two parts of a query are alike if they are the same once blanked; the texts
they are written with are then the same, as a text never shows a value:
`Expression.text_blank`, `Pattern.Element.text_blank`,
`Filter.listText_blank`.
-/

namespace GraphQuery

/-- What a query shows of a value: a fragment of query text is written out,
no other value is. -/
def Value.blank : Value → Value
  | raw fragment => .raw fragment
  | _ => .null

/-- A parameter without its value. -/
def Parameter.blank (p : Parameter) : Parameter := { p with value := .null }

mutual

/-- An expression without the values of its parameters. -/
def Expression.blank : Expression → Expression
  | parameter p => .parameter p.blank
  | distinct e => .distinct e.blank
  | call function arguments => .call function (Expression.blankAll arguments)
  | aliased e name => .aliased e.blank name
  | e => e

/-- Expressions without the values of their parameters. -/
def Expression.blankAll : List Expression → List Expression
  | [] => []
  | e :: rest => e.blank :: Expression.blankAll rest

end

/-- An assignment without its value. -/
def Assignment.blank (a : Assignment) : Assignment :=
  { a with value := a.value.blank }

/-- An item to set without its value. -/
def SetItem.blank : SetItem → SetItem
  | assign a => .assign a.blank
  | item => item

namespace Pattern

/-- An element without the values of its properties. -/
def Element.blank : Element → Element
  | node n => .node { n with properties := n.properties.map Assignment.blank }
  | relationship r =>
    .relationship { r with properties := r.properties.map Assignment.blank }
  | e => e

/-- An entry without the values of its properties. -/
def Entry.blank (entry : Entry) :
    Entry := { entry with element := entry.element.blank }

/-- A store without the values of its properties. -/
def Store.blank (s : Store) :
    Store := { s with entries := s.entries.map Entry.blank }

end Pattern

namespace Filter

variable {β : Type}

mutual

/-- A filter without the values it compares with. -/
def blank : Filter β → Filter β
  | compare left operator right chain =>
    .compare left.blank operator right.blank chain
  | compareProperties left operator right chain =>
    .compareProperties left.blank operator right.blank chain
  | isNull subject negate chain => .isNull subject.blank negate chain
  | group filters negate chain => .group (blankAll filters) negate chain
  | count body operator value chain => .count body operator value.blank chain
  | filter => filter

/-- Filters without the values they compare with. -/
def blankAll : List (Filter β) → List (Filter β)
  | [] => []
  | filter :: rest => blank filter :: blankAll rest

end

end Filter

/-- A fault without the values it names. -/
def Fault.blank : Fault → Fault
  | unknownFilterSuffix suffix key _ choices =>
    .unknownFilterSuffix suffix key .null choices
  | malformedGroups key _ => .malformedGroups key .null
  | notASequence _ => .notASequence .null
  | fault => fault

/-! ### Texts -/

section

variable {α β : Type} {f : α → Except Fault β} {blank : α → α}

/-- What does not look at values maps blanked items like the items. -/
theorem mapM_map_blank (hf : ∀ a, f (blank a) = f a) (l : List α) :
    (l.map blank).mapM f = l.mapM f := by
  induction l with
  | nil => rfl
  | cons a rest ih => rw [List.map_cons, List.mapM_cons, List.mapM_cons, hf,
      ih]

/-- What does not look at values maps items alike that differ in values
alone. -/
theorem mapM_eq_of_map_eq (hf : ∀ a, f (blank a) = f a) {l l' : List α}
    (h : l.map blank = l'.map blank) : l.mapM f = l'.mapM f := by
  rw [← mapM_map_blank hf l, h, mapM_map_blank hf]

/-- Items that differ in values alone are none together. -/
theorem isEmpty_eq_of_map_eq {l l' : List α}
    (h : l.map blank = l'.map blank) :
    l.isEmpty = l'.isEmpty := by
  rw [← List.isEmpty_map (f := blank), h, List.isEmpty_map]

end

namespace Expression

/-- Expressions are blanked one by one. -/
theorem blankAll_eq_map (es : List Expression) :
    blankAll es = es.map blank := by
  induction es with
  | nil => rfl
  | cons e rest ih => rw [blankAll, ih, List.map_cons]

mutual

/-- A blanked expression is blanked for good. -/
theorem blank_blank (e : Expression) : e.blank.blank = e.blank := by
  match e with
  | parameter p => rfl
  | distinct e => rw [blank, blank, blank_blank e]
  | call function arguments => rw [blank, blank, blankAll_blankAll arguments]
  | aliased e name => rw [blank, blank, blank_blank e]
  | var _ | property _ _ | raw _ | column _ _ | misplaced _ | absent _ _ =>
    rfl

/-- Blanked expressions are blanked for good. -/
theorem blankAll_blankAll (es : List Expression) :
    blankAll (blankAll es) = blankAll es := by
  match es with
  | [] => rfl
  | e :: rest => rw [blankAll, blankAll, blank_blank e,
      blankAll_blankAll rest]

end

/-- Blanking leaves a new name. -/
theorem isAlias_blank (e : Expression) : e.blank.isAlias = e.isAlias := by
  cases e <;> rfl

mutual

/-- **The text of an expression does not show the values of its
parameters.** -/
theorem text_blank (e : Expression) : e.blank.text = e.text := by
  match e with
  | parameter p => rfl
  | distinct e => rw [blank, text, text, text_blank e]
  | call function arguments =>
    rw [blank, text, text, texts_blankAll arguments]
  | aliased e name => rw [blank, text, text, text_blank e, isAlias_blank]
  | var _ | property _ _ | raw _ | column _ _ | misplaced _ | absent _ _ =>
    rfl

/-- Expressions are written without a look at values. -/
theorem texts_blankAll (es : List Expression) :
    texts (blankAll es) = texts es := by
  match es with
  | [] => rfl
  | e :: rest => rw [blankAll, texts, texts, text_blank e,
      texts_blankAll rest]

end

/-- Expressions that differ in values alone have the same texts. -/
theorem texts_eq_of_map_eq {es es' : List Expression}
    (h : es.map blank = es'.map blank) :
    texts es = texts es' := by
  rw [← texts_blankAll es, ← texts_blankAll es', blankAll_eq_map,
    blankAll_eq_map, h]

end Expression

/-- A blanked assignment is blanked for good. -/
theorem Assignment.blank_blank (a : Assignment) :
    a.blank.blank = a.blank := by
  rw [blank, blank, Expression.blank_blank]

/-- An assignment is written without a look at its value. -/
theorem Assignment.text_blank (a : Assignment) : a.blank.text = a.text := by
  rw [text, text]
  show (do
    return propertyText a.owner a.key ++ " = " ++ (← a.value.blank.text)) = _
  rw [Expression.text_blank]

/-- An assignment is an entry of a map without a look at its value. -/
theorem Assignment.entry_blank (a : Assignment) :
    a.blank.entry = a.entry := by
  rw [entry, entry]
  show (do return (a.key, ← a.value.blank.text)) = _
  rw [Expression.text_blank]

/-- An item that is set is written without a look at its value. -/
theorem SetItem.text_blank (item : SetItem) :
    item.blank.text = item.text := by
  cases item with
  | assign a => exact a.text_blank
  | labels _ _ | raw _ | misplaced _ => rfl

namespace Pattern

/-- The properties of an element are written without a look at values. -/
theorem propertyTexts_blank (assignments : List Assignment) :
    propertyTexts (assignments.map Assignment.blank) =
      propertyTexts assignments := by
  rw [propertyTexts, propertyTexts, mapM_map_blank Assignment.entry_blank]

/-- **The text of a pattern element does not show the values of its
properties.** -/
theorem Element.text_blank (e : Element) : e.blank.text = e.text := by
  cases e with
  | node n => simp only [blank, text, Node.text, propertyTexts_blank]
  | relationship r => simp only [blank, text, Relationship.text,
      propertyTexts_blank]
  | raw _ | misplaced _ => rfl

end Pattern

namespace Filter

variable {β γ : Type} {nestedText : β → Except Fault String}

/-- Blanking leaves the chain operator of a filter. -/
theorem chain_blank (filter : Filter β) :
    filter.blank.chain = filter.chain := by
  cases filter <;> rfl

/-- It leaves the number of filters. -/
theorem length_blankAll (filters : List (Filter β)) :
    (blankAll filters).length = filters.length := by
  induction filters with
  | nil => rfl
  | cons f rest ih => rw [blankAll, List.length_cons, List.length_cons, ih]

/-- It leaves no filters where there were none. -/
theorem isEmpty_blankAll (filters : List (Filter β)) :
    (blankAll filters).isEmpty = filters.isEmpty := by
  cases filters <;> rfl

/-- Two lists of filters are blanked one behind the other. -/
theorem blankAll_append (fs gs : List (Filter β)) :
    blankAll (fs ++ gs) = blankAll fs ++ blankAll gs := by
  induction fs with
  | nil => rfl
  | cons f rest ih => rw [List.cons_append, blankAll, ih, blankAll,
      List.cons_append]

mutual

/-- **A filter is written without a look at values.** -/
theorem text_blank (filter : Filter β) :
    filter.blank.text nestedText = filter.text nestedText := by
  match filter with
  | compare left operator right chain =>
    simp only [blank, text, Expression.text_blank]
  | compareProperties left operator right chain =>
    simp only [blank, text, Expression.text_blank]
  | isNull subject negate chain =>
    simp only [blank, text, Expression.text_blank]
  | group filters negate chain =>
    simp only [blank, text, listText_blank filters, length_blankAll]
  | count body operator value chain =>
    simp only [blank, text, Expression.text_blank]
  | raw _ _ | .exists _ _ _ | misplaced _ => rfl

/-- **The text of filters does not show the values they compare with.** -/
theorem listText_blank (filters : List (Filter β)) :
    listText nestedText (blankAll filters) = listText nestedText filters := by
  match filters with
  | [] => rfl
  | first :: rest => rw [blankAll, listText, listText, text_blank first,
      tailText_blank rest]

/-- The later filters of a list are written without a look at values. -/
theorem tailText_blank (filters : List (Filter β)) :
    tailText nestedText (blankAll filters) = tailText nestedText filters := by
  match filters with
  | [] => rfl
  | filter :: rest =>
    rw [blankAll, tailText, tailText, text_blank filter, tailText_blank rest,
      chain_blank]

end

mutual

/-- Bodies can be replaced before or after blanking. -/
theorem map_blank (f : β → γ) (filter : Filter β) :
    map f filter.blank = (map f filter).blank := by
  match filter with
  | group filters negate chain =>
    rw [blank, map, map, blank, mapAll_blankAll f filters]
  | compare _ _ _ _ | compareProperties _ _ _ _ | isNull _ _ _ | count
      _ _ _ _ | raw _ _
  | .exists _ _ _ | misplaced _ => rfl

/-- The bodies of filters can be replaced before or after blanking. -/
theorem mapAll_blankAll (f : β → γ) (filters : List (Filter β)) :
    mapAll f (blankAll filters) = blankAll (mapAll f filters) := by
  match filters with
  | [] => rfl
  | filter :: rest => rw [blankAll, mapAll, mapAll, blankAll,
      map_blank f filter,
      mapAll_blankAll f rest]

end

end Filter

end GraphQuery

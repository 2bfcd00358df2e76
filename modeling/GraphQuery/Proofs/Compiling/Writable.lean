import GraphQuery.Composition
import GraphQuery.Proofs.Compiling.Outcome
import GraphQuery.Proofs.Parameters.Held

/-!
# What can be written

An item of a query is writable if it has a text; a filter is if its parts
are and its operator is known.  All that a pass can fail by, on a query of
writable items, is a failure of a query nested in it or a number of rows
with too many digits: `Pass.ends_clauses`.
-/

namespace GraphQuery

/-- A computation that can only fail by what is allowed. -/
abbrev FailsOnlyBy {α : Type} (allowed : Fault → Prop) (x : Except Fault α) :
    Prop :=
  Ends (fun _ => True) allowed x

/-- An expression that has a text. -/
def Expression.Writable (e : Expression) : Prop := ∃ text, e.text = .ok text

/-- A property whose value has a text. -/
def Assignment.Writable (a : Assignment) : Prop := a.value.Writable

/-- An item to set that has a text. -/
def SetItem.Writable (item : SetItem) : Prop := ∃ text, item.text = .ok text

/-- An item to remove that has a text. -/
def RemoveItem.Writable (item : RemoveItem) :
    Prop := ∃ text, item.text = .ok text

/-- A pattern element whose properties have a text. -/
def Pattern.Element.Writable : Pattern.Element → Prop
  | node n => ∀ a ∈ n.properties, a.Writable
  | relationship r => ∀ a ∈ r.properties, a.Writable
  | raw _ => True
  | misplaced _ => False

/-- A store of writable elements. -/
def Pattern.Store.Writable (s : Pattern.Store) : Prop :=
  ∀ entry ∈ s.entries, entry.element.Writable

namespace Filter

variable {β γ : Type}

mutual

/-- A filter whose operator is known and whose expressions have a text; what
is nested in it does not count. -/
def Writable : Filter β → Prop
  | compare left operator right _ =>
    left.Writable ∧ (∃ known, comparison? operator = some known) ∧
    right.Writable
  | compareProperties left operator right _ =>
    left.Writable ∧ (∃ known, comparison? operator = some known) ∧
    right.Writable
  | isNull subject _ _ => subject.Writable
  | group filters _ _ => AllWritable filters
  | raw _ _ => True
  | .exists _ _ _ => True
  | count _ operator value _ =>
    (∃ known, comparison? operator = some known) ∧ value.Writable
  | misplaced _ => False

/-- A list of writable filters. -/
def AllWritable : List (Filter β) → Prop
  | [] => True
  | filter :: rest => Writable filter ∧ AllWritable rest

end

/-- Filters that can be written stay so together. -/
theorem allWritable_append {fs gs : List (Filter β)} (hfs : AllWritable fs)
    (hgs : AllWritable gs) :
    AllWritable (fs ++ gs) := by
  induction fs with
  | nil => exact hgs
  | cons f rest ih => exact ⟨hfs.1, ih hfs.2⟩

mutual

/-- Other bodies make no difference to whether a filter can be written. -/
theorem writable_map (f : β → γ) (filter : Filter β) :
    (filter.map f).Writable ↔ filter.Writable := by
  match filter with
  | .group filters negate chain => exact allWritable_mapAll f filters
  | .compare .. | .compareProperties .. | .isNull .. | .raw .. | .misplaced
      _ => exact Iff.rfl
  | .exists .. | .count .. => exact Iff.rfl

/-- Other bodies make no difference to whether filters can be written. -/
theorem allWritable_mapAll (f : β → γ) (filters : List (Filter β)) :
    AllWritable (mapAll f filters) ↔ AllWritable filters := by
  match filters with
  | [] => exact Iff.rfl
  | filter :: rest =>
    exact and_congr (writable_map f filter) (allWritable_mapAll f rest)

end

mutual

/-- Replacing the bodies of a filter replaces what is nested in it. -/
theorem nested_map (f : β → γ) (filter : Filter β) :
    (filter.map f).nested = filter.nested.map f := by
  match filter with
  | .group filters negate chain => exact nestedInAll_mapAll f filters
  | .compare .. | .compareProperties .. | .isNull .. | .raw .. | .misplaced
      _ => rfl
  | .exists .. | .count .. => rfl

/-- Replacing the bodies of filters replaces what is nested in them. -/
theorem nestedInAll_mapAll (f : β → γ) (filters : List (Filter β)) :
    nestedInAll (mapAll f filters) = (nestedInAll filters).map f := by
  match filters with
  | [] => rfl
  | filter :: rest =>
    rw [mapAll, nestedInAll, nestedInAll, nested_map f filter,
      nestedInAll_mapAll f rest,
      List.map_append]

end

/-- The operator a spelling stands for is a spelling of itself. -/
theorem comparison?_again {spelling operator : String}
    (h : comparison? spelling = some operator) :
    comparison? operator = some operator := by
  have hall : ∀ entry ∈ comparisonSpellings,
      comparison? entry.2 = some entry.2 := by decide
  obtain ⟨before, after, hspellings, -⟩ := List.lookup_eq_some_iff.mp h
  have hmem : operator ∈ comparisonSpellings.map Prod.snd := by
    rw [hspellings]
    simp
  obtain ⟨entry, hentry, rfl⟩ := List.mem_map.mp hmem
  exact hall entry hentry

section

variable {nestedText : β → Except Fault String} {allowed : Fault → Prop}

/-- A known operator is accepted by every call. -/
theorem comparison_of_known {operation spelling : String}
    (h : ∃ known, comparison? spelling = some known) :
    ∃ operator, comparison operation spelling = .ok operator := by
  obtain ⟨known, hknown⟩ := h
  rw [comparison, hknown]
  exact ⟨known, rfl⟩

/-- Writing an expression that can be written does not fail. -/
theorem ends_text_of_writable {e : Expression} (h : e.Writable) :
    FailsOnlyBy allowed e.text := by
  obtain ⟨text, htext⟩ := h
  rw [htext]
  exact trivial

/-- A step that succeeds leaves the outcome to the next one. -/
theorem ends_of_ok {α γ : Type} {x : Except Fault α} {f : α → Except Fault γ}
    (hx : ∃ a, x = .ok a) (hf : ∀ a, FailsOnlyBy allowed (f a)) :
    FailsOnlyBy allowed (x >>= f) := by
  obtain ⟨a, rfl⟩ := hx
  exact hf a

/-- Comparing two such expressions by a known operator does not fail. -/
theorem ends_comparing {left right : Expression}
    {operator : Except Fault String} (hleft : left.Writable)
    (hknown : ∃ known, operator = .ok known) (hright : right.Writable) :
    FailsOnlyBy allowed do
      let operator ← operator
      let left ← left.text
      return left ++ " " ++ operator ++ " " ++ (← right.text) :=
  ends_of_ok hknown fun _ =>
    (ends_text_of_writable hleft).bind fun _ _ =>
      (ends_text_of_writable hright).answer

mutual

/-- A filter that can be written fails by a body in it only. -/
theorem ends_text (filter : Filter β) (h : filter.Writable)
    (hnested : ∀ b ∈ filter.nested, FailsOnlyBy allowed (nestedText b)) :
    FailsOnlyBy allowed (filter.text nestedText) := by
  match filter with
  | .compare .. | .compareProperties .. =>
    exact ends_comparing h.1 (comparison_of_known h.2.1) h.2.2
  | .isNull .. => exact (ends_text_of_writable h).answer
  | .group filters negate chain =>
    exact (ends_listText filters h hnested).answer
  | .raw .. => exact trivial
  | .exists body negate chain =>
    have hbody : FailsOnlyBy allowed (nestedText body) :=
      hnested body (List.mem_singleton.mpr rfl)
    exact hbody.answer
  | .count body spelling value chain =>
    have hbody : FailsOnlyBy allowed (nestedText body) :=
      hnested body (List.mem_singleton.mpr rfl)
    exact hbody.bind fun _ _ => ends_of_ok (comparison_of_known h.1) fun _ =>
      (ends_text_of_writable h.2).answer
  | .misplaced _ => exact h.elim

/-- **Writable filters have a text**, but for what the queries nested in
them fail by. -/
theorem ends_listText (filters : List (Filter β)) (h : AllWritable filters)
    (hnested : ∀ b ∈ nestedInAll filters, FailsOnlyBy allowed
      (nestedText b)) :
    FailsOnlyBy allowed (listText nestedText filters) := by
  match filters with
  | [] => exact trivial
  | first :: rest =>
    rw [nestedInAll, List.forall_mem_append] at hnested
    exact (ends_text first h.1 hnested.1).bind fun _ _ =>
      (ends_tailText rest h.2 hnested.2).answer

/-- The later filters of a list fail by a body in them only. -/
theorem ends_tailText (filters : List (Filter β)) (h : AllWritable filters)
    (hnested : ∀ b ∈ nestedInAll filters, FailsOnlyBy allowed
      (nestedText b)) :
    FailsOnlyBy allowed (tailText nestedText filters) := by
  match filters with
  | [] => exact trivial
  | filter :: rest =>
    rw [nestedInAll, List.forall_mem_append] at hnested
    exact (ends_text filter h.1 hnested.1).bind fun _ _ =>
      (ends_tailText rest h.2 hnested.2).answer

end

end

end Filter

/-! ### Queries -/

/-- What a query holds has a text throughout. -/
structure Content.Writable (c : Content) : Prop where
  pattern : c.pattern.Writable
  returns : ∀ e ∈ c.returns, e.Writable
  sets : ∀ item ∈ c.sets, item.Writable
  onMatch : ∀ item ∈ c.onMatch, item.Writable
  onCreate : ∀ item ∈ c.onCreate, item.Writable
  deletes : ∀ e ∈ c.deletes, e.Writable
  removes : ∀ item ∈ c.removes, item.Writable
  orderBy : ∀ e ∈ c.orderBy, e.Writable

/-- A query all of whose own items have a text. -/
structure Structure.Writable {β : Type} (s : Structure β) : Prop
    extends Content.Writable s.toContent where
  wheres : Filter.AllWritable s.wheres

/-- A query that skips, or is limited to, a number of rows with too many
digits. -/
def Content.Overlong (c : Content) : Prop :=
  ∃ rows ∈ c.skip.toList ++ c.limit.toList, Pass.maxDigits <
    (toString rows.natAbs).length

namespace Structure

variable {β γ : Type}

/-- The queries nested in a query. -/
def nested (s : Structure β) : List β :=
  s.subQueries ++ Filter.nestedInAll s.wheres ++ s.union.toList

/-- Replacing the bodies of a query replaces what is nested in it. -/
theorem nested_map (f : β → γ) (s : Structure β) :
    (s.map f).nested = s.nested.map f := by
  have hunion : (s.union.map f).toList = s.union.toList.map f := by
    cases s.union <;> rfl
  show s.subQueries.map f ++ Filter.nestedInAll (Filter.mapAll f s.wheres) ++
    (s.union.map f).toList = s.nested.map f
  rw [Filter.nestedInAll_mapAll, hunion, nested, List.map_append,
    List.map_append]

/-- Other bodies make no difference to whether a query can be written. -/
theorem Writable.map {s : Structure β} (h : s.Writable) (f : β → γ) :
    (s.map f).Writable :=
  { h.toWritable with wheres :=
    (Filter.allWritable_mapAll f s.wheres).mpr h.wheres }

end Structure

namespace Pass

variable {allowed : Fault → Prop}

/-- Writing expressions that can be written does not fail. -/
theorem ends_texts {es : List Expression} (h : ∀ e ∈ es, e.Writable) :
    FailsOnlyBy allowed (Expression.texts es) := by
  induction es with
  | nil => exact trivial
  | cons e rest ih =>
    have hhead : FailsOnlyBy allowed e.text :=
      Filter.ends_text_of_writable (h e List.mem_cons_self)
    have hrest := ih fun other hother =>
      h other (List.mem_cons_of_mem e hother)
    exact hhead.bind fun _ _ => hrest.answer

/-- Writing an element whose properties can be written does not fail. -/
theorem ends_elementText {e : Pattern.Element} (h : e.Writable) :
    FailsOnlyBy allowed e.text := by
  have htexts : ∀ properties : List Assignment,
      (∀ a ∈ properties, a.Writable) →
      FailsOnlyBy allowed (Pattern.propertyTexts properties) := by
    intro properties hproperties
    have hentries : ∀ a ∈ properties, FailsOnlyBy allowed a.entry :=
      fun a ha =>
      (Filter.ends_text_of_writable (hproperties a ha)).answer
    exact (Ends.mapM hentries).answer
  cases e with
  | node n => exact (htexts n.properties h).answer
  | relationship r => exact (htexts r.properties h).answer
  | raw text => exact trivial
  | misplaced kind => exact h.elim

/-- Joining such elements does not fail. -/
theorem ends_joined {es : List Pattern.Element} (h : ∀ e ∈ es, e.Writable) :
    FailsOnlyBy allowed (joined es) :=
  (Ends.mapM fun e he => ends_elementText (h e he)).answer

/-- Joining items to be set that can be written does not fail. -/
theorem ends_joinedSets {items : List SetItem}
    (h : ∀ item ∈ items, item.Writable) :
    FailsOnlyBy allowed (joinedSets items) := by
  have heach : ∀ item ∈ items, FailsOnlyBy allowed item.text := by
    intro item hitem
    obtain ⟨text, htext⟩ := h item hitem
    rw [htext]
    exact trivial
  exact (Ends.mapM heach).answer

/-- A clause fails by what its body fails by. -/
theorem ends_clauseIf {condition : Bool} {kind : ClauseKind}
    {body : Except Fault String} (h : FailsOnlyBy allowed body) :
    FailsOnlyBy allowed (clauseIf condition kind body) := by
  cases condition with
  | true => exact h.answer
  | false => exact trivial

/-- A number of rows fails only by having too many digits. -/
theorem ends_rowsText {rows : Int}
    (h : maxDigits < (toString rows.natAbs).length →
      allowed (.tooManyDigits maxDigits)) :
    FailsOnlyBy allowed (rowsText rows) := by
  rw [rowsText]
  split
  · exact trivial
  · next hlong => exact h (Nat.lt_of_not_le hlong)

/-- What a view lists has been declared. -/
theorem mem_entries_of_mem_chunk {s : Pattern.Store} {view : Pattern.Chunk}
    {e : Pattern.Element} (h : e ∈ s.chunk view) :
    ∃ entry ∈ s.entries, entry.element = e := by
  have hmem : e ∈ (s.entries.filter fun entry =>
      view.intents.contains entry.intent).map
      Pattern.Entry.element := by
    simp only [Pattern.Store.chunk, List.mem_append] at h
    rcases h with (hrank | hrank) | hrank
    all_goals exact (List.mem_filter.mp hrank).1
  obtain ⟨entry, hentry, rfl⟩ := List.mem_map.mp hmem
  exact ⟨entry, (List.mem_filter.mp hentry).1, rfl⟩

variable {c : Content}

/-- The elements in a view can be written if the pattern can. -/
theorem writable_of_mem_chunk (h : c.Writable) (view : Pattern.Chunk) :
    ∀ e ∈ c.pattern.chunk view, e.Writable := by
  intro e he
  obtain ⟨entry, hentry, rfl⟩ := mem_entries_of_mem_chunk he
  exact h.pattern entry hentry

/-- Matching a pattern that can be written does not fail. -/
theorem ends_matchClauses (h : c.Writable) (strict : Bool) :
    FailsOnlyBy allowed (matchClauses strict c) := by
  have hneeded := writable_of_mem_chunk h .matchedStrictly
  have hothers : ∀ e ∈ c.pattern.chunk .matchedOptionally,
      FailsOnlyBy allowed (do return Clause.mk .optionalMatch (← e.text)) :=
        fun e he =>
    (ends_elementText
      (writable_of_mem_chunk h .matchedOptionally e he)).answer
  refine (ends_clauseIf (ends_joined hneeded)).bind fun first _ => ?_
  cases strict with
  | true => exact trivial
  | false => exact (Ends.mapM hothers).answer

/-- Creating a pattern that can be written does not fail. -/
theorem ends_createClauses (h : c.Writable) :
    FailsOnlyBy allowed (createClauses c) := by
  have hcreated := writable_of_mem_chunk h .created
  have hclause : FailsOnlyBy allowed
      (clause .create (joined (c.pattern.chunk .created))) :=
    (ends_joined hcreated).answer
  unfold createClauses
  dsimp only
  split
  · exact trivial
  · exact hclause.answer

/-- Merging a pattern that can be written does not fail. -/
theorem ends_mergeClauses (h : c.Writable) :
    FailsOnlyBy allowed (mergeClauses c) := by
  have hmerged := writable_of_mem_chunk h .merged
  have hclause : FailsOnlyBy allowed
      (clause .merge (joined (c.pattern.chunk .merged))) :=
    (ends_joined hmerged).answer
  unfold mergeClauses
  dsimp only
  split
  · exact trivial
  · exact hclause.bind fun _ _ =>
      (ends_clauseIf (ends_joinedSets h.onMatch)).bind fun _ _ =>
        (ends_clauseIf (ends_joinedSets h.onCreate)).answer

/-- Returning fails only by a number of rows with too many digits. -/
theorem ends_returnClauses (h : c.Writable)
    (hrows : c.Overlong → allowed (.tooManyDigits maxDigits)) :
    FailsOnlyBy allowed (returnClauses c) := by
  have hrow : ∀ kind rows, rows ∈ c.skip.toList ++ c.limit.toList →
      FailsOnlyBy allowed (do return Clause.mk kind (← rowsText rows)) :=
        fun kind rows hmem =>
    (ends_rowsText fun hlong => hrows ⟨rows, hmem, hlong⟩).answer
  have hprojection : FailsOnlyBy allowed do
      let items := ", ".intercalate (← Expression.texts c.returns)
      return if c.distinct then "DISTINCT " ++ items else items :=
    (ends_texts h.returns).answer
  have horder : FailsOnlyBy allowed do
      let items := ",".intercalate (← Expression.texts c.orderBy)
      return if c.order = .descending then items ++ " DESC" else items :=
    (ends_texts h.orderBy).answer
  refine (ends_clauseIf hprojection).bind fun _ _ => ?_
  refine (ends_clauseIf horder).bind fun _ _ => ?_
  refine (Ends.mapM fun rows hmem => hrow .skip rows ?_).bind fun _ _ => ?_
  · exact List.mem_append_left _ (List.mem_filter.mp hmem).1
  · refine (Ends.mapM fun rows hmem => hrow .limit rows ?_).answer
    exact List.mem_append_right _ hmem

/-- **All that a pass can fail by** on a query of writable items: what a
nested query fails by, or a number of rows with too many digits.  The union
itself cannot fail, only the query a query is united with. -/
theorem ends_clauses (pass : Pass) {s : Structure Nested} (h : s.Writable)
    (hnested : ∀ nested ∈ s.nested, ∀ composition,
      FailsOnlyBy allowed (nested composition))
    (hrows : s.Overlong → allowed (.tooManyDigits maxDigits)) :
    FailsOnlyBy allowed (pass.clauses s) := by
  rw [Structure.nested, List.forall_mem_append,
    List.forall_mem_append] at hnested
  obtain ⟨⟨hcalled, hfiltered⟩, hunited⟩ := hnested
  have htext : ∀ (nested : Nested) (composition : Composition),
      FailsOnlyBy allowed (nested composition) →
      FailsOnlyBy allowed (nestedText composition nested) :=
    fun nested composition hends => hends.answer
  cases pass with
  | matching strict => exact ends_matchClauses h.toWritable strict
  | importing => exact trivial
  | calling =>
    have heach : ∀ nested ∈ s.subQueries, FailsOnlyBy allowed (do
        return Clause.mk .call
          (Filter.braced (← nestedText .subQuery nested))) :=
      fun nested hmem => (htext nested _ (hcalled nested hmem _)).answer
    exact (Ends.mapM heach).mono (fun _ _ => trivial) fun _ hfault => hfault
  | filtering =>
    exact ends_clauseIf
      (Filter.ends_listText s.wheres h.wheres fun nested hmem =>
      htext nested _ (hfiltered nested hmem _))
  | creating => exact ends_createClauses h.toWritable
  | merging => exact ends_mergeClauses h.toWritable
  | setting => exact ends_clauseIf (ends_joinedSets h.sets)
  | removing =>
    have heach : ∀ item ∈ s.removes, FailsOnlyBy allowed item.text := by
      intro item hitem
      obtain ⟨text, htext⟩ := h.removes item hitem
      rw [htext]
      exact trivial
    exact ends_clauseIf ((Ends.mapM heach).answer)
  | deleting => exact ends_clauseIf ((ends_texts h.deletes).answer)
  | returning => exact ends_returnClauses h.toWritable hrows
  | uniting =>
    rw [clauses]
    cases hunion : s.union with
    | none => exact trivial
    | some second =>
      have hsecond : FailsOnlyBy allowed (second .full) :=
        hunited second (by simp [hunion]) _
      exact hsecond.answer

end Pass

/-- **All that a composition can fail by** on a query of writable items,
pass by pass. -/
theorem Composition.ends_clauses {allowed : Fault → Prop}
    (composition : Composition) {s : Structure Nested} (h : s.Writable)
    (hnested : ∀ nested ∈ s.nested, ∀ inside,
      FailsOnlyBy allowed (nested inside))
    (hrows : s.Overlong → allowed (.tooManyDigits Pass.maxDigits)) :
    FailsOnlyBy allowed (composition.clauses s) :=
  (Ends.mapM fun pass _ => pass.ends_clauses h hnested hrows).answer

end GraphQuery

import GraphQuery.Proofs.Compiling.Erasure
import GraphQuery.Proofs.Patterns.Shelf
import Mathlib.Data.List.Pairwise

/-!
# Every declared element is written once

A view of a store lists what is declared for some intents: fragments before
nodes and nodes before relationships, and otherwise in the order of
declaration.  The four views that clauses are made of share the elements of
a store out among them, and the passes that read these views write every
element of theirs once: `Query.writes_every_element_once`.  What is declared
later changes the intents of known elements, but never their places:
`Shelf.places_after`.
-/

namespace GraphQuery

/-- Filters of which every member of a list passes exactly one share the
list out.  The first member goes to the front of as many shares as there are
filters it passes. -/
theorem perm_flatMap_filter {α ι : Type} (indices : List ι)
    (passes : ι → α → Bool) (l : List α)
    (h : ∀ a ∈ l, indices.countP (fun i => passes i a) = 1) :
    (indices.flatMap fun i => l.filter (passes i)).Perm l := by
  have hcons : ∀ a rest, (indices.flatMap fun i =>
      (a :: rest).filter (passes i)).Perm
      (List.replicate (indices.countP fun i => passes i a) a ++
        indices.flatMap fun i => rest.filter (passes i)) := by
    intro a rest
    clear h
    induction indices with
    | nil => exact .nil
    | cons i more ih =>
      rw [List.flatMap_cons, List.flatMap_cons, List.countP_cons,
        List.filter_cons]
      cases passes i a with
      | false =>
        exact (ih.append_left _).trans (List.perm_append_comm_assoc _ _ _)
      | true =>
        rw [if_pos rfl, if_pos rfl, List.replicate_succ, List.cons_append,
          List.cons_append]
        exact ((ih.append_left _).trans
          (List.perm_append_comm_assoc _ _ _)).cons a
  induction l with
  | nil => simp
  | cons a rest ih =>
    refine (hcons a rest).trans ?_
    rw [h a List.mem_cons_self]
    exact (ih fun b hb => h b (List.mem_cons_of_mem a hb)).cons a

/-- What two lists are mapped to, they are mapped to together. -/
theorem mapM_append {α β : Type} {l l' : List α} {f : α → Except Fault β}
    {bs bs' : List β} (h : l.mapM f = .ok bs) (h' : l'.mapM f = .ok bs') :
    (l ++ l').mapM f = .ok (bs ++ bs') := by
  rw [List.mapM_append, h, h']
  rfl

/-- Computations for the same things in another order answer the same in
that order. -/
theorem mapM_perm {α β : Type} {l l' : List α} {f : α → Except Fault β}
    {bs : List β} (hperm : l.Perm l') (h : l.mapM f = .ok bs) :
    ∃ bs', l'.mapM f = .ok bs' ∧ bs.Perm bs' := by
  induction hperm generalizing bs with
  | nil => exact ⟨bs, h, .refl bs⟩
  | cons a _ ih =>
    rw [List.mapM_cons] at h
    obtain ⟨b, hb, h⟩ := bind_ok_inversion h
    obtain ⟨rest, hrest, h⟩ := bind_ok_inversion h
    cases h
    obtain ⟨rest', hrest', hsame⟩ := ih hrest
    refine ⟨b :: rest', ?_, hsame.cons b⟩
    rw [List.mapM_cons, hb, hrest']
    rfl
  | swap a b l =>
    rw [List.mapM_cons, List.mapM_cons] at h
    obtain ⟨textB, hb, h⟩ := bind_ok_inversion h
    obtain ⟨rest, hrest, h⟩ := bind_ok_inversion h
    obtain ⟨textA, ha, hrest⟩ := bind_ok_inversion hrest
    obtain ⟨others, hothers, hrest⟩ := bind_ok_inversion hrest
    cases hrest
    cases h
    refine ⟨textA :: textB :: others, ?_, .swap textA textB others⟩
    rw [List.mapM_cons, List.mapM_cons, ha, hb, hothers]
    rfl
  | trans _ _ ihFirst ihSecond =>
    obtain ⟨middle, hmiddle, hfirst⟩ := ihFirst h
    obtain ⟨last, hlast, hsecond⟩ := ihSecond hmiddle
    exact ⟨last, hlast, hfirst.trans hsecond⟩

/-- Computations whose answers are put into a form answer with the forms of
what is computed. -/
theorem mapM_answer_eq_ok {α β γ : Type} {l : List α}
    {f : α → Except Fault β} {form : β → γ} {cs : List γ}
    (h : l.mapM (fun a => do return form (← f a)) = .ok cs) :
    ∃ bs, l.mapM f = .ok bs ∧ cs = bs.map form := by
  induction l generalizing cs with
  | nil =>
    cases h
    exact ⟨[], rfl, rfl⟩
  | cons a rest ih =>
    rw [List.mapM_cons] at h
    obtain ⟨c, hc, h⟩ := bind_ok_inversion h
    obtain ⟨later, hlater, h⟩ := bind_ok_inversion h
    obtain ⟨b, hb, hc⟩ := bind_ok_inversion hc
    obtain ⟨bs, hbs, rfl⟩ := ih hlater
    cases hc
    cases h
    refine ⟨b :: bs, ?_, rfl⟩
    rw [List.mapM_cons, hb, hbs]
    rfl

/-! ### Views of a store -/

namespace Pattern

/-- The elements of one rank, in their order. -/
def Element.ofRank (rank : Nat) (es : List Element) : List Element :=
  es.filter fun e => e.rank == rank

/-- The order of a view: fragments stand before nodes, and both before
relationships. -/
inductive Element.Before : Element → Element → Prop
  | fragmentNode (text : String) (n : Node) : Before (.raw text) (.node n)
  | fragmentRelationship (text : String) (r : Relationship) :
    Before (.raw text) (.relationship r)
  | nodeRelationship (n : Node) (r : Relationship) :
    Before (.node n) (.relationship r)

/-- What an ordered view makes of the elements declared for it: none stands
behind one it has to stand before, and those of one rank stand in the order
they were declared in. -/
structure StablyRanked (declared view : List Element) : Prop where
  ranked : view.Pairwise fun a b => ¬ b.Before a
  stable : ∀ rank, Element.ofRank rank view = Element.ofRank rank declared

/-- What the views of a store are of: one of each intent, and one of the two
intents to match. -/
def viewIntents : List (Chunk × List Intent) :=
  [(.matchedStrictly, [.toMatch]), (.matchedOptionally, [.toMatchOptionally]),
   (.merged, [.toMerge]), (.created, [.toCreate]),
   (.matched, [.toMatch, .toMatchOptionally])]

/-- Each view covers what it is of. -/
theorem intents_of_mem_viewIntents {view : Chunk} {intents : List Intent}
    (h : (view, intents) ∈ viewIntents) : view.intents = intents := by
  simp only [viewIntents, List.mem_cons, Prod.mk.injEq, List.not_mem_nil,
    or_false] at h
  rcases h with ⟨rfl, rfl⟩ | ⟨rfl, rfl⟩ | ⟨rfl, rfl⟩ | ⟨rfl, rfl⟩ |
      ⟨rfl, rfl⟩ <;>
    rfl

namespace Element

variable {rank other : Nat} {es : List Element} {e : Element}

/-- What stands before another element is of a lower rank. -/
theorem Before.rank_lt {a b : Element} (h : a.Before b) :
    a.rank < b.rank := by
  cases h <;> simp [Element.rank]

/-- There are three ranks. -/
theorem rank_le (e : Element) : e.rank ≤ 2 := by
  cases e <;> simp [rank]

/-- Elements taken for their rank have it. -/
theorem rank_of_mem_ofRank (h : e ∈ ofRank rank es) : e.rank = rank := by
  have hrank := List.of_mem_filter h
  exact eq_of_beq hrank

/-- Elements of one rank are all taken again. -/
theorem ofRank_ofRank_self (rank : Nat) (es : List Element) :
    ofRank rank (ofRank rank es) = ofRank rank es := by
  simp only [ofRank, List.filter_filter, Bool.and_self]

/-- Where no element has a rank, none is taken. -/
theorem ofRank_eq_nil (h : ∀ e ∈ es, e.rank ≠ rank) :
    ofRank rank es = [] := by
  rw [ofRank, List.filter_eq_nil_iff]
  intro e he hrank
  exact h e he (eq_of_beq hrank)

/-- No element has two ranks. -/
theorem ofRank_ofRank_of_ne (h : other ≠ rank) (es : List Element) :
    ofRank rank (ofRank other es) = [] :=
  ofRank_eq_nil fun _ he hrank => h ((rank_of_mem_ofRank he).symm.trans hrank)

end Element

namespace Store

/-- The elements declared for one of some intents, in the order of their
declaration. -/
def declaredWith (s : Store) (intents : List Intent) : List Element :=
  (s.entries.filter fun entry => intents.contains entry.intent).map
    Entry.element

/-- A view lists what was declared for its intents, rank by rank. -/
theorem chunk_eq (s : Store) (view : Chunk) :
    s.chunk view = [0, 1, 2].flatMap fun rank =>
      Element.ofRank rank (s.declaredWith view.intents) := by
  simp only [chunk, declaredWith, Element.ofRank, List.flatMap_cons,
    List.flatMap_nil,
    List.append_nil, List.append_assoc]

/-- A view lists all that was declared for its intents, and nothing else. -/
theorem perm_chunk (s : Store) (view : Chunk) :
    (s.chunk view).Perm (s.declaredWith view.intents) := by
  rw [chunk_eq]
  refine perm_flatMap_filter [0, 1, 2] (fun rank (e : Element) =>
    e.rank == rank) _ fun e _ => ?_
  cases e <;> rfl

/-- An element is in a view if it was declared for an intent of the view. -/
theorem mem_chunk_iff {s : Store} {view : Chunk} {e : Element} :
    e ∈ s.chunk view ↔ ∃ entry ∈ s.entries, entry.intent ∈ view.intents ∧
    entry.element = e := by
  rw [(s.perm_chunk view).mem_iff, declaredWith, List.mem_map]
  simp only [List.mem_filter, List.contains_iff_mem, and_assoc]

/-- **A view is ordered**: by rank, and within a rank by declaration. -/
theorem stablyRanked_chunk (s : Store) (view : Chunk) :
    StablyRanked (s.declaredWith view.intents) (s.chunk view) where
  ranked := by
    have hbehind : ∀ {a b : Element}, a.rank ≤ b.rank → ¬ b.Before a :=
      fun hle hbefore => Nat.not_lt_of_le hle hbefore.rank_lt
    rw [chunk_eq, List.pairwise_flatMap]
    constructor
    · intro rank _
      refine List.pairwise_of_forall_mem_list fun a ha b hb => hbehind ?_
      rw [Element.rank_of_mem_ofRank ha, Element.rank_of_mem_ofRank hb]
    · have hranks : List.Pairwise (· < ·) [0, 1, 2] := by decide
      refine hranks.imp fun hlt a ha b hb => hbehind ?_
      rw [Element.rank_of_mem_ofRank ha, Element.rank_of_mem_ofRank hb]
      exact Nat.le_of_lt hlt
  stable rank := by
    have happend : ∀ es es', Element.ofRank rank (es ++ es') =
        Element.ofRank rank es ++ Element.ofRank rank es' := fun es es' =>
          List.filter_append es es'
    rw [chunk_eq]
    simp only [List.flatMap_cons, List.flatMap_nil, List.append_nil, happend]
    match rank with
    | 0 => simp [Element.ofRank_ofRank_self, Element.ofRank_ofRank_of_ne]
    | 1 => simp [Element.ofRank_ofRank_self, Element.ofRank_ofRank_of_ne]
    | 2 => simp [Element.ofRank_ofRank_self, Element.ofRank_ofRank_of_ne]
    | beyond + 3 =>
      have hnone :
          Element.ofRank (beyond + 3) (s.declaredWith view.intents) = [] := by
        refine Element.ofRank_eq_nil fun e _ hrank => ?_
        have hle := e.rank_le
        omega
      simp [Element.ofRank_ofRank_of_ne, hnone]

/-- A view lists what is declared for the intents it is of. -/
theorem stablyRanked_of_viewIntents (s : Store) {view : Chunk}
    {intents : List Intent} (h : (view, intents) ∈ viewIntents) :
    StablyRanked (s.declaredWith intents) (s.chunk view) :=
  intents_of_mem_viewIntents h ▸ s.stablyRanked_chunk view

/-- What is declared to be matched is so strictly or optionally. -/
theorem perm_declaredWith_matched (s : Store) :
    (s.declaredWith [.toMatch, .toMatchOptionally]).Perm
      (s.declaredWith [.toMatch] ++ s.declaredWith [.toMatchOptionally]) := by
  let matched (entry : Entry) : Bool :=
    [Intent.toMatch, .toMatchOptionally].contains entry.intent
  let strict (entry : Entry) : Bool := [Intent.toMatch].contains entry.intent
  let optional (entry : Entry) : Bool :=
    [Intent.toMatchOptionally].contains entry.intent
  have hstrict : (s.entries.filter matched).filter strict =
      s.entries.filter strict := by
    rw [List.filter_filter]
    refine List.filter_congr fun ⟨element, intent⟩ _ => ?_
    cases intent <;> rfl
  have hoptional : (s.entries.filter matched).filter (fun entry =>
      !strict entry) =
      s.entries.filter optional := by
    rw [List.filter_filter]
    refine List.filter_congr fun ⟨element, intent⟩ _ => ?_
    cases intent <;> rfl
  have hshared := List.filter_append_perm strict (s.entries.filter matched)
  rw [hstrict, hoptional] at hshared
  have helements := (hshared.map Entry.element).symm
  rw [List.map_append] at helements
  exact helements

/-- **The view of all matches** lists the elements of the views of the
strict and of the optional ones. -/
theorem perm_chunk_matched (s : Store) :
    (s.chunk .matched).Perm
      (s.chunk .matchedStrictly ++ s.chunk .matchedOptionally) :=
  ((s.perm_chunk .matched).trans s.perm_declaredWith_matched).trans
    ((s.perm_chunk .matchedStrictly).append
      (s.perm_chunk .matchedOptionally)).symm

/-- The views that clauses are made of share the elements of a store out. -/
theorem perm_chunks (s : Store) :
    (s.chunk .matchedStrictly ++ s.chunk .matchedOptionally ++
      s.chunk .merged ++
      s.chunk .created).Perm (s.entries.map Entry.element) := by
  have hshared := perm_flatMap_filter
    [Chunk.matchedStrictly, .matchedOptionally, .merged, .created]
    (fun view entry => view.intents.contains entry.intent) s.entries (by
      rintro ⟨element, intent⟩ _
      cases intent <;> rfl)
  have hdeclared :
      (s.declaredWith [.toMatch] ++ s.declaredWith [.toMatchOptionally] ++
      s.declaredWith [.toMerge] ++ s.declaredWith [.toCreate]).Perm
        (s.entries.map Entry.element) := by
    have helements := hshared.map Entry.element
    simp only [List.flatMap_cons, List.flatMap_nil, List.append_nil,
      List.map_append,
      ← List.append_assoc] at helements
    exact helements
  exact ((((s.perm_chunk _).append (s.perm_chunk _)).append
    (s.perm_chunk _)).append
    (s.perm_chunk _)).trans hdeclared

/-- What stands at each place of a store: its rank, and its name if it has
one. -/
def places (s : Store) : List (Nat × Option String) :=
  s.entries.map fun entry => (entry.element.rank, entry.element.name?)

end Store

/-- A declaration leaves every element at its place and adds new ones at the
end. -/
theorem Declaration.Makes.places {d : Declaration} {s t : Store}
    (h : d.Makes s t) :
    s.places <+: t.places := by
  cases h with
  | unnamed | added =>
    rw [Store.places, Store.places]
    exact (List.prefix_append _ _).map _
  | @extended name known entry hname hknown hentry =>
    rw [Store.find?] at hknown
    obtain ⟨i, hposition, hat⟩ := Option.bind_eq_some_iff.mp hknown
    obtain ⟨hi, hat⟩ := List.getElem?_eq_some_iff.mp hat
    have hlength : i < s.places.length := by
      rw [Store.places, List.length_map]
      exact hi
    have hplace : (entry.element.rank, entry.element.name?) =
        s.places[i] := by
      simp only [Store.places, List.getElem_map, hat]
      rw [Declaration.rank_of_extend hentry,
        Declaration.name?_of_extend hentry]
    have hsame : (s.replace name entry).places = s.places := by
      rw [Store.places, Store.replace, hposition, List.map_set, hplace]
      exact List.set_getElem_self _
    exact ⟨[], (List.append_nil s.places).trans hsame.symm⟩

/-- Every element stays at its place. -/
def Store.placing : Guarantee Store where
  holds _ := True
  leads s t := s.places <+: t.places
  refl s := List.prefix_refl s.places
  trans := List.IsPrefix.trans

/-- Declarations leave what is known at its place. -/
theorem Store.keeps_placing : Keeps placing fun _ => True where
  none := trivial
  declaration _ _ _ _ happly _ :=
    ⟨trivial, (Declaration.makes_of_apply happly).places⟩

namespace Shelf

/-- A call on a shelf leaves what is known at its place. -/
theorem places_step (s : Shelf) (step : Step) (i : Nat) :
    (s.store i).places <+: ((s.step step).store i).places := by
  cases step with
  | fork =>
    have hsame : (s.store i).places = ((s.step .fork).store i).places := by
      rw [store_fork]
    exact ⟨[], (List.append_nil _).trans hsame⟩
  | call j made =>
    by_cases hij : j = i ∧ i < s.stores.size
    · obtain ⟨rfl, hi⟩ := hij
      rw [store_call_self hi]
      obtain ⟨-, hplaces, -⟩ :=
        Store.keeps_placing.perform made trivial (s.registry j) trivial
      exact hplaces
    · have hsame : (s.store i).places =
          ((s.step (.call j made)).store i).places := by
        rw [store_call_of_ne hij]
      exact ⟨[], (List.append_nil _).trans hsame⟩

/-- **Declared elements keep their places**, whatever is done to a shelf, so
that a store lists its elements in the order in which they were first
declared. -/
theorem places_after (s : Shelf) (steps : List Step) (i : Nat) :
    (s.store i).places <+: ((s.after steps).store i).places := by
  induction steps generalizing s with
  | nil => exact List.prefix_refl _
  | cons step later ih =>
    exact (places_step s step i).trans (ih (s.step step))

end Shelf

end Pattern

/-! ### The clauses of a pattern -/

/-- Whether a kind of clause writes elements of a pattern. -/
def ClauseKind.isOfPattern : ClauseKind → Bool
  | match_ | optionalMatch | merge | create => true
  | _ => false

/-- The clauses, among given ones, that write elements of a pattern. -/
def patternClauses (clauses : List Clause) : List Clause :=
  clauses.filter fun clause => clause.kind.isOfPattern

/-- One clause with all the given texts, joined by commas; none if there are
no texts. -/
def joinedClause (kind : ClauseKind) (texts : List String) : List Clause :=
  if texts.isEmpty then [] else [⟨kind, ",".intercalate texts⟩]

/-- The clause that binds a row to each member of a list in turn. -/
def unwindClause (batch : Parameter) (row : String) : Clause :=
  ⟨.unwind, "$" ++ batch.name ++ " AS " ++ Text.identifier row⟩

/-- Every aspect of a query but the one it is united with, in canonical
order. -/
def Composition.single : Composition :=
  [.matching false, .calling, .filtering, .merging, .creating, .setting,
    .removing, .deleting,
   .returning]

/-- The pattern clauses of two lists are those of both, in order. -/
theorem patternClauses_append (first second : List Clause) :
    patternClauses (first ++ second) = patternClauses first ++
      patternClauses second :=
  List.filter_append first second

/-- Clauses of other kinds write no elements. -/
theorem patternClauses_eq_nil {kinds : List ClauseKind}
    {clauses : List Clause}
    (hkinds : kinds.any ClauseKind.isOfPattern = false)
    (h : ∀ c ∈ clauses, c.kind ∈ kinds) :
    patternClauses clauses = [] := by
  rw [patternClauses, List.filter_eq_nil_iff]
  intro c hc hpattern
  have hany : kinds.any ClauseKind.isOfPattern = true :=
    List.any_eq_true.mpr ⟨_, h c hc, hpattern⟩
  rw [hkinds] at hany
  cases hany

/-- A clause of joined elements is a pattern clause. -/
theorem patternClauses_joinedClause {kind : ClauseKind}
    (hkind : kind.isOfPattern = true) (texts : List String) :
    patternClauses (joinedClause kind texts) = joinedClause kind texts := by
  rw [joinedClause]
  split
  · rfl
  · exact List.filter_cons_of_pos hkind

namespace Pass

variable {s : Structure Nested} {es : List Pattern.Element}
    {kind : ClauseKind}
  {clauses : List Clause}

/-- The clause of some elements has the texts of all of them. -/
theorem clause_joined_eq_ok (h : clause kind (joined es) = .ok clauses) :
    ∃ texts, es.mapM Pattern.Element.text = .ok texts ∧
    clauses = [⟨kind, ",".intercalate texts⟩] := by
  obtain ⟨body, hbody, h⟩ := bind_ok_inversion h
  obtain ⟨texts, htexts, hjoined⟩ := bind_ok_inversion hbody
  cases hjoined
  cases h
  exact ⟨texts, htexts, rfl⟩

/-- A clause of joined elements has their texts, set apart by commas. -/
theorem joinedClause_of_mapM {texts : List String} (hes : es ≠ [])
    (htexts : es.mapM Pattern.Element.text = .ok texts) :
    joinedClause kind texts = [⟨kind, ",".intercalate texts⟩] := by
  cases es with
  | nil => exact absurd rfl hes
  | cons e rest =>
    rw [List.mapM_cons] at htexts
    obtain ⟨text, -, htexts⟩ := bind_ok_inversion htexts
    obtain ⟨others, -, htexts⟩ := bind_ok_inversion htexts
    cases htexts
    rfl

/-- Joining elements in a clause gives their texts. -/
theorem joinedClause_of_joined (hes : es ≠ [])
    (h : clause kind (joined es) = .ok clauses) :
    ∃ texts, es.mapM Pattern.Element.text = .ok texts ∧
    clauses = joinedClause kind texts := by
  obtain ⟨texts, htexts, rfl⟩ := clause_joined_eq_ok h
  exact ⟨texts, htexts, (joinedClause_of_mapM hes htexts).symm⟩

/-- Joining elements gives their texts also where the clause is left out if
there are none. -/
theorem joinedClause_of_clauseIf
    (h : clauseIf (!es.isEmpty) kind (joined es) = .ok clauses) :
    ∃ texts, es.mapM Pattern.Element.text = .ok texts ∧
    clauses = joinedClause kind texts := by
  cases es with
  | nil =>
    cases h
    exact ⟨[], rfl, rfl⟩
  | cons e rest => exact joinedClause_of_joined (List.cons_ne_nil e rest) h

/-- What is matched: the strict matches together, then each optional one on
its own. -/
theorem patternClauses_matching
    (h : (matching false).clauses s = .ok clauses) :
    ∃ strict optional,
      (s.pattern.chunk .matchedStrictly).mapM Pattern.Element.text =
        .ok strict ∧
      (s.pattern.chunk .matchedOptionally).mapM Pattern.Element.text =
        .ok optional ∧
      patternClauses clauses =
        joinedClause .match_ strict ++
          optional.map (Clause.mk .optionalMatch) := by
  obtain ⟨first, hfirst, h⟩ := bind_ok_inversion h
  obtain ⟨others, hothers, h⟩ := bind_ok_inversion h
  cases h
  obtain ⟨strict, hstrict, rfl⟩ := joinedClause_of_clauseIf hfirst
  obtain ⟨optional, hoptional, rfl⟩ := mapM_answer_eq_ok hothers
  refine ⟨strict, optional, hstrict, hoptional, ?_⟩
  have hmatches : patternClauses (optional.map (Clause.mk .optionalMatch)) =
      optional.map (Clause.mk .optionalMatch) := by
    rw [patternClauses, List.filter_eq_self]
    intro c hc
    obtain ⟨text, -, rfl⟩ := List.mem_map.mp hc
    rfl
  rw [patternClauses_append, patternClauses_joinedClause rfl, hmatches]

/-- If anything is created, all of it is created together, right behind the
rows of the batch if there is one. -/
theorem createClauses_eq_ok {c : Content}
    (h : createClauses c = .ok clauses) :
    c.pattern.chunk .created = [] ∧ clauses = [] ∨
      ∃ texts, c.pattern.chunk .created ≠ [] ∧
        (c.pattern.chunk .created).mapM Pattern.Element.text = .ok texts ∧
        clauses = c.batchCreate.toList.map (unwindClause · c.batchVariable) ++
          [⟨.create, ",".intercalate texts⟩] := by
  rw [createClauses] at h
  split at h
  · next hempty =>
    cases h
    exact .inl ⟨List.isEmpty_iff.mp hempty, rfl⟩
  · next hcreated =>
    obtain ⟨create, hcreate, h⟩ := bind_ok_inversion h
    cases h
    obtain ⟨texts, htexts, rfl⟩ := clause_joined_eq_ok hcreate
    exact .inr ⟨texts, fun hnone => hcreated (List.isEmpty_iff.mpr hnone),
      htexts, rfl⟩

/-- What is created: all of it together. -/
theorem patternClauses_creating (h : creating.clauses s = .ok clauses) :
    ∃ texts, (s.pattern.chunk .created).mapM Pattern.Element.text =
      .ok texts ∧
      patternClauses clauses = joinedClause .create texts := by
  rcases createClauses_eq_ok h with ⟨hempty, rfl⟩ |
      ⟨texts, hcreated, htexts, rfl⟩
  · rw [hempty]
    exact ⟨[], rfl, rfl⟩
  · have hrows :
        ∀ c ∈ s.batchCreate.toList.map (unwindClause · s.batchVariable),
        c.kind ∈ [ClauseKind.unwind] := by
      intro c hc
      obtain ⟨batch, -, rfl⟩ := List.mem_map.mp hc
      exact .head _
    refine ⟨texts, htexts, ?_⟩
    rw [patternClauses_append, patternClauses_eq_nil rfl hrows,
      List.nil_append,
      joinedClause_of_mapM hcreated htexts]
    rfl

/-- What is merged: all of it together. -/
theorem patternClauses_merging (h : merging.clauses s = .ok clauses) :
    ∃ texts, (s.pattern.chunk .merged).mapM Pattern.Element.text = .ok texts ∧
      patternClauses clauses = joinedClause .merge texts := by
  rw [Pass.clauses, mergeClauses] at h
  split at h
  · next hempty =>
    cases h
    rw [List.isEmpty_iff.mp hempty]
    exact ⟨[], rfl, rfl⟩
  · next hmerged =>
    obtain ⟨merge, hmerge, h⟩ := bind_ok_inversion h
    obtain ⟨found, hfound, h⟩ := bind_ok_inversion h
    obtain ⟨created, hcreated, h⟩ := bind_ok_inversion h
    cases h
    obtain ⟨texts, htexts, rfl⟩ :=
      joinedClause_of_joined (fun hnone =>
        hmerged (List.isEmpty_iff.mpr hnone)) hmerge
    have honMatch : OfKinds [.onMatchSet] (.ok found) := by
      rw [← hfound]
      exact OfKinds.clauseIf _ (.head _) _
    have honCreate : OfKinds [.onCreateSet] (.ok created) := by
      rw [← hcreated]
      exact OfKinds.clauseIf _ (.head _) _
    refine ⟨texts, htexts, ?_⟩
    rw [patternClauses_append, patternClauses_append,
      patternClauses_eq_nil rfl honMatch,
      patternClauses_eq_nil rfl honCreate, List.append_nil, List.append_nil,
      patternClauses_joinedClause rfl]

/-- Whether a pass writes elements of a pattern. -/
def isOfPattern (pass : Pass) : Bool := pass.kinds.any ClauseKind.isOfPattern

end Pass

namespace Composition

variable {s : Structure Nested}

/-- The passes that write no elements can be left out. -/
theorem patternClauses_clauses {composition : Composition}
    {clauses : List Clause} (hunited : .uniting ∉ composition)
    (h : composition.clauses s = .ok clauses) :
    ∃ fewer, Composition.clauses (composition.filter Pass.isOfPattern) s =
      .ok fewer ∧
      patternClauses clauses = patternClauses fewer := by
  induction composition generalizing clauses with
  | nil => exact ⟨clauses, h, rfl⟩
  | cons pass rest ih =>
    rw [List.mem_cons, not_or] at hunited
    obtain ⟨hpass, hrest⟩ := hunited
    obtain ⟨first, later, hfirst, hlater, rfl⟩ := clauses_cons_eq_ok h
    obtain ⟨fewer, hfewer, hsame⟩ := ih hrest hlater
    by_cases hpattern : pass.isOfPattern = true
    · refine ⟨first ++ fewer, ?_, ?_⟩
      · rw [List.filter_cons_of_pos hpattern, clauses_cons, hfirst, hfewer]
        rfl
      · rw [patternClauses_append, patternClauses_append, hsame]
    · have hkinds := pass.ofKinds_clauses (Ne.symm hpass) s
      rw [hfirst] at hkinds
      refine ⟨fewer, ?_, ?_⟩
      · rw [List.filter_cons_of_neg hpattern]
        exact hfewer
      · have hnone :=
          patternClauses_eq_nil (Bool.eq_false_iff.mpr hpattern) hkinds
        rw [patternClauses_append, hnone, List.nil_append, hsame]

/-- The clauses of a pattern in a query by itself, by the views of its
store. -/
theorem patternClauses_single {clauses : List Clause}
    (h : single.clauses s = .ok clauses) :
    ∃ strict optional merged created,
      (s.pattern.chunk .matchedStrictly).mapM Pattern.Element.text =
        .ok strict ∧
      (s.pattern.chunk .matchedOptionally).mapM Pattern.Element.text =
        .ok optional ∧
      (s.pattern.chunk .merged).mapM Pattern.Element.text = .ok merged ∧
      (s.pattern.chunk .created).mapM Pattern.Element.text = .ok created ∧
      patternClauses clauses =
        joinedClause .match_ strict ++
          optional.map (Clause.mk .optionalMatch) ++
          joinedClause .merge merged ++ joinedClause .create created := by
  obtain ⟨fewer, hfewer, hsame⟩ := patternClauses_clauses (by decide) h
  have hpasses : single.filter Pass.isOfPattern = [.matching false, .merging,
      .creating] := rfl
  rw [hpasses] at hfewer
  obtain ⟨matched, later, hmatched, hlater, rfl⟩ := clauses_cons_eq_ok hfewer
  obtain ⟨merges, last, hmerges, hlast, rfl⟩ := clauses_cons_eq_ok hlater
  obtain ⟨creates, none, hcreates, hnone, rfl⟩ := clauses_cons_eq_ok hlast
  rw [clauses_nil] at hnone
  cases hnone
  obtain ⟨strict, optional, hstrict, hoptional, hmatch⟩ :=
    Pass.patternClauses_matching hmatched
  obtain ⟨merged, hmerged, hmerge⟩ := Pass.patternClauses_merging hmerges
  obtain ⟨created, hcreated, hcreate⟩ := Pass.patternClauses_creating hcreates
  refine ⟨strict, optional, merged, created, hstrict, hoptional, hmerged,
    hcreated, ?_⟩
  have hnil : patternClauses [] = [] := rfl
  rw [hsame, patternClauses_append, patternClauses_append,
    patternClauses_append, hmatch, hmerge,
    hcreate, hnil, List.append_nil]
  simp only [List.append_assoc]

end Composition

namespace Query

/-- The clauses of the query that a query is united with. -/
def united (q : Query) : Except Fault (List Clause) :=
  match q.structure.union with
  | none => .ok []
  | some second => do return ⟨.union, ""⟩ :: (← second.compile)

/-- Uniting adds what the second query is given by. -/
theorem compile_uniting (q : Query) : q.compile [.uniting] = q.united := by
  rw [compile_eq, Composition.clauses_cons, Composition.clauses_nil, united,
    Pass.clauses]
  cases hunion : q.structure.union with
  | none =>
    rw [Structure.map, hunion]
    rfl
  | some second =>
    rw [Structure.map, hunion]
    show (do
      let first ← (do return Clause.mk .union "" :: (← second.compile))
      return first ++ []) =
        (do return Clause.mk .union "" :: (← second.compile))
    cases second.compile with
    | error fault => rfl
    | ok clauses => exact congrArg Except.ok (List.append_nil _)

/-- A query compiles to what it is by itself, and then to its union. -/
theorem compile_full (q : Query) :
    q.compile .full = (do
      let own ← q.compile .single
      return own ++ (← q.united)) := by
  have hcut : Composition.full = Composition.single ++ [.uniting] := rfl
  rw [← compile_uniting, compile_eq, compile_eq, compile_eq, hcut,
    Composition.clauses_append]

/-- **Every declared element is written once.**  The strict and the optional
matches, the merged and the created elements of a pattern are all the
elements that were declared, and the matches are the strict and the optional
ones.  Each view lists what was declared for its intents, fragments before
nodes before relationships, and those of one sort as they were declared; a
declaration leaves what is known at its place, and so do any calls on the
shelf of the store. Whenever a query compiles, then by itself, before the
query it is united with, it has one clause with all the strict matches, one
for each optional match, one with all that is merged and one with all that
is created, and the texts in them are those of the declared elements.  The
views together list all elements in another order, and so do their texts. -/
theorem writes_every_element_once (q : Query) :
    let s := q.structure.pattern
    (s.chunk .matchedStrictly ++ s.chunk .matchedOptionally ++
      s.chunk .merged ++
        s.chunk .created).Perm (s.entries.map Pattern.Entry.element) ∧
      (s.chunk .matched).Perm
        (s.chunk .matchedStrictly ++ s.chunk .matchedOptionally) ∧
      (∀ view intents, (view, intents) ∈ Pattern.viewIntents →
        Pattern.StablyRanked (s.declaredWith intents) (s.chunk view)) ∧
      (∀ d t, Pattern.Declaration.apply s d = .ok t → s.places <+: t.places) ∧
      (∀ (shelf : Pattern.Shelf) (i : Nat) steps, shelf.store i = s →
        s.places <+: ((shelf.after steps).store i).places) ∧
      q.compile .full = (do
        let own ← q.compile .single
        return own ++ (← q.united)) ∧
      ∀ own, q.compile .single = .ok own →
        ∃ strict optional merged created texts,
          (s.chunk .matchedStrictly).mapM Pattern.Element.text = .ok strict ∧
          (s.chunk .matchedOptionally).mapM Pattern.Element.text =
            .ok optional ∧
          (s.chunk .merged).mapM Pattern.Element.text = .ok merged ∧
          (s.chunk .created).mapM Pattern.Element.text = .ok created ∧
          patternClauses own =
            joinedClause .match_ strict ++
              optional.map (Clause.mk .optionalMatch) ++
              joinedClause .merge merged ++ joinedClause .create created ∧
          (s.entries.map Pattern.Entry.element).mapM Pattern.Element.text =
            .ok texts ∧
          (strict ++ optional ++ merged ++ created).Perm texts := by
  intro s
  refine ⟨s.perm_chunks, s.perm_chunk_matched, ?_, ?_, ?_, q.compile_full, ?_⟩
  · exact fun view intents => s.stablyRanked_of_viewIntents
  · exact fun d t happly => (Pattern.Declaration.makes_of_apply happly).places
  · exact fun shelf i steps hstore => hstore ▸ shelf.places_after steps i
  · intro own hown
    rw [compile_eq] at hown
    obtain ⟨strict, optional, merged, created, hstrict, hoptional, hmerged,
        hcreated, hclauses⟩ :=
      Composition.patternClauses_single hown
    have htogether : (s.chunk .matchedStrictly ++
        s.chunk .matchedOptionally ++ s.chunk .merged ++
        s.chunk .created).mapM Pattern.Element.text =
          .ok (strict ++ optional ++ merged ++ created) := by
      exact mapM_append (mapM_append (mapM_append hstrict hoptional) hmerged)
        hcreated
    obtain ⟨texts, htexts, hperm⟩ := mapM_perm s.perm_chunks htogether
    exact ⟨strict, optional, merged, created, texts, hstrict, hoptional,
      hmerged, hcreated,
      hclauses, htexts, hperm⟩

/-- A query on a pattern whose elements were declared for one thing and then
for another: `c` was matched and is now created, and the relationship stands
behind both of its ends. -/
def rededicated : Query :=
  let shelf := ({ names := {} } : Pattern.Shelf).after
    [.call 0 (.matchRelationship (some "a:A") (some "c:C") (.one "R")
      (some "r") none false),
      .call 0 (.matchNode (.one "B") (some "b") true),
      .call 0 (.matchRaw "(d)-->(e)" false),
      .call 0 (.writeNode .merging (.one "A") (some "a") []),
      .call 0 (.assign "c" [] .toCreate)]
  Structure.toQuery
    { pattern := shelf.store 0, entry := "a", batchVariable := "toCreate" }

/-- Elements that were declared for one thing and then for another are
written once each. -/
theorem writes_every_element_once_of_rededicated :
    let s := rededicated.structure.pattern
    ∃ own strict optional merged created texts,
      rededicated.compile .single = .ok own ∧
      patternClauses own =
        joinedClause .match_ strict ++
          optional.map (Clause.mk .optionalMatch) ++
          joinedClause .merge merged ++ joinedClause .create created ∧
      (s.entries.map Pattern.Entry.element).mapM Pattern.Element.text =
        .ok texts ∧
      (strict ++ optional ++ merged ++ created).Perm texts ∧
      clausesText own =
        "MATCH (d)-->(e),(a)-[r:R]->(c) OPTIONAL MATCH (b:B) " ++
        "MERGE (a:A) CREATE (c:C)" := by
  intro s
  have htext : (rededicated.compile .single).toOption.map clausesText = some
      ("MATCH (d)-->(e),(a)-[r:R]->(c) OPTIONAL MATCH (b:B) " ++
        "MERGE (a:A) CREATE (c:C)") := by
    decide +kernel
  obtain ⟨-, -, -, -, -, -, hclauses⟩ := writes_every_element_once rededicated
  cases hown : rededicated.compile .single with
  | error fault =>
    rw [hown] at htext
    cases htext
  | ok own =>
    obtain ⟨strict, optional, merged, created, texts, -, -, -, -, hpattern,
        htexts, hperm⟩ :=
      hclauses own hown
    rw [hown] at htext
    exact ⟨own, strict, optional, merged, created, texts, rfl, hpattern,
      htexts, hperm,
      Option.some.inj htext⟩

end Query

end GraphQuery

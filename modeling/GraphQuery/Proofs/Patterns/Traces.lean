import GraphQuery.Proofs.Patterns.Calls
import GraphQuery.Proofs.Patterns.Index

/-!
# How names are given

A call of a store gives names: one to a node, and to a relationship one for
each of its ends and then its own.  A name is spelled, by an argument or by
a label, or it is drawn from the anonymous ones.  What a call does, also one
that fails half-way, is to give these names one after the other and to make
declarations under names already given: `Traced.perform`.  Hence the names
drawn are numbered in order, and nothing is in a store whose name was not
given.
-/

namespace GraphQuery.Pattern

open GraphQuery.Computation

/-- The anonymous name of a number. -/
def NameSequence.numbered (names : NameSequence) (k : Nat) :
    String := names.stem ++ toString k

/-- Drawing a name changes the sequence. -/
theorem NameSequence.draw_ne (names : NameSequence) :
    names.draw.2 ≠ names := by
  intro h
  have hdrawn := congrArg NameSequence.drawn h
  exact Nat.succ_ne_self names.drawn hdrawn

/-- Naming an element draws a name exactly if it is given neither a name nor
a label. -/
theorem decode_ne_iff (sort : ElementSort) (given : LabelArgument)
    (name : Option String) (names : NameSequence) :
    (decode sort given name names).2 ≠ names ↔
    explicitName given.labels name = ("", []) := by
  rcases explicitName_cases given name with htold | ⟨first, others, hlabel⟩ |
      hnothing
  · rw [decode_of_told htold]
    exact iff_of_false (fun hne => hne rfl) fun hnothing =>
      htold (congrArg Prod.fst hnothing)
  · rw [decode_of_label hlabel, hlabel]
    exact iff_of_false (fun hne => hne rfl) (by simp)
  · rw [decode_of_nothing hnothing]
    exact iff_of_true names.draw_ne hnothing

/-- A name is given to an element, or to an end of a relationship. -/
structure Naming (σ : Type) where
  /-- The state at that moment. -/
  moment : σ
  name : String
  /-- Whether the name is one of the anonymous ones. -/
  drawn : Bool
  /-- The answer of the call that declares an element under the name; ends of
  relationships have none. -/
  answer : Option (Except Fault StoreAnswer) := none

namespace Naming

/-- A naming seen in another kind of state. -/
def map {σ τ : Type} (f : σ → τ) (naming : Naming σ) : Naming τ :=
  { naming with moment := f naming.moment }

/-- The naming of an element after its arguments. -/
def decoded (sort : ElementSort) (given : LabelArgument)
    (name : Option String) (answer : Option (Except Fault StoreAnswer))
    (r : Registry) : Naming Registry where
  moment := r
  name := (decode sort given name r.names).1.1
  drawn := decide ((decode sort given name r.names).2 ≠ r.names)
  answer := answer

/-- A naming has the name that is read. -/
theorem decoded_name (sort : ElementSort) (given : LabelArgument)
    (name : Option String) (answer : Option (Except Fault StoreAnswer))
    (r : Registry) :
    (decoded sort given name answer r).name =
      (decode sort given name r.names).1.1 := by
  rw [decoded]

/-- A name is drawn for an element exactly if it is given neither a name nor
a label. -/
theorem drawn_decoded_iff (sort : ElementSort) (given : LabelArgument)
    (name : Option String) (answer : Option (Except Fault StoreAnswer))
    (r : Registry) :
    (decoded sort given name answer r).drawn = true ↔
    explicitName given.labels name = ("", []) := by
  rw [decoded, decide_eq_true_iff, decode_ne_iff]

/-- The naming of an end of a relationship. -/
def ofEnd (given : Option String) (r : Registry) : Naming Registry :=
  match given.filter fun text => !Text.isBlankText text with
  | none => { moment := r, name := r.names.draw.1, drawn := true }
  | some text => decoded .node .none (some text) none r

/-- The naming of an end has the name of the end. -/
theorem ofEnd_name (given : Option String) (intent : Intent) (r : Registry) :
    (ofEnd given r).name = (endDeclarations given intent r.names).name := by
  unfold ofEnd endDeclarations
  cases given.filter fun text => !Text.isBlankText text with
  | none => rfl
  | some text =>
    dsimp only
    rw [decoded_name]

end Naming

/-- The names a relationship gives: to its left end, to its right end, and
to itself.  Those behind an end that cannot be declared are not given. -/
def relationshipNamings (left right : Option String) (given : LabelArgument)
    (name : Option String) (intent : Intent)
    (answer : Except Fault StoreAnswer) (r : Registry) :
    List (Naming Registry) :=
  .ofEnd left r :: match exec (Registration.endpoint left intent) r with
    | (.error _, _) => []
    | (.ok _, s) =>
      .ofEnd right s :: match exec (Registration.endpoint right intent) s with
      | (.error _, _) => []
      | (.ok _, t) =>
        [.decoded .relationship (.many (extractDirection given.labels).1)
          name (some answer) t]

/-- The names a call of a store gives, in order. -/
def StoreCall.namings (r : Registry) (call : StoreCall Assignment) :
    List (Naming Registry) :=
  let answer := (exec call.perform r).1
  match call with
  | .matchNode given name _ => [.decoded .node given name (some answer) r]
  | .matchRelationship left right given name _ optional =>
    relationshipNamings left right given name (.matching optional) answer r
  | .writeNode _ given name _ =>
    if given.labels.isEmpty then []
    else [.decoded .node (.many given.labels) name (some answer) r]
  | .writeRelationship writing left right given name _ _ =>
    if given.labels.isEmpty then []
    else relationshipNamings left right (.many given.labels) name
      writing.intent answer r
  | .matchRaw _ _ | .writeRaw _ _ | .assign _ _ _ | .get _ | .intentOf
      _ | .chunk _ | .size => []

/-- The names that stand in an element: its own and those of its ends. -/
def Element.mentions : Element → List String
  | node n => [n.name]
  | relationship r => [r.name, r.left, r.right]
  | raw _ | misplaced _ => []

/-- The names of the elements of a store and of the ends of its
relationships. -/
def Store.mentions (s : Store) : List String :=
  s.entries.flatMap fun entry => entry.element.mentions

/-- An element mentions its own name. -/
theorem Element.mem_mentions_of_name? {e : Element} {name : String}
    (h : e.name? = some name) :
    name ∈ e.mentions := by
  cases e <;> cases h <;> exact List.mem_cons_self

/-- A name that stands nowhere in a store is not found there. -/
theorem Store.Indexed.find?_eq_none_of_not_mem {s : Store} {name : String}
    (h : s.Indexed) (hname : name ∉ s.mentions) : s.find? name = none :=
  h.find?_eq_none_iff.mpr fun entry hentry hsame =>
    hname (List.mem_flatMap.mpr ⟨entry, hentry,
      Element.mem_mentions_of_name? hsame⟩)

/-- The names a declaration brings into a store. -/
def Declaration.given : Declaration → List String
  | node name _ _ _ => [name]
  | relationship new _ => [new.name, new.left, new.right]
  | raw _ _ | assign _ _ _ => []

namespace Declaration

variable {d : Declaration} {s s' : Store} {known entry : Entry}

/-- A new entry mentions what its declaration gives. -/
theorem mentions_of_entry? (h : d.entry? = some entry) :
    entry.element.mentions = d.given := by
  cases d <;> cases h <;> rfl

/-- An entry that is extended mentions what it did. -/
theorem mentions_of_extend (h : d.extend known = some entry) :
    entry.element.mentions = known.element.mentions := by
  rcases known with ⟨_ | _ | _ | _, _⟩ <;> cases d <;> cases h <;> rfl

/-- A declaration brings no other names into a store than those it is given. -/
theorem mentions_of_makes (h : d.Makes s s') {name : String}
    (hname : name ∈ s'.mentions) :
    name ∈ s.mentions ∨ name ∈ d.given := by
  obtain ⟨found, hfound, hmention⟩ := List.mem_flatMap.mp hname
  rcases h.mem_entries hfound with hold | hnew | ⟨known, hknown, hextend⟩
  · exact .inl (List.mem_flatMap.mpr ⟨found, hold, hmention⟩)
  · have hgiven : found.element.mentions = d.given := mentions_of_entry? hnew
    rw [hgiven] at hmention
    exact .inr hmention
  · rw [mentions_of_extend hextend] at hmention
    exact .inl (List.mem_flatMap.mpr ⟨known, hknown, hmention⟩)

end Declaration

/-- What leads from one registry to another: names are given, by drawing or
by spelling them, and declarations are made under names given before. -/
inductive Traced (r : Registry) : List (Naming Registry) → Registry → Prop
  | refl : Traced r [] r
  | drawn {past : List (Naming Registry)} {s t : Registry}
      (before : Traced r past s)
    (answer : Option (Except Fault StoreAnswer)) (hstore : t.store = s.store)
    (hnames : t.names = s.names.draw.2) :
    Traced r (past ++ [⟨s, s.names.draw.1, true, answer⟩]) t
  | spelled {past : List (Naming Registry)} {s t : Registry}
      (before : Traced r past s)
    (name : String) (answer : Option (Except Fault StoreAnswer))
    (hstore : t.store = s.store)
    (hnames : t.names = s.names) :
    Traced r (past ++ [⟨s, name, false, answer⟩]) t
  | declared {past : List (Naming Registry)} {s t : Registry}
      (before : Traced r past s)
    (d : Declaration) (happly : d.apply s.store = .ok t.store)
    (hnames : t.names = s.names)
    (hgiven : ∀ name ∈ d.given, ∃ naming ∈ past, naming.name = name) :
    Traced r past t

/-- Naming an element draws the next anonymous name or leaves them as they
are. -/
theorem decode_names (sort : ElementSort) (given : LabelArgument)
    (name : Option String) (names : NameSequence) :
    (decode sort given name names).2 = names ∨
      (decode sort given name names).1 = (names.draw.1, []) ∧
        (decode sort given name names).2 = names.draw.2 := by
  rcases explicitName_cases given name with htold | ⟨first, others, hlabel⟩ |
      hnothing
  · rw [decode_of_told htold]
    exact .inl rfl
  · rw [decode_of_label hlabel]
    exact .inl rfl
  · rw [decode_of_nothing hnothing]
    exact .inr ⟨rfl, rfl⟩

/-- The item in a list that has one more at its end is that one or comes
before it. -/
theorem eq_or_of_append_cons_eq_concat {α : Type}
    {before later past : List α} {a b : α}
    (h : before ++ a :: later = past ++ [b]) :
    (before = past ∧ a = b) ∨ ∃ others, before ++ a :: others = past := by
  rcases List.eq_nil_or_concat later with rfl | ⟨others, last, rfl⟩
  · obtain ⟨hbefore, hlast⟩ := List.append_inj' h rfl
    exact .inl ⟨hbefore, (List.cons.inj hlast).1⟩
  · rw [List.concat_eq_append, ← List.cons_append, ← List.append_assoc] at h
    exact .inr ⟨others, (List.append_inj' h rfl).1⟩

namespace Traced

variable {r s : Registry} {past : List (Naming Registry)}

/-- Reading a name and labels is a naming. -/
theorem resolve (h : Traced r past s) (sort : ElementSort)
    (given : LabelArgument) (name : Option String)
    (answer : Option (Except Fault StoreAnswer)) :
    Traced r (past ++ [.decoded sort given name answer s])
      { s with names := (decode sort given name s.names).2 } := by
  rcases decode_names sort given name s.names with hsame | ⟨hdecoded, hdrawn⟩
  · have hnaming : Naming.decoded sort given name answer s =
        ⟨s, (decode sort given name s.names).1.1, false, answer⟩ := by
      rw [Naming.decoded, hsame]
      simp
    rw [hnaming, hsame]
    exact h.spelled _ answer rfl rfl
  · have hnaming : Naming.decoded sort given name answer s =
        ⟨s, s.names.draw.1, true, answer⟩ := by
      rw [Naming.decoded, hdrawn, hdecoded]
      simp [NameSequence.draw_ne]
    rw [hnaming, hdrawn]
    exact h.drawn answer rfl rfl

/-- A declaration of names given before is no naming. -/
theorem declare (h : Traced r past s) {kind name : String} {intent : Intent}
    {declaration : Store → Except Fault (Element × Store)} (d : Declaration)
    (happly : ∀ store, d.apply store = (declaration store).map Prod.snd)
    (hgiven : ∀ name ∈ d.given, ∃ naming ∈ past, naming.name = name) :
    Traced r past
      (exec (Registration.declare kind name intent declaration) s).2 := by
  rcases hexec : exec (Registration.declare kind name intent declaration)
      s with ⟨fault | e, t⟩
  · obtain rfl := Registration.eq_of_declare_error hexec
    exact h
  · obtain ⟨hdeclared, hnames⟩ := Registration.declaration_of_declare hexec
    have hstore : d.apply s.store = .ok t.store := by
      rw [happly, hdeclared]
      rfl
    exact h.declared d hstore hnames hgiven

/-- The name given last is given. -/
theorem given_last (past : List (Naming Registry)) {naming : Naming Registry}
    {name : String} (hname : naming.name = name) :
    ∀ other ∈ [name], ∃ earlier ∈ past ++ [naming], earlier.name = other := by
  intro other hother
  rw [List.mem_singleton.mp hother]
  exact ⟨naming, List.mem_append_right past List.mem_cons_self, hname⟩

/-- Registering a node is one naming. -/
theorem node (h : Traced r past s) (given : LabelArgument)
    (name : Option String) (intent : Intent) (properties : List Assignment)
    (answer : Option (Except Fault StoreAnswer)) :
    Traced r (past ++ [.decoded .node given name answer s])
      (exec (Registration.node given name intent properties) s).2 := by
  have hnamed := h.resolve .node given name answer
  have hlast :=
    given_last past (Naming.decoded_name .node given name answer s)
  rw [Registration.node, exec_bind, Registration.exec_resolve]
  rcases hdecode : decode .node given name s.names with
      ⟨⟨resolved, labels⟩, names⟩
  rw [hdecode] at hnamed hlast
  exact hnamed.declare (.node resolved labels properties intent) (fun _ =>
    rfl) hlast

/-- Registering an end is one, or two: the node is named after what was read
off the end, and that names it once more. -/
theorem endpoint (h : Traced r past s) (given : Option String)
    (intent : Intent) :
    Traced r (past ++ [.ofEnd given s])
    (exec (Registration.endpoint given intent) s).2 := by
  unfold Registration.endpoint Naming.ofEnd
  cases given.filter fun text => !Text.isBlankText text with
  | none => exact h.drawn none rfl rfl
  | some text =>
    dsimp only
    have hnamed := h.resolve .node .none (some text) none
    have hlast :=
      given_last past (Naming.decoded_name .node .none (some text) none s)
    rw [exec_bind, Registration.exec_resolve]
    rcases hdecode : decode .node .none (some text) s.names with
        ⟨⟨name, labels⟩, names⟩
    rw [hdecode] at hnamed hlast
    dsimp only at hnamed hlast ⊢
    cases labels with
    | nil => exact hnamed
    | cons label rest =>
      obtain ⟨rfl, hagain⟩ :=
        decode_again hdecode (List.cons_ne_nil label rest)
      have hnode : exec (Registration.node (.many (label :: rest))
          (some name) intent) s =
          exec (Registration.declare ElementKind.node.name name intent
            fun store =>
            store.declareNode name (label :: rest) [] intent) s := by
        rw [Registration.node, exec_bind, Registration.exec_resolve, hagain]
      have hdeclared :
          Traced r (past ++ [.decoded .node .none (some text) none s])
          (exec (Registration.node (.many (label :: rest))
            (some name) intent) s).2 := by
        rw [hnode]
        exact hnamed.declare (.node name (label :: rest) [] intent) (fun _ =>
          rfl) hlast
      show Traced r _ (exec (Registration.node (.many (label :: rest))
          (some name) intent >>=
        fun _ => pure name) s).2
      rw [exec_bind]
      rcases hexec : exec (Registration.node (.many (label :: rest))
          (some name) intent) s with
        ⟨_ | _, t⟩
      · rwa [hexec] at hdeclared
      · rwa [hexec] at hdeclared

/-- Registering a relationship is a naming for each end and one of its own,
under which it is declared; it mentions those of its ends. -/
theorem relationship (h : Traced r past s) (left right : Option String)
    (given : LabelArgument) (name : Option String)
    (direction : Option Direction) (intent : Intent)
    (properties : List Assignment) (answer : Except Fault StoreAnswer) :
    Traced r
      (past ++ relationshipNamings left right given name intent answer s)
      (exec (Registration.relationship left right given name direction
        intent properties) s).2 := by
  unfold Registration.relationship relationshipNamings
  rcases extractDirection given.labels with ⟨types, marked⟩
  have hleft := h.endpoint left intent
  dsimp only
  rw [exec_bind]
  rcases hl : exec (Registration.endpoint left intent) s with
      ⟨fault | leftName, t⟩
  · rwa [hl] at hleft
  · rw [hl] at hleft
    have hright := hleft.endpoint right intent
    dsimp only
    rw [exec_bind]
    rcases hr : exec (Registration.endpoint right intent) t with
        ⟨fault | rightName, u⟩
    · rw [hr, List.append_assoc] at hright
      exact hright
    · rw [hr] at hright
      have hself :=
        hright.resolve .relationship (.many types) name (some answer)
      have hname := Naming.decoded_name .relationship (.many types) name
        (some answer) u
      obtain ⟨hleftName, -⟩ := Registration.applyAll_of_endpoint hl
      obtain ⟨hrightName, -⟩ := Registration.applyAll_of_endpoint hr
      rw [← Naming.ofEnd_name left intent] at hleftName
      rw [← Naming.ofEnd_name right intent] at hrightName
      dsimp only
      rw [exec_bind, Registration.exec_resolve]
      rcases hdecode : decode .relationship (.many types) name u.names with
        ⟨⟨resolved, own⟩, names⟩
      rw [hdecode] at hself hname
      have hgiven : ∀ other ∈ [resolved, leftName, rightName],
          ∃ naming ∈ past ++ [.ofEnd left s] ++ [.ofEnd right t] ++
            [.decoded .relationship (.many types) name (some answer) u],
            naming.name = other := by
        intro other hother
        simp only [List.mem_append, List.mem_cons, List.not_mem_nil,
          or_false] at hother ⊢
        rcases hother with rfl | rfl | rfl
        · exact ⟨_, .inr rfl, hname⟩
        · exact ⟨_, .inl (.inl (.inr rfl)), hleftName.symm⟩
        · exact ⟨_, .inl (.inr rfl), hrightName.symm⟩
      rw [List.append_assoc, List.append_assoc] at hself hgiven
      exact hself.declare (.relationship
        { name := resolved, left := leftName, right := rightName,
          types := own, properties
          direction := (direction <|> marked).getD .leftToRight } intent)
            (fun _ => rfl) hgiven

/-- Registering a fragment is no naming. -/
theorem raw (h : Traced r past s) (text : String) (intent : Intent) :
    Traced r past (exec (Registration.raw text intent) s).2 :=
  h.declared (.raw text intent) rfl rfl fun _ hnone => nomatch hnone

/-- Giving properties is no naming. -/
theorem assign (h : Traced r past s) (name : String)
    (properties : List Assignment) (intent : Intent) :
    Traced r past
      (exec (Registration.assign name properties intent) s).2 := by
  rw [Registration.assign, exec_bind, exec_get]
  dsimp only
  rw [exec_bind, exec_lift]
  rcases hassign : s.store.assign name properties intent with
      fault | ⟨e, store⟩
  · exact h
  · have happly : (Declaration.assign name properties intent).apply s.store =
        .ok store :=
      Declaration.map_snd_eq_ok.mpr ⟨e, hassign⟩
    exact h.declared (.assign name properties intent) happly rfl
      fun _ hnone => nomatch hnone

/-- **A call gives its names, in order, and declares nothing under any
other**, also when it fails. -/
theorem perform (h : Traced r past s) (call : StoreCall Assignment) :
    Traced r (past ++ call.namings s) (exec call.perform s).2 := by
  cases call with
  | matchNode given name optional =>
    rw [StoreCall.perform, exec_bind_pure_snd]
    exact h.node given name _ [] _
  | matchRelationship left right given name direction optional =>
    have hrelationship :=
      h.relationship left right given name direction (.matching optional) []
    rw [StoreCall.perform, exec_bind_pure_snd]
    exact hrelationship _
  | matchRaw text | writeRaw _ text =>
    rw [StoreCall.perform, exec_bind_pure_snd, StoreCall.namings,
      List.append_nil]
    exact h.raw text _
  | writeNode writing given name properties =>
    rw [StoreCall.perform, exec_bind_pure_snd, StoreCall.namings,
      Registration.writtenNode,
      Registration.exec_labelsFor_bind]
    by_cases hempty : given.labels.isEmpty = true
    · rw [if_pos hempty, if_pos hempty, List.append_nil]
      exact h
    · have hnode := h.node (.many given.labels) name writing.intent properties
      rw [if_neg hempty, if_neg hempty]
      exact hnode _
  | writeRelationship writing left right given name properties direction =>
    rw [StoreCall.perform, exec_bind_pure_snd, StoreCall.namings,
      Registration.writtenRelationship,
      Registration.exec_labelsFor_bind]
    by_cases hempty : given.labels.isEmpty = true
    · rw [if_pos hempty, if_pos hempty, List.append_nil]
      exact h
    · have hrelationship :=
        h.relationship left right (.many given.labels) name direction
          writing.intent properties
      rw [if_neg hempty, if_neg hempty]
      exact hrelationship _
  | assign name properties intent =>
    rw [StoreCall.perform, exec_bind_pure_snd, StoreCall.namings,
      List.append_nil]
    exact h.assign name properties intent
  | get | intentOf | chunk | size =>
    rw [StoreCall.namings, List.append_nil]
    exact h

/-- **Every call leaves a trace of its namings.** -/
theorem of_perform {call : StoreCall Assignment}
    {outcome : Except Fault StoreAnswer}
    (h : exec call.perform r = (outcome, s)) :
    Traced r (call.namings r) s := by
  have hperform := (Traced.refl (r := r)).perform call
  rw [h] at hperform
  exact hperform

variable {t : Registry}

/-- A trace draws the names that are drawn in it. -/
theorem names_eq (h : Traced r past t) :
    t.names =
      { r.names with drawn := r.names.drawn + past.countP Naming.drawn } := by
  induction h with
  | refl => rfl
  | drawn before answer hstore hnames ih =>
    rw [hnames, NameSequence.draw, ih, List.countP_append]
    rfl
  | spelled before name answer hstore hnames ih =>
    rw [hnames, ih, List.countP_append]
    rfl
  | declared before d happly hnames hgiven ih => rw [hnames, ih]

/-- **The names drawn are numbered in order.** -/
theorem drawn_names (h : Traced r past t) :
    (past.filter Naming.drawn).map Naming.name =
      (List.range' r.names.drawn (past.countP Naming.drawn)).map
        r.names.numbered := by
  induction h with
  | refl => rfl
  | @drawn past s t before answer hstore hnames ih =>
    have hname : s.names.draw.1 =
        r.names.numbered (r.names.drawn + past.countP Naming.drawn) := by
      rw [before.names_eq]
      rfl
    rw [List.filter_append, List.map_append, ih, List.countP_append,
      List.countP_singleton,
      if_pos rfl, List.range'_1_concat, List.map_append, List.map_singleton,
      ← hname]
    rfl
  | spelled before name answer hstore hnames ih =>
    rw [List.filter_append, List.map_append, ih, List.countP_append]
    exact List.append_nil _
  | declared before d happly hnames hgiven ih => exact ih

/-- Nothing is in a store whose name was not there before and was not given. -/
theorem mentions (h : Traced r past t) {name : String}
    (hname : name ∈ t.store.mentions) :
    name ∈ r.store.mentions ∨ ∃ naming ∈ past, naming.name = name := by
  have hlonger : ∀ (past : List (Naming Registry)) (new : Naming Registry),
      (name ∈ r.store.mentions ∨ ∃ naming ∈ past, naming.name = name) →
      name ∈ r.store.mentions ∨
      ∃ naming ∈ past ++ [new], naming.name = name :=
    fun past new => Or.imp_right fun ⟨naming, hmem, heq⟩ =>
      ⟨naming, List.mem_append_left [new] hmem, heq⟩
  induction h with
  | refl => exact .inl hname
  | drawn before answer hstore hnames ih =>
    exact hlonger _ _ (ih (hstore ▸ hname))
  | spelled before name answer hstore hnames ih =>
    exact hlonger _ _ (ih (hstore ▸ hname))
  | declared before d happly hnames hgiven ih =>
    rcases Declaration.mentions_of_makes (Declaration.makes_of_apply happly)
        hname with hold | hnew
    · exact ih hold
    · exact .inr (hgiven name hnew)

/-- A trace keeps the index. -/
theorem indexed (h : Traced r past t) (hr : r.store.Indexed) :
    t.store.Indexed := by
  induction h with
  | refl => exact hr
  | drawn before answer hstore hnames ih => exact hstore ▸ ih
  | spelled before name answer hstore hnames ih => exact hstore ▸ ih
  | declared before d happly hnames hgiven ih => exact ih.apply happly

/-- What came before a naming, and what the naming finds. -/
theorem at_moment {before later : List (Naming Registry)}
    {naming : Naming Registry} (h : Traced r (before ++ naming :: later) t) :
    Traced r before naming.moment ∧
      (naming.drawn = true → naming.name = naming.moment.names.draw.1) := by
  generalize hpast : before ++ naming :: later = past at h
  induction h generalizing later with
  | refl => exact absurd hpast (by simp)
  | drawn earlier answer hstore hnames ih =>
    rcases eq_or_of_append_cons_eq_concat hpast with ⟨rfl, rfl⟩ | ⟨later, rfl⟩
    · exact ⟨earlier, fun _ => rfl⟩
    · exact ih rfl
  | spelled earlier name answer hstore hnames ih =>
    rcases eq_or_of_append_cons_eq_concat hpast with ⟨rfl, rfl⟩ | ⟨later, rfl⟩
    · exact ⟨earlier, fun hfalse => nomatch hfalse⟩
    · exact ih rfl
  | declared earlier d happly hnames hgiven ih => exact ih hpast

end Traced

/-! ## Elements of their own -/

namespace Registration

variable {r : Registry}

/-- A node whose name is not in use is declared. -/
theorem exec_node_of_unused {given : LabelArgument} {name : Option String}
    (intent : Intent) (properties : List Assignment)
    (h : r.store.find? (decode .node given name r.names).1.1 = none) :
    ∃ e, (exec (node given name intent properties) r).1 = .ok e ∧
      e.name? = some (decode .node given name r.names).1.1 := by
  rw [node, exec_bind, exec_resolve]
  rcases hdecode : decode .node given name r.names with
      ⟨⟨resolved, labels⟩, names⟩
  rw [hdecode] at h
  obtain ⟨log, hdeclare⟩ := exec_declare_of_ok (r := { r with names })
    (fun s => s.declareNode resolved labels properties intent)
    (Store.declareNode_of_new h labels properties intent)
  exact ⟨_, congrArg Prod.fst hdeclare, rfl⟩

/-- A relationship whose name is not in use is declared once its ends are. -/
theorem exec_relationship_of_unused {left right name : Option String}
    {given : LabelArgument} (direction : Option Direction) {intent : Intent}
    (properties : List Assignment) {s t : Registry}
    {leftName rightName : String}
    (hleft : exec (endpoint left intent) r = (.ok leftName, s))
    (hright : exec (endpoint right intent) s = (.ok rightName, t))
    (h : t.store.find?
      (decode .relationship (.many (extractDirection given.labels).1) name
      t.names).1.1 = none) :
    ∃ e,
    (exec (relationship left right given name direction intent properties)
      r).1 = .ok e ∧
      e.name? = some
        (decode .relationship (.many (extractDirection given.labels).1) name
        t.names).1.1 := by
  unfold relationship
  rcases hextracted : extractDirection given.labels with ⟨types, marked⟩
  rw [hextracted] at h
  dsimp only at h ⊢
  rw [exec_bind, hleft]
  dsimp only
  rw [exec_bind, hright]
  dsimp only
  rw [exec_bind, exec_resolve]
  rcases hdecode : decode .relationship (.many types) name t.names with
      ⟨⟨resolved, own⟩, names⟩
  rw [hdecode] at h
  let new : Relationship :=
    { name := resolved, left := leftName, right := rightName, types := own,
      properties
      direction := (direction <|> marked).getD .leftToRight }
  obtain ⟨log, hdeclare⟩ := exec_declare_of_ok (r := { t with names })
    (fun s => s.declareRelationship new intent)
      (Store.declareRelationship_of_new h intent)
  exact ⟨_, congrArg Prod.fst hdeclare, rfl⟩

end Registration

/-- The naming of an end has no answer. -/
theorem Naming.ofEnd_answer (given : Option String) (r : Registry) :
    (ofEnd given r).answer = none := by
  unfold ofEnd
  split <;> rfl

variable {r : Registry} {naming : Naming Registry}
    {answer : Except Fault StoreAnswer}

/-- The naming of a node has its answer and its name. -/
theorem eq_of_mem_nodeNaming {given : LabelArgument} {name : Option String}
    {reply : Except Fault StoreAnswer}
    (hnaming : naming ∈ [Naming.decoded .node given name (some reply) r])
    (hanswer : naming.answer = some answer) :
    answer = reply ∧ naming.moment = r ∧
      naming.name = (decode .node given name r.names).1.1 := by
  rw [List.mem_singleton.mp hnaming] at hanswer ⊢
  exact ⟨(Option.some.inj hanswer).symm, rfl, Naming.decoded_name _ _ _ _ r⟩

/-- The element a relationship is named for is the relationship itself. -/
theorem exists_of_mem_relationshipNamings {left right name : Option String}
    {given : LabelArgument} {intent : Intent}
    {reply : Except Fault StoreAnswer}
    (hnaming : naming ∈ relationshipNamings left right given name intent
      reply r) (hanswer : naming.answer.isSome = true) :
    ∃ leftName rightName s t,
      exec (Registration.endpoint left intent) r = (.ok leftName, s) ∧
      exec (Registration.endpoint right intent) s = (.ok rightName, t) ∧
      naming =
        .decoded .relationship (.many (extractDirection given.labels).1) name
          (some reply) t := by
  have hend : ∀ given s, naming ≠ .ofEnd given s := by
    intro given s heq
    rw [heq, Naming.ofEnd_answer] at hanswer
    cases hanswer
  have hrest := (List.mem_cons.mp hnaming).resolve_left (hend left r)
  rcases hleft : exec (Registration.endpoint left intent) r with
      ⟨_ | leftName, s⟩
  · rw [hleft] at hrest
    cases hrest
  · rw [hleft] at hrest
    have hown := (List.mem_cons.mp hrest).resolve_left (hend right s)
    rcases hright : exec (Registration.endpoint right intent) s with
        ⟨_ | rightName, t⟩
    · rw [hright] at hown
      cases hown
    · rw [hright] at hown
      exact ⟨leftName, rightName, s, t, rfl, hright,
        List.mem_singleton.mp hown⟩

/-- A node of a name not in use is answered with. -/
theorem answer_of_unused_node {given : LabelArgument} {name : Option String}
    (intent : Intent) (properties : List Assignment)
    {reply : Except Fault StoreAnswer}
    (hreply : reply =
      (exec (Registration.node given name intent properties) r).1.map
        StoreAnswer.element)
    (hnaming : naming ∈ [Naming.decoded .node given name (some reply) r])
    (hanswer : naming.answer = some answer)
    (hunused : naming.moment.store.find? naming.name = none) :
    ∃ e, answer = .ok (.element e) ∧ e.name? = some naming.name := by
  obtain ⟨hanswered, hmoment, hname⟩ := eq_of_mem_nodeNaming hnaming hanswer
  rw [hmoment, hname] at hunused
  obtain ⟨e, hexec, he⟩ :=
    Registration.exec_node_of_unused intent properties hunused
  rw [hanswered, hreply, hexec, hname]
  exact ⟨e, rfl, he⟩

/-- A relationship of a name not in use is answered with. -/
theorem answer_of_unused_relationship {left right name : Option String}
    {given : LabelArgument} (direction : Option Direction) {intent : Intent}
    (properties : List Assignment) {reply : Except Fault StoreAnswer}
    (hreply : reply =
      (exec (Registration.relationship left right given name direction intent
      properties) r).1.map StoreAnswer.element)
    (hnaming : naming ∈ relationshipNamings left right given name intent
      reply r)
    (hanswer : naming.answer = some answer)
    (hunused : naming.moment.store.find? naming.name = none) :
    ∃ e, answer = .ok (.element e) ∧ e.name? = some naming.name := by
  obtain ⟨leftName, rightName, s, t, hleft, hright, rfl⟩ :=
    exists_of_mem_relationshipNamings hnaming (hanswer ▸ rfl)
  obtain rfl : reply = answer := Option.some.inj hanswer
  rw [Naming.decoded_name] at hunused ⊢
  obtain ⟨e, hexec, he⟩ :=
    Registration.exec_relationship_of_unused direction properties hleft
      hright hunused
  rw [hreply, hexec]
  exact ⟨e, rfl, he⟩

/-- **An element named as nothing else in its store is an element of its
own**: the call that declares it succeeds, and answers with an element of
that name. -/
theorem StoreCall.answer_of_unused {call : StoreCall Assignment}
    (hnaming : naming ∈ call.namings r)
    (hanswer : naming.answer = some answer)
    (hunused : naming.moment.store.find? naming.name = none) :
    ∃ e, answer = .ok (.element e) ∧ e.name? = some naming.name := by
  cases call with
  | matchNode given name optional =>
    rw [namings] at hnaming
    refine answer_of_unused_node (.matching optional) [] ?_ hnaming
      hanswer hunused
    rw [perform, exec_bind_pure_fst]
  | matchRelationship left right given name direction optional =>
    rw [namings] at hnaming
    refine answer_of_unused_relationship direction [] ?_ hnaming
      hanswer hunused
    rw [perform, exec_bind_pure_fst]
  | writeNode writing given name properties =>
    rw [namings] at hnaming
    by_cases hempty : given.labels.isEmpty = true
    · rw [if_pos hempty] at hnaming
      cases hnaming
    · rw [if_neg hempty] at hnaming
      refine answer_of_unused_node writing.intent properties ?_ hnaming
        hanswer hunused
      rw [perform, exec_bind_pure_fst, Registration.writtenNode,
        Registration.exec_labelsFor_bind, if_neg hempty]
  | writeRelationship writing left right given name properties direction =>
    rw [namings] at hnaming
    by_cases hempty : given.labels.isEmpty = true
    · rw [if_pos hempty] at hnaming
      cases hnaming
    · rw [if_neg hempty] at hnaming
      refine answer_of_unused_relationship direction properties ?_ hnaming
        hanswer hunused
      rw [perform, exec_bind_pure_fst, Registration.writtenRelationship,
        Registration.exec_labelsFor_bind, if_neg hempty]
  | matchRaw | writeRaw | assign | get | intentOf | chunk | size =>
    cases hnaming

end GraphQuery.Pattern

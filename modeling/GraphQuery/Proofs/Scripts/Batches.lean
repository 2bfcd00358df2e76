import GraphQuery.Proofs.Compiling.Accepted
import GraphQuery.Proofs.Patterns.History

/-!
# What lookups are made by

A property of an element can be looked up in the row that a batch is unwound
to.  A call that creates from rows is what gives it a lookup, and the
element keeps this whatever becomes of the batch.  So a lookup is served by
the batch, or it was and then the batch was dropped or replaced, or the
element declared for something else: `Workspace.Traced.turn` for whatever
happens at once, `Session.traced_after` for a script.
-/

namespace GraphQuery

/-- The row and the key of a lookup, if a property is given one. -/
def Assignment.lookup? (a : Assignment) : Option (String × String) :=
  match a.value with
  | .column row key => some (row, key)
  | _ => none

/-- A value is looked up in no row. -/
theorem Assignment.lookup?_of_hasValue {a : Assignment}
    (h : a.hasValue = true) :
    a.lookup? = none := by
  rw [hasValue] at h
  rw [lookup?]
  cases hvalue : a.value with
  | column =>
    rw [hvalue] at h
    cases h
  | _ => rfl

/-- The columns of the rows a parameter is bound to: the keys of the first
row. -/
def Parameter.columns (p : Parameter) : List String :=
  match p.value with
  | .list (.map first :: _) => first.map Prod.fst
  | _ => []

/-- The columns of a batch are the keys of its first row. -/
theorem Parameter.columns_eq {p : Parameter} {first : List (String × Value)}
    {rest : List (List (String × Value))}
    (h : p.value = .list ((first :: rest).map Value.map)) :
    p.columns = first.map Prod.fst := by
  rw [columns, h]
  rfl

/-- The columns of the rows that elements are created from. -/
def Content.columns (c : Content) : List String :=
  match c.batchCreate with
  | some batch => batch.columns
  | none => []

/-- A query serves the columns of its batch. -/
theorem Content.columns_eq {c : Content} {batch : Parameter}
    (h : c.batchCreate = some batch) :
    c.columns = batch.columns := by
  rw [columns, h]

/-- Elements are only ever created from rows. -/
def Content.BatchOfRows (c : Content) : Prop :=
  ∀ batch, c.batchCreate = some batch →
    ∃ rows : List (List (String × Value)),
      batch.value = .list (rows.map Value.map)

/-- Whether the batch serves a lookup of an entry: the entry is to be
created, from rows that have a column of the key. -/
def Content.Serves (c : Content) (entry : Pattern.Entry) (key : String) :
    Prop :=
  entry.intent = .toCreate ∧ key ∈ c.columns

instance (c : Content) (entry : Pattern.Entry) (key : String) :
    Decidable (c.Serves entry key) :=
  inferInstanceAs (Decidable (_ ∧ _))

/-! ### Declarations of lookups -/

namespace Pattern

/-- The lookups that properties of an element are given. -/
def Element.lookups (e : Element) : List (String × String) :=
  e.properties.filterMap Assignment.lookup?

/-- Only a named element looks values up. -/
theorem Element.exists_name_of_mem_lookups {e : Element}
    {lookup : String × String} (h : lookup ∈ e.lookups) :
    ∃ name, e.name? = some name := by
  cases e with
  | node n => exact ⟨n.name, rfl⟩
  | relationship r => exact ⟨r.name, rfl⟩
  | raw | misplaced => cases h

/-- Whether the element of a name has a lookup. -/
def Store.LooksUp (s : Store) (name? : Option String)
    (lookup : String × String) : Prop :=
  ∃ entry ∈ s.entries, entry.element.name? = name? ∧
  lookup ∈ entry.element.lookups

namespace Declaration

variable {d : Declaration} {s t : Store} {known entry : Entry}
    {lookup : String × String}

/-- The lookups that a declaration gives. -/
def lookups (d : Declaration) : List (String × String) :=
  d.properties.filterMap Assignment.lookup?

/-- A new entry looks up what it is declared with. -/
theorem lookups_of_entry? (h : d.entry? = some entry) :
    entry.element.lookups = d.lookups := by
  cases d <;> cases h <;> rfl

/-- An entry that is extended looks up what it did and what it is given. -/
theorem lookups_of_extend (h : d.extend known = some entry)
    (hlookup : lookup ∈ entry.element.lookups) :
    lookup ∈ known.element.lookups ∨ lookup ∈ d.lookups := by
  rw [← List.mem_append]
  rcases known with ⟨_ | _ | _ | _, _⟩ <;> cases d <;> cases h
  all_goals first
    | exact List.filterMap_append ▸ hlookup
    | cases hlookup

/-- A lookup that an element has after a declaration was there before, or
the declaration gives it, and then its intent is that of the element. -/
theorem Makes.lookups (h : d.Makes s t) (hentry : entry ∈ t.entries)
    (hlookup : lookup ∈ entry.element.lookups) :
    s.LooksUp entry.element.name? lookup ∨ lookup ∈ d.lookups ∧
    entry.intent = d.intent := by
  rcases h.mem_entries hentry with hold | hnew | ⟨known, hknown, hextend⟩
  · exact .inl ⟨entry, hold, rfl, hlookup⟩
  · have hsame : entry.element.lookups = d.lookups := lookups_of_entry? hnew
    rw [hsame] at hlookup
    exact .inr ⟨hlookup, intent_of_entry? hnew⟩
  · rcases lookups_of_extend hextend hlookup with hbefore | hgiven
    · exact .inl ⟨known, hknown, (name?_of_extend hextend).symm, hbefore⟩
    · exact .inr ⟨hgiven, intent_of_extend hextend⟩

end Declaration

namespace Store

variable {given : Assignment → Prop} {s t : Store} {lookup : String × String}

/-- A pattern keeps its index. -/
theorem LeadsTo.indexed (h : s.LeadsTo given t) (hs : s.Indexed) :
    t.Indexed := by
  induction h with
  | refl => exact hs
  | tail _ hstep ih =>
    obtain ⟨d, -, happly⟩ := hstep
    exact ih.apply happly

/-- Where only values are given, every lookup was there before. -/
theorem LeadsTo.looksUp (h : s.LeadsTo (fun a => a.hasValue = true) t)
    {entry : Entry} (hentry : entry ∈ t.entries)
    (hlookup : lookup ∈ entry.element.lookups) :
    s.LooksUp entry.element.name? lookup := by
  induction h generalizing entry with
  | refl => exact ⟨entry, hentry, rfl, hlookup⟩
  | tail _ hstep ih =>
    obtain ⟨d, hvalues, happly⟩ := hstep
    rcases (Declaration.makes_of_apply happly).lookups hentry hlookup with
      ⟨known, hknown, hname, hbefore⟩ | ⟨hgiven, -⟩
    · rw [← hname]
      exact ih hknown hbefore
    · obtain ⟨a, ha, hlooks⟩ := List.mem_filterMap.mp hgiven
      rw [Assignment.lookup?_of_hasValue (hvalues a ha)] at hlooks
      cases hlooks

end Store

end Pattern

/-! ### Alterations of a builder -/

/-- What is so of all that is built: no two elements have one name, elements
are created from rows, and lookups are in the row that the batch is unwound
to. -/
structure Structure.Tidy (s : Structure BuilderId) : Prop where
  indexed : s.pattern.Indexed
  rows : s.BatchOfRows
  row : ∀ entry ∈ s.pattern.entries, ∀ row key,
    (row, key) ∈ entry.element.lookups →
    row = s.batchVariable

/-- The ways a batch can stop serving a lookup: elements are created from no
rows any more, or from rows without the column, or the element is declared
for something else. -/
inductive Structure.Abandons (s : Structure BuilderId)
    (name? : Option String) (key : String) :
    Structure BuilderId → Prop
  | unbatched : Abandons s name? key { s with batchCreate := none }
  | rebatched {batch : Parameter} (hkey : key ∉ batch.columns) :
      Abandons s name? key { s with batchCreate := some batch }
  | rededicated {pattern : Pattern.Store} {entry : Pattern.Entry}
      (hentry : entry ∈ pattern.entries)
      (hname : entry.element.name? = name?)
      (hintent : entry.intent ≠ .toCreate) :
      Abandons s name? key { s with pattern }

namespace Workspace

section

variable {links : BuilderId → BuilderId → Prop} {given : Assignment → Prop}
    {w w' : Workspace}
  {b : BuilderId} {s t : Structure BuilderId} {known entry : Pattern.Entry}
  {row key : String}

/-- A lookup that an element has after an alteration was there before, or
the batch serves it. -/
theorem Alteration.lookups (h : w.Alteration links b s t)
    (hentry : entry ∈ t.pattern.entries)
    (hlookup : (row, key) ∈ entry.element.lookups) :
    s.pattern.LooksUp entry.element.name? (row, key) ∨
      row = t.batchVariable ∧ t.Serves entry key := by
  cases h with
  | patterned hlead => exact .inl (hlead.looksUp hentry hlookup)
  | @lookedUp batch first rest written pattern hbatch hrows hkey happly =>
    rcases (Pattern.Declaration.makes_of_apply happly).lookups hentry
        hlookup with
      hbefore | ⟨hgiven, hintent⟩
    · exact .inl hbefore
    · cases List.mem_singleton.mp hgiven
      have hcolumn : key ∈ s.columns := by
        rw [Content.columns_eq hbatch, Parameter.columns_eq hrows]
        exact hkey
      exact .inr ⟨rfl, hintent, hcolumn⟩
  | _ => exact .inl ⟨entry, hentry, rfl, hlookup⟩

/-- A change of a builder keeps its lookups in order. -/
theorem Alteration.tidy (h : w.Alteration links b s t) (hs : s.Tidy) :
    t.Tidy := by
  constructor
  · cases h with
    | patterned hlead => exact hlead.indexed hs.indexed
    | lookedUp _ _ _ happly => exact hs.indexed.apply happly
    | _ => exact hs.indexed
  · intro batch hbatch
    cases h with
    | @batched _ first rest hrows =>
      cases hbatch
      exact ⟨first :: rest, hrows⟩
    | unbatched => cases hbatch
    | _ => exact hs.rows batch hbatch
  · intro entry hentry row key hlookup
    have hsame : t.batchVariable = s.batchVariable := by
      cases h <;> rfl
    rcases h.lookups hentry hlookup with ⟨known, hknown, -, hbefore⟩ |
        ⟨hrow, -⟩
    · rw [hsame]
      exact hs.row known hknown row key hbefore
    · exact hrow

/-- **The batch goes on serving a lookup**, unless it is abandoned in one of
the listed ways.  An entry of this name that was there before is the known
one. -/
theorem Alteration.serves_or_abandons (h : w.Alteration links b s t)
    (hs : s.Tidy) (hknown : known ∈ s.pattern.entries)
    (hlookup : (row, key) ∈ known.element.lookups)
    (hserves : s.Serves known key) (hentry : entry ∈ t.pattern.entries)
    (hname : known.element.name? = entry.element.name?) :
    t.Serves entry key ∨ s.Abandons entry.element.name? key t := by
  have hsame : entry ∈ s.pattern.entries → entry = known := by
    intro hbefore
    obtain ⟨name, hsome⟩ := Pattern.Element.exists_name_of_mem_lookups hlookup
    have hfind := hs.indexed.find?_eq_some_iff.mpr ⟨hbefore, hname ▸ hsome⟩
    exact Option.some.inj
      (hfind.symm.trans (hs.indexed.find?_eq_some_iff.mpr ⟨hknown, hsome⟩))
  cases h with
  | patterned | lookedUp =>
    by_cases hintent : entry.intent = .toCreate
    · exact .inl ⟨hintent, hserves.2⟩
    · exact .inr (.rededicated hentry rfl hintent)
  | @batched batch =>
    by_cases hkey : key ∈ batch.columns
    · rw [hsame hentry]
      exact .inl ⟨hserves.1, hkey⟩
    · exact .inr (.rebatched hkey)
  | unbatched => exact .inr .unbatched
  | _ =>
    rw [hsame hentry]
    exact .inl hserves

/-- What a builder has built after a touch, also of a number no builder has. -/
theorem Touch.body_eq_or (h : w.Touch links given w') (b : BuilderId) :
    w'.body b = w.body b ∨ w.Alteration links b (w.body b) (w'.body b) ∨
      ∃ pattern entry batchVariable, Pattern.Store.LeadsTo given {} pattern ∧
        w'.body b = { pattern, entry, batchVariable } := by
  cases hb : w'.builders[b]? with
  | none =>
    have hbefore : w.builders[b]? = none := by
      rw [Array.getElem?_eq_none_iff] at hb ⊢
      exact Nat.le_trans h.size_le hb
    exact .inl (body_congr (hb.trans hbefore.symm))
  | some found =>
    rw [body_eq hb]
    rcases h.body_cases hb with ⟨old, hold, hsame | hedit⟩ | hstarts
    · rw [body_eq hold]
      exact .inl hsame
    · rw [body_eq hold]
      exact .inr (.inl hedit)
    · exact .inr (.inr hstarts)

end

/-! ### Lookups along the way -/

/-- What can happen at once, where walks give nothing but values. -/
abbrev Turns (w w' : Workspace) : Prop := w.Touch (fun _ _ => True)
    (fun a => a.hasValue = true) w'

/-- One workspace leads to another by what can happen in any number of
steps. -/
abbrev LeadsTo (w w' : Workspace) : Prop :=
  w.Touches (fun _ _ => True) (fun a => a.hasValue = true) w'

/-- On the way from one workspace to another, the batch of a builder served
a lookup of the element of a name, and then stopped to. -/
def AbandonedBetween (start w : Workspace) (b : BuilderId)
    (name? : Option String) (row key : String) : Prop :=
  ∃ v v', start.LeadsTo v ∧ v.Turns v' ∧ v'.LeadsTo w ∧
    (∃ entry ∈ (v.body b).pattern.entries, entry.element.name? = name? ∧
      (row, key) ∈ entry.element.lookups ∧ (v.body b).Serves entry key) ∧
    (v.body b).Abandons name? key (v'.body b)

/-- What is known of a workspace another one leads to: all that is built is
tidy, and a lookup is served, or was served and then abandoned. -/
structure Traced (start w : Workspace) : Prop where
  reached : start.LeadsTo w
  tidy : ∀ b, (w.body b).Tidy
  served : ∀ b, ∀ entry ∈ (w.body b).pattern.entries, ∀ row key,
    (row, key) ∈ entry.element.lookups →
      (w.body b).Serves entry key ∨
      AbandonedBetween start w b entry.element.name? row key

variable {start w w' : Workspace} {b : BuilderId} {name? : Option String}
    {row key : String}

/-- What was abandoned stays so. -/
theorem AbandonedBetween.turn (h : AbandonedBetween start w b name? row key)
    (hturn : w.Turns w') :
    AbandonedBetween start w' b name? row key := by
  obtain ⟨v, v', hbefore, hstops, hafter, hserved⟩ := h
  exact ⟨v, v', hbefore, hstops, hafter.tail hturn, hserved⟩

/-- Values given to elements of a new builder are no lookups. -/
theorem not_mem_lookups_of_leadsTo {pattern : Pattern.Store}
    (h : Pattern.Store.LeadsTo (fun a => a.hasValue = true) {} pattern)
    {entry : Pattern.Entry} (hentry : entry ∈ pattern.entries)
    (lookup : String × String) :
    lookup ∉ entry.element.lookups := by
  intro hlookup
  obtain ⟨known, hknown, -⟩ := h.looksUp hentry hlookup
  cases hknown

/-- A new builder looks nothing up. -/
theorem tidy_of_leadsTo {pattern : Pattern.Store}
    {entry batchVariable : String}
    (h : Pattern.Store.LeadsTo (fun a => a.hasValue = true) {} pattern) :
    Structure.Tidy { pattern, entry, batchVariable } where
  indexed := h.indexed Pattern.Store.indexed_empty
  rows := by
    intro batch hbatch
    cases hbatch
  row := fun _ hentry _ _ hlookup =>
    (not_mem_lookups_of_leadsTo h hentry _ hlookup).elim

/-- Without builders there is nothing to trace. -/
theorem traced_refl (h : w.builders = #[]) : Traced w w := by
  have hbody : ∀ b, w.body b = { entry := "", batchVariable := "" } := by
    intro b
    rw [body, h]
    rfl
  refine ⟨.refl, fun b => ?_, fun b entry hentry => ?_⟩
  · rw [hbody]
    exact tidy_of_leadsTo .refl
  · rw [hbody] at hentry
    cases hentry

/-- **Whatever happens at once, a lookup is served, or was served and then
abandoned.** -/
theorem Traced.turn (h : Traced start w) (hturn : w.Turns w') :
    Traced start w' := by
  refine ⟨h.reached.tail hturn, fun b => ?_,
    fun b entry hentry row key hlookup => ?_⟩
  · rcases hturn.body_eq_or b with hsame | hedit |
        ⟨pattern, _, _, hlead, hbody⟩
    · rw [hsame]
      exact h.tidy b
    · exact hedit.tidy (h.tidy b)
    · rw [hbody]
      exact tidy_of_leadsTo hlead
  · rcases hturn.body_eq_or b with hsame | hedit |
        ⟨pattern, _, _, hlead, hbody⟩
    · rw [hsame] at hentry ⊢
      exact (h.served b entry hentry row key hlookup).imp_right fun hold =>
        hold.turn hturn
    · rcases hedit.lookups hentry hlookup with
          ⟨known, hknown, hname, hbefore⟩ | ⟨-, hserves⟩
      · rcases h.served b known hknown row key hbefore with hserves | hold
        · refine (hedit.serves_or_abandons (h.tidy b) hknown hbefore hserves
            hentry hname).imp_right ?_
          intro habandons
          exact ⟨w, w', h.reached, hturn, .refl,
            ⟨known, hknown, hname, hbefore, hserves⟩, habandons⟩
        · rw [← hname]
          exact .inr (hold.turn hturn)
      · exact .inl hserves
    · rw [hbody] at hentry
      exact (not_mem_lookups_of_leadsTo hlead hentry _ hlookup).elim

end Workspace

/-- **Whatever a script does, a lookup is served, or was served and then
abandoned**, also where its steps fail. -/
theorem Session.traced_after {s : Session} {script : List Step}
    (hs : s.workspace.builders = #[])
    (hwalks : ∀ call ∈ Step.callsOfAll script, ∀ step ∈ call.walkSteps,
      ∀ a ∈ step.properties, a.hasValue = true) :
    s.workspace.Traced (s.after script).workspace := by
  have hallowed : ∀ call ∈ Step.callsOfAll script,
      call.Allowed (fun _ _ => True) (fun a => a.hasValue = true) :=
    fun call hcall => ⟨fun _ _ _ => trivial, hwalks call hcall⟩
  have htouches : s.workspace.LeadsTo (s.after script).workspace :=
    touches_after (fun _ _ _ => trivial) hallowed
  exact htouches.keeps (fun _ _ hturn htraced => htraced.turn hturn)
    (Workspace.traced_refl hs)

end GraphQuery

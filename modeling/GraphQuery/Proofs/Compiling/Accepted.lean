import GraphQuery.Proofs.Compiling.Writable
import GraphQuery.Proofs.Parameters.Dictionary
import GraphQuery.Proofs.Scripts.Steps
import Mathlib.Algebra.Group.Int.Defs
import Mathlib.Algebra.Group.Nat.Defs

/-!
# What builders accept compiles

Nothing a script does to builders, as listed by `Workspace.Touch`, puts an
item into one that cannot be written, and where builders only come to refer
to builders made later, no builder contains itself (`Workspace.Orderly`).
So the nesting ends, and compiling a builder can only fail at copying it or
by a number of rows with too many digits: `Session.accepted_compiles`.  What
cannot be copied, and such a number, is not refused where it is given:
`Session.accepted_does_not_compile`.
-/

namespace GraphQuery

/-! ### What builders write can be written -/

/-- What may stand for a value can be written. -/
theorem Expression.writable_of_isValue {e : Expression}
    (h : e.isValue = true) : e.Writable := by
  cases e with
  | parameter p => exact ⟨_, rfl⟩
  | raw text => exact ⟨_, rfl⟩
  | _ => cases h

/-- An assignment of a value can be written. -/
theorem Assignment.writable_of_hasValue {a : Assignment}
    (h : a.hasValue = true) : a.Writable :=
  Expression.writable_of_isValue h

/-- A property given in either way can be written. -/
theorem PropertyArgument.writable_expression (entry : String)
    (argument : PropertyArgument) :
    (argument.expression entry).Writable := by
  cases argument with
  | written property => exact ⟨_, rfl⟩
  | raw text => exact ⟨_, rfl⟩

/-- What a call returns can be written. -/
theorem writable_writtenProjection (entry written : String) :
    (writtenProjection entry written).Writable := by
  unfold writtenProjection
  dsimp only
  split
  · exact ⟨_, rfl⟩
  · split
    · exact ⟨_, rfl⟩
    · exact ⟨_, rfl⟩

/-- What a call removes can be written. -/
theorem writable_writtenRemoval (entry written : String) :
    (writtenRemoval entry written).Writable := by
  unfold writtenRemoval
  split
  · exact ⟨_, rfl⟩
  · exact ⟨_, rfl⟩

/-- An assignment that can be written can be set. -/
theorem SetItem.writable_assign {a : Assignment} (h : a.Writable) :
    (SetItem.assign a).Writable := by
  obtain ⟨text, htext⟩ := h
  refine ⟨propertyText a.owner a.key ++ " = " ++ text, ?_⟩
  rw [SetItem.text, Assignment.text, htext]
  rfl

/-- A call of a function can be written under a name if its arguments can. -/
theorem Expression.writable_call {function name : String}
    {arguments : List Expression} (h : ∀ e ∈ arguments, e.Writable) :
    (Expression.aliased (.call function arguments) name).Writable := by
  have htexts : ∃ texts, Expression.texts arguments = .ok texts := by
    have hends : FailsOnlyBy (fun _ => False) (Expression.texts arguments) :=
      Pass.ends_texts h
    cases hresult : Expression.texts arguments with
    | error fault =>
      rw [hresult] at hends
      exact hends.elim
    | ok texts => exact ⟨texts, rfl⟩
  obtain ⟨texts, htexts⟩ := htexts
  refine ⟨function ++ "(" ++ ",".intercalate texts ++ ")" ++ " AS " ++
    Text.identifier name, ?_⟩
  rw [Expression.text, Expression.text, htexts]
  rfl

namespace Pattern

/-- **Declarations of writable properties keep a store writable.**  What a
node or a relationship is given comes behind what it has. -/
theorem keeps_writable :
    Keeps (Guarantee.keeping Store.Writable) fun properties =>
      ∀ a ∈ properties, a.Writable where
  none := by
    intro a ha
    cases ha
  declaration d s s' hproperties happly hs := by
    refine ⟨?_, trivial⟩
    intro entry hentry
    rcases (Declaration.makes_of_apply happly).mem_entries hentry with
        hold | hnew | hextended
    · exact hs entry hold
    · cases d with
      | node | relationship =>
        cases hnew
        exact hproperties
      | raw text intent =>
        cases hnew
        exact trivial
      | assign => cases hnew
    · obtain ⟨known, hknown, hextend⟩ := hextended
      have hbefore : known.element.Writable := hs known hknown
      rcases known with ⟨_ | _ | _ | _, _⟩ <;> cases d <;> cases hextend
      all_goals first
        | exact List.forall_mem_append.mpr ⟨hbefore, hproperties⟩
        | exact hbefore

/-- A pattern stays writable if all it is given is. -/
theorem Store.LeadsTo.writable {given : Assignment → Prop} {s t : Store}
    (h : s.LeadsTo given t) (hgiven : ∀ a, given a → a.Writable)
    (hs : s.Writable) : t.Writable := by
  induction h with
  | refl => exact hs
  | tail _ hstep ih =>
    obtain ⟨d, hproperties, happly⟩ := hstep
    exact (keeps_writable.declaration d _ _ (fun a ha =>
      hgiven a (hproperties a ha)) happly ih).1

end Pattern

namespace Workspace

/-- Builders hold what can be written, and refer only to builders made after
them. -/
structure Orderly (w : Workspace) : Prop where
  writable : ∀ (b : BuilderId) (found : Builder),
    w.builders[b]? = some found →
    found.body.Writable
  later : ∀ (b : BuilderId) (found : Builder), w.builders[b]? = some found →
    ∀ c ∈ found.body.nested, b < c ∧ c < w.builders.size

variable {w w' : Workspace} {b : BuilderId} {given : Assignment → Prop}

/-- Every builder of an orderly workspace is writable. -/
theorem Orderly.body_writable (hw : w.Orderly) (b : BuilderId) :
    (w.body b).Writable := by
  cases hb : w.builders[b]? with
  | some found =>
    rw [body_eq hb]
    exact hw.writable b found hb
  | none =>
    rw [body, hb]
    constructor
    · constructor <;> intro x hx <;> cases hx
    · exact trivial

/-- The builders nested in a builder of an orderly workspace were made after
it. -/
theorem Orderly.body_later (hw : w.Orderly) (b : BuilderId) :
    ∀ c ∈ (w.body b).nested, b < c ∧ c < w.builders.size := by
  cases hb : w.builders[b]? with
  | some found =>
    rw [body_eq hb]
    exact hw.later b found hb
  | none =>
    rw [body, hb]
    intro c hc
    cases hc

/-- A filter that a call adds can be written. -/
theorem NewFilter.writable {links : BuilderId → BuilderId → Prop}
    {entry : String} {filter : Filter BuilderId}
    (h : w.NewFilter links b entry filter) (hw : w.Orderly) :
    filter.Writable := by
  have hproperty : ∀ written, (writtenProperty entry written).Writable :=
    fun written => ⟨_, rfl⟩
  cases h with
  | compare hoperator hright =>
    exact ⟨hproperty _, ⟨_, Filter.comparison?_again hoperator⟩,
      Expression.writable_of_isValue hright⟩
  | compareProperties hoperator =>
    exact ⟨hproperty _, ⟨_, Filter.comparison?_again hoperator⟩, hproperty _⟩
  | isNull => exact hproperty _
  | raw => exact trivial
  | @group inner _ _ _ _ => exact (hw.body_writable inner).wheres
  | «exists» => exact trivial
  | count _ _ hoperator hvalue =>
    exact ⟨⟨_, Filter.comparison?_again hoperator⟩,
      Expression.writable_of_isValue hvalue⟩

/-- The builders a new filter is about were made later: those it names, and
those named by filters taken over from a later builder. -/
theorem NewFilter.later {entry : String} {filter : Filter BuilderId}
    (h : w.NewFilter (· < ·) b entry filter) (hw : w.Orderly) :
    ∀ c ∈ filter.nested, b < c ∧ c < w.builders.size := by
  intro c hc
  cases h with
  | compare | compareProperties | isNull | raw => cases hc
  | @group inner _ _ hlink _ =>
    have hnested : c ∈ (w.body inner).nested :=
      List.mem_append_left _ (List.mem_append_right _ hc)
    obtain ⟨hlater, hthere⟩ := hw.body_later inner c hnested
    exact ⟨Nat.lt_trans hlink hlater, hthere⟩
  | «exists» hlink hinner =>
    rw [List.mem_singleton.mp hc]
    exact ⟨hlink, hinner⟩
  | count hlink hinner =>
    rw [List.mem_singleton.mp hc]
    exact ⟨hlink, hinner⟩

variable {s t : Structure BuilderId}

/-- A change of a builder keeps it writable: the items that an edit appends
are, and so are those that were there. -/
theorem Alteration.writable (h : w.Alteration (· < ·) b s t) (hw : w.Orderly)
    (hs : s.Writable) :
    t.Writable := by
  have happend : ∀ {α : Type} {p : α → Prop} {old new : List α},
      (∀ x ∈ old, p x) →
      (∀ x ∈ new, p x) → ∀ x ∈ old ++ new, p x :=
    fun hold hnew => List.forall_mem_append.mpr ⟨hold, hnew⟩
  cases h with
  | patterned hlead =>
    exact { hs with
      pattern := hlead.writable
        (fun _ => Assignment.writable_of_hasValue) hs.pattern }
  | @lookedUp batch first rest written pattern _ _ _ happly =>
    let owner := (propertyReference s.entry written).1
    let key := (propertyReference s.entry written).2
    let lookup : Pattern.Declaration :=
      .assign owner [⟨owner, key, .column s.batchVariable written⟩] .toCreate
    have hcolumn : ∀ a ∈ lookup.properties, a.Writable := by
      intro a ha
      rw [List.mem_singleton.mp ha]
      exact ⟨_, rfl⟩
    have hpattern : pattern.Writable :=
      (Pattern.keeps_writable.declaration lookup _ _ hcolumn happly
        hs.pattern).1
    exact { hs with pattern := hpattern }
  | batched | unbatched | detach | distinct | page | call | unite =>
    exact { hs with }
  | setOnMatch hvalues =>
    refine { hs with
      onMatch := happend hs.onMatch (List.forall_mem_map.mpr fun a ha => ?_) }
    exact SetItem.writable_assign
      (Assignment.writable_of_hasValue (hvalues a ha))
  | setOnCreate hvalues =>
    refine { hs with
      onCreate := happend hs.onCreate
        (List.forall_mem_map.mpr fun a ha => ?_) }
    exact SetItem.writable_assign
      (Assignment.writable_of_hasValue (hvalues a ha))
  | set hvalue =>
    refine { hs with
      sets := happend hs.sets (List.forall_mem_singleton.mpr ?_) }
    exact SetItem.writable_assign (Assignment.writable_of_hasValue hvalue)
  | setLabels =>
    exact { hs with
      sets :=
        happend hs.sets (List.forall_mem_map.mpr fun label _ => ⟨_, rfl⟩) }
  | setLabel =>
    exact { hs with
      sets := happend hs.sets (List.forall_mem_singleton.mpr ⟨_, rfl⟩) }
  | setRaw =>
    exact { hs with
      sets := happend hs.sets
        (List.forall_mem_map.mpr fun text _ => ⟨_, rfl⟩) }
  | remove =>
    refine { hs with
      removes := happend hs.removes
        (List.forall_mem_map.mpr fun item _ => ?_) }
    exact writable_writtenRemoval s.entry item
  | removeLabel =>
    exact { hs with
      removes := happend hs.removes (List.forall_mem_singleton.mpr ⟨_, rfl⟩) }
  | delete =>
    exact { hs with
      deletes := happend hs.deletes
        (List.forall_mem_map.mpr fun name _ => ⟨_, rfl⟩) }
  | return_ =>
    refine { hs with
      returns := happend hs.returns
        (List.forall_mem_map.mpr fun item _ => ?_) }
    exact writable_writtenProjection s.entry item
  | returnAll =>
    exact { hs with
      returns := List.forall_mem_singleton.mpr ⟨_, rfl⟩ }
  | returnRaw =>
    exact { hs with
      returns := happend hs.returns
        (List.forall_mem_map.mpr fun text _ => ⟨_, rfl⟩) }
  | returnVariables =>
    exact { hs with
      returns := happend hs.returns
        (List.forall_mem_map.mpr fun name _ => ⟨_, rfl⟩) }
  | returnCall =>
    refine { hs with
      returns := happend hs.returns (List.forall_mem_singleton.mpr ?_) }
    exact Expression.writable_call (List.forall_mem_map.mpr fun argument _ =>
      argument.writable_expression s.entry)
  | order =>
    refine { hs with
      orderBy := happend hs.orderBy
        (List.forall_mem_map.mpr fun argument _ => ?_) }
    exact argument.writable_expression s.entry
  | filter hfilter =>
    exact { hs with
      wheres := Filter.allWritable_append hs.wheres
        ⟨hfilter.writable hw, trivial⟩ }

/-- A change of a builder nests only builders that were made after it. -/
theorem Alteration.later (h : w.Alteration (· < ·) b s t) (hw : w.Orderly)
    (hs : ∀ c ∈ s.nested, b < c ∧ c < w.builders.size) :
    ∀ c ∈ t.nested, b < c ∧ c < w.builders.size := by
  rw [Structure.nested, List.forall_mem_append, List.forall_mem_append] at hs
  obtain ⟨⟨hcalled, hfiltered⟩, hunited⟩ := hs
  rw [Structure.nested, List.forall_mem_append, List.forall_mem_append]
  cases h with
  | filter hfilter =>
    refine ⟨⟨hcalled, ?_⟩, hunited⟩
    dsimp only
    rw [Filter.nestedInAll_append, List.forall_mem_append]
    refine ⟨hfiltered, ?_⟩
    intro c hc
    rw [Filter.nestedInAll, Filter.nestedInAll, List.append_nil] at hc
    exact hfilter.later hw c hc
  | call hlink hinner =>
    refine ⟨⟨?_, hfiltered⟩, hunited⟩
    exact List.forall_mem_append.mpr ⟨hcalled,
      List.forall_mem_singleton.mpr ⟨hlink, hinner⟩⟩
  | unite hlink hsecond =>
    exact ⟨⟨hcalled, hfiltered⟩,
      List.forall_mem_singleton.mpr ⟨hlink, hsecond⟩⟩
  | _ => exact ⟨⟨hcalled, hfiltered⟩, hunited⟩

/-- A builder that has just been made is writable. -/
theorem Starts.writable {builder : Builder} (h : Starts given builder)
    (hgiven : ∀ a, given a → a.Writable) : builder.body.Writable := by
  obtain ⟨pattern, entry, batchVariable, hlead, hbody⟩ := h
  have hempty : Pattern.Store.Writable {} := by
    intro entry hentry
    cases hentry
  have hpattern : pattern.Writable := hlead.writable hgiven hempty
  rw [hbody]
  constructor
  · constructor
    · exact hpattern
    all_goals
      intro x hx
      cases hx
  · exact trivial

/-- **Nothing that happens to a workspace puts it out of order.** -/
theorem Orderly.touch (hgiven : ∀ a, given a → a.Writable)
    (h : w.Touch (· < ·) given w') (hw : w.Orderly) : w'.Orderly := by
  constructor
  · intro b found hfound
    rcases h.body_cases hfound with ⟨old, hold, hsame | hedit⟩ | hstarts
    · rw [hsame]
      exact hw.writable b old hold
    · exact hedit.writable hw (hw.writable b old hold)
    · exact hstarts.writable hgiven
  · intro b found hfound c hc
    have hsize := h.size_le
    rcases h.body_cases hfound with ⟨old, hold, hsame | hedit⟩ | hstarts
    · rw [hsame] at hc
      obtain ⟨hlater, hthere⟩ := hw.later b old hold c hc
      exact ⟨hlater, Nat.lt_of_lt_of_le hthere hsize⟩
    · obtain ⟨hlater, hthere⟩ := hedit.later hw (hw.later b old hold) c hc
      exact ⟨hlater, Nat.lt_of_lt_of_le hthere hsize⟩
    · obtain ⟨pattern, entry, batchVariable, -, hbody⟩ := hstarts
      rw [hbody] at hc
      cases hc

end Workspace

namespace Workspace

variable {w w' : Workspace} {b : BuilderId} {given : Assignment → Prop}

/-! ### Compiling builders in order -/

/-- The builders held by a builder are nested in it. -/
theorem nests_of_mem_nested {c : BuilderId} (h : c ∈ (w.body b).nested) :
    w.Nests b c := by
  rw [Structure.nested, List.mem_append, List.mem_append] at h
  rcases h with (hcalled | hfiltered) | hunited
  · exact .called hcalled
  · exact .filtered hfiltered
  · exact .united (Option.mem_toList.mp hunited)

/-- The one way compiling a builder can fail: it, or a builder nested in it,
has a number of rows with too many digits. -/
def TooLong (w : Workspace) (b : BuilderId) (fault : Fault) : Prop :=
  fault = .tooManyDigits Pass.maxDigits ∧ ∃ c, w.Within b c ∧
  (w.body c).Overlong

/-- What is too long in a nested builder is too long in the one around it. -/
theorem TooLong.of_nested {c : BuilderId} {fault : Fault}
    (hc : c ∈ (w.body b).nested) (h : w.TooLong c fault) :
    w.TooLong b fault := by
  obtain ⟨hfault, d, hwithin, hlong⟩ := h
  exact ⟨hfault, d, .head (nests_of_mem_nested hc) hwithin, hlong⟩

/-- The builders a builder is nested in were made before it, so there is no
way back to one of them, and there are enough numbers left for those nested
in it.  The builders made behind `b` are at most as many as the levels of
depth that are left, so the depth is never used up. -/
theorem Orderly.ends_nested (hw : w.Orderly) (depth : Nat)
    (outer : List (BuilderId × Composition)) (b : BuilderId)
    (composition : Composition) (houter : ∀ o ∈ outer, o.1 < b)
    (hb : b < w.builders.size) (hdepth : w.builders.size ≤ b + depth) :
    FailsOnlyBy (w.TooLong b) (w.nested depth outer b composition) := by
  induction depth generalizing outer b composition with
  | zero => exact absurd hb (Nat.not_lt_of_le hdepth)
  | succ depth ih =>
    have hnew : outer.contains (b, composition) = false := by
      rw [Bool.eq_false_iff]
      intro hcontains
      have hlt := houter (b, composition) (List.contains_iff_mem.mp hcontains)
      exact Nat.lt_irrefl b hlt
    rw [nested, hnew, if_neg (by decide)]
    apply composition.ends_clauses ((hw.body_writable b).map _)
    · intro made hmade inside
      rw [Structure.nested_map] at hmade
      obtain ⟨c, hc, rfl⟩ := List.mem_map.mp hmade
      obtain ⟨hlater, hthere⟩ := hw.body_later b c hc
      have hbefore : ∀ o ∈ (b, composition) :: outer, o.1 < c := by
        intro o ho
        rcases List.mem_cons.mp ho with rfl | hrest
        · exact hlater
        · exact Nat.lt_trans (houter o hrest) hlater
      have hroom : w.builders.size ≤ c + depth := calc
        w.builders.size ≤ b + (depth + 1) := hdepth
        _ = b + 1 + depth := (Nat.succ_add_eq_add_succ b depth).symm
        _ ≤ c + depth := Nat.add_le_add_right hlater depth
      have hends :=
        ih ((b, composition) :: outer) c inside hbefore hthere hroom
      exact hends.mono (fun _ _ => trivial) fun fault hfault =>
        hfault.of_nested hc
    · intro hlong
      exact ⟨rfl, b, .refl, hlong⟩

/-- Builders in order are composed, but for numbers of rows with too many
digits. -/
theorem Orderly.ends_composed (hw : w.Orderly) (b : BuilderId)
    (kind : QueryKind) :
    FailsOnlyBy (w.TooLong b) (w.composed b kind) := by
  apply kind.composition.ends_clauses ((hw.body_writable b).map _)
  · intro made hmade inside
    rw [Structure.nested_map] at hmade
    obtain ⟨c, hc, rfl⟩ := List.mem_map.mp hmade
    obtain ⟨-, hthere⟩ := hw.body_later b c hc
    have hends := hw.ends_nested (3 * w.builders.size) [] c inside
      (by intro o ho; cases ho) hthere (by omega)
    exact hends.mono (fun _ _ => trivial) fun fault hfault =>
      hfault.of_nested hc
  · intro hlong
    exact ⟨rfl, b, .refl, hlong⟩

/-- **Builders in order compile**, but for what cannot be copied and for
numbers of rows with too many digits. -/
theorem Orderly.ends_clauses (hw : w.Orderly) (b : BuilderId)
    (kind : QueryKind) :
    FailsOnlyBy (fun fault => w.Uncopied b fault ∨ w.TooLong b fault)
      (w.clauses b kind) := by
  refine Ends.bind ((ends_copying w b).mono (fun _ _ => trivial) ?_)
    fun _ _ => ?_
  · exact fun fault huncopied => .inl huncopied
  · exact (hw.ends_composed b kind).mono (fun _ _ => trivial) fun _ => .inr

end Workspace

namespace Session

end Session

end GraphQuery

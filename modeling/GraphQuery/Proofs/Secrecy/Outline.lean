import GraphQuery.Builder.Session
import GraphQuery.Proofs.Secrecy.Registering

/-!
# The outline of a script

Two scripts have one outline if they differ in bound values alone.  An
outline keeps which values are fragments of query text and their text, which
values of a filter mapping are null, the keys and the nesting of the
mappings, whether there are rows in a batch and the keys of the first one,
and every argument that is no bound value.
-/

namespace GraphQuery

namespace Value

/-- What is kept of a value in a filter mapping: a fragment of query text,
and whether it is null. -/
def outline : Value → Value
  | null => .null
  | raw fragment => .raw fragment
  | _ => .bool true

/-- The fragment of query text that a value is, if it is one. -/
def fragment? : Value → Option String
  | raw fragment => some fragment
  | _ => none

/-- A query shows of values which of them are fragments of query text, and
their text. -/
theorem blank_eq_iff {v w : Value} :
    v.blank = w.blank ↔ v.fragment? = w.fragment? := by
  cases v <;> cases w <;> simp [blank, fragment?]

/-- A filter mapping also shows which values are null. -/
theorem outline_eq_iff {v w : Value} :
    v.outline = w.outline ↔ v.isNull = w.isNull ∧
    v.fragment? = w.fragment? := by
  cases v <;> cases w <;> simp [outline, isNull, fragment?]

/-- An outline differs from the value in values alone. -/
theorem blank_outline (v : Value) : v.outline.blank = v.blank := by
  cases v <;> rfl

/-- It is null if the value is. -/
theorem isNull_outline (v : Value) : v.outline.isNull = v.isNull := by
  cases v <;> rfl

/-- A blanked value is blanked for good. -/
theorem blank_blank (v : Value) : v.blank.blank = v.blank := by
  cases v <;> rfl

mutual

/-- The outline of a filter mapping. -/
def outlineFilters : List (String × Value) → List (String × Value)
  | [] => []
  | (key, value) :: rest =>
    (key, if (groupChain? key).isSome then outlineGroups
      value else value.outline) ::
      outlineFilters rest

/-- The outline of the groups under a key of a filter mapping. -/
def outlineGroups : Value → Value
  | list groups =>
    if groups.all isMap then .list (outlineEach groups) else .list [.null]
  | text s => .text (if s.isEmpty then "" else " ")
  | map _ => .map []
  | _ => .null

/-- The outlines of groups, one by one. -/
def outlineEach : List Value → List Value
  | [] => []
  | group :: rest => outlineGroup group :: outlineEach rest

/-- The outline of a group. -/
def outlineGroup : Value → Value
  | map entries => .map (outlineFilters entries)
  | _ => .null

end

/-- Groups that are all mappings have outlines that are. -/
theorem all_isMap_outlineEach {groups : List Value}
    (h : groups.all isMap = true) :
    (outlineEach groups).all isMap = true := by
  induction groups with
  | nil => rfl
  | cons group rest ih =>
    rw [List.all_cons, Bool.and_eq_true] at h
    obtain ⟨hgroup, hrest⟩ := h
    rw [outlineEach, List.all_cons, ih hrest, Bool.and_true]
    cases group <;> first | rfl | cases hgroup

/-- The outline of a list of values to compare with. -/
def outlineItems (values : Value) :
    Value := if values.items?.isSome then .list [] else .null

end Value

/-- The keys of values, with what a query shows of the values. -/
def blankValues (values : List (String × Value)) : List (String × Value) :=
  values.map fun entry => (entry.1, entry.2.blank)

/-- The outline of the rows of a batch: the keys of the first one. -/
def outlineRows (rows : List (List (String × Value))) :
    List (List (String × Value)) :=
  (rows.take 1).map fun row => row.map fun entry => (entry.1, .null)

/-- Batches have one outline if both are empty or their first rows have the
same keys. -/
theorem outlineRows_eq_iff {rows rows' : List (List (String × Value))} :
    outlineRows rows = outlineRows rows' ↔
      rows.head?.map (List.map Prod.fst) =
        rows'.head?.map (List.map Prod.fst) := by
  have hrow : ∀ row row' : List (String × Value),
      (row.map fun entry => (entry.1, Value.null)) =
        row'.map (fun entry => (entry.1, Value.null)) ↔
        row.map Prod.fst = row'.map Prod.fst := by
    intro row row'
    constructor
    · intro h
      have hkeys := congrArg (List.map Prod.fst) h
      rw [List.map_map, List.map_map] at hkeys
      exact hkeys
    · intro h
      have hentries := congrArg (List.map fun key => (key, Value.null)) h
      rw [List.map_map, List.map_map] at hentries
      exact hentries
  cases rows <;> cases rows' <;> simp [outlineRows, hrow]

/-- The outline of a call that changes a query. -/
def Change.outline : Change → Change
  | writeNode writing given name values =>
    .writeNode writing given name (blankValues values)
  | writeRelationship writing left given right name values direction =>
    .writeRelationship writing left given right name (blankValues values)
      direction
  | write writing values => .write writing (blankValues values)
  | writeBatch rows => .writeBatch (outlineRows rows)
  | setOnMatch values => .setOnMatch (blankValues values)
  | setOnCreate values => .setOnCreate (blankValues values)
  | set property value => .set property value.blank
  | setMany values => .setMany (blankValues values)
  | compare property operator value chain =>
    .compare property operator value.blank chain
  | compareIn property values chain =>
    .compareIn property values.outlineItems chain
  | filters entries chain => .filters (Value.outlineFilters entries) chain
  | change => change

/-- The outline of a call that runs a query. -/
def Run.outline : Run → Run
  | set values => .set (blankValues values)
  | create values => .create (blankValues values)
  | batchCreate rows => .batchCreate (outlineRows rows)
  | merge values => .merge (blankValues values)
  | percentile function property fraction =>
    .percentile function property fraction.blank
  | run => run

/-- Parameters by name, without their values. -/
def blankParameters (parameters : List (String × Value)) :
    List (String × Value) :=
  parameters.map fun entry => (entry.1, .null)

/-- The outline of a call of the connections. -/
def ConnectionCall.outline : ConnectionCall → ConnectionCall
  | run query parameters connection =>
    .run query (blankParameters parameters) connection
  | call => call

mutual

/-- The outline of a call. -/
def Call.outline : Call → Call
  | .startFromWalk steps => .startFromWalk (steps.map Pattern.WalkStep.blank)
  | .change c => .change c.outline
  | .whereExists body negate chain => .whereExists body.outline negate chain
  | .whereCount body count operator chain =>
    .whereCount body.outline count.blank operator chain
  | .whereGroup body negate chain => .whereGroup body.outline negate chain
  | .calling body => .calling body.outline
  | .unioning how body => .unioning how body.outline
  | .run r => .run r.outline
  | .connection c => .connection c.outline
  | call => call

/-- The outline of a callback. -/
def Callback.outline : Callback → Callback
  | .mk steps register => .mk (Step.outlineAll steps) register

/-- The outline of a step. -/
def Step.outline : Step → Step
  | .mk method call on into => .mk method call.outline on into

/-- The outlines of steps. -/
def Step.outlineAll : List Step → List Step
  | [] => []
  | step :: rest => step.outline :: Step.outlineAll rest

end

/-- Whether a call reads is told by its outline. -/
theorem Call.reads_outline (call : Call) :
    call.outline.reads = call.reads := by
  cases call with
  | change c => cases c <;> rfl
  | _ => rfl

/-- The register of a step is told by its outline. -/
theorem Step.register_outline (step : Step) :
    step.outline.register = step.register := by
  cases step
  rfl

end GraphQuery

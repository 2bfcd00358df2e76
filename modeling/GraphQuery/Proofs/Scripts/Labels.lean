import GraphQuery.Proofs.Condition.Calls
import GraphQuery.Proofs.Patterns.Spellings
import GraphQuery.Proofs.Quoting.Texts

/-!
# Labels that are set and removed

The items that are set and removed may name labels of an element.  They are
recorded by four calls, which read the labels off texts in different ways.
The call that removes labels of an element records nothing if it is given
none; the other ones record what they have read in any case, so that an item
may be left with no labels at all, or with an empty one.
`labelItems_telling_iff` says of every program when this happens.

* `Telling`: there are labels, and none of them is blank;
* `Change.labelLists`: the labels a call records, item by item;
* `Change.Mute`: the call is given a text that names no label, or no label
  at all.
-/

namespace GraphQuery

open GraphQuery.Computation Pattern Text

/-! ## Items that name labels -/

/-- There are labels, each with something in it and without blanks at its
ends. -/
def Telling (labels : List String) : Prop := labels ≠ [] ∧
    ∀ label ∈ labels, Proper label

/-- A text is the name of an element with labels behind it: at least one,
and none of them blank. -/
def WritesLabels (text : Except Fault String) : Prop :=
  ∃ owner first rest, (∀ label ∈ first :: rest, Proper label) ∧
    text =
      .ok (identifier owner ++ (":" ++ identifier first ++ labelsText rest))

/-- The labels an item to set names, if it names labels, and its text. -/
def SetItem.labelled? (item : SetItem) :
    Option (List String × Except Fault String) :=
  match item with
  | labels _ names => some (names, item.text)
  | _ => none

/-- The labels an item to remove names, if it names labels, and its text. -/
def RemoveItem.labelled? (item : RemoveItem) :
    Option (List String × Except Fault String) :=
  match item with
  | labels _ names => some (names, item.text)
  | _ => none

/-- The labels and the texts of all items that name labels. -/
def labelItems (sets : List SetItem) (removes : List RemoveItem) :
    List (List String × Except Fault String) :=
  sets.filterMap SetItem.labelled? ++ removes.filterMap RemoveItem.labelled?

/-- One label tells something if it is proper. -/
theorem telling_singleton {label : String} :
    Telling [label] ↔ Proper label := by
  constructor
  · intro h
    exact h.2 label List.mem_cons_self
  · intro h
    exact ⟨List.cons_ne_nil _ _, List.forall_mem_singleton.mpr h⟩

/-- Proper labels tell something if there are some. -/
theorem telling_iff_of_proper {labels : List String}
    (h : ∀ label ∈ labels, Proper label) :
    Telling labels ↔ labels ≠ [] := and_iff_left h

/-- Labels are written one behind the other. -/
theorem labelsText_cons (first : String) (rest : List String) :
    labelsText (first :: rest) = ":" ++ identifier first ++
      labelsText rest := by
  rw [labelsText, List.map_cons, String.join_cons]
  rfl

/-- Whether there are labels, and none is blank, shows in the text of an
item. -/
theorem writesLabels_iff (owner : String) (names : List String) :
    WritesLabels (.ok (identifier owner ++ labelsText names)) ↔
    Telling names := by
  constructor
  · intro h
    obtain ⟨other, first, rest, hproper, htext⟩ := h
    rw [← labelsText_cons] at htext
    obtain ⟨-, rfl⟩ := labels_injective (Except.ok.inj htext)
    exact ⟨List.cons_ne_nil _ _, hproper⟩
  · intro h
    obtain ⟨first, rest, rfl⟩ := List.exists_cons_of_ne_nil h.1
    exact ⟨owner, first, rest, h.2, by rw [labelsText_cons]⟩

/-- An item writes labels exactly if it tells some. -/
theorem writesLabels_of_mem {sets : List SetItem} {removes : List RemoveItem}
    {item : List String × Except Fault String}
    (h : item ∈ labelItems sets removes) :
    WritesLabels item.2 ↔ Telling item.1 := by
  rcases List.mem_append.mp h with hset | hremove
  · obtain ⟨set, -, hlabelled⟩ := List.mem_filterMap.mp hset
    cases set with
    | labels owner names =>
      cases hlabelled
      exact writesLabels_iff owner names
    | assign | raw | misplaced => cases hlabelled
  · obtain ⟨remove, -, hlabelled⟩ := List.mem_filterMap.mp hremove
    cases remove with
    | labels owner names =>
      cases hlabelled
      exact writesLabels_iff owner names
    | property | misplaced => cases hlabelled

/-- An item is one of those before or of those added. -/
theorem mem_labelItems_append {sets more : List SetItem}
    {removes others : List RemoveItem}
    {item : List String × Except Fault String} :
    item ∈ labelItems (sets ++ more) (removes ++ others) ↔
      item ∈ labelItems sets removes ∨ item ∈ labelItems more others := by
  simp only [labelItems, List.filterMap_append, List.mem_append]
  tauto

/-! ## Labels read off texts -/

/-- The labels that are written in a text: those behind its first colon, or
the text. -/
theorem writtenLabels_snd (entry written : String) :
    (writtenLabels entry written).2 = match embedded written with
      | some (_, labels) => labels
      | none => [trimmed written] := by
  unfold writtenLabels embedded
  cases cutAtFirst ':' written.toList <;> rfl

/-- A text with a colon is not blank. -/
theorem not_blank_of_colon {text : String} (h : ':' ∈ text.toList) :
    ¬isBlankText text = true := by
  intro hblank
  have hcolon := List.all_eq_true.mp hblank ':' h
  cases hcolon

/-- **A text names labels**, none of them blank, unless it is blank or says
no label; if it is blank, the label is empty, and otherwise there is none. -/
theorem writtenLabels_cases (entry written : String) :
    (':' ∉ written.toList ∧ isBlankText written = true ∧
      (writtenLabels entry written).2 = [""]) ∨
      (SaysNoLabel written ∧ (writtenLabels entry written).2 = []) ∨
      (isBlankText written = false ∧ ¬SaysNoLabel written ∧
        Telling (writtenLabels entry written).2) := by
  rw [writtenLabels_snd]
  cases hembedded : embedded written with
  | none =>
    have hcolon := noColon_of_embedded hembedded
    by_cases hblank : isBlankText written = true
    · refine .inl ⟨hcolon, hblank, ?_⟩
      rw [trimmed, trim_eq_nil_iff.mpr (List.all_eq_true.mp hblank)]
    · refine .inr (.inr ⟨by simpa using hblank,
        not_saysNoLabel_of_noColon hcolon, ?_⟩)
      refine telling_singleton.mpr (Proper.of_trim fun hnil => hblank ?_)
      exact List.all_eq_true.mpr (trim_eq_nil_iff.mp hnil)
  | some found =>
    obtain ⟨name, labels⟩ := found
    by_cases hnone : SaysNoLabel written
    · exact .inr (.inl ⟨hnone, (labels_of_embedded hembedded).mpr hnone⟩)
    · have hcolon := colon_of_embedded hembedded
      refine .inr (.inr ⟨by simpa using not_blank_of_colon hcolon, hnone, ?_⟩)
      refine ⟨fun hnil => hnone ((labels_of_embedded hembedded).mp hnil),
        fun label hlabel => ?_⟩
      exact ((plain_of_embedded hembedded).2 label hlabel).toProper

/-! ## Labels recorded by calls -/

namespace Change

/-- The calls that record items to set or to remove. -/
def setsOrRemoves : Change → Bool
  | set _ _ | setMany _ | setLabels _ | setLabel _ _ | setRaw _ | remove
      _ | removeLabel _ _ => true
  | _ => false

/-- The labels of each item of labels that a call records. -/
def labelLists (entry : String) : Change → List (List String)
  | setLabels texts => texts.map fun text => (writtenLabels entry text).2
  | setLabel _ given => [given.labels]
  | remove items =>
    (items.filter fun item => item.toList.contains ':').map fun item =>
      (writtenLabels entry item).2
  | removeLabel _ labels =>
    if (LabelArgument.many labels).labels.isEmpty then []
    else [(LabelArgument.many labels).labels]
  | _ => []

/-- A call is given a text to read labels off in which there are none, or no
labels for an element. -/
def Mute : Change → Prop
  | setLabels texts => ∃ text ∈ texts, isBlankText text = true ∨
      SaysNoLabel text
  | setLabel _ given => ∀ token ∈ given.tokens, isBlankText token = true
  | remove items => ∃ item ∈ items, SaysNoLabel item
  | _ => False

end Change

/-- No labels are given exactly if all tokens are blank. -/
theorem labels_eq_nil_iff {given : LabelArgument} :
    given.labels = [] ↔ ∀ token ∈ given.tokens, isBlankText token = true := by
  rw [LabelArgument.labels, List.map_eq_nil_iff, List.filter_eq_nil_iff]
  simp

namespace Change

/-- Labels that are read are telling, or there is none, or a single one that
is empty. -/
theorem telling_or_of_mem {change : Change} {entry : String}
    {names : List String}
    (h : names ∈ change.labelLists entry) : Telling names ∨ names = [] ∨
    names = [""] := by
  have hwritten : ∀ text, names = (writtenLabels entry text).2 →
      Telling names ∨ names = [] ∨ names = [""] := by
    intro text heq
    subst heq
    rcases writtenLabels_cases entry text with ⟨-, -, hempty⟩ | ⟨-, hnil⟩ |
        ⟨-, -, htelling⟩
    · exact .inr (.inr hempty)
    · exact .inr (.inl hnil)
    · exact .inl htelling
  have hgiven : ∀ given : LabelArgument, names = given.labels →
      Telling names ∨ names = [] ∨ names = [""] := by
    intro given heq
    by_cases hnil : names = []
    · exact .inr (.inl hnil)
    · exact .inl ⟨hnil, fun label hlabel =>
        proper_of_mem_labels (heq ▸ hlabel)⟩
  cases change with
  | setLabels texts =>
    obtain ⟨text, -, htext⟩ := List.mem_map.mp h
    exact hwritten text htext.symm
  | setLabel name given => exact hgiven given (List.mem_singleton.mp h)
  | remove items =>
    obtain ⟨item, -, hitem⟩ := List.mem_map.mp h
    exact hwritten item hitem.symm
  | removeLabel name labels =>
    rw [labelLists] at h
    split at h
    · cases h
    · exact hgiven _ (List.mem_singleton.mp h)
  | _ => cases h

/-- **A call records labels that are all telling, unless it is mute.** -/
theorem telling_iff_not_mute (change : Change) (entry : String) :
    (∀ names ∈ change.labelLists entry, Telling names) ↔ ¬change.Mute := by
  have hproper : ∀ given : LabelArgument, Telling given.labels ↔
      given.labels ≠ [] := fun given =>
    telling_iff_of_proper fun label hlabel => proper_of_mem_labels hlabel
  cases change with
  | setLabels texts =>
    rw [labelLists, List.forall_mem_map, Mute, not_exists]
    refine forall_congr' fun text => ?_
    rw [not_and]
    refine imp_congr_right fun _ => ?_
    rcases writtenLabels_cases entry text with
      ⟨-, hblank, hempty⟩ | ⟨hnone, hnil⟩ | ⟨hblank, hsome, htelling⟩
    · rw [hempty]
      refine iff_of_false (fun htelling => ?_) fun hmute =>
        hmute (.inl hblank)
      exact (telling_singleton.mp htelling).ne_nil rfl
    · rw [hnil]
      exact iff_of_false (fun htelling => htelling.1 rfl) fun hmute =>
        hmute (.inr hnone)
    · refine iff_of_true htelling ?_
      rw [hblank]
      simpa using hsome
  | setLabel name given =>
    rw [labelLists, List.forall_mem_singleton, hproper, Mute,
      ← labels_eq_nil_iff]
  | remove items =>
    rw [labelLists, List.forall_mem_map, Mute, not_exists]
    refine forall_congr' fun item => ?_
    rw [not_and, List.mem_filter, and_imp]
    refine imp_congr_right fun _ => ?_
    rw [List.contains_iff_mem]
    rcases writtenLabels_cases entry item with ⟨hcolon, -, -⟩ |
        ⟨hnone, hnil⟩ | ⟨-, hsome, htelling⟩
    · exact iff_of_true (fun hmem => absurd hmem hcolon)
        (not_saysNoLabel_of_noColon hcolon)
    · rw [hnil]
      refine iff_of_false (fun htelling => ?_) fun hmute => hmute hnone
      by_cases hcolon : ':' ∈ item.toList
      · exact (htelling hcolon).1 rfl
      · exact not_saysNoLabel_of_noColon hcolon hnone
    · exact iff_of_true (fun _ => htelling) hsome
  | removeLabel name labels =>
    refine iff_of_true (fun names hnames => ?_) not_false
    rw [labelLists] at hnames
    split at hnames
    · cases hnames
    · next hsome =>
      rw [List.mem_singleton.mp hnames, hproper]
      simpa using hsome
  | _ => exact iff_of_true (fun names hnames => by cases hnames) not_false

end Change

/-- The items with a colon are the ones that name labels. -/
theorem labelled_removals (entry : String) (items : List String) :
    ((items.map (writtenRemoval entry)).filterMap RemoveItem.labelled?).map
      Prod.fst =
      (items.filter fun item => item.toList.contains ':').map fun item =>
        (writtenLabels entry item).2 := by
  induction items with
  | nil => rfl
  | cons item rest ih =>
    rw [List.map_cons, List.filterMap_cons, List.filter_cons, writtenRemoval]
    by_cases hcolon : item.toList.contains ':' = true
    · rw [if_pos hcolon, if_pos hcolon, List.map_cons, ← ih]
      rfl
    · rw [if_neg hcolon, if_neg hcolon, ← ih]
      rfl

/-! ## Programs -/

/-- A builder with more items to set and to remove. -/
def Builder.recording (found : Builder) (sets : List SetItem)
    (removes : List RemoveItem) : Builder :=
  { found with body := { found.body with
      sets := found.body.sets ++ sets, removes :=
        found.body.removes ++ removes } }

namespace Builder

/-- Recording nothing leaves a builder as it is. -/
theorem recording_nil (found : Builder) : found.recording [] [] = found := by
  rw [recording, List.append_nil, List.append_nil]

/-- Items can be recorded in two goes. -/
theorem recording_recording (found : Builder) (sets more : List SetItem)
    (removes others : List RemoveItem) :
    (found.recording sets removes).recording more others =
      found.recording (sets ++ more) (removes ++ others) := by
  simp only [recording, List.append_assoc]

end Builder

namespace Building

variable {b : BuilderId} {w : Workspace} {found : Builder}

/-- A step succeeds and does nothing to a builder but record items; `lists`
gives the labels of those that name labels, for any entry of the builder. -/
def Records (b : BuilderId) (step : Building Unit)
    (lists : String → List (List String)) : Prop :=
  ∀ (w : Workspace) (found : Builder), w.builders[b]? = some found →
    ∃ w' sets removes, exec step w = (.ok (), w') ∧
      w'.builders[b]? = some (found.recording sets removes) ∧
      ∀ names, names ∈ (labelItems sets removes).map Prod.fst ↔
      names ∈ lists found.body.entry

/-- What a step records is told for each entry. -/
theorem Records.congr {step : Building Unit}
    {lists more : String → List (List String)} (h : Records b step lists)
    (hsame : ∀ entry, lists entry = more entry) : Records b step more := by
  obtain rfl : lists = more := funext hsame
  exact h

/-- Doing nothing records nothing. -/
theorem records_pure : Records b (pure ()) fun _ => [] := by
  intro w found hb
  refine ⟨w, [], [], rfl, ?_, fun names => Iff.rfl⟩
  rw [Builder.recording_nil]
  exact hb

/-- Two steps record what both of them do, in order. -/
theorem Records.bind {first second : Building Unit}
    {lists more : String → List (List String)}
    (hfirst : Records b first lists) (hsecond : Records b second more) :
    Records b (first >>= fun _ => second) fun entry =>
      lists entry ++ more entry := by
  intro w found hb
  obtain ⟨u, sets, removes, hexec, hu, hlists⟩ := hfirst w found hb
  obtain ⟨w', moreSets, moreRemoves, hexec', hw', hmore⟩ := hsecond u _ hu
  refine ⟨w', sets ++ moreSets, removes ++ moreRemoves, ?_, ?_,
    fun names => ?_⟩
  · rw [exec_bind, hexec]
    exact hexec'
  · rw [hw', Builder.recording_recording]
  · have hsecond : names ∈ (labelItems moreSets moreRemoves).map Prod.fst ↔
        names ∈ more found.body.entry := hmore names
    rw [List.mem_append, ← hlists, ← hsecond]
    simp only [List.mem_map, mem_labelItems_append, or_and_right, exists_or]

/-- A loop records what its rounds record. -/
theorem records_forM {α : Type} {f : α → Building Unit}
    {lists : α → String → List (List String)} {l : List α}
    (h : ∀ a ∈ l, Records b (f a) (lists a)) :
    Records b (l.forM f) fun entry => l.flatMap fun a => lists a entry := by
  induction l with
  | nil => exact records_pure
  | cons a rest ih =>
    obtain ⟨ha, hrest⟩ := List.forall_mem_cons.mp h
    exact ha.bind (ih hrest)

/-- A step that looks up the entry records what it does for that. -/
theorem records_entry {f : String → Building Unit}
    {lists : String → List (List String)}
    (h : ∀ entry, Records b (f entry) fun _ => lists entry) :
    Records b (entry b >>= f) lists := by
  intro w found hb
  rw [exec_entry_bind hb]
  exact h found.body.entry w found hb

/-- Items that are set are recorded with their labels. -/
theorem records_addSets (items : List SetItem) :
    Records b (addSets b items) fun _ =>
      (items.filterMap SetItem.labelled?).map Prod.fst := by
  intro w found hb
  refine ⟨_, items, [], rfl, ?_, fun names => ?_⟩
  · refine (Workspace.amended_self hb _).trans ?_
    rw [Builder.recording, List.append_nil]
  · rw [labelItems, List.filterMap_nil, List.append_nil]

/-- Items that are removed are recorded with their labels. -/
theorem records_addRemoves (items : String → List RemoveItem) :
    Records b (edit b fun body =>
      { body with removes := body.removes ++ items body.entry })
      fun entry =>
        ((items entry).filterMap RemoveItem.labelled?).map Prod.fst := by
  intro w found hb
  refine ⟨_, [], items found.body.entry, rfl, ?_, fun names => ?_⟩
  · refine (Workspace.amended_self hb _).trans ?_
    rw [Builder.recording, List.append_nil]
  · rw [labelItems, List.filterMap_nil, List.nil_append]

/-- Setting a property binds its value and records an item that names no
labels. -/
theorem records_set (property : String) (value : Value) :
    Records b (set b property value) fun _ => [] := by
  refine records_entry fun entry w found hb => ?_
  have hbound : (w.bound found.stack value).builders[b]? = some found := hb
  let assignment : Assignment := ⟨(propertyReference entry property).1,
    (propertyReference entry property).2, w.reference found.stack value⟩
  obtain ⟨w', sets, removes, hexec, hw', hlists⟩ :=
    records_addSets [.assign assignment] _ found hbound
  refine ⟨w', sets, removes, ?_, hw', hlists⟩
  dsimp only
  rw [exec_bind, exec_bind_value hb]
  exact hexec

/-- **What one call records**: its labels, item by item, and nothing else
that names labels. -/
theorem records_perform {change : Change} (h : change.setsOrRemoves = true) :
    Records b (change.perform b) fun entry => change.labelLists entry := by
  cases change with
  | set property value => exact records_set property value
  | setMany values =>
    have hall : Records b (values.forM fun one => set b one.1 one.2)
        fun entry =>
        values.flatMap fun _ => [] := records_forM fun one _ =>
          records_set one.1 one.2
    exact hall.congr fun entry => List.flatMap_eq_nil_iff.mpr fun _ _ => rfl
  | setLabels texts =>
    refine records_entry fun entry => (records_addSets _).congr fun _ => ?_
    simp [Change.labelLists, writtenLabelItem, SetItem.labelled?,
      Function.comp_def]
  | setLabel name given => exact records_addSets [.labels name given.labels]
  | setRaw texts =>
    refine (records_addSets (texts.map SetItem.raw)).congr fun _ => ?_
    simp [Change.labelLists, SetItem.labelled?, Function.comp_def]
  | remove items =>
    refine (records_addRemoves fun entry =>
      items.map (writtenRemoval entry)).congr fun entry => ?_
    exact labelled_removals entry items
  | removeLabel name labels =>
    rw [Change.perform]
    dsimp only [Change.labelLists]
    split
    · exact records_pure
    · exact records_addRemoves fun _ =>
        [.labels name (LabelArgument.many labels).labels]
  | _ => cases h

/-- **Every item of labels names a label, and none that is blank, unless a
call is mute.**  Any program of calls that set and remove properties and
labels succeeds, and does nothing to the builder but record items behind
those it has.  The text of an item that names labels is that of an element
with labels behind it exactly if there are labels and none is blank;
otherwise there are none, or a single one that is empty.  This is avoided by
exactly those programs of which no call is mute. -/
theorem labelItems_telling_iff (hb : w.builders[b]? = some found)
    {program : List Change}
    (hprogram : ∀ change ∈ program, change.setsOrRemoves = true) :
    ∃ w' sets removes,
      exec (program.forM (Change.perform b)) w = (.ok (), w') ∧
      w'.builders[b]? = some (found.recording sets removes) ∧
      (∀ item ∈ labelItems sets removes,
        (Telling item.1 ∨ item.1 = [] ∨ item.1 = [""]) ∧
        (WritesLabels item.2 ↔ Telling item.1)) ∧
      ((∀ item ∈ labelItems sets removes, Telling item.1) ↔
        ∀ change ∈ program, ¬change.Mute) := by
  have hrecords := records_forM fun change hchange =>
    records_perform (b := b) (hprogram change hchange)
  obtain ⟨w', sets, removes, hexec, hw', hlists⟩ := hrecords w found hb
  have hread : ∀ names, names ∈ (labelItems sets removes).map Prod.fst ↔
      ∃ change ∈ program, names ∈ change.labelLists found.body.entry :=
        fun names =>
    (hlists names).trans List.mem_flatMap
  refine ⟨w', sets, removes, hexec, hw', fun item hitem =>
    ⟨?shape, writesLabels_of_mem hitem⟩, ?telling⟩
  case shape =>
    obtain ⟨change, -, hnames⟩ :=
      (hread item.1).mp (List.mem_map_of_mem hitem)
    exact Change.telling_or_of_mem hnames
  case telling =>
    calc (∀ item ∈ labelItems sets removes, Telling item.1)
        ↔ ∀ names ∈ (labelItems sets removes).map Prod.fst, Telling names :=
          List.forall_mem_map.symm
      _ ↔ ∀ change ∈ program, ∀ names ∈ change.labelLists found.body.entry,
        Telling names := by
        constructor
        · intro h change hchange names hnames
          exact h names ((hread names).mpr ⟨change, hchange, hnames⟩)
        · intro h names hnames
          obtain ⟨change, hchange, hmem⟩ := (hread names).mp hnames
          exact h change hchange names hmem
      _ ↔ ∀ change ∈ program, ¬change.Mute :=
        forall₂_congr fun change _ =>
          change.telling_iff_not_mute found.body.entry

/-- A label is set on the entry, then no labels on it by name: the second
item is the bare name.  Removing no labels from it records nothing. -/
theorem labelItems_telling_iff_of_bare :
    let query : Builder :=
      { whole := true, stack := 0, sequence := 0,
        body := { entry := "n", batchVariable := "row" } }
    let program : List Change :=
      [.setLabels ["Admin"], .setLabel "n" (.many []), .removeLabel "n" []]
    (∀ change ∈ program, change.setsOrRemoves = true) ∧
      ∃ w' sets removes, exec (program.forM (Change.perform 0))
        { builders := #[query] } = (.ok (), w') ∧
        w'.builders[0]? = some (query.recording sets removes) ∧
        sets.map (fun item => item.text.toOption) =
          [some "n:Admin", some "n"] ∧
        ¬∀ item ∈ labelItems sets removes, Telling item.1 := by
  intro query program
  have hprogram : ∀ change ∈ program, change.setsOrRemoves = true := by decide
  have hb : ({ builders := #[query] } : Workspace).builders[0]? =
      some query := rfl
  obtain ⟨w', sets, removes, hexec, hw', -, hiff⟩ :=
    labelItems_telling_iff hb hprogram
  refine ⟨hprogram, w', sets, removes, hexec, hw', ?_, fun htelling => ?_⟩
  · have hsets :
        ((exec (program.forM (Change.perform 0))
          { builders := #[query] }).2.builders[0]?.map
        fun builder => builder.body.sets.map fun item => item.text.toOption) =
          some [some "n:Admin", some "n"] := by decide +kernel
    rw [hexec] at hsets
    dsimp only at hsets
    rw [hw'] at hsets
    exact Option.some.inj hsets
  · refine hiff.mp htelling (.setLabel "n" (.many [])) ?_
      fun token htoken => by cases htoken
    exact List.mem_cons_of_mem _ List.mem_cons_self

end Building

end GraphQuery

import GraphQuery.Proofs.Patterns.Relationships
import GraphQuery.Proofs.Patterns.Shelf

/-!
# Labels of written elements

An element that is written needs a label, or a type.  Whether it is given
one is checked of its tokens, before these are taken apart, and a token can
be there without saying a label: a name and a colon with nothing behind it,
or the markers of a direction alone.  So the check passes, and the element
has no label unless its name stands for one with labels already:
`Shelf.unlabelled_iff_untold`.
-/

namespace GraphQuery

namespace Text

/-- Nothing is left of a text exactly if all of it is blank. -/
theorem trim_eq_nil_iff {s : List Char} :
    trim s = [] ↔ ∀ c ∈ s, isBlank c = true := by
  constructor
  · exact isBlank_of_trim_eq_nil
  · intro hblank
    rw [trim, trimLeft, List.dropWhile_eq_nil_iff.mpr hblank]
    rfl

/-- Whatever is no separator stands in one of the pieces. -/
theorem exists_piece_of_mem {sep c : Char} {s : List Char} (hc : c ∈ s)
    (hne : c ≠ sep) :
    ∃ piece ∈ pieces sep s, c ∈ piece := by
  induction s with
  | nil => cases hc
  | cons d rest ih =>
    have hrest : c ∈ rest → ∃ piece ∈ pieces sep rest, c ∈ piece :=
      fun hmem => ih hmem
    rw [pieces]
    by_cases hd : d = sep
    · rw [if_pos hd]
      have hmem : c ∈ rest := (List.mem_cons.mp hc).resolve_left fun heq =>
        hne (heq.trans hd)
      obtain ⟨piece, hpiece, hin⟩ := hrest hmem
      exact ⟨piece, List.mem_cons_of_mem [] hpiece, hin⟩
    · rw [if_neg hd]
      cases hpieces : pieces sep rest with
      | nil =>
        rw [hpieces] at hrest
        rcases List.mem_cons.mp hc with rfl | hmem
        · exact ⟨[c], List.mem_cons_self, List.mem_cons_self⟩
        · obtain ⟨piece, hpiece, -⟩ := hrest hmem
          cases hpiece
      | cons first others =>
        rw [hpieces] at hrest
        dsimp only
        rcases List.mem_cons.mp hc with rfl | hmem
        · exact ⟨c :: first, List.mem_cons_self, List.mem_cons_self⟩
        · obtain ⟨piece, hpiece, hin⟩ := hrest hmem
          rcases List.mem_cons.mp hpiece with rfl | hothers
          · exact ⟨d :: piece, List.mem_cons_self, List.mem_cons_of_mem d hin⟩
          · exact ⟨piece, List.mem_cons_of_mem _ hothers, hin⟩

end Text

namespace Pattern

open GraphQuery.Computation

/-! ## What tokens say -/

/-- A token with a colon, behind which there is nothing but blanks and
colons. -/
def SaysNoLabel (token : String) : Prop :=
  ∃ front back, token.toList = front ++ ':' :: back ∧ ':' ∉ front ∧
    ∀ c ∈ back, c = ':' ∨ Text.isBlank c = true

/-- An element is told no label: by its tokens, if it is given no name;
otherwise there are no tokens, and the name does not bring a label along
either. -/
def Untold (tokens : List String) (name : Option String) : Prop :=
  let given := Text.trimmed (name.getD "")
  if given.isEmpty then tokens = [] ∨ ∃ token, tokens = [token] ∧
      SaysNoLabel token
  else tokens = [] ∧ (':' ∈ given.toList → SaysNoLabel given)

/-- A token has no labels exactly if it says none. -/
theorem labels_of_embedded {token name : String} {labels : List String}
    (h : embedded token = some (name, labels)) :
    labels = [] ↔ SaysNoLabel token := by
  obtain ⟨⟨front, back⟩, hcut, heq⟩ := Option.map_eq_some_iff.mp h
  obtain ⟨-, rfl⟩ := Prod.mk.inj heq
  obtain ⟨htoken, hfront⟩ := Text.cutAtFirst_eq_some_iff.mp hcut
  have hpieces :
      (((Text.pieces ':' back).map Text.trim).filterMap fun label =>
      if label.isEmpty then none else some (String.ofList label)) = [] ↔
        ∀ piece ∈ Text.pieces ':' back, ∀ c ∈ piece,
          Text.isBlank c = true := by
    rw [List.filterMap_eq_nil_iff, List.forall_mem_map]
    refine forall₂_congr fun piece _ => ?_
    rw [← Text.trim_eq_nil_iff, ← List.isEmpty_iff]
    cases (Text.trim piece).isEmpty <;> simp
  rw [hpieces]
  constructor
  · intro hblank
    refine ⟨front, back, htoken, hfront, fun c hc => ?_⟩
    by_cases hcolon : c = ':'
    · exact .inl hcolon
    · obtain ⟨piece, hpiece, hin⟩ := Text.exists_piece_of_mem hc hcolon
      exact .inr (hblank piece hpiece c hin)
  · rintro ⟨front', back', htoken', hfront', hblank⟩ piece hpiece c hc
    have hcut' : Text.cutAtFirst ':' token.toList = some (front', back') :=
      Text.cutAtFirst_eq_some_iff.mpr ⟨htoken', hfront'⟩
    obtain ⟨rfl, rfl⟩ := Prod.mk.inj (Option.some.inj (hcut.symm.trans hcut'))
    refine (hblank c (Text.mem_of_mem_pieces hpiece hc)).resolve_left ?_
    rintro rfl
    exact Text.not_mem_of_mem_pieces hpiece hc

/-- A token without a colon says a label. -/
theorem not_saysNoLabel_of_noColon {token : String} (h : ':' ∉ token.toList) :
    ¬SaysNoLabel token := by
  rintro ⟨front, back, htoken, -⟩
  rw [htoken] at h
  exact h (List.mem_append_right front List.mem_cons_self)

/-- An element gets no label from its arguments exactly if it is told none. -/
theorem explicitName_labels_eq_nil_iff (tokens : List String)
    (name : Option String) :
    (explicitName tokens name).2 = [] ↔ Untold tokens name := by
  have htold := explicit_explicitName tokens name
  generalize explicitName tokens name = told at htold ⊢
  rw [Untold]
  cases htold with
  | nothing hblank =>
    rw [if_pos hblank]
    exact iff_of_true rfl (.inl rfl)
  | @label first others hblank hplain =>
    rw [if_pos hblank]
    refine iff_of_false (List.cons_ne_nil first others) ?_
    rintro (hnil | ⟨token, htoken, hsilent⟩)
    · cases hnil
    · cases htoken
      exact not_saysNoLabel_of_noColon (noColon_of_embedded hplain) hsilent
  | @token first _ _ _ hblank hembedded =>
    rw [if_pos hblank, List.append_eq_nil_iff, labels_of_embedded hembedded]
    constructor
    · rintro ⟨hsilent, rfl⟩
      exact .inr ⟨first, rfl, hsilent⟩
    · rintro (hnil | ⟨token, htoken, hsilent⟩)
      · cases hnil
      · cases htoken
        exact ⟨hsilent, rfl⟩
  | name hgiven hplain =>
    have hcolon := noColon_of_embedded hplain
    rw [hgiven, if_neg Bool.false_ne_true]
    exact ⟨fun hnil => ⟨hnil, fun hmem => absurd hmem hcolon⟩, fun huntold =>
      huntold.1⟩
  | labelled hgiven hembedded =>
    have hcolon := colon_of_embedded hembedded
    rw [hgiven, if_neg Bool.false_ne_true, List.append_eq_nil_iff,
      labels_of_embedded hembedded]
    exact ⟨fun h => ⟨h.2, fun _ => h.1⟩, fun h => ⟨h.2 hcolon, h.1⟩⟩

/-! ## The labels an element is declared with -/

/-- The labels of a node, or the types of a relationship. -/
def Element.labels : Element → List String
  | node n => n.labels
  | relationship r => r.types
  | raw _ | misplaced _ => []

/-- No labels are there exactly if none were and none are added. -/
theorem extendLabels_eq_nil_iff {labels more : List String} :
    extendLabels labels more = [] ↔ labels = [] ∧ more = [] := by
  rw [extendLabels_eq, List.append_eq_nil_iff]
  refine and_congr_right ?_
  rintro rfl
  cases more with
  | nil => exact iff_of_true rfl rfl
  | cons label rest =>
    rw [List.filter_cons_of_pos (by rfl), List.eraseDups_cons]
    exact iff_of_false (List.cons_ne_nil _ _) (List.cons_ne_nil _ _)

namespace Store

variable {s t : Store} {e : Element} {intent : Intent} {name : String}

/-- A name that stands for an element without labels, or for none. -/
def Unlabelled (s : Store) (name : String) : Prop :=
  ∀ known, s.get? name = some known → known.labels = []

/-- A name that is not known has no labels. -/
theorem unlabelled_of_none (h : s.find? name = none) : s.Unlabelled name := by
  intro known hget
  rw [get?, h] at hget
  cases hget

/-- A known name has the labels of its element. -/
theorem unlabelled_iff_of_find? (h : s.find? name = some ⟨e, intent⟩)
    (he : ∀ text, e ≠ .raw text) :
    s.Unlabelled name ↔ e.labels = [] := by
  have hget : s.get? name = some e := by
    rw [get?, h]
    cases e with
    | raw text => exact absurd rfl (he text)
    | node | relationship | misplaced => rfl
  constructor
  · intro hall
    exact hall e hget
  · intro hlabels known hknown
    obtain rfl := Option.some.inj (hget.symm.trans hknown)
    exact hlabels

/-- Whether a name has labels is told by its entry. -/
theorem unlabelled_congr (h : s.find? name = t.find? name) :
    s.Unlabelled name ↔ t.Unlabelled name := by
  unfold Unlabelled get?
  rw [h]

/-- A node that is declared has the labels given and those it had. -/
theorem labels_of_declareNode {labels : List String}
    {properties : List Assignment}
    (h : s.declareNode name labels properties intent = .ok (e, t)) :
    e.labels = [] ↔ labels = [] ∧ s.Unlabelled name := by
  obtain ⟨hnew, rfl, -⟩ | ⟨known, before, hknown, rfl, -⟩ :=
    declareNode_cases h
  · exact (and_iff_left (unlabelled_of_none hnew)).symm
  · rw [unlabelled_iff_of_find? hknown fun _ heq => by cases heq]
    exact extendLabels_eq_nil_iff.trans and_comm

/-- A relationship that is declared has the types given and those it had. -/
theorem labels_of_declareRelationship {new : Relationship}
    (h : s.declareRelationship new intent = .ok (e, t)) :
    e.labels = [] ↔ new.types = [] ∧ s.Unlabelled new.name := by
  obtain ⟨hnew, rfl, -⟩ | ⟨known, before, hknown, rfl, -⟩ :=
    declareRelationship_cases h
  · exact (and_iff_left (unlabelled_of_none hnew)).symm
  · rw [unlabelled_iff_of_find? hknown fun _ heq => by cases heq]
    exact extendLabels_eq_nil_iff.trans and_comm

/-- A name a relationship is declared with stands for no node. -/
theorem rank_of_declareRelationship {new : Relationship}
    (h : s.declareRelationship new intent = .ok (e, t)) :
    ∀ known ∈ s.find? new.name, known.element.rank ≠ 1 := by
  obtain ⟨hnew, -⟩ | ⟨_, _, hfound, -⟩ := declareRelationship_cases h
  · rw [hnew]
    rintro known ⟨⟩
  · rw [hfound]
    rintro known ⟨⟩
    exact Nat.succ_ne_self 1

/-- The nodes declared have other names than the name that stands for no
node afterwards.  If the first node had this name, the name would stand for
it, and so for a node, at the end. -/
theorem Indexed.find?_applyAll_of_nodes {ds : List Declaration}
    (h : s.Indexed)
    (hnodes : ∀ d ∈ ds, ∃ own labels properties intent,
      d = .node own labels properties intent) (happly : s.applyAll ds = .ok t)
      (hname : ∀ known ∈ t.find? name, known.element.rank ≠ 1) :
    t.find? name = s.find? name := by
  induction ds generalizing s with
  | nil =>
    cases happly
    rfl
  | cons d later ih =>
    obtain ⟨u, hd, hrest⟩ := applyAll_cons_eq_ok.mp happly
    have hmakes := Declaration.makes_of_apply hd
    have hlater := ih (h.of_makes hmakes) (fun d hmem =>
      hnodes d (List.mem_cons_of_mem _ hmem)) hrest
    obtain ⟨own, labels, properties, intent, rfl⟩ :=
      hnodes d List.mem_cons_self
    rw [hlater]
    refine h.find?_of_makes_of_ne hmakes fun hsame => ?_
    rw [hlater] at hname
    rcases h.find?_of_makes_self hmakes hsame with
      ⟨-, entry, hentry, hfind⟩ | ⟨known, entry, -, hentry, hfind⟩
    · cases hentry
      exact hname _ hfind rfl
    · obtain ⟨element, before⟩ := known
      cases element with
      | node n =>
        cases hentry
        exact hname _ hfind rfl
      | relationship | raw | misplaced => cases hentry

end Store

namespace Registration

variable {r r' : Registry} {e : Element} {properties : List Assignment}
    {intent : Intent}
variable {given : LabelArgument} {name : Option String}

/-- **A node that is registered has no labels exactly if none are told** and
it had none. -/
theorem labels_of_node (hr : r.store.Indexed)
    (h : exec (node given name intent properties) r = (.ok e, r')) :
    ∃ own, e.name? = some own ∧
      (e.labels = [] ↔ Untold given.labels name ∧
        r.store.Unlabelled own) := by
  refine ⟨_, name?_of_node hr h, ?_⟩
  obtain ⟨hdeclared, -⟩ := declared_of_node h
  rw [← explicitName_labels_eq_nil_iff,
    ← decode_labels .node given name r.names]
  exact Store.labels_of_declareNode hdeclared

/-- The ends of a relationship, which are nodes, do not change what its name
stands for.  The name came to stand for a relationship, hence for none of
the nodes declared before. -/
theorem labels_of_relationship {left right : Option String}
    {direction : Option Direction} (hr : r.store.Indexed)
    (h : exec (relationship left right given name direction
      intent properties) r = (.ok e, r')) :
    ∃ own, e.name? = some own ∧
      (e.labels = [] ↔ Untold (typesGiven given) name ∧
        r.store.Unlabelled own) := by
  refine ⟨_, name?_of_relationship hr h, ?_⟩
  obtain ⟨s, hends, hdeclared⟩ := declared_of_relationship h
  have hsame := hr.find?_applyAll_of_nodes (fun d hd => by
    obtain ⟨own, labels, rfl, -⟩ :=
      (List.mem_append.mp hd).elim labelled_of_mem_endDeclarations
        labelled_of_mem_endDeclarations
    exact ⟨own, labels, [], intent,
      rfl⟩) hends (Store.rank_of_declareRelationship hdeclared)
  have hlabels := Store.labels_of_declareRelationship hdeclared
  rw [Store.unlabelled_congr hsame, StoreCall.types_relationshipGiven,
    StoreCall.name_relationshipGiven] at hlabels
  rw [← explicitName_labels_eq_nil_iff]
  exact hlabels

end Registration

/-- The tokens and the name a call gives the element it writes. -/
def StoreCall.written? : StoreCall Assignment →
    Option (List String × Option String)
  | writeNode _ given name _ => some (given.labels, name)
  | writeRelationship _ _ _ given name _ _ => some (typesGiven given, name)
  | _ => none

/-- Every call that creates or merges leaves its element without labels
exactly if none are told and it had none. -/
theorem StoreCall.labels_of_perform {call : StoreCall Assignment}
    {r r' : Registry} {tokens : List String} {name : Option String}
    {answer : StoreAnswer} (hr : r.store.Indexed)
    (hwritten : call.written? = some (tokens, name))
    (h : exec call.perform r = (.ok answer, r')) :
    ∃ e own, answer = .element e ∧ e.name? = some own ∧
      (e.labels = [] ↔ Untold tokens name ∧ r.store.Unlabelled own) := by
  cases call with
  | writeNode =>
    cases hwritten
    obtain ⟨e, _, hwrite, hanswer⟩ := exec_bind_eq_ok.mp h
    cases hanswer
    have hnode := Registration.exec_of_labelsFor hwrite
    obtain ⟨own, hname, hlabels⟩ := Registration.labels_of_node hr hnode
    rw [labels_many_labels] at hlabels
    exact ⟨e, own, rfl, hname, hlabels⟩
  | writeRelationship =>
    cases hwritten
    obtain ⟨e, _, hwrite, hanswer⟩ := exec_bind_eq_ok.mp h
    cases hanswer
    have hrelationship := Registration.exec_of_labelsFor hwrite
    obtain ⟨own, hname, hlabels⟩ :=
      Registration.labels_of_relationship hr hrelationship
    rw [typesGiven, labels_many_labels] at hlabels
    exact ⟨e, own, rfl, hname, hlabels⟩
  | matchNode | matchRelationship | matchRaw | writeRaw | assign | get
  | intentOf | chunk | size => cases hwritten

/-- **Which written elements have no label.**  Whatever was done to a shelf,
a call that writes an element and succeeds answers with an element that has
no label exactly if it was told none and its name did not stand for an
element with labels before. -/
theorem Shelf.unlabelled_iff_untold (names : NameSequence)
    (steps : List Step) (i : Nat) {call : StoreCall Assignment}
    {tokens : List String} {name : Option String} {answer : StoreAnswer}
    (hwritten : call.written? = some (tokens, name))
    (hok : ((({ names } : Shelf).after steps).perform i call).1 =
      .ok answer) :
    ∃ e own, answer = .element e ∧ e.name? = some own ∧
      (e.labels = [] ↔ Untold tokens name ∧
        ((({ names } : Shelf).after steps).store i).Unlabelled own) := by
  exact StoreCall.labels_of_perform (indexed_of_new names steps i) hwritten
    (Prod.ext hok rfl)

/-- A node that is written with a name and a colon alone. -/
def colonAlone : StoreCall Assignment :=
  .writeNode .creating (.one "a:") none []

/-- A node is created of a name with a colon behind it, and has no label. -/
theorem Shelf.unlabelled_iff_untold_of_colonAlone :
    colonAlone.written? = some (["a:"], none) ∧
      ∃ e, ((({} : Shelf).after []).perform 0 colonAlone).1 =
        .ok (.element e) ∧
        e.name? = some "a" ∧ e.labels = [] ∧ Untold ["a:"] none := by
  have hwritten : colonAlone.written? = some (["a:"], none) := by
    decide +kernel
  have hok : ((({} : Shelf).after []).perform 0 colonAlone).1 =
      .ok (.element (.node { name := "a" })) := by
    rfl
  obtain ⟨e, own, heq, hname, hlabels⟩ :=
    unlabelled_iff_untold {} [] 0 hwritten hok
  cases heq
  exact ⟨hwritten, _, hok, rfl, rfl, (hlabels.mp rfl).1⟩

end Pattern

end GraphQuery

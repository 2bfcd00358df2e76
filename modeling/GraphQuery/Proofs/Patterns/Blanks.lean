import GraphQuery.Proofs.Patterns.Spellings
import GraphQuery.Proofs.Patterns.Traces

/-!
# No blank names or labels

Whatever an element is given for a name and labels, blank texts, colons and
blanks at the ends of texts among it, its name and its labels have something
in them and no blanks at their ends (`decode_never_blank`).  An anonymous
name is drawn exactly for elements that get no label and are told no name:
`Named` says in which texts a name is looked for.
-/

namespace GraphQuery.Pattern

open Text

/-- A text says a name if there is something in it, in front of its first
colon if it has one. -/
def SaysName (text : String) : Prop :=
  ∃ c ∈ text.toList.takeWhile fun c => c != ':', isBlank c = false

/-- An element is told a name: by the name it is given or, if that is
missing or blank, by the first of its tokens that is not blank, if this one
has a colon. -/
def Named (given : LabelArgument) (name : Option String) : Prop :=
  (∃ text, name = some text ∧ SaysName text) ∨
    Unnamed name ∧ ∃ token rest, given.tokens.filter (fun token =>
      !isBlankText token) = token :: rest ∧
      ':' ∈ token.toList ∧ SaysName token

/-- A text without a colon says a name if it is not blank. -/
theorem saysName_iff_of_noColon {text : String} (h : ':' ∉ text.toList) :
    SaysName text ↔ trim text.toList ≠ [] := by
  have hall : text.toList.takeWhile (fun c => c != ':') = text.toList := by
    rw [List.takeWhile_eq_self_iff]
    intro c hc
    exact bne_iff_ne.mpr fun heq => h (heq ▸ hc)
  rw [SaysName, hall, Ne, trim_eq_nil_iff]
  simp

/-- The name a token carries is missing exactly if the token says none. -/
theorem saysName_iff_of_embedded {token name : String} {labels : List String}
    (h : embedded token = some (name, labels)) : SaysName token ↔
    name ≠ "" := by
  obtain ⟨⟨front, back⟩, hcut, heq⟩ := Option.map_eq_some_iff.mp h
  obtain ⟨rfl, -⟩ := Prod.mk.inj heq
  obtain ⟨htoken, hfront⟩ := cutAtFirst_eq_some_iff.mp hcut
  have hkept : ∀ c ∈ front, (c != ':') = true := fun c hc =>
    bne_iff_ne.mpr fun hcolon => hfront (hcolon ▸ hc)
  have htaken : token.toList.takeWhile (fun c => c != ':') = front := by
    rw [htoken, List.takeWhile_append_of_pos hkept,
      List.takeWhile_cons_of_neg (by decide),
      List.append_nil]
  have hname : String.ofList (trim front) = "" ↔
      ∀ c ∈ front, isBlank c = true := by
    rw [← trim_eq_nil_iff, ← String.toList_eq_nil_iff, String.toList_ofList]
  rw [SaysName, htaken, Ne, hname]
  simp

/-- A blank name says none. -/
theorem not_saysName_of_unnamed {text : String} (h : Unnamed (some text)) :
    ¬SaysName text := by
  intro htold
  obtain ⟨c, hc, hblank⟩ := htold
  have hall := List.all_eq_true.mp h c ((List.takeWhile_prefix _).subset hc)
  rw [hall] at hblank
  cases hblank

/-- A name is missing if it is blank or not given. -/
theorem unnamed_iff {name : Option String} :
    Unnamed name ↔ (trimmed (name.getD "")).isEmpty = true := by
  refine ⟨Unnamed.isEmpty_eq, fun hempty => ?_⟩
  rw [trimmed, String.isEmpty_iff, ← String.toList_eq_nil_iff,
    String.toList_ofList] at hempty
  exact List.all_eq_true.mpr (isBlank_of_trim_eq_nil hempty)

section

variable {given : LabelArgument} {name : Option String}

/-- Without a name given, one is told by the first token that is not blank. -/
theorem named_iff_of_unnamed (h : Unnamed name) :
    Named given name ↔
      ∃ token rest, given.tokens.filter (fun token => !isBlankText token) =
        token :: rest ∧
        ':' ∈ token.toList ∧ SaysName token := by
  refine ⟨fun hnamed => ?_, fun htoken => .inr ⟨h, htoken⟩⟩
  rcases hnamed with ⟨text, rfl, htold⟩ | ⟨-, htoken⟩
  · exact absurd htold (not_saysName_of_unnamed h)
  · exact htoken

/-- A name given tells itself. -/
theorem named_iff_of_not_unnamed (h : ¬Unnamed name) :
    Named given name ↔ SaysName (name.getD "") := by
  cases name with
  | none => exact absurd rfl h
  | some text => simp [Named, h]

/-- Without a name the first token tells. -/
theorem explicitName_eq_empty_iff_of_unnamed (h : Unnamed name) :
    explicitName given.labels name = ("", []) ↔
      (explicitName given.labels name).2 = [] ∧ ¬Named given name := by
  have htold := explicit_explicitName given.labels name
  rw [named_iff_of_unnamed h]
  generalize explicitName given.labels name = told at htold ⊢
  rw [LabelArgument.labels] at htold
  cases htokens : given.tokens.filter (fun token => !isBlankText token) with
  | nil =>
    rw [htokens, List.map_nil] at htold
    cases htold with
    | nothing => simp
    | name hgiven => cases h.isEmpty_eq.symm.trans hgiven
    | labelled hgiven => cases h.isEmpty_eq.symm.trans hgiven
  | cons token rest =>
    rw [htokens, List.map_cons] at htold
    cases htold with
    | label => simp
    | token _ hembedded =>
      rw [embedded_trimmed] at hembedded
      have hcolon := colon_of_embedded hembedded
      have htells := saysName_iff_of_embedded hembedded
      simp [htells, hcolon, and_comm]
    | name hgiven => cases h.isEmpty_eq.symm.trans hgiven
    | labelled hgiven => cases h.isEmpty_eq.symm.trans hgiven

/-- A name that is not blank tells, whatever the tokens are. -/
theorem explicitName_eq_empty_iff_of_not_unnamed (h : ¬Unnamed name) :
    explicitName given.labels name = ("", []) ↔
      (explicitName given.labels name).2 = [] ∧ ¬Named given name := by
  have htold := explicit_explicitName given.labels name
  rw [named_iff_of_not_unnamed h]
  generalize explicitName given.labels name = told at htold ⊢
  generalize given.labels = tokens at htold
  cases htold with
  | nothing hblank => exact absurd (unnamed_iff.mpr hblank) h
  | label hblank => exact absurd (unnamed_iff.mpr hblank) h
  | token hblank => exact absurd (unnamed_iff.mpr hblank) h
  | name hgiven hplain =>
    rw [embedded_trimmed] at hplain
    have hsome : trim (name.getD "").toList ≠ [] := by
      intro hnil
      rw [trimmed, hnil] at hgiven
      cases hgiven
    have htells :=
      (saysName_iff_of_noColon (noColon_of_embedded hplain)).mpr hsome
    have hne : trimmed (name.getD "") ≠ "" :=
      String.isEmpty_eq_false_iff.mp hgiven
    simp [htells, hne]
  | labelled _ hembedded =>
    rw [embedded_trimmed] at hembedded
    simp [saysName_iff_of_embedded hembedded, and_comm]

/-- **An element without labels has no name of its own exactly if it is told
none.** -/
theorem explicitName_eq_empty_iff (given : LabelArgument)
    (name : Option String) :
    explicitName given.labels name = ("", []) ↔
      (explicitName given.labels name).2 = [] ∧ ¬Named given name := by
  by_cases hunnamed : Unnamed name
  · exact explicitName_eq_empty_iff_of_unnamed hunnamed
  · exact explicitName_eq_empty_iff_of_not_unnamed hunnamed

end

/-- **Decoding never yields a blank.**  Whatever an element is given, and
whichever way elements without a name are named, its name and all of its
labels have something in them and no blanks at their ends, if the anonymous
names have.  The next anonymous name is drawn exactly for an element that
gets no label and is told no name; otherwise none is. -/
theorem decode_never_blank (sort : ElementSort) (given : LabelArgument)
    (name : Option String) {names : NameSequence}
    (hstem : Proper names.stem) :
    let decoded := decode sort given name names
    Proper decoded.1.1 ∧ (∀ label ∈ decoded.1.2, Proper label) ∧
      (decoded.2 = names.draw.2 ↔ decoded.1.2 = [] ∧ ¬Named given name) ∧
      (decoded.2 = names ↔ ¬(decoded.1.2 = [] ∧ ¬Named given name)) := by
  have hproper := proper_decode sort given name hstem
  have hlabels := decode_labels sort given name names
  have hdrawn := decode_ne_iff sort given name names
  have hnames := decode_names sort given name names
  rw [explicitName_eq_empty_iff, ← hlabels] at hdrawn
  dsimp only
  generalize decode sort given name names =
      decoded at hproper hlabels hdrawn hnames ⊢
  refine ⟨hproper, ?labels, ?draws, ?keeps⟩
  case labels =>
    rw [hlabels]
    exact (proper_of_explicitName (fun label => proper_of_mem_labels) name).2
  case draws =>
    rw [← hdrawn]
    rcases hnames with hsame | ⟨-, hnext⟩
    · rw [hsame]
      exact iff_of_false (fun hnext => names.draw_ne hnext.symm) fun hne =>
        hne rfl
    · rw [hnext]
      exact iff_of_true rfl names.draw_ne
  case keeps => rw [← hdrawn, not_not]

/-- A blank name, a blank token and one of colons and blanks say neither a
name nor a label; a name in front of such a token is kept from being drawn. -/
theorem decode_never_blank_of_colons :
    let silent := LabelArgument.many ["\t", " : : "]
    Proper (NameSequence.stem {}) ∧ decode .relationship silent (some " ")
    {} = (("anon0", []), { drawn := 1 }) ∧
      ¬Named silent (some " ") ∧
      decode .relationship silent (some " r:") {} = (("r", [": :"]), {}) ∧
      Named silent (some " r:") := by
  intro silent
  have hstem : Proper (NameSequence.stem {}) :=
    (Plain.of_all (by decide) (by decide)).toProper
  have hdrawn : decode .relationship silent (some " ") {} = (("anon0", []),
      { drawn := 1 }) := by
    decide +kernel
  have hkept : decode .relationship silent (some " r:") {} = (("r", [": :"]),
      {}) := by
    decide +kernel
  obtain ⟨-, -, hdraws, -⟩ :=
    decode_never_blank .relationship silent (some " ") hstem
  rw [hdrawn] at hdraws
  refine ⟨hstem, hdrawn, (hdraws.mp rfl).2, hkept,
    .inl ⟨" r:", rfl, 'r', ?_, rfl⟩⟩
  decide

end GraphQuery.Pattern

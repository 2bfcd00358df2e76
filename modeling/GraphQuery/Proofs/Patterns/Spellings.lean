import GraphQuery.Proofs.Patterns.Labels

/-!
# Spellings of a name with labels

A name and labels can be given in one token, in the name, apart from each
other, or with the name in the first token of a list; with blanks around the
name and the labels, and with blank labels between them.  All these
spellings are decoded alike: `decode_spelling`.  A name that is left out
before the first colon is the same as no name at all.

* `Text.Padded`: a text with blanks around it, which trimming takes away;
* `Scattered`: labels with blanks around them and blank texts between them,
  which are dropped;
* `SpelledIn`, `Spelling`: a name and labels in one text, and in the
  arguments of an element.
-/

namespace GraphQuery

namespace Text

/-- A text with blanks around it. -/
def Padded (s text : List Char) : Prop :=
  ∃ front back, text = front ++ s ++ back ∧
  ∀ c ∈ front ++ back, isBlank c = true

/-- A text pads itself. -/
theorem Padded.refl (s : List Char) : Padded s s :=
  ⟨[], [], (List.append_nil s).symm, List.forall_mem_nil _⟩

/-- Blanks around a text pad it. -/
theorem Padded.around {s : List Char} (front back : List Char)
    (h : (front ++ back).all isBlank = true) :
    Padded s (front ++ s ++ back) :=
  ⟨front, back, rfl, List.all_eq_true.mp h⟩

/-- Blanks in front are trimmed. -/
theorem trimLeft_append {front : List Char}
    (h : ∀ c ∈ front, isBlank c = true) (s : List Char) :
    trimLeft (front ++ s) = trimLeft s :=
  List.dropWhile_append_of_pos h

/-- Blanks at the end are trimmed. -/
theorem trimRight_append {back : List Char}
    (h : ∀ c ∈ back, isBlank c = true) (s : List Char) :
    trimRight (s ++ back) = trimRight s := by
  have hback : ∀ c ∈ back.reverse, isBlank c = true := fun c hc =>
    h c (List.mem_reverse.mp hc)
  rw [trimRight, List.reverse_append, List.dropWhile_append_of_pos hback,
    trimRight]

/-- A padded text is trimmed like the text. -/
theorem Padded.trim_eq {s text : List Char} (h : Padded s text) :
    trim text = trim s := by
  obtain ⟨front, back, rfl, hblank⟩ := h
  have hfront : ∀ c ∈ front, isBlank c = true := fun c hc =>
    hblank c (List.mem_append_left back hc)
  have hback : ∀ c ∈ back, isBlank c = true := fun c hc =>
    hblank c (List.mem_append_right front hc)
  rw [trim, List.append_assoc, trimLeft_append hfront, trim]
  by_cases hs : trimLeft s = []
  · have hnil : trimLeft (s ++ back) = trimLeft back :=
      trimLeft_append (List.dropWhile_eq_nil_iff.mp hs) back
    have hnone : trimLeft back = [] := List.dropWhile_eq_nil_iff.mpr hback
    rw [hnil, hnone, hs]
  · have hkept : trimLeft (s ++ back) = trimLeft s ++ back := by
      rw [trimLeft, List.dropWhile_append,
        if_neg (by simpa [trimLeft] using hs), trimLeft]
    rw [hkept, trimRight_append hback]

/-- Trimming works on both sides of a character that is not blank. -/
theorem trim_append_cons {c : Char} (hc : isBlank c = false)
    (front back : List Char) :
    trim (front ++ c :: back) = trimLeft front ++ c :: trimRight back := by
  have hstop : ¬isBlank c = true := by rw [hc]; exact Bool.false_ne_true
  have hleft : trimLeft (front ++ c :: back) = trimLeft front ++ c ::
      back := by
    rw [trimLeft, List.dropWhile_append, List.dropWhile_cons_of_neg hstop]
    split
    · next hnil => rw [trimLeft, List.isEmpty_iff.mp hnil, List.nil_append]
    · rfl
  rw [trim, hleft, trimRight, List.reverse_append, List.reverse_cons,
    List.append_assoc,
    List.dropWhile_append, List.singleton_append,
    List.dropWhile_cons_of_neg hstop]
  split
  · next hnil =>
    rw [trimRight, List.isEmpty_iff.mp hnil, List.reverse_cons,
      List.reverse_reverse,
      List.reverse_nil]
  · rw [List.reverse_append, List.reverse_cons, List.reverse_reverse,
      List.append_assoc,
      List.singleton_append, trimRight]

/-- What is trimmed at the end is blank. -/
theorem exists_trimRight (s : List Char) :
    ∃ tail, s = trimRight s ++ tail ∧ ∀ c ∈ tail, isBlank c = true := by
  refine ⟨(s.reverse.takeWhile isBlank).reverse, ?_, fun c hc => ?_⟩
  · rw [trimRight, ← List.reverse_append, List.takeWhile_append_dropWhile,
      List.reverse_reverse]
  · exact List.mem_takeWhile_imp (List.mem_reverse.mp hc)

/-- Trimming in front first makes no difference. -/
theorem trim_trimLeft (s : List Char) : trim (trimLeft s) = trim s := by
  have hagain : trimLeft (trimLeft s) = trimLeft s :=
    List.dropWhile_idempotent isBlank s
  rw [trim, hagain, trim]

/-- A text without the separator is one piece. -/
theorem pieces_of_not_mem {sep : Char} {s : List Char} (h : sep ∉ s) :
    pieces sep s = [s] := by
  induction s with
  | nil => rfl
  | cons c rest ih =>
    obtain ⟨hc, hrest⟩ := not_or.mp (mt List.mem_cons.mpr h)
    rw [pieces, if_neg (Ne.symm hc), ih hrest]

/-- The first piece ends at the first separator. -/
theorem pieces_append_cons {sep : Char} {front : List Char} (h : sep ∉ front)
    (back : List Char) :
    pieces sep (front ++ sep :: back) = front :: pieces sep back := by
  induction front with
  | nil => rw [List.nil_append, pieces, if_pos rfl]
  | cons c rest ih =>
    obtain ⟨hc, hrest⟩ := not_or.mp (mt List.mem_cons.mpr h)
    rw [List.cons_append, pieces, if_neg (Ne.symm hc), ih hrest]

/-- What is written behind a text without another separator belongs to its
last piece. -/
theorem pieces_append {sep : Char} {tail : List Char} (h : sep ∉ tail)
    (s : List Char) :
    ∃ before last, pieces sep s = before ++ [last] ∧
      pieces sep (s ++ tail) = before ++ [last ++ tail] := by
  induction s with
  | nil => exact ⟨[], [], rfl, pieces_of_not_mem h⟩
  | cons c rest ih =>
    obtain ⟨before, last, hrest, hmore⟩ := ih
    rw [List.cons_append, pieces, pieces, hrest, hmore]
    by_cases hc : c = sep
    · rw [if_pos hc, if_pos hc]
      exact ⟨[] :: before, last, rfl, rfl⟩
    · rw [if_neg hc, if_neg hc]
      cases before with
      | nil => exact ⟨[], c :: last, rfl, rfl⟩
      | cons first others => exact ⟨(c :: first) :: others, last, rfl, rfl⟩

/-- Blanks at the end of a text do not count if its pieces are trimmed. -/
theorem map_trim_pieces_trimRight {sep : Char} (hsep : isBlank sep = false)
    (s : List Char) :
    (pieces sep (trimRight s)).map trim = (pieces sep s).map trim := by
  obtain ⟨tail, hs, hblank⟩ := exists_trimRight s
  have htail : sep ∉ tail := fun hmem => by
    rw [hblank sep hmem] at hsep; cases hsep
  obtain ⟨before, last, hfirst, hall⟩ := pieces_append htail (trimRight s)
  have hlast : trim (last ++ tail) = trim last :=
    Padded.trim_eq ⟨[], tail, by rw [List.nil_append], fun c hc =>
      hblank c hc⟩
  rw [← hs] at hall
  rw [hfirst, hall, List.map_append, List.map_append, List.map_singleton,
    List.map_singleton, hlast]

end Text

namespace Pattern

open Text

/-! ## What a token carries -/

/-- Labels with blanks around them, and blank texts between them. -/
inductive Scattered : List String → List (List Char) → Prop
  | nil : Scattered [] []
  | label {label : String} {labels : List String} {part : List Char}
      {parts : List (List Char)}
      (around : Padded label.toList part) (rest : Scattered labels parts) :
      Scattered (label :: labels) (part :: parts)
  | blank {labels : List String} {part : List Char} {parts : List (List Char)}
      (hblank : ∀ c ∈ part, isBlank c = true)
      (rest : Scattered labels parts) :
      Scattered labels (part :: parts)

/-- The texts that are not blank, trimmed. -/
def kept (texts : List (List Char)) : List String :=
  (texts.map trim).filterMap fun text =>
    if text.isEmpty then none else some (String.ofList text)

/-- What is kept of two lists of texts is what is kept of both. -/
theorem kept_append (texts more : List (List Char)) :
    kept (texts ++ more) = kept texts ++ kept more := by
  rw [kept, List.map_append, List.filterMap_append, kept, kept]

/-- Nothing is kept of a blank text. -/
theorem kept_of_blank {text : List Char} (h : ∀ c ∈ text, isBlank c = true) :
    kept [text] = [] := by
  have hnil : trim text = [] := trim_eq_nil_iff.mpr h
  rw [kept, List.map_singleton, hnil]
  rfl

/-- A padded label is kept as it is. -/
theorem kept_of_padded {label : String} (hlabel : Proper label)
    {text : List Char} (h : Padded label.toList text) :
    kept [text] = [label] := by
  have htrim : trim text = label.toList := h.trim_eq.trans hlabel.tidy.trim_eq
  have hne : label.toList.isEmpty = false := by simpa using hlabel.ne_nil
  rw [kept, List.map_singleton, htrim, List.filterMap_cons, hne]
  simp

/-- **Labels among blanks are kept as they are.** -/
theorem Scattered.kept_eq {labels : List String} {parts : List (List Char)}
    (h : Scattered labels parts) (hlabels : ∀ label ∈ labels, Proper label) :
    kept parts = labels := by
  induction h with
  | nil => rfl
  | @label label labels part parts around rest ih =>
    have hrest := ih fun other hother =>
      hlabels other (List.mem_cons_of_mem label hother)
    rw [← List.singleton_append, kept_append, hrest,
      kept_of_padded (hlabels label List.mem_cons_self) around]
    rfl
  | @blank labels part parts hblank rest ih =>
    rw [← List.singleton_append, kept_append, kept_of_blank hblank,
      ih hlabels, List.nil_append]

/-- A blank text has no colon. -/
theorem noColon_of_blank {part : List Char}
    (h : ∀ c ∈ part, isBlank c = true) : ':' ∉ part :=
  fun hmem => absurd (h ':' hmem) (by decide)

/-- A padded text has no colon if the text has none. -/
theorem noColon_of_padded {text part : List Char} (h : Padded text part)
    (htext : ':' ∉ text) :
    ':' ∉ part := by
  obtain ⟨front, back, rfl, hblank⟩ := h
  have hcolon := noColon_of_blank hblank
  simp only [List.mem_append, not_or] at hcolon ⊢
  exact ⟨⟨hcolon.1, htext⟩, hcolon.2⟩

/-- Labels without colons have none among blanks. -/
theorem Scattered.noColon {labels : List String} {parts : List (List Char)}
    (h : Scattered labels parts)
    (hlabels : ∀ label ∈ labels, ':' ∉ label.toList) :
    ∀ part ∈ parts, ':' ∉ part := by
  induction h with
  | nil => exact List.forall_mem_nil _
  | @label label labels part parts around rest ih =>
    refine List.forall_mem_cons.mpr ⟨?_, ih fun other hother => ?_⟩
    · exact noColon_of_padded around (hlabels label List.mem_cons_self)
    · exact hlabels other (List.mem_cons_of_mem label hother)
  | @blank labels part parts hblank rest ih =>
    exact List.forall_mem_cons.mpr ⟨noColon_of_blank hblank, ih hlabels⟩

/-- Where there are labels there are parts. -/
theorem Scattered.ne_nil {labels : List String} {parts : List (List Char)}
    (h : Scattered labels parts) (hlabels : labels ≠ []) : parts ≠ [] := by
  cases h with
  | nil => exact absurd rfl hlabels
  | label around rest => exact List.cons_ne_nil _ _
  | blank hblank rest => exact List.cons_ne_nil _ _

/-- The labels of an element are its tokens that are not blank, trimmed. -/
theorem labels_eq_kept (given : LabelArgument) :
    given.labels = kept (given.tokens.map String.toList) := by
  rw [LabelArgument.labels]
  induction given.tokens with
  | nil => rfl
  | cons token rest ih =>
    have hsplit : kept ((token :: rest).map String.toList) =
        kept [token.toList] ++ kept (rest.map String.toList) :=
          kept_append [token.toList] _
    rw [hsplit, ← ih]
    by_cases hblank : isBlankText token = true
    · rw [kept_of_blank (List.all_eq_true.mp hblank),
        List.filter_cons_of_neg (by rw [hblank]; exact Bool.false_ne_true),
        List.nil_append]
    · have hne : trim token.toList ≠ [] := fun hnil =>
        hblank (List.all_eq_true.mpr (trim_eq_nil_iff.mp hnil))
      have hkept : kept [token.toList] = [trimmed token] := by
        rw [kept, List.map_singleton, List.filterMap_cons,
          if_neg (by simpa using hne)]
        rfl
      rw [hkept, List.filter_cons_of_pos (by simpa using hblank),
        List.map_cons,
        List.singleton_append]

/-- A token: a name, and labels behind colons. -/
def tokenOf (own : List Char) (parts : List (List Char)) : List Char :=
  own ++ parts.flatMap fun part => ':' :: part

/-- A token is cut into the parts it is made of. -/
theorem pieces_tokenOf {first : List Char} {others : List (List Char)}
    (h : ∀ part ∈ first :: others, ':' ∉ part) :
    pieces ':' (tokenOf first others) = first :: others := by
  induction others generalizing first with
  | nil => rw [tokenOf, List.flatMap_nil, List.append_nil,
      pieces_of_not_mem (h first List.mem_cons_self)]
  | cons second later ih =>
    have hlater := ih fun part hpart =>
      h part (List.mem_cons_of_mem first hpart)
    rw [tokenOf, List.flatMap_cons, List.cons_append,
      pieces_append_cons (h first List.mem_cons_self)]
    exact congrArg (first :: ·) hlater

/-- A token embeds what stands around its first colon. -/
theorem embedded_eq (text : String) :
    embedded text = (cutAtFirst ':' text.toList).map fun cut =>
      (String.ofList (trim cut.1), kept (pieces ':' cut.2)) := rfl

/-- Blanks around a token do not change what it carries. -/
theorem embedded_trimmed (text : String) :
    embedded (trimmed text) = embedded text := by
  rw [embedded_eq, embedded_eq, trimmed, String.toList_ofList]
  cases hcut : cutAtFirst ':' text.toList with
  | none =>
    have hnone : ':' ∉ trim text.toList := fun hmem =>
      cutAtFirst_eq_none_iff.mp hcut (mem_of_mem_trim hmem)
    rw [cutAtFirst_eq_none_iff.mpr hnone]
  | some cut =>
    obtain ⟨front, back⟩ := cut
    obtain ⟨htext, hfront⟩ := cutAtFirst_eq_some_iff.mp hcut
    have htrimmed : cutAtFirst ':' (trim text.toList) = some (trimLeft front,
        trimRight back) := by
      rw [htext, trim_append_cons (by rfl)]
      exact cutAtFirst_eq_some_iff.mpr
        ⟨rfl, fun hmem =>
          hfront ((List.dropWhile_suffix isBlank).subset hmem)⟩
    rw [htrimmed, Option.map_some, Option.map_some, trim_trimLeft, kept, kept,
      map_trim_pieces_trimRight (by rfl)]

/-- A token without blanks around it, taken apart. -/
theorem embedded_tokenOf {name : String} {own : List Char}
    {labels : List String} {parts : List (List Char)}
    (hname : ':' ∉ name.toList) (htidy : Tidy name.toList)
    (hown : Padded name.toList own) (hlabels : ∀ label ∈ labels, Plain label)
    (hne : labels ≠ []) (hparts : Scattered labels parts) :
    embedded (String.ofList (tokenOf own parts)) = some (name, labels) := by
  obtain ⟨first, others, rfl⟩ :=
    List.exists_cons_of_ne_nil (hparts.ne_nil hne)
  have hcolons := hparts.noColon fun label hlabel =>
    (hlabels label hlabel).noColon
  have hcut : cutAtFirst ':' (tokenOf own (first :: others)) =
      some (own, tokenOf first others) :=
    cutAtFirst_eq_some_iff.mpr ⟨rfl, noColon_of_padded hown hname⟩
  rw [embedded_eq, String.toList_ofList, hcut, Option.map_some,
    pieces_tokenOf hcolons,
    hparts.kept_eq fun label hlabel => (hlabels label hlabel).toProper,
    hown.trim_eq, htidy.trim_eq,
    String.ofList_toList]

/-- A name and labels in one text: the name, then the labels behind colons.
The name may be left out. -/
def SpelledIn (name : String) (labels : List String) (text : String) : Prop :=
  ∃ own parts, Padded name.toList own ∧ Scattered labels parts ∧
  Padded (tokenOf own parts) text.toList

/-- A name is given, or left out. -/
structure Nameable (name : String) : Prop where
  noColon : ':' ∉ name.toList
  tidy : Tidy name.toList

/-- A plain text may be a name. -/
theorem Plain.nameable {name : String} (h : Plain name) : Nameable name :=
  ⟨h.noColon, h.tidy⟩

/-- An empty text may be a name, for no name. -/
theorem nameable_empty : Nameable "" where
  noColon := List.not_mem_nil
  tidy := ⟨nofun, nofun⟩

/-- A spelled token embeds its name and its labels. -/
theorem SpelledIn.embedded_eq {name text : String} {labels : List String}
    (h : SpelledIn name labels text) (hname : Nameable name)
    (hlabels : ∀ label ∈ labels, Plain label) (hne : labels ≠ []) :
    embedded (trimmed text) = some (name, labels) := by
  obtain ⟨own, parts, hown, hparts, htext⟩ := h
  have htrimmed : trimmed text =
      trimmed (String.ofList (tokenOf own parts)) := by
    rw [trimmed, htext.trim_eq, trimmed, String.toList_ofList]
  rw [htrimmed, embedded_trimmed]
  exact embedded_tokenOf hname.noColon hname.tidy hown hlabels hne hparts

/-! ## Names and labels in the arguments of an element -/

/-- No name is given. -/
def Unnamed (name : Option String) : Prop := isBlankText (name.getD "") = true

/-- Nothing is left of a missing name. -/
theorem Unnamed.isEmpty_eq {name : Option String} (h : Unnamed name) :
    (trimmed (name.getD "")).isEmpty = true := by
  have hnil : trim (name.getD "").toList = [] :=
    trim_eq_nil_iff.mpr (List.all_eq_true.mp h)
  rw [trimmed, hnil]
  rfl

/-- The ways to give an element a name and labels.  The name may be left
out. -/
inductive Spelling (name : String) (labels : List String) : LabelArgument →
    Option String → Prop
  /-- All in one token. -/
  | token {text : String} {given : Option String}
      (h : SpelledIn name labels text)
      (unnamed : Unnamed given) : Spelling name labels (.one text) given
  /-- All in the name. -/
  | name {text : String} {given : LabelArgument}
      (h : SpelledIn name labels text)
      (unlabelled : Scattered [] (given.tokens.map String.toList)) :
      Spelling name labels given (some text)
  /-- Apart from each other. -/
  | apart {text : String} {given : LabelArgument}
      (h : Padded name.toList text.toList)
      (scattered : Scattered labels (given.tokens.map String.toList)) :
      Spelling name labels given (some text)
  /-- The name with the first label, in the first token of a list that is not
  blank. -/
  | first {label text : String} {rest before others : List String}
      {given : Option String}
      (hlabels : labels = label :: rest) (h : SpelledIn name [label] text)
      (hbefore : Scattered [] (before.map String.toList))
      (scattered : Scattered rest (others.map String.toList))
      (unnamed : Unnamed given) :
      Spelling name labels (.many (before ++ text :: others)) given

/-- A token with labels is not blank. -/
theorem SpelledIn.kept_eq {name text : String} {labels : List String}
    (h : SpelledIn name labels text) (hne : labels ≠ []) :
    kept [text.toList] = [trimmed text] ∧ (trimmed text).isEmpty = false := by
  obtain ⟨own, parts, -, hparts, htext⟩ := h
  obtain ⟨first, others, rfl⟩ :=
    List.exists_cons_of_ne_nil (hparts.ne_nil hne)
  have hcolon : ':' ∈ tokenOf own (first :: others) :=
    List.mem_append_right own List.mem_cons_self
  have htrim : trim text.toList ≠ [] := by
    intro hnil
    rw [htext.trim_eq, trim_eq_nil_iff] at hnil
    exact noColon_of_blank hnil hcolon
  have hproper : Proper (trimmed text) := Proper.of_trim htrim
  refine ⟨?_, hproper.isEmpty_eq⟩
  rw [kept, List.map_singleton, List.filterMap_cons,
    if_neg (by simpa using htrim)]
  rfl

/-- **The arguments of an element say what they spell.** -/
theorem Spelling.explicitName_eq {name : String} {labels : List String}
    {given : LabelArgument} {own : Option String}
    (h : Spelling name labels given own) (hname : name = "" ∨ Plain name)
    (hlabels : ∀ label ∈ labels, Plain label) (hne : labels ≠ []) :
    explicitName given.labels own = (name, labels) := by
  have hnameable : Nameable name :=
    hname.elim (fun heq => heq ▸ nameable_empty) Plain.nameable
  have hproper : ∀ label ∈ labels, Proper label := fun label hlabel =>
    (hlabels label hlabel).toProper
  rw [labels_eq_kept]
  cases h with
  | @token text _ h unnamed =>
    have htokens : kept ((LabelArgument.one text).tokens.map String.toList) =
        [trimmed text] :=
      (h.kept_eq hne).1
    rw [htokens, ← List.append_nil labels]
    exact Explicit.eq
      (.token unnamed.isEmpty_eq (h.embedded_eq hnameable hlabels hne))
  | @name text _ h unlabelled =>
    rw [unlabelled.kept_eq (List.forall_mem_nil _), ← List.append_nil labels]
    exact Explicit.eq
      (.labelled (h.kept_eq hne).2 (h.embedded_eq hnameable hlabels hne))
  | @apart text _ h scattered =>
    have htrimmed : trimmed text = name := by
      rw [trimmed, h.trim_eq, hnameable.tidy.trim_eq, String.ofList_toList]
    obtain ⟨first, others, rfl⟩ := List.exists_cons_of_ne_nil hne
    rw [scattered.kept_eq hproper]
    apply Explicit.eq
    rw [Option.getD_some, htrimmed]
    rcases hname with rfl | hplain
    · exact .label rfl (hlabels first List.mem_cons_self).embedded_eq
    · exact .name hplain.isEmpty_eq hplain.embedded_eq
  | @first label text rest before others _ hsplit h hbefore scattered
      unnamed =>
    subst hsplit
    have hone : ∀ other ∈ [label], Plain other := fun other hother =>
      List.mem_singleton.mp hother ▸ hlabels label List.mem_cons_self
    have htokens :
        kept ((LabelArgument.many (before ++ text :: others)).tokens.map
          String.toList) =
        trimmed text :: rest := by
      rw [LabelArgument.tokens, List.map_append, List.map_cons, kept_append,
        hbefore.kept_eq (List.forall_mem_nil _), List.nil_append,
        ← List.singleton_append,
        kept_append, (h.kept_eq (List.cons_ne_nil _ _)).1,
        scattered.kept_eq fun other hother =>
          hproper other (List.mem_cons_of_mem label hother),
        List.singleton_append]
    rw [htokens]
    exact Explicit.eq (.token unnamed.isEmpty_eq
      (h.embedded_eq hnameable hone (List.cons_ne_nil _ _)))

/-- With a label, a name that is not told is made of the first one. -/
theorem decode_of_explicitName {given : LabelArgument} {own : Option String}
    {name first : String} {others : List String}
    (h : explicitName given.labels own = (name, first :: others))
    (sort : ElementSort) (names : NameSequence) :
    decode sort given own names =
      ((if name.isEmpty then sort.defaultName first else name,
        first :: others), names) := by
  by_cases hname : name = ""
  · subst hname
    rw [decode_of_label h]
    rfl
  · rw [decode_of_told (by rw [h]; exact hname), h,
      if_neg (by simpa using hname)]

/-- A text of plain characters is plain. -/
theorem Plain.of_all {s : String} (hne : s.toList ≠ [])
    (h : s.toList.all isPlain = true) :
    Plain s := by
  have hboth : ∀ c ∈ s.toList, isBlank c = false ∧ c ≠ ':' := fun c hc => by
    simpa [isPlain] using List.all_eq_true.mp h c hc
  have hproper := Proper.of_forall hne fun c hc => (hboth c hc).1
  rw [String.ofList_toList] at hproper
  exact ⟨hproper, fun hmem => (hboth ':' hmem).2 rfl⟩

/-- **All spellings of a name with labels are decoded alike.**  They give
the name and the labels and draw no anonymous name, whichever way elements
without a name are named.  If the name is left out, they all are decoded
like the labels alone. -/
theorem decode_spelling {labels : List String}
    (hlabels : ∀ label ∈ labels, Plain label) (hne : labels ≠ [])
    (sort : ElementSort) (names : NameSequence) :
    (∀ name given own, Plain name → Spelling name labels given own →
      decode sort given own names = ((name, labels), names)) ∧
    (∀ given own, Spelling "" labels given own →
      decode sort given own names = decode sort (.many labels) none names) ∧
    (decode sort (.many labels) none names).2 = names := by
  obtain ⟨first, others, rfl⟩ := List.exists_cons_of_ne_nil hne
  have halone : explicitName (LabelArgument.many (first :: others)).labels
      none =
      ("", first :: others) := by
    rw [labels_of_proper fun label hlabel => (hlabels label hlabel).toProper]
    exact Explicit.eq
      (.label rfl (hlabels first List.mem_cons_self).embedded_eq)
  refine ⟨fun name given own hname h => ?_, fun given own h => ?_, ?_⟩
  · rw [decode_of_explicitName (h.explicitName_eq (.inr hname) hlabels hne),
      hname.isEmpty_eq]
    rfl
  · rw [decode_of_explicitName (h.explicitName_eq (.inl rfl) hlabels hne),
      decode_of_explicitName halone]
  · rw [decode_of_explicitName halone]

/-- A tab, blanks and a blank label in a token, blank tokens in a list, and
a name of labels alone. -/
theorem decode_spelling_of_scattered :
    decode .node (.one "\t n : A: : B ") none {} = (("n", ["A", "B"]), {}) ∧
      decode .node (.many ["", "n: A", " ", "B "]) none {} =
        (("n", ["A", "B"]), {}) ∧
      decode .relationship .none (some ":A:B") {} =
        decode .relationship (.many ["A", "B"]) none {} := by
  have hn : Plain "n" := .of_all (by decide) (by decide)
  have hlabels : ∀ label ∈ ["A", "B"], Plain label := by
    refine List.forall_mem_cons.mpr ⟨?_, List.forall_mem_singleton.mpr ?_⟩
    · exact .of_all (by decide) (by decide)
    · exact .of_all (by decide) (by decide)
  have hspace : ∀ c ∈ [' '], isBlank c = true := List.all_eq_true.mp rfl
  have hnone : ∀ c ∈ [], isBlank c = true := List.forall_mem_nil _
  have htoken : Spelling "n" ["A", "B"] (.one "\t n : A: : B ") none :=
    .token ⟨[' ', 'n', ' '], [[' ', 'A'], [' '], [' ', 'B']],
      .around [' '] [' '] rfl,
      .label (.around [' '] [] rfl)
        (.blank hspace (.label (.around [' '] [] rfl) .nil)),
      .around ['\t'] [' '] rfl⟩ rfl
  have hlist : Spelling "n" ["A",
      "B"] (.many ([""] ++ "n: A" :: [" ", "B "])) none :=
    .first rfl ⟨['n'], [[' ', 'A']], .refl _,
      .label (.around [' '] [] rfl) .nil, .refl _⟩
      (.blank hnone .nil)
        (.blank hspace (.label (.around [] [' '] rfl) .nil)) rfl
  have hname : Spelling "" ["A", "B"] .none (some ":A:B") :=
    .name ⟨[], [['A'], ['B']], .refl _,
      .label (.refl _) (.label (.refl _) .nil), .refl _⟩ .nil
  obtain ⟨hnamed, -, -⟩ :=
    decode_spelling hlabels (List.cons_ne_nil _ _) .node {}
  obtain ⟨-, hnameless, -⟩ :=
    decode_spelling hlabels (List.cons_ne_nil _ _) .relationship {}
  exact ⟨hnamed _ _ _ hn htoken, hnamed _ _ _ hn hlist, hnameless _ _ hname⟩

end Pattern

end GraphQuery

import GraphQuery.Proofs.Patterns.Repetition
import GraphQuery.Proofs.Patterns.Spellings

/-!
# Markers of directions

A type token marks a direction with a marker in front, behind, or on both
sides.  The one in front stands on the type or on the name the token
carries, which is the same: the markers say the same direction, wherever
they stand and whatever blanks there are, and without them the token carries
the same name and the same type, `direction_of_marked`.  A relationship of a
new name gets this direction, unless it is given another one.

* `Arrowed`, `Marked`: a type with its markers, and a token with a type and
  maybe a name;
* `MarkedToken.ofToken_of_colon`, `MarkedToken.ofToken_of_noColon`: such a
  token taken apart.
-/

namespace GraphQuery

namespace Text

variable {c : Char} {s : List Char}

/-- A character in front is dropped. -/
theorem dropLeading_cons (c : Char) (s : List Char) :
    dropLeading c (c :: s) = s := if_pos rfl

/-- If it is not there nothing is. -/
theorem dropLeading_of_head?_ne (h : s.head? ≠ some c) :
    dropLeading c s = s := by
  cases s with
  | nil => rfl
  | cons d rest => exact if_neg fun heq => h (congrArg some heq)

/-- It is dropped from the first of two texts. -/
theorem dropLeading_append (hs : s ≠ []) (more : List Char) :
    dropLeading c (s ++ more) = dropLeading c s ++ more := by
  obtain ⟨d, rest, rfl⟩ := List.exists_cons_of_ne_nil hs
  rw [List.cons_append, dropLeading, dropLeading]
  split <;> rfl

/-- A character at the end is dropped. -/
theorem dropTrailing_concat (c : Char) (s : List Char) :
    dropTrailing c (s ++ [c]) = s := by
  rw [dropTrailing, List.reverse_append, List.reverse_singleton,
    List.singleton_append,
    dropLeading_cons, List.reverse_reverse]

/-- If it is not there nothing is. -/
theorem dropTrailing_of_getLast?_ne (h : s.getLast? ≠ some c) :
    dropTrailing c s = s := by
  rw [dropTrailing, dropLeading_of_head?_ne (by rwa [List.head?_reverse]),
    List.reverse_reverse]

/-- Nothing is trimmed from the front of a tidy text. -/
theorem Tidy.trimLeft_append (h : Tidy s) (hs : s ≠ []) (back : List Char) :
    trimLeft (s ++ back) = s ++ back := by
  obtain ⟨d, rest, rfl⟩ := List.exists_cons_of_ne_nil hs
  have hd : isBlank d = false := h.head d rfl
  exact List.dropWhile_cons_of_neg (by rw [hd]; exact Bool.false_ne_true)

/-- A tidy text is tidy backwards. -/
theorem Tidy.reverse (h : Tidy s) : Tidy s.reverse where
  head d hd := h.last d (by rwa [List.head?_reverse] at hd)
  last d hd := h.head d (by rwa [List.getLast?_reverse] at hd)

/-- Nothing is trimmed from the end of one. -/
theorem Tidy.trimRight_append (h : Tidy s) (hs : s ≠ []) (front : List Char) :
    trimRight (front ++ s) = front ++ s := by
  have hreverse : s.reverse ≠ [] := mt List.reverse_eq_nil_iff.mp hs
  have hkept := h.reverse.trimLeft_append hreverse front.reverse
  rw [trimLeft] at hkept
  rw [trimRight, List.reverse_append, hkept, ← List.reverse_append,
    List.reverse_reverse]

/-- Only the blanks behind are left. -/
theorem Padded.exists_trimLeft {text : List Char} (h : Padded s text)
    (htidy : Tidy s) (hs : s ≠ []) :
    ∃ back, trimLeft text = s ++ back ∧ ∀ d ∈ back, isBlank d = true := by
  obtain ⟨front, back, rfl, hblank⟩ := h
  refine ⟨back, ?_, fun d hd => hblank d (List.mem_append_right front hd)⟩
  rw [List.append_assoc, Text.trimLeft_append fun d hd =>
    hblank d (List.mem_append_left back hd),
    htidy.trimLeft_append hs]

/-- Only the blanks in front are left. -/
theorem Padded.exists_trimRight {text : List Char} (h : Padded s text)
    (htidy : Tidy s) (hs : s ≠ []) :
    ∃ front, trimRight text = front ++ s ∧ ∀ d ∈ front, isBlank d = true := by
  obtain ⟨front, back, rfl, hblank⟩ := h
  refine ⟨front, ?_, fun d hd => hblank d (List.mem_append_left back hd)⟩
  rw [Text.trimRight_append fun d hd =>
    hblank d (List.mem_append_right front hd),
    htidy.trimRight_append hs]

/-- What is padded stays so when it is trimmed in front. -/
theorem Padded.trimLeft {text : List Char} (h : Padded s text)
    (htidy : Tidy s) (hs : s ≠ []) :
    Padded s (trimLeft text) := by
  obtain ⟨back, htext, hback⟩ := h.exists_trimLeft htidy hs
  exact ⟨[], back, htext, hback⟩

/-- What is padded stays so when it is trimmed at the end. -/
theorem Padded.trimRight {text : List Char} (h : Padded s text)
    (htidy : Tidy s) (hs : s ≠ []) :
    Padded s (trimRight text) := by
  obtain ⟨front, htext, hfront⟩ := h.exists_trimRight htidy hs
  exact ⟨front, [], htext.trans (List.append_nil _).symm,
    by rwa [List.append_nil]⟩

end Text

namespace Pattern

open GraphQuery.Computation Text

/-! ## Tokens taken apart -/

namespace MarkedToken

variable {s text : List Char}

/-- A padded token without a colon is a name. -/
theorem ofToken_of_noColon (hs : Tidy s) (hcolon : ':' ∉ s)
    (htext : Padded s text) :
    ofToken text =
      { name := [], colon := false, type := s
        leading := s.head? == some '<', trailing :=
  s.getLast? == some '>' } := by
  have hleft : trimLeft s = s := by
    by_cases hne : s = []
    · rw [hne]
      rfl
    · simpa using hs.trimLeft_append hne []
  simp only [ofToken, htext.trim_eq, hs.trim_eq,
    cutAtFirst_eq_none_iff.mpr hcolon, hleft, Bool.or_self]
  rfl

/-- A name and a type, each with the markers that stand on it. -/
theorem ofToken_of_colon {own part m : List Char} (hm : Tidy m)
    (hmne : m ≠ []) (hcolon : ':' ∉ m) (hown : Padded m own) (hs : Tidy s)
    (hsne : s ≠ []) (hpart : Padded s part) :
    ofToken (own ++ ':' :: part) =
      { name := trim (dropLeading '<' m), colon := true, type := s
        leading := m.head? == some '<' || s.head? == some '<'
        trailing := s.getLast? == some '>' } := by
  obtain ⟨back, howned, hback⟩ := hown.exists_trimLeft hm hmne
  obtain ⟨front, htyped, hfront⟩ := hpart.exists_trimRight hs hsne
  have htrim : trim (own ++ ':' :: part) = (m ++ back) ++ ':' ::
      (front ++ s) := by
    rw [trim_append_cons (by rfl), howned, htyped]
  have hcut : cutAtFirst ':' ((m ++ back) ++ ':' :: (front ++ s)) =
      some (m ++ back, front ++ s) := by
    refine cutAtFirst_eq_some_iff.mpr ⟨rfl, fun hmem => ?_⟩
    exact (List.mem_append.mp hmem).elim hcolon (noColon_of_blank hback)
  have hname : trim (dropLeading '<' (m ++ back)) =
      trim (dropLeading '<' m) := by
    rw [dropLeading_append hmne]
    exact Padded.trim_eq ⟨[], back, rfl, hback⟩
  have htype : trim (front ++ s) = s := by
    have hpadded : Padded s (front ++ s) :=
      ⟨front, [], (List.append_nil _).symm, by rwa [List.append_nil]⟩
    rw [hpadded.trim_eq, hs.trim_eq]
  have hbare : trimLeft (front ++ s) = s := by
    rw [Text.trimLeft_append hfront]
    simpa using hs.trimLeft_append hsne []
  have hhead : ((m ++ back) ++ ':' :: (front ++ s)).head? = m.head? := by
    rw [List.append_assoc, List.head?_append_of_ne_nil _ hmne]
  have hlast : ((m ++ back) ++ ':' :: (front ++ s)).getLast? =
      s.getLast? := by
    rw [← List.cons_append, ← List.append_assoc,
      List.getLast?_append_of_ne_nil _ hsne]
  simp only [ofToken, htrim, hcut, hname, htype, hbare, hhead, hlast]

end MarkedToken

/-! ## Types with markers -/

/-- A type that no marker stands on. -/
structure Unmarked (type : String) : Prop extends Plain type where
  head : type.toList.head? ≠ some '<'
  last : type.toList.getLast? ≠ some '>'

/-- A type with the markers of a direction, or without any. -/
inductive Arrowed (type : List Char) : Option Direction → List Char → Prop
  | bare : Arrowed type none type
  | left : Arrowed type (some .rightToLeft) ('<' :: type)
  | right : Arrowed type (some .leftToRight) (type ++ ['>'])
  | both : Arrowed type (some .any) ('<' :: (type ++ ['>']))

namespace Arrowed

variable {type : String} {direction : Option Direction} {s : List Char}

/-- Something is left of a type with an arrow. -/
theorem ne_nil (h : Arrowed type.toList direction s)
    (htype : Unmarked type) : s ≠ [] := by
  cases h with
  | bare => exact htype.ne_nil
  | left | both => exact List.cons_ne_nil _ _
  | right => exact List.concat_ne_nil _ _

/-- A type with an arrow is tidy. -/
theorem tidy (h : Arrowed type.toList direction s) (htype : Unmarked type) :
    Tidy s := by
  have hless : isBlank '<' = false := by rfl
  have hgreater : isBlank '>' = false := by rfl
  cases h with
  | bare => exact htype.tidy
  | left =>
    refine ⟨fun c hc => ?_, fun c hc => htype.tidy.last c ?_⟩
    · cases hc
      exact hless
    · rwa [← List.singleton_append,
        List.getLast?_append_of_ne_nil _ htype.ne_nil] at hc
  | right =>
    refine ⟨fun c hc => htype.tidy.head c ?_, fun c hc => ?_⟩
    · rwa [List.head?_append_of_ne_nil _ htype.ne_nil] at hc
    · rw [List.getLast?_concat] at hc
      cases hc
      exact hgreater
  | both =>
    refine ⟨fun c hc => ?_, fun c hc => ?_⟩
    · cases hc
      exact hless
    · rw [← List.cons_append, List.getLast?_concat] at hc
      cases hc
      exact hgreater

/-- It has no colon. -/
theorem noColon (h : Arrowed type.toList direction s)
    (htype : Unmarked type) : ':' ∉ s := by
  have hcolon := htype.noColon
  cases h <;> simp [hcolon]

/-- The markers say their direction. -/
theorem ofMarkers_eq (h : Arrowed type.toList direction s)
    (htype : Unmarked type) :
    Direction.ofMarkers (s.head? == some '<')
    (s.getLast? == some '>') = direction := by
  have hhead : (type.toList.head? == some '<') = false :=
    beq_eq_false_iff_ne.mpr htype.head
  have hlast : (type.toList.getLast? == some '>') = false :=
    beq_eq_false_iff_ne.mpr htype.last
  cases h with
  | bare =>
    rw [hhead, hlast]
    rfl
  | left =>
    rw [← List.singleton_append,
      List.getLast?_append_of_ne_nil _ htype.ne_nil, hlast]
    rfl
  | right =>
    rw [List.head?_append_of_ne_nil _ htype.ne_nil, hhead,
      List.getLast?_concat]
    rfl
  | both =>
    rw [← List.cons_append, List.getLast?_concat]
    rfl

/-- Without its markers it is the type. -/
theorem bare_eq (h : Arrowed type.toList direction s)
    (htype : Unmarked type) :
    trim (dropTrailing '>' (dropLeading '<' s)) = type.toList := by
  have hright : dropTrailing '>' type.toList = type.toList :=
    dropTrailing_of_getLast?_ne htype.last
  have hleft : dropLeading '<' type.toList = type.toList :=
    dropLeading_of_head?_ne htype.head
  have htrim := htype.tidy.trim_eq
  cases h with
  | bare => rw [hleft, hright, htrim]
  | left => rw [dropLeading_cons, hright, htrim]
  | right => rw [dropLeading_append htype.ne_nil, hleft, dropTrailing_concat,
      htrim]
  | both => rw [dropLeading_cons, dropTrailing_concat, htrim]

end Arrowed

/-! ## Tokens with markers -/

/-- A token that carries a type and maybe a name, with the markers of a
direction.  The marker in front stands on the type or on the name; there may
be blanks around the token and around the colon. -/
inductive Marked (type : String) : Option String → Option Direction →
    String → Prop
  | alone {direction : Option Direction} {s : List Char} {token : String}
      (h : Arrowed type.toList direction s) (around : Padded s token.toList) :
      Marked type none direction token
  | named {direction : Option Direction} {s own part : List Char}
      {name token : String}
      (h : Arrowed type.toList direction s) (hown : Padded name.toList own)
      (hpart : Padded s part)
      (htoken : token.toList = own ++ ':' :: part) :
    Marked type (some name) direction token
  | left {own part : List Char} {name token : String}
      (hown : Padded ('<' :: name.toList) own)
      (hpart : Padded type.toList part)
      (htoken : token.toList = own ++ ':' :: part) :
      Marked type (some name) (some .rightToLeft) token
  | both {own part : List Char} {name token : String}
      (hown : Padded ('<' :: name.toList) own)
      (hpart : Padded (type.toList ++ ['>']) part)
      (htoken : token.toList = own ++ ':' :: part) :
      Marked type (some name) (some .any) token

/-- A name that no marker stands on. -/
structure UnmarkedName (name : String) : Prop extends Plain name where
  head : name.toList.head? ≠ some '<'

namespace UnmarkedName

variable {name : String}

/-- A name with a marker in front is tidy. -/
theorem tidy_marked (h : UnmarkedName name) : Tidy ('<' :: name.toList) := by
  refine ⟨fun c hc => ?_, fun c hc => h.tidy.last c ?_⟩
  · cases hc
    rfl
  · rwa [← List.singleton_append,
      List.getLast?_append_of_ne_nil _ h.ne_nil] at hc

/-- It has no colon. -/
theorem noColon_marked (h : UnmarkedName name) :
    ':' ∉ '<' :: name.toList := by
  simp [h.noColon]

end UnmarkedName

/-- The token of a type and maybe a name, without markers and blanks. -/
def bareToken (name : Option String) (type : String) : List Char :=
  (name.elim [] fun own => own.toList ++ [':']) ++ type.toList

/-- A name and a type make a token without a marker. -/
theorem marked_bareToken (name : Option String) (type : String) :
    Marked type name none (String.ofList (bareToken name type)) := by
  cases name with
  | none => exact .alone .bare ⟨[], [], by simp [bareToken],
      List.forall_mem_nil _⟩
  | some own => exact .named .bare (.refl _) (.refl _) (by simp [bareToken])

namespace Marked

variable {type token : String} {name : Option String}
    {direction : Option Direction}

/-- A token taken apart says its direction, and without its markers it
carries its name and its type.  A marker stands on the type, or on the name,
or on both of them. -/
theorem ofToken (h : Marked type name direction token) (htype : Unmarked type)
    (hname : ∀ own ∈ name, UnmarkedName own) :
    (MarkedToken.ofToken token.toList).direction = direction ∧
      (MarkedToken.ofToken token.toList).cleaned = bareToken name type := by
  have hempty : type.toList.isEmpty = false := by simpa using htype.ne_nil
  have hkept : ∀ own,
      UnmarkedName own → trim (dropLeading '<' own.toList) = own.toList := by
    intro own hown
    rw [dropLeading_of_head?_ne hown.head, hown.tidy.trim_eq]
  have hbare : ∀ own,
      UnmarkedName own → (own.toList.head? == some '<') = false :=
    fun own hown => beq_eq_false_iff_ne.mpr hown.head
  cases h with
  | @alone _ s _ h around =>
    rw [MarkedToken.ofToken_of_noColon (h.tidy htype)
      (h.noColon htype) around,
      MarkedToken.direction, MarkedToken.cleaned]
    dsimp only
    rw [h.ofMarkers_eq htype, h.bare_eq htype, hempty]
    exact ⟨rfl, rfl⟩
  | @named _ s own part k _ h hown hpart htoken =>
    have hk := hname k rfl
    rw [htoken, MarkedToken.ofToken_of_colon hk.tidy hk.ne_nil hk.noColon
      hown (h.tidy htype)
      (h.ne_nil htype) hpart, MarkedToken.direction, MarkedToken.cleaned]
    dsimp only
    rw [hbare k hk, Bool.false_or, h.ofMarkers_eq htype, h.bare_eq htype,
      hempty, hkept k hk]
    exact ⟨rfl, rfl⟩
  | @left own part k _ hown hpart htoken =>
    have hk := hname k rfl
    have hlast : (type.toList.getLast? == some '>') = false :=
      beq_eq_false_iff_ne.mpr htype.last
    have hsame := Arrowed.bare.bare_eq htype
    rw [htoken, MarkedToken.ofToken_of_colon hk.tidy_marked
      (List.cons_ne_nil _ _) hk.noColon_marked
      hown htype.tidy htype.ne_nil hpart, MarkedToken.direction,
      MarkedToken.cleaned]
    dsimp only
    rw [hlast, hsame, hempty, dropLeading_cons, hk.tidy.trim_eq]
    exact ⟨rfl, rfl⟩
  | @both own part k _ hown hpart htoken =>
    have hk := hname k rfl
    have hright : Arrowed type.toList (some .leftToRight)
        (type.toList ++ ['>']) := .right
    rw [htoken, MarkedToken.ofToken_of_colon hk.tidy_marked
      (List.cons_ne_nil _ _) hk.noColon_marked
      hown (hright.tidy htype) (hright.ne_nil htype) hpart,
      MarkedToken.direction, MarkedToken.cleaned]
    dsimp only
    rw [hright.bare_eq htype, hempty, dropLeading_cons, hk.tidy.trim_eq,
      List.getLast?_concat]
    exact ⟨rfl, rfl⟩

/-- A marked token is not blank. -/
theorem trim_ne_nil (h : Marked type name direction token)
    (htype : Unmarked type) :
    trim token.toList ≠ [] := by
  have hcolon : ∀ own part : List Char, trim (own ++ ':' :: part) ≠ [] := by
    intro own part
    rw [trim_append_cons (by rfl)]
    exact List.append_ne_nil_of_right_ne_nil _ (List.cons_ne_nil _ _)
  cases h with
  | alone h around =>
    rw [around.trim_eq, (h.tidy htype).trim_eq]
    exact h.ne_nil htype
  | named _ _ _ htoken | left _ _ htoken | both _ _ htoken =>
    rw [htoken]
    exact hcolon _ _

/-- A token with a type and maybe a name, among the types that are given. -/
theorem labels_eq (h : Marked type name direction token)
    (htype : Unmarked type) {given : LabelArgument} {further : List String}
    (hfurther : ∀ other ∈ further, Proper other)
    (hgiven : given.tokens = token :: further) :
    given.labels = trimmed token :: further := by
  have htoken : isBlankText token = false := by
    rw [Bool.eq_false_iff]
    exact fun hblank =>
      h.trim_ne_nil htype (trim_eq_nil_iff.mpr (List.all_eq_true.mp hblank))
  have hothers := labels_of_proper hfurther
  rw [LabelArgument.labels, LabelArgument.tokens] at hothers
  rw [LabelArgument.labels, hgiven,
    List.filter_cons_of_pos (by rw [htoken]; rfl), List.map_cons,
    hothers]

/-- Blanks around a token do not matter. -/
theorem trimmed (h : Marked type name direction token)
    (htype : Unmarked type) (hname : ∀ own ∈ name, UnmarkedName own) :
    Marked type name direction (trimmed token) := by
  have hchars : ∀ own part, token.toList = own ++ ':' :: part →
      (Text.trimmed token).toList = trimLeft own ++ ':' ::
        trimRight part := by
    intro own part htoken
    rw [Text.trimmed, String.toList_ofList, htoken, trim_append_cons (by rfl)]
  cases h with
  | @alone _ s _ h around =>
    have htidy := h.tidy htype
    refine .alone h ⟨[], [], ?_, List.forall_mem_nil _⟩
    rw [Text.trimmed, String.toList_ofList, around.trim_eq, htidy.trim_eq]
    exact (List.append_nil _).symm
  | named h hown hpart htoken =>
    have hk := hname _ rfl
    exact .named h (hown.trimLeft hk.tidy hk.ne_nil)
      (hpart.trimRight (h.tidy htype) (h.ne_nil htype))
      (hchars _ _ htoken)
  | left hown hpart htoken =>
    have hk := hname _ rfl
    exact .left (hown.trimLeft hk.tidy_marked (List.cons_ne_nil _ _))
      (hpart.trimRight htype.tidy htype.ne_nil) (hchars _ _ htoken)
  | both hown hpart htoken =>
    have hk := hname _ rfl
    have hright : Arrowed type.toList (some .leftToRight)
        (type.toList ++ ['>']) := .right
    exact .both (hown.trimLeft hk.tidy_marked (List.cons_ne_nil _ _))
      (hpart.trimRight (hright.tidy htype) (hright.ne_nil htype))
        (hchars _ _ htoken)

/-- The types without the markers of the first one. -/
theorem extractDirection_eq (h : Marked type name direction token)
    (htype : Unmarked type) (hname : ∀ own ∈ name, UnmarkedName own)
    (further : List String) :
    ∃ cleaned, Marked type name none cleaned ∧
      extractDirection (token :: further) =
        (cleaned :: further, direction) := by
  obtain ⟨hdirection, hcleaned⟩ := h.ofToken htype hname
  have hne : (bareToken name type).isEmpty = false := by
    rw [List.isEmpty_eq_false_iff]
    exact List.append_ne_nil_of_right_ne_nil _ htype.ne_nil
  rw [extractDirection]
  dsimp only
  rw [hdirection, hcleaned, hne]
  cases direction with
  | none => exact ⟨token, h, rfl⟩
  | some marked => exact ⟨_, marked_bareToken name type, rfl⟩

/-- A token without markers carries a name and a type. -/
theorem explicitName_eq (h : Marked type name none token)
    (htype : Unmarked type) (hname : ∀ own ∈ name, UnmarkedName own)
    (further : List String) :
    explicitName (Text.trimmed token :: further) none =
      (name.getD "", type :: further) := by
  cases h with
  | alone h around =>
    cases h
    have htoken : Text.trimmed token = type := by
      rw [Text.trimmed, around.trim_eq, htype.tidy.trim_eq,
        String.ofList_toList]
    rw [htoken]
    exact Explicit.eq (.label rfl htype.embedded_eq)
  | @named _ s own part k _ h hown hpart htoken =>
    cases h
    have hspelled : SpelledIn k [type] token :=
      ⟨own, [part], hown, .label hpart .nil, [], [],
        by simp [htoken, tokenOf], List.forall_mem_nil _⟩
    have hlabels : ∀ label ∈ [type], Plain label := fun label hlabel =>
      List.mem_singleton.mp hlabel ▸ htype.toPlain
    exact Explicit.eq
      (.token rfl (hspelled.embedded_eq (hname k rfl).nameable hlabels
        (List.cons_ne_nil _ _)))

/-- A token without a marker is read as its name and its type. -/
theorem decode_eq (h : Marked type name none token) (htype : Unmarked type)
    (hname : ∀ own ∈ name, UnmarkedName own) {further : List String}
    (hfurther : ∀ other ∈ further, Proper other) (sort : ElementSort)
    (names : NameSequence) :
    decode sort (.many (token :: further)) none names =
      ((name.getD (sort.defaultName type), type :: further), names) := by
  have hexplicit :
      explicitName (LabelArgument.many (token :: further)).labels none =
      (name.getD "", type :: further) := by
    rw [h.labels_eq htype hfurther rfl]
    exact h.explicitName_eq htype hname further
  rw [decode_of_explicitName hexplicit]
  cases name with
  | none => rfl
  | some own =>
    rw [Option.getD_some, (hname own rfl).isEmpty_eq]
    rfl

/-- The direction that is marked among the types given to a relationship. -/
theorem direction_of_tokens (h : Marked type name direction token)
    (htype : Unmarked type) (hname : ∀ own ∈ name, UnmarkedName own)
    {given : LabelArgument} {further : List String}
    (hfurther : ∀ other ∈ further, Proper other)
    (hgiven : given.tokens = token :: further) :
    (extractDirection given.labels).2 = direction := by
  obtain ⟨cleaned, -, hextracted⟩ :=
    (h.trimmed htype hname).extractDirection_eq htype hname further
  rw [h.labels_eq htype hfurther hgiven, hextracted]

end Marked

/-! ## Relationships of new names -/

/-- What has been added is found under its name. -/
theorem Store.find?_pushNamed (s : Store) (name : String) (entry : Entry) :
    (s.pushNamed name entry).find? name = some entry := by
  rw [find?, pushNamed]
  dsimp only
  rw [lookup_putEntry_self]
  exact List.getElem?_concat_length

namespace StoreCall

/-- The relationship a call declares is made as it is given, if its name is
new and none of the ends takes it. -/
theorem applyAll_relationship_iff {new : Relationship} {intent : Intent}
    {ends : List Declaration} {s t : Store} (hs : s.Indexed)
    (hnew : s.find? new.name = none)
    (hends : ∀ d ∈ ends, ∃ own labels properties intent,
      d = .node own labels properties intent) :
    s.applyAll (ends ++ [.relationship new intent]) = .ok t ↔
      ∃ u, s.applyAll ends = .ok u ∧ u.find? new.name = none ∧
        t = u.pushNamed new.name ⟨.relationship new, intent⟩ := by
  rw [Store.applyAll_append_eq_ok]
  refine exists_congr fun u => and_congr_right fun happly => ?_
  rw [Store.applyAll_singleton, Declaration.apply, Declaration.map_snd_eq_ok]
  constructor
  · rintro ⟨e, hdeclared⟩
    have hunused : u.find? new.name = none := by
      rw [hs.find?_applyAll_of_nodes hends happly
        (Store.rank_of_declareRelationship hdeclared), hnew]
    rw [Store.declareRelationship_of_new hunused] at hdeclared
    cases hdeclared
    exact ⟨hunused, rfl⟩
  · rintro ⟨hunused, rfl⟩
    exact ⟨_, Store.declareRelationship_of_new hunused intent⟩

/-- A relationship of a new name is registered if its ends are and neither
takes the name, and then it stands in the store as it is given.  A call that
fails has stopped at one of its declarations. -/
theorem matchRelationship_of_unused {r : Registry} (hr : r.store.Indexed)
    (left right : Option String) (given : LabelArgument)
    (name : Option String) (direction : Option Direction) (optional : Bool)
    {new : Relationship}
    (hgiven : relationshipGiven left right given name direction
      (.matching optional) [] r.names = new)
    (hnew : r.store.find? new.name = none) :
    let call := matchRelationship left right given name direction optional
    ((∃ answer s, exec call.perform r = (.ok answer, s)) ↔
        ∃ t, r.store.applyAll (call.ends r.names) = .ok t ∧
        t.find? new.name = none) ∧
      ∀ answer s, exec call.perform r = (.ok answer, s) →
        s.store.find? new.name =
          some ⟨.relationship new, .matching optional⟩ := by
  intro call
  have hnodes : ∀ d ∈ call.ends r.names,
      ∃ own labels properties intent,
        d = .node own labels properties intent := by
    intro d hd
    obtain ⟨own, labels, intent, rfl, -⟩ := labelled_of_mem_ends hd
    exact ⟨own, labels, [], intent, rfl⟩
  have hdeclarations : call.declarations r.names =
      call.ends r.names ++ [.relationship new (.matching optional)] := by
    rw [← hgiven]
    rfl
  have happly : ∀ {t}, r.store.applyAll (call.declarations r.names) = .ok t ↔
      ∃ u, r.store.applyAll (call.ends r.names) = .ok u ∧
      u.find? new.name = none ∧
        t = u.pushNamed new.name ⟨.relationship new, .matching optional⟩ := by
    rw [hdeclarations]
    exact applyAll_relationship_iff hr hnew hnodes
  refine ⟨⟨?_, ?_⟩, ?_⟩
  · rintro ⟨answer, s, hok⟩
    obtain ⟨t, hends, hunused, -⟩ := happly.mp (applyAll_of_perform hok)
    exact ⟨t, hends, hunused⟩
  · rintro ⟨t, hends, hunused⟩
    have hall := happly.mpr ⟨t, hends, hunused, rfl⟩
    rcases hexec : exec call.perform r with ⟨fault | answer, s⟩
    · have hstops : StopsIn (call.declarations r.names) r.store s.store
          fault :=
        Registration.stopsIn_of_relationship
          (Registration.error_of_answer hexec)
      exact absurd hall (hstops.applyAll_ne_ok _)
    · exact ⟨answer, s, rfl⟩
  · intro answer s hok
    obtain ⟨t, -, -, hstore⟩ := happly.mp (applyAll_of_perform hok)
    rw [hstore]
    exact Store.find?_pushNamed t new.name _

end StoreCall

/-- **Markers of a direction mean the same wherever they stand.**  A token
of a type, and maybe of a name, that is marked on either side says its
direction, and without the markers it is decoded to the name, or the one
made of the type, and to the type with the further ones behind it.  A token
without markers is decoded alike and says no direction.  A relationship that
is given such types and gets a name not in use is registered if its ends can
be and do not take the name, and it has the direction it is given, else the
marked one, else from left to right. -/
theorem direction_of_marked {type token : String} {name : Option String}
    {direction : Option Direction} {further : List String}
    (htype : Unmarked type) (hname : ∀ own ∈ name, UnmarkedName own)
    (hfurther : ∀ other ∈ further, Proper other)
    (h : Marked type name direction token) :
    hasDirectionMarker token = direction.isSome ∧
    (∃ types, extractDirection (token :: further) = (types, direction) ∧
      ∀ names, decode .relationship (.many types) none names =
        ((name.getD (defaultRelationshipName type), type :: further),
          names)) ∧
    ∀ (r : Registry) (left right given own explicit optional),
      LabelArgument.tokens given = token :: further → r.store.Indexed →
      let call :=
        StoreCall.matchRelationship left right given own explicit optional
      let leftEnd := endDeclarations left (.matching optional) r.names
      let rightEnd := endDeclarations right (.matching optional) leftEnd.names
      let resolved := relationshipName given own rightEnd.names
      r.store.find? resolved = none →
      ((∃ answer s, exec call.perform r = (.ok answer, s)) ↔
        ∃ t, r.store.applyAll (call.ends r.names) = .ok t ∧
        t.find? resolved = none) ∧
      ∀ answer s, exec call.perform r = (.ok answer, s) →
        ∃ stored, s.store.find? resolved =
          some ⟨.relationship stored, .matching optional⟩ ∧
          stored.direction = (explicit <|> direction).getD .leftToRight := by
  refine ⟨?_, ?_, ?_⟩
  · rw [hasDirectionMarker, (h.ofToken htype hname).1]
  · obtain ⟨cleaned, hbare, hextracted⟩ :=
      h.extractDirection_eq htype hname further
    exact ⟨_, hextracted, hbare.decode_eq htype hname hfurther .relationship⟩
  · intro r left right given own explicit optional hgiven hr call leftEnd
        rightEnd resolved hnew
    have hnamed := StoreCall.name_relationshipGiven left right given own
      explicit (.matching optional)
      [] r.names
    have hdirection : (StoreCall.relationshipGiven left right given own
        explicit (.matching optional) []
        r.names).direction = (explicit <|> direction).getD .leftToRight := by
      rw [StoreCall.relationshipGiven,
        h.direction_of_tokens htype hname hfurther hgiven]
    generalize hnew' : StoreCall.relationshipGiven left right given own
        explicit
      (.matching optional) [] r.names = new at hnamed hdirection
    obtain ⟨hok, hstored⟩ :=
      StoreCall.matchRelationship_of_unused hr left right given own explicit
      optional hnew' (by rw [hnamed]; exact hnew)
    rw [hnamed] at hok hstored
    exact ⟨hok, fun answer s hexec =>
      ⟨new, hstored answer s hexec, hdirection⟩⟩

/-- A marker on the name and one behind the type, with blanks around them. -/
theorem direction_of_marked_around :
    let types := ["\t<k : KNOWS> ", "LIKES"]
    let call :=
      StoreCall.matchRelationship none none (.many types) none none false
    hasDirectionMarker "\t<k : KNOWS> " = true ∧
      (∃ cleaned, extractDirection types = (cleaned, some .any) ∧
        decode .relationship (.many cleaned) none {} =
          (("k", ["KNOWS", "LIKES"]), {})) ∧
      ∃ answer s stored, exec call.perform {} = (.ok answer, s) ∧
        s.store.find? "k" = some ⟨.relationship stored, .toMatch⟩ ∧
        stored.direction = .any := by
  intro types call
  have htype : Unmarked "KNOWS" :=
    ⟨.of_all (by decide) (by decide), by decide, by decide⟩
  have hname : ∀ own ∈ some "k", UnmarkedName own := by
    rintro own ⟨⟩
    exact ⟨.of_all (by decide) (by decide), by decide⟩
  have hfurther : ∀ other ∈ ["LIKES"], Proper other :=
    List.forall_mem_singleton.mpr
      (Plain.of_all (by decide) (by decide)).toProper
  have hmarked : Marked "KNOWS" (some "k") (some .any) "\t<k : KNOWS> " :=
    .both (.around ['\t'] [' '] rfl) (.around [' '] [' '] rfl) rfl
  obtain ⟨hmarker, ⟨cleaned, hextracted, hdecoded⟩, hregistered⟩ :=
    direction_of_marked htype hname hfurther hmarked
  obtain ⟨hok, hstored⟩ :=
    hregistered {} none none (.many types) none none false rfl
    Store.indexed_empty (by rfl)
  obtain ⟨answer, s, hexec⟩ := hok.mpr ⟨{}, by rfl, by rfl⟩
  obtain ⟨stored, hfound, hdirection⟩ := hstored answer s hexec
  exact ⟨hmarker, ⟨cleaned, hextracted, hdecoded {}⟩, answer, s, stored,
    hexec, hfound, hdirection⟩

end Pattern

end GraphQuery

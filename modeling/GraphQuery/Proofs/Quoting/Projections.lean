import GraphQuery.Builder.Property
import GraphQuery.Proofs.Patterns.Spellings

/-!
# Reading projections back

A projection is written as a property, maybe with a new name behind the word
"as".  It is read as written (`projections_read_back`), with one exception:
in a property of the entry the first point is looked for in the new name
too, and what stands in front of it is then taken for the name of an
element.

* `holdsAs`: the word "as" stands somewhere in a text between two plain
  spaces, so that it would be cut there;
* `IsAs`: the word as it may be written between a key and a new name;
* `projectionOf`: what is read where the element has a name.
-/

namespace GraphQuery

open Pattern Text

/-! ## The word between a key and a new name -/

/-- A text begins with the word "as" between two plain spaces. -/
def beginsWithAs : List Char → Bool
  | before :: a :: s :: after :: _ => before == ' ' && spellsAs a s &&
      after == ' '
  | _ => false

/-- The word "as" stands somewhere in a text between two plain spaces. -/
def holdsAs (text : List Char) : Bool := text.tails.any beginsWithAs

/-- The word stands at the beginning or further on. -/
theorem holdsAs_cons (c : Char) (rest : List Char) :
    holdsAs (c :: rest) = (beginsWithAs (c :: rest) || holdsAs rest) := rfl

/-- The word "as", in any case, between two plain spaces and maybe more
blanks. -/
def IsAs (joint : List Char) : Prop :=
  ∃ front a s back, joint = front ++ ' ' :: a :: s :: ' ' :: back ∧
  spellsAs a s = true ∧
    ∀ c ∈ front ++ back, isBlank c = true

/-- The word is spelled without blanks. -/
theorem isBlank_of_spellsAs {a s : Char} (h : spellsAs a s = true) :
    isBlank a = false ∧ isBlank s = false := by
  simp only [spellsAs, Bool.and_eq_true, Bool.or_eq_true, beq_iff_eq] at h
  obtain ⟨ha, hs⟩ := h
  constructor
  · rcases ha with rfl | rfl <;> rfl
  · rcases hs with (rfl | rfl) | rfl <;> decide

/-- Nothing is found where no word begins. -/
theorem afterAs_eq_none {text : List Char} (h : beginsWithAs text = false) :
    afterAs text = none := by
  unfold afterAs
  split
  · next a s c rest =>
    have hword : spellsAs a s = false := by simpa [beginsWithAs] using h
    rw [hword]
    rfl
  · rfl

/-- A word at the beginning stays there, whatever follows. -/
theorem beginsWithAs_append {text : List Char} (h : beginsWithAs text = true)
    (more : List Char) :
    beginsWithAs (text ++ more) = true := by
  unfold beginsWithAs at h
  split at h
  · exact h
  · cases h

/-- A word anywhere stays there, whatever follows. -/
theorem holdsAs_append {text : List Char} (h : holdsAs text = true)
    (more : List Char) :
    holdsAs (text ++ more) = true := by
  induction text with
  | nil => cases h
  | cons c rest ih =>
    rw [holdsAs_cons, Bool.or_eq_true] at h
    rw [List.cons_append, holdsAs_cons, Bool.or_eq_true]
    rcases h with hhere | hrest
    · exact .inl (beginsWithAs_append hhere more)
    · exact .inr (ih hrest)

/-- A blank behind a text completes no word in it, unless a plain space
does. -/
theorem beginsWithAs_of_blank {text : List Char} (hne : text ≠ [])
    (h : beginsWithAs (text ++ [' ']) = false) {d : Char}
    (hd : isBlank d = true) (more : List Char) :
    beginsWithAs (text ++ d :: more) = false := by
  have hword : ∀ a, spellsAs d a = false ∧ spellsAs a d = false := by
    intro a
    constructor
    · by_contra hspells
      have hblank := (isBlank_of_spellsAs (by simpa using hspells)).1
      rw [hd] at hblank
      cases hblank
    · by_contra hspells
      have hblank := (isBlank_of_spellsAs (by simpa using hspells)).2
      rw [hd] at hblank
      cases hblank
  rcases text with _ | ⟨before, _ | ⟨a, _ | ⟨s, _ | ⟨after, rest⟩⟩⟩⟩
  · exact absurd rfl hne
  · rcases more with _ | ⟨s, _ | ⟨after, rest⟩⟩
    · rfl
    · rfl
    · simp [beginsWithAs, (hword s).1]
  · rcases more with _ | ⟨after, rest⟩
    · rfl
    · simp [beginsWithAs, (hword a).2]
  · have hnone : before = ' ' → spellsAs a s = false := by
      simpa [beginsWithAs] using h
    simp only [List.cons_append, List.nil_append, beginsWithAs]
    by_cases hbefore : before = ' '
    · rw [hnone hbefore, Bool.and_false, Bool.false_and]
    · rw [beq_eq_false_iff_ne.mpr hbefore, Bool.false_and, Bool.false_and]
  · exact h

/-! ## Where a projection is cut -/

/-- Where no word begins, the cut comes later. -/
theorem cutAtAs_cons {c : Char} {rest : List Char}
    (h : beginsWithAs (c :: rest) = false) :
    cutAtAs (c :: rest) = (cutAtAs rest).map fun cut =>
      (c :: cut.1, cut.2) := by
  rw [cutAtAs, afterAs_eq_none h]

/-- Without the word there is no cut. -/
theorem cutAtAs_eq_none {text : List Char} (h : holdsAs text = false) :
    cutAtAs text = none := by
  induction text with
  | nil => rfl
  | cons c rest ih =>
    rw [holdsAs_cons, Bool.or_eq_false_iff] at h
    rw [cutAtAs_cons h.1, ih h.2, Option.map_none]

/-- What is left behind a cut is an end of the text. -/
theorem isSuffix_of_cutAtAs {text front back : List Char}
    (h : cutAtAs text = some (front, back)) :
    back <:+ text := by
  induction text generalizing front with
  | nil => cases h
  | cons c rest ih =>
    rw [cutAtAs] at h
    split at h
    · next name hafter =>
      cases h
      unfold afterAs at hafter
      split at hafter
      · next a s d more hsame =>
        split at hafter
        · cases hafter
          exact ⟨[' ', a, s, ' '], hsame.symm⟩
        · cases hafter
      · cases hafter
    · obtain ⟨cut, hcut, hsame⟩ := Option.map_eq_some_iff.mp h
      cases hsame
      exact (ih hcut).trans (List.suffix_cons c rest)

section

variable {a s : Char} {pad tail : List Char}

/-- Blanks in front of the word stay with what is in front of it. -/
theorem cutAtAs_blanks (hpad : ∀ c ∈ pad, isBlank c = true)
    (hword : spellsAs a s = true) (htail : tail ≠ []) :
    cutAtAs (pad ++ ' ' :: a :: s :: ' ' :: tail) = some (pad, tail) := by
  induction pad with
  | nil =>
    obtain ⟨c, rest, rfl⟩ := List.exists_cons_of_ne_nil htail
    rw [List.nil_append, cutAtAs, afterAs, if_pos hword]
  | cons d pad ih =>
    obtain ⟨-, hrest⟩ := List.forall_mem_cons.mp hpad
    have hbegins : beginsWithAs
        (d :: (pad ++ ' ' :: a :: s :: ' ' :: tail)) = false := by
      cases pad with
      | nil =>
        exact beginsWithAs_of_blank (List.cons_ne_nil d []) rfl (by rfl) _
      | cons e pad =>
        exact beginsWithAs_of_blank (List.cons_ne_nil d []) rfl
          (hrest e List.mem_cons_self) _
    rw [List.cons_append, cutAtAs_cons hbegins, ih hrest, Option.map_some]

/-- **A text is cut at the word written behind a key**, if the word is not
in the key. -/
theorem cutAtAs_append {key : List Char}
    (hkey : holdsAs (key ++ [' ']) = false)
    (hpad : ∀ c ∈ pad, isBlank c = true) (hword : spellsAs a s = true)
    (htail : tail ≠ []) :
    cutAtAs (key ++ (pad ++ ' ' :: a :: s :: ' ' :: tail)) =
      some (key ++ pad, tail) := by
  induction key with
  | nil => exact cutAtAs_blanks hpad hword htail
  | cons c rest ih =>
    rw [List.cons_append, holdsAs_cons, Bool.or_eq_false_iff] at hkey
    have hbegins : beginsWithAs
        (c :: rest ++ (pad ++ ' ' :: a :: s :: ' ' :: tail)) = false := by
      cases pad with
      | nil =>
        exact beginsWithAs_of_blank (List.cons_ne_nil c rest) hkey.1 (by rfl) _
      | cons d pad =>
        exact beginsWithAs_of_blank (List.cons_ne_nil c rest) hkey.1
          (hpad d List.mem_cons_self) _
    rw [List.cons_append] at hbegins ⊢
    rw [cutAtAs_cons hbegins, ih hkey.2, Option.map_some, List.cons_append]

end

/-- Without the word there is no new name. -/
theorem keyAndAlias_eq_none {key : List Char}
    (h : holdsAs (key ++ [' ']) = false) :
    keyAndAlias key = none := by
  cases key with
  | nil => rfl
  | cons c rest =>
    rw [List.cons_append, holdsAs_cons, Bool.or_eq_false_iff] at h
    have hrest : holdsAs rest = false := by
      by_contra hholds
      rw [holdsAs_append (by simpa using hholds)] at h
      cases h.2
    rw [keyAndAlias, cutAtAs_eq_none hrest, Option.map_none]

/-- A new name is shorter than the text it is read off. -/
theorem length_of_keyAndAlias {text key name : List Char}
    (h : keyAndAlias text = some (key, name)) :
    name.length ≤ text.length := by
  cases text with
  | nil => cases h
  | cons c rest =>
    obtain ⟨cut, hcut, hsame⟩ := Option.map_eq_some_iff.mp h
    cases hsame
    exact ((isSuffix_of_cutAtAs hcut).trans
      (List.suffix_cons c rest)).length_le

/-- **The key and the new name are found**, with blanks around them at most. -/
theorem keyAndAlias_append {key joint name : List Char} (hne : key ≠ [])
    (hkey : holdsAs (key ++ [' ']) = false) (hjoint : IsAs joint)
    (hname : name ≠ []) :
    ∃ before behind,
      keyAndAlias (key ++ joint ++ name) = some (before, behind) ∧
      Padded key before ∧ Padded name behind := by
  obtain ⟨front, a, s, back, rfl, hword, hblank⟩ := hjoint
  have hfront : ∀ c ∈ front, isBlank c = true := fun c hc =>
    hblank c (List.mem_append_left back hc)
  have hback : ∀ c ∈ back, isBlank c = true := fun c hc =>
    hblank c (List.mem_append_right front hc)
  obtain ⟨c, rest, rfl⟩ := List.exists_cons_of_ne_nil hne
  rw [List.cons_append, holdsAs_cons, Bool.or_eq_false_iff] at hkey
  have htail : back ++ name ≠ [] :=
    List.append_ne_nil_of_right_ne_nil back hname
  have hcut := cutAtAs_append hkey.2 hfront hword htail
  refine ⟨c :: (rest ++ front), back ++ name, ?_, ?_, ?_⟩
  · simp only [List.append_assoc, List.cons_append, keyAndAlias, hcut,
      Option.map_some]
  · exact ⟨[], front, rfl, hfront⟩
  · exact ⟨back, [], (List.append_nil _).symm, by rwa [List.append_nil]⟩

/-! ## What is read -/

/-- What is read off a written projection of an element with a name. -/
def projectionOf (owner key : String) : Expression :=
  match keyAndAlias key.toList with
  | some (key, name) =>
    .aliased (.property owner (String.ofList (trim key)))
      (String.ofList (trim name))
  | none => .property owner key

/-- The first point separates the name of an element from the rest. -/
theorem writtenProjection_of_point {owner : String} (h : '.' ∉ owner.toList)
    (entry key : String) :
    writtenProjection entry (owner ++ "." ++ key) =
      projectionOf owner key := by
  have htext : (owner ++ "." ++ key).toList = owner.toList ++ '.' ::
      key.toList := by
    rw [String.toList_append, String.toList_append, List.append_assoc]
    rfl
  have hcut : cutAtFirst '.' (owner ++ "." ++ key).toList =
      some (owner.toList, key.toList) :=
    cutAtFirst_eq_some_iff.mpr ⟨htext, h⟩
  have hpoint : (owner ++ "." ++ key).toList.contains '.' = true := by
    rw [htext]
    simp
  rw [writtenProjection, propertyReference, hcut, projectionOf]
  dsimp only
  rw [String.ofList_toList, String.ofList_toList]
  cases keyAndAlias key.toList with
  | none => exact if_pos hpoint
  | some found => rfl

/-- A text without a point is about the entry. -/
theorem writtenProjection_of_noPoint {written : String}
    (h : '.' ∉ written.toList) (entry : String) :
    writtenProjection entry written = match keyAndAlias written.toList with
      | some (key, name) =>
        .aliased (.property entry (String.ofList (trim key)))
        (String.ofList (trim name))
      | none => .aliased (.property entry written) written := by
  have hpoint : written.toList.contains '.' = false := by simpa using h
  rw [writtenProjection, propertyReference, cutAtFirst_eq_none_iff.mpr h]
  simp only [hpoint]
  rfl

section

variable {key joint name : String}

/-- The key and the new name as they are read off a text. -/
theorem keyAndAlias_renamed (hkey : Proper key)
    (hword : holdsAs (key.toList ++ [' ']) = false)
    (hjoint : IsAs joint.toList) (hname : Proper name) :
    ∃ before behind,
      keyAndAlias (key ++ joint ++ name).toList = some (before, behind) ∧
      String.ofList (trim before) = key ∧ String.ofList (trim behind) =
        name := by
  obtain ⟨before, behind, hfound, hbefore, hbehind⟩ :=
    keyAndAlias_append hkey.ne_nil hword hjoint hname.ne_nil
  refine ⟨before, behind, ?_, ?_, ?_⟩
  · rw [String.toList_append, String.toList_append, hfound]
  · rw [hbefore.trim_eq, hkey.tidy.trim_eq, String.ofList_toList]
  · rw [hbehind.trim_eq, hname.tidy.trim_eq, String.ofList_toList]

/-- A key is read under its new name. -/
theorem projectionOf_renamed (hkey : Proper key)
    (hword : holdsAs (key.toList ++ [' ']) = false)
    (hjoint : IsAs joint.toList) (hname : Proper name) (owner : String) :
    projectionOf owner (key ++ joint ++ name) =
      .aliased (.property owner key) name := by
  obtain ⟨before, behind, hfound, hbefore, hbehind⟩ :=
    keyAndAlias_renamed hkey hword hjoint hname
  rw [projectionOf, hfound]
  dsimp only
  rw [hbefore, hbehind]

/-- A key without the word is read as it is. -/
theorem projectionOf_of_noAs (hword : holdsAs (key.toList ++ [' ']) = false)
    (owner : String) :
    projectionOf owner key = .property owner key := by
  rw [projectionOf, keyAndAlias_eq_none hword]

/-- No new name is read that is as long as the text. -/
theorem projectionOf_ne_aliased {owner : String}
    (h : key.toList.length < name.toList.length) (e : Expression) :
    projectionOf owner key ≠ .aliased e name := by
  intro heq
  unfold projectionOf at heq
  split at heq
  · next before behind hfound =>
    injection heq with _ hname
    have hlength := length_of_keyAndAlias hfound
    have htrim : (trim behind).length ≤ behind.length :=
      (trim_isPrefix_trimLeft behind).length_le.trans
        (List.dropWhile_suffix isBlank).length_le
    rw [← hname, String.toList_ofList] at h
    omega
  · cases heq

/-- The word is spelled without a point. -/
theorem noPoint_of_isAs (h : IsAs joint.toList) : '.' ∉ joint.toList := by
  obtain ⟨front, a, s, back, hjoint, hword, hblank⟩ := h
  have hpoint : isBlank '.' = false := by rfl
  intro hmem
  rw [hjoint] at hmem
  simp only [List.mem_append, List.mem_cons] at hmem
  rcases hmem with hfront | hspace | ha | hs | hspace | hback
  · rw [hblank '.' (List.mem_append_left back hfront)] at hpoint
    cases hpoint
  · cases hspace
  · rw [← ha] at hword
    cases hword
  · rw [← hs, spellsAs] at hword
    simp at hword
  · cases hspace
  · rw [hblank '.' (List.mem_append_right front hback)] at hpoint
    cases hpoint

end

/-- **Projections are read back as written, unless a new name of a property
of the entry has a point.**  Take a key with something in it, without blanks
at its ends and without the word "as" between plain spaces, also if a space
follows it; an element without a point in its name; and new names with
something in them and without blanks at their ends.

* With the name of the element, the property is read back, and so is any new
  name.
* Without it and without a point in the key, the property is one of the
  entry and keeps its key as its new name.  A new name that is written is
  read back exactly if it has no point; otherwise all that stands in front
  of its first point is read as the name of an element, and the rest as its
  property.  Else what is behind the point would have to be the new name,
  and it is shorter. -/
theorem projections_read_back (entry owner key : String)
    (howner : '.' ∉ owner.toList) (hkey : Proper key)
    (hword : holdsAs (key.toList ++ [' ']) = false) :
    (∀ joint name, IsAs joint.toList → Proper name →
      writtenProjection entry (owner ++ "." ++ (key ++ joint ++ name)) =
        .aliased (.property owner key) name) ∧
      writtenProjection entry (owner ++ "." ++ key) = .property owner key ∧
      ('.' ∉ key.toList → writtenProjection entry key =
        .aliased (.property entry key) key ∧
        ∀ joint name, IsAs joint.toList → Proper name →
          (writtenProjection entry (key ++ joint ++ name) =
            .aliased (.property entry key) name ↔
            '.' ∉ name.toList) ∧
          ∀ front back, name = front ++ "." ++ back → '.' ∉ front.toList →
            writtenProjection entry (key ++ joint ++ name) =
              projectionOf (key ++ joint ++ front) back) := by
  refine ⟨fun joint name hjoint hname => ?owned, ?plain, fun hpoint => ⟨?bare,
    fun joint name hjoint hname => ?renamed⟩⟩
  case owned =>
    rw [writtenProjection_of_point howner,
      projectionOf_renamed hkey hword hjoint hname]
  case plain => rw [writtenProjection_of_point howner,
    projectionOf_of_noAs hword]
  case bare => rw [writtenProjection_of_noPoint hpoint,
    keyAndAlias_eq_none hword]
  case renamed =>
    have hpointed : ∀ front back, name = front ++ "." ++ back →
        '.' ∉ front.toList →
        writtenProjection entry (key ++ joint ++ name) =
          projectionOf (key ++ joint ++ front) back := by
      intro front back hsplit hfront
      have howned : '.' ∉ (key ++ joint ++ front).toList := by
        simp only [String.toList_append, List.mem_append, not_or]
        exact ⟨⟨hpoint, noPoint_of_isAs hjoint⟩, hfront⟩
      rw [← writtenProjection_of_point howned entry, hsplit]
      simp only [String.append_assoc]
    refine ⟨⟨fun hread hmem => ?_, fun hnone => ?_⟩, hpointed⟩
    · obtain ⟨front, back, hsplit, hfront⟩ := List.eq_append_cons_of_mem hmem
      have hname : name = String.ofList front ++ "." ++
          String.ofList back := by
        rw [← String.toList_inj, hsplit]
        simp
      have hshorter : (String.ofList back).toList.length <
          name.toList.length := by
        rw [hsplit, String.toList_ofList, List.length_append,
          List.length_cons]
        omega
      rw [hpointed _ _ hname (by rwa [String.toList_ofList])] at hread
      exact projectionOf_ne_aliased hshorter _ hread
    · have hall : '.' ∉ (key ++ joint ++ name).toList := by
        simp only [String.toList_append, List.mem_append, not_or]
        exact ⟨⟨hpoint, noPoint_of_isAs hjoint⟩, hnone⟩
      obtain ⟨before, behind, hfound, hbefore, hbehind⟩ :=
        keyAndAlias_renamed hkey hword hjoint hname
      rw [writtenProjection_of_noPoint hall, hfound]
      dsimp only
      rw [hbefore, hbehind]

/-- A new name with a point in it is read back behind the name of the
element, and without that name is not: what stands in front of the point,
the key and the word behind it, is taken for the name of an element. -/
theorem projections_read_back_of_pointed :
    '.' ∉ "n".toList ∧ Proper "name" ∧
    holdsAs ("name".toList ++ [' ']) = false ∧
      writtenProjection "n" "n.name AS a as b.c" =
        .aliased (.property "n" "name") "a as b.c" ∧
      writtenProjection "n" "name AS a.b" = .property "name AS a" "b" ∧
      writtenProjection "n" "name AS a.b" ≠
        .aliased (.property "n" "name") "a.b" := by
  have howner : '.' ∉ "n".toList := by decide
  have hkey : Proper "name" := (Plain.of_all (by decide) (by decide)).toProper
  have hword : holdsAs ("name".toList ++ [' ']) = false := by decide
  have hjoint : IsAs " AS ".toList :=
    ⟨[], 'A', 'S', [], rfl, rfl, fun c hc => by cases hc⟩
  have htrimmed : trimmed "a as b.c" = "a as b.c" := by decide
  have hfilled : (trimmed "a as b.c").isEmpty = false := by decide
  have hworded := Proper.of_trimmed hfilled
  rw [htrimmed] at hworded
  have hpointed : Proper "a.b" :=
    (Plain.of_all (by decide) (by decide)).toProper
  obtain ⟨howned, -, hbare⟩ :=
    projections_read_back "n" "n" "name" howner hkey hword
  obtain ⟨hiff, hread⟩ := (hbare (by decide)).2 " AS " "a.b" hjoint hpointed
  have howntext : "n.name AS a as b.c" = "n" ++ "." ++
      ("name" ++ " AS " ++ "a as b.c") := by decide
  have hbaretext : "name AS a.b" = "name" ++ " AS " ++ "a.b" := by decide
  rw [howntext, hbaretext]
  refine ⟨howner, hkey, hword, howned " AS " "a as b.c" hjoint hworded, ?_,
    ?_⟩
  · have hback : holdsAs ("b".toList ++ [' ']) = false := by decide
    exact (hread "a" "b" (by decide) (by decide)).trans
      (projectionOf_of_noAs hback "name AS a")
  · intro heq
    exact hiff.mp heq (by decide)

end GraphQuery

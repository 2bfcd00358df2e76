/-!
# Cutting a text at a separator

Cutting at the first occurrence of a character, at every occurrence, and at
the last occurrence of a separator.  The first and the last cut say whether
there was anything to cut at.  That the cut at the first occurrence is one,
and loses nothing, is `cutAtFirst_eq_some_iff`.
-/

namespace GraphQuery.Text

/-- What stands before and after the first `sep`, if there is one. -/
def cutAtFirst (sep : Char) : List Char → Option (List Char × List Char)
  | [] => none
  | c :: rest =>
    if c = sep then some ([], rest)
    else (cutAtFirst sep rest).map fun cut => (c :: cut.1, cut.2)

/-- There is nothing to cut at exactly when the separator does not occur. -/
theorem cutAtFirst_eq_none_iff {sep : Char} {s : List Char} :
    cutAtFirst sep s = none ↔ sep ∉ s := by
  induction s with
  | nil => simp [cutAtFirst]
  | cons c rest ih =>
    by_cases h : c = sep
    · simp [cutAtFirst, h]
    · simp [cutAtFirst, h, ih, Ne.symm h]

/-- A cut is at the first occurrence of the separator and loses nothing. -/
theorem cutAtFirst_eq_some_iff {sep : Char} {s front back : List Char} :
    cutAtFirst sep s = some (front, back) ↔ s = front ++ sep :: back ∧
    sep ∉ front := by
  induction s generalizing front with
  | nil => simp [cutAtFirst]
  | cons c rest ih =>
    by_cases h : c = sep
    · cases front with
      | nil => simp [cutAtFirst, h]
      | cons d front =>
        simp only [cutAtFirst, h, if_true, Option.some.injEq, Prod.mk.injEq,
          List.cons_append,
          List.cons.injEq, List.mem_cons]
        constructor
        · rintro ⟨hnil, -⟩
          cases hnil
        · rintro ⟨⟨rfl, -⟩, hne⟩
          exact absurd (Or.inl rfl) hne
    · cases front with
      | nil => simp [cutAtFirst, h]
      | cons d front =>
        simp only [cutAtFirst, h, if_false, Option.map_eq_some_iff,
          Prod.exists, Prod.mk.injEq,
          List.cons.injEq, List.cons_append, List.mem_cons, not_or]
        constructor
        · rintro ⟨x, y, hcut, ⟨rfl, rfl⟩, rfl⟩
          obtain ⟨rfl, hfront⟩ := ih.1 hcut
          exact ⟨⟨rfl, rfl⟩, Ne.symm h, hfront⟩
        · rintro ⟨⟨rfl, hrest⟩, -, hfront⟩
          exact ⟨front, back, ih.2 ⟨hrest, hfront⟩, ⟨rfl, rfl⟩, rfl⟩

/-- The pieces between the occurrences of `sep`; there is always at least
one. -/
def pieces (sep : Char) : List Char → List (List Char)
  | [] => [[]]
  | c :: rest =>
    if c = sep then [] :: pieces sep rest
    else match pieces sep rest with
      | [] => [[c]]
      | first :: others => (c :: first) :: others

/-- What stands before and after the last occurrence of `sep`, if there is
one. -/
def cutAtLast (sep : List Char) : List Char → Option (List Char × List Char)
  | [] => none
  | c :: rest =>
    match cutAtLast sep rest with
    | some cut => some (c :: cut.1, cut.2)
    | none =>
      if sep.isPrefixOf (c :: rest) then some ([],
          (c :: rest).drop sep.length) else none

/-- Without one `c` in front. -/
def dropLeading (c : Char) : List Char → List Char
  | [] => []
  | d :: rest => if d = c then rest else d :: rest

/-- Without one `c` at the end. -/
def dropTrailing (c : Char) (s : List Char) : List Char :=
  (dropLeading c s.reverse).reverse

end GraphQuery.Text

import KafkaScript.Proofs.Toml.Values

/-!
# Statements that are read back

A line that gives a plain value under a name, the header of a table and the header of an
element of an array of tables are each read as the statement that they were written for.
What a text made of such lines says (`Toml.Says`) does not depend on what follows it, so it can
be put together from its parts: `Says.append` for two texts, and `Says.statements?` for a whole
document.
-/

namespace KafkaScript

namespace Toml

variable {c : Char} {t u rest : Text} {name : Text} {names : List Text} {bound : Nat}

/-! ## Keys -/

theorem head?_nameForm (name : Text) :
    ∃ c ∈ (nameForm name).head?, c = '"' ∨ isKeyChar c = true := by
  unfold nameForm
  split
  · next hbare =>
    rw [Bool.and_eq_true, List.all_eq_true] at hbare
    cases name with
    | nil => exact absurd hbare.1 (by decide)
    | cons c name => exact ⟨c, rfl, .inr (hbare.2 c List.mem_cons_self)⟩
  · exact ⟨'"', rfl, .inl rfl⟩

/-- What a character that a key begins with is not. -/
theorem head?_nameForm_ne (name : Text) {d : Char} (hquote : d ≠ '"') (hkey : isKeyChar d = false)
    (t : Text) : (nameForm name ++ t).head? ≠ some d := by
  obtain ⟨c, hc, hbegins⟩ := head?_nameForm name
  rw [List.mem_head?_append_of_mem_head? hc]
  rintro ⟨⟩
  rcases hbegins with rfl | hbegins
  · exact hquote rfl
  · exact ne_of_isKeyChar hbegins hkey rfl

theorem solid_nameForm (name : Text) : Solid (nameForm name) := by
  obtain ⟨c, hc, hbegins⟩ := head?_nameForm name
  obtain ⟨u, hu⟩ := List.head?_eq_some_iff.mp hc
  rw [hu]
  refine .of_isWordChar ?_ u
  rcases hbegins with rfl | hkey
  · decide
  · exact isWordChar_of_isKeyChar hkey

theorem readName_nameForm (name : Text) (hrest : ∀ c ∈ rest.head?, isKeyChar c = false) :
    readName (nameForm name ++ rest) = some (name, rest) := by
  unfold nameForm
  split
  · next hbare =>
    rw [Bool.and_eq_true, List.all_eq_true] at hbare
    obtain ⟨hne, hkey⟩ := hbare
    unfold readName
    split
    · next heq =>
      cases name with
      | nil => contradiction
      | cons c name =>
        exact absurd (List.cons.inj heq).1 (ne_of_isKeyChar (hkey c List.mem_cons_self) (by decide))
    · next heq =>
      cases name with
      | nil => contradiction
      | cons c name =>
        exact absurd (List.cons.inj heq).1 (ne_of_isKeyChar (hkey c List.mem_cons_self) (by decide))
    · rw [span_append hkey hrest]
      simpa using hne
  · have hform : '"' :: name.flatMap basicForm ++ ['"'] ++ rest =
        '"' :: (name.flatMap basicForm ++ '"' :: rest) := by simp
    rw [hform, readName]
    exact readQuoted_basic name rest

/-- What follows a key: neither a character of the key nor another of its dots. -/
structure EndsKey (t : Text) : Prop where
  noName : ∀ c ∈ t.head?, isKeyChar c = false
  noDot : (skipSpaces t).head? ≠ some '.'

theorem keyForm_cons (name : Text) (tables : List Text) (last : Text) :
    keyForm (name :: (tables ++ [last])) = nameForm name ++ '.' :: keyForm (tables ++ [last]) := by
  rw [keyForm, List.map_cons]
  cases tables with
  | nil => simp [Text.join, keyForm]
  | cons table tables => simp [Text.join, keyForm]

theorem solid_keyForm (tables : List Text) (name : Text) : Solid (keyForm (tables ++ [name])) := by
  cases tables with
  | nil => exact solid_nameForm name
  | cons table tables =>
    rw [List.cons_append, keyForm_cons]
    exact (solid_nameForm table).append _

theorem readKeyUpTo_keyForm (tables : List Text) (name : Text) (hrest : EndsKey rest)
    (hbound : tables.length < bound) : readKeyUpTo bound (keyForm (tables ++ [name]) ++ rest) =
      some (⟨tables, name⟩, skipSpaces rest) := by
  induction tables generalizing bound with
  | nil =>
    obtain ⟨bound, rfl⟩ := Nat.exists_eq_succ_of_ne_zero (Nat.ne_of_gt hbound)
    have hname : readName (keyForm ([] ++ [name]) ++ rest) = some (name, rest) :=
      readName_nameForm name hrest.noName
    rw [readKeyUpTo, hname]
    simp only [Option.bind_eq_bind, Option.bind_some]
    split
    · next hdot => exact absurd (congrArg List.head? hdot) hrest.noDot
    · rfl
  | cons table tables ih =>
    obtain ⟨bound, rfl⟩ := Nat.exists_eq_succ_of_ne_zero (Nat.ne_of_gt (Nat.zero_lt_of_lt hbound))
    have hdot : ∀ c ∈ ('.' :: (keyForm (tables ++ [name]) ++ rest)).head?, isKeyChar c = false := by
      rintro c ⟨⟩
      decide
    have hmore : skipSpaces (keyForm (tables ++ [name]) ++ rest) =
        keyForm (tables ++ [name]) ++ rest := ((solid_keyForm tables name).append rest).skipSpaces
    have hspaces : ∀ t, skipSpaces ('.' :: t) = '.' :: t := fun _ => rfl
    rw [List.cons_append, keyForm_cons, List.append_assoc, List.cons_append, readKeyUpTo,
      readName_nameForm table hdot]
    simp only [Option.bind_eq_bind, Option.bind_some, hspaces, hmore,
      ih (Nat.lt_of_succ_lt_succ hbound)]

theorem length_le_keyForm (tables : List Text) (name : Text) :
    tables.length < (keyForm (tables ++ [name])).length := by
  induction tables with
  | nil => exact List.length_pos_iff.mpr (solid_nameForm name).ne_nil
  | cons table tables ih =>
    rw [List.cons_append, keyForm_cons, List.length_append, List.length_cons, List.length_cons]
    omega

theorem readKey_keyForm (tables : List Text) (name : Text) (hrest : EndsKey rest) :
    readKey (keyForm (tables ++ [name]) ++ rest) = some (⟨tables, name⟩, skipSpaces rest) := by
  refine readKeyUpTo_keyForm tables name hrest ?_
  have := length_le_keyForm tables name
  rw [List.length_append]
  omega

/-! ## Lines -/

theorem endsKey_bracket (t : Text) : EndsKey (']' :: t) where
  noName := by
    rintro c ⟨⟩
    decide
  noDot := by
    show some ']' ≠ some '.'
    decide

theorem head?_keyForm_ne (tables : List Text) (name : Text) {d : Char} (hquote : d ≠ '"')
    (hkey : isKeyChar d = false) (t : Text) : (keyForm (tables ++ [name]) ++ t).head? ≠ some d := by
  cases tables with
  | nil => exact head?_nameForm_ne name hquote hkey t
  | cons table tables =>
    rw [List.cons_append, keyForm_cons, List.append_assoc]
    exact head?_nameForm_ne table hquote hkey _

/-- The header of a table. -/
theorem isItem_header (tables : List Text) (name : Text) :
    IsItem readStatement (headerForm (tables ++ [name])) (.header ⟨tables, name⟩) where
  solid := ⟨'[', rfl, by decide⟩
  read := by
    intro rest _
    have hform : headerForm (tables ++ [name]) ++ rest =
        '[' :: (keyForm (tables ++ [name]) ++ ']' :: rest) := by simp [headerForm]
    have hspaces : skipSpaces (keyForm (tables ++ [name]) ++ ']' :: rest) =
        keyForm (tables ++ [name]) ++ ']' :: rest :=
      ((solid_keyForm tables name).append _).skipSpaces
    have hsingle := head?_keyForm_ne tables name (d := '[') (by decide) (by decide) (']' :: rest)
    rw [hform, readStatement, hspaces, readKey_keyForm tables name (endsKey_bracket rest)]
    · rfl
    · intro t ht
      exact hsingle (congrArg List.head? ht)

/-- The header of a further element of an array of tables. -/
theorem isItem_elementHeader (tables : List Text) (name : Text) :
    IsItem readStatement (elementHeaderForm (tables ++ [name])) (.element ⟨tables, name⟩) where
  solid := ⟨'[', rfl, by decide⟩
  read := by
    intro rest _
    have hform : elementHeaderForm (tables ++ [name]) ++ rest =
        '[' :: '[' :: (keyForm (tables ++ [name]) ++ ']' :: ']' :: rest) := by
      simp [elementHeaderForm, headerForm]
    have hspaces : skipSpaces (keyForm (tables ++ [name]) ++ ']' :: ']' :: rest) =
        keyForm (tables ++ [name]) ++ ']' :: ']' :: rest :=
      ((solid_keyForm tables name).append _).skipSpaces
    rw [hform, readStatement, hspaces, readKey_keyForm tables name (endsKey_bracket _)]
    rfl

/-- A value under a name. -/
theorem isItem_pair {form : Text} {w : Written} (name : Text)
    (h : IsItem (readValue maxDepth) form w) :
    IsItem readStatement (nameForm name ++ " = ".toList ++ form) (.pair ⟨[], name⟩ w) where
  solid := by
    rw [List.append_assoc]
    exact (solid_nameForm name).append _
  read := by
    intro rest hrest
    have hform : nameForm name ++ " = ".toList ++ form ++ rest =
        nameForm name ++ ' ' :: '=' :: ' ' :: (form ++ rest) := by simp
    have hend : EndsKey (' ' :: '=' :: ' ' :: (form ++ rest)) := by
      refine ⟨?_, ?_⟩
      · rintro c ⟨⟩
        decide
      · show some '=' ≠ some '.'
        decide
    have hkey : readKey (nameForm name ++ ' ' :: '=' :: ' ' :: (form ++ rest)) =
        some (⟨[], name⟩, '=' :: ' ' :: (form ++ rest)) := readKey_keyForm [] name hend
    have hspaces : ∀ t, skipSpaces (' ' :: t) = skipSpaces t := fun _ => rfl
    have hequals : ∀ t, skipSpaces ('=' :: t) = '=' :: t := fun _ => rfl
    have hbracket := head?_nameForm_ne name (d := '[') (by decide) (by decide)
    rw [hform, readStatement]
    · simp [readPair, hkey, hequals, hspaces, after?, (h.solid.append rest).skipSpaces, h.read hrest]
    · intro t ht
      exact hbracket _ (congrArg List.head? ht)
    · intro t ht
      exact hbracket _ (congrArg List.head? ht)

/-! ## Documents -/

/-- The text says some things, whatever follows it. -/
structure Says (t : Text) (statements : List Statement) : Prop where
  read : ∀ bound rest, readStatements (statements.length + bound) (t ++ rest) =
    (readStatements bound rest).map (statements ++ ·)
  length_le : statements.length ≤ t.length
  noReturn : '\r' ∉ t
  noMark : t.head? ≠ some '\uFEFF'

theorem readStatements_congr (h : skipGap false t = skipGap false u) :
    readStatements bound t = readStatements bound u := by
  cases bound with
  | zero => rfl
  | succ bound => rw [readStatements, readStatements, h]

theorem Says.nil : Says [] [] where
  read := by
    intro bound rest
    simp
  length_le := Nat.le_refl 0
  noReturn := List.not_mem_nil
  noMark := nofun

/-- An empty line says nothing. -/
theorem Says.blank : Says ['\n'] [] where
  read := by
    intro bound rest
    have hbreak : skipGap false (['\n'] ++ rest) = skipGap false rest := rfl
    simpa using readStatements_congr hbreak
  length_le := Nat.zero_le 1
  noReturn := by decide
  noMark := by decide

theorem Says.append {statements more : List Statement} (ht : Says t statements) (hu : Says u more) :
    Says (t ++ u) (statements ++ more) where
  read := by
    intro bound rest
    rw [List.length_append, Nat.add_assoc, List.append_assoc, ht.read, hu.read, Option.map_map]
    simp [Function.comp_def]
  length_le := by
    rw [List.length_append, List.length_append]
    exact Nat.add_le_add ht.length_le hu.length_le
  noReturn := List.not_mem_append ht.noReturn hu.noReturn
  noMark := by
    rw [List.head?_append]
    cases t with
    | nil => exact hu.noMark
    | cons c t => exact ht.noMark

/-- A line with its line break. -/
theorem Says.line {statement : Statement} (h : IsItem readStatement t statement) (hreturn : '\r' ∉ t)
    (hmark : t.head? ≠ some '\uFEFF') : Says (t ++ ['\n']) [statement] where
  read := by
    intro bound rest
    have hclosed : Closed ('\n' :: rest) := by
      rintro c ⟨⟩
      decide
    have hbreak : skipGap false ('\n' :: rest) = skipGap false rest := rfl
    have hdone : isLineDone ('\n' :: rest) = true := rfl
    have hbegins : skipGap false (t ++ '\n' :: rest) = some (t ++ '\n' :: rest) :=
      (h.solid.append _).skipGap
    rw [List.append_assoc, List.singleton_append, List.length_singleton, Nat.add_comm,
      readStatements, hbegins]
    simp only [Option.bind_eq_bind, Option.bind_some]
    split
    · next hnil => exact absurd hnil (by simp)
    · rw [h.read hclosed]
      simp only [Option.bind_some, hdone, if_true, readStatements_congr hbreak]
      rfl
  length_le := by simp
  noReturn := List.not_mem_append hreturn (by decide)
  noMark := by
    rw [List.head?_append_of_ne_nil _ h.solid.ne_nil]
    exact hmark

theorem return_not_mem_nameForm (name : Text) : '\r' ∉ nameForm name := by
  unfold nameForm
  split
  · next hbare =>
    rw [Bool.and_eq_true, List.all_eq_true] at hbare
    exact fun hmem => ne_of_isKeyChar (hbare.2 _ hmem) (by decide) rfl
  · intro hmem
    have hforms : '\r' ∉ name.flatMap basicForm := by
      intro hmem
      obtain ⟨c, -, hc⟩ := List.mem_flatMap.mp hmem
      exact return_not_mem_basicForm c hc
    exact absurd hmem (by simpa using hforms)

theorem return_not_mem_keyForm (tables : List Text) (name : Text) :
    '\r' ∉ keyForm (tables ++ [name]) := by
  induction tables with
  | nil => exact return_not_mem_nameForm name
  | cons table tables ih =>
    rw [List.cons_append, keyForm_cons]
    exact List.not_mem_append (return_not_mem_nameForm table) (by simpa using ih)

theorem Says.header (tables : List Text) (name : Text) :
    Says (headerForm (tables ++ [name]) ++ ['\n']) [.header ⟨tables, name⟩] := by
  refine .line (isItem_header tables name) ?_ (by simp [headerForm])
  simpa [headerForm] using return_not_mem_keyForm tables name

theorem Says.elementHeader (tables : List Text) (name : Text) :
    Says (elementHeaderForm (tables ++ [name]) ++ ['\n']) [.element ⟨tables, name⟩] := by
  refine .line (isItem_elementHeader tables name) ?_ (by simp [elementHeaderForm])
  simpa [elementHeaderForm, headerForm] using return_not_mem_keyForm tables name

theorem Says.pair {v : Toml} (name : Text) (h : IsPlain maxDepth v) :
    Says (nameForm name ++ " = ".toList ++ valueForm v ++ ['\n']) [.pair ⟨[], name⟩ (written v)] := by
  refine .line (isItem_pair name (isItem_valueForm h)) ?_ ?_
  · have hname := return_not_mem_nameForm name
    have hvalue := return_not_mem_valueForm h
    exact List.not_mem_append (List.not_mem_append hname (by decide)) hvalue
  · rw [List.append_assoc]
    exact head?_nameForm_ne name (by decide) (by decide) _

/-- The statements of plain entries. -/
def pairsOf (entries : List (Text × Toml)) : List Statement :=
  entries.map fun (name, v) => .pair ⟨[], name⟩ (written v)

/-- Plain entries, each on a line of its own. -/
theorem Says.entries {entries : List (Text × Toml)} (h : ∀ e ∈ entries, IsPlain maxDepth e.2) :
    Says (Text.unlines (fieldForms entries)) (pairsOf entries) := by
  induction entries with
  | nil => exact .nil
  | cons e entries ih =>
    obtain ⟨he, hentries⟩ := List.forall_mem_cons.mp h
    exact (Says.pair e.1 he).append (ih hentries)

/-! ## Whole documents -/

theorem breaksAreWhole_of_not_mem (h : '\r' ∉ t) : breaksAreWhole t = true := by
  induction t with
  | nil => rfl
  | cons c t ih =>
    obtain ⟨hc, ht⟩ := not_or.mp (List.mem_cons.not.mp h)
    have hne : c ≠ '\r' := fun heq => hc heq.symm
    simp [breaksAreWhole, hne, ih ht]

/-- A document has the statements that its text says. -/
theorem Says.statements? {statements : List Statement} (h : Says t statements) :
    statements? t = some statements := by
  have hmark : skipMark t = t := by
    unfold skipMark
    split
    · exact absurd rfl h.noMark
    · rfl
  obtain ⟨bound, hbound⟩ := Nat.exists_eq_add_of_le h.length_le
  have hread := h.read (bound + 1) []
  rw [List.append_nil, ← Nat.add_assoc, ← hbound] at hread
  rw [Toml.statements?, hmark]
  simp only [breaksAreWhole_of_not_mem h.noReturn, if_true, hread]
  simp [readStatements, skipGap]

end Toml

end KafkaScript

import Mathlib.Data.List.TakeDrop
import KafkaScript.Proofs.Text.Numeral
import KafkaScript.Proofs.Text.Parts
import KafkaScript.Proofs.Text.Shown
import KafkaScript.Proofs.Toml.Quoted
import KafkaScript.Toml.Reader
import KafkaScript.Toml.Writer

/-!
# Values that are read back

A plain value is a string, an integer that fits or an array of plain values, nested no
deeper than values can be read (`Toml.IsPlain`). What the grammar makes of its form is
`Toml.written` (`Toml.isItem_valueForm`), which stands for the value itself
(`Toml.value_written`). An item is taken off a text whatever follows, as long as that could
not belong to the item; between the brackets of an array a comma, a line break or the closing
bracket follows.
-/

namespace KafkaScript

/-! ## Integers -/

namespace Decimal

theorem digitValue?_digitChar : ∀ d < 10, digitValue? (digitChar d) = some d := by
  decide

/-- The digits of a number. Only zero begins with a zero. -/
theorem mapM_digitValue?_print (n : Nat) : ∃ d ds, (print n).mapM digitValue? = some (d :: ds) ∧
    Toml.valueIn 10 (d :: ds) = n ∧ (d = 0 → ds = []) := by
  induction n using Nat.strongRecOn with
  | ind n ih =>
    rw [print]
    split
    · next hn =>
      refine ⟨n, [], ?_, ?_, fun _ => rfl⟩
      · simp [digitValue?_digitChar n hn]
      · simp [Toml.valueIn]
    · next hn =>
      obtain ⟨d, ds, hfront, hvalue, hzero⟩ := ih (n / 10) (by omega)
      have hlast := digitValue?_digitChar (n % 10) (Nat.mod_lt n (by decide))
      refine ⟨d, ds ++ [n % 10], ?_, ?_, ?_⟩
      · rw [List.mapM_append, hfront]
        simp [hlast]
      · rw [← List.cons_append, Toml.valueIn, List.foldl_append]
        change 10 * Toml.valueIn 10 (d :: ds) + n % 10 = n
        rw [hvalue, Nat.div_add_mod]
      · rintro rfl
        rw [hzero rfl] at hvalue
        change 0 = n / 10 at hvalue
        omega

theorem isDigit_or_minus_of_mem_printInt {n : Int} {c : Char} (h : c ∈ printInt n) :
    c.isDigit = true ∨ c = '-' := by
  cases n with
  | ofNat n => exact .inl (isDigit_of_mem_print h)
  | negSucc n =>
    rcases List.mem_cons.mp h with rfl | h
    · exact .inr rfl
    · exact .inl (isDigit_of_mem_print h)

theorem printInt_ne_nil (n : Int) : printInt n ≠ [] := by
  cases n with
  | ofNat n => exact positional.print_ne_nil n
  | negSucc n => exact List.cons_ne_nil '-' _

end Decimal

namespace Toml

variable {α β : Type} {c : Char} {w t u rest : Text} {depth bound : Nat}

theorem not_mem_print (hc : c.isDigit = false) (n : Nat) : c ∉ Decimal.print n := by
  intro hmem
  rw [Decimal.isDigit_of_mem_print hmem] at hc
  contradiction

theorem wholeDigits?_print (signed : Bool) (n : Nat) :
    ∃ ds, wholeDigits? signed (Decimal.print n) = some ds ∧ valueIn 10 ds = n := by
  obtain ⟨d, ds, hdigits, hvalue, hzero⟩ := Decimal.mapM_digitValue?_print n
  have hunderscore : '_' ∉ Decimal.print n := not_mem_print (by decide) n
  have hread : digits? Decimal.digitValue? (Decimal.print n) = some (d :: ds) := by
    have hne := Decimal.positional.print_ne_nil n
    simp [digits?, Text.splitAll_of_not_mem hunderscore, hne, hdigits]
  refine ⟨d :: ds, ?_, hvalue⟩
  unfold wholeDigits?
  split
  · next heq => exact absurd (heq ▸ List.mem_cons_self) hunderscore
  · rw [hread, Option.filter_some_pos]
    by_cases hd : d = 0
    · simp [hzero hd]
    · simp [hd]

theorem unboundedInteger?_printInt (n : Int) : unboundedInteger? (Decimal.printInt n) = some n := by
  cases n with
  | ofNat n =>
    obtain ⟨ds, hdigits, hvalue⟩ := wholeDigits?_print false n
    have hno : ∀ c, c.isDigit = false → ∀ t, Decimal.print n ≠ '0' :: c :: t := fun c hc t heq =>
      not_mem_print hc n (heq ▸ List.mem_cons_of_mem '0' List.mem_cons_self)
    have hsign : splitSign (Decimal.print n) = (none, Decimal.print n) := by
      unfold splitSign
      split
      · next heq => exact absurd (heq ▸ List.mem_cons_self) (not_mem_print (c := '+') (by decide) n)
      · next heq => exact absurd (heq ▸ List.mem_cons_self) (not_mem_print (c := '-') (by decide) n)
      · rfl
    rw [Decimal.printInt]
    unfold unboundedInteger?
    split
    · next heq => exact absurd heq (hno 'x' (by decide) _)
    · next heq => exact absurd heq (hno 'o' (by decide) _)
    · next heq => exact absurd heq (hno 'b' (by decide) _)
    · simp [hsign, hdigits, hvalue]
  | negSucc n =>
    obtain ⟨ds, hdigits, hvalue⟩ := wholeDigits?_print true (n + 1)
    have hsign : splitSign ('-' :: Decimal.print (n + 1)) = (some true, Decimal.print (n + 1)) := rfl
    rw [Decimal.printInt]
    unfold unboundedInteger?
    split
    · next heq => cases heq
    · next heq => cases heq
    · next heq => cases heq
    · simp [hsign, hdigits, hvalue, Int.negSucc_eq]

/-- The integer can be written. -/
def Fits (n : Int) : Prop :=
  minInteger ≤ n ∧ n ≤ maxInteger

/-- An integer is the value of its digits. -/
theorem ofWord?_printInt {n : Int} (h : Fits n) :
    ofWord? (Decimal.printInt n) = some (.integer n) := by
  have hword : ∀ name : Text, 'e' ∈ name → Decimal.printInt n ≠ name := by
    rintro name hname rfl
    rcases Decimal.isDigit_or_minus_of_mem_printInt hname with h | h <;> contradiction
  have hread : readInteger (Decimal.printInt n) = some n := by
    rw [readInteger, unboundedInteger?_printInt, Option.filter_some_pos]
    simp [h.1, h.2]
  rw [ofWord?, if_neg (hword _ (by decide)), if_neg (hword _ (by decide)), hread]

/-! ## Items -/

/-- The text begins with a character that is neither passed over before an item nor ends an
array. -/
def Solid (t : Text) : Prop :=
  ∃ c ∈ t.head?, isSpace c = false ∧ isBreak c = false ∧ c ≠ '#' ∧ c ≠ ']'

theorem Solid.append (h : Solid t) (u : Text) : Solid (t ++ u) := by
  obtain ⟨c, hc, hsolid⟩ := h
  exact ⟨c, List.mem_head?_append_of_mem_head? hc, hsolid⟩

theorem Solid.ne_nil (h : Solid t) : t ≠ [] := by
  rintro rfl
  obtain ⟨c, hc, -⟩ := h
  contradiction

theorem skipGap_cons (hspace : isSpace c = false) (hbreak : isBreak c = false) (hcomment : c ≠ '#')
    (t : Text) : skipGap false (c :: t) = some (c :: t) := by
  simp [skipGap, hspace, hbreak, hcomment]

theorem Solid.skipGap (h : Solid t) : skipGap false t = some t := by
  obtain ⟨c, hc, hspace, hbreak, hcomment, -⟩ := h
  obtain ⟨u, rfl⟩ := List.head?_eq_some_iff.mp hc
  exact skipGap_cons hspace hbreak hcomment u

theorem Solid.skipSpaces (h : Solid t) : skipSpaces t = t := by
  obtain ⟨c, hc, hspace, -⟩ := h
  obtain ⟨u, rfl⟩ := List.head?_eq_some_iff.mp hc
  exact List.dropWhile_cons_of_neg (by simp [hspace])

/-- A form from which a reader takes an item, whatever follows. -/
structure IsItem (item : Text → Option (α × Text)) (form : Text) (a : α) : Prop where
  solid : Solid form
  read : ∀ {rest}, Closed rest → item (form ++ rest) = some (a, rest)

section Items

variable {item : Text → Option (α × Text)} {form : Text} {a : α}

theorem readItems_congr {closing : Char} (h : skipGap false t = skipGap false u) :
    readItems closing item bound t = readItems closing item bound u := by
  cases bound with
  | zero => rfl
  | succ bound => rw [readItems, readItems, h]

theorem readItems_closing (rest : Text) :
    readItems ']' item (bound + 1) (']' :: rest) = some ([], rest) := by
  rw [readItems, skipGap_cons rfl rfl (by decide)]
  rfl

/-- An item is no closing bracket, and it ends where a comma or the closing bracket begins. -/
theorem readItems_item (h : IsItem item form a) (hrest : Closed (c :: t))
    (hgap : skipGap false (c :: t) = some (c :: t)) :
    readItems ']' item (bound + 1) (form ++ c :: t) =
      if c = ']' then some ([a], t) else do
        let (more, t) ← readItems ']' item bound (← after? ',' (c :: t))
        return (a :: more, t) := by
  have hhead : (form ++ c :: t).head? ≠ some ']' := by
    obtain ⟨d, hd, -, -, -, hne⟩ := h.solid.append (c :: t)
    intro heq
    exact hne (Option.some.inj (hd.symm.trans heq))
  rw [readItems, (h.solid.append _).skipGap]
  simp only [Option.bind_eq_bind, Option.bind_some, if_neg hhead, h.read hrest, hgap]
  split <;> simp_all

theorem readItems_last (h : IsItem item form a) (rest : Text) :
    readItems ']' item (bound + 1) (form ++ ']' :: rest) = some ([a], rest) := by
  have hclosed : Closed (']' :: rest) := by
    rintro c ⟨⟩
    decide
  rw [readItems_item h hclosed (skipGap_cons rfl rfl (by decide) rest), if_pos rfl]

theorem readItems_comma (h : IsItem item form a) (t : Text) :
    readItems ']' item (bound + 1) (form ++ ',' :: t) =
      (readItems ']' item bound t).map fun (more, t) => (a :: more, t) := by
  have hclosed : Closed (',' :: t) := by
    rintro c ⟨⟩
    decide
  rw [readItems_item h hclosed (skipGap_cons rfl rfl (by decide) t), if_neg (by decide)]
  cases hmore : readItems ']' item bound t <;> simp [after?, hmore]

/-- Items on lines of their own, with a comma after each. -/
theorem readItems_lines {vs : List β} {form : β → Text} {value : β → α}
    (h : ∀ v ∈ vs, IsItem item (form v) (value v)) (hbound : vs.length < bound) (rest : Text) :
    readItems ']' item bound
      (Text.unlines (vs.map fun v => "    ".toList ++ form v ++ [',']) ++ ']' :: rest) =
        some (vs.map value, rest) := by
  induction vs generalizing bound with
  | nil =>
    obtain ⟨bound, rfl⟩ := Nat.exists_eq_succ_of_ne_zero (Nat.ne_of_gt hbound)
    exact readItems_closing rest
  | cons v vs ih =>
    obtain ⟨bound, rfl⟩ := Nat.exists_eq_succ_of_ne_zero (Nat.ne_of_gt (Nat.zero_lt_of_lt hbound))
    obtain ⟨hv, hvs⟩ := List.forall_mem_cons.mp h
    have hrest := ih hvs (Nat.lt_of_succ_lt_succ hbound)
    generalize hmore : Text.unlines (vs.map fun v => "    ".toList ++ form v ++ [',']) = more at hrest
    have htext : Text.unlines ((v :: vs).map fun v => "    ".toList ++ form v ++ [',']) ++ ']' :: rest =
        "    ".toList ++ (form v ++ ',' :: '\n' :: (more ++ ']' :: rest)) := by
      rw [← hmore]
      simp [Text.unlines]
    have hindent : ∀ t, skipGap false ("    ".toList ++ t) = skipGap false t := fun _ => rfl
    have hbreak : ∀ t, skipGap false ('\n' :: t) = skipGap false t := fun _ => rfl
    rw [htext, readItems_congr (hindent _), readItems_comma hv, readItems_congr (hbreak _), hrest]
    rfl

end Items

/-! ## Words -/

theorem span_append {p : Char → Bool} (hw : ∀ c ∈ w, p c = true)
    (hrest : ∀ c ∈ rest.head?, p c = false) :
    (w ++ rest).span p = (w, rest) := by
  rw [List.span_eq_takeWhile_dropWhile, List.takeWhile_append_of_pos hw, List.dropWhile_append_of_pos hw]
  cases rest with
  | nil => simp
  | cons c rest => simp [hrest c rfl]

theorem Closed.splitWord (hw : ∀ c ∈ w, isWordChar c = true) (hrest : Closed rest) :
    splitWord (w ++ rest) = (w, rest) := by
  rw [Toml.splitWord, span_append hw fun c hc => (hrest c hc).1]
  simp only
  split
  · exact absurd rfl (hrest ' ' rfl).2
  · rfl

theorem ne_of_isWordChar {d : Char} (h : isWordChar c = true) (hd : isWordChar d = false) : c ≠ d := by
  rintro rfl
  rw [h] at hd
  contradiction

theorem Solid.of_isWordChar (h : isWordChar c = true) (t : Text) : Solid (c :: t) := by
  refine ⟨c, rfl, ?_, ?_, ne_of_isWordChar h (by decide), ne_of_isWordChar h (by decide)⟩
  · rw [isSpace, Bool.or_eq_false_iff]
    exact ⟨beq_false_of_ne (ne_of_isWordChar h (by decide)),
      beq_false_of_ne (ne_of_isWordChar h (by decide))⟩
  · rw [isBreak, Bool.or_eq_false_iff]
    exact ⟨beq_false_of_ne (ne_of_isWordChar h (by decide)),
      beq_false_of_ne (ne_of_isWordChar h (by decide))⟩

theorem ne_of_isKeyChar {d : Char} (h : isKeyChar c = true) (hd : isKeyChar d = false) : c ≠ d := by
  rintro rfl
  rw [h] at hd
  contradiction

theorem isWordChar_of_isKeyChar (h : isKeyChar c = true) : isWordChar c = true := by
  have hno : "=,[]\x7b\x7d# \t\r\n".toList.all (fun d => !isKeyChar d) = true := by decide
  rw [isWordChar, Bool.not_eq_true', Bool.eq_false_iff, ne_eq, List.contains_iff_mem]
  intro hmem
  have hd := List.all_eq_true.mp hno c hmem
  rw [h] at hd
  contradiction

/-- A word without quotes is read as it stands. -/
theorem isItem_word (hne : w ≠ []) (hw : ∀ c ∈ w, isWordChar c = true ∧ c ≠ '"' ∧ c ≠ '\'') :
    IsItem (readValue depth) w (.word w) := by
  cases w with
  | nil => contradiction
  | cons c w =>
    obtain ⟨hc, hbasic, hliteral⟩ := hw c List.mem_cons_self
    refine ⟨.of_isWordChar hc w, fun {rest} hrest => ?_⟩
    have hread : readValue depth (c :: w ++ rest) = readWord (c :: w ++ rest) := by
      rw [List.cons_append, readValue]
      · rintro t ⟨⟩
        exact ne_of_isWordChar (d := '[') hc (by decide) rfl
      · rintro t ⟨⟩
        exact ne_of_isWordChar (d := '\x7b') hc (by decide) rfl
      · rintro t ⟨⟩
        exact hbasic rfl
      · rintro t ⟨⟩
        exact hliteral rfl
    rw [hread, readWord, hrest.splitWord fun c hc => (hw c hc).1]
    rfl

/-! ## Plain values -/

/-- The value is a string, an integer that fits or an array of such values, nested at most to
a depth. -/
inductive IsPlain : (depth : Nat) → Toml → Prop
  | string {depth : Nat} (t : Text) : IsPlain depth (.string t)
  | integer {depth : Nat} {n : Int} (h : Fits n) : IsPlain depth (.integer n)
  | array {depth : Nat} {vs : List Toml} (h : ∀ v ∈ vs, IsPlain depth v) :
    IsPlain (depth + 1) (.array vs)

mutual

/-- What the grammar makes of a value that is no table. -/
def written : Toml → Written
  | string t => .string t
  | array vs => .array (writtenAll vs)
  | v => .word (valueForm v)

/-- What the grammar makes of some values. -/
def writtenAll : List Toml → List Written
  | [] => []
  | v :: vs => written v :: writtenAll vs

end

theorem writtenAll_eq_map (vs : List Toml) : writtenAll vs = vs.map written := by
  induction vs with
  | nil => rfl
  | cons v vs ih => rw [writtenAll, ih, List.map_cons]

theorem valueForms_eq_map (vs : List Toml) : valueForms vs = vs.map valueForm := by
  induction vs with
  | nil => rfl
  | cons v vs ih => rw [valueForms, ih, List.map_cons]

theorem arrayForm_eq_lines (forms : List Text) (h : 2 ≤ forms.length) : arrayForm forms =
    '[' :: '\n' :: Text.unlines (forms.map fun e => "    ".toList ++ e ++ [',']) ++ [']'] := by
  match forms, h with
  | _ :: _ :: _, _ => rfl

theorem length_le_unlines (ls : List Text) : ls.length ≤ (Text.unlines ls).length := by
  induction ls with
  | nil => exact Nat.le_refl 0
  | cons l ls ih =>
    rw [Text.unlines, List.flatMap_cons, List.length_append, List.length_append]
    change ls.length + 1 ≤ l.length + 1 + (Text.unlines ls).length
    omega

theorem isItem_array {vs : List Toml}
    (h : ∀ v ∈ vs, IsItem (readValue depth) (valueForm v) (written v)) :
    IsItem (readValue (depth + 1)) (valueForm (.array vs)) (written (.array vs)) := by
  have hread : ∀ t, readValue (depth + 1) ('[' :: t) =
      (readItems ']' (readValue depth) (t.length + 1) t).map fun r => (.array r.1, r.2) := by
    intro t
    rw [readValue]
  rw [valueForm, valueForms_eq_map, written, writtenAll_eq_map]
  match vs with
  | [] =>
    refine ⟨⟨'[', rfl, by decide⟩, fun {rest} _ => ?_⟩
    exact (hread (']' :: rest)).trans (by rw [readItems_closing]; rfl)
  | [v] =>
    refine ⟨⟨'[', rfl, by decide⟩, fun {rest} _ => ?_⟩
    have hform : arrayForm ([v].map valueForm) ++ rest = '[' :: (valueForm v ++ ']' :: rest) := by
      simp [arrayForm]
    rw [hform, hread, readItems_last (h v List.mem_cons_self)]
    rfl
  | v :: v' :: vs =>
    have hlines := arrayForm_eq_lines ((v :: v' :: vs).map valueForm) (by simp)
    rw [List.map_map] at hlines
    rw [hlines]
    refine ⟨⟨'[', rfl, by decide⟩, fun {rest} _ => ?_⟩
    have hlength := length_le_unlines
      ((v :: v' :: vs).map ((fun e => "    ".toList ++ e ++ [',']) ∘ valueForm))
    rw [List.length_map] at hlength
    have hbreak : ∀ t, skipGap false ('\n' :: t) = skipGap false t := fun _ => rfl
    rw [List.append_assoc, List.cons_append, List.cons_append, hread, readItems_congr (hbreak _)]
    refine (congrArg (Option.map _) (readItems_lines h ?_ rest)).trans rfl
    simp only [List.length_cons, List.length_append] at hlength ⊢
    omega

theorem head?_writeString (s : Text) :
    (writeString s).head? = some '"' ∨ (writeString s).head? = some '\'' := by
  unfold writeString
  simp only
  split
  · exact .inl rfl
  · exact .inr rfl
  · exact .inl rfl
  · exact .inr rfl

theorem isItem_string (s : Text) : IsItem (readValue depth) (writeString s) (.string s) where
  solid := by
    rcases head?_writeString s with h | h
    · exact ⟨'"', h, by decide⟩
    · exact ⟨'\'', h, by decide⟩
  read := by
    intro rest hrest
    have hread : readValue depth (writeString s ++ rest) =
        (readString (writeString s ++ rest)).map fun r => (.string r.1, r.2) := by
      rcases head?_writeString s with h | h
      · obtain ⟨u, hu⟩ := List.head?_eq_some_iff.mp h
        rw [hu, List.cons_append, readValue]
      · obtain ⟨u, hu⟩ := List.head?_eq_some_iff.mp h
        rw [hu, List.cons_append, readValue]
    rw [hread, readString_writeString s hrest]
    rfl

theorem isItem_integer (n : Int) :
    IsItem (readValue depth) (Decimal.printInt n) (.word (Decimal.printInt n)) := by
  refine isItem_word (Decimal.printInt_ne_nil n) fun c hc => ?_
  have hkey : isKeyChar c = true := by
    rcases Decimal.isDigit_or_minus_of_mem_printInt hc with hdigit | rfl
    · simp [isKeyChar, Char.isAlphanum, hdigit]
    · decide
  exact ⟨isWordChar_of_isKeyChar hkey, ne_of_isKeyChar hkey (by decide),
    ne_of_isKeyChar hkey (by decide)⟩

/-- **Plain values are read back** as they were written. -/
theorem isItem_valueForm {v : Toml} (h : IsPlain depth v) :
    IsItem (readValue depth) (valueForm v) (written v) := by
  induction h with
  | string t => exact isItem_string t
  | integer h => exact isItem_integer _
  | array h ih => exact isItem_array ih

theorem value_written {v : Toml} (h : IsPlain depth v) : (written v).value = .ok v := by
  induction h with
  | string t => rfl
  | @integer _ n h =>
    change orMalformed (ofWord? (Decimal.printInt n)) = .ok (.integer n)
    rw [ofWord?_printInt h]
    rfl
  | @array _ vs h ih =>
    have hvalues : ∀ us : List Toml, (∀ v ∈ us, (written v).value = .ok v) →
        valuesOf (writtenAll us) = .ok us := by
      intro us hus
      induction us with
      | nil => rfl
      | cons u us ihs =>
        obtain ⟨hu, hus⟩ := List.forall_mem_cons.mp hus
        rw [writtenAll, valuesOf, hu, ihs hus]
        rfl
    rw [written, Written.value, hvalues vs ih]
    rfl

theorem return_not_mem_unlines {ls : List Text} (h : ∀ l ∈ ls, '\r' ∉ l) :
    '\r' ∉ Text.unlines ls := by
  intro hmem
  obtain ⟨l, hl, hreturn⟩ := List.mem_flatMap.mp hmem
  exact List.not_mem_append (h l hl) (by decide) hreturn

theorem return_not_mem_arrayForm {forms : List Text} (h : ∀ form ∈ forms, '\r' ∉ form) :
    '\r' ∉ arrayForm forms := by
  match forms with
  | [] => decide
  | [form] => simpa [arrayForm] using h form List.mem_cons_self
  | a :: b :: more =>
    rw [arrayForm_eq_lines _ (by simp)]
    have hlines : '\r' ∉ Text.unlines ((a :: b :: more).map fun e => "    ".toList ++ e ++ [',']) := by
      refine return_not_mem_unlines fun l hl => ?_
      obtain ⟨e, he, rfl⟩ := List.mem_map.mp hl
      exact List.not_mem_append (List.not_mem_append (by decide) (h e he)) (by decide)
    simpa using hlines

/-- Plain values are written without carriage returns. -/
theorem return_not_mem_valueForm {v : Toml} (h : IsPlain depth v) : '\r' ∉ valueForm v := by
  induction h with
  | string t => exact return_not_mem_writeString t
  | integer h =>
    intro hmem
    rcases Decimal.isDigit_or_minus_of_mem_printInt hmem with h | h <;> contradiction
  | array h ih =>
    rw [valueForm, valueForms_eq_map]
    refine return_not_mem_arrayForm fun form hform => ?_
    obtain ⟨v, hv, rfl⟩ := List.mem_map.mp hform
    exact ih v hv

/-- A plain value is no section. -/
theorem IsPlain.isSection {v : Toml} (h : IsPlain depth v) : isSection v = false := by
  have htable : ∀ {depth v}, IsPlain depth v → isTable v = false := by
    rintro _ _ (_ | _ | _) <;> rfl
  cases h with
  | string | integer => rfl
  | @array _ vs h =>
    rw [Toml.isSection, areTables]
    cases vs with
    | nil => rfl
    | cons v vs => simp [htable (h v List.mem_cons_self)]

end Toml

end KafkaScript

import Mathlib.Data.List.Basic
import KafkaScript.Toml.Quoted
import KafkaScript.Toml.Scalar

/-!
# Strings that are read back

A string is written in one of five forms, and what is read from any of them is the
string (`Toml.readString_writeString`), provided that no quote follows: up to two quotes
after the closing ones would belong to the string. For the same reason a string that ends
in quotes ends where three quotes stand first, not at the last three.
-/

namespace KafkaScript

namespace Toml

/-- What has been read, with a character before it. -/
def prependTo (c : Char) : Option (Text × Text) → Option (Text × Text) :=
  Option.map fun (s, rest) => (c :: s, rest)

@[simp] theorem prependTo_some (c : Char) (s rest : Text) :
    prependTo c (some (s, rest)) = some (c :: s, rest) := rfl

variable {q : Quote} {multiline : Bool} {c : Char} {s t rest : Text}

/-! ## Characters -/

theorem readQuoted_of_character {state : QuotedState} {d : Char}
    (h : state.step q multiline c = .character d) :
    readQuoted q multiline state (c :: t) = prependTo d (readQuoted q multiline .plain t) := by
  rw [readQuoted, h]
  rfl

theorem readQuoted_of_next {state next : QuotedState} (h : state.step q multiline c = .next next) :
    readQuoted q multiline state (c :: t) = readQuoted q multiline next t := by
  rw [readQuoted, h]

theorem step_mark (q : Quote) (multiline : Bool) :
    QuotedState.plain.step q multiline q.mark = .quote := by
  rw [QuotedState.step, QuotedStep.ofPlain, if_pos rfl]

/-- A character that is no quote and begins no escape stands for itself. -/
theorem readQuoted_plain (hmark : c ≠ q.mark) (hescape : q = .basic → c ≠ '\\')
    (hplain : isPlain c = true ∨ multiline = true ∧ c = '\n') :
    readQuoted q multiline .plain (c :: t) = prependTo c (readQuoted q multiline .plain t) := by
  apply readQuoted_of_character
  have hno : ¬(q = .basic ∧ c = '\\') := fun ⟨hq, hc⟩ => hescape hq hc
  have hstands : (isPlain c || multiline && isBreak c) = true := by
    rcases hplain with hplain | ⟨rfl, rfl⟩
    · simp [hplain]
    · rfl
  rw [QuotedState.step, QuotedStep.ofPlain, if_neg hmark, if_neg hno, if_pos hstands]

theorem readQuoted_escape {e d : Char} (h : escaped? e = some d) :
    readQuoted .basic multiline .plain ('\\' :: e :: t) =
      prependTo d (readQuoted .basic multiline .plain t) := by
  have hbackslash : QuotedState.plain.step .basic multiline '\\' = .next .escape := rfl
  rw [readQuoted_of_next hbackslash, readQuoted_of_character]
  rw [QuotedState.step, QuotedStep.ofEscape, h]

/-- The number that some hexadecimal digits denote behind a number read before them. -/
def hexValue? (value : Nat) (digits : Text) : Option Nat :=
  (digits.mapM Hexadecimal.digitValue?).map (·.foldl (16 * · + ·) value)

theorem readQuoted_code {digits : Text} {missing value n : Nat}
    (hlength : digits.length = missing + 1)
    (hvalue : hexValue? value digits = some n) (hscalar : scalar? n = some c) :
    readQuoted .basic multiline (.code missing value) (digits ++ t) =
      prependTo c (readQuoted .basic multiline .plain t) := by
  induction digits generalizing missing value with
  | nil => contradiction
  | cons digit digits ih =>
    obtain ⟨values, hvalues, hn⟩ := Option.map_eq_some_iff.mp hvalue
    rw [List.mapM_cons] at hvalues
    obtain ⟨d, hd, hvalues⟩ := Option.bind_eq_some_iff.mp hvalues
    obtain ⟨ds, hds, heq⟩ := Option.bind_eq_some_iff.mp hvalues
    obtain rfl := Option.some.inj heq
    cases missing with
    | zero =>
      obtain rfl : digits = [] := by simpa using hlength
      obtain rfl : ds = [] := by simpa using hds.symm
      apply readQuoted_of_character
      rw [List.foldl_cons, List.foldl_nil] at hn
      simp only [QuotedState.step, hd, hn, hscalar]
      rfl
    | succ missing =>
      have hstep : (QuotedState.code (missing + 1) value).step .basic multiline digit =
          .next (.code missing (16 * value + d)) := by
        simp only [QuotedState.step, hd]
      rw [List.cons_append, readQuoted_of_next hstep]
      refine ih (by simpa using hlength) ?_
      rw [hexValue?, hds]
      exact congrArg some hn

/-- The digits of a control character. -/
theorem hexValue?_padded : ∀ n < 128, ((Hexadecimal.padded 4 n).map Char.toUpper).length = 4 ∧
    hexValue? 0 ((Hexadecimal.padded 4 n).map Char.toUpper) = some n ∧
      scalar? n = some (Char.ofNat n) := by
  decide +kernel

theorem toNat_lt_of_not_isPlain (h : isPlain c = false) : c.toNat < 128 := by
  simp [isPlain] at h
  omega

/-- What is written for a character other than the quote and the line break. -/
theorem readQuoted_escapedForm (hquote : c ≠ '"') (t : Text) :
    readQuoted .basic multiline .plain (escapedForm c ++ t) =
      prependTo c (readQuoted .basic multiline .plain t) := by
  unfold escapedForm
  split
  · exact readQuoted_escape rfl
  · exact readQuoted_escape rfl
  · exact readQuoted_escape rfl
  · exact readQuoted_escape rfl
  · exact readQuoted_escape rfl
  · next hbackslash _ _ _ _ =>
    split
    · next hplain => exact readQuoted_plain hquote (fun _ => hbackslash) (.inl hplain)
    · next hcontrol =>
      obtain ⟨hlength, hvalue, hscalar⟩ :=
        hexValue?_padded c.toNat (toNat_lt_of_not_isPlain (Bool.eq_false_iff.mpr hcontrol))
      rw [Char.ofNat_toNat] at hscalar
      have hbackslash : QuotedState.plain.step .basic multiline '\\' = .next .escape := rfl
      have hnumber : QuotedState.escape.step .basic multiline 'u' = .next (.code 3 0) := rfl
      rw [List.append_assoc, List.cons_append, List.singleton_append,
        readQuoted_of_next hbackslash, readQuoted_of_next hnumber]
      exact readQuoted_code hlength hvalue hscalar

/-! ## Strings on one line -/

theorem readQuoted_basicForm (c : Char) (t : Text) :
    readQuoted .basic false .plain (basicForm c ++ t) =
      prependTo c (readQuoted .basic false .plain t) := by
  unfold basicForm
  split
  · exact readQuoted_escape rfl
  · exact readQuoted_escape rfl
  · next hquote _ => exact readQuoted_escapedForm hquote t

theorem readQuoted_basic (s rest : Text) :
    readQuoted .basic false .plain (s.flatMap basicForm ++ '"' :: rest) = some (s, rest) := by
  induction s with
  | nil => rfl
  | cons c s ih =>
    rw [List.flatMap_cons, List.append_assoc, readQuoted_basicForm, ih, prependTo_some]

theorem readQuoted_literal (hplain : ∀ c ∈ s, isPlain c = true) (hmark : '\'' ∉ s) (rest : Text) :
    readQuoted .literal false .plain (s ++ '\'' :: rest) = some (s, rest) := by
  induction s with
  | nil => rfl
  | cons c s ih =>
    obtain ⟨hc, hplain⟩ := List.forall_mem_cons.mp hplain
    obtain ⟨hne, hmark⟩ := not_or.mp (List.mem_cons.not.mp hmark)
    have hstands : c ≠ Quote.literal.mark := fun heq => hne heq.symm
    rw [List.cons_append, readQuoted_plain hstands (fun h => nomatch h) (.inl hc), ih hplain hmark,
      prependTo_some]

/-! ## Strings over several lines

A quote belongs to the string unless two more follow. If they do, the string ends, and of
the quotes that follow these three up to two belong to it as well. -/

/-- No quote of a kind comes first. -/
def NotQuoted (mark : Char) (t : Text) : Prop :=
  t.head? ≠ some mark

theorem trailingQuotes_replicate {mark : Char} {k : Nat} (hk : k ≤ 2) (hrest : NotQuoted mark rest) :
    trailingQuotes mark (List.replicate k mark ++ rest) = (List.replicate k mark, rest) := by
  have hextra :
      ((List.replicate k mark ++ rest).take 2).takeWhile (· == mark) = List.replicate k mark := by
    rw [List.take_append, List.take_replicate, Nat.min_eq_right hk, List.takeWhile_append_of_pos]
    · cases rest with
      | nil => simp
      | cons d rest =>
        have hne : d ≠ mark := by simpa [NotQuoted] using hrest
        cases hleft : 2 - k <;> simp [hleft, hne]
    · simp
  rw [trailingQuotes, hextra, List.length_replicate, List.drop_left']
  exact List.length_replicate

/-- Quotes at the end of a string, before the closing ones. -/
theorem readQuoted_closing {k : Nat} (hk : k ≤ 2) (hrest : NotQuoted q.mark rest) :
    readQuoted q true .plain (List.replicate k q.mark ++ (List.replicate 3 q.mark ++ rest)) =
      some (List.replicate k q.mark, rest) := by
  have htext : List.replicate k q.mark ++ (List.replicate 3 q.mark ++ rest) =
      q.mark :: q.mark :: q.mark :: (List.replicate k q.mark ++ rest) := by
    rw [← List.append_assoc, List.replicate_append_replicate, Nat.add_comm,
      ← List.replicate_append_replicate, List.append_assoc]
    rfl
  rw [htext, readQuoted, step_mark]
  simp [trailingQuotes_replicate hk hrest]

theorem take_two_eq_iff {a : Char} : t.take 2 = [a, a] ↔ ∃ u, t = a :: a :: u := by
  constructor
  · intro h
    refine ⟨t.drop 2, ?_⟩
    rw [← List.take_append_drop 2 t, h]
    rfl
  · rintro ⟨u, rfl⟩
    rfl

/-- A quote that two others do not follow. -/
theorem readQuoted_mark {mark : Char} (hmark : mark = q.mark) (h : ∀ u, t ≠ mark :: mark :: u) :
    readQuoted q true .plain (mark :: t) = prependTo mark (readQuoted q true .plain t) := by
  subst hmark
  have htake : t.take 2 ≠ [q.mark, q.mark] := fun htake =>
    let ⟨u, hu⟩ := take_two_eq_iff.mp htake
    h u hu
  rw [readQuoted, step_mark]
  simp only [Bool.not_true, Bool.false_eq_true, if_false, if_neg htake]
  rfl

theorem head?_escapedForm (hquote : c ≠ '"') (t : Text) : (escapedForm c ++ t).head? ≠ some '"' := by
  unfold escapedForm
  split <;> try simp
  split <;> simp [hquote]

theorem head?_multilineBasicForm {run : Nat} (hquote : c ≠ '"') (t : Text) :
    (multilineBasicForm run (c :: s) ++ t).head? ≠ some '"' := by
  rw [multilineBasicForm, if_neg hquote, List.append_assoc]
  split
  · simp
  · exact head?_escapedForm hquote _

/-- Quotes at the end stand as they are if no three of them do. -/
theorem multilineBasicForm_replicate {run k : Nat} (h : run + k ≤ 2) :
    multilineBasicForm run (List.replicate k '"') = List.replicate k '"' := by
  induction k generalizing run with
  | zero => rfl
  | succ k ih =>
    have hrun : run ≠ 2 := by omega
    rw [List.replicate_succ, multilineBasicForm, if_pos rfl, if_neg hrun, ih (by omega)]

/-- Where two quotes follow a quote, the string has come to its closing quotes. -/
theorem eq_replicate_of_quotes {run : Nat} (hrun : 1 ≤ run ∧ run ≤ 2) {u : Text}
    (h : multilineBasicForm run s ++ (List.replicate 3 '"' ++ rest) = '"' :: '"' :: u) :
    ∃ k, run + k ≤ 2 ∧ s = List.replicate k '"' := by
  have hplain : ∀ {run : Nat} {c : Char} {s v : Text}, c ≠ '"' →
      multilineBasicForm run (c :: s) ++ (List.replicate 3 '"' ++ rest) ≠ '"' :: v := by
    intro run c s v hc heq
    exact head?_multilineBasicForm hc _ (congrArg List.head? heq)
  cases s with
  | nil => exact ⟨0, hrun.2, rfl⟩
  | cons c s =>
    obtain rfl : c = '"' := not_not.mp fun hc => hplain hc h
    rw [multilineBasicForm, if_pos rfl] at h
    split at h
    · simp at h
    · next hne =>
      obtain rfl : run = 1 := by omega
      have hrest := (List.cons.inj h).2
      cases s with
      | nil => exact ⟨1, Nat.le_refl 2, rfl⟩
      | cons d s =>
        obtain rfl : d = '"' := not_not.mp fun hd => hplain hd hrest
        simp [multilineBasicForm] at hrest

theorem readQuoted_multilineBasic {run : Nat} (hrun : run ≤ 2) (hrest : NotQuoted '"' rest) :
    readQuoted .basic true .plain (multilineBasicForm run s ++ (List.replicate 3 '"' ++ rest)) =
      some (s, rest) := by
  induction s generalizing run with
  | nil => exact readQuoted_closing (q := .basic) (Nat.zero_le 2) hrest
  | cons c s ih =>
    by_cases hc : c = '"'
    · subst hc
      rw [multilineBasicForm, if_pos rfl]
      split
      · rw [List.cons_append, List.cons_append, readQuoted_escape rfl, ih (Nat.zero_le 2),
          prependTo_some]
      · next hne =>
        by_cases hquotes : ∃ u,
            multilineBasicForm (run + 1) s ++ (List.replicate 3 '"' ++ rest) = '"' :: '"' :: u
        · obtain ⟨u, hu⟩ := hquotes
          obtain ⟨k, hk, rfl⟩ := eq_replicate_of_quotes ⟨by omega, by omega⟩ hu
          rw [multilineBasicForm_replicate hk]
          exact readQuoted_closing (q := .basic) (k := k + 1) (by omega) hrest
        · have hmark : '"' = Quote.basic.mark := rfl
          rw [List.cons_append, readQuoted_mark hmark (not_exists.mp hquotes), ih (by omega),
            prependTo_some]
    · rw [multilineBasicForm, if_neg hc, List.append_assoc]
      split
      · next hbreak =>
        subst hbreak
        rw [List.singleton_append, readQuoted_plain hc (fun _ => by decide) (.inr ⟨rfl, rfl⟩),
          ih (Nat.zero_le 2), prependTo_some]
      · rw [readQuoted_escapedForm hc, ih (Nat.zero_le 2), prependTo_some]

theorem hasRun_cons {mark : Char} (h : hasRun mark (c :: s) = false) : hasRun mark s = false := by
  match s with
  | [] | [_] => rfl
  | _ :: _ :: _ =>
    rw [hasRun] at h
    exact (Bool.or_eq_false_iff.mp h).2

/-- The same of a string that is written as it is, without three quotes in a row. -/
theorem eq_replicate_of_hasRun {mark : Char} {u : Text} (hrun : hasRun mark (mark :: s) = false)
    (h : s ++ (List.replicate 3 mark ++ rest) = mark :: mark :: u) :
    ∃ k, 1 + k ≤ 2 ∧ s = List.replicate k mark := by
  match s with
  | [] => exact ⟨0, by decide, rfl⟩
  | [a] =>
    obtain rfl := (List.cons.inj h).1
    exact ⟨1, Nat.le_refl 2, rfl⟩
  | a :: b :: s =>
    obtain ⟨rfl, hb⟩ := List.cons.inj h
    obtain ⟨rfl, -⟩ := List.cons.inj hb
    simp [hasRun] at hrun

theorem readQuoted_multilineLiteral (hplain : ∀ c ∈ s, isPlain c = true ∨ c = '\n')
    (hrun : hasRun '\'' s = false) (hrest : NotQuoted '\'' rest) :
    readQuoted .literal true .plain (s ++ (List.replicate 3 '\'' ++ rest)) = some (s, rest) := by
  induction s with
  | nil => exact readQuoted_closing (q := .literal) (Nat.zero_le 2) hrest
  | cons c s ih =>
    obtain ⟨hc, hplain⟩ := List.forall_mem_cons.mp hplain
    have hrest' := ih hplain (hasRun_cons hrun)
    rw [List.cons_append]
    by_cases hmark : c = '\''
    · subst hmark
      by_cases hquotes : ∃ u, s ++ (List.replicate 3 '\'' ++ rest) = '\'' :: '\'' :: u
      · obtain ⟨u, hu⟩ := hquotes
        obtain ⟨k, hk, rfl⟩ := eq_replicate_of_hasRun hrun hu
        exact readQuoted_closing (q := .literal) (k := k + 1) (by omega) hrest
      · have hmark : '\'' = Quote.literal.mark := rfl
        rw [readQuoted_mark hmark (not_exists.mp hquotes), hrest', prependTo_some]
    · rw [readQuoted_plain (q := .literal) hmark (fun h => nomatch h)
        (hc.imp_right fun hbreak => ⟨rfl, hbreak⟩), hrest', prependTo_some]

/-! ## All forms -/

/-- Between double quotes every string can be written, between single ones only some. -/
theorem formOf_literal (h : formOf s = (.literal, multiline)) :
    (∀ c ∈ s, isPlain c = true ∨ c = '\n') ∧
      (multiline = false → '\n' ∉ s ∧ '\'' ∉ s) ∧ (multiline = true → hasRun '\'' s = false) := by
  have hplain : s.any isControl = false → ∀ c ∈ s, isPlain c = true ∨ c = '\n' := by
    intro hany c hc
    have hcontrol := List.any_eq_false.mp hany c hc
    simp only [isControl, Bool.and_eq_true, Bool.not_eq_true', bne_iff_ne, not_and, not_not]
      at hcontrol
    exact (Bool.eq_false_or_eq_true _).imp_right hcontrol
  unfold formOf at h
  simp only at h
  split at h
  · cases h
  split at h
  · next hline =>
    obtain rfl := (Prod.mk.inj h).2
    simp only [Bool.and_eq_true, Bool.not_eq_true'] at hline
    obtain ⟨⟨hany, hbreak⟩, hmark⟩ := hline
    refine ⟨hplain hany, fun _ => ⟨?_, ?_⟩, fun h => nomatch h⟩
    · simpa using hbreak
    · simpa using hmark
  split at h
  · cases h
  split at h
  · next hlines =>
    obtain rfl := (Prod.mk.inj h).2
    simp only [Bool.and_eq_true, Bool.not_eq_true'] at hlines
    exact ⟨hplain hlines.1, (fun h => nomatch h), fun _ => hlines.2⟩
  · cases h

/-- What follows a value that has been written: nothing that could belong to it. -/
def Closed (t : Text) : Prop :=
  ∀ c ∈ t.head?, isWordChar c = false ∧ c ≠ ' '

theorem Closed.notQuoted (h : Closed t) (q : Quote) : NotQuoted q.mark t := by
  intro hhead
  have hword := (h _ hhead).1
  cases q <;> revert hword <;> decide

theorem readString_basic (h : ∀ u, t ≠ '"' :: '"' :: u) :
    readString ('"' :: t) = readQuoted .basic false .plain t := by
  rw [readString]
  exact h

theorem readString_literal (h : ∀ u, t ≠ '\'' :: '\'' :: u) :
    readString ('\'' :: t) = readQuoted .literal false .plain t := by
  rw [readString]
  exact h

theorem head?_basicForm (c : Char) (t : Text) : (basicForm c ++ t).head? ≠ some '"' := by
  unfold basicForm
  split
  · simp
  · simp
  · next hquote _ => exact head?_escapedForm hquote t

theorem readString_writeString_basic (hrest : NotQuoted '"' rest) :
    readString ('"' :: (s.flatMap basicForm ++ '"' :: rest)) = some (s, rest) := by
  rw [readString_basic, readQuoted_basic]
  intro u hu
  cases s with
  | nil => exact hrest (congrArg List.head? (List.cons.inj hu).2)
  | cons c s =>
    rw [List.flatMap_cons, List.append_assoc] at hu
    exact head?_basicForm c _ (congrArg List.head? hu)

theorem readString_writeString_literal (hplain : ∀ c ∈ s, isPlain c = true) (hmark : '\'' ∉ s)
    (hrest : NotQuoted '\'' rest) : readString ('\'' :: (s ++ '\'' :: rest)) = some (s, rest) := by
  rw [readString_literal, readQuoted_literal hplain hmark]
  intro u hu
  cases s with
  | nil => exact hrest (congrArg List.head? (List.cons.inj hu).2)
  | cons c s => exact hmark (List.mem_cons.mpr (.inl (List.cons.inj hu).1.symm))

/-! A line break right after three quotes does not belong to the string, so one is written
there if the string has any; else the string does not begin with one. -/

/-- The text does not begin with a line break. -/
def NotBroken (t : Text) : Prop :=
  ∀ c ∈ t.head?, isBreak c = false

theorem NotBroken.cons (h : isBreak c = false) (t : Text) : NotBroken (c :: t) := by
  rintro d ⟨⟩
  exact h

theorem NotBroken.skipBreak (h : NotBroken t) : skipBreak t = t := by
  unfold Toml.skipBreak
  split
  · exact absurd (h '\n' rfl) (by decide)
  · exact absurd (h '\r' rfl) (by decide)
  · rfl

/-- The line break after the opening quotes. -/
def opening (s : Text) : Text :=
  if s.contains '\n' then ['\n'] else []

theorem skipBreak_opening (h : '\n' ∉ s → NotBroken t) : skipBreak (opening s ++ t) = t := by
  unfold opening
  split
  · rfl
  · next hbreak => exact (h (by simpa using hbreak)).skipBreak

theorem notBroken_escapedForm (hbreak : c ≠ '\n') (t : Text) : NotBroken (escapedForm c ++ t) := by
  unfold escapedForm
  split
  · exact .cons rfl _
  · exact .cons rfl _
  · exact .cons rfl _
  · exact .cons rfl _
  · exact .cons rfl _
  · next hreturn =>
    split
    · refine .cons ?_ _
      rw [isBreak, Bool.or_eq_false_iff]
      exact ⟨beq_false_of_ne hbreak, beq_false_of_ne hreturn⟩
    · exact .cons rfl _

theorem notBroken_multilineBasicForm (h : '\n' ∉ s) (t : Text) :
    NotBroken (multilineBasicForm 0 s ++ (List.replicate 3 '"' ++ t)) := by
  cases s with
  | nil => exact .cons rfl _
  | cons c s =>
    have hbreak : c ≠ '\n' := fun heq => h (heq ▸ List.mem_cons_self)
    rw [multilineBasicForm]
    split
    · exact .cons rfl _
    · rw [List.append_assoc]
      exact notBroken_escapedForm hbreak _

theorem notBroken_plain (hplain : ∀ c ∈ s, isPlain c = true ∨ c = '\n') (h : '\n' ∉ s) (t : Text) :
    NotBroken (s ++ (List.replicate 3 '\'' ++ t)) := by
  cases s with
  | nil => exact .cons rfl _
  | cons c s =>
    have hbreak : c ≠ '\n' := fun heq => h (heq ▸ List.mem_cons_self)
    have hc := (hplain c List.mem_cons_self).resolve_right hbreak
    have hreturn : c ≠ '\r' := by
      rintro rfl
      contradiction
    refine .cons ?_ _
    rw [isBreak, Bool.or_eq_false_iff]
    exact ⟨beq_false_of_ne hbreak, beq_false_of_ne hreturn⟩

theorem readString_writeString_multilineBasic (hrest : NotQuoted '"' rest) :
    readString (List.replicate 3 '"' ++ (opening s ++ (multilineBasicForm 0 s ++
      (List.replicate 3 '"' ++ rest)))) = some (s, rest) := by
  show readQuoted .basic true .plain (skipBreak (opening s ++ _)) = _
  rw [skipBreak_opening fun h => notBroken_multilineBasicForm h _,
    readQuoted_multilineBasic (Nat.zero_le 2) hrest]

theorem readString_writeString_multilineLiteral (hplain : ∀ c ∈ s, isPlain c = true ∨ c = '\n')
    (hrun : hasRun '\'' s = false) (hrest : NotQuoted '\'' rest) :
    readString (List.replicate 3 '\'' ++ (opening s ++ (s ++ (List.replicate 3 '\'' ++ rest)))) =
      some (s, rest) := by
  show readQuoted .literal true .plain (skipBreak (opening s ++ _)) = _
  rw [skipBreak_opening fun h => notBroken_plain hplain h _,
    readQuoted_multilineLiteral hplain hrun hrest]

/-- **What has been written is read back**, whatever the string. -/
theorem readString_writeString (s : Text) (hrest : Closed rest) :
    readString (writeString s ++ rest) = some (s, rest) := by
  have hbasic : NotQuoted '"' rest := hrest.notQuoted .basic
  have hliteral : NotQuoted '\'' rest := hrest.notQuoted .literal
  unfold writeString
  simp only
  split
  · simpa using readString_writeString_basic hbasic
  · next hform =>
    obtain ⟨hplain, hline, -⟩ := formOf_literal hform
    obtain ⟨hbreak, hmark⟩ := hline rfl
    have hplain' : ∀ c ∈ s, isPlain c = true := fun c hc =>
      (hplain c hc).resolve_right fun heq => hbreak (heq ▸ hc)
    simpa using readString_writeString_literal hplain' hmark hliteral
  · rw [List.append_assoc, List.append_assoc, List.append_assoc]
    exact readString_writeString_multilineBasic hbasic
  · next hform =>
    obtain ⟨hplain, -, hlines⟩ := formOf_literal hform
    rw [List.append_assoc, List.append_assoc, List.append_assoc]
    exact readString_writeString_multilineLiteral hplain (hlines rfl) hliteral

/-! ## Carriage returns -/

theorem return_not_mem_padded : ∀ n < 128, '\r' ∉ (Hexadecimal.padded 4 n).map Char.toUpper := by
  decide +kernel

theorem return_not_mem_escapedForm (c : Char) : '\r' ∉ escapedForm c := by
  unfold escapedForm
  split
  · decide
  · decide
  · decide
  · decide
  · decide
  · next hreturn =>
    split
    · simpa using fun heq => hreturn heq.symm
    · next hcontrol =>
      have hlt := toNat_lt_of_not_isPlain (Bool.eq_false_iff.mpr hcontrol)
      exact List.not_mem_append (by decide) (return_not_mem_padded c.toNat hlt)

theorem return_not_mem_basicForm (c : Char) : '\r' ∉ basicForm c := by
  unfold basicForm
  split
  · decide
  · decide
  · exact return_not_mem_escapedForm c

theorem return_not_mem_multilineBasicForm (run : Nat) (s : Text) :
    '\r' ∉ multilineBasicForm run s := by
  induction s generalizing run with
  | nil => exact List.not_mem_nil
  | cons c s ih =>
    rw [multilineBasicForm]
    split
    · split
      · simpa using ih 0
      · simpa using ih (run + 1)
    · refine List.not_mem_append ?_ (ih 0)
      split
      · decide
      · exact return_not_mem_escapedForm c

theorem return_not_mem_plain (hplain : ∀ c ∈ s, isPlain c = true ∨ c = '\n') : '\r' ∉ s := by
  intro hmem
  rcases hplain _ hmem with h | h <;> contradiction

/-- A string is written without carriage returns. -/
theorem return_not_mem_writeString (s : Text) : '\r' ∉ writeString s := by
  have hopening : '\r' ∉ opening s := by
    unfold opening
    split <;> decide
  have hbasic : '\r' ∉ s.flatMap basicForm := by
    intro hmem
    obtain ⟨c, -, hc⟩ := List.mem_flatMap.mp hmem
    exact return_not_mem_basicForm c hc
  unfold writeString
  simp only
  split
  · simpa using hbasic
  · next hform =>
    simpa using return_not_mem_plain (formOf_literal hform).1
  · have hform := return_not_mem_multilineBasicForm 0 s
    exact List.not_mem_append (List.not_mem_append (List.not_mem_append (by decide) hopening) hform)
      (by decide)
  · next hform =>
    have hplain := return_not_mem_plain (formOf_literal hform).1
    exact List.not_mem_append (List.not_mem_append (List.not_mem_append (by decide) hopening) hplain)
      (by decide)

end Toml

end KafkaScript

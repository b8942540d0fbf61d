import Mathlib.Logic.Function.Basic
import KafkaScript.Text.Position
import KafkaScript.Text.Quoted

/-!
# What is shown can be told apart

Numbers, positions, ranges and quoted texts are shown in one way each, and two
different ones never in the same way. Nearly every step is the same: what is
shown consists of two parts, and the second one begins with the first character
of some kind, so the place where they meet can be found again (`CutBefore.inj`).
-/

namespace KafkaScript

/-- A list in two parts, the second of which is empty or begins with the first
element for which `p` holds. -/
structure CutBefore {α : Type} (p : α → Prop) (a b : List α) : Prop where
  front : ∀ x ∈ a, ¬ p x
  back : ∀ x ∈ b.head?, p x

namespace CutBefore

variable {α : Type} {p : α → Prop} {a a' b b' : List α}

private theorem eq_nil_of_append {u : List α} (h : CutBefore p (a ++ u) b)
    (h' : CutBefore p a (u ++ b)) : u = [] := by
  cases u with
  | nil => rfl
  | cons x u => exact absurd (h'.back x rfl) (h.front x (by simp))

/-- There is one place where a list can be cut like that. -/
theorem inj (h : CutBefore p a b) (h' : CutBefore p a' b') (heq : a ++ b = a' ++ b') :
    a = a' ∧ b = b' := by
  rcases List.append_eq_append_iff.mp heq with ⟨u, rfl, rfl⟩ | ⟨u, rfl, rfl⟩
  · obtain rfl := eq_nil_of_append h' h
    simp
  · obtain rfl := eq_nil_of_append h h'
    simp

/-- A separator that does not occur before it can be found. -/
theorem separator {c : α} (h : c ∉ a) (b : List α) : CutBefore (· = c) a (c :: b) where
  front := fun _ hx heq => h (heq ▸ hx)
  back := fun _ hx => (Option.some.inj hx).symm

end CutBefore

/-- A list that begins with an element for which `p` holds and goes on with
elements for which it does not. -/
def Headed {α : Type} (p : α → Prop) (l : List α) : Prop :=
  ∃ x xs, l = x :: xs ∧ p x ∧ ∀ y ∈ xs, ¬ p y

theorem Headed.head?_flatten {α : Type} {p : α → Prop} {ls : List (List α)}
    (h : ∀ l ∈ ls, Headed p l) : ∀ x ∈ ls.flatten.head?, p x := by
  intro x hx
  cases ls with
  | nil => simp at hx
  | cons l ls =>
    obtain ⟨y, ys, rfl, hy, -⟩ := h _ List.mem_cons_self
    obtain rfl : y = x := by simpa using hx
    exact hy

/-- Such lists can be told apart in what they make up together. -/
theorem Headed.flatten_inj {α : Type} {p : α → Prop} {as bs : List (List α)}
    (ha : ∀ l ∈ as, Headed p l) (hb : ∀ l ∈ bs, Headed p l) (h : as.flatten = bs.flatten) :
    as = bs := by
  induction as generalizing bs with
  | nil =>
    cases bs with
    | nil => rfl
    | cons l bs =>
      obtain ⟨y, ys, rfl, -, -⟩ := hb _ List.mem_cons_self
      simp at h
  | cons l as ih =>
    obtain ⟨x, xs, rfl, -, hxs⟩ := ha l List.mem_cons_self
    cases bs with
    | nil => simp at h
    | cons m bs =>
      obtain ⟨y, ys, rfl, -, hys⟩ := hb m List.mem_cons_self
      obtain ⟨rfl, htail⟩ := List.cons.inj h
      have has : ∀ l ∈ as, Headed p l := fun l hl => ha l (List.mem_cons_of_mem _ hl)
      have hbs : ∀ l ∈ bs, Headed p l := fun l hl => hb l (List.mem_cons_of_mem _ hl)
      -- a list ends where the next one begins with its head
      have hcut : CutBefore p xs as.flatten := ⟨hxs, head?_flatten has⟩
      obtain ⟨rfl, hrest⟩ := hcut.inj ⟨hys, head?_flatten hbs⟩ htail
      rw [ih has hbs hrest]

/-- Texts of which each can be read off what begins with it can be told apart in
what they make up together. -/
theorem flatMap_inj {α β : Type} {f : α → List β} {P : α → Prop} (hne : ∀ a, P a → f a ≠ [])
    (hf : ∀ a b s t, P a → P b → f a ++ s = f b ++ t → a = b ∧ s = t) {as bs : List α}
    (ha : ∀ a ∈ as, P a) (hb : ∀ b ∈ bs, P b) (h : as.flatMap f = bs.flatMap f) : as = bs := by
  induction as generalizing bs with
  | nil =>
    cases bs with
    | nil => rfl
    | cons b bs =>
      rw [List.flatMap_nil, List.flatMap_cons] at h
      exact absurd (List.append_eq_nil_iff.mp h.symm).1 (hne b (hb b List.mem_cons_self))
  | cons a as ih =>
    cases bs with
    | nil =>
      rw [List.flatMap_nil, List.flatMap_cons] at h
      exact absurd (List.append_eq_nil_iff.mp h).1 (hne a (ha a List.mem_cons_self))
    | cons b bs =>
      rw [List.flatMap_cons, List.flatMap_cons] at h
      obtain ⟨rfl, hrest⟩ := hf a b _ _ (ha a List.mem_cons_self) (hb b List.mem_cons_self) h
      rw [ih (fun x hx => ha x (List.mem_cons_of_mem _ hx))
        (fun x hx => hb x (List.mem_cons_of_mem _ hx)) hrest]

/-! ## Numbers -/

/-- Numbers written in base `b`, the most significant digit first, without zeros
in front. -/
structure Positional (b : Nat) (digit : Nat → Char) (print : Nat → Text) : Prop where
  base : 1 < b
  print_eq : ∀ n, print n = if n < b then [digit n] else print (n / b) ++ [digit (n % b)]
  digit_inj : ∀ m < b, ∀ n < b, digit m = digit n → m = n

namespace Positional

variable {b : Nat} {digit : Nat → Char} {print : Nat → Text}

/-- Only digits are written. -/
theorem not_mem (h : Positional b digit print) {c : Char} (hc : ∀ d < b, c ≠ digit d) (n : Nat) :
    c ∉ print n := by
  induction n using Nat.strongRecOn with
  | ind n ih =>
    intro hmem
    have hbase := h.base
    rw [h.print_eq] at hmem
    split at hmem
    · next hn => exact hc n hn (List.mem_singleton.mp hmem)
    · next hn =>
      rcases List.mem_append.mp hmem with hmem | hmem
      · exact ih (n / b) (Nat.div_lt_self (by omega) h.base) hmem
      · exact hc (n % b) (Nat.mod_lt n (by omega)) (List.mem_singleton.mp hmem)

theorem print_ne_nil (h : Positional b digit print) (n : Nat) : print n ≠ [] := by
  rw [h.print_eq]
  split <;> simp

/-- A number is written with at least two digits if it is no digit itself. -/
private theorem ne_singleton (h : Positional b digit print) {n : Nat} (hn : ¬ n < b) (c : Char) :
    print n ≠ [c] := by
  rw [h.print_eq, if_neg hn]
  intro heq
  have hlen := congrArg List.length heq
  have hpos := List.length_pos_iff.mpr (h.print_ne_nil (n / b))
  simp only [List.length_append, List.length_singleton] at hlen
  omega

/-- Different numbers are written differently. -/
theorem injective (h : Positional b digit print) : Function.Injective print := by
  intro m n
  have hbase := h.base
  induction m using Nat.strongRecOn generalizing n with
  | ind m ih =>
    intro heq
    by_cases hm : m < b
    · have hshort : print m = [digit m] := by rw [h.print_eq, if_pos hm]
      have hn : n < b := by
        by_contra hn
        exact h.ne_singleton hn _ (heq.symm.trans hshort)
      rw [h.print_eq m, h.print_eq n, if_pos hm, if_pos hn] at heq
      exact h.digit_inj m hm n hn (List.singleton_inj.mp heq)
    · have hn : ¬ n < b := by
        intro hn
        refine h.ne_singleton hm (digit n) (heq.trans ?_)
        rw [h.print_eq, if_pos hn]
      -- equal last digits, and equal numbers before them
      rw [h.print_eq m, h.print_eq n, if_neg hm, if_neg hn] at heq
      obtain ⟨hfront, hlast⟩ := List.append_inj' heq rfl
      have hdiv := ih (m / b) (Nat.div_lt_self (by omega) h.base) hfront
      have hmod := h.digit_inj _ (Nat.mod_lt m (by omega)) _ (Nat.mod_lt n (by omega))
        (List.singleton_inj.mp hlast)
      rw [← Nat.div_add_mod m b, ← Nat.div_add_mod n b, hdiv, hmod]

end Positional

theorem Decimal.positional : Positional 10 digitChar print where
  base := by decide
  print_eq := fun n => by rw [print]
  digit_inj := by decide

theorem Hexadecimal.positional : Positional 16 Nat.digitChar print where
  base := by decide
  print_eq := fun n => Nat.toDigits_eq_if (by decide)
  digit_inj := by decide

/-! ## Positions and ranges -/

theorem Position.not_mem_display {c : Char} (h : ∀ d < 10, c ≠ Decimal.digitChar d) (hc : c ≠ ':')
    (p : Position) : c ∉ p.display := by
  simp only [display, List.mem_append, List.mem_cons, not_or]
  exact ⟨Decimal.positional.not_mem h p.line, hc, Decimal.positional.not_mem h p.character⟩

theorem Position.display_injective : Function.Injective display := by
  intro p q heq
  have hcut := fun n => CutBefore.separator (Decimal.positional.not_mem (c := ':') (by decide) n)
  obtain ⟨hline, hcharacter⟩ := (hcut p.line _).inj (hcut q.line _) heq
  have hl := Decimal.positional.injective hline
  have hc := Decimal.positional.injective (List.cons.inj hcharacter).2
  cases p
  cases q
  simp_all

theorem Range.not_mem_display {c : Char} (h : ∀ d < 10, c ≠ Decimal.digitChar d) (hc : c ≠ ':')
    (hdot : c ≠ '.') (r : Range) : c ∉ r.display := by
  have hstart := Position.not_mem_display h hc r.start
  have hstop := Position.not_mem_display h hc r.stop
  simp [display, hstart, hstop, hdot]

theorem Range.display_injective : Function.Injective display := by
  intro r s heq
  have hcut := fun p => CutBefore.separator
    (Position.not_mem_display (c := '.') (by decide) (by decide) p)
  simp only [display, List.append_assoc, List.cons_append, List.nil_append] at heq
  obtain ⟨hstart, hstop⟩ := (hcut r.start _).inj (hcut s.start _) heq
  have hr := Position.display_injective hstart
  have hs := Position.display_injective (List.cons.inj (List.cons.inj hstop).2).2
  cases r
  cases s
  simp_all

/-! ## Quoted texts -/

namespace Text

/-- The characters with a backslash form, each with the letter of that form. -/
def backslashForms : List (Char × Char) :=
  [('"', '"'), ('\\', '\\'), ('\x00', '0'), ('\t', 't'), ('\n', 'n'), ('\r', 'r')]

/-- The ways in which a character is shown between quotes. -/
inductive ShownAs (c : Char) : Text → Prop where
  | letter {e : Char} : (c, e) ∈ backslashForms → ShownAs c ['\\', e]
  | number : ShownAs c (['\\', 'u', '\x7b'] ++ Hexadecimal.print c.toNat ++ ['\x7d'])
  | plain : c ≠ '\\' → c ≠ '\n' → ShownAs c [c]

theorem shownAs_quotedChar (c : Char) : ShownAs c (quotedChar c) := by
  unfold quotedChar
  split
  · exact .letter (by decide)
  · exact .letter (by decide)
  · exact .letter (by decide)
  · exact .letter (by decide)
  · exact .letter (by decide)
  · exact .letter (by decide)
  · next hbackslash _ _ hfeed _ =>
    split
    · exact .number
    · exact .plain hbackslash hfeed

theorem ShownAs.not_mem_lineFeed {c : Char} {s : Text} (h : ShownAs c s) : '\n' ∉ s := by
  cases h with
  | letter he =>
    have hletter : ∀ x ∈ backslashForms, x.2 ≠ '\n' := by decide
    simpa using (hletter _ he).symm
  | number => simp [Hexadecimal.positional.not_mem (c := '\n') (by decide)]
  | plain _ hfeed => simpa using hfeed.symm

theorem ShownAs.ne_nil {c : Char} {s : Text} (h : ShownAs c s) : s ≠ [] := by
  cases h <;> simp

private theorem eq_of_mem_backslashForms {c c' e : Char} (h : (c, e) ∈ backslashForms)
    (h' : (c', e) ∈ backslashForms) : c = c' := by
  have hall : ∀ x ∈ backslashForms, ∀ y ∈ backslashForms, x.2 = y.2 → x.1 = y.1 := by decide
  exact hall _ h _ h' rfl

private theorem not_mem_backslashForms_u (c : Char) : (c, 'u') ∉ backslashForms := by
  have hall : ∀ x ∈ backslashForms, x.2 ≠ 'u' := by decide
  exact fun h => hall _ h rfl

/-- The first character shown and what is shown after it can be read off. -/
theorem ShownAs.append_inj {c c' : Char} {s s' t t' : Text} (h : ShownAs c s)
    (h' : ShownAs c' s') (heq : s ++ t = s' ++ t') : c = c' ∧ t = t' := by
  -- what comes first tells the forms apart: no backslash, one before a letter other
  -- than that of a number, or one before that letter
  cases h with
  | letter he =>
    cases h' with
    | letter he' =>
      obtain ⟨rfl, rfl⟩ := by simpa using heq
      exact ⟨eq_of_mem_backslashForms he he', rfl⟩
    | number =>
      obtain ⟨rfl, -⟩ := by simpa using heq
      exact absurd he (not_mem_backslashForms_u c)
    | plain hbackslash _ => exact absurd (List.cons.inj heq).1.symm hbackslash
  | number =>
    cases h' with
    | letter he' =>
      obtain ⟨rfl, -⟩ := by simpa using heq
      exact absurd he' (not_mem_backslashForms_u c')
    | number =>
      have hcut := fun n =>
        CutBefore.separator (Hexadecimal.positional.not_mem (c := '\x7d') (by decide) n)
      simp only [List.append_assoc, List.cons_append, List.nil_append, List.cons.injEq,
        true_and] at heq
      obtain ⟨hnumber, hrest⟩ := (hcut _ _).inj (hcut _ _) heq
      have hnat := Hexadecimal.positional.injective hnumber
      exact ⟨Char.ext (UInt32.toNat_inj.mp hnat), (List.cons.inj hrest).2⟩
    | plain hbackslash _ => exact absurd (List.cons.inj heq).1.symm hbackslash
  | plain hbackslash _ =>
    cases h' with
    | letter _ => exact absurd (List.cons.inj heq).1 hbackslash
    | number => exact absurd (List.cons.inj heq).1 hbackslash
    | plain _ _ => simpa using heq

theorem not_mem_quoted_lineFeed (t : Text) : '\n' ∉ t.quoted := by
  simp only [quoted, List.cons_append, List.mem_cons, List.mem_append, List.mem_flatMap, not_or,
    not_exists, not_and]
  exact ⟨by decide, fun c _ => (shownAs_quotedChar c).not_mem_lineFeed, by decide, by simp⟩

theorem quoted_injective : Function.Injective quoted := by
  intro s t heq
  have hbody : s.flatMap quotedChar = t.flatMap quotedChar :=
    List.append_cancel_right (List.cons.inj heq).2
  refine flatMap_inj (P := fun _ => True) (fun c _ => (shownAs_quotedChar c).ne_nil) ?_
    (fun _ _ => trivial) (fun _ _ => trivial) hbody
  intro c c' s t _ _ h
  exact (shownAs_quotedChar c).append_inj (shownAs_quotedChar c') h

end Text

end KafkaScript

/-!
# Text

A text is the list of its Unicode scalar values. Sizes and offsets are counted
in UTF-8 bytes, so that an offset into a text is an offset into the file that
holds it. Splitting at a separator keeps every character but the separators.
-/

namespace KafkaScript

/-- A text is the sequence of its Unicode scalar values. -/
abbrev Text := List Char

namespace Text

/-- Number of bytes of the UTF-8 form. -/
def utf8Size : Text → Nat
  | [] => 0
  | c :: t => c.utf8Size + utf8Size t

@[simp] theorem utf8Size_nil : utf8Size [] = 0 := rfl

@[simp] theorem utf8Size_cons (c : Char) (t : Text) :
    utf8Size (c :: t) = c.utf8Size + utf8Size t := rfl

@[simp] theorem utf8Size_append (s t : Text) :
    utf8Size (s ++ t) = utf8Size s + utf8Size t := by
  induction s with
  | nil => simp
  | cons c s ih =>
    rw [List.cons_append, utf8Size_cons, utf8Size_cons, ih, Nat.add_assoc]

/-- What follows the first `n` bytes, if a character begins or the text ends there. -/
def afterBytes? : Nat → Text → Option Text
  | 0, t => some t
  | _, [] => none
  | n, c :: t => if c.utf8Size ≤ n then afterBytes? (n - c.utf8Size) t else none

/-- Splits at the first occurrence of `sep`, which belongs to neither part. -/
def splitFirst (sep : Char) : Text → Option (Text × Text)
  | [] => none
  | c :: t => if c = sep then some ([], t) else (splitFirst sep t).map fun (a, b) => (c :: a, b)

/-- The parts and the separator make up the whole length. -/
theorem length_of_splitFirst {sep : Char} {t a b : Text} (h : splitFirst sep t = some (a, b)) :
    a.length + b.length + 1 = t.length := by
  induction t generalizing a with
  | nil => simp [splitFirst] at h
  | cons c t ih =>
    rw [splitFirst] at h
    split at h
    · simp only [Option.some.injEq, Prod.mk.injEq] at h
      simp [← h.1, ← h.2]
    · obtain ⟨⟨a', b'⟩, h', he⟩ := Option.map_eq_some_iff.1 h
      simp only [Prod.mk.injEq] at he
      have := ih (he.2 ▸ h')
      simp [← he.1]
      omega

/-- Splits at every occurrence of `sep`: one part more than there are separators. -/
def splitAll (sep : Char) : Text → List Text
  | [] => [[]]
  | c :: t =>
    if c = sep then [] :: splitAll sep t
    else match splitAll sep t with
      | [] => [[c]]
      | part :: parts => (c :: part) :: parts

theorem splitAll_ne_nil (sep : Char) (t : Text) : splitAll sep t ≠ [] := by
  cases t with
  | nil => simp [splitAll]
  | cons c t =>
    rw [splitAll]
    split
    · simp
    · split <;> simp

/-- The texts one after the other with `sep` between them. -/
def join (sep : Text) : List Text → Text
  | [] => []
  | [t] => t
  | t :: ts => t ++ sep ++ join sep ts

/-- Some lines, each with its line break. -/
def unlines (lines : List Text) : Text :=
  lines.flatMap fun l => l ++ ['\n']

end Text

end KafkaScript

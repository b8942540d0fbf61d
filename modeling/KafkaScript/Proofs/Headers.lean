import KafkaScript.Command
import KafkaScript.Proofs.Text.Parts
import KafkaScript.Proofs.Text.Trim

/-!
# Headers

A header is a name and a value that can be written down with commas between the
headers and be told apart again (`IsHeader`). Reading a text gives headers and
nothing else, and gives each list of headers when it is written out
(`parseHeaders_roundTrip`). A part of the text stands for one header or for none
(`header?`), so no part touches what its neighbours say.
-/

namespace KafkaScript

variable {part : Text} {p : Text × Text}

/-- A name and a value that stay what they are when they are written down: neither
has blanks around it or holds a comma, and the name is not empty and holds no
equals sign. -/
structure IsHeader (p : Text × Text) : Prop where
  name_ne_nil : p.1 ≠ []
  trim_name : p.1.trim = p.1
  comma_name : ',' ∉ p.1
  equals_name : '=' ∉ p.1
  trim_value : p.2.trim = p.2
  comma_value : ',' ∉ p.2

instance : DecidablePred IsHeader := fun p =>
  decidable_of_iff (p.1 ≠ [] ∧ p.1.trim = p.1 ∧ ',' ∉ p.1 ∧ '=' ∉ p.1 ∧ p.2.trim = p.2 ∧ ',' ∉ p.2)
    ⟨fun ⟨a, b, c, d, e, f⟩ => ⟨a, b, c, d, e, f⟩, fun ⟨a, b, c, d, e, f⟩ => ⟨a, b, c, d, e, f⟩⟩

/-- A header as it is written down. -/
def printHeader (p : Text × Text) : Text :=
  p.1 ++ '=' :: p.2

/-- Some headers with commas between them. -/
def printHeaders (l : List (Text × Text)) : Text :=
  Text.join [','] (l.map printHeader)

/-! ## One part -/

/-- The header that one part between commas stands for. -/
def header? (part : Text) : Option (Text × Text) :=
  (part.splitFirst '=').bind fun (name, value) =>
    if name.trim.isEmpty then none else some (name.trim, value.trim)

theorem parseHeaders_eq (t : Text) : parseHeaders t = (t.splitAll ',').filterMap header? := rfl

theorem isHeader_of_header? (hcomma : ',' ∉ part) (h : header? part = some p) : IsHeader p := by
  obtain ⟨⟨name, value⟩, hcut, hp⟩ := Option.bind_eq_some_iff.mp h
  obtain ⟨rfl, hequals⟩ := Text.eq_append_of_splitFirst hcut
  obtain ⟨hname, hvalue⟩ : ',' ∉ name ∧ ',' ∉ value := by
    simpa using hcomma
  dsimp only at hp
  split at hp
  · contradiction
  · next hne =>
    obtain rfl := Option.some.inj hp
    exact ⟨by simpa using hne, name.trim_trim, fun h => hname (Text.mem_of_mem_trim h),
      fun h => hequals (Text.mem_of_mem_trim h), value.trim_trim,
      fun h => hvalue (Text.mem_of_mem_trim h)⟩

theorem header?_print (h : IsHeader p) : header? (printHeader p) = some p := by
  obtain ⟨name, value⟩ := p
  have hne : ¬ name.trim.isEmpty = true := by
    rw [h.trim_name, List.isEmpty_iff]
    exact h.name_ne_nil
  rw [header?, printHeader, Text.splitFirst_append_cons h.equals_name, Option.bind_some]
  dsimp only
  rw [if_neg hne, h.trim_name, h.trim_value]

theorem IsHeader.comma_print (h : IsHeader p) : ',' ∉ printHeader p := by
  rw [printHeader, List.mem_append, List.mem_cons]
  rintro (hname | heq | hvalue)
  · exact h.comma_name hname
  · exact absurd heq (by decide)
  · exact h.comma_value hvalue

/-! ## Lists of headers -/

theorem isHeader_of_mem_parseHeaders {t : Text} (h : p ∈ parseHeaders t) : IsHeader p := by
  rw [parseHeaders_eq, List.mem_filterMap] at h
  obtain ⟨part, hpart, hp⟩ := h
  exact isHeader_of_header? (Text.not_mem_of_mem_splitAll part hpart) hp

theorem parseHeaders_print {l : List (Text × Text)} (h : ∀ p ∈ l, IsHeader p) :
    parseHeaders (printHeaders l) = l := by
  by_cases hne : l = []
  · -- nothing between no commas is one empty part, which stands for no header
    rw [hne]
    rfl
  · have hcomma : ∀ part ∈ l.map printHeader, ',' ∉ part := by
      intro part hpart
      obtain ⟨p, hp, rfl⟩ := List.mem_map.mp hpart
      exact (h p hp).comma_print
    have hheaders : l.filterMap (header? ∘ printHeader) = l.filterMap some := by
      apply List.filterMap_congr
      intro p hp
      exact header?_print (h p hp)
    rw [parseHeaders_eq, printHeaders, Text.splitAll_join (by simpa using hne) hcomma,
      List.filterMap_map, hheaders, List.filterMap_some]

theorem parseHeaders_append (t u : Text) :
    parseHeaders (t ++ ',' :: u) = parseHeaders t ++ parseHeaders u := by
  simp only [parseHeaders_eq, Text.splitAll_append_cons, List.filterMap_append]

/-- Reading gives headers only. Each list of headers, in order and with repetitions,
is what reading gives of it once it is written down, and two texts with a comma
between them give the headers of both. -/
theorem parseHeaders_roundTrip :
    (∀ t, ∀ p ∈ parseHeaders t, IsHeader p) ∧
      (∀ l, (∀ p ∈ l, IsHeader p) → parseHeaders (printHeaders l) = l) ∧
      ∀ t u, parseHeaders (t ++ ',' :: u) = parseHeaders t ++ parseHeaders u :=
  ⟨fun _ _ h => isHeader_of_mem_parseHeaders h, fun _ h => parseHeaders_print h,
    parseHeaders_append⟩

/-- A value may hold equals signs or be empty, and a header may be repeated. -/
theorem parseHeaders_roundTrip_repeated :
    let l := [("a".toList, "x=y=".toList), ("b c".toList, []), ("a".toList, "x=y=".toList)]
    (∀ p ∈ l, IsHeader p) ∧ printHeaders l = "a=x=y=,b c=,a=x=y=".toList ∧
      parseHeaders (printHeaders l) = l :=
  have hl : ∀ p ∈ [("a".toList, "x=y=".toList), ("b c".toList, []), ("a".toList, "x=y=".toList)],
      IsHeader p := by decide
  ⟨hl, by decide, parseHeaders_roundTrip.2.1 _ hl⟩

end KafkaScript

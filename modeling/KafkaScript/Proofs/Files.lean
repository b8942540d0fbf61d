import Mathlib.Data.List.Basic
import KafkaScript.Files.Scripts
import KafkaScript.Proofs.Text.Parts
import KafkaScript.Proofs.Text.Shown

/-!
# The addresses of files

A file is read under an address that is made from its place, the names that lead to
it from the root. Places are told apart by their paths (`Path.ofNames_injective`),
but the address of a path has slashes for its backslashes. Two files therefore share
an address exactly if their paths agree once backslashes are read as slashes
(`FileSystem.uri_eq_iff`). A system that has that happen to no two of some files
keeps them apart; one without backslashes in the names of the files does
(`FileSystem.KeepsApart.of_not_mem`).
-/

namespace KafkaScript

namespace Path

/-! ## Paths -/

/-- A path with its backslashes read as slashes. -/
def slashed (p : Text) : Text :=
  p.map fun c => if c = '\\' then '/' else c

theorem slashed_of_not_mem {p : Text} (h : '\\' ∉ p) : slashed p = p := by
  induction p with
  | nil => rfl
  | cons c p ih =>
    have hc : c ≠ '\\' := fun heq => h (heq ▸ List.mem_cons_self)
    have hrest := ih fun hp => h (List.mem_cons_of_mem c hp)
    rw [slashed, List.map_cons, if_neg hc]
    exact congrArg (c :: ·) hrest

/-- What an entry of a directory can be called. -/
structure IsName (t : Text) : Prop where
  ne_nil : t ≠ []
  separator : separator ∉ t

theorem ofNames_cons (name : Text) (names : List Text) :
    ofNames (name :: names) = ((name :: names).map (separator :: ·)).flatten := by
  induction names generalizing name with
  | nil => simp [ofNames, Text.join]
  | cons next names ih =>
    have hrest : ofNames (name :: next :: names) =
        separator :: name ++ ofNames (next :: names) := by
      simp [ofNames, Text.join]
    rw [hrest, ih]
    rfl

private theorem ofNames_ne_nil_names {name : Text} (h : IsName name) (names : List Text) :
    ofNames (name :: names) ≠ ofNames [] := by
  rw [ofNames_cons]
  intro heq
  -- the root is a slash alone, and a name would follow it
  have hnil : name = [] := by
    simpa [ofNames, Text.join] using congrArg (List.take name.length) (List.cons.inj heq).2
  exact h.ne_nil hnil

/-- The names can be read off the path that they make up. -/
theorem ofNames_injective {ns ms : List Text} (hns : ∀ n ∈ ns, IsName n) (hms : ∀ n ∈ ms, IsName n)
    (h : ofNames ns = ofNames ms) : ns = ms := by
  have hheaded : ∀ ls : List Text, (∀ n ∈ ls, IsName n) →
      ∀ l ∈ ls.map (separator :: ·), Headed (· = separator) l := by
    intro ls hls l hl
    obtain ⟨n, hn, rfl⟩ := List.mem_map.mp hl
    exact ⟨separator, n, rfl, rfl, fun y hy heq => (hls n hn).separator (heq ▸ hy)⟩
  cases ns with
  | nil =>
    cases ms with
    | nil => rfl
    | cons m ms => exact absurd h.symm (ofNames_ne_nil_names (hms m List.mem_cons_self) ms)
  | cons n ns =>
    cases ms with
    | nil => exact absurd h (ofNames_ne_nil_names (hns n List.mem_cons_self) ns)
    | cons m ms =>
      rw [ofNames_cons, ofNames_cons] at h
      have hmap := Headed.flatten_inj (hheaded _ hns) (hheaded _ hms) h
      exact List.map_injective_iff.mpr List.cons_injective hmap

end Path

/-- Two absolute paths have the same address if they differ at most in which of their
slashes are backslashes. -/
theorem fileUri_eq_iff {p q : Text} (hp : Path.isAbsolute p = true)
    (hq : Path.isAbsolute q = true) : fileUri p = fileUri q ↔ Path.slashed p = Path.slashed q := by
  have huri : ∀ r, Path.isAbsolute r = true → fileUri r = "file://".toList ++ Path.slashed r := by
    intro r hr
    cases r with
    | nil => contradiction
    | cons c r =>
      obtain rfl : c = '/' := by simpa [Path.isAbsolute, Path.separator] using hr
      rfl
  rw [huri p hp, huri q hq, List.append_right_inj]

/-- A text between two slashes is a name as it stands. -/
theorem PathPart.eq_of_ofSegment? {segment t : Text} (h : ofSegment? segment = some (name t)) :
    segment = t ∧ t ≠ [] := by
  unfold ofSegment? at h
  split at h
  · contradiction
  · next hne =>
    split at h
    · cases h
    · cases h
      exact ⟨rfl, fun heq => hne (.inl heq)⟩

namespace FileSystem

variable {fs : FileSystem} {files : List Text}

/-! ## Places -/

theorem isName_of_walk {here names segments : List Text} (hhere : ∀ n ∈ here, Path.IsName n)
    (hsegments : ∀ s ∈ segments, Path.separator ∉ s) (h : fs.walk here segments = some names) :
    ∀ n ∈ names, Path.IsName n := by
  induction segments generalizing here with
  | nil =>
    obtain rfl := Option.some.inj h
    exact hhere
  | cons segment rest ih =>
    have hrest : ∀ s ∈ rest, Path.separator ∉ s :=
      fun s hs => hsegments s (List.mem_cons_of_mem segment hs)
    rw [walk] at h
    split at h
    · contradiction
    split at h
    · next t hname =>
      split at h
      · refine ih ?_ hrest h
        intro n hn
        rcases List.mem_append.mp hn with hn | hn
        · exact hhere n hn
        · obtain rfl := List.mem_singleton.mp hn
          obtain ⟨rfl, hne⟩ := PathPart.eq_of_ofSegment? hname
          exact ⟨hne, hsegments _ List.mem_cons_self⟩
      · contradiction
    · exact ih (fun n hn => hhere n (List.dropLast_subset here hn)) hrest h
    · exact ih hhere hrest h

/-- The names that lead to a file are names if those of the working directory are. -/
theorem isName_of_resolve? (hwork : ∀ n ∈ fs.workingDirectory, Path.IsName n) {p : Text}
    {names : List Text} (h : fs.resolve? p = some names) : ∀ n ∈ names, Path.IsName n := by
  unfold resolve? at h
  split at h
  · contradiction
  · refine isName_of_walk ?_ Text.not_mem_of_mem_splitAll h
    split
    · exact nofun
    · exact hwork

/-! ## Addresses -/

/-- What has been read is the text of the node that a path stands for, under the
address of its place. -/
theorem readDocument_cases {p : Text} {d : Document} (h : fs.readDocument p = .ok d) :
    ∃ names n, fs.resolve? p = some names ∧ fs.at? names = some n ∧ textOf n = .ok d.text ∧
      d = .kafka (fileUri (Path.ofNames names)) d.text := by
  unfold readDocument at h
  split at h
  · contradiction
  · next names hnames =>
    split at h
    · contradiction
    · next n hn =>
      split at h
      · contradiction
      · next text htext =>
        obtain rfl := Except.ok.inj h
        exact ⟨names, n, hnames, hn, htext, rfl⟩

theorem readDocument_congr {f g : Text} {names : List Text} (hf : fs.resolve? f = some names)
    (hg : fs.resolve? g = some names) {d e : Document} (hd : fs.readDocument f = .ok d)
    (he : fs.readDocument g = .ok e) : d = e := by
  obtain ⟨ns, n, hns, hn, htext, heq⟩ := readDocument_cases hd
  obtain ⟨ms, m, hms, hm, htext', heq'⟩ := readDocument_cases he
  obtain rfl := Option.some.inj (hf.symm.trans hns)
  obtain rfl := Option.some.inj (hg.symm.trans hms)
  obtain rfl := Option.some.inj (hn.symm.trans hm)
  rw [heq, heq', Except.ok.inj (htext.symm.trans htext')]

/-- When two files share an address. -/
theorem uri_eq_iff {f g : Text} {ns ms : List Text} (hf : fs.resolve? f = some ns)
    (hg : fs.resolve? g = some ms) {d e : Document} (hd : fs.readDocument f = .ok d)
    (he : fs.readDocument g = .ok e) :
    d.uri = e.uri ↔ Path.slashed (Path.ofNames ns) = Path.slashed (Path.ofNames ms) := by
  obtain ⟨_, _, hns, -, -, heq⟩ := readDocument_cases hd
  obtain ⟨_, _, hms, -, -, heq'⟩ := readDocument_cases he
  obtain rfl := Option.some.inj (hf.symm.trans hns)
  obtain rfl := Option.some.inj (hg.symm.trans hms)
  have habsolute : ∀ names, Path.isAbsolute (Path.ofNames names) = true := fun _ => rfl
  rw [heq, heq']
  exact fileUri_eq_iff (habsolute ns) (habsolute ms)

/-- No two of the files have paths that agree once backslashes are read as slashes. -/
def KeepsApart (fs : FileSystem) (files : List Text) : Prop :=
  ∀ f ∈ files, ∀ g ∈ files, ∀ ns ∈ fs.resolve? f, ∀ ms ∈ fs.resolve? g,
    Path.slashed (Path.ofNames ns) = Path.slashed (Path.ofNames ms) → ns = ms

instance (fs : FileSystem) (files : List Text) : Decidable (fs.KeepsApart files) := by
  unfold KeepsApart
  infer_instance

theorem KeepsApart.singleton (fs : FileSystem) (file : Text) : fs.KeepsApart [file] := by
  intro f hf g hg ns hns ms hms _
  obtain rfl := List.mem_singleton.mp hf
  obtain rfl := List.mem_singleton.mp hg
  exact Option.some.inj (hns.symm.trans hms)

/-- Files that are kept apart have different addresses if they are different. -/
theorem KeepsApart.uri_eq_iff (h : fs.KeepsApart files) {f g : Text} (hf : f ∈ files)
    (hg : g ∈ files) {d e : Document} (hd : fs.readDocument f = .ok d)
    (he : fs.readDocument g = .ok e) : d.uri = e.uri ↔ fs.resolve? f = fs.resolve? g := by
  obtain ⟨ns, -, hns, -⟩ := readDocument_cases hd
  obtain ⟨ms, -, hms, -⟩ := readDocument_cases he
  rw [FileSystem.uri_eq_iff hns hms hd he, hns, hms, Option.some.injEq]
  constructor
  · exact h f hf g hg ns hns ms hms
  · rintro rfl
    rfl

/-- Files without backslashes in their paths are kept apart. -/
theorem KeepsApart.of_not_mem (hwork : ∀ n ∈ fs.workingDirectory, Path.IsName n)
    (h : ∀ f ∈ files, ∀ ns ∈ fs.resolve? f, '\\' ∉ Path.ofNames ns) : fs.KeepsApart files := by
  intro f hf g hg ns hns ms hms heq
  rw [Path.slashed_of_not_mem (h f hf ns hns), Path.slashed_of_not_mem (h g hg ms hms)] at heq
  exact Path.ofNames_injective (isName_of_resolve? hwork hns) (isName_of_resolve? hwork hms) heq

end FileSystem

end KafkaScript

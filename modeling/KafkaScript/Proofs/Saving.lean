import Mathlib.Data.List.Infix
import Mathlib.Data.List.Sublists
import KafkaScript.Files.FileSystem

/-!
# Files that are saved

Putting a node in a place that no directory has takes nothing away: what was there is still
there, and directories are still directories (`FileNode.extends_put`). A path that could be
followed therefore leads to the same place afterwards, and a file that has been saved is found
under its path (`FileSystem.node?_of_save`).

Saving succeeds where only directories are in the way of the directories and only a regular
file has the place of the file (`FileSystem.Admits.save_isSome`). Both must also be said of the
directories that saving itself makes: a path may lead through the place of its own file.
-/

namespace KafkaScript

namespace FileNode

variable {n new : FileNode} {names dirs : List Text} {t : Text}

@[simp] theorem at?_nil (n : FileNode) : n.at? [] = some n := by
  cases n <;> rfl

/-- Everything that is in one tree is in the other, where directories are directories. -/
def Extends (n m : FileNode) : Prop :=
  ∀ names x, n.at? names = some x → ∃ y, m.at? names = some y ∧ (x.isDirectory → y.isDirectory)

theorem Extends.refl (n : FileNode) : Extends n n :=
  fun _ x hx => ⟨x, hx, id⟩

theorem Extends.trans {m k : FileNode} (h : Extends n m) (h' : Extends m k) : Extends n k := by
  intro names x hx
  obtain ⟨y, hy, hdir⟩ := h names x hx
  obtain ⟨z, hz, hdir'⟩ := h' names y hy
  exact ⟨z, hz, hdir' ∘ hdir⟩

theorem at?_directory_cons (entries : List (Text × FileNode)) (name : Text) (rest : List Text) :
    (directory entries).at? (name :: rest) = (entries.lookup name).bind (·.at? rest) := rfl

/-- What is found in the entry that a node is put into. -/
theorem at?_put_self (entries : List (Text × FileNode)) (name : Text) (rest more : List Text) :
    (put new (name :: rest) (directory entries)).at? (name :: more) =
      (put new rest ((entries.lookup name).getD (directory []))).at? more := by
  rw [put, at?_directory_cons, Entries.lookup_put_self, Option.bind_some]

/-- The other entries are as they were. -/
theorem at?_put_of_ne {name other : Text} (h : other ≠ name) (entries : List (Text × FileNode))
    (rest more : List Text) : (put new (name :: rest) (directory entries)).at? (other :: more) =
      (directory entries).at? (other :: more) := by
  rw [put, at?_directory_cons, Entries.lookup_put_of_ne h, at?_directory_cons]

/-- A node that takes no directory's place takes nothing away. -/
theorem extends_put (h : ∀ x, n.at? names = some x → x.isDirectory = false) :
    Extends n (put new names n) := by
  induction names generalizing n with
  | nil =>
    have hfile := h n (at?_nil n)
    cases n with
    | directory => contradiction
    | file | special =>
      intro others x hx
      cases others with
      | nil =>
        obtain rfl := Option.some.inj hx
        exact ⟨new, at?_nil _, fun hdir => absurd hdir (by simp [hfile])⟩
      | cons => contradiction
  | cons name rest ih =>
    cases n with
    | file | special => exact .refl _
    | directory entries =>
      intro others x hx
      cases others with
      | nil => exact ⟨_, at?_nil _, fun _ => rfl⟩
      | cons other more =>
        by_cases hname : other = name
        · subst hname
          obtain ⟨child, hchild, hx⟩ := Option.bind_eq_some_iff.mp hx
          rw [at?_put_self, hchild, Option.getD_some]
          refine ih (fun y hy => h y ?_) more x hx
          rw [at?_directory_cons, hchild]
          exact hy
        · rw [at?_put_of_ne hname]
          exact ⟨x, hx, id⟩

/-- The names lead to a directory. -/
def HasDirectory (n : FileNode) (names : List Text) : Prop :=
  ∃ entries, n.at? names = some (directory entries)

theorem HasDirectory.of_extends {m : FileNode} (h : n.HasDirectory names) (hext : Extends n m) :
    m.HasDirectory names := by
  obtain ⟨entries, h⟩ := h
  obtain ⟨y, hy, hdir⟩ := hext names _ h
  cases y with
  | directory entries => exact ⟨entries, hy⟩
  | file | special =>
    have hfalse : false = true := hdir rfl
    contradiction

/-- The way to a directory leads through directories. -/
theorem HasDirectory.inside {name : Text} {entries : List (Text × FileNode)} :
    (directory entries).HasDirectory (name :: names) ↔
      ∃ child, entries.lookup name = some child ∧ child.HasDirectory names := by
  simp only [HasDirectory, at?_directory_cons, Option.bind_eq_some_iff]
  constructor
  · rintro ⟨inside, child, hchild, h⟩
    exact ⟨child, hchild, inside, h⟩
  · rintro ⟨child, hchild, inside, h⟩
    exact ⟨inside, child, hchild, h⟩

theorem HasDirectory.dropLast (h : n.HasDirectory names) : n.HasDirectory names.dropLast := by
  induction names generalizing n with
  | nil => exact h
  | cons name rest ih =>
    cases n with
    | file | special =>
      obtain ⟨_, h⟩ := h
      contradiction
    | directory entries =>
      cases rest with
      | nil => exact ⟨entries, rfl⟩
      | cons next rest =>
        obtain ⟨child, hchild, hrest⟩ := HasDirectory.inside.mp h
        exact HasDirectory.inside.mpr ⟨child, hchild, ih hrest⟩

/-- In a directory a node is found where it has been put. -/
theorem at?_put (h : n.HasDirectory dirs) :
    (put new (dirs ++ [t]) n).at? (dirs ++ [t]) = some new := by
  induction dirs generalizing n with
  | nil =>
    obtain ⟨entries, h⟩ := h
    obtain rfl := Option.some.inj h
    rw [List.nil_append, at?_put_self, put, at?_nil]
  | cons name rest ih =>
    cases n with
    | file | special =>
      obtain ⟨_, h⟩ := h
      contradiction
    | directory entries =>
      obtain ⟨child, hchild, h⟩ := HasDirectory.inside.mp h
      rw [List.cons_append, at?_put_self, hchild, Option.getD_some]
      exact ih h

/-- A new directory in a directory is all that making it adds. -/
theorem at?_put_directory (h : n.HasDirectory dirs) {x : FileNode}
    (hx : (put (directory []) (dirs ++ [t]) n).at? names = some x) :
    names = dirs ++ [t] ∧ x = directory [] ∨
      ∃ y, n.at? names = some y ∧ y.isDirectory = x.isDirectory ∧ y.isFile = x.isFile := by
  induction dirs generalizing n names with
  | nil =>
    obtain ⟨entries, h⟩ := h
    obtain rfl := Option.some.inj h
    rw [List.nil_append] at hx
    cases names with
    | nil =>
      obtain rfl := Option.some.inj hx
      exact .inr ⟨_, rfl, rfl, rfl⟩
    | cons other more =>
      by_cases hname : other = t
      · subst hname
        rw [at?_put_self, put] at hx
        cases more with
        | nil => exact .inl ⟨rfl, (Option.some.inj hx).symm⟩
        | cons => contradiction
      · rw [at?_put_of_ne hname] at hx
        exact .inr ⟨x, hx, rfl, rfl⟩
  | cons name rest ih =>
    cases n with
    | file | special =>
      obtain ⟨_, h⟩ := h
      contradiction
    | directory entries =>
      obtain ⟨child, hchild, hinside⟩ := HasDirectory.inside.mp h
      rw [List.cons_append] at hx
      cases names with
      | nil =>
        obtain rfl := Option.some.inj hx
        exact .inr ⟨_, rfl, rfl, rfl⟩
      | cons other more =>
        by_cases hname : other = name
        · subst hname
          rw [at?_put_self, hchild, Option.getD_some] at hx
          rw [at?_directory_cons, hchild, Option.bind_some]
          exact (ih hinside hx).imp_left fun ⟨heq, hnew⟩ => ⟨congrArg (other :: ·) heq, hnew⟩
        · rw [at?_put_of_ne hname] at hx
          exact .inr ⟨x, hx, rfl, rfl⟩

end FileNode

namespace FileSystem

variable {fs made : FileSystem} {here dirs : List Text} {p t : Text} {bytes : ByteArray}

theorem isDirectoryAt_iff {names : List Text} :
    fs.isDirectoryAt names = true ↔ fs.root.HasDirectory names := by
  rw [isDirectoryAt, at?, FileNode.HasDirectory]
  cases fs.root.at? names with
  | none => simp
  | some n => cases n <;> simp [FileNode.isDirectory]

/-! ## Following a path -/

theorem walk_append (fs : FileSystem) (here : List Text) (segments more : List Text) :
    fs.walk here (segments ++ more) = (fs.walk here segments).bind (fs.walk · more) := by
  induction segments generalizing here with
  | nil => rfl
  | cons segment segments ih =>
    rw [List.cons_append, walk, walk]
    split
    · rfl
    · split
      · split
        · exact ih _
        · rfl
      · exact ih _
      · exact ih _

/-- A path that could be followed leads to the same place when nothing has been taken away. -/
theorem walk_of_extends (hext : fs.root.Extends made.root) {segments names : List Text}
    (h : fs.walk here segments = some names) : made.walk here segments = some names := by
  induction segments generalizing here with
  | nil => exact h
  | cons segment segments ih =>
    rw [walk] at h
    split at h
    · contradiction
    · next hhere =>
      have hdir : made.isDirectoryAt here = true :=
        isDirectoryAt_iff.mpr ((isDirectoryAt_iff.mp (by simpa using hhere)).of_extends hext)
      rw [walk, hdir, Bool.not_true, if_neg Bool.false_ne_true]
      split at h
      · next t hname =>
        split at h
        · next hsome =>
          obtain ⟨n, hn⟩ := Option.isSome_iff_exists.mp hsome
          obtain ⟨m, hm, -⟩ := hext _ n hn
          have hsome : (made.at? (here ++ [t])).isSome = true := Option.isSome_iff_exists.mpr ⟨m, hm⟩
          rw [if_pos hsome]
          exact ih h
        · contradiction
      · exact ih h
      · exact ih h

/-- A path leads to the name of its last segment in the directory that the segments before
lead to. -/
theorem resolve?_of_walk {names : List Text} (husable : Path.isUsable p = true)
    (hlast : (p.splitAll Path.separator).getLast?.bind PathPart.ofSegment? = some (.name t))
    (hwalk : fs.walk (if Path.isAbsolute p then [] else fs.workingDirectory)
      (p.splitAll Path.separator).dropLast = some names)
    (hdir : fs.isDirectoryAt names = true) (hfound : (fs.at? (names ++ [t])).isSome = true) :
    fs.resolve? p = some (names ++ [t]) := by
  obtain ⟨segment, hsegment, hname⟩ := Option.bind_eq_some_iff.mp hlast
  have hsegments : p.splitAll Path.separator = (p.splitAll Path.separator).dropLast ++ [segment] :=
    (List.dropLast_append_getLast? segment hsegment).symm
  rw [resolve?, husable, hsegments, walk_append]
  simp only [Bool.not_true, Bool.false_eq_true, if_false, hwalk, Option.bind_some]
  rw [walk, hdir, hname]
  simp [hfound, walk]

/-- What has been written to a file is found under its path. -/
theorem node?_of_writeFile (husable : Path.isUsable p = true) {saved : FileSystem}
    (h : fs.writeFile p bytes = some saved) : saved.node? p = some (.file bytes) := by
  rw [writeFile] at h
  simp only at h
  split at h
  · next t hlast =>
    obtain ⟨names, hwalk, h⟩ := Option.bind_eq_some_iff.mp h
    split at h
    · next hfree =>
      obtain ⟨hhere, htarget⟩ := Bool.and_eq_true_iff.mp hfree
      obtain rfl := Option.some.inj h
      have hdir := isDirectoryAt_iff.mp hhere
      have hext : fs.root.Extends (fs.putAt (names ++ [t]) (.file bytes)).root := by
        refine FileNode.extends_put fun x hx => ?_
        rw [at?, hx, Option.all_some] at htarget
        cases x with
        | file | special => rfl
        | directory => contradiction
      have hfound : (fs.putAt (names ++ [t]) (.file bytes)).at? (names ++ [t]) =
          some (.file bytes) := FileNode.at?_put hdir
      rw [node?, resolve?_of_walk husable hlast (walk_of_extends hext hwalk)
        (isDirectoryAt_iff.mpr (hdir.of_extends hext)) (Option.isSome_iff_exists.mpr ⟨_, hfound⟩)]
      exact hfound
    · contradiction
  · contradiction

/-- A file that has been saved is found under its path. -/
theorem node?_of_save {saved : FileSystem} (h : fs.save p bytes = some saved) :
    saved.node? p = some (.file bytes) := by
  unfold save at h
  split at h
  · contradiction
  · next husable =>
    obtain ⟨made, -, h⟩ := Option.bind_eq_some_iff.mp h
    exact node?_of_writeFile (by simpa using husable) h

/-- The text of a file is the text that has been saved. -/
theorem textOf_file (text : Text) : textOf (.file (String.ofList text).toUTF8) = .ok text := by
  have hvalid : (String.ofList text).toUTF8.IsValidUTF8 := (String.ofList text).isValidUTF8
  have hread : String.fromUTF8? (String.ofList text).toUTF8 = some (String.ofList text) := by
    rw [String.fromUTF8?, dif_pos hvalid]
    rfl
  rw [textOf, hread]
  exact congrArg Except.ok String.toList_ofList

/-! ## Where saving succeeds -/

/-- Where some parts of a path lead from a directory, whatever is there. -/
def follow (here : List Text) : List PathPart → List Text
  | [] => here
  | .root :: rest => follow [] rest
  | .current :: rest => follow here rest
  | .parent :: rest => follow here.dropLast rest
  | .name t :: rest => follow (here ++ [t]) rest

theorem follow_cons (here : List Text) (part : PathPart) (rest : List PathPart) :
    follow here (part :: rest) = follow (follow here [part]) rest := by
  cases part <;> rfl

/-- A file system with nothing more than another but directories in some places. -/
structure Grown (fs made : FileSystem) (places : List Text → Prop) : Prop where
  extended : fs.root.Extends made.root
  added : ∀ {names x}, made.at? names = some x →
    places names ∨
      ∃ y, fs.at? names = some y ∧ y.isDirectory = x.isDirectory ∧ y.isFile = x.isFile
  workingDirectory : made.workingDirectory = fs.workingDirectory

theorem Grown.refl (fs : FileSystem) (places : List Text → Prop) : fs.Grown fs places where
  extended := .refl _
  added := fun {_ x} hx => .inr ⟨x, hx, rfl, rfl⟩
  workingDirectory := rfl

theorem Grown.trans {next : FileSystem} {places more all : List Text → Prop} (h : fs.Grown next places)
    (h' : next.Grown made more) (hplaces : ∀ names, places names → all names)
    (hmore : ∀ names, more names → all names) : fs.Grown made all where
  extended := h.extended.trans h'.extended
  added := by
    intro names x hx
    rcases h'.added hx with hplace | ⟨y, hy, hdir, hfile⟩
    · exact .inl (hmore names hplace)
    · rcases h.added hy with hplace | ⟨z, hz, hdir', hfile'⟩
      · exact .inl (hplaces names hplace)
      · exact .inr ⟨z, hz, hdir'.trans hdir, hfile'.trans hfile⟩
  workingDirectory := h'.workingDirectory.trans h.workingDirectory

/-- One part of a path is passed where only a directory is in the way. -/
theorem makeDirectories_cons {part : PathPart} (rest : List PathPart)
    (hhere : fs.root.HasDirectory here)
    (hfree : ∀ x, fs.at? (follow here [part]) = some x → x.isDirectory = true) :
    ∃ next : FileSystem, fs.makeDirectories here (part :: rest) =
        next.makeDirectories (follow here [part]) rest ∧
      next.root.HasDirectory (follow here [part]) ∧ fs.Grown next (· = follow here [part]) := by
  cases part with
  | root =>
    refine ⟨fs, rfl, ?_, .refl fs _⟩
    cases hroot : fs.root with
    | directory entries => exact ⟨entries, rfl⟩
    | file | special =>
      exact absurd (hfree _ (FileNode.at?_nil fs.root)) (by rw [hroot]; exact Bool.false_ne_true)
  | current => exact ⟨fs, rfl, hhere, .refl fs _⟩
  | parent => exact ⟨fs, rfl, hhere.dropLast, .refl fs _⟩
  | name t =>
    rw [follow, follow] at hfree ⊢
    rw [makeDirectories]
    split
    · next entries hdir => exact ⟨fs, rfl, ⟨entries, hdir⟩, .refl fs _⟩
    · next hfile => exact absurd (hfree _ hfile) Bool.false_ne_true
    · next hspecial => exact absurd (hfree _ hspecial) Bool.false_ne_true
    · next hmissing =>
      refine ⟨fs.putAt (here ++ [t]) (.directory []), rfl, ⟨[], FileNode.at?_put hhere⟩, ?_, ?_, rfl⟩
      · refine FileNode.extends_put fun x hx => ?_
        rw [at?] at hmissing
        rw [hmissing] at hx
        contradiction
      · intro names x hx
        exact (FileNode.at?_put_directory hhere hx).imp_left And.left

/-- All directories that some parts lead through can be made where only directories are in
the way. -/
theorem makeDirectories_isSome {parts : List PathPart} (hhere : fs.root.HasDirectory here)
    (hfree : ∀ front, front <+: parts →
      ∀ x, fs.at? (follow here front) = some x → x.isDirectory = true) :
    ∃ made : FileSystem, fs.makeDirectories here parts = some made ∧
      (∀ front, front <+: parts → made.root.HasDirectory (follow here front)) ∧
        fs.Grown made fun names => ∃ front, front <+: parts ∧ names = follow here front := by
  induction parts generalizing fs here with
  | nil =>
    refine ⟨fs, ?_, ?_, .refl fs _⟩
    · rw [makeDirectories, isDirectoryAt_iff.mpr hhere, if_pos rfl]
    · intro front hfront
      rw [List.prefix_nil.mp hfront]
      exact hhere
  | cons part rest ih =>
    have hfirst : [part] <+: part :: rest := ⟨rest, rfl⟩
    obtain ⟨next, hmake, hdir, hgrown⟩ := makeDirectories_cons rest hhere (hfree [part] hfirst)
    obtain ⟨made, hmade, hall, hrest⟩ := ih hdir fun front hfront x hx => by
      rcases hgrown.added hx with hplace | ⟨y, hy, heq, -⟩
      · obtain ⟨entries, hentries⟩ := hdir
        rw [← hplace] at hentries
        obtain rfl := Option.some.inj (hx.symm.trans hentries)
        rfl
      · rw [← follow_cons] at hy
        rw [← heq]
        exact hfree (part :: front) (List.cons_prefix_cons.mpr ⟨rfl, hfront⟩) y hy
    refine ⟨made, hmake.trans hmade, ?_, hgrown.trans hrest ?_ ?_⟩
    · intro front hfront
      rcases List.prefix_cons_iff.mp hfront with rfl | ⟨more, rfl, hmore⟩
      · exact hhere.of_extends (hgrown.extended.trans hrest.extended)
      · rw [follow_cons]
        exact hall more hmore
    · rintro names rfl
      exact ⟨[part], hfirst, rfl⟩
    · rintro names ⟨front, hfront, rfl⟩
      exact ⟨part :: front, List.cons_prefix_cons.mpr ⟨rfl, hfront⟩,
        (follow_cons here part front).symm⟩

theorem ofSegment?_ne_root (segment : Text) : PathPart.ofSegment? segment ≠ some .root := by
  unfold PathPart.ofSegment?
  split
  · exact nofun
  · split <;> exact nofun

/-- A path whose directories are there can be followed. -/
theorem walk_eq_follow {segments : List Text}
    (h : ∀ front, front <+: segments.filterMap PathPart.ofSegment? →
      fs.root.HasDirectory (follow here front)) :
    fs.walk here segments = some (follow here (segments.filterMap PathPart.ofSegment?)) := by
  induction segments generalizing here with
  | nil => rfl
  | cons segment segments ih =>
    have hhere : fs.isDirectoryAt here = true := isDirectoryAt_iff.mpr (h [] (List.nil_prefix))
    rw [walk, hhere, Bool.not_true, if_neg Bool.false_ne_true]
    cases hpart : PathPart.ofSegment? segment with
    | none =>
      rw [List.filterMap_cons_none hpart] at h ⊢
      exact ih h
    | some part =>
      rw [List.filterMap_cons_some hpart] at h ⊢
      have hrest : fs.walk (follow here [part]) segments =
          some (follow (follow here [part]) (segments.filterMap PathPart.ofSegment?)) := by
        refine ih fun front hfront => ?_
        rw [← follow_cons]
        exact h (part :: front) (List.cons_prefix_cons.mpr ⟨rfl, hfront⟩)
      rw [follow_cons]
      cases part with
      | name t =>
        obtain ⟨entries, hentries⟩ := h [.name t] ⟨_, rfl⟩
        have hsome : (fs.at? (here ++ [t])).isSome = true := Option.isSome_iff_exists.mpr ⟨_, hentries⟩
        simp only [hsome, if_true]
        exact hrest
      | root => exact absurd hpart (ofSegment?_ne_root segment)
      | current | parent => exact hrest

/-- The parts of a path before its last segment. -/
def way (p : Text) : List PathPart :=
  (p.splitAll Path.separator).dropLast.filterMap PathPart.ofSegment?

/-- Where a path starts. -/
def start (fs : FileSystem) (p : Text) : List Text :=
  if Path.isAbsolute p then [] else fs.workingDirectory

/-- A path under which a file with some name can be saved: it starts in a directory, only
directories are in the way of the directories, and at most a regular file has the place of the
file, nor will a directory have it that is made on the way. -/
structure Admits (fs : FileSystem) (p t : Text) : Prop where
  usable : Path.isUsable p = true
  name : (p.splitAll Path.separator).getLast?.bind PathPart.ofSegment? = some (.name t)
  directory : fs.isDirectoryAt (fs.start p) = true
  free : ∀ front ∈ (way p).inits, ∀ x ∈ fs.at? (follow (fs.start p) front), x.isDirectory = true
  target : ∀ x ∈ fs.at? (follow (fs.start p) (way p) ++ [t]), x.isFile = true
  apart : ∀ front ∈ (way p).inits, follow (fs.start p) (way p) ++ [t] ≠ follow (fs.start p) front

/-- The directories that saving makes are those before the last segment. -/
theorem makeDirectories_parentParts (fs : FileSystem)
    (hname : (p.splitAll Path.separator).getLast?.bind PathPart.ofSegment? = some (.name t)) :
    fs.makeDirectories fs.workingDirectory (Path.parentParts p) =
      fs.makeDirectories (fs.start p) (way p) := by
  obtain ⟨segment, hsegment, hpart⟩ := Option.bind_eq_some_iff.mp hname
  have hnamed : (p.splitAll Path.separator).filterMap PathPart.ofSegment? = way p ++ [.name t] := by
    rw [← List.dropLast_append_getLast? segment hsegment, List.filterMap_append,
      List.filterMap_cons_some hpart]
    rfl
  rw [Path.parentParts, Path.parts, start]
  simp only [hnamed]
  split
  · rw [← List.cons_append, List.dropLast_concat, makeDirectories]
  · split
    · rw [← List.cons_append, List.dropLast_concat, makeDirectories]
    · rw [List.dropLast_concat]

/-- Where saving succeeds, whatever is saved. -/
theorem Admits.save_isSome (h : fs.Admits p t) (bytes : ByteArray) :
    (fs.save p bytes).isSome = true := by
  obtain ⟨made, hmade, hall, hgrown⟩ := makeDirectories_isSome (isDirectoryAt_iff.mp h.directory)
    fun front hfront x hx => h.free front ((List.mem_inits front (way p)).mpr hfront) x hx
  have hstart : made.start p = fs.start p := by
    rw [start, start, hgrown.workingDirectory]
  have hwalk : made.walk (made.start p) (p.splitAll Path.separator).dropLast =
      some (follow (fs.start p) (way p)) := by
    rw [hstart]
    exact walk_eq_follow hall
  have hdir := isDirectoryAt_iff.mpr (hall (way p) List.prefix_rfl)
  have htarget : (made.at? (follow (fs.start p) (way p) ++ [t])).all FileNode.isFile = true := by
    rw [Option.all_eq_true]
    intro x hx
    rcases hgrown.added hx with ⟨front, hfront, heq⟩ | ⟨y, hy, -, heq⟩
    · exact absurd heq (h.apart front ((List.mem_inits front (way p)).mpr hfront))
    · rw [← heq, h.target y hy]
  have hwrite : made.writeFile p bytes =
      some (made.putAt (follow (fs.start p) (way p) ++ [t]) (.file bytes)) := by
    rw [start] at hwalk
    simp [writeFile, h.name, hwalk, hdir, htarget]
  rw [save, h.usable, makeDirectories_parentParts fs h.name, hmade]
  simp [hwrite]

end FileSystem

end KafkaScript

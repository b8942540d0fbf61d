import Mathlib.Data.List.Nodup
import KafkaScript.Proofs.Paths
import KafkaScript.Proofs.Saving

/-!
# Script files under a directory

The script files of a tree are found at the places that names lead to from its root, and the path
of each is that of the root with these names after it. What is found are the places of all that
has the name of a script and is no directory, in ascending order, so the order in which the
directories list their entries does not matter (`FileSystem.scanScripts_congr`).

Whether something is a directory is asked of its path. As long as the path can be looked up, the
answer is that of the tree (`FileSystem.isDirectory_below`); a path that is too long leads
nowhere. So it has to be said of a place that it is within reach (`FileNode.WithinReach`).

The listing follows the tree, and so do the proofs: a statement about a node is proved
together with one about a list of entries.
-/

namespace KafkaScript

/-! ## What is found below a directory -/

theorem FileNode.at?_append (n : FileNode) (names more : List Text) :
    n.at? (names ++ more) = (n.at? names).bind (·.at? more) := by
  induction names generalizing n with
  | nil => rw [List.nil_append, at?_nil, Option.bind_some]
  | cons name names ih =>
    cases n with
    | file | special => rfl
    | directory entries =>
      rw [List.cons_append, at?_directory_cons, at?_directory_cons, Option.bind_assoc]
      exact Option.bind_congr fun child _ => ih child

namespace FileSystem

variable {fs : FileSystem} {base name : Text} {names : List Text}

theorem at?_append_of_some {place : List Text} {tree : FileNode} (h : fs.at? place = some tree)
    (names : List Text) : fs.at? (place ++ names) = tree.at? names := by
  rw [at?] at h ⊢
  rw [FileNode.at?_append, h, Option.bind_some]

theorem walk_entryName (hname : Path.IsEntryName name) (here : List Text) :
    fs.walk here [name] = if fs.isDirectoryAt here = true ∧ (fs.at? (here ++ [name])).isSome = true
      then some (here ++ [name]) else none := by
  rw [walk, hname.ofSegment?]
  cases fs.isDirectoryAt here with
  | false => simp
  | true => simp [walk]

/-- An entry is looked for in the directory. -/
theorem resolve?_join (hbase : base ≠ []) (hname : Path.IsEntryName name)
    (husable : Path.isUsable (Path.join base name) = true) :
    fs.resolve? (Path.join base name) = (fs.resolve? base).bind (fs.walk · [name]) := by
  have hbaseUsable := Path.isUsable_of_join hbase hname husable
  obtain ⟨front, hjoin, hfront⟩ := Path.exists_join hbase hname
  have hsegments : (Path.join base name).splitAll Path.separator =
      front.splitAll Path.separator ++ [name] := by
    rw [hjoin, Text.splitAll_append_cons, Text.splitAll_of_not_mem hname.separator]
  have hstart : fs.start (Path.join base name) = fs.start base := by
    have habsolute : Path.isAbsolute (Path.join base name) = Path.isAbsolute base := by
      rw [hjoin, Path.isAbsolute, Path.isAbsolute]
      rcases hfront with rfl | rfl
      · rw [List.head?_append_of_ne_nil _ hbase]
      · cases front <;> rfl
    rw [start, start, habsolute]
  have hresolve : ∀ p, Path.isUsable p = true →
      fs.resolve? p = fs.walk (fs.start p) (p.splitAll Path.separator) := by
    intro p hp
    rw [resolve?, hp]
    rfl
  rw [hresolve _ husable, hresolve _ hbaseUsable, hstart, hsegments, walk_append]
  rcases hfront with rfl | rfl
  · rfl
  · -- the empty segment at the end of the base only asks for a directory
    rw [Text.splitAll_append_cons, walk_append, Option.bind_assoc]
    refine Option.bind_congr fun here _ => ?_
    have hempty : fs.walk here (Text.splitAll Path.separator []) =
        if fs.isDirectoryAt here = true then some here else none := by
      show fs.walk here [[]] = _
      rw [walk]
      cases fs.isDirectoryAt here <;> rfl
    rw [hempty, walk_entryName hname]
    by_cases hhere : fs.isDirectoryAt here = true
    · rw [if_pos hhere, Option.bind_some, walk_entryName hname]
    · rw [if_neg hhere, if_neg fun h => hhere h.1]
      rfl

/-- What stands below a directory is found there if its path can be looked up. -/
theorem resolve?_below {place : List Text} {tree : FileNode} (hbase : base ≠ [])
    (hplace : fs.resolve? base = some place) (htree : fs.at? place = some tree)
    (hnames : ∀ name ∈ names, Path.IsEntryName name)
    (husable : Path.isUsable (Path.below base names) = true) :
    fs.resolve? (Path.below base names) =
      if (tree.at? names).isSome = true then some (place ++ names) else none := by
  induction names using List.reverseRecOn with
  | nil => simpa using hplace
  | append_singleton names name ih =>
    obtain ⟨hnames, hname⟩ := List.forall_mem_append.mp hnames
    have hname := hname name (List.mem_singleton_self name)
    have hbelow := Path.below_ne_nil hbase hnames
    rw [Path.below_concat] at husable ⊢
    rw [resolve?_join hbelow hname husable, ih hnames (Path.isUsable_of_join hbelow hname husable),
      FileNode.at?_append]
    cases hat : tree.at? names with
    | none => rfl
    | some n =>
      have hhere : fs.at? (place ++ names) = some n := (at?_append_of_some htree names).trans hat
      have hnext := at?_append_of_some hhere [name]
      rw [Option.isSome_some, if_pos rfl, Option.bind_some, walk_entryName hname, isDirectoryAt,
        hhere, hnext, List.append_assoc]
      cases n with
      | file | special => simp [FileNode.isDirectory, FileNode.at?]
      | directory entries =>
        simp only [Option.any_some, FileNode.isDirectory, true_and, Option.bind_some]

theorem ne_nil_of_node? {n : FileNode} (h : fs.node? base = some n) : base ≠ [] := by
  rintro rfl
  simp [node?, resolve?, Path.isUsable] at h

/-- Below a directory, a path stands for a directory if it can be looked up and the tree has a
directory there. -/
theorem isDirectory_below {tree : FileNode} (hroot : fs.node? base = some tree)
    (hnames : ∀ name ∈ names, Path.IsEntryName name) :
    fs.isDirectory (Path.below base names) =
      (Path.isUsable (Path.below base names) && (tree.at? names).any FileNode.isDirectory) := by
  obtain ⟨place, hplace, htree⟩ := Option.bind_eq_some_iff.mp hroot
  have hbase := ne_nil_of_node? hroot
  cases husable : Path.isUsable (Path.below base names) with
  | false => simp [isDirectory, node?, resolve?, husable]
  | true =>
    rw [Bool.true_and, isDirectory, node?, resolve?_below hbase hplace htree hnames husable]
    cases hat : tree.at? names with
    | none => rfl
    | some n =>
      rw [Option.isSome_some, if_pos rfl, Option.bind_some, at?_append_of_some htree, hat]

end FileSystem

/-! ## Trees -/

namespace FileNode

/-- In every directory of the tree the entries have names, and different ones. -/
inductive WellNamed : FileNode → Prop where
  | file (bytes : ByteArray) : WellNamed (.file bytes)
  | special : WellNamed .special
  | directory {entries : List (Text × FileNode)} :
      (entries.map (·.1)).Nodup → (∀ e ∈ entries, Path.IsEntryName e.1) →
      (∀ e ∈ entries, WellNamed e.2) → WellNamed (.directory entries)

/-- Some names lead from the root of the tree to something that is no directory, and the last
of them has the extension of scripts. -/
def IsScriptAt (n : FileNode) (names : List Text) : Prop :=
  (∃ m, n.at? names = some m ∧ m.isDirectory = false) ∧
    ∃ name ∈ names.getLast?, Path.HasExtension name scriptExtension

/-- Each directory on a way below the base, the one at its end too, has a path that can be
looked up. -/
def WithinReach (base : Text) (n : FileNode) (names : List Text) : Prop :=
  ∀ front, front <+: names → (n.at? front).any isDirectory = true →
    Path.isUsable (Path.below base front) = true

instance (base : Text) (n : FileNode) (names : List Text) : Decidable (WithinReach base n names) :=
  decidable_of_iff (∀ front ∈ names.inits, (n.at? front).any isDirectory = true →
    Path.isUsable (Path.below base front) = true) (by simp only [WithinReach, List.mem_inits])

/-- Whether a name is one of a script file. -/
def isScriptName (name : Text) : Bool :=
  Path.extension? name == some scriptExtension

mutual

/-- The places of the script files at or under a node, where some of its directories are found
as such and the others count as files. -/
def scriptPlaces (found : List Text → Bool) (isScript : Bool) : FileNode → List (List Text)
  | .directory entries =>
    if found [] then scriptPlacesIn found entries else if isScript then [[]] else []
  | .file _ | .special => if isScript then [[]] else []

/-- The places of the script files among some entries and under them. -/
def scriptPlacesIn (found : List Text → Bool) : List (Text × FileNode) → List (List Text)
  | [] => []
  | (name, n) :: rest =>
    (scriptPlaces (fun names => found (name :: names)) (isScriptName name) n).map (name :: ·) ++
      scriptPlacesIn found rest

end

mutual

theorem scriptsAt_eq (fs : FileSystem) (base : Text) (isScript : Bool) (n : FileNode) :
    fs.scriptsAt base isScript n =
      (n.scriptPlaces (fun names => fs.isDirectory (Path.below base names)) isScript).map
        (Path.below base) := by
  cases n with
  | file | special => cases isScript <;> simp [FileSystem.scriptsAt, scriptPlaces]
  | directory entries =>
    rw [FileSystem.scriptsAt, scriptPlaces, scriptsIn_eq fs base entries, Path.below_nil]
    cases fs.isDirectory base <;> cases isScript <;> simp

theorem scriptsIn_eq (fs : FileSystem) (base : Text) (entries : List (Text × FileNode)) :
    fs.scriptsIn base entries =
      (scriptPlacesIn (fun names => fs.isDirectory (Path.below base names)) entries).map
        (Path.below base) := by
  cases entries with
  | nil => rfl
  | cons e rest =>
    obtain ⟨name, n⟩ := e
    rw [FileSystem.scriptsIn, scriptPlacesIn, List.map_append, List.map_map,
      scriptsAt_eq fs (Path.join base name), scriptsIn_eq fs base rest]
    rfl

end

variable {found : List Text → Bool} {isScript : Bool} {n : FileNode} {names : List Text}

theorem mem_scriptPlacesIn {entries : List (Text × FileNode)} :
    names ∈ scriptPlacesIn found entries ↔ ∃ name n rest, (name, n) ∈ entries ∧
      rest ∈ n.scriptPlaces (fun names => found (name :: names)) (isScriptName name) ∧
        names = name :: rest := by
  induction entries with
  | nil => simp [scriptPlacesIn]
  | cons e entries ih =>
    obtain ⟨name, n⟩ := e
    rw [scriptPlacesIn, List.mem_append, List.mem_map, ih]
    constructor
    · rintro (⟨rest, hrest, rfl⟩ | ⟨name', n', rest, hmem, hrest, rfl⟩)
      · exact ⟨name, n, rest, List.mem_cons_self, hrest, rfl⟩
      · exact ⟨name', n', rest, List.mem_cons_of_mem _ hmem, hrest, rfl⟩
    · rintro ⟨name', n', rest, hmem, hrest, rfl⟩
      rcases List.mem_cons.mp hmem with heq | hmem
      · obtain ⟨rfl, rfl⟩ := Prod.mk.inj heq
        exact .inl ⟨rest, hrest, rfl⟩
      · exact .inr ⟨name', n', rest, hmem, hrest, rfl⟩

/-- Where names are different, looking one up finds each of the entries. -/
theorem lookup_eq_some_iff {entries : List (Text × FileNode)} (h : (entries.map (·.1)).Nodup)
    {name : Text} {n : FileNode} : entries.lookup name = some n ↔ (name, n) ∈ entries := by
  rw [List.lookup_eq_some_iff]
  constructor
  · rintro ⟨front, behind, rfl, -⟩
    exact List.mem_append_right _ List.mem_cons_self
  · intro hmem
    obtain ⟨front, behind, rfl⟩ := List.append_of_mem hmem
    refine ⟨front, behind, rfl, fun e he => ?_⟩
    rw [List.map_append, List.nodup_append] at h
    have hne : e.1 ≠ name := h.2.2 e.1 (List.mem_map_of_mem he) name List.mem_cons_self
    simpa using hne.symm

theorem WellNamed.at?_entry {entries : List (Text × FileNode)}
    (h : WellNamed (.directory entries)) {name : Text} {child : FileNode} :
    (FileNode.directory entries).at? [name] = some child ↔ (name, child) ∈ entries := by
  cases h with
  | directory hnodup =>
    rw [at?_directory_cons, ← lookup_eq_some_iff hnodup]
    simp

theorem WellNamed.isEntryName_of_at? (h : n.WellNamed) {m : FileNode}
    (hat : n.at? names = some m) : ∀ name ∈ names, Path.IsEntryName name := by
  induction h generalizing names with
  | file | special =>
    cases names with
    | nil => exact nofun
    | cons name names => contradiction
  | directory hnodup hnames hnodes ih =>
    cases names with
    | nil => exact nofun
    | cons name names =>
      rw [← List.singleton_append, at?_append] at hat
      obtain ⟨child, hchild, hrest⟩ := Option.bind_eq_some_iff.mp hat
      have hmem := (WellNamed.directory hnodup hnames hnodes).at?_entry.mp hchild
      exact List.forall_mem_cons.mpr ⟨hnames _ hmem, ih _ hmem hrest⟩

/-! ## What is listed -/

/-- Some names lead to what is listed: directories on the way are found as such, the node at
the end is not, and the last name is one of a script file. -/
structure Listed (found : List Text → Bool) (isScript : Bool) (n : FileNode) (names : List Text) :
    Prop where
  node : ∃ m, n.at? names = some m ∧ (m.isDirectory = true → found names = false)
  way : ∀ front, front <+: names → front ≠ names → found front = true
  /-- Of the node itself, its own name has to be known. -/
  name : (names.getLast?.map isScriptName).getD isScript = true

theorem listed_nil :
    n.Listed found isScript [] ↔ (n.isDirectory = true → found [] = false) ∧ isScript = true := by
  constructor
  · intro h
    obtain ⟨m, hat, hfound⟩ := h.node
    obtain rfl := Option.some.inj ((at?_nil n).symm.trans hat)
    exact ⟨hfound, h.name⟩
  · rintro ⟨hfound, hscript⟩
    exact ⟨⟨n, at?_nil n, hfound⟩, fun front hfront hne => absurd (List.prefix_nil.mp hfront) hne,
      hscript⟩

theorem listed_cons {name : Text} :
    n.Listed found isScript (name :: names) ↔ found [] = true ∧ ∃ child, n.at? [name] = some child ∧
      child.Listed (fun names => found (name :: names)) (isScriptName name) names := by
  have hlast : ((name :: names).getLast?.map isScriptName).getD isScript =
      (names.getLast?.map isScriptName).getD (isScriptName name) := by
    rw [List.getLast?_cons]
    cases names.getLast? <;> rfl
  have hat : n.at? (name :: names) = (n.at? [name]).bind (·.at? names) := n.at?_append [name] names
  constructor
  · rintro ⟨⟨m, hm, hfound⟩, hway, hname⟩
    obtain ⟨child, hchild, hrest⟩ := Option.bind_eq_some_iff.mp (hat.symm.trans hm)
    refine ⟨hway [] List.nil_prefix (List.cons_ne_nil _ _).symm, child, hchild, ⟨m, hrest, hfound⟩,
      fun front hfront hne => ?_, hlast.symm.trans hname⟩
    exact hway (name :: front) (List.cons_prefix_cons.mpr ⟨rfl, hfront⟩) (by simpa using hne)
  · rintro ⟨hroot, child, hchild, ⟨m, hm, hfound⟩, hway, hname⟩
    refine ⟨⟨m, ?_, hfound⟩, fun front hfront hne => ?_, hlast.trans hname⟩
    · rw [hat, hchild]
      exact hm
    · rcases List.prefix_cons_iff.mp hfront with rfl | ⟨more, rfl, hmore⟩
      · exact hroot
      · exact hway more hmore (by simpa using hne)

theorem WellNamed.mem_scriptPlaces (h : n.WellNamed) :
    names ∈ n.scriptPlaces found isScript ↔ n.Listed found isScript names := by
  induction h generalizing found isScript names with
  | file | special =>
    cases names with
    | nil => cases isScript <;> simp [scriptPlaces, listed_nil, isDirectory]
    | cons name names => cases isScript <;> simp [scriptPlaces, listed_cons, at?]
  | @directory entries hnodup hnames hnodes ih =>
    have hnamed := WellNamed.directory hnodup hnames hnodes
    cases hfound : found [] with
    | false =>
      cases names with
      | nil => cases isScript <;> simp [scriptPlaces, listed_nil, hfound]
      | cons name names => cases isScript <;> simp [scriptPlaces, listed_cons, hfound]
    | true =>
      rw [scriptPlaces, hfound, if_pos rfl, mem_scriptPlacesIn]
      cases names with
      | nil => simp [listed_nil, isDirectory, hfound]
      | cons name names =>
        rw [listed_cons]
        simp only [hnamed.at?_entry]
        constructor
        · rintro ⟨_, child, _, hmem, hrest, heq⟩
          obtain ⟨rfl, rfl⟩ := List.cons.inj heq
          exact ⟨hfound, child, hmem, (ih _ hmem).mp hrest⟩
        · rintro ⟨-, child, hmem, hlisted⟩
          exact ⟨name, child, names, hmem, (ih _ hmem).mpr hlisted, rfl⟩

theorem nodup_scriptPlacesIn {entries : List (Text × FileNode)} (hnames : (entries.map (·.1)).Nodup)
    (h : ∀ e ∈ entries, ∀ found isScript, (e.2.scriptPlaces found isScript).Nodup) :
    (scriptPlacesIn found entries).Nodup := by
  induction entries with
  | nil => exact List.nodup_nil
  | cons e entries ih =>
    obtain ⟨name, m⟩ := e
    obtain ⟨hnew, hnames⟩ := List.nodup_cons.mp hnames
    obtain ⟨hm, hrest⟩ := List.forall_mem_cons.mp h
    rw [scriptPlacesIn]
    refine List.Nodup.append ((hm _ _).map List.cons_injective) (ih hnames hrest) ?_
    -- places under different entries begin with different names
    intro names hleft hright
    obtain ⟨rest, -, rfl⟩ := List.mem_map.mp hleft
    obtain ⟨other, child, rest', hmem, -, heq⟩ := mem_scriptPlacesIn.mp hright
    obtain ⟨rfl, -⟩ := List.cons.inj heq
    exact hnew (List.mem_map_of_mem (f := (·.1)) hmem)

theorem WellNamed.nodup_scriptPlaces (h : n.WellNamed) (found : List Text → Bool)
    (isScript : Bool) : (n.scriptPlaces found isScript).Nodup := by
  induction h generalizing found isScript with
  | file | special => cases isScript <;> simp [scriptPlaces]
  | directory hnames _ _ ih =>
    rw [scriptPlaces]
    split
    · exact nodup_scriptPlacesIn hnames fun e he found isScript => ih e he found isScript
    · cases isScript <;> simp

/-- Between a node and what stands below it there are only directories. -/
theorem exists_directory_of_prefix {m : FileNode} {front : List Text}
    (hat : n.at? names = some m) (hfront : front <+: names) (hne : front ≠ names) :
    ∃ k, n.at? front = some k ∧ k.isDirectory = true := by
  obtain ⟨rest, rfl⟩ := hfront
  rw [at?_append] at hat
  obtain ⟨k, hk, hrest⟩ := Option.bind_eq_some_iff.mp hat
  refine ⟨k, hk, ?_⟩
  cases rest with
  | nil => exact absurd (List.append_nil front).symm hne
  | cons name rest =>
    cases k with
    | file | special => contradiction
    | directory entries => rfl

/-- Only of the directories on the way, and of one at the end, it matters whether they are
found as such. -/
theorem Listed.congr {found' : List Text → Bool} (h : n.Listed found isScript names)
    (hfound : ∀ front m, front <+: names → n.at? front = some m → m.isDirectory = true →
      found front = found' front) : n.Listed found' isScript names := by
  obtain ⟨⟨m, hat, hend⟩, hway, hname⟩ := h
  refine ⟨⟨m, hat, fun hdirectory => ?_⟩, fun front hfront hne => ?_, hname⟩
  · rw [← hfound names m List.prefix_rfl hat hdirectory, hend hdirectory]
  · obtain ⟨k, hk, hdirectory⟩ := exists_directory_of_prefix hat hfront hne
    rw [← hfound front k hfront hk hdirectory, hway front hfront hne]

theorem Listed.of_same_directories {n' : FileNode}
    (hsame : ∀ names, (n.at? names).map isDirectory = (n'.at? names).map isDirectory)
    (h : n.Listed found isScript names) : n'.Listed found isScript names := by
  obtain ⟨⟨m, hat, hend⟩, hway, hname⟩ := h
  have hmap := hsame names
  rw [hat, Option.map_some, eq_comm, Option.map_eq_some_iff] at hmap
  obtain ⟨m', hat', hdirectory⟩ := hmap
  exact ⟨⟨m', hat', fun h => hend (hdirectory ▸ h)⟩, hway, hname⟩

theorem Listed.hasExtension (h : n.Listed found false names) (hnamed : n.WellNamed) :
    ∃ name ∈ names.getLast?, Path.HasExtension name scriptExtension := by
  obtain ⟨⟨m, hat, -⟩, -, hname⟩ := h
  cases hlast : names.getLast? with
  | none => simp [hlast] at hname
  | some name =>
    have hparent := (hnamed.isEntryName_of_at? hat name (List.mem_of_getLast? hlast)).ne_parent
    refine ⟨name, rfl, (Path.extension?_eq_some_iff hparent).mp ?_⟩
    simpa [hlast, isScriptName] using hname

/-- Where all directories are found as such, the script files are listed. -/
theorem listed_iff_isScriptAt (hnamed : n.WellNamed) :
    n.Listed (fun _ => true) false names ↔ n.IsScriptAt names := by
  constructor
  · intro h
    obtain ⟨m, hat, hend⟩ := h.node
    exact ⟨⟨m, hat, by simpa using hend⟩, h.hasExtension hnamed⟩
  · rintro ⟨⟨m, hat, hfile⟩, name, hlast, hextension⟩
    have hparent := (hnamed.isEntryName_of_at? hat name (List.mem_of_getLast? hlast)).ne_parent
    refine ⟨⟨m, hat, fun hdirectory => ?_⟩, fun _ _ _ => rfl, ?_⟩
    · rw [hfile] at hdirectory
      contradiction
    · rw [Option.mem_def.mp hlast]
      simpa [isScriptName] using (Path.extension?_eq_some_iff hparent).mpr hextension

end FileNode

namespace FileSystem

open FileNode

variable {fs : FileSystem} {base : Text} {entries : List (Text × FileNode)} {names : List Text}

/-- The places of what is listed under a root, in the order in which the paths are. -/
def placesListed (fs : FileSystem) (base : Text) (entries : List (Text × FileNode)) :
    List (List Text) :=
  (scriptPlacesIn (fun names => fs.isDirectory (Path.below base names)) entries).mergeSort
    fun ns ms => (Path.comparePaths (Path.below base ns) (Path.below base ms)).isLE

theorem map_placesListed (fs : FileSystem) (base : Text) (entries : List (Text × FileNode)) :
    (fs.placesListed base entries).map (Path.below base) =
      Path.sort (fs.scriptsIn base entries) := by
  rw [scriptsIn_eq]
  exact List.map_mergeSort fun _ _ _ _ => rfl

theorem scanScripts_eq (hroot : fs.node? base = some (.directory entries)) :
    fs.scanScripts base = .ok ((fs.placesListed base entries).map (Path.below base)) := by
  rw [map_placesListed, scanScripts, hroot]

theorem isDirectory_below_nil (hroot : fs.node? base = some (.directory entries)) :
    fs.isDirectory (Path.below base []) = true := by
  rw [Path.below_nil, isDirectory, hroot]
  rfl

theorem mem_placesListed (hroot : fs.node? base = some (.directory entries))
    (hnamed : WellNamed (.directory entries)) : names ∈ fs.placesListed base entries ↔
      (FileNode.directory entries).Listed (fun names => fs.isDirectory (Path.below base names))
        false names := by
  have hfound := isDirectory_below_nil hroot
  rw [placesListed, List.mem_mergeSort, ← hnamed.mem_scriptPlaces, scriptPlaces, if_pos hfound]

theorem pairwise_placesListed (hroot : fs.node? base = some (.directory entries))
    (hnamed : WellNamed (.directory entries)) : (fs.placesListed base entries).Pairwise
      fun ns ms => Path.comparePaths (Path.below base ns) (Path.below base ms) = .lt ∧ ns < ms := by
  have hbase := ne_nil_of_node? hroot
  have hnames : ∀ ns ∈ fs.placesListed base entries, ∀ n ∈ ns, Path.IsEntryName n := by
    intro ns hns
    obtain ⟨m, hat, -⟩ := ((mem_placesListed hroot hnamed).mp hns).node
    exact hnamed.isEntryName_of_at? hat
  have hascending : (fs.placesListed base entries).Pairwise fun ns ms =>
      (Path.comparePaths (Path.below base ns) (Path.below base ms)).isLE = true := by
    rw [← List.pairwise_map (f := Path.below base)
      (R := fun p q => (Path.comparePaths p q).isLE = true), map_placesListed]
    exact Path.pairwise_sort _
  have hdistinct : (fs.placesListed base entries).Nodup := by
    cases hnamed with
    | directory hnodup _ hnodes =>
      exact (List.mergeSort_perm _ _).nodup_iff.mpr
        (nodup_scriptPlacesIn hnodup fun e he => (hnodes e he).nodup_scriptPlaces)
  refine (hascending.and hdistinct).imp_of_mem ?_
  rintro ns ms hns hms ⟨hle, hne⟩
  have hns := hnames ns hns
  have hms := hnames ms hms
  have hlt : Path.comparePaths (Path.below base ns) (Path.below base ms) = .lt := by
    rcases Ordering.isLE_iff_eq_lt_or_eq_eq.mp hle with hlt | heq
    · exact hlt
    · exact absurd ((Path.comparePaths_below_eq_eq_iff hbase hns hms).mp heq) hne
  exact ⟨hlt, (Path.comparePaths_below_eq_lt_iff hbase hns hms).mp hlt⟩

/-- Within reach, what is listed are the script files. -/
theorem mem_placesListed_of_withinReach (hroot : fs.node? base = some (.directory entries))
    (hnamed : WellNamed (.directory entries))
    (hreach : WithinReach base (.directory entries) names) :
    names ∈ fs.placesListed base entries ↔ (FileNode.directory entries).IsScriptAt names := by
  have hfound : ∀ front m, front <+: names → (FileNode.directory entries).at? front = some m →
      m.isDirectory = true → fs.isDirectory (Path.below base front) = true := by
    intro front m hfront hat hdirectory
    have hany : ((FileNode.directory entries).at? front).any FileNode.isDirectory = true := by
      rw [hat]
      exact hdirectory
    rw [isDirectory_below hroot (hnamed.isEntryName_of_at? hat), hreach front hfront hany, hany]
    rfl
  rw [mem_placesListed hroot hnamed, ← listed_iff_isScriptAt hnamed]
  exact ⟨fun h => h.congr hfound,
    fun h => h.congr fun front m hfront hat hdir => (hfound front m hfront hat hdir).symm⟩

section Congruence

variable {fs' : FileSystem} {entries' : List (Text × FileNode)}

theorem placesListed_subset (hroot : fs.node? base = some (.directory entries))
    (hroot' : fs'.node? base = some (.directory entries'))
    (hnamed : WellNamed (.directory entries)) (hnamed' : WellNamed (.directory entries'))
    (hsame : ∀ names, ((FileNode.directory entries).at? names).map FileNode.isDirectory =
      ((FileNode.directory entries').at? names).map FileNode.isDirectory) :
    fs.placesListed base entries ⊆ fs'.placesListed base entries' := by
  intro names hmem
  have hlisted := (mem_placesListed hroot hnamed).mp hmem
  refine (mem_placesListed hroot' hnamed').mpr (Listed.of_same_directories hsame ?_)
  refine hlisted.congr fun front m _ hat _ => ?_
  have hnames := hnamed.isEntryName_of_at? hat
  have hany : ((FileNode.directory entries).at? front).any FileNode.isDirectory =
      ((FileNode.directory entries').at? front).any FileNode.isDirectory := by
    simpa [Option.any_map] using congrArg (Option.any id) (hsame front)
  rw [isDirectory_below hroot hnames, isDirectory_below hroot' hnames, hany]

/-- How directories list their entries makes no difference: what is found depends only on
where there is something, and where there are directories. -/
theorem scanScripts_congr (hroot : fs.node? base = some (.directory entries))
    (hroot' : fs'.node? base = some (.directory entries'))
    (hnamed : WellNamed (.directory entries)) (hnamed' : WellNamed (.directory entries'))
    (hsame : ∀ names, ((FileNode.directory entries).at? names).map FileNode.isDirectory =
      ((FileNode.directory entries').at? names).map FileNode.isDirectory) :
    fs.scanScripts base = fs'.scanScripts base := by
  have hplaces : fs.placesListed base entries = fs'.placesListed base entries' := by
    refine List.Pairwise.eq_of_mem_iff ((pairwise_placesListed hroot hnamed).imp And.right)
      ((pairwise_placesListed hroot' hnamed').imp And.right) fun {names} => ⟨?_, ?_⟩
    · exact fun hmem => placesListed_subset hroot hroot' hnamed hnamed' hsame hmem
    · exact fun hmem =>
        placesListed_subset hroot' hroot hnamed' hnamed (fun names => (hsame names).symm) hmem
  rw [scanScripts_eq hroot, scanScripts_eq hroot', hplaces]

end Congruence

/-- **Scanning finds every script file once, in the order of paths.** In whatever order
the directories under a root list their entries, the places found within reach are those of the
script files, and all that are found ascend, first name first; so do the paths. -/
theorem scanScripts_places (hroot : fs.node? base = some (.directory entries))
    (hnamed : WellNamed (.directory entries)) :
    ∃ places : List (List Text), fs.scanScripts base = .ok (places.map (Path.below base)) ∧
      (∀ names ∈ places, ((FileNode.directory entries).at? names).isSome = true ∧
        ∃ name ∈ names.getLast?, Path.HasExtension name scriptExtension) ∧
      (∀ names, WithinReach base (.directory entries) names →
        (names ∈ places ↔ (FileNode.directory entries).IsScriptAt names)) ∧
      places.Pairwise (· < ·) ∧
      (places.map (Path.below base)).Pairwise fun p q => Path.comparePaths p q = .lt := by
  have hascending := pairwise_placesListed hroot hnamed
  refine ⟨fs.placesListed base entries, scanScripts_eq hroot, fun names hmem => ?_,
    fun names hreach => mem_placesListed_of_withinReach hroot hnamed hreach,
    hascending.imp And.right, ?_⟩
  · have hlisted := (mem_placesListed hroot hnamed).mp hmem
    obtain ⟨m, hat, -⟩ := hlisted.node
    exact ⟨Option.isSome_of_eq_some hat, hlisted.hasExtension hnamed⟩
  · exact List.pairwise_map.mpr (hascending.imp And.left)

/-- A directory that has the extension, a file with two, a dot file, a socket, and a name that
comes after that of the directory although the text of its path comes first. -/
theorem scanScripts_places_nested :
    let tree : List (Text × FileNode) :=
      [("a-b.kafka".toList, .file .empty), ("x.kafka".toList, .directory
        [("notes.md".toList, .file .empty), ("t.tar.kafka".toList, .file .empty)]),
        (".kafka".toList, .file .empty), ("s.kafka".toList, .special),
        ("a".toList, .directory [("b.kafka".toList, .file .empty)])]
    let fs : FileSystem := ⟨.directory [("d".toList, .directory tree)], []⟩
    fs.node? "d/".toList = some (.directory tree) ∧ WellNamed (.directory tree) ∧
      ∃ places : List (List Text),
        fs.scanScripts "d/".toList = .ok (places.map (Path.below "d/".toList)) ∧
        (∀ names ∈ places, ((FileNode.directory tree).at? names).isSome = true ∧
          ∃ name ∈ names.getLast?, Path.HasExtension name scriptExtension) ∧
        (∀ names, WithinReach "d/".toList (.directory tree) names →
          (names ∈ places ↔ (FileNode.directory tree).IsScriptAt names)) ∧
        places.Pairwise (· < ·) ∧
        ((places.map (Path.below "d/".toList)).Pairwise fun p q => Path.comparePaths p q = .lt) ∧
        ["x.kafka".toList, "t.tar.kafka".toList] ∈ places ∧ ["s.kafka".toList] ∈ places ∧
        ["x.kafka".toList] ∉ places := by
  intro tree fs
  have hroot : fs.node? "d/".toList = some (.directory tree) := rfl
  have hscripts : WellNamed (.directory
      [("notes.md".toList, .file .empty), ("t.tar.kafka".toList, .file .empty)]) :=
    .directory (by decide) (by decide) (by simp [WellNamed.file])
  have hplain : WellNamed (.directory [("b.kafka".toList, .file .empty)]) :=
    .directory (by decide) (by decide) (by simp [WellNamed.file])
  have hnamed : WellNamed (.directory tree) := by
    refine .directory (by decide) (by decide) ?_
    simp only [tree, List.forall_mem_cons]
    exact ⟨.file _, hscripts, .file _, .special, hplain, nofun⟩
  obtain ⟨places, hscan, hthere, hplaces, hascending, hpaths⟩ := scanScripts_places hroot hnamed
  refine ⟨hroot, hnamed, places, hscan, hthere, hplaces, hascending, hpaths, ?_, ?_, ?_⟩
  · have hextension : Path.HasExtension "t.tar.kafka".toList scriptExtension :=
      ⟨"t.tar".toList, by decide, by decide, rfl⟩
    exact (hplaces _ (by decide +kernel)).mpr ⟨⟨.file .empty, rfl, rfl⟩, _, rfl, hextension⟩
  · have hextension : Path.HasExtension "s.kafka".toList scriptExtension :=
      ⟨"s".toList, by decide, by decide, rfl⟩
    exact (hplaces _ (by decide +kernel)).mpr ⟨⟨.special, rfl, rfl⟩, _, rfl, hextension⟩
  · intro hmem
    obtain ⟨⟨m, hat, hfile⟩, -⟩ := (hplaces _ (by decide +kernel)).mp hmem
    obtain rfl := Option.some.inj hat
    contradiction

/-- What scanning would find if it asked of what kind each file is, and if every directory could
be looked up: the regular files that have the extension. -/
def FindsRegularFiles (fs : FileSystem) (base : Text) (entries : List (Text × FileNode)) : Prop :=
  ∃ places : List (List Text), fs.scanScripts base = .ok (places.map (Path.below base)) ∧
    (∀ names, names ∈ places ↔
      (∃ bytes, (FileNode.directory entries).at? names = some (.file bytes)) ∧
        ∃ name ∈ names.getLast?, Path.HasExtension name scriptExtension) ∧
    places.Pairwise (· < ·) ∧
    (places.map (Path.below base)).Pairwise fun p q => Path.comparePaths p q = .lt

/-- What is no regular file is listed all the same if it is not found as a directory. -/
theorem not_findsRegularFiles_of_entry {name : Text} {n : FileNode}
    (hroot : fs.node? base = some (.directory entries)) (hnamed : WellNamed (.directory entries))
    (hentry : (name, n) ∈ entries) (hscript : isScriptName name = true) (hno : n.isFile = false)
    (hfound : fs.isDirectory (Path.below base [name]) = false) :
    ¬ FindsRegularFiles fs base entries := by
  rintro ⟨places, hscan, hplaces, -⟩
  have hat : (FileNode.directory entries).at? [name] = some n := hnamed.at?_entry.mpr hentry
  have hlisted : [name] ∈ fs.placesListed base entries :=
    (mem_placesListed hroot hnamed).mpr (listed_cons.mpr ⟨isDirectory_below_nil hroot, n, hat,
      listed_nil.mpr ⟨fun _ => hfound, hscript⟩⟩)
  have hpaths : places.map (Path.below base) =
      (fs.placesListed base entries).map (Path.below base) :=
    Except.ok.inj (hscan.symm.trans (scanScripts_eq hroot))
  obtain ⟨names, hnames, heq⟩ :=
    List.mem_map.mp (hpaths ▸ List.mem_map_of_mem (f := Path.below base) hlisted)
  -- the claimed place is the same one, because different places have different paths
  obtain ⟨⟨bytes, hat'⟩, -⟩ := (hplaces names).mp hnames
  obtain rfl := Path.eq_of_below_eq (ne_nil_of_node? hroot) (hnamed.isEntryName_of_at? hat')
    (hnamed.isEntryName_of_at? hat) heq
  obtain rfl := Option.some.inj (hat.symm.trans hat')
  contradiction

/-- A socket is listed like a file, and so is a directory whose path is too long to ask what
it is. -/
theorem not_findsRegularFiles :
    let socket : List (Text × FileNode) := [("s.kafka".toList, .special)]
    let name : Text := List.replicate 240 'a' ++ ".kafka".toList
    let deep : List (Text × FileNode) := [(name, .directory [("b.kafka".toList, .file .empty)])]
    let base : Text := 'd' :: (List.replicate 1940 "/.".toList).flatten
    let fs (entries : List (Text × FileNode)) : FileSystem :=
      ⟨.directory [("d".toList, .directory entries)], []⟩
    ((fs socket).node? "d".toList = some (.directory socket) ∧ WellNamed (.directory socket) ∧
      ¬ FindsRegularFiles (fs socket) "d".toList socket) ∧
    (fs deep).node? base = some (.directory deep) ∧ WellNamed (.directory deep) ∧
      ¬ FindsRegularFiles (fs deep) base deep := by
  intro socket name deep base fs
  have hsocket : WellNamed (.directory socket) :=
    .directory (by decide) (by decide) (by simp [socket, WellNamed.special])
  have hscripts : WellNamed (.directory [("b.kafka".toList, .file .empty)]) :=
    .directory (by decide) (by decide) (by simp [WellNamed.file])
  have hdeep : WellNamed (.directory deep) :=
    .directory (List.nodup_singleton _) (by decide +kernel) (by simpa [deep] using hscripts)
  have hroot : (fs socket).node? "d".toList = some (.directory socket) := rfl
  have hplace : (fs deep).resolve? base = some ["d".toList] := by decide +kernel
  have hbase : (fs deep).node? base = some (.directory deep) := by
    rw [node?, hplace]
    rfl
  have hlong : (fs deep).isDirectory (Path.below base [name]) = false := by
    have husable : Path.isUsable (Path.below base [name]) = false := by decide +kernel
    rw [isDirectory, node?, resolve?, husable]
    rfl
  refine ⟨⟨hroot, hsocket, ?_⟩, hbase, hdeep, ?_⟩
  · exact not_findsRegularFiles_of_entry hroot hsocket List.mem_cons_self rfl rfl rfl
  · have hscript : isScriptName name = true := by decide +kernel
    exact not_findsRegularFiles_of_entry hbase hdeep List.mem_cons_self hscript rfl hlong

end FileSystem

end KafkaScript

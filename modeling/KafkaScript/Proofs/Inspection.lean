import KafkaScript.Cli.Inspection
import KafkaScript.Proofs.Cache.Transparency
import KafkaScript.Proofs.Files

/-!
# Files that are shown together

The files of a directory are shown one after the other, and all of them are read
through one cache. What is shown of each is what is shown of it alone
(`Request.ShowsEach`), provided that no two of the files have the same address, which
takes two paths that differ only in which of their slashes are backslashes
(`FileSystem.KeepsApart`).

Files are read as documents of one version and one language, so the address alone has
to tell them apart. If it does, the requests for files satisfy the condition under
which a cache is transparent (`FileSystem.sameTexts`). Along a run over the files the
invariant is the course of the cache so far (`Request.showFiles_eq`).
-/

namespace KafkaScript

namespace FileSystem

variable {fs : FileSystem} {files : List Text}

/-- What was asked of the cache were files. -/
def Asked (fs : FileSystem) (files : List Text) (trace : Cache.Trace Script) : Prop :=
  ∀ doc answer, (.get doc, answer) ∈ trace → ∃ file ∈ files, fs.readDocument file = .ok doc

theorem Asked.nil (fs : FileSystem) (files : List Text) : fs.Asked files [] :=
  nofun

theorem Asked.concat {trace : Cache.Trace Script} (h : fs.Asked files trace) {file : Text}
    (hfile : file ∈ files) {doc : Document} (hdoc : fs.readDocument file = .ok doc)
    (answer : CacheAnswer Script) : fs.Asked files (trace ++ [(.get doc, answer)]) := by
  intro d answer' hmem
  rcases List.mem_append.mp hmem with hmem | hmem
  · exact h d answer' hmem
  · obtain ⟨hd, -⟩ := Prod.mk.inj (List.mem_singleton.mp hmem)
    obtain rfl := CacheOp.get.inj hd
    exact ⟨file, hfile, hdoc⟩

/-- Files that are kept apart have one text for each address. -/
theorem sameTexts {trace : Cache.Trace Script} (hapart : fs.KeepsApart files)
    (h : fs.Asked files trace) : trace.SameTexts := by
  intro d e answer answer' hd he huri _ _
  obtain ⟨f, hf, hdoc⟩ := h d answer hd
  obtain ⟨g, hg, hdoc'⟩ := h e answer' he
  have hplace := (hapart.uri_eq_iff hf hg hdoc hdoc').mp huri
  obtain ⟨names, -, hnames, -⟩ := readDocument_cases hdoc
  rw [readDocument_congr hnames (hplace.symm.trans hnames) hdoc hdoc']

end FileSystem

namespace Cache

variable {catalog : Catalog} {start c : Cache Script} {trace : Trace Script}

variable {fs : FileSystem} {files : List Text}

/-- In the course of a run over files that are kept apart, a request for one of them
is answered with its script, and the run goes on. -/
theorem Course.get_file (hstart : start.entries = []) (hapart : fs.KeepsApart files)
    (h : Course (Script.readLogged catalog) start trace c) (hasked : fs.Asked files trace)
    {file : Text} (hfile : file ∈ files) {doc : Document} (hdoc : fs.readDocument file = .ok doc) :
    ∃ stored log next, c.get (Script.readLogged catalog) doc = .ok (stored, log, next) ∧
      Script.read doc catalog = .ok stored.model ∧
      Course (Script.readLogged catalog) start (trace ++ [(.get doc, .model stored)]) next ∧
      fs.Asked files (trace ++ [(.get doc, .model stored)]) := by
  obtain ⟨stored, log, next, hget⟩ :=
    exists_get (fun d => ⟨_, Script.readLogged_eq catalog d⟩) c doc
  have happly : c.apply (Script.readLogged catalog) (.get doc) =
      .ok (.model stored, log, next) := by
    rw [apply, hget]
    rfl
  -- the invariant is asked of the course with this request, whose text the cache may
  -- already know under the same address
  have hasked' := hasked.concat hfile hdoc (.model stored)
  have hcourse := h.op happly
  have hvouched := hcourse.vouched hstart (FileSystem.sameTexts hapart hasked')
  obtain ⟨stored', hstored, hread⟩ :=
    hvouched.script (List.mem_append_right trace (List.mem_singleton_self _))
  obtain rfl := CacheAnswer.model.inj hstored
  exact ⟨stored, log, next, hget, hread, hcourse, hasked'⟩

end Cache

namespace Outcome

/-- What comes next is shown only if all went well. -/
def andThen (o next : Outcome) : Outcome :=
  if o.exitCode = 0 then next.after o.output else o

theorem andThen_failed (what : Text) (causes : List Text) (heading : Text) (next : Outcome) :
    ((failed what causes).after heading).andThen next = (failed what causes).after heading := rfl

theorem andThen_done (output heading : Text) (next : Outcome) :
    ((done output).after heading).andThen next = next.after (heading ++ output) := rfl

end Outcome

namespace Request

/-- Shows each file by itself, under its heading, as long as all goes well. -/
def showEach (r : Request) (fs : FileSystem) (c : Config) (several : Bool) (files : List Text) :
    Outcome :=
  files.foldr (fun file rest =>
    ((r.showPath fs c file).after (fileHeading several file)).andThen rest) (.done [])

variable {r : Request} {fs : FileSystem} {c : Config} {start : Cache Script} {files : List Text}

/-- A file alone is shown through a cache of its own. -/
theorem showPath_eq (hcreate : Cache.create c.cacheOptions = .ok start) {file : Text}
    (hfile : fs.isDirectory file = false) :
    r.showPath fs c file = r.showFiles fs c.catalog false start [file] := by
  have hfiles : filesAt fs file = .ok [file] := by
    rw [filesAt, hfile]
    rfl
  rw [showPath, hfiles]
  simp only [hcreate]
  rfl

/-- What is shown of a file alone. -/
theorem showPath_of_ok (hcreate : Cache.create c.cacheOptions = .ok start) {file : Text}
    (hfile : fs.isDirectory file = false) {doc : Document} (hdoc : fs.readDocument file = .ok doc) :
    ∃ s, Script.read doc c.catalog = .ok s ∧ r.showPath fs c file = .done (r.view s) := by
  obtain ⟨stored, log, next, hget, hread, -, -⟩ :=
    Cache.Course.get_file (Cache.entries_create hcreate) (.singleton fs file) .start
      (.nil fs [file]) List.mem_cons_self hdoc
  refine ⟨stored.model, hread, ?_⟩
  rw [showPath_eq hcreate hfile, showFiles]
  simp only [hdoc, hget]
  show Outcome.done (_ ++ []) = _
  rw [List.append_nil]
  rfl

theorem showPath_of_error (hcreate : Cache.create c.cacheOptions = .ok start) {file : Text}
    (hfile : fs.isDirectory file = false) {e : FileError} (he : fs.readDocument file = .error e) :
    r.showPath fs c file = .failed ("reading ".toList ++ file) e.causes := by
  rw [showPath_eq hcreate hfile, showFiles]
  simp only [he]
  rfl

/-- From any point of a run over the files, the rest of them is shown file by file. -/
theorem showFiles_eq (hcreate : Cache.create c.cacheOptions = .ok start)
    (hregular : ∀ file ∈ files, fs.isDirectory file = false) (hapart : fs.KeepsApart files)
    {trace : Cache.Trace Script} {cache : Cache Script} (several : Bool) {rest : List Text}
    (h : Cache.Course (Script.readLogged c.catalog) start trace cache)
    (hasked : fs.Asked files trace) (hrest : rest ⊆ files) :
    r.showFiles fs c.catalog several cache rest = r.showEach fs c several rest := by
  induction rest generalizing trace cache with
  | nil => rfl
  | cons file rest ih =>
    have hfile := hrest List.mem_cons_self
    rw [showFiles, showEach, List.foldr_cons, ← showEach]
    cases hdoc : fs.readDocument file with
    | error e =>
      -- a file that cannot be read ends both in the same way
      simp only [showPath_of_error hcreate (hregular file hfile) hdoc, Outcome.andThen_failed]
    | ok doc =>
      -- the shared cache answers with the script that a cache of its own would give
      obtain ⟨stored, log, next, hget, hread, hcourse, hasked'⟩ :=
        h.get_file (Cache.entries_create hcreate) hapart hasked hfile hdoc
      obtain ⟨s, hs, hshown⟩ := showPath_of_ok (r := r) hcreate (hregular file hfile) hdoc
      obtain rfl := Except.ok.inj (hs.symm.trans hread)
      have hlater := ih hcourse hasked' fun f hf => hrest (List.mem_cons_of_mem file hf)
      rw [hshown, Outcome.andThen_done, ← hlater]
      simp only [hget]

/-- What is shown of some files does not depend on which of them are shown together. -/
structure ShowsEach (r : Request) (fs : FileSystem) (c : Config) (start : Cache Script)
    (files : List Text) : Prop where
  /-- Two files have one address exactly if they are the same file. -/
  identity : ∀ f ∈ files, ∀ g ∈ files, ∀ d e, fs.readDocument f = .ok d →
    fs.readDocument g = .ok e → (d.uri = e.uri ↔ fs.resolve? f = fs.resolve? g)
  /-- Whatever the cache was asked and lost before, the tree of a file is that of its
  text. -/
  trees : ∀ trace cache, Cache.Course (Script.readLogged c.catalog) start trace cache →
    fs.Asked files trace → ∀ doc answer, (.get doc, answer) ∈ trace →
      ∃ stored, answer = .model stored ∧ Script.read doc c.catalog = .ok stored.model
  /-- Of a file alone, the tree of its own text is shown. -/
  alone : ∀ file ∈ files, ∀ doc, fs.readDocument file = .ok doc →
    (∃ n, fs.node? file = some n ∧ FileSystem.textOf n = .ok doc.text) ∧
      ∃ s, Script.read doc c.catalog = .ok s ∧ r.showPath fs c file = .done (r.view s)
  /-- Of the files together, each is shown as it is alone. -/
  together : ∀ several, r.showFiles fs c.catalog several start files =
    r.showEach fs c several files
  /-- In particular if they are the files of a directory. -/
  directory : ∀ path, filesAt fs path = .ok files → files ≠ [] →
    r.showPath fs c path = r.showEach fs c (1 < files.length) files

/-- Files that are kept apart are shown as each of them is alone, from any cache that
can be made. -/
theorem showsEach (r : Request) (hcreate : Cache.create c.cacheOptions = .ok start)
    (hregular : ∀ file ∈ files, fs.isDirectory file = false) (hapart : fs.KeepsApart files) :
    r.ShowsEach fs c start files := by
  have htogether : ∀ several, r.showFiles fs c.catalog several start files =
      r.showEach fs c several files := fun several =>
    showFiles_eq hcreate hregular hapart several .start (.nil fs files) (List.Subset.refl files)
  refine ⟨fun f hf g hg d e hd he => hapart.uri_eq_iff hf hg hd he, ?_, ?_, htogether, ?_⟩
  · intro trace cache hcourse hasked doc answer hmem
    have hvouched := hcourse.vouched (Cache.entries_create hcreate)
      (FileSystem.sameTexts hapart hasked)
    exact hvouched.script hmem
  · intro file hfile doc hdoc
    obtain ⟨names, n, hnames, hn, htext, -⟩ := FileSystem.readDocument_cases hdoc
    refine ⟨⟨n, ?_, htext⟩, showPath_of_ok hcreate (hregular file hfile) hdoc⟩
    rw [FileSystem.node?, hnames]
    exact hn
  · intro path hpath hne
    rw [showPath, hpath, ← htogether]
    cases files with
    | nil => exact absurd rfl hne
    | cons file rest => simp only [hcreate]

/-- A backslash in a name, but no other file at the place that its slash would lead to. -/
theorem showsEach_backslash :
    let fs : FileSystem := ⟨.directory [("d".toList, .directory
      [("a\\b.kafka".toList, .file "PRODUCER\n".toUTF8),
        ("b.kafka".toList, .file "CONSUMER g\n".toUTF8)])], []⟩
    let files : List Text := ["/d/a\\b.kafka".toList, "/d/b.kafka".toList]
    let r : Request := {}
    let c : Config := {}
    ∃ start, Cache.create c.cacheOptions = .ok start ∧
      (∀ file ∈ files, fs.isDirectory file = false) ∧ fs.KeepsApart files ∧
        r.ShowsEach fs c start files := by
  intro fs files r c
  let start : Cache Script := ⟨c.cacheOptions, [], [], [], 0, 0, true⟩
  have hcreate : Cache.create c.cacheOptions = .ok start := if_neg (by decide)
  have hregular : ∀ file ∈ files, fs.isDirectory file = false := by decide
  have hapart : fs.KeepsApart files := by decide
  exact ⟨start, hcreate, hregular, hapart, showsEach r hcreate hregular hapart⟩

end Request

end KafkaScript

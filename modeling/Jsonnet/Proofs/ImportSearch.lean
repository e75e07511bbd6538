import Jsonnet.Import.Importer

/-!
# The search for imported files

A path is followed component by component from a place of a file tree. Either it leads to a
node, or something stands in its way: nothing of that name, a file that has nothing below it, a
name or a path that is too long, or a character that no path can hold. The search for an import
goes on past a candidate where nothing or a directory is. It ends at every other one: at a file,
whether or not its bytes are a text, and also where a file or the spelling of the path stands in
the way, although no file is found there.
-/

namespace Jsonnet

/-- What comes of reading a node. -/
def FileTree.contents : FileTree → Except ReadError String
  | .directory _ => .error .isDirectory
  | .file none => .error .notText
  | .file (some text) => .ok text

namespace Place

/-! ### Following a path -/

/-- A component that is neither idle nor leads up. -/
def IsName (component : List Char) : Prop :=
  Path.isIdle component = false ∧ component ≠ ['.', '.']

/-- A component leads from a place to another one. -/
inductive Passes (place : Place) : List Char → Place → Prop where
  | stay {entries : List (String × FileTree)} {component : List Char}
      (directory : place.node = .directory entries) (idle : Path.isIdle component = true) :
    Passes place component place
  | up {entries : List (String × FileTree)} (directory : place.node = .directory entries) :
    Passes place ['.', '.'] place.parent
  | down {entries : List (String × FileTree)} {name : List Char} {child : FileTree}
      (directory : place.node = .directory entries) (isName : IsName name)
      (short : Text.byteCount name ≤ maxNameLength)
      (entry : entries.lookup (String.ofList name) = some child) :
    Passes place name ⟨child, place.node :: place.ancestors⟩

/-- An error keeps a component from leading anywhere from a place. -/
inductive Stops (place : Place) : List Char → ReadError → Prop where
  | file {text : Option String} {component : List Char} (file : place.node = .file text) :
    Stops place component .notDirectory
  | long {entries : List (String × FileTree)} {name : List Char}
      (directory : place.node = .directory entries) (isName : IsName name)
      (long : maxNameLength < Text.byteCount name) :
    Stops place name .tooLong
  | absent {entries : List (String × FileTree)} {name : List Char}
      (directory : place.node = .directory entries) (isName : IsName name)
      (short : Text.byteCount name ≤ maxNameLength)
      (absent : entries.lookup (String.ofList name) = none) :
    Stops place name .missing

/-- Components lead from a place to another one, with some of them left. -/
inductive Leads : Place → List (List Char) → Place → List (List Char) → Prop where
  | start (place : Place) (components : List (List Char)) :
    Leads place components place components
  | on {place next target : Place} {component : List Char} {rest left : List (List Char)}
      (step : place.Passes component next) (after : Leads next rest target left) :
    Leads place (component :: rest) target left

section

variable {place target : Place} {component : List Char} {components left : List (List Char)}
  {e : ReadError}

/-- A component leads somewhere, or something stops it. -/
theorem step_spec (place : Place) (component : List Char) :
  (∃ next, place.step component = .ok next ∧ place.Passes component next) ∨
    ∃ e, place.step component = .error e ∧ place.Stops component e
  := by
  cases directory : place.node with
  | file text => exact .inr ⟨_, by simp [step, directory], .file directory⟩
  | directory entries =>
    by_cases idle : Path.isIdle component = true
    · exact .inl ⟨_, by simp [step, directory, idle], .stay directory idle⟩
    by_cases up : component = ['.', '.']
    · subst up
      exact .inl ⟨_, by simp [step, directory, Path.isIdle], .up directory⟩
    have isName : IsName component := ⟨by simpa using idle, up⟩
    by_cases long : maxNameLength < Text.byteCount component
    · exact .inr ⟨_, by simp [step, directory, idle, up, long], .long directory isName long⟩
    cases entry : entries.lookup (String.ofList component) with
    | none =>
      exact .inr ⟨_, by simp [step, directory, idle, up, long, entry],
        .absent directory isName (Nat.le_of_not_lt long) entry⟩
    | some child =>
      exact .inl ⟨_, by simp [step, directory, idle, up, long, entry],
        .down directory isName (Nat.le_of_not_lt long) entry⟩

theorem Passes.step_eq (h : place.Passes component target) :
  place.step component = .ok target
  := by
  cases h with
  | stay directory idle => simp [step, directory, idle]
  | up directory => simp [step, directory, Path.isIdle]
  | down directory isName short entry =>
    simp [step, directory, isName.1, isName.2, Nat.not_lt.mpr short, entry]

theorem Stops.step_eq (h : place.Stops component e) :
  place.step component = .error e
  := by
  cases h with
  | file file => simp [step, file]
  | long directory isName long => simp [step, directory, isName.1, isName.2, long]
  | absent directory isName short absent =>
    simp [step, directory, isName.1, isName.2, Nat.not_lt.mpr short, absent]

/-- Components lead all the way to a place, or something stops one of them. -/
theorem walk_spec (place : Place) (components : List (List Char)) :
  (∃ target, place.walk components = .ok target ∧ Leads place components target []) ∨
    ∃ at' name left e, place.walk components = .error e ∧
      Leads place components at' (name :: left) ∧ at'.Stops name e
  := by
  induction components generalizing place with
  | nil => exact .inl ⟨place, rfl, .start place []⟩
  | cons component rest ih =>
    obtain ⟨next, hstep, hpasses⟩ | ⟨e, hstep, hstops⟩ := place.step_spec component
    · obtain ⟨target, hwalk, hleads⟩ | ⟨at', name, left, e, hwalk, hleads, hstops⟩ := ih next
      · exact .inl ⟨target, by simp [walk, hstep, hwalk], .on hpasses hleads⟩
      · exact .inr ⟨at', name, left, e, by simp [walk, hstep, hwalk], .on hpasses hleads, hstops⟩
    · exact .inr ⟨place, component, rest, e, by simp [walk, hstep], .start _ _, hstops⟩

/-- Components that lead to a place can be left out. -/
theorem Leads.walk_eq (h : Leads place components target left) :
  place.walk components = target.walk left
  := by
  induction h with
  | start => rfl
  | on step _ ih => rw [walk, step.step_eq, ← ih]

/-! ### What is under a path -/

/-- The place from which a path is followed. -/
def startOf (place : Place) (path : String) : Place :=
  if Path.isAbsolute path then place.root else place

/-- No character of a path and not its length keep it from being followed. -/
structure Fit (path : String) : Prop where
  noNul : '\x00' ∉ path.toList
  short : Text.byteCount path.toList ≤ maxPathLength

/-- A path leads to a node. -/
def Holds (place : Place) (path : String) (node : FileTree) : Prop :=
  Fit path ∧ path ≠ "" ∧
    ∃ target, Leads (place.startOf path) (Path.components path.toList) target [] ∧
      target.node = node

/-- Something stops a path before its end. -/
def Blocks (place : Place) (path : String) (e : ReadError) : Prop :=
  Fit path ∧ path ≠ "" ∧
    ∃ at' name left, Leads (place.startOf path) (Path.components path.toList) at' (name :: left) ∧
      at'.Stops name e

/-- There is nothing under a path: it is empty, or leads to a directory without an entry of the
next name. -/
def Lacks (place : Place) (path : String) : Prop := path = "" ∨ place.Blocks path .missing

/-- A path cannot be looked up: for how it is spelled, or since a file has nothing below it. -/
inductive Refuses (place : Place) (path : String) : ReadError → Prop where
  | nul (nul : '\x00' ∈ path.toList) : Refuses place path .nul
  | long (noNul : '\x00' ∉ path.toList) (long : maxPathLength < Text.byteCount path.toList) :
    Refuses place path .tooLong
  | name (blocked : place.Blocks path .tooLong) : Refuses place path .tooLong
  | file (blocked : place.Blocks path .notDirectory) : Refuses place path .notDirectory

variable {path : String} {node : FileTree}

theorem Fit.read_eq (fit : Fit path) (nonempty : path ≠ "") :
  place.read path =
    ((place.startOf path).walk (Path.components path.toList)).bind (·.node.contents)
  := by
  rw [read, if_neg (by simpa using fit.noNul), if_neg (Nat.not_lt.mpr fit.short),
    if_neg (by simpa using nonempty), startOf]
  dsimp only
  rcases (if Path.isAbsolute path then place.root else place).walk (Path.components path.toList)
    with _ | ⟨⟨_ | _⟩ | _, _⟩ <;> rfl

theorem Holds.read_eq (h : place.Holds path node) :
  place.read path = node.contents
  := by
  obtain ⟨fit, nonempty, target, hleads, rfl⟩ := h
  rw [fit.read_eq nonempty, hleads.walk_eq]
  rfl

theorem Blocks.read_eq (h : place.Blocks path e) :
  place.read path = .error e
  := by
  obtain ⟨fit, nonempty, at', name, left, hleads, hstops⟩ := h
  rw [fit.read_eq nonempty, hleads.walk_eq, walk, hstops.step_eq]
  rfl

theorem Lacks.read_eq (h : place.Lacks path) :
  place.read path = .error .missing
  := by
  obtain rfl | blocked := h
  · simp [read]
  · exact blocked.read_eq

theorem Refuses.read_eq (h : place.Refuses path e) :
  place.read path = .error e
  := by
  cases h with
  | nul nul => simp [read, nul]
  | long noNul long => simp [read, noNul, long]
  | name blocked => exact blocked.read_eq
  | file blocked => exact blocked.read_eq

/-- A path leads to a node, or there is nothing under it, or it cannot be looked up. -/
theorem holds_or_lacks_or_refuses (place : Place) (path : String) :
  (∃ node, place.Holds path node) ∨ place.Lacks path ∨ ∃ e, place.Refuses path e
  := by
  by_cases nul : '\x00' ∈ path.toList
  · exact .inr (.inr ⟨_, .nul nul⟩)
  by_cases long : maxPathLength < Text.byteCount path.toList
  · exact .inr (.inr ⟨_, .long nul long⟩)
  by_cases empty : path = ""
  · exact .inr (.inl (.inl empty))
  have fit : Fit path := ⟨nul, Nat.le_of_not_lt long⟩
  obtain ⟨target, -, hleads⟩ | ⟨at', name, left, e, -, hleads, hstops⟩ :=
    (place.startOf path).walk_spec (Path.components path.toList)
  · exact .inl ⟨_, fit, empty, target, hleads, rfl⟩
  have blocked : place.Blocks path e := ⟨fit, empty, at', name, left, hleads, hstops⟩
  cases hstops with
  | file => exact .inr (.inr ⟨_, .file blocked⟩)
  | long => exact .inr (.inr ⟨_, .name blocked⟩)
  | absent => exact .inr (.inl (.inr blocked))

end

end Place

namespace Importer

/-! ### The search -/

/-- The search goes on past a candidate: there is nothing, or a directory. -/
inductive Skips (place : Place) (candidate : String) : Prop where
  | nothing (lacks : place.Lacks candidate)
  | directory {entries : List (String × FileTree)}
      (holds : place.Holds candidate (.directory entries))

/-- The search for a path ends at a candidate with an answer. -/
inductive Settles (place : Place) (path candidate : String) :
    Except ImportError ImportedFile → Prop where
  | text {text : String} (holds : place.Holds candidate (.file (some text))) :
    Settles place path candidate (.ok ⟨text, candidate⟩)
  | bytes (holds : place.Holds candidate (.file none)) :
    Settles place path candidate (.error (.unreadable path ReadError.notText.message))
  | refused {e : ReadError} (refuses : place.Refuses candidate e) :
    Settles place path candidate (.error (.unreadable path e.message))

section

variable {place : Place} {directory path : String} {answer : Except ImportError ImportedFile}

theorem Skips.candidate_eq (h : Skips place (Path.join directory path)) :
  candidate place directory path = .ok none
  := by
  cases h with
  | nothing lacks => simp [candidate, lacks.read_eq]
  | directory holds => simp [candidate, holds.read_eq, FileTree.contents]

theorem Settles.candidate_eq (h : Settles place path (Path.join directory path) answer) :
  candidate place directory path = answer.map some
  := by
  cases h with
  | text holds => simp [candidate, holds.read_eq, FileTree.contents, Except.map]
  | bytes holds => simp [candidate, holds.read_eq, FileTree.contents, Except.map]
  | refused refuses =>
    have hread := refuses.read_eq
    cases refuses <;> simp [candidate, hread, Except.map]

/-- The search goes on past a candidate or ends there. -/
theorem skips_or_settles (place : Place) (path candidate : String) :
  Skips place candidate ∨ ∃ answer, Settles place path candidate answer
  := by
  obtain ⟨node, holds⟩ | lacks | ⟨e, refuses⟩ := place.holds_or_lacks_or_refuses candidate
  · match node, holds with
    | .directory _, holds => exact .inl (.directory holds)
    | .file none, holds => exact .inr ⟨_, .bytes holds⟩
    | .file (some _), holds => exact .inr ⟨_, .text holds⟩
  · exact .inl (.nothing lacks)
  · exact .inr ⟨_, .refused refuses⟩

/-- The candidates for a path below some directories. -/
def candidates (directories : List String) (path : String) : List String :=
  directories.map (Path.join · path)

/-- A path below some directories is decided with an answer: at the first candidate that is not
skipped, or else by there being none. -/
def Decided (place : Place) (path : String) (candidates : List String)
    (answer : Except ImportError ImportedFile) : Prop :=
  (∃ before candidate after, candidates = before ++ candidate :: after ∧
      (∀ skipped ∈ before, Skips place skipped) ∧ Settles place path candidate answer) ∨
    ((∀ candidate ∈ candidates, Skips place candidate) ∧ answer = .error (.notFound path))

theorem Decided.cons {candidate : String} {candidates : List String}
    (skips : Skips place candidate) (h : Decided place path candidates answer) :
  Decided place path (candidate :: candidates) answer
  := by
  obtain ⟨before, found, after, rfl, hbefore, settles⟩ | ⟨hall, hanswer⟩ := h
  · exact .inl ⟨candidate :: before, found, after, rfl,
      List.forall_mem_cons.mpr ⟨skips, hbefore⟩, settles⟩
  · exact .inr ⟨List.forall_mem_cons.mpr ⟨skips, hall⟩, hanswer⟩

theorem firstOf_decided (place : Place) (path : String) (directories : List String) :
  Decided place path (candidates directories path) (firstOf place path directories)
  := by
  induction directories with
  | nil => exact .inr ⟨by simp [candidates], rfl⟩
  | cons directory rest ih =>
    obtain skips | ⟨answer, settles⟩ := skips_or_settles place path (Path.join directory path)
    · rw [firstOf, skips.candidate_eq]
      exact ih.cons skips
    · rw [firstOf, settles.candidate_eq]
      refine .inl ⟨[], _, candidates rest path, rfl, List.forall_mem_nil _, ?_⟩
      cases answer <;> exact settles

theorem Decided.firstOf_eq {directories : List String}
    (h : Decided place path (candidates directories path) answer) :
  firstOf place path directories = answer
  := by
  induction directories with
  | nil =>
    obtain ⟨before, _, _, hsplit, -⟩ | ⟨-, rfl⟩ := h
    · exact absurd hsplit (by simp [candidates])
    · rfl
  | cons directory rest ih =>
    obtain ⟨before, found, after, hsplit, hbefore, settles⟩ | ⟨hall, hanswer⟩ := h
    · cases before with
      | nil =>
        obtain ⟨rfl, -⟩ := List.cons.inj hsplit
        rw [firstOf, settles.candidate_eq]
        cases answer <;> rfl
      | cons skipped before =>
        obtain ⟨rfl, hrest⟩ := List.cons.inj hsplit
        obtain ⟨skips, hbefore⟩ := List.forall_mem_cons.mp hbefore
        rw [firstOf, skips.candidate_eq]
        exact ih (.inl ⟨before, found, after, hrest, hbefore, settles⟩)
    · obtain ⟨skips, hall⟩ := List.forall_mem_cons.mp hall
      rw [firstOf, skips.candidate_eq]
      exact ih (.inr ⟨hall, hanswer⟩)

end

/-- The search for an import takes the importing directory and then the library directories, the
last of them first. The first candidate that is not skipped decides it: a text that is found there
is the answer with the candidate as its location, and a file that is no text, or a path that cannot
be looked up, ends the search with an error. Only where all candidates are skipped the answer is
that there is no such file. -/
theorem search_eq_iff (place : Place) (libraries : List String) (directory path : String)
    (answer : Except ImportError ImportedFile) :
  search place libraries directory path = answer ↔
    Decided place path (candidates (directory :: libraries.reverse) path) answer
  := by
  constructor
  · rintro rfl
    exact firstOf_decided place path (directory :: libraries.reverse)
  · exact Decided.firstOf_eq

/-- A file above a candidate ends the search, although the library has the file. -/
example :
    search (Place.temporary (.ofFiles [("a", .file (some "1")), ("lib/a/b", .file (some "2"))]))
      ["lib"] "" "a/b" = .error (.unreadable "a/b" "Not a directory (os error 20)") := by
  rfl

end Importer

end Jsonnet

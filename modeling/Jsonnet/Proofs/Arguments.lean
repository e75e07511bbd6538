import Jsonnet.Proofs.Outcomes
import Jsonnet.Proofs.Outset

/-!
# Arguments of programs

A program whose value is a function is called with what was given from outside, matched to the
parameters by name. Of the settings for one name only the last counts. The order of the others
decides nothing but which of several names that are no parameters is reported.
-/

namespace Jsonnet

open Jsonnet.Action

/-! ### Settings that count -/

/-- The settings that count, in their order: of those for one name the last. -/
def lastSettings {α β : Type} [DecidableEq α] : List (α × β) → List (α × β)
  | [] => []
  | setting :: rest =>
    if setting.1 ∈ rest.map Prod.fst then lastSettings rest else setting :: lastSettings rest

section

variable {α β : Type} [DecidableEq α]

theorem mem_map_fst_lastSettings {settings : List (α × β)} {name : α} :
  name ∈ (lastSettings settings).map Prod.fst ↔ name ∈ settings.map Prod.fst
  := by
  induction settings with
  | nil => rfl
  | cons setting rest ih =>
    rw [lastSettings]
    split
    case isTrue again =>
      rw [ih, List.map_cons, List.mem_cons]
      constructor
      · exact .inr
      · rintro (rfl | h)
        · exact again
        · exact h
    case isFalse =>
      rw [List.map_cons, List.mem_cons, ih, List.map_cons, List.mem_cons]

theorem mem_map_fst_iff_lookup {settings : List (α × β)} {name : α} :
  name ∈ settings.map Prod.fst ↔ (settings.lookup name).isSome = true
  := by
  simp only [List.lookup_isSome_iff, List.mem_map, beq_iff_eq, eq_comm (a := name)]

theorem lookup_cons_eq_ite (settings : List (α × β)) (key name : α) (value : β) :
  ((key, value) :: settings).lookup name
    = if name = key then some value else settings.lookup name
  := by
  rw [List.lookup_cons]
  split
  case h_1 h => rw [if_pos (beq_iff_eq.mp h)]
  case h_2 h => rw [if_neg (beq_eq_false_iff_ne.mp h)]

/-- What counts for a name is what it was given last. -/
theorem lookup_lastSettings (settings : List (α × β)) (name : α) :
  (lastSettings settings).lookup name = settings.reverse.lookup name
  := by
  induction settings with
  | nil => rfl
  | cons setting rest ih =>
    obtain ⟨key, value⟩ := setting
    have mem : name ∈ rest.map Prod.fst ↔ ((lastSettings rest).lookup name).isSome = true := by
      rw [← mem_map_fst_lastSettings, mem_map_fst_iff_lookup]
    rw [List.reverse_cons, List.lookup_append, ← ih, lookup_cons_eq_ite, lastSettings]
    by_cases again : key ∈ rest.map Prod.fst
    · rw [if_pos again]
      by_cases hname : name = key
      · rw [Option.or_of_isSome (mem.mp (hname ▸ again))]
      · rw [if_neg hname, List.lookup_nil, Option.or_none]
    · rw [if_neg again, lookup_cons_eq_ite]
      by_cases hname : name = key
      · have absent : (lastSettings rest).lookup name = none := by
          rw [← Option.not_isSome_iff_eq_none, ← mem, hname]
          exact again
        rw [absent, if_pos hname, Option.none_or, if_pos hname]
      · rw [if_neg hname, if_neg hname, List.lookup_nil, Option.or_none]

end

/-- Giving values anew one after the other leaves those that count. -/
theorem foldl_giveAnew (values settings : List (Name × External)) :
  settings.foldl giveAnew values
    = values.filter (fun old => old.1 ∉ settings.map Prod.fst) ++ lastSettings settings
  := by
  induction settings generalizing values with
  | nil => simp [lastSettings]
  | cons setting rest ih =>
    have others : (values.filter fun old => old.1 != setting.1).filter
          (fun old => old.1 ∉ rest.map Prod.fst)
        = values.filter fun old => old.1 ∉ (setting :: rest).map Prod.fst := by
      rw [List.filter_filter]
      apply List.filter_congr
      intro old _
      rw [Bool.eq_iff_iff]
      simp only [Bool.and_eq_true, decide_eq_true_eq, bne_iff_ne, List.map_cons, List.mem_cons,
        not_or, and_comm]
    rw [List.foldl_cons, ih, giveAnew, List.filter_append, others, List.append_assoc, lastSettings]
    congr 1
    by_cases again : setting.1 ∈ rest.map Prod.fst
    · rw [if_pos again, List.filter_cons_of_neg (by simpa using again)]
      rfl
    · rw [if_neg again, List.filter_cons_of_pos (by simpa using again)]
      rfl

/-! ### Names of settings -/

/-- Settings under strings, and the same settings under the names of the strings. -/
def Interner.Lists (names : Interner) :
    List (String × External) → List (Name × External) → Prop :=
  List.Forall₂ fun x y => names.Numbers x.1 y.1 ∧ x.2 = y.2

namespace Interner

variable {names later : Interner}

/-- Names stand for the same string if they are the same. -/
theorem Numbers.eq_iff {s t : String} {n m : Name} (hs : names.Numbers s n)
    (ht : names.Numbers t m) :
  s = t ↔ n = m
  := by
  constructor
  · rintro rfl
    exact hs.unique ht
  · rintro rfl
    exact Option.some.inj (hs.string.symm.trans ht.string)

theorem Numbers.lookup {s : String} {n : Name} (h : names.Numbers s n) :
  names.lookup n = s
  := by
  rw [lookup_eq, h.string]
  rfl

/-- A string that gets a name in the end got it when it was interned. -/
theorem Numbers.intern {s : String} {n : Name} (h : later.Numbers s n)
    (hle : (names.intern s).2 ≤ later) :
  (names.intern s).1 = n
  := by
  have again := intern_again hle
  rw [Interner.intern, h.tryIntern_eq] at again
  exact (congrArg Prod.fst again).symm

theorem Numbers.mem_iff {s : String} {n : Name} (h : names.Numbers s n) {texts : List String}
    {ns : List Name} (all : List.Forall₂ names.Numbers texts ns) :
  s ∈ texts ↔ n ∈ ns
  := by
  induction all with
  | nil => exact iff_of_false List.not_mem_nil List.not_mem_nil
  | cons first _ ih => rw [List.mem_cons, List.mem_cons, ih, h.eq_iff first]

namespace Lists

variable {given : List (String × External)} {values : List (Name × External)}

theorem mono (h : names.Lists given values) (hle : names ≤ later) :
  later.Lists given values
  := h.imp fun _ _ hxy => ⟨hxy.1.mono hle, hxy.2⟩

theorem numbers (h : names.Lists given values) :
  List.Forall₂ names.Numbers (given.map Prod.fst) (values.map Prod.fst)
  := by
  rw [List.forall₂_map_left_iff, List.forall₂_map_right_iff]
  exact h.imp fun _ _ hxy => hxy.1

/-- The same settings count. -/
theorem lastSettings (h : names.Lists given values) :
  names.Lists (lastSettings given) (Jsonnet.lastSettings values)
  := by
  induction h with
  | nil => exact .nil
  | @cons x y given values first rest ih =>
    rw [Jsonnet.lastSettings, Jsonnet.lastSettings]
    by_cases again : x.1 ∈ given.map Prod.fst
    · rw [if_pos again, if_pos ((first.1.mem_iff (numbers rest)).mp again)]
      exact ih
    · rw [if_neg again, if_neg (mt (first.1.mem_iff (numbers rest)).mpr again)]
      exact .cons first ih

/-- The same is given under a string as under its name. -/
theorem lookup_eq (h : names.Lists given values) {s : String} {n : Name} (hs : names.Numbers s n) :
  values.lookup n = given.lookup s
  := by
  induction h with
  | nil => rfl
  | @cons x y _ _ first _ ih =>
    obtain ⟨t, source⟩ := x
    obtain ⟨m, _⟩ := y
    obtain ⟨ht, rfl⟩ := first
    rw [lookup_cons_eq_ite, lookup_cons_eq_ite, ih]
    by_cases heq : s = t
    · rw [if_pos heq, if_pos ((hs.eq_iff ht).mp heq)]
    · rw [if_neg heq, if_neg (mt (hs.eq_iff ht).mpr heq)]

/-- The first setting for no parameter. -/
theorem find?_eq (h : names.Lists given values) {texts : List String} {params : List Name}
    (hparams : List.Forall₂ names.Numbers texts params) :
  (values.find? fun (n, _) => !params.contains n).map (fun (n, source) => (names.lookup n, source))
    = given.find? fun setting => setting.1 ∉ texts
  := by
  induction h with
  | nil => rfl
  | @cons x y _ _ first _ ih =>
    obtain ⟨t, source⟩ := x
    obtain ⟨m, _⟩ := y
    obtain ⟨ht, rfl⟩ := first
    by_cases mem : t ∈ texts
    · rw [List.find?_cons_of_neg (by simpa using (ht.mem_iff hparams).mp mem),
        List.find?_cons_of_neg (by simpa using mem), ih]
    · rw [List.find?_cons_of_pos (by simpa using mt (ht.mem_iff hparams).mpr mem),
        List.find?_cons_of_pos (by simpa using mem)]
      simp [ht.lookup]

end Lists

end Interner

/-- Strings that the interner comes to know in the end are given their names. -/
theorem internExternals_lists {names : Interner} {settings : List (String × External)} {later : Interner}
    (hle : (internExternals names settings).2 ≤ later)
    (named : ∀ setting ∈ settings, ∃ n, later.Numbers setting.1 n) :
  later.Lists settings (internExternals names settings).1
  := by
  induction settings generalizing names with
  | nil => exact .nil
  | cons setting rest ih =>
    obtain ⟨first, named⟩ := List.forall_mem_cons.mp named
    rw [internExternals] at hle ⊢
    have hrest := (internExternals_given (names.intern setting.1).2 rest).1
    obtain ⟨n, hn⟩ := first
    refine .cons ⟨?_, rfl⟩ (ih hle named)
    rwa [hn.intern (hrest.trans hle)]

/-- The arguments of a new session are given anew one after the other, under names that it knows. -/
theorem Setup.exists_arguments (setup : Setup) (names : Interner) :
  ∃ before : Interner,
    (setup.start names).1.arguments = (internExternals before setup.arguments).1.foldl giveAnew [] ∧
      (internExternals before setup.arguments).2 ≤ (setup.start names).2.names
  := by
  rw [start]
  generalize libraryFields names LibraryFunction.all = library
  obtain ⟨fields, names⟩ := library
  dsimp only
  generalize names.intern "std" = std
  generalize internExternals std.2 setup.externals = externals
  use externals.2
  generalize internExternals externals.2 setup.arguments = arguments
  refine ⟨rfl, (arguments.2.le_intern "arg").trans ?_⟩
  exact (Interner.le_intern _ "array_element").trans (Interner.le_intern _ "rhs")

/-- The arguments of a new session are the settings that count, under their names. -/
theorem Setup.start_arguments {setup : Setup} {names : Interner}
    (named : ∀ setting ∈ setup.arguments, ∃ n, (setup.start names).2.names.Numbers setting.1 n) :
  (setup.start names).2.names.Lists (lastSettings setup.arguments) (setup.start names).1.arguments
  := by
  obtain ⟨before, heq, hle⟩ := setup.exists_arguments names
  rw [heq, foldl_giveAnew]
  exact (internExternals_lists hle named).lastSettings

/-! ### Matching arguments -/

/-- The names of a function's parameters, and the interner that knows them. -/
def Function.parameters (names : Interner) : Function → List Name × Interner
  | .closure _ params _ => (params, names)
  | .builtin b => names.internAll b.params

/-- The state in which the names of a function's parameters are known. -/
def State.meeting (a : State) (f : Function) : State :=
  { a with names := (f.parameters a.names).2 }

/-- The strings that the parameters of a function are named by. -/
inductive Function.Takes (names : Interner) : Function → List String → Prop where
  | closure {env : Env} {params : List Name} {body : Code} {texts : List String}
      (named : List.Forall₂ names.Numbers texts params) :
    Takes names (.closure env params body) texts
  | builtin {b : Builtin}
      (named : List.Forall₂ (names.internAll b.params).2.Numbers b.params (names.internAll b.params).1) :
    Takes names (.builtin b) b.params

/-- The name of the file in which the code that is given for a parameter is compiled. -/
def argumentFile (param : String) : String := "<top-level-arg:" ++ param ++ ">"

namespace Session

/-- The argument for a parameter, made of what is given for it. A text is taken as it is. Code is
compiled, and put off if the front end accepts it. -/
inductive Passes (session : Session) (param : String) (a : State) :
    External → Except Failure Deferred → State → Prop where
  | text (value : String) :
    Passes session param a (.text value) (.ok (.ready (.string value))) a
  | program {source : String} {code : Code} {names : Interner} {n : Name}
      (named : a.names.Numbers param n)
      (compiles : session.frontEnd a.names (argumentFile param) source = (.program code, names)) :
    Passes session param a (.code source) (.ok (.shared ⟨a.thunks.size⟩))
      { a with
        names
        thunks := a.thunks.push (.pending (.code (.topLevelArgument n) session.base code)) }
  | rejected {source : String} {error : StaticError} {names : Interner}
      (compiles : session.frontEnd a.names (argumentFile param) source
        = (.rejected error, names)) :
    Passes session param a (.code source) (.ok (.failed (.static error))) { a with names }
  | broken {source message : String} {names : Interner}
      (compiles : session.frontEnd a.names (argumentFile param) source
        = (.broken message, names)) :
    Passes session param a (.code source) (.error (.breakdown message)) { a with names }

variable (session : Session) (given : List (String × External)) (site : Location)

/-- The arguments for some parameters, one after the other. -/
inductive PassesAll : List String → State → List Deferred → State → Prop where
  | nil (a : State) : PassesAll [] a [] a
  | cons {param : String} {params : List String} {a b c : State} {source : External}
      {argument : Deferred} {arguments : List Deferred}
      (isGiven : given.lookup param = some source)
      (first : session.Passes param a source (.ok argument) b)
      (rest : PassesAll params b arguments c) :
    PassesAll (param :: params) a (argument :: arguments) c

/-- The arguments for some parameters are passed up to a parameter for which nothing is given, or
whose code breaks the front end down. -/
inductive Lacks : List String → State → Failure → State → Prop where
  | missing {param : String} {params : List String} {a : State}
      (absent : given.lookup param = none) :
    Lacks (param :: params) a (a.failure (.missingArgument param) site) a
  | broken {param : String} {params : List String} {a b : State} {source : External}
      {failure : Failure} (isGiven : given.lookup param = some source)
      (breaks : session.Passes param a source (.error failure) b) :
    Lacks (param :: params) a failure b
  | later {param : String} {params : List String} {a b c : State} {source : External}
      {argument : Deferred} {failure : Failure} (isGiven : given.lookup param = some source)
      (first : session.Passes param a source (.ok argument) b)
      (rest : Lacks params b failure c) :
    Lacks (param :: params) a failure c

/-- What becomes of a function with some parameters when the settings `given`, one for each name,
are its arguments. -/
inductive Applies (f : Function) (params : List String) (a : State) :
    Except Failure Value → State → Prop where
  /-- The first setting for no parameter is reported. -/
  | unknown {name : String} {source : External}
      (first : given.find? (fun setting => setting.1 ∉ params) = some (name, source)) :
    Applies f params a (.error (a.failure (.unknownParameter name) site)) a
  /-- The first parameter without a setting is reported. -/
  | lacking {failure : Failure} {b : State} (known : ∀ setting ∈ given, setting.1 ∈ params)
      (lacks : Lacks session given site params a failure b) :
    Applies f params a (.error failure) b
  /-- There is a setting for each parameter and for nothing else. -/
  | call {arguments : List Deferred} {b c : State} {outcome : Except Failure Value}
      (same : ∀ name, name ∈ given.map Prod.fst ↔ name ∈ params)
      (passed : PassesAll session given params a arguments b)
      (call : (f.call arguments site).Ends session b outcome c) :
    Applies f params a outcome c

/-- What becomes of the value of a program: a function is called, any other value is the result. -/
inductive Concludes : Value → State → Except Failure Value → State → Prop where
  | function {f : Function} {params : List String} {a b : State} {outcome : Except Failure Value}
      (takes : f.Takes a.names params)
      (applies : Applies session given site f params (a.meeting f) outcome b) :
    Concludes (.function f) a outcome b
  | other {value : Value} {a : State} (isNot : ∀ f, value ≠ .function f) :
    Concludes value a (.ok value) a

end Session

section

variable {session : Session} {given : List (String × External)} {site : Location} {a b c : State}

theorem Operation.apply_argument {param : String} {n : Name} (named : a.names.Numbers param n)
    (source : String) :
  (Operation.argument n (.code source)).apply session a
    = a.compile session (.topLevelArgument n) (argumentFile param) source
  := by
  rw [apply, State.given, named.lookup]
  rfl

/-- Compiling an argument passes it. -/
theorem Session.passes_iff {param : String} {n : Name} (named : a.names.Numbers param n)
    {source : External} {outcome : Except Failure Deferred} :
  (Operation.argument n source).apply session a = (outcome, b)
    ↔ session.Passes param a source outcome b
  := by
  constructor
  · intro h
    cases source with
    | text value =>
      cases h
      exact .text value
    | code source =>
      rw [Operation.apply_argument named, State.compile] at h
      rcases compiles : session.frontEnd a.names (argumentFile param) source with
        ⟨code | error | message, names⟩
      · rw [compiles] at h
        cases h
        exact .program named compiles
      · rw [compiles] at h
        cases h
        exact .rejected compiles
      · rw [compiles] at h
        cases h
        exact .broken compiles
  · intro h
    cases h with
    | text value => rfl
    | program named' compiles =>
      obtain rfl := named.unique named'
      rw [Operation.apply_argument named, State.compile, compiles]
    | rejected compiles => rw [Operation.apply_argument named, State.compile, compiles]
    | broken compiles => rw [Operation.apply_argument named, State.compile, compiles]

theorem Action.Ends.argument_iff {param : String} {n : Name} (named : a.names.Numbers param n)
    {source : External} {outcome : Except Failure Deferred} :
  (Action.take (.argument n source)).Ends session a outcome b
    ↔ session.Passes param a source outcome b
  := Action.Ends.take_iff.trans (Session.passes_iff named)

theorem Action.Ends.textOf_iff {n : Name} {outcome : Except Failure String} :
  (Action.textOf n).Ends session a outcome b ↔ outcome = .ok (a.names.lookup n) ∧ b = a
  := by
  rw [Action.textOf, Action.Ends.take_iff, Operation.apply, Prod.mk.injEq, eq_comm, eq_comm (a := a)]

/-- Passing an argument extends the interner. -/
theorem Session.Passes.le (appends : session.frontEnd.Appends) {param : String}
    {source : External} {outcome : Except Failure Deferred}
    (h : session.Passes param a source outcome b) :
  a.names ≤ b.names
  := by
  have grows := appends a.names (argumentFile param)
  cases h with
  | text => exact le_rfl
  | @program source _ _ _ _ compiles | @rejected source _ _ compiles | @broken source _ _ compiles =>
    have grows := grows source
    rw [compiles] at grows
    exact grows

theorem Session.Lacks.cons_iff {param : String} {params : List String} {source : External}
    (isGiven : given.lookup param = some source) {failure : Failure} :
  session.Lacks given site (param :: params) a failure c
    ↔ session.Passes param a source (.error failure) c ∨
      ∃ argument b, session.Passes param a source (.ok argument) b ∧
        session.Lacks given site params b failure c
  := by
  constructor
  · intro h
    cases h with
    | missing absent => cases absent.symm.trans isGiven
    | broken isGiven' breaks =>
      cases isGiven.symm.trans isGiven'
      exact .inl breaks
    | later isGiven' first rest =>
      cases isGiven.symm.trans isGiven'
      exact .inr ⟨_, _, first, rest⟩
  · rintro (breaks | ⟨argument, b, first, rest⟩)
    · exact .broken isGiven breaks
    · exact .later isGiven first rest

theorem Session.PassesAll.cons_iff {param : String} {params : List String} {source : External}
    (isGiven : given.lookup param = some source) {arguments : List Deferred} :
  session.PassesAll given (param :: params) a arguments c
    ↔ ∃ argument b rest, session.Passes param a source (.ok argument) b ∧
      session.PassesAll given params b rest c ∧ arguments = argument :: rest
  := by
  constructor
  · rintro (_ | ⟨isGiven', first, rest⟩)
    cases isGiven.symm.trans isGiven'
    exact ⟨_, _, _, first, rest, rfl⟩
  · rintro ⟨argument, b, rest, first, hrest, rfl⟩
    exact .cons isGiven first hrest

/-- Arguments are passed for names that are given. -/
theorem Session.PassesAll.mem_given {params : List String} {arguments : List Deferred}
    (h : session.PassesAll given params a arguments b) {name : String} (mem : name ∈ params) :
  name ∈ given.map Prod.fst
  := by
  induction h with
  | nil => cases mem
  | cons isGiven _ _ ih =>
    obtain rfl | mem := List.mem_cons.mp mem
    · rw [mem_map_fst_iff_lookup, isGiven]
      rfl
    · exact ih mem

/-- Matching arguments passes them, up to the first parameter for which there is none. -/
theorem matchArguments_iff (appends : session.frontEnd.Appends) {values : List (Name × External)}
    (lists : a.names.Lists given values) {texts : List String} {params : List Name}
    (named : List.Forall₂ a.names.Numbers texts params) {done : List Deferred}
    {outcome : Except Failure (List Deferred)} :
  (matchArguments values site done params).Ends session a outcome c
    ↔ (∃ arguments, outcome = .ok (done.reverse ++ arguments) ∧
        session.PassesAll given texts a arguments c) ∨
      ∃ failure, outcome = .error failure ∧ session.Lacks given site texts a failure c
  := by
  induction params generalizing a texts done with
  | nil =>
    cases named
    rw [matchArguments, Action.Ends.pure_iff]
    constructor
    · rintro ⟨rfl, rfl⟩
      exact .inl ⟨[], by rw [List.append_nil], .nil _⟩
    · rintro (⟨_, rfl, ⟨⟩⟩ | ⟨_, _, ⟨⟩⟩)
      exact ⟨by rw [List.append_nil], rfl⟩
  | cons n params ih =>
    obtain _ | @⟨param, _, texts, _, first, named⟩ := named
    rw [matchArguments, lists.lookup_eq first]
    cases isGiven : given.lookup param with
    | none =>
      simp only [Action.Ends.bind_iff, Action.Ends.textOf_iff, Action.Ends.raise_iff, first.lookup]
      constructor
      · rintro (⟨_, _, ⟨⟩, _⟩ | ⟨_, _, ⟨⟨⟩, rfl⟩, rfl, rfl⟩)
        exact .inr ⟨_, rfl, .missing isGiven⟩
      · rintro (⟨_, _, _ | ⟨isGiven', _, _⟩⟩ | ⟨_, rfl, lacks⟩)
        · cases isGiven.symm.trans isGiven'
        · cases lacks with
          | missing => exact .inr ⟨_, _, ⟨rfl, rfl⟩, rfl, rfl⟩
          | broken isGiven' => cases isGiven.symm.trans isGiven'
          | later isGiven' => cases isGiven.symm.trans isGiven'
    | some source =>
      -- What comes next is decided in the state in which this argument has been passed.
      have next : ∀ {argument : Deferred} {b : State},
          session.Passes param a source (.ok argument) b →
            ((matchArguments values site (argument :: done) params).Ends session b outcome c ↔ _) :=
        fun passed => ih (lists.mono (passed.le appends))
          (named.imp fun _ _ h => h.mono (passed.le appends))
      simp only [Action.Ends.bind_iff, Action.Ends.argument_iff first,
        Session.PassesAll.cons_iff isGiven, Session.Lacks.cons_iff isGiven]
      constructor
      · rintro (⟨failure, rfl, breaks⟩ | ⟨argument, b, passed, h⟩)
        · exact .inr ⟨failure, rfl, .inl breaks⟩
        · obtain ⟨arguments, rfl, rest⟩ | ⟨failure, rfl, lacks⟩ := (next passed).mp h
          · refine .inl ⟨argument :: arguments, ?_, argument, b, arguments, passed, rest, rfl⟩
            rw [List.reverse_cons, List.append_assoc]
            rfl
          · exact .inr ⟨failure, rfl, .inr ⟨argument, b, passed, lacks⟩⟩
      · rintro (⟨_, rfl, argument, b, arguments, passed, rest, rfl⟩ |
          ⟨failure, rfl, breaks | ⟨argument, b, passed, lacks⟩⟩)
        · refine .inr ⟨argument, b, passed, (next passed).mpr (.inl ⟨arguments, ?_, rest⟩)⟩
          rw [List.reverse_cons, List.append_assoc]
          rfl
        · exact .inl ⟨failure, rfl, breaks⟩
        · exact .inr ⟨argument, b, passed, (next passed).mpr (.inr ⟨failure, rfl, lacks⟩)⟩

variable {f : Function} {params : List String}

theorem State.le_meeting (a : State) (f : Function) :
  a.names ≤ (a.meeting f).names
  := by
  cases f with
  | closure => exact le_rfl
  | builtin b => exact a.names.le_internAll b.params

theorem Function.Takes.named (h : f.Takes a.names params) :
  List.Forall₂ (a.meeting f).names.Numbers params (f.parameters a.names).1
  := by
  cases h with
  | closure named => exact named
  | builtin named => exact named

theorem parameterNames_iff {outcome : Except Failure (List Name)} :
  (parameterNames f).Ends session a outcome b
    ↔ outcome = .ok (f.parameters a.names).1 ∧ b = a.meeting f
  := by
  cases f with
  | closure env params body => exact Action.Ends.pure_iff
  | builtin b =>
    rw [parameterNames, Action.Ends.take_iff, Operation.apply, Prod.mk.injEq]
    exact and_congr eq_comm eq_comm

/-- What becomes of a function whose parameters are named by strings that the interner knows. -/
theorem applyArguments_iff (appends : session.frontEnd.Appends)
    (lists : a.names.Lists given session.arguments) (takes : f.Takes a.names params)
    {outcome : Except Failure Value} :
  (applyArguments (.function f) site).Ends session a outcome c
    ↔ session.Applies given site f params (a.meeting f) outcome c
  := by
  replace lists := lists.mono (a.le_meeting f)
  have named := takes.named
  have first := lists.find?_eq named
  rw [applyArguments, Action.Ends.bind_iff_of_ok (parameterNames_iff.mpr ⟨rfl, rfl⟩),
    Action.Ends.bind_iff_of_ok (Action.Ends.session_iff.mpr ⟨rfl, rfl⟩)]
  dsimp only at first ⊢
  cases hfind : session.arguments.find? fun setting =>
    !(f.parameters a.names).1.contains setting.1 with
  | some entry =>
    obtain ⟨n, source⟩ := entry
    rw [hfind, Option.map_some] at first
    simp only [Action.Ends.bind_iff, Action.Ends.textOf_iff, Action.Ends.raise_iff]
    have some_unknown : ¬ ∀ setting ∈ given, setting.1 ∈ params := by
      intro known
      have h := List.find?_some first.symm
      exact of_decide_eq_true h (known _ (List.mem_of_find?_eq_some first.symm))
    constructor
    · rintro (⟨_, _, ⟨⟩, _⟩ | ⟨_, _, ⟨⟨⟩, rfl⟩, rfl, rfl⟩)
      exact .unknown first.symm
    · intro h
      cases h with
      | unknown first' =>
        cases first.trans first'
        exact .inr ⟨_, _, ⟨rfl, rfl⟩, rfl, rfl⟩
      | lacking known => exact absurd known some_unknown
      | call same =>
        exact absurd (fun setting h => (same _).mp (List.mem_map_of_mem h)) some_unknown
  | none =>
    rw [hfind, Option.map_none] at first
    have known : ∀ setting ∈ given, setting.1 ∈ params := by
      intro setting h
      simpa using List.find?_eq_none.mp first.symm setting h
    rw [Action.Ends.bind_iff]
    simp only [matchArguments_iff appends lists named]
    constructor
    · rintro (⟨failure, rfl, ⟨_, ⟨⟩, _⟩ | ⟨_, ⟨⟩, lacks⟩⟩ |
        ⟨_, b, ⟨arguments, ⟨⟩, passed⟩ | ⟨_, ⟨⟩, _⟩, called⟩)
      · exact .lacking known lacks
      · refine .call (fun name => ⟨?_, passed.mem_given⟩) passed called
        intro h
        obtain ⟨setting, hsetting, rfl⟩ := List.mem_map.mp h
        exact known setting hsetting
    · intro h
      cases h with
      | unknown first' => cases first.trans first'
      | lacking _ lacks => exact .inl ⟨_, rfl, .inr ⟨_, rfl, lacks⟩⟩
      | call _ passed called => exact .inr ⟨_, _, .inl ⟨_, rfl, passed⟩, called⟩

/-! ### The order of settings -/

section

variable {given' : List (String × External)}
  (lookup : ∀ name, given.lookup name = given'.lookup name)

include lookup

theorem Session.PassesAll.congr {arguments : List Deferred}
    (h : session.PassesAll given params a arguments c) :
  session.PassesAll given' params a arguments c
  := by
  induction h with
  | nil => exact .nil _
  | cons isGiven first _ ih => exact .cons ((lookup _).symm.trans isGiven) first ih

theorem Session.Lacks.congr {failure : Failure} (h : session.Lacks given site params a failure c) :
  session.Lacks given' site params a failure c
  := by
  induction h with
  | missing absent => exact .missing ((lookup _).symm.trans absent)
  | broken isGiven breaks => exact .broken ((lookup _).symm.trans isGiven) breaks
  | later isGiven first _ ih => exact .later ((lookup _).symm.trans isGiven) first ih

theorem mem_map_fst_congr {name : String} :
  name ∈ given.map Prod.fst ↔ name ∈ given'.map Prod.fst
  := by
  rw [mem_map_fst_iff_lookup, mem_map_fst_iff_lookup, lookup]

/-- If each setting is one for a parameter, their order makes no difference. -/
theorem Session.Applies.congr (known : ∀ setting ∈ given', setting.1 ∈ params)
    {outcome : Except Failure Value} (h : session.Applies given site f params a outcome c) :
  session.Applies given' site f params a outcome c
  := by
  cases h with
  | @unknown name source first =>
    have mem := List.mem_map_of_mem (f := Prod.fst) (List.mem_of_find?_eq_some first)
    rw [mem_map_fst_congr lookup] at mem
    obtain ⟨setting, hsetting, heq⟩ := List.mem_map.mp mem
    have unknown : name ∉ params := by simpa using List.find?_some first
    have isParam := known setting hsetting
    rw [heq] at isParam
    exact absurd isParam unknown
  | lacking _ lacks => exact .lacking known (lacks.congr lookup)
  | call same passed call =>
    exact .call (fun name => (mem_map_fst_congr lookup).symm.trans (same name))
      (passed.congr lookup) call

end

/-- If each setting is one for a parameter, all that counts is what was set last for each name. -/
theorem Session.Concludes.congr {settings settings' : List (String × External)} {value : Value}
    (last : ∀ name, settings.reverse.lookup name = settings'.reverse.lookup name)
    (known : ∀ f params, value = .function f → f.Takes a.names params →
      ∀ setting ∈ settings', setting.1 ∈ params)
    {outcome : Except Failure Value}
    (h : session.Concludes (lastSettings settings) site value a outcome c) :
  session.Concludes (lastSettings settings') site value a outcome c
  := by
  cases h with
  | other isNot => exact .other isNot
  | @function f params _ _ _ takes applies =>
    refine .function takes (applies.congr (fun name => ?_) ?_)
    · rw [lookup_lastSettings, lookup_lastSettings, last]
    · intro setting h
      have mem := mem_map_fst_lastSettings.mp (List.mem_map_of_mem (f := Prod.fst) h)
      obtain ⟨setting', hsetting', heq⟩ := List.mem_map.mp mem
      exact heq ▸ known f params rfl takes setting' hsetting'

/-- What becomes of a value, if the parameters of a function have names that the interner knows. -/
theorem applyArguments_iff_concludes (appends : session.frontEnd.Appends)
    (lists : a.names.Lists given session.arguments) {value : Value}
    (takes : ∀ f, value = .function f → ∃ params, f.Takes a.names params)
    {outcome : Except Failure Value} :
  (applyArguments value site).Ends session a outcome c
    ↔ session.Concludes given site value a outcome c
  := by
  constructor
  · intro h
    cases value with
    | function f =>
      obtain ⟨params, takes⟩ := takes f rfl
      exact .function takes ((applyArguments_iff appends lists takes).mp h)
    | null | bool | number | string | array | object =>
      obtain ⟨rfl, rfl⟩ := Action.Ends.pure_iff.mp h
      exact .other nofun
  · intro h
    cases h with
    | function takes applies => exact (applyArguments_iff appends lists takes).mpr applies
    | other isNot =>
      cases value with
      | function f => exact absurd rfl (isNot f)
      | null | bool | number | string | array | object => exact Action.Ends.pure_iff.mpr ⟨rfl, rfl⟩

end

/-- The text of the result of a program; its failure is passed on. -/
def writeResult : Except Failure Value → Action String
  | .ok value => do return (← value.manifest .multiLine) ++ "\n"
  | .error failure => fail failure

theorem computeOutput_iff {session : Session} {code : Code} {a c : State}
    {outcome : Except Failure String} :
  (computeOutput code).Ends session a outcome c
    ↔ ∃ result b, (computeProgram code).Ends session a result b ∧
      (writeResult result).Ends session b outcome c
  := by
  rw [computeOutput, Action.Ends.bind_iff]
  constructor
  · rintro (⟨failure, rfl, h⟩ | ⟨value, b, h, written⟩)
    · exact ⟨_, c, h, Action.Ends.fail_iff.mpr ⟨rfl, rfl⟩⟩
    · exact ⟨_, b, h, written⟩
  · rintro ⟨failure | value, b, h, written⟩
    · obtain ⟨rfl, rfl⟩ := Action.Ends.fail_iff.mp written
      exact .inl ⟨failure, rfl, h⟩
    · exact .inr ⟨value, b, h, written⟩

section

variable {session : Session} {given : List (String × External)} {code : Code} {a s b c d : State}
  {value : Value}

/-- What becomes of a program, if the parameters of its value have names that the interner knows. -/
theorem computeProgram_iff (appends : session.frontEnd.Appends)
    (lists : b.names.Lists given session.arguments)
    (evaluates : (code.evaluate session.base).Ends session a (.ok value) b)
    (takes : ∀ f, value = .function f → ∃ params, f.Takes b.names params)
    {outcome : Except Failure Value} :
  (computeProgram code).Ends session a outcome c
    ↔ session.Concludes given code.location value b outcome c
  := by
  rw [← applyArguments_iff_concludes appends lists takes]
  rw [computeProgram, Action.Ends.bind_iff_of_ok (Action.Ends.session_iff.mpr ⟨rfl, rfl⟩),
    Action.Ends.bind_iff_of_ok evaluates]

theorem Task.Ends.program_iff {outcome : Except Failure Value} :
  (Task.program code).Ends session a outcome c ↔ (computeProgram code).Ends session a outcome c
  := by
  have unknown : (Task.program code).known? session a = none := rfl
  rw [unknown_iff unknown]
  constructor
  · rintro ⟨_, h, rfl⟩
    exact h
  · exact fun h => ⟨_, h, rfl⟩

theorem Task.Ends.output_iff {outcome : Except Failure String} :
  (Task.output code).Ends session a outcome c ↔ (computeOutput code).Ends session a outcome c
  := by
  have unknown : (Task.output code).known? session a = none := rfl
  rw [unknown_iff unknown]
  constructor
  · rintro ⟨_, h, rfl⟩
    exact h
  · exact fun h => ⟨_, h, rfl⟩

/-- What becomes of a program inside its frame, and how it is written out. -/
theorem Session.program_concludes (appends : session.frontEnd.Appends)
    (lists : b.names.Lists given session.arguments)
    (enters : a.enter (some ⟨code.location, .main⟩) = .ok s)
    (evaluates : (code.evaluate session.base).Ends session s (.ok value) b)
    (takes : ∀ f, value = .function f → ∃ params, f.Takes b.names params) :
  (∀ outcome d, code.value.Ends session a outcome d
      ↔ ∃ c, session.Concludes given code.location value b outcome c ∧
        d = c.leave (some ⟨code.location, .main⟩)) ∧
    ∀ outcome d, code.output.Ends session a outcome d
      ↔ ∃ result c, session.Concludes given code.location value b result c ∧
        ∃ e, (writeResult result).Ends session c outcome e ∧
          d = e.leave (some ⟨code.location, .main⟩)
  := by
  constructor
  · intro outcome d
    rw [Code.value, Action.Ends.inFrame_iff enters]
    simp only [Task.Ends.program_iff, computeProgram_iff appends lists evaluates takes]
  · intro outcome d
    rw [Code.output, Action.Ends.inFrame_iff enters]
    simp only [Task.Ends.output_iff, computeOutput_iff,
      computeProgram_iff appends lists evaluates takes]
    constructor
    · rintro ⟨e, ⟨result, c, concludes, written⟩, rfl⟩
      exact ⟨result, c, concludes, e, written, rfl⟩
    · rintro ⟨result, c, concludes, e, written, rfl⟩
      exact ⟨e, ⟨result, c, concludes, written⟩, rfl⟩

end

/-- A program whose value is a function is called with what was set last for each parameter, in the
order of the parameters, if the names that were set are those of the parameters. Otherwise it fails
for the first name that is no parameter, in the order of the last settings, or else for the first
parameter for which nothing was set. Any other value is the result, whatever was set. If all names
are those of parameters, settings for different names can be made in any order. -/
theorem Setup.arguments_by_name {setup : Setup} {names : Interner} {session : Session} {start : State}
    (starts : setup.start names = (session, start)) (appends : setup.frontEnd.Appends)
    (named : ∀ setting ∈ setup.arguments, ∃ n, start.names.Numbers setting.1 n)
    {code : Code} {a s b : State} (le : start.names ≤ a.names)
    (enters : a.enter (some ⟨code.location, .main⟩) = .ok s) {value : Value}
    (evaluates : (code.evaluate session.base).Ends session s (.ok value) b)
    (takes : ∀ f, value = .function f → ∃ params, f.Takes b.names params) :
  (∀ outcome d, code.value.Ends session a outcome d
      ↔ ∃ c, session.Concludes (lastSettings setup.arguments) code.location value b outcome c ∧
        d = c.leave (some ⟨code.location, .main⟩)) ∧
    (∀ outcome d, code.output.Ends session a outcome d
      ↔ ∃ result c, session.Concludes (lastSettings setup.arguments) code.location value b result c ∧
        ∃ e, (writeResult result).Ends session c outcome e ∧
          d = e.leave (some ⟨code.location, .main⟩)) ∧
    ∀ settings : List (String × External),
      (∀ name, settings.reverse.lookup name = setup.arguments.reverse.lookup name) →
      (∀ f params, value = .function f → f.Takes b.names params →
        ∀ setting ∈ settings, setting.1 ∈ params) →
      ∀ outcome c, session.Concludes (lastSettings setup.arguments) code.location value b outcome c →
        session.Concludes (lastSettings settings) code.location value b outcome c
  := by
  have appends' : session.frontEnd.Appends := by
    have front := setup.start_frontEnd names
    rw [starts] at front
    exact front ▸ appends
  have hle : start.names ≤ b.names := by
    obtain ⟨fuel, run⟩ := Action.Ends.iff_resolve.mp evaluates
    have grown := (Progress.grows Task.grows run).names appends'
    obtain ⟨stack, rfl, -⟩ := State.enter_eq (c := b) enters
    exact le.trans grown
  have lists := @start_arguments setup names
  rw [starts] at lists
  obtain ⟨toValue, toOutput⟩ :=
    session.program_concludes appends' ((lists named).mono hle) enters evaluates takes
  refine ⟨toValue, toOutput, ?_⟩
  intro settings last known outcome c concludes
  exact concludes.congr (fun name => (last name).symm) known

/-- Of two settings for the only parameter of a function the second one is its argument. -/
theorem Setup.arguments_by_name_of_two :
  let setup := { Setup.bare with arguments := [("", .text "a"), ("", .text "b")] }
  let code : Code :=
    ⟨{ file := .empty, nodes := #[.var .empty, .function ⟨0, 1⟩ ⟨0⟩], params := #[.empty] }, ⟨1⟩⟩
  let (session, start) := setup.start .onlyEmpty
  (∀ setting ∈ setup.arguments, ∃ n, start.names.Numbers setting.1 n) ∧
    ∃ a, code.value.Ends session start (.ok (.string "b")) a
  := by
  intro setup code
  obtain ⟨session, start, starts, prepared⟩ := setup.exists_start .onlyEmpty
  rw [starts]
  have appends : setup.frontEnd.Appends := fun _ _ _ => le_rfl
  have named : ∀ setting ∈ setup.arguments, ∃ n, start.Numbers setting.1 n := by
    intro setting h
    simp only [setup, List.mem_cons, List.not_mem_nil, or_false] at h
    obtain rfl | rfl := h <;> exact ⟨.empty, start.numbers_empty⟩
  refine ⟨named, ?_⟩
  have enters : (State.new start 500).enter (some ⟨code.location, .main⟩)
      = .ok { State.new start 500 with stack := ⟨[⟨code.location, .main⟩], 499⟩ } := rfl
  let f : Function := .closure session.base [.empty] (code.sibling ⟨0⟩)
  obtain ⟨s, c, evaluates, names_eq, called⟩ : ∃ s c, (code.evaluate session.base).Ends session
        { State.new start 500 with stack := ⟨[⟨code.location, .main⟩], 499⟩ } (.ok (.function f)) s ∧
      s.names = start ∧
      (f.call [.ready (.string "b")] code.location).Ends session s (.ok (.string "b")) c :=
    ⟨_, _, Action.Ends.iff_resolve.mpr ⟨1, rfl⟩, rfl, Action.Ends.iff_resolve.mpr ⟨2, rfl⟩⟩
  have takes : f.Takes s.names [""] := .closure (.cons s.names.numbers_empty .nil)
  have takes' : ∀ g, Value.function f = .function g → ∃ params, g.Takes s.names params := by
    rintro g ⟨⟩
    exact ⟨[""], takes⟩
  have applies := arguments_by_name starts appends named le_rfl enters evaluates takes'
  refine ⟨_, (applies.1 _ _).mpr ⟨c, .function takes (.call ?_ ?_ called), rfl⟩⟩
  · intro name
    simp [setup, lastSettings]
  · exact .cons rfl (.text "b") (.nil s)

end Jsonnet

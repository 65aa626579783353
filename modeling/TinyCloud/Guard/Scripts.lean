import TinyCloud.Guard.Words

/-!
# Shell executions

What a POSIX shell does with a script, as far as its variables and the words of its commands go. Exit
states are left open, and a command may set any variable: it can be a builtin or a function.
-/

namespace TinyCloud.Guard

section Syntax

/-- A script by its simple commands. `seq` is `a; b`, `a && b` and `a || b`; `subshell` is also a background job. -/
inductive Script
  | skip
  /-- `inner` are the substitutions in the command's words, `sets` the variables that its expansions can assign. -/
  | command (inner : Script) (sets : List String) (c : RawCmd)
  | seq (a b : Script)
  | choice (a b : Script)
  | subshell (a : Script)
  | loop (a : Script)
  | each (names : List String) (a : Script)
  | function (name : String) (body : Script)

def Script.pipe (a b : Script) : Script := .seq (.subshell a) (.subshell b)

/-- The flat list of simple commands. -/
def Script.cmds : Script → List RawCmd
  | .skip => []
  | .command inner _ c => inner.cmds ++ [c]
  | .seq a b => a.cmds ++ b.cmds
  | .choice a b => a.cmds ++ b.cmds
  | .subshell a => a.cmds
  | .loop a => a.cmds
  | .each _ a => a.cmds
  | .function _ body => body.cmds

end Syntax

section State

/-- What last set a variable. -/
inductive Origin
  | initial
  | assigned
  | otherwise
  deriving DecidableEq

structure Binding where
  value : Option String
  origin : Origin

structure Shell where
  vars : String → Binding
  funs : String → Option Script

def DEFAULT_IFS : String := " \t\n"

/-- A shell ignores an inherited `IFS`. -/
def Shell.start (env : String → Option String) : Shell :=
  ⟨fun x => ⟨if x = "IFS" then some DEFAULT_IFS else env x, .initial⟩, fun _ => none⟩

def Shell.value (s : Shell) (x : String) : String := (s.vars x).value.getD ""

def Shell.set (s : Shell) (x : String) (b : Binding) : Shell := { s with vars := fun y => if y = x then b else s.vars y }

/-- Some of the variables are set, but by no assignment of a command. -/
def Touched (may : String → Prop) (s t : Shell) : Prop :=
  t.funs = s.funs ∧ ∀ x, t.vars x = s.vars x ∨ (may x ∧ (t.vars x).origin = .otherwise)

end State

section Expansion

inductive Quoting
  | quoted
  | literal
  | expanded
  deriving DecidableEq

inductive Atom
  | quote
  | char (c : Char) (q : Quoting)
  deriving DecidableEq

def atomsOf (q : Quoting) (s : String) : List Atom := s.toList.map fun c => .char c q

def quoteOf (q : Bool) : List Atom := if q then [.quote] else []

/-- The expansion of a word's parts, from left to right. -/
inductive Spells (sets : List String) : Shell → List Part → List Atom → Shell → Prop
  | nil (s : Shell) : Spells sets s [] [] s
  | lit {s t : Shell} {parts : List Part} {atoms : List Atom} (text : String) (q : Bool) (h : Spells sets s parts atoms t) :
      Spells sets s (.lit text q :: parts) (quoteOf q ++ atomsOf (if q then .quoted else .literal) text ++ atoms) t
  | var {s t : Shell} {parts : List Part} {atoms : List Atom} (name : String) (q : Bool)
      (h : Spells sets s parts atoms t) :
      Spells sets s (.var name q :: parts)
        (quoteOf q ++ atomsOf (if q then .quoted else .expanded) (s.value name) ++ atoms) t
  | dyn {s u t : Shell} {parts : List Part} {atoms : List Atom} (found : List Atom) (hu : Touched (· ∈ sets) s u)
      (h : Spells sets u parts atoms t) : Spells sets s (.dyn :: parts) (found ++ atoms) t

def Atom.text : Atom → List Char
  | .quote => []
  | .char c _ => [c]

def textOf (atoms : List Atom) : String := String.ofList (atoms.flatMap Atom.text)

/-- A blank that ends a field. -/
def Atom.isBreak : Atom → Bool
  | .char c .expanded => isBlank c
  | _ => false

structure Splitting where
  done : List (List Atom)
  rest : List Atom

def Splitting.close (sp : Splitting) : List (List Atom) := if sp.rest.isEmpty then sp.done else sp.done ++ [sp.rest]

def Splitting.feed (sp : Splitting) (a : Atom) : Splitting :=
  if a.isBreak then ⟨sp.close, []⟩ else ⟨sp.done, sp.rest ++ [a]⟩

/-- Field splitting at the blanks of unquoted expansions. -/
def fieldsOf (atoms : List Atom) : List (List Atom) := (atoms.foldl Splitting.feed ⟨[], []⟩).close

def Atom.isOpen (p : Char → Bool) : Atom → Bool
  | .char c .literal => p c
  | .char c .expanded => p c
  | _ => false

/-- The field is a pathname pattern: an unquoted `*` or `?`, or an unquoted `[` before an unquoted `]`. -/
def isPattern (field : List Atom) : Bool :=
  field.any (Atom.isOpen fun c => c == '*' || c == '?') ||
    (field.dropWhile fun a => !a.isOpen (· == '[')).any (Atom.isOpen (· == ']'))

/-- The arguments that one field gives; the files that a pattern matches are not known. -/
def FieldArgs (field : List Atom) (args : List String) : Prop := isPattern field = false → args = [textOf field]

def isExpanded : Atom → Bool
  | .char _ .expanded => true
  | _ => false

def WordArgs (s : Shell) (atoms : List Atom) (args : List String) : Prop :=
  s.value "IFS" = DEFAULT_IFS ∨ atoms.any isExpanded = false →
    ∃ parts, List.Forall₂ FieldArgs (fieldsOf atoms) parts ∧ args = parts.flatten

/-- The argument list that the shell makes of a command's words. -/
inductive Passes (sets : List String) : Shell → List RawWord → List String → Shell → Prop
  | nil (s : Shell) : Passes sets s [] [] s
  | cons {s u t : Shell} {word : RawWord} {words : List RawWord} {atoms : List Atom} {args rest : List String}
      (hw : Spells sets s word.parts atoms u) (ha : WordArgs u atoms args) (h : Passes sets u words rest t) :
      Passes sets s (word :: words) (args ++ rest) t

end Expansion

section Execution

/-- What is asked of the shell when it expands a command's words, and when it expands the value of an assignment. -/
structure Guards where
  command : RawCmd → Shell → Prop
  assign : RawAssign → Shell → Prop

inductive Assigns (G : Guards) (sets : List String) : Shell → List RawAssign → Shell → Prop
  | nil (s : Shell) : Assigns G sets s [] s
  | cons {s u t : Shell} {a : RawAssign} {assigns : List RawAssign} {atoms : List Atom} (hok : G.assign a s)
      (hv : Spells sets s a.value.parts atoms u)
      (h : Assigns G sets (u.set a.name ⟨some ((if a.append then u.value a.name else "") ++ textOf atoms), .assigned⟩)
        assigns t) :
      Assigns G sets s (a :: assigns) t

/-- After a command its prefix assignments are gone, or stay, as those of a special builtin do. -/
def Leaves (assigns : List RawAssign) (before inside after : Shell) : Prop :=
  after.funs = inside.funs ∧ ∀ x, after.vars x = inside.vars x ∨ (x ∈ assigns.map (·.name) ∧ after.vars x = before.vars x)

/-- The state in which a command with its words expanded starts to act; `before` is without its assignments. -/
structure Acts (G : Guards) (sets : List String) (c : RawCmd) (s before inside : Shell) (args : List String) : Prop where
  command : G.command c s
  expanded : ∃ u, Passes sets s c.words args u ∧ Touched (· ∈ sets) u before
  assigned : Assigns G sets before c.assigns inside

inductive Outcome
  | ended (t : Shell)
  | reached (c : RawCmd) (t : Shell)

/-- An execution of a script, up to its end or up to a command that it reaches. -/
inductive Exec (G : Guards) : Script → Shell → Outcome → Prop
  | skip (s : Shell) : Exec G .skip s (.ended s)
  | command (inner : Script) (sets : List String) (c : RawCmd) (s : Shell) :
      Exec G (.command inner sets c) s (.reached c s)
  | substitution {inner : Script} {sets : List String} {c d : RawCmd} {s u v t : Shell} {early : List RawAssign}
      (hok : G.command c s) (hu : Touched (· ∈ sets) s u) (hp : early <+: c.assigns) (ha : Assigns G sets u early v)
      (h : Exec G inner v (.reached d t)) : Exec G (.command inner sets c) s (.reached d t)
  | assignment {inner : Script} {sets : List String} {c : RawCmd} {s before t : Shell} (hw : c.words = [])
      (h : Acts G sets c s before t []) : Exec G (.command inner sets c) s (.ended t)
  | action {inner : Script} {sets : List String} {c : RawCmd} {s before inside u t : Shell} {args : List String}
      (hw : c.words ≠ []) (h : Acts G sets c s before inside args) (hu : Touched (fun _ => True) inside u)
      (hl : Leaves c.assigns before u t) : Exec G (.command inner sets c) s (.ended t)
  | call {inner body : Script} {sets : List String} {c : RawCmd} {s before inside u t : Shell} {args : List String}
      {name : String} (hw : c.words ≠ []) (h : Acts G sets c s before inside args) (hf : inside.funs name = some body)
      (hb : Exec G body inside (.ended u)) (hl : Leaves c.assigns before u t) :
      Exec G (.command inner sets c) s (.ended t)
  | called {inner body : Script} {sets : List String} {c d : RawCmd} {s before inside t : Shell} {args : List String}
      {name : String} (hw : c.words ≠ []) (h : Acts G sets c s before inside args) (hf : inside.funs name = some body)
      (hb : Exec G body inside (.reached d t)) : Exec G (.command inner sets c) s (.reached d t)
  | first {a b : Script} {s : Shell} {o : Outcome} (h : Exec G a s o) : Exec G (.seq a b) s o
  | second {a b : Script} {s t : Shell} {o : Outcome} (ha : Exec G a s (.ended t)) (h : Exec G b t o) :
      Exec G (.seq a b) s o
  | left {a b : Script} {s : Shell} {o : Outcome} (h : Exec G a s o) : Exec G (.choice a b) s o
  | right {a b : Script} {s : Shell} {o : Outcome} (h : Exec G b s o) : Exec G (.choice a b) s o
  | subshell (a : Script) (s : Shell) : Exec G (.subshell a) s (.ended s)
  | within {a : Script} {s t : Shell} {d : RawCmd} (h : Exec G a s (.reached d t)) :
      Exec G (.subshell a) s (.reached d t)
  | done (a : Script) (s : Shell) : Exec G (.loop a) s (.ended s)
  | round {a : Script} {s : Shell} {o : Outcome} (h : Exec G a s o) : Exec G (.loop a) s o
  | rounds {a : Script} {s t : Shell} {o : Outcome} (ha : Exec G a s (.ended t)) (h : Exec G (.loop a) t o) :
      Exec G (.loop a) s o
  | noItem (names : List String) (a : Script) (s : Shell) : Exec G (.each names a) s (.ended s)
  | item {names : List String} {a : Script} {s u : Shell} {o : Outcome} (hu : Touched (· ∈ names) s u)
      (h : Exec G a u o) : Exec G (.each names a) s o
  | items {names : List String} {a : Script} {s u t : Shell} {o : Outcome} (hu : Touched (· ∈ names) s u)
      (ha : Exec G a u (.ended t)) (h : Exec G (.each names a) t o) : Exec G (.each names a) s o
  | function (name : String) (body : Script) (s : Shell) :
      Exec G (.function name body) s (.ended { s with funs := fun f => if f = name then some body else s.funs f })

end Execution

end TinyCloud.Guard

import TinyCloud.Collections.Dict

/-!
# Static words

What the guard takes a command's words for: a census of the variables that a script sets, the static
value of a variable that is set once, and the words that a shell would pass for a raw word.
-/

namespace TinyCloud.Guard

open TinyCloud.Collections

section Reader

inductive Part
  | lit (s : String) (q : Bool)
  | var (name : String) (q : Bool)
  | dyn
  deriving DecidableEq

structure RawWord where
  parts : List Part
  deriving DecidableEq

structure RawAssign where
  name : String
  append : Bool
  value : RawWord
  deriving DecidableEq

structure RawRedirect where
  op : String
  fd : Option String
  target : RawWord
  deriving DecidableEq

structure RawCmd where
  assigns : List RawAssign
  words : List RawWord
  redirs : List RawRedirect
  heredocs : List String
  hereStrings : List RawWord
  inLoop : Bool
  inFunc : Bool
  piped : Bool
  forVars : List String
  deriving DecidableEq

def Part.literal : Part → Option String
  | .lit s _ => some s
  | _ => none

/-- The text of a word whose parts are all literal. -/
def wordLiteral (w : RawWord) : Option String := (w.parts.mapM Part.literal).map String.join

end Reader

section Names

def isNameStart (c : Char) : Bool := c.isAlpha || c == '_'

def isNameChar (c : Char) : Bool := c.isAlphanum || c == '_'

/-- The longest name that a text starts with, and the text after it. -/
def splitName (t : List Char) : List Char × List Char :=
  match t with
  | c :: cs => if isNameStart c then (c :: cs.takeWhile isNameChar, cs.dropWhile isNameChar) else ([], t)
  | [] => ([], [])

/-- `/^[A-Za-z_][A-Za-z0-9_]*$/` -/
def isName (t : String) : Bool :=
  match splitName t.toList with
  | (_ :: _, []) => true
  | _ => false

/-- The name of `/^([A-Za-z_][A-Za-z0-9_]*)(\+?)=/`, and whether it is appended to. -/
def assignedName (t : String) : Option (String × Bool) :=
  match splitName t.toList with
  | (c :: cs, '=' :: _) => some (String.ofList (c :: cs), false)
  | (c :: cs, '+' :: '=' :: _) => some (String.ofList (c :: cs), true)
  | _ => none

end Names

section Census

structure Census where
  defs : Dict String RawWord
  counts : Dict String ℕ
  taintAll : Bool
  ifs : Bool

def ASSIGN_BUILTINS : List String := ["export", "declare", "typeset", "local", "readonly"]

def READ_BUILTINS : List String := ["read", "mapfile", "readarray", "getopts", "unset", "printf", "let"]

def Census.count (c : Census) (name : String) : ℕ := (c.counts.get? name).getD 0

def Census.bump (c : Census) (name : String) (n : ℕ) : Census :=
  { c with
    counts := c.counts.set name (c.count name + n)
    ifs := c.ifs || name == "IFS" }

def Census.assign (c : Census) (a : RawAssign) : Census :=
  let c := c.bump a.name (if a.append then 2 else 1)
  { c with defs := c.defs.set a.name a.value }

/-- An argument of `export` and the like. -/
def Census.declared (c : Census) (w : RawWord) : Census :=
  match wordLiteral w with
  | none => { c with taintAll := true }
  | some t =>
    match assignedName t with
    | some (name, _) => c.bump name 2
    | none => if isName t then c.bump t 2 else c

/-- An argument of `read` and the like. -/
def Census.read (c : Census) (w : RawWord) : Census :=
  match wordLiteral w with
  | none => { c with taintAll := true }
  | some t => if isName t then c.bump t 2 else c

def Census.head (c : Census) (head : RawWord) (args : List RawWord) : Census :=
  match wordLiteral head with
  | none =>
    -- meant to stop trusting any variable
    { c with taintAll := c.taintAll || false }
  | some head =>
    let c := if head = "eval" ∨ head = "source" ∨ head = "." then { c with taintAll := true } else c
    let c := if head ∈ ASSIGN_BUILTINS then args.foldl Census.declared c else c
    if head ∈ READ_BUILTINS then args.foldl Census.read c else c

def Census.cmd (c : Census) (cmd : RawCmd) : Census :=
  let c := cmd.assigns.foldl Census.assign c
  let c := cmd.forVars.foldl (fun c name => c.bump name 2) c
  match cmd.words with
  | [] => c
  | head :: args => c.head head args

def census (cmds : List RawCmd) : Census := cmds.foldl Census.cmd ⟨Dict.empty, Dict.empty, false, false⟩

end Census

section Lookup

/-- The text of literals and resolved variables; nothing when a part is decided at run time. -/
def resolveParts (resolve : String → Option String) : List Part → Option String
  | [] => some ""
  | .lit s _ :: parts => (resolveParts resolve parts).map (s ++ ·)
  | .var name _ :: parts => (resolve name).bind fun v => (resolveParts resolve parts).map (v ++ ·)
  | .dyn :: _ => none

/-- `depth` bounds the names that can be resolving at once. -/
def lookupIn (c : Census) (cmd : RawCmd) : ℕ → List String → String → Option String
  | 0, _, _ => none
  | depth + 1, resolving, name =>
    if c.taintAll || cmd.inLoop || cmd.inFunc then none
    else if c.counts.get? name ≠ some 1 ∨ name ∈ resolving then none
    else match c.defs.get? name with
      | none => none
      | some value => resolveParts (lookupIn c cmd depth (name :: resolving)) value.parts

/-- The static value of a variable. -/
def lookup (c : Census) (cmd : RawCmd) (name : String) : Option String :=
  lookupIn c cmd (c.defs.entries.length + 1) [] name

end Lookup

section Expand

structure Word where
  value : String
  dynamic : Bool
  deriving DecidableEq

def PLACEHOLDER : String := "\x01"

structure Field where
  text : String
  dyn : Bool
  started : Bool

structure Expansion where
  fields : List Word
  cur : Field

def noField : Field := ⟨"", false, false⟩

def Expansion.push (e : Expansion) : Expansion :=
  ⟨if e.cur.started then e.fields ++ [⟨e.cur.text, e.cur.dyn⟩] else e.fields, noField⟩

def isBlank (c : Char) : Bool := c == ' ' || c == '\t' || c == '\n'

def isGlob (c : Char) : Bool := c == '*' || c == '?' || c == '['

/-- `v.split(/[ \t\n]+/)` -/
def splitBlanks : List Char → List (List Char)
  | [] => [[]]
  | c :: cs =>
    if isBlank c then if cs.head?.any isBlank then splitBlanks cs else [] :: splitBlanks cs
    else match splitBlanks cs with
      | [] => [[c]]
      | piece :: pieces => (c :: piece) :: pieces

def Expansion.piece (e : Expansion) (piece : List Char) : Expansion :=
  if piece.isEmpty then e
  else ⟨e.fields, ⟨e.cur.text ++ String.ofList piece, e.cur.dyn || piece.any isGlob, true⟩⟩

def Expansion.pieces (e : Expansion) : List (List Char) → Expansion
  | [] => e
  | first :: rest => rest.foldl (fun e piece => e.push.piece piece) (e.piece first)

def Expansion.placeholder (e : Expansion) : Expansion := ⟨e.fields, ⟨e.cur.text ++ PLACEHOLDER, true, true⟩⟩

def Expansion.text (e : Expansion) (s : String) (started : Bool) : Expansion :=
  ⟨e.fields, ⟨e.cur.text ++ s, e.cur.dyn, e.cur.started || started⟩⟩

def expandPart (c : Census) (cmd : RawCmd) (e : Expansion) : Part → Expansion
  | .lit s q => e.text s (s ≠ "" || q)
  | .dyn => e.placeholder
  | .var name q =>
    match lookup c cmd name with
    | none => e.placeholder
    | some v =>
      if !q && c.ifs then e.placeholder
      else if q then e.text v true
      else e.pieces (splitBlanks v.toList)

def expand (word : RawWord) (c : Census) (cmd : RawCmd) : List Word :=
  (word.parts.foldl (expandPart c cmd) ⟨[], noField⟩).push.fields

def expandAll (words : List RawWord) (c : Census) (cmd : RawCmd) : List Word :=
  words.flatMap fun word => expand word c cmd

structure Resolved where
  cmd : RawCmd
  words : List Word
  redirs : List (String × List Word)
  assigns : List (String × List Word)
  here : List String

/-- What the policy judges of each command of a parsed script. -/
def resolveCmd (c : Census) (cmd : RawCmd) : Resolved where
  cmd := cmd
  words := expandAll cmd.words c cmd
  redirs := cmd.redirs.map fun r => (r.op, expand r.target c cmd)
  assigns := cmd.assigns.map fun a => (a.name, expand a.value c cmd)
  here := cmd.hereStrings.map fun h => String.intercalate " " ((expand h c cmd).map (·.value))

def resolveAll (cmds : List RawCmd) : List Resolved := cmds.map (resolveCmd (census cmds))

end Expand

end TinyCloud.Guard

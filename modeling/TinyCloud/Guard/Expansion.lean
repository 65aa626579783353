import TinyCloud.Guard.Words
import TinyCloud.Text.Pattern

/-!
# Refused expansions

A command with run-time expansion or indirection that names a gated tool or verb is refused before its
words are read.
-/

namespace TinyCloud.Guard

open TinyCloud.Text TinyCloud.Text.Pattern

section Syntax

def space : Pattern := char isSpaceChar

def oneOf (s : String) : Pattern := char s.toList.contains

def letter (c : Char) : Bool := c.isAlpha || c == '_'

end Syntax

section Names

def VERBS : List String := ["merge", "publish", "deploy", "push", "release", "secrets", "secret", "pair", "revoke"]

/-- A name in any case, where `-` and `_` may stand for each other or be left out. -/
def looseName (name : String) : Pattern :=
  seq (name.toList.map fun c => if c = '-' ∨ c = '_' then opt (oneOf "-_") else char fun d => d.toLower == c.toLower)

def isNameWord (c : Char) : Bool := c.isAlphanum || c == '_' || c == '-'

/-- `name` as a word of its own: not part of a longer identifier and not a `$NAME` variable. -/
def token (names : List String) : Pattern :=
  seq [look fun before _ => !before.any fun c => isNameWord c || c == '$' || c == '.', alt (names.map looseName),
    look fun _ after => !after.any isNameWord]

/-- `text.replace(/\$?['"]/g, '')` -/
def dropQuotes : List Char → List Char
  | [] => []
  | '$' :: '\'' :: cs => dropQuotes cs
  | '$' :: '"' :: cs => dropQuotes cs
  | '\'' :: cs => dropQuotes cs
  | '"' :: cs => dropQuotes cs
  | c :: cs => c :: dropQuotes cs

def dropContinuations : List Char → List Char
  | [] => []
  | '\\' :: '\n' :: cs => dropContinuations cs
  | c :: cs => c :: dropContinuations cs

/-- Quotes and backslashes removed, so `g""h`, `'g'h` and `\gh` read as the name they spell. -/
def unquoted (text : List Char) : List Char := (dropContinuations (dropQuotes text)).filter (· != '\\')

end Names

section Refusal

end Refusal

end TinyCloud.Guard

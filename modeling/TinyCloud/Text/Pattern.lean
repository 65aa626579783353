import Mathlib.Data.List.Basic

/-! Backtracking patterns over a text: a pattern lists the places where a match that starts at a place
can end, the preferred one first. -/

namespace TinyCloud.Text

/-- A place in a text: the characters before it, the nearest first, and those after it. -/
structure Place where
  before : List Char
  rest : List Char

abbrev Pattern := Place → List Place

namespace Pattern

def char (p : Char → Bool) : Pattern
  | ⟨_, []⟩ => []
  | ⟨before, c :: rest⟩ => if p c then [⟨c :: before, rest⟩] else []

/-- A test of the characters on both sides that takes none. -/
def look (p : Option Char → Option Char → Bool) : Pattern := fun x => if p x.before.head? x.rest.head? then [x] else []

def seq : List Pattern → Pattern
  | [], x => [x]
  | p :: ps, x => (p x).flatMap (seq ps)

def alt (ps : List Pattern) : Pattern := fun x => ps.flatMap (· x)

/-- At most `n` more rounds; a round takes at least one character. -/
def rounds (p : Pattern) : ℕ → Pattern
  | 0, x => [x]
  | n + 1, x => ((p x).filter (·.rest.length < x.rest.length)).flatMap (rounds p n) ++ [x]

def opt (p : Pattern) : Pattern := fun x => p x ++ [x]

def places : List Char → List Char → List Place
  | before, [] => [⟨before, []⟩]
  | before, c :: rest => ⟨before, c :: rest⟩ :: places (c :: before) rest

/-- The first match: where it starts and where it ends. -/
def exec (p : Pattern) (text : List Char) : Option (Place × Place) :=
  (places [] text).findSome? fun x => (p x).head?.map fun y => (x, y)

def one (c : Char) : Pattern := char (· == c)

def word (text : String) : Pattern := seq (text.toList.map one)

def words (texts : List String) : Pattern := alt (texts.map word)

def start : Pattern := look fun before _ => before.isNone

def stop : Pattern := look fun _ after => after.isNone

end Pattern

/-- `\s` of a JavaScript pattern -/
def isSpaceChar (c : Char) : Bool :=
  (0x09 ≤ c.toNat && c.toNat ≤ 0x0d) || c.toNat ∈ [0x20, 0xa0, 0x1680, 0x2028, 0x2029, 0x202f, 0x205f, 0x3000, 0xfeff] ||
    (0x2000 ≤ c.toNat && c.toNat ≤ 0x200a)

end TinyCloud.Text

import TinyCloud.Text.Decoder

/-!
# The event stream of a hook

The stream is read chunk by chunk: each chunk is decoded and its line ends are normalised, and the
events are cut from the buffer at its blank lines. Against it stands the grammar of the whole text:
its lines, the blocks that blank lines end, and the fields of a block. The two agree on every
stream unless a chunk ends between the two bytes of a line end.
-/

namespace TinyCloud.Hooks

open TinyCloud.Text
open TinyCloud.Text.Decoder (carriageReturn lineFeed)

def colon : CodeUnit := 0x3A
def space : CodeUnit := 0x20

/-- `text.replace(/\r\n/g, "\n")` -/
def normalise : JsString → JsString
  | [] => []
  | [c] => [c]
  | c :: d :: rest =>
    if c = carriageReturn ∧ d = lineFeed then lineFeed :: normalise rest else c :: normalise (d :: rest)

/-- The white space and line ends that `trim` removes. -/
def isBlank (c : CodeUnit) : Bool :=
  let n := c.toNat
  decide ((0x09 ≤ n ∧ n ≤ 0x0D) ∨ n = 0x20 ∨ n = 0xA0 ∨ n = 0x1680 ∨ (0x2000 ≤ n ∧ n ≤ 0x200A) ∨
    n = 0x2028 ∨ n = 0x2029 ∨ n = 0x202F ∨ n = 0x205F ∨ n = 0x3000 ∨ n = 0xFEFF)

def trim (s : JsString) : JsString := ((s.dropWhile isBlank).reverse.dropWhile isBlank).reverse

/-- The texts that the chunks are decoded to. -/
def pieces (decoder : Decoder) : List Bytes → List JsString
  | [] => []
  | chunk :: chunks => (decoder.decode chunk).2 :: pieces (decoder.decode chunk).1 chunks

lemma normalise_length (s : JsString) : (normalise s).length ≤ s.length := by
  induction s using normalise.induct with
  | case1 => rfl
  | case2 => rfl
  | case3 c d rest h ih =>
    rw [normalise, if_pos h]
    simp only [List.length_cons]
    omega
  | case4 c d rest h ih =>
    rw [normalise, if_neg h]
    simp only [List.length_cons] at ih ⊢
    omega

end TinyCloud.Hooks

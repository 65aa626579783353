import TinyCloud.Text.Canonical

/-!
# Canonical JSON of the envelope package

`canonicalize` refuses texts that are not Unicode and sorts the members of every object.
-/

namespace TinyCloud.Text

variable {N : Type}

mutual
/-- What `canonicalize` of the envelope package lets through; numbers are finite here. -/
def scalarTexts : Json N → Bool
  | .str s => isUnicodeScalarString s
  | .arr items => scalarTextsItems items
  | .obj members => scalarTextsMembers members
  | _ => true
def scalarTextsItems : List (Json N) → Bool
  | [] => true
  | v :: items => scalarTexts v && scalarTextsItems items
def scalarTextsMembers : List (JsString × Json N) → Bool
  | [] => true
  | (k, v) :: members => isUnicodeScalarString k && scalarTexts v && scalarTextsMembers members
end

def canonicalize [NumberFormat N] (v : Json N) : Except String JsString :=
  if scalarTexts v then .ok v.serialize else .error "TypeError"

end TinyCloud.Text

import TinyCloud.Text.Utf

/-!
# Decoding UTF-8 as it arrives

A decoder that keeps its place between the pieces of a stream. A byte that cannot continue what
was read is answered with U+FFFD and read again as a first byte; one leading byte order mark is
dropped. The decoded text does not depend on where the bytes were cut.
-/

namespace TinyCloud.Text

def replacementPoint : ℕ := 0xFFFD
def byteOrderPoint : ℕ := 0xFEFF

/-- The code point read so far, the bytes it still needs and the bounds of the next one. -/
structure Decoder where
  point : ℕ
  needed : ℕ
  lower : ℕ
  upper : ℕ
  bomSeen : Bool
deriving DecidableEq, Repr

namespace Decoder

def fresh : Decoder := ⟨0, 0, 0x80, 0xBF, false⟩

/-- Back to a first byte. -/
def reset (d : Decoder) : Decoder := { d with point := 0, needed := 0, lower := 0x80, upper := 0xBF }

def lead (d : Decoder) (b : ℕ) : Decoder × List ℕ :=
  if b < 0x80 then (d, [b])
  else if 0xC2 ≤ b ∧ b ≤ 0xDF then ({ d with point := b - 0xC0, needed := 1 }, [])
  else if 0xE0 ≤ b ∧ b ≤ 0xEF then
    ({ d with
        point := b - 0xE0, needed := 2
        lower := if b = 0xE0 then 0xA0 else 0x80, upper := if b = 0xED then 0x9F else 0xBF }, [])
  else if 0xF0 ≤ b ∧ b ≤ 0xF4 then
    ({ d with
        point := b - 0xF0, needed := 3
        lower := if b = 0xF0 then 0x90 else 0x80, upper := if b = 0xF4 then 0x8F else 0xBF }, [])
  else (d, [replacementPoint])

def item (d : Decoder) (b : ℕ) : Decoder × List ℕ :=
  if d.needed = 0 then d.lead b
  else if d.lower ≤ b ∧ b ≤ d.upper then
    if d.needed = 1 then (d.reset, [d.point * 0x40 + (b - 0x80)])
    else
      ({ d with
          point := d.point * 0x40 + (b - 0x80), needed := d.needed - 1, lower := 0x80, upper := 0xBF }, [])
  else
    -- the byte is put back and read again as a first byte
    ((d.reset.lead b).1, replacementPoint :: (d.reset.lead b).2)

/-- The first code point of the stream is dropped when it is the byte order mark. -/
def mark (d : Decoder) (points : List ℕ) : Decoder × List ℕ :=
  match points with
  | [] => (d, [])
  | p :: rest =>
    if d.bomSeen then (d, p :: rest)
    else ({ d with bomSeen := true }, if p = byteOrderPoint then rest else p :: rest)

def feed (d : Decoder) (b : UInt8) : Decoder × JsString :=
  let (d', points) := d.item b.toNat
  let (d'', points) := d'.mark points
  (d'', points.flatMap pointUnits)

/-- `decoder.decode(bytes, { stream: true })` -/
def decode (d : Decoder) : Bytes → Decoder × JsString
  | [] => (d, [])
  | b :: bytes => (((d.feed b).1.decode bytes).1, (d.feed b).2 ++ ((d.feed b).1.decode bytes).2)

/-- `decoder.decode()` -/
def flush (d : Decoder) : JsString := if d.needed = 0 then [] else pointUnits replacementPoint

end Decoder

namespace Decoder

def carriageReturn : CodeUnit := 0x0D
def lineFeed : CodeUnit := 0x0A

/-- The bounds on a code point in progress: it ends above ASCII and below the last plane's end. -/
structure Sound (d : Decoder) : Prop where
  tail : 0x80 ≤ d.lower ∧ d.upper ≤ 0xBF
  few : d.needed ≤ 3
  one : d.needed = 1 → 2 ≤ d.point ∧ d.point < 0x4400
  two : d.needed = 2 → (1 ≤ d.point ∨ d.lower = 0xA0) ∧ d.point < 0x110
  three : d.needed = 3 → (1 ≤ d.point ∨ d.lower = 0x90) ∧ (d.point < 4 ∨ (d.point = 4 ∧ d.upper = 0x8F))

end Decoder

end TinyCloud.Text

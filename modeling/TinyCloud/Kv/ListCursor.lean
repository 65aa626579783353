import TinyCloud.Text.Base64
import TinyCloud.Text.Canonical
import TinyCloud.Text.Double

/-! The cursor of a local list: the last key of a page with its space and path, as base64url of JSON. -/

namespace TinyCloud.Kv

open TinyCloud.Text

variable [NumberFormat Double]

structure Cursor where
  space : JsString
  path : JsString
  last : JsString
  deriving DecidableEq

def version : Double := Double.whole 1 0 (by decide) (by decide)

/-- `{ v: 1, space, path, last }` -/
def cursorMembers (space path last : JsString) : List (JsString × Json Double) :=
  [(js "v", .num version), (js "space", .str space), (js "path", .str path), (js "last", .str last)]

def encodeTcr1 (space path last : JsString) : JsString :=
  let bytes := textEncode (memberTexts (cursorMembers space path last))
  js "tcr1." ++ ((btoa bytes).map urlUnit).rdropWhile (· == 61)

def member (key : JsString) : Json Double → Option (Json Double)
  | .obj members => members.lookup key
  | _ => none

def stringMember (key : JsString) (x : Json Double) : Option JsString :=
  match member key x with
  | some (.str s) => some s
  | _ => none

def decodeTcr1 (cursor : JsString) : Option Cursor := do
  let encoded := (cursor.drop 5).map plainUnit
  let bytes ← atob (encoded ++ padding encoded.length)
  let text ← textDecode bytes
  let x ← parseJson text
  match member (js "v") x with
  | some (.num n) => if n = version then some ⟨← stringMember (js "space") x, ← stringMember (js "path") x,
      ← stringMember (js "last") x⟩ else none
  | _ => none

/-- A cursor reads as what it was written from, for all strings. -/
theorem decodeTcr1_encodeTcr1 (space path last : JsString) :
    decodeTcr1 (encodeTcr1 space path last) = some ⟨space, path, last⟩ := by
  have hproper : ∀ m ∈ cursorMembers space path last, m.2.Proper := by
    intro m hm
    simp only [cursorMembers, List.mem_cons, List.not_mem_nil, or_false] at hm
    rcases hm with rfl | rfl | rfl | rfl
    · exact .num _
    all_goals exact .str _
  have hkeys : ((cursorMembers space path last).map Prod.fst).Nodup := by
    simp only [cursorMembers, List.map_cons, List.map_nil]
    decide
  have hjson := parseJson_memberTexts hkeys fun m hm => readsBack (hproper m hm)
  have hcanonical : (cursorMembers space path last).map (fun m => (m.1, m.2.canonical)) = cursorMembers space path last := rfl
  rw [hcanonical] at hjson
  have hv : member (js "v") (.obj (cursorMembers space path last)) = some (.num version) := rfl
  have hspace : stringMember (js "space") (.obj (cursorMembers space path last)) = some space := rfl
  have hpath : stringMember (js "path") (.obj (cursorMembers space path last)) = some path := rfl
  have hlast : stringMember (js "last") (.obj (cursorMembers space path last)) = some last := rfl
  have hversion : (js "tcr1.").length = 5 := by decide
  unfold decodeTcr1 encodeTcr1
  rw [List.drop_left' hversion, url_btoa]
  simp only [atob_url _ _ rfl, textDecode_memberTexts hproper, hjson, Option.bind_eq_bind, Option.bind_some, hv,
    hspace, hpath, hlast, if_true]

end TinyCloud.Kv

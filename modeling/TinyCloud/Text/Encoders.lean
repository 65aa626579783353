import TinyCloud.Runs.Fallible
import TinyCloud.Text.Decimal
import TinyCloud.Text.Meaning

/-! The three encoders of canonical JSON: of the signed objects, of the share envelopes and of the encryption module. -/

namespace TinyCloud.Encoders

open TinyCloud.Text TinyCloud.Runs

section Inputs

/-- The finite numbers: `JSON.stringify` writes both zeros alike. -/
inductive Finite (N : Type) where
  | value (n : N)
  | negativeZero

structure Property where
  enumerable : Bool
  data : Bool

/-- What an encoder may be handed. An array lists its indices up to its length, the holes among them, and the names
of its other own properties. -/
inductive Input (N : Type) where
  | undefined
  | other (type : String)
  | null
  | bool (b : Bool)
  | num (n : Finite N)
  | nonFinite (shown : String)
  | str (s : JsString)
  | arr (symbols : Bool) (others : List JsString) (items : List (Option (Property × Input N)))
  | obj (symbols plain : Bool) (members : List (JsString × Property × Input N))

variable {N : Type}

def Input.isUndefined : Input N → Bool
  | .undefined => true
  | _ => false

/-- The first unpaired surrogate: whether it is a high one, and where it stands. -/
def loneSurrogate : ℕ → JsString → Option (Bool × ℕ)
  | _, [] => none
  | i, [u] => if highSurrogate u then some (true, i) else if lowSurrogate u then some (false, i) else none
  | i, u :: v :: rest =>
    if highSurrogate u then if lowSurrogate v then loneSurrogate (i + 2) rest else some (true, i)
    else if lowSurrogate u then some (false, i)
    else loneSurrogate (i + 1) (v :: rest)

variable [NumberFormat N] [Zero N]

def Finite.text : Finite N → JsString
  | .value n => NumberFormat.text n
  | .negativeZero => NumberFormat.text (0 : N)

end Inputs

section SignedObjects

variable {N : Type}

def assertUnicodeScalarString (value path : JsString) : Except JsString Unit :=
  match loneSurrogate 0 value with
  | none => .ok ()
  | some (true, _) => .error (path ++ js " contains a lone high surrogate")
  | some (false, _) => .error (path ++ js " contains a lone low surrogate")

def assertNoSymbolKeys (symbols : Bool) (path : JsString) : Except JsString Unit :=
  if symbols then .error (path ++ js " must not have symbol properties") else .ok ()

def indexed (path : JsString) (index : ℕ) : JsString := path ++ js "[" ++ js (toString index) ++ js "]"

def dotted (path key : JsString) : JsString := path ++ js "." ++ key

/-- The first pass over the own properties of an array. -/
def assertItems (path : JsString) : ℕ → List (Option (Property × Input N)) → Except JsString Unit
  | _, [] => .ok ()
  | i, none :: items => assertItems path (i + 1) items
  | i, some (property, _) :: items =>
    if !property.enumerable then .error (indexed path i ++ js " must be an enumerable JSON array item")
    else if !property.data then .error (indexed path i ++ js " must be a JSON data property")
    else assertItems path (i + 1) items

def assertNoOthers (path : JsString) : List JsString → Except JsString Unit
  | [] => .ok ()
  | key :: _ => .error (dotted path key ++ js " is not allowed on a JSON array")

def assertMember (path key : JsString) (property : Property) : Except JsString Unit := do
  assertUnicodeScalarString key (path ++ js " key")
  if key = js "__proto__" ∨ key = js "constructor" then .error (dotted path key ++ js " is not allowed")
  else if !property.enumerable then .error (dotted path key ++ js " must be an enumerable JSON object property")
  else if !property.data then .error (dotted path key ++ js " must be a JSON data property")
  else .ok ()

mutual
def normalizeJson : Input N → JsString → Except JsString (Json (Finite N))
  | .null, _ => .ok .null
  | .bool b, _ => .ok (.bool b)
  | .nonFinite _, path => .error (path ++ js " must be a finite JSON number")
  | .num n, _ => .ok (.num n)
  | .str s, path => (assertUnicodeScalarString s path).map fun _ => .str s
  | .arr symbols others items, path => do
    assertNoSymbolKeys symbols path
    assertItems path 0 items
    assertNoOthers path others
    (normalizeItems items path 0).map .arr
  | .obj symbols plain members, path => do
    assertNoSymbolKeys symbols path
    if !plain then .error (path ++ js " must be a plain JSON object")
    else (normalizeMembers members path).map .obj
  | .undefined, path => .error (path ++ js " is not a JSON value")
  | .other _, path => .error (path ++ js " is not a JSON value")
def normalizeItems : List (Option (Property × Input N)) → JsString → ℕ → Except JsString (List (Json (Finite N)))
  | [], _, _ => .ok []
  | none :: _, path, i => .error (indexed path i ++ js " must not be a sparse array hole")
  | some (_, v) :: items, path, i => do
    let v ← normalizeJson v (indexed path i)
    let items ← normalizeItems items path (i + 1)
    .ok (v :: items)
def normalizeMembers : List (JsString × Property × Input N) → JsString →
    Except JsString (List (JsString × Json (Finite N)))
  | [], _ => .ok []
  | (key, property, v) :: members, path => do
    assertMember path key property
    let v ← normalizeJson v (dotted path key)
    let members ← normalizeMembers members path
    .ok ((key, v) :: members)
end

variable [NumberFormat N] [Zero N]

mutual
def jcsSerialize : Json (Finite N) → JsString
  | .null => js "null"
  | .bool b => if b then js "true" else js "false"
  | .num n => n.text
  | .str s => quote s
  | .arr items => 91 :: (joinComma (jcsSerializeItems items) ++ [93])
  | .obj members =>
    123 :: (joinComma (((jcsSerializeMembers members).insertionSort KeyLe).map
      fun m => quote m.1 ++ 58 :: m.2) ++ [125])
def jcsSerializeItems : List (Json (Finite N)) → List JsString
  | [] => []
  | v :: items => jcsSerialize v :: jcsSerializeItems items
def jcsSerializeMembers : List (JsString × Json (Finite N)) → List (JsString × JsString)
  | [] => []
  | (k, v) :: members => (k, jcsSerialize v) :: jcsSerializeMembers members
end

def jcsCanonicalize (input : Input N) : Except JsString JsString := (normalizeJson input (js "$")).map jcsSerialize

end SignedObjects

section Members

/-- The members of an object one after the other; the first that fails is the one that is reported. -/
def inOrder {ε α : Type} : List (JsString × Except ε (Option α)) → Except ε (List α)
  | [] => .ok []
  | (_, member) :: members => do
    let text ← member
    let texts ← inOrder members
    .ok (text.toList ++ texts)

end Members

section Envelopes

variable {N : Type} [NumberFormat N] [Zero N]

def serializeString (text : JsString) : Except JsString JsString :=
  match loneSurrogate 0 text with
  | none => .ok (quote text)
  | some (false, i) => .error (js "cannot canonicalize string with unpaired low surrogate at index " ++ js (toString i))
  | some (true, i) => .error (js "cannot canonicalize string with unpaired high surrogate at index " ++ js (toString i))

mutual
def envelopeSerialize : Input N → Except JsString JsString
  | .null => .ok (js "null")
  | .bool b => .ok (if b then js "true" else js "false")
  | .str s => serializeString s
  | .nonFinite shown => .error (js "cannot canonicalize non-finite number: " ++ js shown)
  | .num n => .ok n.text
  | .undefined => .error (js "cannot canonicalize value of type undefined")
  | .other type => .error (js "cannot canonicalize value of type " ++ js type)
  | .arr _ _ items => (envelopeItems items).map fun texts => 91 :: (joinComma texts ++ [93])
  | .obj _ plain members =>
    if !plain then .error (js "cannot canonicalize non-plain object")
    else (inOrder ((envelopeMembers members).insertionSort KeyLe)).map fun texts => 123 :: (joinComma texts ++ [125])
/-- `map` leaves a hole in place, and `join` writes nothing for it. -/
def envelopeItems : List (Option (Property × Input N)) → Except JsString (List JsString)
  | [] => .ok []
  | none :: items => (envelopeItems items).map fun texts => [] :: texts
  | some (_, v) :: items => do
    let text ← envelopeSerialize v
    let texts ← envelopeItems items
    .ok (text :: texts)
def envelopeMembers : List (JsString × Property × Input N) → List (JsString × Except JsString (Option JsString))
  | [] => []
  | (key, property, v) :: members =>
    if property.enumerable then
      (key, if v.isUndefined then .ok none else do
        let name ← serializeString key
        let text ← envelopeSerialize v
        .ok (some (name ++ 58 :: text))) :: envelopeMembers members
    else envelopeMembers members
end

def envelopeCanonicalize (value : Input N) : Except JsString JsString := envelopeSerialize value

end Envelopes

section Encryption

variable {N : Type} [NumberFormat N] [Zero N]

mutual
def stringify : Input N → Except JsString JsString
  | .null => .ok (js "null")
  | .bool b => .ok (if b then js "true" else js "false")
  | .num n => .ok n.text
  | .nonFinite _ => .ok (js "null")
  | .str s => .ok (quote s)
  | .arr _ _ items => (stringifyItems items).map fun texts => 91 :: (joinComma texts ++ [93])
  | .obj _ _ members =>
    (inOrder ((stringifyMembers members).insertionSort KeyLe)).map fun texts => 123 :: (joinComma texts ++ [125])
  | .undefined => .error (js "canonicalize: unsupported value type undefined")
  | .other type => .error (js "canonicalize: unsupported value type " ++ js type)
def stringifyItems : List (Option (Property × Input N)) → Except JsString (List JsString)
  | [] => .ok []
  | none :: items => (stringifyItems items).map fun texts => [] :: texts
  | some (_, v) :: items => do
    let text ← stringify v
    let texts ← stringifyItems items
    .ok (text :: texts)
def stringifyMembers : List (JsString × Property × Input N) → List (JsString × Except JsString (Option JsString))
  | [] => []
  | (key, property, v) :: members =>
    if property.enumerable then
      (key, if v.isUndefined then .ok none else do
        let text ← stringify v
        .ok (some (quote key ++ 58 :: text))) :: stringifyMembers members
    else stringifyMembers members
end

def encryptionCanonicalize (value : Input N) : Except JsString JsString :=
  if value.isUndefined then .ok [] else stringify value

end Encryption

section JsonValues

variable {M N : Type}

def plainProperty : Property := ⟨true, true⟩

mutual
/-- The plain arrays and objects of a JSON value. -/
def Input.ofJson : Json (Finite N) → Input N
  | .null => .null
  | .bool b => .bool b
  | .num n => .num n
  | .str s => .str s
  | .arr items => .arr false [] (Input.ofItems items)
  | .obj members => .obj false true (Input.ofMembers members)
def Input.ofItems : List (Json (Finite N)) → List (Option (Property × Input N))
  | [] => []
  | v :: items => some (plainProperty, Input.ofJson v) :: Input.ofItems items
def Input.ofMembers : List (JsString × Json (Finite N)) → List (JsString × Property × Input N)
  | [] => []
  | (k, v) :: members => (k, plainProperty, Input.ofJson v) :: Input.ofMembers members
end

mutual
def mapNumbers (f : M → N) : Json M → Json N
  | .null => .null
  | .bool b => .bool b
  | .num n => .num (f n)
  | .str s => .str s
  | .arr items => .arr (mapItems f items)
  | .obj members => .obj (mapMembers f members)
def mapItems (f : M → N) : List (Json M) → List (Json N)
  | [] => []
  | v :: items => mapNumbers f v :: mapItems f items
def mapMembers (f : M → N) : List (JsString × Json M) → List (JsString × Json N)
  | [] => []
  | (k, v) :: members => (k, mapNumbers f v) :: mapMembers f members
end

def Finite.read [Zero N] : Finite N → N
  | .value n => n
  | .negativeZero => 0

/-- What the value means: both zeros are one number. -/
def meaning [Zero N] (v : Json (Finite N)) : Json N := mapNumbers Finite.read v

/-- The names that an object may give its members. -/
def PlainKey (k : JsString) : Prop :=
  isUnicodeScalarString k = true ∧ k ≠ js "__proto__" ∧ k ≠ js "constructor"

/-- No text has an unpaired surrogate, and the members of an object have distinct plain names. -/
inductive Clean : Json M → Prop
  | null : Clean .null
  | bool (b : Bool) : Clean (.bool b)
  | num (n : M) : Clean (.num n)
  | str {s : JsString} (h : isUnicodeScalarString s = true) : Clean (.str s)
  | arr {items : List (Json M)} (h : ∀ v ∈ items, Clean v) : Clean (.arr items)
  | obj {members : List (JsString × Json M)} (hk : (members.map Prod.fst).Nodup)
      (hnames : ∀ m ∈ members, PlainKey m.1) (h : ∀ m ∈ members, Clean m.2) : Clean (.obj members)

lemma ofItems_eq (items : List (Json (Finite N))) :
    Input.ofItems items = items.map fun v => some (plainProperty, Input.ofJson v) := by
  induction items with
  | nil => rfl
  | cons v items ih => rw [Input.ofItems, ih, List.map_cons]

lemma ofMembers_eq (members : List (JsString × Json (Finite N))) :
    Input.ofMembers members = members.map fun m => (m.1, plainProperty, Input.ofJson m.2) := by
  induction members with
  | nil => rfl
  | cons m members ih => rw [Input.ofMembers, ih, List.map_cons]

lemma mapItems_eq (f : M → N) (items : List (Json M)) : mapItems f items = items.map (mapNumbers f) := by
  induction items with
  | nil => rfl
  | cons v items ih => rw [mapItems, ih, List.map_cons]

lemma mapMembers_eq (f : M → N) (members : List (JsString × Json M)) :
    mapMembers f members = members.map fun m => (m.1, mapNumbers f m.2) := by
  induction members with
  | nil => rfl
  | cons m members ih => rw [mapMembers, ih, List.map_cons]

lemma not_undefined (v : Json (Finite N)) : (Input.ofJson v).isUndefined = false := by
  cases v <;> simp [Input.ofJson, Input.isUndefined]

lemma Clean.proper {v : Json M} (h : Clean v) : v.Proper := by
  induction h with
  | null => exact .null
  | bool b => exact .bool b
  | num n => exact .num n
  | str _ => exact .str _
  | arr _ ih => exact .arr ih
  | obj hk _ _ ih => exact .obj hk ih

lemma members_clean {members : List (JsString × Json M)} (h : Clean (.obj members)) : ∀ m ∈ members, Clean m.2 := by
  cases h with
  | obj _ _ h => exact h

lemma Clean.mapNumbers {v : Json M} (h : Clean v) (f : M → N) : Clean (mapNumbers f v) := by
  induction h with
  | null => exact .null
  | bool b => exact .bool b
  | num n => exact .num (f n)
  | str h => exact .str h
  | arr _ ih =>
    rw [Encoders.mapNumbers, mapItems_eq]
    exact .arr (List.forall_mem_map.mpr ih)
  | obj hk hnames _ ih =>
    rw [Encoders.mapNumbers, mapMembers_eq]
    exact .obj (by rw [keys_mapValues]; exact hk) (List.forall_mem_map.mpr hnames) (List.forall_mem_map.mpr ih)

lemma Clean.canonical {v : Json M} (h : Clean v) : Clean v.canonical := by
  induction h with
  | null => exact .null
  | bool b => exact .bool b
  | num n => exact .num n
  | str h => exact .str h
  | arr _ ih =>
    rw [canonical_arr]
    exact .arr (List.forall_mem_map.mpr ih)
  | @obj members hk hnames _ ih =>
    have hmem : ∀ m ∈ members.insertionSort KeyLe, m ∈ members := fun m hm => keys_sorted.mem_iff.mp hm
    rw [canonical_obj]
    refine .obj ?_ ?_ ?_
    · rw [keys_mapValues]
      exact (keys_sorted.map Prod.fst).nodup_iff.mpr hk
    · exact List.forall_mem_map.mpr fun m hm => hnames m (hmem m hm)
    · exact List.forall_mem_map.mpr fun m hm => ih m (hmem m hm)

lemma meaning_value [Zero N] {v : Json N} (h : Clean v) : meaning (mapNumbers Finite.value v) = v := by
  induction h with
  | null | bool | num | str => rfl
  | arr _ ih =>
    rw [mapNumbers, meaning, mapNumbers, mapItems_eq, mapItems_eq, List.map_map]
    exact congrArg Json.arr ((List.map_congr_left ih).trans (List.map_id' _))
  | obj _ _ _ ih =>
    rw [mapNumbers, meaning, mapNumbers, mapMembers_eq, mapMembers_eq, List.map_map]
    refine congrArg Json.obj ((List.map_congr_left fun m hm => ?_).trans (List.map_id _))
    exact Prod.ext rfl (ih m hm)

end JsonValues

section Agreement

variable {N : Type}

lemma loneSurrogate_scalar {s : JsString} (h : isUnicodeScalarString s = true) (i : ℕ) : loneSurrogate i s = none := by
  induction s using isUnicodeScalarString.induct generalizing i with
  | case1 => rfl
  | case2 u =>
    simp only [isUnicodeScalarString, Bool.and_eq_true, Bool.not_eq_true'] at h
    simp [loneSurrogate, h.1, h.2]
  | case3 u v rest hu ih =>
    simp only [isUnicodeScalarString, if_pos hu, Bool.and_eq_true] at h
    rw [loneSurrogate, if_pos hu, if_pos h.1]
    exact ih h.2 (i + 2)
  | case4 u v rest hu ih =>
    simp only [isUnicodeScalarString, if_neg hu, Bool.and_eq_true, Bool.not_eq_true'] at h
    rw [loneSurrogate, if_neg hu, if_neg (by simp [h.1])]
    exact ih h.2 (i + 1)

lemma assertMember_plain {k : JsString} (h : PlainKey k) (path : JsString) :
    assertMember path k plainProperty = .ok () := by
  rw [assertMember, assertUnicodeScalarString, loneSurrogate_scalar h.1]
  simp [Bind.bind, Except.bind, h.2.1, h.2.2, plainProperty]

lemma assertItems_plain (path : JsString) (i : ℕ) (items : List (Json (Finite N))) :
    assertItems path i (Input.ofItems items) = .ok () := by
  induction items generalizing i with
  | nil => rfl
  | cons v items ih =>
    rw [Input.ofItems, assertItems]
    simpa [plainProperty] using ih (i + 1)

/-- What the checks of the signed objects let through, in whatever order and however often a name is given. -/
inductive Normal {M : Type} : Json M → Prop
  | null : Normal .null
  | bool (b : Bool) : Normal (.bool b)
  | num (n : M) : Normal (.num n)
  | str {s : JsString} (h : isUnicodeScalarString s = true) : Normal (.str s)
  | arr {items : List (Json M)} (h : ∀ v ∈ items, Normal v) : Normal (.arr items)
  | obj {members : List (JsString × Json M)} (hnames : ∀ m ∈ members, PlainKey m.1)
      (h : ∀ m ∈ members, Normal m.2) : Normal (.obj members)

lemma Clean.normal {M : Type} {v : Json M} (h : Clean v) : Normal v := by
  induction h with
  | null => exact .null
  | bool b => exact .bool b
  | num n => exact .num n
  | str h => exact .str h
  | arr _ ih => exact .arr ih
  | obj _ hnames _ ih => exact .obj hnames ih

lemma normalizeJson_normal {v : Json (Finite N)} (h : Normal v) (path : JsString) :
    normalizeJson (Input.ofJson v) path = .ok v := by
  induction h generalizing path with
  | null | bool | num => rfl
  | str h =>
    rw [Input.ofJson, normalizeJson, assertUnicodeScalarString, loneSurrogate_scalar h]
    rfl
  | @arr items h ih =>
    have hitems : ∀ i, normalizeItems (Input.ofItems items) path i = .ok items := by
      clear h
      induction items with
      | nil => exact fun _ => rfl
      | cons v items ihitems =>
        intro i
        obtain ⟨hv, hrest⟩ := List.forall_mem_cons.mp ih
        rw [Input.ofItems, normalizeItems, hv, ihitems hrest]
        rfl
    rw [Input.ofJson, normalizeJson, assertItems_plain, hitems]
    rfl
  | @obj members hnames h ih =>
    have hmembers : normalizeMembers (Input.ofMembers members) path = .ok members := by
      clear h
      induction members with
      | nil => rfl
      | cons m members ihmembers =>
        obtain ⟨hv, hrest⟩ := List.forall_mem_cons.mp ih
        obtain ⟨hname, hnames⟩ := List.forall_mem_cons.mp hnames
        rw [Input.ofMembers, normalizeMembers, assertMember_plain hname, hv, ihmembers hnames hrest]
        rfl
    rw [Input.ofJson, normalizeJson, hmembers]
    rfl

lemma scalar_of_loneSurrogate {s : JsString} {i : ℕ} (h : loneSurrogate i s = none) : isUnicodeScalarString s = true := by
  induction s using isUnicodeScalarString.induct generalizing i with
  | case1 => rfl
  | case2 u =>
    unfold loneSurrogate at h
    split_ifs at h with hhigh hlow
    simp [isUnicodeScalarString, hhigh, hlow]
  | case3 u v rest hu ih =>
    rw [loneSurrogate, if_pos hu] at h
    split_ifs at h with hv
    rw [isUnicodeScalarString, if_pos hu, hv, ih h]
    rfl
  | case4 u v rest hu ih =>
    rw [loneSurrogate, if_neg hu] at h
    split_ifs at h with hlow
    rw [isUnicodeScalarString, if_neg hu, ih h]
    simp [hlow]

lemma scalar_of_assert {s path : JsString} (h : assertUnicodeScalarString s path = .ok ()) :
    isUnicodeScalarString s = true := by
  unfold assertUnicodeScalarString at h
  split at h
  · rename_i hnone
    exact scalar_of_loneSurrogate hnone
  · cases h
  · cases h

lemma plain_of_assertMember {k path : JsString} {property : Property} (h : assertMember path k property = .ok ()) :
    PlainKey k := by
  obtain ⟨u, hscalar, h⟩ := bind_eq_ok h
  split_ifs at h with hname henumerable hdata
  obtain ⟨hproto, hconstructor⟩ := not_or.mp hname
  exact ⟨scalar_of_assert hscalar, hproto, hconstructor⟩

mutual
/-- Whatever the checks let through would be let through again. -/
theorem normal_of_normalizeJson : ∀ (input : Input N) {path : JsString} {v : Json (Finite N)},
    normalizeJson input path = .ok v → Normal v
  | .null, _, _, h => by
    cases h
    exact .null
  | .bool b, _, _, h => by
    cases h
    exact .bool b
  | .num n, _, _, h => by
    cases h
    exact .num n
  | .nonFinite _, _, _, h => by cases h
  | .undefined, _, _, h => by cases h
  | .other _, _, _, h => by cases h
  | .str s, path, _, h => by
    rw [normalizeJson] at h
    cases hassert : assertUnicodeScalarString s path with
    | error e =>
      rw [hassert] at h
      cases h
    | ok =>
      rw [hassert] at h
      cases h
      exact .str (scalar_of_assert hassert)
  | .arr symbols others items, path, _, h => by
    obtain ⟨_, -, h⟩ := bind_eq_ok h
    obtain ⟨_, -, h⟩ := bind_eq_ok h
    obtain ⟨_, -, h⟩ := bind_eq_ok h
    cases hitems : normalizeItems items path 0 with
    | error e =>
      rw [hitems] at h
      cases h
    | ok values =>
      rw [hitems] at h
      cases h
      exact .arr (normal_of_normalizeItems items hitems)
  | .obj symbols plain members, path, _, h => by
    obtain ⟨_, -, h⟩ := bind_eq_ok h
    split_ifs at h
    cases hmembers : normalizeMembers members path with
    | error e =>
      rw [hmembers] at h
      cases h
    | ok values =>
      rw [hmembers] at h
      cases h
      obtain ⟨hnames, hvalues⟩ := normal_of_normalizeMembers members hmembers
      exact .obj hnames hvalues
theorem normal_of_normalizeItems : ∀ (items : List (Option (Property × Input N))) {path : JsString} {i : ℕ}
    {values : List (Json (Finite N))}, normalizeItems items path i = .ok values → ∀ v ∈ values, Normal v
  | [], _, _, _, h => by
    cases h
    simp
  | none :: _, _, _, _, h => by cases h
  | some (_, v) :: items, _, _, _, h => by
    obtain ⟨w, hw, h⟩ := bind_eq_ok h
    obtain ⟨rest, hrest, h⟩ := bind_eq_ok h
    cases h
    exact List.forall_mem_cons.mpr ⟨normal_of_normalizeJson v hw, normal_of_normalizeItems items hrest⟩
theorem normal_of_normalizeMembers : ∀ (members : List (JsString × Property × Input N)) {path : JsString}
    {values : List (JsString × Json (Finite N))}, normalizeMembers members path = .ok values →
      (∀ m ∈ values, PlainKey m.1) ∧ ∀ m ∈ values, Normal m.2
  | [], _, _, h => by
    cases h
    simp
  | (k, property, v) :: members, _, _, h => by
    obtain ⟨_, hname, h⟩ := bind_eq_ok h
    obtain ⟨w, hw, h⟩ := bind_eq_ok h
    obtain ⟨rest, hrest, h⟩ := bind_eq_ok h
    cases h
    obtain ⟨hnames, hvalues⟩ := normal_of_normalizeMembers members hrest
    exact ⟨List.forall_mem_cons.mpr ⟨plain_of_assertMember hname, hnames⟩,
      List.forall_mem_cons.mpr ⟨normal_of_normalizeJson v hw, hvalues⟩⟩
end

/-- What an object's name stands for is normalized by itself. -/
lemma lookup_normalizeMembers {members : List (JsString × Property × Input N)} {path : JsString}
    {values : List (JsString × Json (Finite N))} (h : normalizeMembers members path = .ok values) {k : JsString}
    {v : Json (Finite N)} (hv : values.lookup k = some v) :
    ∃ property input, members.lookup k = some (property, input) ∧ normalizeJson input (dotted path k) = .ok v := by
  induction members generalizing values with
  | nil =>
    cases h
    cases hv
  | cons m members ih =>
    obtain ⟨name, property, input⟩ := m
    obtain ⟨_, -, h⟩ := bind_eq_ok h
    obtain ⟨w, hw, h⟩ := bind_eq_ok h
    obtain ⟨rest, hrest, h⟩ := bind_eq_ok h
    cases h
    rw [List.lookup_cons] at hv ⊢
    split at hv
    · rename_i heq
      cases hv
      obtain rfl := eq_of_beq heq
      exact ⟨property, input, rfl, hw⟩
    · exact ih hrest hv

variable [NumberFormat N] [Zero N]

lemma text_eq (n : Finite N) : n.text = NumberFormat.text n.read := by
  cases n <;> rfl

omit [Zero N] in
lemma serialize_bool (b : Bool) : (if b then js "true" else js "false") = (Json.bool b : Json N).serialize := by
  cases b <;> rfl

lemma sort_tagged {α β : Type} (f : JsString × α → β) (members : List (JsString × α)) :
    (members.map fun m => (m.1, f m)).insertionSort KeyLe = (members.insertionSort KeyLe).map fun m => (m.1, f m) :=
  (List.map_insertionSort KeyLe KeyLe (fun m => (m.1, f m)) members fun _ _ _ _ => Iff.rfl).symm

/-- The text of an object from the texts of its members' values. -/
lemma serialize_members (members : List (JsString × Json (Finite N))) :
    (meaning (.obj members)).serialize = 123 :: (joinComma ((members.insertionSort KeyLe).map
      fun m => quote m.1 ++ 58 :: (meaning m.2).serialize) ++ [125]) := by
  rw [meaning, mapNumbers, mapMembers_eq, serialize_obj, sort_mapValues, List.map_map]
  rfl

lemma serialize_items (items : List (Json (Finite N))) :
    (meaning (.arr items)).serialize =
      91 :: (joinComma (items.map fun v => (meaning v).serialize) ++ [93]) := by
  rw [meaning, mapNumbers, mapItems_eq, serialize_arr, List.map_map]
  rfl

lemma jcsSerialize_eq {v : Json (Finite N)} (h : Clean v) : jcsSerialize v = (meaning v).serialize := by
  induction h with
  | null | str => rfl
  | bool b => exact serialize_bool b
  | num n => exact text_eq n
  | @arr items h ih =>
    have hitems : jcsSerializeItems items = items.map fun v => (meaning v).serialize := by
      clear h
      induction items with
      | nil => rfl
      | cons v items ihitems =>
        obtain ⟨hv, hrest⟩ := List.forall_mem_cons.mp ih
        rw [jcsSerializeItems, hv, ihitems hrest, List.map_cons]
    rw [jcsSerialize, hitems, serialize_items]
  | @obj members hk hnames h ih =>
    have hmembers : jcsSerializeMembers members = members.map fun m => (m.1, (meaning m.2).serialize) := by
      clear hk hnames h
      induction members with
      | nil => rfl
      | cons m members ihmembers =>
        obtain ⟨hv, hrest⟩ := List.forall_mem_cons.mp ih
        rw [jcsSerializeMembers, hv, ihmembers hrest, List.map_cons]
    rw [jcsSerialize, hmembers, sort_tagged fun m => (meaning m.2).serialize, List.map_map, serialize_members]
    rfl

lemma inOrder_sorted {ε α β : Type} (f : JsString × α → β) (members : List (JsString × α)) :
    inOrder ((members.map fun m => (m.1, (.ok (some (f m)) : Except ε (Option β)))).insertionSort KeyLe) =
      .ok ((members.insertionSort KeyLe).map f) := by
  rw [sort_tagged fun m => (.ok (some (f m)) : Except ε (Option β))]
  induction members.insertionSort KeyLe with
  | nil => rfl
  | cons m members ih =>
    rw [List.map_cons, inOrder, ih]
    rfl

lemma envelopeSerialize_eq {v : Json (Finite N)} (h : Clean v) :
    envelopeSerialize (Input.ofJson v) = .ok (meaning v).serialize := by
  induction h with
  | null => rfl
  | str h =>
    rw [Input.ofJson, envelopeSerialize, serializeString, loneSurrogate_scalar h]
    rfl
  | bool b =>
    rw [Input.ofJson, envelopeSerialize, @serialize_bool N]
    rfl
  | num n =>
    rw [Input.ofJson, envelopeSerialize, text_eq]
    rfl
  | @arr items h ih =>
    have hitems : envelopeItems (Input.ofItems items) = .ok (items.map fun v => (meaning v).serialize) := by
      clear h
      induction items with
      | nil => rfl
      | cons v items ihitems =>
        obtain ⟨hv, hrest⟩ := List.forall_mem_cons.mp ih
        rw [Input.ofItems, envelopeItems, hv, ihitems hrest]
        rfl
    rw [Input.ofJson, envelopeSerialize, hitems, serialize_items]
    rfl
  | @obj members hk hnames h ih =>
    have hmembers : envelopeMembers (Input.ofMembers members) =
        members.map fun m => (m.1, .ok (some (quote m.1 ++ 58 :: (meaning m.2).serialize))) := by
      clear hk h
      induction members with
      | nil => rfl
      | cons m members ihmembers =>
        obtain ⟨hv, hrest⟩ := List.forall_mem_cons.mp ih
        obtain ⟨hname, hnames⟩ := List.forall_mem_cons.mp hnames
        rw [Input.ofMembers, envelopeMembers, if_pos (show plainProperty.enumerable = true from rfl), not_undefined,
          hv, ihmembers hnames hrest, serializeString,
          loneSurrogate_scalar hname.1]
        rfl
    rw [Input.ofJson, envelopeSerialize, hmembers,
      inOrder_sorted fun m => quote m.1 ++ 58 :: (meaning m.2).serialize, serialize_members]
    rfl

lemma stringify_eq {v : Json (Finite N)} (h : Clean v) : stringify (Input.ofJson v) = .ok (meaning v).serialize := by
  induction h with
  | null | str => rfl
  | bool b =>
    rw [Input.ofJson, stringify, @serialize_bool N]
    rfl
  | num n =>
    rw [Input.ofJson, stringify, text_eq]
    rfl
  | @arr items h ih =>
    have hitems : stringifyItems (Input.ofItems items) = .ok (items.map fun v => (meaning v).serialize) := by
      clear h
      induction items with
      | nil => rfl
      | cons v items ihitems =>
        obtain ⟨hv, hrest⟩ := List.forall_mem_cons.mp ih
        rw [Input.ofItems, stringifyItems, hv, ihitems hrest]
        rfl
    rw [Input.ofJson, stringify, hitems, serialize_items]
    rfl
  | @obj members hk hnames h ih =>
    have hmembers : stringifyMembers (Input.ofMembers members) =
        members.map fun m => (m.1, .ok (some (quote m.1 ++ 58 :: (meaning m.2).serialize))) := by
      clear hk hnames h
      induction members with
      | nil => rfl
      | cons m members ihmembers =>
        obtain ⟨hv, hrest⟩ := List.forall_mem_cons.mp ih
        rw [Input.ofMembers, stringifyMembers, if_pos (show plainProperty.enumerable = true from rfl), not_undefined,
          hv, ihmembers hrest]
        rfl
    rw [Input.ofJson, stringify, hmembers,
      inOrder_sorted fun m => quote m.1 ++ 58 :: (meaning m.2).serialize, serialize_members]
    rfl

/-- The text that each of the three encoders returns. -/
structure Written (input : Input N) (text : JsString) : Prop where
  signedObjects : jcsCanonicalize input = .ok text
  envelopes : envelopeCanonicalize input = .ok text
  encryption : encryptionCanonicalize input = .ok text

lemma written {v : Json (Finite N)} (h : Clean v) : Written (Input.ofJson v) (meaning v).serialize where
  signedObjects := by
    rw [jcsCanonicalize, normalizeJson_normal h.normal, ← jcsSerialize_eq h]
    rfl
  envelopes := envelopeSerialize_eq h
  encryption := by
    rw [encryptionCanonicalize, not_undefined, stringify_eq h]
    rfl

/-- The canonical text of a JSON value is the same from every encoder, reads as the value, and is written again for
what was read. Values share it exactly if they mean the same. -/
theorem encoders_agree :
    (∀ v : Json (Finite N), Clean v → ∃ (text : JsString) (parsed : Json N),
      Written (Input.ofJson v) text ∧ parseJson text = some parsed ∧ parsed.Same (meaning v) ∧
        Written (Input.ofJson (mapNumbers Finite.value parsed)) text) ∧
    ∀ v w : Json (Finite N), Clean v → Clean w →
      (jcsCanonicalize (Input.ofJson v) = jcsCanonicalize (Input.ofJson w) ↔ (meaning v).Same (meaning w)) := by
  constructor
  · intro v hv
    have hmeaning : Clean (meaning v) := hv.mapNumbers Finite.read
    have hparsed := hmeaning.canonical
    refine ⟨(meaning v).serialize, (meaning v).canonical, written hv, parseJson_serialize hmeaning.proper, ?_, ?_⟩
    · have hback := parseJson_serialize hparsed.proper
      rw [serialize_canonical hmeaning.proper, parseJson_serialize hmeaning.proper] at hback
      exact (same_iff hparsed.proper hmeaning.proper).mpr (Option.some.inj hback).symm
    · have hagain := written (hparsed.mapNumbers Finite.value)
      rw [meaning_value hparsed] at hagain
      rw [← serialize_canonical hmeaning.proper]
      exact hagain
  · intro v w hv hw
    have hmv : (meaning v).Proper := (hv.mapNumbers Finite.read).proper
    have hmw : (meaning w).Proper := (hw.mapNumbers Finite.read).proper
    rw [(written hv).signedObjects, (written hw).signedObjects, Except.ok.injEq]
    exact (serialize_eq_iff hmv hmw).trans (same_iff hmv hmw).symm

end Agreement

section Sample

instance : Zero Double := ⟨.whole 0 0 zero_small unshifted⟩

/-- Names like integers, a pair of surrogates and the negative zero. -/
def valueSample : Json (Finite Double) :=
  .obj [(js "10", .num .negativeZero), (js "9", .arr [.str [0xD83D, 0xDE00], .null]), (js "b", .obj [])]

def reorderedSample : Json (Finite Double) :=
  .obj [(js "b", .obj []), (js "10", .num (.value 0)), (js "9", .arr [.str [0xD83D, 0xDE00], .null])]

lemma valueSample_clean : Clean valueSample := by
  have harr : Clean (.arr [.str [0xD83D, 0xDE00], .null] : Json (Finite Double)) :=
    .arr (by simp [Clean.null, Clean.str (by decide : isUnicodeScalarString [0xD83D, 0xDE00] = true)])
  have hobj : Clean (.obj [] : Json (Finite Double)) := .obj (by simp) (by simp) (by simp)
  refine .obj (by decide) ?_ ?_
  · simp only [List.forall_mem_cons, PlainKey]
    exact ⟨by decide, by decide, by decide, by simp⟩
  · simp only [List.forall_mem_cons]
    exact ⟨.num _, harr, hobj, by simp⟩

lemma reorderedSample_clean : Clean reorderedSample := by
  obtain ⟨hnum, hrest⟩ := List.forall_mem_cons.mp (members_clean valueSample_clean)
  obtain ⟨harr, hrest⟩ := List.forall_mem_cons.mp hrest
  obtain ⟨hobj, -⟩ := List.forall_mem_cons.mp hrest
  refine .obj (by decide) ?_ ?_
  · simp only [List.forall_mem_cons, PlainKey]
    exact ⟨by decide, by decide, by decide, by simp⟩
  · simp only [List.forall_mem_cons]
    exact ⟨hobj, .num _, harr, by simp⟩

lemma sample_same : (meaning valueSample).Same (meaning reorderedSample) := by
  have hv : (meaning valueSample).Proper := (valueSample_clean.mapNumbers Finite.read).proper
  have hw : (meaning reorderedSample).Proper := (reorderedSample_clean.mapNumbers Finite.read).proper
  rw [same_iff hv hw]
  rfl

theorem encoders_agree_sample :
    (∃ (text : JsString) (parsed : Json Double), @Written Double exactNumbers _ (Input.ofJson valueSample) text ∧
      @parseJson Double exactNumbers text = some parsed ∧ parsed.Same (meaning valueSample) ∧
        @Written Double exactNumbers _ (Input.ofJson (mapNumbers Finite.value parsed)) text) ∧
      @jcsCanonicalize Double exactNumbers _ (Input.ofJson valueSample) =
        @jcsCanonicalize Double exactNumbers _ (Input.ofJson reorderedSample) := by
  refine ⟨(@encoders_agree Double exactNumbers _).1 valueSample valueSample_clean, ?_⟩
  exact ((@encoders_agree Double exactNumbers _).2 _ _ valueSample_clean reorderedSample_clean).mpr sample_same

end Sample

end TinyCloud.Encoders

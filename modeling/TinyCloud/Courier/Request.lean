import TinyCloud.Policy.Compact

/-!
# Approval requests

The text rules, canonical targets, stored fields and canonical JSON of `me/requests/<id>.json`.
A number is kept as its literal; SHA-256, NFC, `Date.parse`, the number printer and the table of
allowed code points are parameters.
-/

namespace TinyCloud.Courier

open TinyCloud.Text
open TinyCloud.Policy (isWhitespace)

/-- A JSON number as it is written. -/
structure Numeral where
  literal : JsString
  valid : isNumberLiteral literal = true

instance : NumberFormat Numeral where
  text n := n.literal
  read s := if h : isNumberLiteral s = true then some ⟨s, h⟩ else none
  literal_text n := n.valid
  read_text n := by simp [n.valid]

abbrev Value := Json Numeral
abbrev Record := List (JsString × Value)

structure Platform where
  sha256Hex : Bytes → JsString
  nfc : JsString → JsString
  /-- `none` is `NaN`. -/
  dateParse : JsString → Option ℤ
  /-- `JSON.stringify` of the number; `none` where it is not finite. -/
  numberText : Numeral → Option JsString
  textAllowedRanges : Array (ℕ × ℕ)

def Record.get (record : Record) (key : String) : Option Value := record.lookup (js key)

def Record.has (record : Record) (key : String) : Bool := (record.get key).isSome

def isRecord : Value → Option Record
  | .obj members => some members
  | _ => none

def asString : Value → Option JsString
  | .str s => some s
  | _ => none

def Record.text (record : Record) (key : String) : Option JsString := (record.get key).bind asString

section Units

def isUpper (u : CodeUnit) : Bool := decide (65 ≤ u.toNat ∧ u.toNat ≤ 90)
def isLower (u : CodeUnit) : Bool := decide (97 ≤ u.toNat ∧ u.toNat ≤ 122)
def isAlnum (u : CodeUnit) : Bool := isDigit u || isUpper u || isLower u
def isLowerAlnum (u : CodeUnit) : Bool := isDigit u || isLower u
def isLowerHex (u : CodeUnit) : Bool := isDigit u || decide (97 ≤ u.toNat ∧ u.toNat ≤ 102)
def oneOf (s : String) (u : CodeUnit) : Bool := (js s).contains u

/-- `\n`, `\r` and the two separators, which `.` does not match. -/
def isLineEnd (u : CodeUnit) : Bool := u == 10 || u == 13 || u == 0x2028 || u == 0x2029

def lowerUnit (u : CodeUnit) : CodeUnit := if isUpper u then u + 32 else u

/-- `toLowerCase` of ASCII text. -/
def toLower (s : JsString) : JsString := s.map lowerUnit

def trim (s : JsString) : JsString := ((s.dropWhile isWhitespace).reverse.dropWhile isWhitespace).reverse

/-- `[p]+` -/
def isWord (p : CodeUnit → Bool) (s : JsString) : Bool := !s.isEmpty && s.all p

def after (start : String) (s : JsString) : Option JsString :=
  if (js start).isPrefixOf s then some (s.drop (js start).length) else none

def includes (part : JsString) : JsString → Bool
  | [] => part.isEmpty
  | u :: s => part.isPrefixOf (u :: s) || includes part s

/-- The text before and after the first `u`. -/
def cut (u : CodeUnit) (s : JsString) : Option (JsString × JsString) :=
  match s.dropWhile (· != u) with
  | [] => none
  | _ :: rest => some (s.takeWhile (· != u), rest)

/-- `\S(.*\S)?` -/
def isFreeText (s : JsString) : Bool :=
  !s.isEmpty && !s.head?.any isWhitespace && !s.getLast?.any isWhitespace && !s.any isLineEnd

/-- `\S.*` -/
def isStarted (s : JsString) : Bool :=
  !s.isEmpty && !s.head?.any isWhitespace && !s.any isLineEnd

end Units

section Target

def VERBS : List JsString := [js "merge", js "deploy", js "publish", js "spend", js "other"]

def isRepoUnit (u : CodeUnit) : Bool := isAlnum u || oneOf "_.-" u
def isSegUnit (u : CodeUnit) : Bool := isAlnum u || oneOf "_.@/+-" u

/-- `[a-z0-9~][a-z0-9._~-]*` -/
def isNpmPart (s : JsString) : Bool :=
  match s with
  | [] => false
  | u :: rest => (isLowerAlnum u || oneOf "~" u) && rest.all (fun v => isLowerAlnum v || oneOf "._~-" v)

def isNpmName (s : JsString) : Bool :=
  match s with
  | 64 :: rest => (cut 47 rest).any (fun (scope, name) => isNpmPart scope && isNpmPart name)
  | _ => isNpmPart s

def isVersion (s : JsString) : Bool :=
  match s with
  | [] => false
  | u :: rest => isAlnum u && rest.all (fun v => isAlnum v || oneOf ".+_-" v)

def isHidden (u : CodeUnit) : Bool :=
  let n := u.toNat
  n ≤ 0x1f || (0x7f ≤ n && n ≤ 0x9f) || (0x202a ≤ n && n ≤ 0x202e) || (0x2066 ≤ n && n ≤ 0x2069)

/-- A PR number as the digits written, leading zeros stripped; 1 to 9 digits. -/
def prNumber (digits : JsString) : Option JsString :=
  let stripped := digits.dropWhile (· == 48)
  if stripped.isEmpty || 9 < stripped.length then none else some stripped

/-- `owner/repo` and what follows it. -/
def ownerRepo (u : CodeUnit) (s : JsString) : Option (JsString × JsString × JsString) := do
  let (owner, rest) ← cut 47 s
  let (repo, rest) ← cut u rest
  if isWord isRepoUnit owner && isWord isRepoUnit repo then some (owner, repo, rest) else none

/-- The case-insensitive form of a GitHub PR URL, read from lower-cased text. -/
def pullUrl (t : JsString) : Option (JsString × JsString × JsString) := do
  let rest ← after "https://github.com/" t <|> after "http://github.com/" t
  let (owner, repo, rest) ← ownerRepo 47 rest
  let rest ← after "pull/" rest
  let digits := rest.takeWhile isDigit
  let tail := rest.dropWhile isDigit
  if !digits.isEmpty && tail.head?.all (oneOf "/?#") && !tail.any isLineEnd then some (owner, repo, digits)
  else none

def mergeTarget (t : JsString) : Option JsString :=
  match pullUrl (toLower t) with
  | some (owner, repo, digits) => (prNumber digits).map fun n => owner ++ js "/" ++ repo ++ js "#" ++ n
  | none =>
    match (ownerRepo 35 t).filter (fun m => isWord isDigit m.2.2) with
    | some (owner, repo, digits) =>
      (prNumber digits).map fun n => toLower (owner ++ js "/" ++ repo ++ js "#" ++ n)
    | none =>
      match (ownerRepo 64 t).filter (fun m => isWord isSegUnit m.2.2 || m.2.2 == js "*") with
      | some (owner, repo, branch) => some (toLower (owner ++ js "/" ++ repo) ++ js "@" ++ branch)
      | none => none

/-- `^script:([^:\s]+):([^:\s]+)$` -/
def scriptTarget (t : JsString) : Option JsString := do
  let (package, script) ← (← after "script:" t) |> cut 58
  let part := isWord (fun u => u != 58 && !isWhitespace u)
  if part package && part script then some (js "script:" ++ package ++ js ":" ++ script) else none

/-- A package name and its version; the version has no `@`. -/
def npmTarget (t : JsString) : Option JsString := do
  let (version, name) ← cut 64 (← after "npm:" t).reverse
  if isNpmName name.reverse && isVersion version.reverse then
    some (js "npm:" ++ name.reverse ++ js "@" ++ version.reverse)
  else none

def releaseTarget (t : JsString) : Option JsString := do
  let (owner, repo, tag) ← ownerRepo 64 (← after "release:" t)
  if isWord isSegUnit tag then some (toLower (js "release:" ++ owner ++ js "/" ++ repo) ++ js "@" ++ tag)
  else none

def changesetTarget (t : JsString) : Option JsString := do
  let name ← after "changeset:" t
  if isNpmName name then some (js "changeset:" ++ name) else none

def publishTarget (t : JsString) : Option JsString :=
  npmTarget t <|> releaseTarget t <|> changesetTarget t <|> scriptTarget t

def wranglerTarget (t : JsString) : Option JsString := do
  let rest ← after "wrangler:" t
  match cut 58 rest with
  | none => if isWord isRepoUnit rest then some (js "wrangler:" ++ rest) else none
  | some (worker, env) =>
    if isWord isRepoUnit worker && isWord isRepoUnit env then
      some (js "wrangler:" ++ worker ++ js ":" ++ env)
    else none

def pagesTarget (kind : String) (t : JsString) : Option JsString := do
  let name ← after kind t
  if isWord isRepoUnit name then some (js kind ++ name) else none

def deployTarget (t : JsString) : Option JsString :=
  wranglerTarget t <|> pagesTarget "pages:" t <|> pagesTarget "phala:" t <|> scriptTarget t

def workflowTarget (t : JsString) : Option JsString := do
  let (owner, repo, file) ← ownerRepo 58 (← after "workflow:" t)
  if isWord isSegUnit file then some (toLower (js "workflow:" ++ owner ++ js "/" ++ repo) ++ js ":" ++ file)
  else none

/-- `replace(/\s+/g, ' ')` -/
def collapseSpaces : Bool → JsString → JsString
  | _, [] => []
  | inSpace, u :: s =>
    if isWhitespace u then (if inSpace then collapseSpaces true s else 32 :: collapseSpaces true s)
    else u :: collapseSpaces false s

def secretsTarget (t : JsString) : Option JsString := do
  let rest ← after "secrets:" t
  if isFreeText rest then some (js "secrets:" ++ collapseSpaces false rest) else none

/-- `^[a-z][a-z0-9-]{0,30}:\S(.*\S)?$` -/
def isKindTarget (t : JsString) : Bool :=
  (cut 58 t).any fun (kind, rest) =>
    kind.head?.any isLower && kind.tail.length ≤ 30 && kind.tail.all (fun u => isLowerAlnum u || u == 45) &&
      isFreeText rest

def otherTarget (t : JsString) : Option JsString :=
  workflowTarget t <|> secretsTarget t <|> (if isKindTarget t then some t else none)

def isSpendTarget (t : JsString) : Bool := (after "spend:" t).any isFreeText

/-- The one spelling of `raw` for `verb`; `none` is the usage error. -/
def canonicalTarget (verb raw : JsString) : Option JsString :=
  if VERBS.contains verb then
    let t := trim raw
    if t.isEmpty || 200 < t.length || t.any isHidden then none
    else if verb = js "merge" then mergeTarget t
    else if verb = js "publish" then publishTarget t
    else if verb = js "deploy" then deployTarget t
    else if verb = js "other" then otherTarget t
    else if isSpendTarget t then some t
    else none
  else none

end Target

section Text

variable (P : Platform)

inductive TextField
  | summary
  | multiline
  | target
  deriving DecidableEq

inductive TextReason
  | notString
  | empty
  | tooLong
  | edgeWhitespace
  | notNfc
  | disallowedCodePoint
  deriving DecidableEq

def MAX_SUMMARY : ℕ := 200
def MAX_ACTION : ℕ := 2000
def MAX_REASON : ℕ := 2000
def MAX_RISK : ℕ := 2000

def codePoints : JsString → List ℕ
  | u :: v :: s =>
    if highSurrogate u && lowSurrogate v then surrogatePair u v :: codePoints s
    else u.toNat :: codePoints (v :: s)
  | [u] => [u.toNat]
  | [] => []

/-- The binary search; `high` is one past the last index still open. -/
def inRanges (ranges : Array (ℕ × ℕ)) (cp : ℕ) : ℕ → ℕ → ℕ → Bool
  | 0, _, _ => false
  | fuel + 1, low, high =>
    if low < high then
      let mid := (low + high - 1) / 2
      match ranges[mid]? with
      | none => false
      | some (start, stop) =>
        if cp < start then inRanges ranges cp fuel low mid
        else if stop < cp then inRanges ranges cp fuel (mid + 1) high
        else true
    else false

def isSummaryPoint (cp : ℕ) : Bool :=
  cp == 0x20 || isAlnum (UInt16.ofNat cp) || oneOf ".,:;-_/#()?!'" (UInt16.ofNat cp)

def textCodePointAllowed (cp : ℕ) (field : TextField) : Bool :=
  if 0x10ffff < cp then false
  else if cp = 10 then field == .multiline
  else if 0x20 ≤ cp ∧ cp ≤ 0x7e then field != .summary || isSummaryPoint cp
  else if field = .target then false
  else inRanges P.textAllowedRanges cp (P.textAllowedRanges.size + 1) 0 P.textAllowedRanges.size

def contentReason (value : JsString) (field : TextField) : Option TextReason :=
  if (codePoints value).any (fun cp => !textCodePointAllowed P cp field) then some .disallowedCodePoint
  else if value ≠ P.nfc value then some .notNfc
  else none

def hasEdgeSpace (value : JsString) : Bool := value.head? == some 32 || value.getLast? == some 32

/-- The reason of a `textVerdict` that refuses. -/
def textVerdict (value : Option Value) (field : TextField) : Option TextReason :=
  match value.bind asString with
  | none => some .notString
  | some value =>
    if value.isEmpty then some .empty
    else if (if field = .multiline then MAX_ACTION else MAX_SUMMARY) < value.length then some .tooLong
    else if field ≠ .multiline ∧ hasEdgeSpace value then some .edgeWhitespace
    else contentReason P value field

def hiddenTextProblem (value : JsString) (multiline : Bool) : Option TextReason :=
  if !multiline && value.contains 10 then some .disallowedCodePoint
  else contentReason P value .multiline

def plainLineProblem (value : Option Value) (max : ℕ) : Option TextReason :=
  match value.bind asString with
  | none => some .notString
  | some value =>
    if value.isEmpty then some .empty
    else if max < value.length then some .tooLong
    else if hasEdgeSpace value then some .edgeWhitespace
    else hiddenTextProblem P value false

def plainTextProblem (value : Option Value) (max : ℕ) : Option TextReason :=
  if (value.bind asString).any (fun s => max < s.length) then some .tooLong
  else textVerdict P value .multiline

def summaryProblem (value : Option Value) : Option TextReason := textVerdict P value .summary

def asciiTargetProblem (value : Option Value) : Option TextReason := textVerdict P value .target

def isHeadSha (value : JsString) : Bool := value.length == 40 && value.all isLowerHex

def headShaProblem (value : Option Value) : Bool := !(value.bind asString).any isHeadSha

def isBranchPart (part : JsString) : Bool :=
  !part.isEmpty && part.head? != some 46 && !(js ".lock").isSuffixOf part

def isBaseBranch (value : JsString) : Bool :=
  1 ≤ value.length && value.length ≤ 100 && value.all (fun u => isAlnum u || oneOf "._/-" u) &&
    value.head? != some 45 && value.getLast? != some 46 && !includes (js "..") value &&
    value != js "HEAD" && (value.splitOn 47).all isBranchPart

def baseBranchProblem (value : Option Value) : Bool := !(value.bind asString).any isBaseBranch

def startsAnd (rest : JsString → Bool) (starts : List String) (target : JsString) : Bool :=
  starts.any fun start => (after start target).any rest

def isMergeShape (target : JsString) : Bool :=
  (cut 47 target).any fun (owner, rest) =>
    let repo := rest.takeWhile isRepoUnit
    isWord isRepoUnit owner && !repo.isEmpty &&
      match rest.dropWhile isRepoUnit with
      | 35 :: digits => isWord isDigit digits
      | 64 :: branch => isWord (fun u => isSegUnit u || u == 42) branch
      | _ => false

/-- Whether the target misses the shape of its verb. -/
def targetShapeProblem (verb target : JsString) : Bool :=
  if verb = js "merge" then !isMergeShape target
  else if verb = js "publish" then
    !startsAnd isStarted ["npm:", "release:", "changeset:", "script:"] target
  else if verb = js "deploy" then !startsAnd isStarted ["wrangler:", "pages:", "phala:", "script:"] target
  else if verb = js "other" then !isKindTarget target
  else if verb = js "spend" then !isSpendTarget target
  else true

end Text

section Canonical

variable (P : Platform)

def MAX_CANONICAL_DEPTH : ℕ := 64

mutual
/-- `none` is `canonical-invalid`: a number that is not finite, or too deep a value. -/
def canonicalize (depth : ℕ) : Value → Option JsString
  | .null => some (js "null")
  | .bool true => some (js "true")
  | .bool false => some (js "false")
  | .num n => P.numberText n
  | .str s => some (quote s)
  | .arr items =>
    if MAX_CANONICAL_DEPTH < depth then none
    else (canonicalizeItems (depth + 1) items).map fun texts => 91 :: (joinComma texts ++ [93])
  | .obj members =>
    if MAX_CANONICAL_DEPTH < depth then none
    else (canonicalizeMembers (depth + 1) members).map fun entries =>
      123 :: (joinComma ((entries.insertionSort KeyLe).map fun m => quote m.1 ++ 58 :: m.2) ++ [125])
def canonicalizeItems (depth : ℕ) : List Value → Option (List JsString)
  | [] => some []
  | v :: items => do some ((← canonicalize depth v) :: (← canonicalizeItems depth items))
def canonicalizeMembers (depth : ℕ) : List (JsString × Value) → Option (List (JsString × JsString))
  | [] => some []
  | (k, v) :: members => do some ((k, ← canonicalize depth v) :: (← canonicalizeMembers depth members))
end

def canonicalJson (value : Value) : Option JsString := canonicalize P 1 value

def requestHash (request : Value) : Option JsString :=
  (canonicalJson P request).map fun text => P.sha256Hex (textEncode text)

mutual
/-- Every string, keys and values, down to 128 levels. -/
def allStrings (depth : ℕ) : Value → List JsString
  | .str s => if 128 < depth then [] else [s]
  | .arr items => if 128 < depth then [] else allStringsItems (depth + 1) items
  | .obj members => if 128 < depth then [] else allStringsMembers (depth + 1) members
  | _ => []
def allStringsItems (depth : ℕ) : List Value → List JsString
  | [] => []
  | v :: items => allStrings depth v ++ allStringsItems depth items
def allStringsMembers (depth : ℕ) : List (JsString × Value) → List JsString
  | [] => []
  | (k, v) :: members => k :: (allStrings depth v ++ allStringsMembers depth members)
end

end Canonical

section Stored

def isUlidUnit (u : CodeUnit) : Bool := isDigit u || (isUpper u && !oneOf "ILOU" u)
def isUlid (s : JsString) : Bool := s.length == 26 && s.all isUlidUnit
def isHandle (s : JsString) : Bool :=
  1 ≤ s.length && s.length ≤ 64 && s.all (fun u => isAlnum u || oneOf "_-" u)

def REQUEST_KEYS : List String :=
  ["id", "peer", "threadId", "taskId", "verb", "target", "summary", "action", "reason", "risk",
    "requestedBy", "createdAt", "expiresAt", "status"]
def OPTIONAL_KEYS : List String := ["action", "reason", "risk"]
def MERGE_REQUEST_KEYS : List String := REQUEST_KEYS ++ ["headSha", "base"]

inductive ShapeProblem
  | unknownKey (key : JsString)
  | lacksPins
  | missingKey (key : String)
  | notString (key : String)
  | requestedBy
  | requestedByKeys
  | requestedByValues
  | status
  | notUlid (key : String)
  | notHandle

def isTextAt (record : Record) (key : String) : Bool := (record.text key).isSome

def requestedByProblem (request : Record) : Option ShapeProblem :=
  match (request.get "requestedBy").bind isRecord with
  | none => some .requestedBy
  | some requestedBy =>
    if requestedBy.length ≠ 2 ∨ !requestedBy.has "owner" ∨ !requestedBy.has "agent" then
      some .requestedByKeys
    else if !isTextAt requestedBy "owner" || !isTextAt requestedBy "agent" then some .requestedByValues
    else none

def requestShapeProblem (request : Record) : Option ShapeProblem :=
  let isMerge := request.text "verb" == some (js "merge")
  let allowedKeys := if isMerge then MERGE_REQUEST_KEYS else REQUEST_KEYS
  match request.find? fun m => !(allowedKeys.map js).contains m.1 with
  | some m => some (.unknownKey m.1)
  | none =>
    if isMerge && (!request.has "headSha" || !request.has "base") then some .lacksPins
    else
      match allowedKeys.find? fun key => !OPTIONAL_KEYS.contains key && !request.has key with
      | some key => some (.missingKey key)
      | none =>
        match allowedKeys.find? fun key =>
          key != "requestedBy" && request.has key && !isTextAt request key with
        | some key => some (.notString key)
        | none =>
          match requestedByProblem request with
          | some problem => some problem
          | none =>
            if request.text "status" ≠ some (js "pending") then some .status
            else
              match ["id", "threadId", "taskId"].find? fun key => !(request.text key).any isUlid with
              | some key => some (.notUlid key)
              | none => if !(request.text "peer").any isHandle then some .notHandle else none

structure Pins where
  headSha : JsString
  base : JsString
  deriving DecidableEq

/-- The pins of a merge. -/
structure RequestFields where
  verb : JsString
  target : JsString
  summary : JsString
  pins : Option Pins
  deriving DecidableEq

def storedPins (verb : JsString) (request : Record) : Option (Option Pins) :=
  if verb = js "merge" then
    if headShaProblem (request.get "headSha") || baseBranchProblem (request.get "base") then none
    else do some (some ⟨← request.text "headSha", ← request.text "base"⟩)
  else if request.has "headSha" || request.has "base" then none
  else some none

def storedRequestFields (P : Platform) (request : Record) : Option RequestFields := do
  let verb ← (request.text "verb").filter VERBS.contains
  let target ← (request.text "target").filter fun target =>
    (asciiTargetProblem P (some (.str target))).isNone && !targetShapeProblem verb target
  let summary ← (request.text "summary").filter fun _ => (summaryProblem P (request.get "summary")).isNone
  if canonicalTarget verb target ≠ some target then none
  else
    let pins ← storedPins verb request
    some ⟨verb, target, summary, pins⟩

end Stored

end TinyCloud.Courier

import TinyCloud.Kv.ListCursor
import TinyCloud.Text.ByteOrder
import TinyCloud.Text.Decimal
import Mathlib.Data.Finset.Card

/-! Local lists are served from a handle in pages: the exact key of the path, then what is below it, in UTF-8 order. -/

namespace TinyCloud.Kv

open TinyCloud.Text

section Lists

structure ListOptions where
  folder : JsString
  after : Option JsString
  limit : Option ℕ

structure LocalListResult (M : Type) where
  keys : List JsString
  meta_ : M

structure KVListPage where
  keys : List JsString
  truncated : Bool
  nextCursor : Option JsString

def KeySorted (keys : List JsString) : Prop := keys.Pairwise fun a b => byteValues a ≤ byteValues b

instance : DecidablePred KeySorted := fun _ => inferInstanceAs (Decidable (List.Pairwise _ _))

def After (after : Option JsString) (k : JsString) : Prop := ∀ a ∈ after, 0 < utf8Compare k a

/-- The keys of a prefix behind `after`, in order, up to the limit. -/
def Serves (live : Finset JsString) (o : ListOptions) (keys : List JsString) : Prop :=
  ∃ all : List JsString, all.Nodup ∧ KeySorted all ∧ (∀ k, k ∈ all ↔ k ∈ live ∧ o.folder <+: k ∧ After o.after k) ∧
    keys = match o.limit with
      | none => all
      | some n => all.take n

/-- A handle that lists the live keys. -/
structure Handle (M : Type) (live : Finset JsString) where
  list : ListOptions → LocalListResult M
  serves : ∀ o, Serves live o (list o).keys

def endsWithSlash (path : JsString) : Bool := path.getLast? == some 47

/-- LIST returns its exact path plus descendants below its slash-terminated path. -/
def listRangeCovers (path key : JsString) : Bool :=
  path == [] || key == path || (if endsWithSlash path then path else path ++ [47]).isPrefixOf key

variable {M E : Type} {live : Finset JsString} (handle : Handle M live) (validateMeta : M → Except E Unit)

def awaitExact (path : JsString) (after : Option JsString) : Except E Bool := do
  if after.any fun a => utf8Compare path a ≤ 0 then return false
  let result := handle.list ⟨path, none, some 1⟩
  validateMeta result.meta_
  return result.keys.head? == some path

variable [NumberFormat Double]

def localList (space path : JsString) (limit : Option ℕ) (cursor : Option JsString) : Except E KVListPage := do
  let after := (cursor.filter (· ≠ [])).bind fun cursor => (decodeTcr1 cursor).map (·.last)
  let hasExact ← if path ≠ [] && !endsWithSlash path && (after.all fun a => 0 < utf8Compare path a)
    then awaitExact handle validateMeta path after else pure false
  let child := if path = [] then [] else if endsWithSlash path then path else path ++ [47]
  let want := limit.map fun limit => limit + 1 - (if hasExact then 1 else 0)
  let children := handle.list ⟨child, after, want⟩
  validateMeta children.meta_
  let keys := (if hasExact then [path] else []) ++ children.keys
  let truncated := limit.any (· < keys.length)
  let keys := if truncated then keys.take (limit.getD 0) else keys
  return ⟨keys, truncated, if truncated then some (encodeTcr1 space path (keys.getLastD [])) else none⟩

/-- The pages from a cursor on, each asked for with the cursor of the one before. -/
def listAll (space path : JsString) (limit : ℕ) : ℕ → Option JsString → Except E (Option (List KVListPage))
  | 0, _ => return none
  | fuel + 1, cursor => do
    let page ← localList handle validateMeta space path (some limit) cursor
    match page.nextCursor with
    | none => return some [page]
    | some next => return (← listAll space path limit fuel (some next)).map (page :: ·)

/-- The pages hold the covered keys in order and each once, and their cursors the last keys. -/
structure ExactPages (live : Finset JsString) (space path : JsString) (limit : ℕ) (pages : List KVListPage) : Prop where
  nodup : (pages.flatMap (·.keys)).Nodup
  sorted : KeySorted (pages.flatMap (·.keys))
  covered : ∀ k, k ∈ pages.flatMap (·.keys) ↔ k ∈ live ∧ listRangeCovers path k = true
  bounded : ∀ page ∈ pages, page.keys.length ≤ limit
  cursors : ∀ page ∈ pages, ∀ next, page.nextCursor = some next →
    ∃ last, page.keys.getLast? = some last ∧ decodeTcr1 next = some ⟨space, path, last⟩

end Lists

section Order

variable {live : Finset JsString} {path : JsString} {after : Option JsString}

lemma after_iff {k : JsString} : After after k ↔ ∀ a ∈ after, byteValues a < byteValues k := by
  simp only [After, utf8Compare_pos]

lemma eq_of_sorted (hlive : Set.InjOn textEncode (live : Set JsString)) {l m : List JsString} (hl : l.Nodup) (hm : m.Nodup)
    (hls : KeySorted l) (hms : KeySorted m) (hsub : ∀ k ∈ l, k ∈ live) (h : ∀ k, k ∈ l ↔ k ∈ m) : l = m := by
  apply List.Perm.eq_of_pairwise _ hls hms ((List.perm_ext_iff_of_nodup hl hm).mpr h)
  intro a b ha hb hab hba
  exact hlive (hsub a ha) (hsub b ((h b).mpr hb)) (byteValues_inj.mp (le_antisymm hab hba))

/-- The covered keys behind `after`, in order. -/
structure Remaining (live : Finset JsString) (path : JsString) (after : Option JsString) (keys : List JsString) : Prop where
  nodup : keys.Nodup
  sorted : KeySorted keys
  covered : ∀ k, k ∈ keys ↔ k ∈ live ∧ listRangeCovers path k = true ∧ After after k

/-- The first key below a path that is live is the path. -/
lemma head_exact (hlive : Set.InjOn textEncode (live : Set JsString)) {keys : List JsString}
    (h : Serves live ⟨path, none, some 1⟩ keys) : (keys.head? == some path) = decide (path ∈ live) := by
  obtain ⟨all, -, hsorted, hmem, rfl⟩ := h
  have hin : ∀ k, k ∈ all ↔ k ∈ live ∧ path <+: k := fun k => by
    simpa [After] using hmem k
  cases all with
  | nil =>
    have hpath : path ∉ live := fun hp => List.not_mem_nil ((hin path).mpr ⟨hp, List.prefix_rfl⟩)
    simp [hpath]
  | cons first all =>
    obtain ⟨hfirst, hbegins⟩ := (hin first).mp List.mem_cons_self
    rw [Bool.eq_iff_iff, beq_iff_eq, decide_eq_true_eq]
    change some first = some path ↔ _
    rw [Option.some.injEq]
    constructor
    · rintro rfl
      exact hfirst
    · intro hp
      rcases List.mem_cons.mp ((hin path).mpr ⟨hp, List.prefix_rfl⟩) with h | h
      · exact h.symm
      · have hle := (List.pairwise_cons.mp hsorted).1 path h
        exact hlive hfirst hp (byteValues_inj.mp (le_antisymm hle (byteValues_of_prefix_le hbegins)))

/-- What is asked for below a path. -/
def childFolder (path : JsString) : JsString := if path = [] then [] else if endsWithSlash path then path else path ++ [47]

def asksExact (path : JsString) (after : Option JsString) : Bool :=
  path ≠ [] && !endsWithSlash path && (after.all fun a => 0 < utf8Compare path a)

lemma asksExact_iff : asksExact path after = true ↔ path ≠ [] ∧ endsWithSlash path = false ∧ After after path := by
  cases after <;> simp [asksExact, After, and_assoc]

lemma covers_iff {k : JsString} : listRangeCovers path k = true ↔
    childFolder path <+: k ∨ (path ≠ [] ∧ endsWithSlash path = false ∧ k = path) := by
  unfold listRangeCovers childFolder
  rw [Bool.or_eq_true, Bool.or_eq_true, beq_iff_eq, beq_iff_eq, List.isPrefixOf_iff_prefix]
  by_cases hnil : path = []
  · simp [hnil]
  by_cases hslash : endsWithSlash path = true
  · simp only [hnil, hslash, if_true, if_false, false_or, ne_eq, not_false_eq_true, Bool.true_eq_false, false_and,
      and_false, or_false]
    constructor
    · rintro (rfl | h)
      · exact List.prefix_rfl
      · exact h
    · exact .inr
  · rw [Bool.not_eq_true] at hslash
    simp only [hnil, hslash, if_false, false_or, ne_eq, not_false_eq_true, true_and]
    exact or_comm

lemma path_prefix_child : path <+: childFolder path := by
  unfold childFolder
  split_ifs with hnil
  · rw [hnil]
  · exact List.prefix_rfl
  · exact List.prefix_append _ _

lemma not_child_path (hnil : path ≠ []) (hslash : endsWithSlash path = false) : ¬childFolder path <+: path := by
  intro h
  have hlen := h.length_le
  rw [childFolder, if_neg hnil, hslash, if_neg Bool.false_ne_true, List.length_append] at hlen
  simp at hlen

/-- The exact key and what is below the path are the covered keys. -/
lemma remaining_split {children : List JsString} (hnodup : children.Nodup) (hsorted : KeySorted children)
    (hmem : ∀ k, k ∈ children ↔ k ∈ live ∧ childFolder path <+: k ∧ After after k) :
    Remaining live path after ((if asksExact path after && decide (path ∈ live) then [path] else []) ++ children) := by
  split_ifs with h
  · rw [Bool.and_eq_true, asksExact_iff, decide_eq_true_eq] at h
    obtain ⟨⟨hnil, hslash, hafter⟩, hlive⟩ := h
    have hnot : path ∉ children := fun hin => not_child_path hnil hslash ((hmem path).mp hin).2.1
    refine ⟨List.nodup_cons.mpr ⟨hnot, hnodup⟩, List.pairwise_cons.mpr ⟨fun k hk => ?_, hsorted⟩, fun k => ?_⟩
    · exact byteValues_of_prefix_le (path_prefix_child.trans ((hmem k).mp hk).2.1)
    · rw [List.singleton_append, List.mem_cons, hmem, covers_iff]
      constructor
      · rintro (rfl | ⟨hk, hchild, ha⟩)
        · exact ⟨hlive, .inr ⟨hnil, hslash, rfl⟩, hafter⟩
        · exact ⟨hk, .inl hchild, ha⟩
      · rintro ⟨hk, hchild | ⟨-, -, rfl⟩, ha⟩
        · exact .inr ⟨hk, hchild, ha⟩
        · exact .inl rfl
  · refine ⟨hnodup, hsorted, fun k => ?_⟩
    rw [List.nil_append, hmem, covers_iff]
    constructor
    · rintro ⟨hk, hchild, ha⟩
      exact ⟨hk, .inl hchild, ha⟩
    · rintro ⟨hk, hchild | ⟨hnil, hslash, rfl⟩, ha⟩
      · exact ⟨hk, hchild, ha⟩
      · refine absurd ?_ h
        rw [Bool.and_eq_true, asksExact_iff, decide_eq_true_eq]
        exact ⟨⟨hnil, hslash, ha⟩, hk⟩

end Order

section Pages

variable {M E : Type} {live : Finset JsString} {handle : Handle M live} {validateMeta : M → Except E Unit}
  {space path : JsString} {limit : ℕ} {cursor : Option JsString} {keys : List JsString}

/-- A check of an answer refused it. -/
def Refused (validateMeta : M → Except E Unit) (e : E) : Prop := ∃ m, validateMeta m = .error e

lemma awaitExact_spec (hlive : Set.InjOn textEncode (live : Set JsString)) {after : Option JsString} (hafter : After after path) :
    awaitExact handle validateMeta path after = .ok (decide (path ∈ live)) ∨
      ∃ e, Refused validateMeta e ∧ awaitExact handle validateMeta path after = .error e := by
  have hnot : (after.any fun a => decide (utf8Compare path a ≤ 0)) = false := by
    cases after with
    | none => rfl
    | some a => simpa [After] using hafter
  unfold awaitExact
  rw [hnot, ← head_exact hlive (handle.serves ⟨path, none, some 1⟩)]
  cases hm : validateMeta (handle.list ⟨path, none, some 1⟩).meta_ with
  | error e => exact .inr ⟨e, ⟨_, hm⟩, by simp only [hm]; rfl⟩
  | ok _ => exact .inl (by simp only [hm]; rfl)

variable [NumberFormat Double]

/-- Where a cursor continues. -/
def cursorAfter (cursor : Option JsString) : Option JsString :=
  (cursor.filter (· ≠ [])).bind fun cursor => (decodeTcr1 cursor).map (·.last)

def pageOf (space path : JsString) (limit : ℕ) (keys : List JsString) : KVListPage where
  keys := keys.take limit
  truncated := limit < keys.length
  nextCursor := if limit < keys.length then some (encodeTcr1 space path ((keys.take limit).getLastD [])) else none

/-- The rest of a call that knows about the exact key. -/
def pageFrom (handle : Handle M live) (validateMeta : M → Except E Unit) (space path : JsString) (limit : ℕ)
    (after : Option JsString) (hasExact : Bool) : Except E KVListPage := do
  let children := handle.list ⟨childFolder path, after, some (limit + 1 - (if hasExact then 1 else 0))⟩
  validateMeta children.meta_
  let keys := (if hasExact then [path] else []) ++ children.keys
  let truncated := decide (limit < keys.length)
  let keys := if truncated then keys.take limit else keys
  return ⟨keys, truncated, if truncated then some (encodeTcr1 space path (keys.getLastD [])) else none⟩

lemma localList_eq : localList handle validateMeta space path (some limit) cursor =
    (if asksExact path (cursorAfter cursor) then awaitExact handle validateMeta path (cursorAfter cursor) else pure false) >>=
      pageFrom handle validateMeta space path limit (cursorAfter cursor) := by
  change (if asksExact path (cursorAfter cursor) then _ else _) = _
  by_cases h : asksExact path (cursorAfter cursor) = true
  · rw [if_pos h, if_pos h]
    rfl
  · rw [if_neg h, if_neg h]
    rfl

omit [NumberFormat Double] in
lemma take_split (e : Bool) (all : List JsString) (limit : ℕ) :
    (if e then [path] else []) ++ all.take (limit + 1 - (if e then 1 else 0)) =
      ((if e then [path] else []) ++ all).take (limit + 1) := by
  cases e with
  | false => rfl
  | true => simp only [if_true, List.singleton_append, List.take_succ_cons, Nat.add_sub_cancel]

lemma pageFrom_spec (hlive : Set.InjOn textEncode (live : Set JsString)) {after : Option JsString} {e : Bool}
    (he : e = (asksExact path after && decide (path ∈ live))) (hkeys : Remaining live path after keys) :
    pageFrom handle validateMeta space path limit after e = .ok (pageOf space path limit keys) ∨
      ∃ e', Refused validateMeta e' ∧ pageFrom handle validateMeta space path limit after e = .error e' := by
  obtain ⟨all, hnodup, hsorted, hmem, hall⟩ :=
    handle.serves ⟨childFolder path, after, some (limit + 1 - (if e then 1 else 0))⟩
  have hsplit := remaining_split hnodup hsorted hmem
  rw [← he] at hsplit
  have heq : (if e then [path] else []) ++ all = keys :=
    eq_of_sorted hlive hsplit.nodup hkeys.nodup hsplit.sorted hkeys.sorted (fun k hk => ((hsplit.covered k).mp hk).1)
      fun k => (hsplit.covered k).trans (hkeys.covered k).symm
  unfold pageFrom
  cases hm : validateMeta (handle.list ⟨childFolder path, after, some (limit + 1 - (if e then 1 else 0))⟩).meta_ with
  | error e' => exact .inr ⟨e', ⟨_, hm⟩, by simp only [hm]; rfl⟩
  | ok _ =>
    left
    simp only [hm, hall, take_split, heq]
    change Except.ok _ = Except.ok _
    have hlong : decide (limit < (keys.take (limit + 1)).length) = decide (limit < keys.length) := by
      rw [List.length_take]
      congr 1
      rw [eq_iff_iff]
      omega
    rw [hlong]
    unfold pageOf
    by_cases h : limit < keys.length
    · simp [h, List.take_take]
    · simp [h, List.take_of_length_le (by omega : keys.length ≤ limit), List.take_of_length_le (by omega : keys.length ≤ limit + 1)]

/-- A page is the first of what remains. -/
theorem localList_spec (hlive : Set.InjOn textEncode (live : Set JsString))
    (hkeys : Remaining live path (cursorAfter cursor) keys) :
    localList handle validateMeta space path (some limit) cursor = .ok (pageOf space path limit keys) ∨
      ∃ e, Refused validateMeta e ∧ localList handle validateMeta space path (some limit) cursor = .error e := by
  have hexact : (if asksExact path (cursorAfter cursor) then awaitExact handle validateMeta path (cursorAfter cursor)
      else pure false) = .ok (asksExact path (cursorAfter cursor) && decide (path ∈ live)) ∨
      ∃ e, Refused validateMeta e ∧ (if asksExact path (cursorAfter cursor)
        then awaitExact handle validateMeta path (cursorAfter cursor) else pure false) = .error e := by
    split_ifs with h
    · rw [h, Bool.true_and]
      exact awaitExact_spec hlive (asksExact_iff.mp h).2.2
    · rw [Bool.not_eq_true] at h
      rw [h]
      exact .inl rfl
  rw [localList_eq]
  rcases hexact with h | ⟨e, he, h⟩
  · rw [h]
    exact pageFrom_spec hlive rfl hkeys
  · rw [h]
    exact .inr ⟨e, he, rfl⟩

end Pages

section Walk

variable {M E : Type} {live : Finset JsString} {handle : Handle M live} {validateMeta : M → Except E Unit}
  {space path : JsString} {limit : ℕ} {cursor : Option JsString} {keys : List JsString} [NumberFormat Double]

lemma cursorAfter_encode (space path last : JsString) : cursorAfter (some (encodeTcr1 space path last)) = some last := by
  have hne : encodeTcr1 space path last ≠ [] := by
    intro h
    have hlen := congrArg List.length h
    rw [encodeTcr1, List.length_append, (by decide : (js "tcr1.").length = 5)] at hlen
    simp at hlen
  simp [cursorAfter, Option.filter, hne, decodeTcr1_encodeTcr1]

omit [NumberFormat Double] in
lemma take_concat (hlimit : 1 ≤ limit) (hlong : limit < keys.length) :
    ∃ init last, keys.take limit = init ++ [last] ∧ keys = init ++ last :: keys.drop limit := by
  have hne : keys.take limit ≠ [] := by
    intro h
    have hlen := congrArg List.length h
    rw [List.length_take, List.length_nil] at hlen
    omega
  obtain ⟨init, last, h⟩ := (List.eq_nil_or_concat (keys.take limit)).resolve_left hne
  rw [List.concat_eq_append] at h
  refine ⟨init, last, h, ?_⟩
  have happ := List.take_append_drop limit keys
  rw [h, List.append_assoc, List.singleton_append] at happ
  exact happ.symm

omit [NumberFormat Double] in
/-- What remains behind the last key of a page. -/
lemma Remaining.behind (hlive : Set.InjOn textEncode (live : Set JsString)) {after : Option JsString} {init rest : List JsString}
    {last : JsString} (h : Remaining live path after (init ++ last :: rest)) : Remaining live path (some last) rest := by
  obtain ⟨-, hnodup, hdisjoint⟩ := List.nodup_append.mp h.nodup
  obtain ⟨-, hsorted, hbelow⟩ := List.pairwise_append.mp h.sorted
  obtain ⟨hlast, hrest⟩ := List.pairwise_cons.mp hsorted
  obtain ⟨hnotin, hnodup⟩ := List.nodup_cons.mp hnodup
  have hinlast : last ∈ init ++ last :: rest := by simp
  obtain ⟨hlastlive, -, hlastafter⟩ := (h.covered last).mp hinlast
  refine ⟨hnodup, hrest, fun k => ?_⟩
  rw [after_iff]
  constructor
  · intro hk
    obtain ⟨hklive, hcovers, -⟩ := (h.covered k).mp (by simp [hk])
    refine ⟨hklive, hcovers, fun a ha => ?_⟩
    obtain rfl := Option.some.inj ha
    refine lt_of_le_of_ne (hlast k hk) fun heq => hnotin ?_
    rwa [hlive hlastlive hklive (byteValues_inj.mp heq)]
  · rintro ⟨hklive, hcovers, hafter⟩
    have hlt := hafter last rfl
    have hkafter : After after k := after_iff.mpr fun a ha => (after_iff.mp hlastafter a ha).trans hlt
    have hin := (h.covered k).mpr ⟨hklive, hcovers, hkafter⟩
    rcases List.mem_append.mp hin with hk | hk
    · exact absurd hlt (not_lt.mpr (hbelow k hk last List.mem_cons_self))
    · rcases List.mem_cons.mp hk with rfl | hk
      · exact absurd hlt (lt_irrefl _)
      · exact hk

/-- Enough calls list all that remains, unless an answer is refused. -/
lemma listAll_spec (hlive : Set.InjOn textEncode (live : Set JsString)) (hlimit : 1 ≤ limit) (fuel : ℕ)
    (hkeys : Remaining live path (cursorAfter cursor) keys) (hfuel : keys.length < fuel) :
    (∃ pages, listAll handle validateMeta space path limit fuel cursor = .ok (some pages) ∧
      pages.flatMap (·.keys) = keys ∧ ∀ page ∈ pages, ∃ part, page = pageOf space path limit part) ∨
      ∃ e, Refused validateMeta e ∧ listAll handle validateMeta space path limit fuel cursor = .error e := by
  induction fuel generalizing cursor keys with
  | zero => omega
  | succ fuel ih =>
    rw [listAll]
    rcases localList_spec hlive hkeys with hpage | ⟨e, he, hpage⟩
    · rw [hpage]
      by_cases hlong : limit < keys.length
      · obtain ⟨init, last, htake, hsplit⟩ := take_concat hlimit hlong
        have hnext : (pageOf space path limit keys).nextCursor = some (encodeTcr1 space path last) := by
          simp [pageOf, hlong, htake]
        have hrest : Remaining live path (cursorAfter (some (encodeTcr1 space path last))) (keys.drop limit) := by
          rw [cursorAfter_encode]
          rw [hsplit] at hkeys
          exact hkeys.behind hlive
        have hless : (keys.drop limit).length < fuel := by
          rw [List.length_drop]
          omega
        rcases ih hrest hless with ⟨pages, hpages, hconcat, hparts⟩ | ⟨e, he, hpages⟩
        · left
          refine ⟨pageOf space path limit keys :: pages, ?_, ?_, ?_⟩
          · change (match (pageOf space path limit keys).nextCursor with | none => _ | some next => _) = _
            rw [hnext]
            simp only [hpages]
            rfl
          · rw [List.flatMap_cons, hconcat]
            exact List.take_append_drop limit keys
          · intro page hin
            rcases List.mem_cons.mp hin with rfl | hin
            · exact ⟨keys, rfl⟩
            · exact hparts page hin
        · right
          refine ⟨e, he, ?_⟩
          change (match (pageOf space path limit keys).nextCursor with | none => _ | some next => _) = _
          rw [hnext]
          simp only [hpages]
          rfl
      · have hnext : (pageOf space path limit keys).nextCursor = none := by simp [pageOf, hlong]
        left
        refine ⟨[pageOf space path limit keys], ?_, ?_, ?_⟩
        · change (match (pageOf space path limit keys).nextCursor with | none => _ | some next => _) = _
          rw [hnext]
          rfl
        · simp [pageOf, List.take_of_length_le (by omega : keys.length ≤ limit)]
        · intro page hin
          obtain rfl := List.mem_singleton.mp hin
          exact ⟨keys, rfl⟩
    · rw [hpage]
      exact .inr ⟨e, he, rfl⟩

omit [NumberFormat Double] in
lemma exists_remaining (handle : Handle M live) (path : JsString) :
    ∃ keys, Remaining live path none keys ∧ keys.length ≤ live.card := by
  obtain ⟨all, hnodup, hsorted, hmem, -⟩ := handle.serves ⟨[], none, none⟩
  have hall : Remaining live path none (all.filter fun k => listRangeCovers path k) := by
    refine ⟨hnodup.filter _, hsorted.filter _, fun k => ?_⟩
    rw [List.mem_filter, hmem]
    simp [After]
  refine ⟨_, hall, ?_⟩
  rw [← List.toFinset_card_of_nodup hall.nodup]
  apply Finset.card_le_card
  intro k hk
  exact ((hall.covered k).mp (List.mem_toFinset.mp hk)).1

lemma pageOf_bounded (space path : JsString) (limit : ℕ) (keys : List JsString) :
    (pageOf space path limit keys).keys.length ≤ limit := by
  simp [pageOf]

lemma pageOf_cursor (hlimit : 1 ≤ limit) {next : JsString} (h : (pageOf space path limit keys).nextCursor = some next) :
    ∃ last, (pageOf space path limit keys).keys.getLast? = some last ∧ decodeTcr1 next = some ⟨space, path, last⟩ := by
  have hlong : limit < keys.length := by
    by_contra hshort
    simp [pageOf, hshort] at h
  obtain ⟨init, last, htake, -⟩ := take_concat hlimit hlong
  have hnext : encodeTcr1 space path last = next := by simpa [pageOf, hlong, htake] using h
  refine ⟨last, by simp [pageOf, htake], ?_⟩
  rw [← hnext]
  exact decodeTcr1_encodeTcr1 space path last

/-- Following the cursors ends and lists the covered keys, if the live keys differ in UTF-8, unless an answer is refused. -/
theorem local_list_exact (live : Finset JsString) (hlive : Set.InjOn textEncode (live : Set JsString))
    (handle : Handle M live) (validateMeta : M → Except E Unit) (space path : JsString) (limit : ℕ) (hlimit : 1 ≤ limit)
    (fuel : ℕ) (hfuel : live.card < fuel) :
    (∃ pages, listAll handle validateMeta space path limit fuel none = .ok (some pages) ∧
      ExactPages live space path limit pages) ∨
      ∃ e, Refused validateMeta e ∧ listAll handle validateMeta space path limit fuel none = .error e := by
  obtain ⟨keys, hkeys, hlength⟩ := exists_remaining handle path
  rcases @listAll_spec _ _ _ handle validateMeta space path limit none keys _ hlive hlimit fuel hkeys (by omega) with
    ⟨pages, hpages, hconcat, hparts⟩ | hrefused
  · refine .inl ⟨pages, hpages, ?_⟩
    constructor
    · rw [hconcat]
      exact hkeys.nodup
    · rw [hconcat]
      exact hkeys.sorted
    · intro k
      rw [hconcat, hkeys.covered]
      simp [After]
    · intro page hin
      obtain ⟨part, rfl⟩ := hparts page hin
      exact pageOf_bounded space path limit part
    · intro page hin next hnext
      obtain ⟨part, rfl⟩ := hparts page hin
      exact pageOf_cursor hlimit hnext
  · exact .inr hrefused

omit [NumberFormat Double] in
/-- Keys that are Unicode strings differ in UTF-8. -/
lemma injOn_of_scalar (h : ∀ k ∈ live, isUnicodeScalarString k = true) : Set.InjOn textEncode (live : Set JsString) := by
  intro a ha b hb heq
  have hdecode := decodeUtf8_textEncode (h a ha) le_rfl
  rw [heq, decodeUtf8_textEncode (h b hb) le_rfl] at hdecode
  exact (Option.some.inj hdecode).symm

end Walk

section Samples

/-- A handle over keys that are listed in order. -/
def sortedHandle (keys : List JsString) (hnodup : keys.Nodup) (hsorted : KeySorted keys) : Handle Unit keys.toFinset where
  list o :=
    let all := keys.filter fun k => o.folder.isPrefixOf k && o.after.all fun a => 0 < utf8Compare k a
    ⟨match o.limit with
      | none => all
      | some n => all.take n, ()⟩
  serves o := by
    refine ⟨_, hnodup.filter _, hsorted.filter _, fun k => ?_, rfl⟩
    rw [List.mem_filter, List.mem_toFinset, Bool.and_eq_true, List.isPrefixOf_iff_prefix]
    cases o.after <;> simp [After]

def accept : Unit → Except Empty Unit := fun _ => .ok ()

theorem local_list_exact_sample :
    letI := exactNumbers
    let keys := [js "notes", js "notes-", js "notes/a"]
    let handle := sortedHandle keys (by decide) (by decide)
    (∃ pages, listAll handle accept (js "space") (js "notes") 1 4 none = .ok (some pages) ∧
      ExactPages keys.toFinset (js "space") (js "notes") 1 pages) ∨
      ∃ e, Refused accept e ∧ listAll handle accept (js "space") (js "notes") 1 4 none = .error e :=
  letI := exactNumbers
  local_list_exact _ (injOn_of_scalar (by decide)) _ accept (js "space") (js "notes") 1 le_rfl 4 (by decide)

/-- Two keys that differ in an unpaired surrogate are written alike, and the second one is skipped. -/
theorem shared_encoding_skipped :
    letI := exactNumbers
    let keys : List JsString := [[0xD800], [0xD801]]
    let handle := sortedHandle keys (by decide) (by decide)
    ∃ pages, listAll handle accept [] [] 1 3 none = .ok (some pages) ∧ ¬ExactPages keys.toFinset [] [] 1 pages := by
  let := exactNumbers
  intro keys handle
  have hkeys : ((listAll handle accept [] [] 1 3 none).toOption.join.map fun pages => pages.flatMap (·.keys)) = some [[0xD800]] := by
    decide +kernel
  cases hrun : listAll handle accept [] [] 1 3 none with
  | error e => exact e.elim
  | ok pages =>
    rw [hrun] at hkeys
    cases pages with
    | none => cases hkeys
    | some pages =>
      refine ⟨pages, rfl, fun h => ?_⟩
      have hconcat : pages.flatMap (·.keys) = [[0xD800]] := Option.some.inj hkeys
      have hin := (h.covered [0xD801]).mpr ⟨by decide, by decide⟩
      rw [hconcat] at hin
      revert hin
      decide

end Samples

end TinyCloud.Kv

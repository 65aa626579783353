import TinyCloud.Collections.Walk
import TinyCloud.Text.Utf
import Mathlib.Data.List.Lex
import Mathlib.Data.List.InsertIdx

/-! The intake's cursor over a peer's mirror: which messages a cycle takes up and where the next one resumes. -/

namespace TinyCloud.Courier

open TinyCloud.Text TinyCloud.Collections

section Ids

structure MsgId where
  units : JsString
  deriving DecidableEq

lemma MsgId.values_injective : Function.Injective fun id : MsgId => id.units.map UInt16.toNat := by
  rintro ⟨a⟩ ⟨b⟩ h
  exact congrArg MsgId.mk (List.map_injective_iff.mpr (fun _ _ h => UInt16.toNat_inj.mp h) h)

/-- Strings are compared by their code units. -/
instance : LinearOrder MsgId := LinearOrder.lift' (fun id => id.units.map UInt16.toNat) MsgId.values_injective

end Ids

section Selection

variable {T : Type*} (msgId : T → MsgId)

/-- Where an id goes among the first `i` items: behind the last one that is not above it. -/
def slot (list : List T) (id : MsgId) : ℕ → ℕ
  | 0 => 0
  | i + 1 =>
    match list[i]? with
    | some item => if id < msgId item then slot list id i else i + 1
    | none => i + 1

def insertSorted (cap : ℕ) (list : List T) (item : T) : List T :=
  if list.length = cap ∧ (list[cap - 1]?).any (fun last => decide (msgId last ≤ msgId item)) then list
  else
    let spliced := list.insertIdx (slot msgId list (msgId item) list.length) item
    if cap < spliced.length then spliced.dropLast else spliced

/-- The two lists `after` and `wrapped` of `pickBatch` after one more item. -/
def place (cursor : MsgId) (cap : ℕ) (floor : MsgId) (lists : List T × List T) (item : T) : List T × List T :=
  if msgId item < floor then lists
  else if cursor < msgId item then (insertSorted msgId cap lists.1 item, lists.2)
  else (lists.1, insertSorted msgId cap lists.2 item)

def pickBatch (items : List T) (cursor : MsgId) (cap : ℕ) (floor : MsgId) : List T :=
  if cap < 1 then []
  else
    let lists := items.foldl (place msgId cursor cap floor) ([], [])
    (lists.1 ++ lists.2).take cap

/-- A peer's stored cursor; a peer that was never taken up has none. -/
abbrev Cursor := Option MsgId

/-- `intakePeer`: the batch of one cycle, and the cursor stored after it. -/
def intakePeer (all : List T) (cap : ℕ) (floor : MsgId) (cursor : Cursor) : List T × Cursor :=
  let picked := pickBatch msgId all (cursor.getD ⟨[]⟩) cap floor
  (picked, match picked.getLast? with
    | some last => some (msgId last)
    | none => cursor)

/-- The messages a cycle considers at all. -/
def live (floor : MsgId) (items : List T) : List T := items.filter fun item => ¬msgId item < floor

def liveIds (floor : MsgId) (items : List T) : List MsgId := (live msgId floor items).map msgId

end Selection

section Kept

variable {T : Type*} {msgId : T → MsgId} {cap : ℕ} {lo hi items kept : List T} {item : T} {id : MsgId}

lemma slot_eq (hlo : ∀ a ∈ lo, msgId a < id) (hhi : ∀ b ∈ hi, id < msgId b) {k : ℕ} (hk : k ≤ hi.length) :
    slot msgId (lo ++ hi) id (lo.length + k) = lo.length := by
  induction k with
  | zero =>
    rcases List.eq_nil_or_concat lo with rfl | ⟨front, a, rfl⟩
    · rfl
    · have ha := hlo a (by simp)
      simp [slot, not_lt_of_gt ha]
  | succ k ih =>
    have hb := hhi hi[k] (List.getElem_mem _)
    have hget : (lo ++ hi)[lo.length + k]? = some hi[k] := by
      rw [List.getElem?_append_right (Nat.le_add_right _ _), Nat.add_sub_cancel_left,
        List.getElem?_eq_getElem (Nat.lt_of_succ_le hk)]
    rw [← Nat.add_assoc, slot, hget]
    simp only [if_pos hb]
    exact ih (by omega)

lemma pop_eq_take {list : List T} (h : list.length ≤ cap + 1) :
    (if cap < list.length then list.dropLast else list) = list.take cap := by
  split_ifs with hlong
  · rw [List.dropLast_eq_take, show list.length - 1 = cap by omega]
  · rw [List.take_of_length_le (not_lt.mp hlong)]

lemma insertIdx_front (lo hi : List T) (item : T) : (lo ++ hi).insertIdx lo.length item = lo ++ item :: hi := by
  induction lo with
  | nil => rfl
  | cons a lo ih => simpa using ih

/-- An item below the greatest kept one, or for which there is room, goes to its place. -/
lemma insertSorted_room (hlo : ∀ a ∈ lo, msgId a < msgId item) (hhi : ∀ b ∈ hi, msgId item < msgId b)
    (hlen : (lo ++ hi).length ≤ cap) (hroom : lo.length < cap) :
    insertSorted msgId cap (lo ++ hi) item = (lo ++ item :: hi).take cap := by
  have hslot := slot_eq hlo hhi le_rfl
  have hgoes : ¬((lo ++ hi).length = cap ∧
      ((lo ++ hi)[cap - 1]?).any (fun last => decide (msgId last ≤ msgId item)) = true) := by
    rintro ⟨hfull, hlast⟩
    obtain ⟨b, hget, hle⟩ := (Option.any_eq_true _ _).mp hlast
    rw [List.getElem?_append_right (by omega)] at hget
    have hb := hhi b (List.mem_of_getElem? hget)
    exact absurd hb (not_lt_of_ge (of_decide_eq_true hle))
  rw [insertSorted, if_neg hgoes, List.length_append, hslot, insertIdx_front]
  apply pop_eq_take
  rw [List.length_append] at hlen ⊢
  rw [List.length_cons]
  omega

lemma insertSorted_above (hlo : ∀ a ∈ lo, msgId a < msgId item) (hcap : 1 ≤ cap) (hfull : lo.length = cap) :
    insertSorted msgId cap lo item = lo := by
  have hlast : (lo[cap - 1]?).any (fun last => decide (msgId last ≤ msgId item)) = true := by
    rw [List.getElem?_eq_getElem (by omega)]
    exact decide_eq_true (hlo _ (List.getElem_mem _)).le
  rw [insertSorted, if_pos ⟨hfull, hlast⟩]

/-- What is kept of a sorted list stays the least `cap` when an item goes to its place. -/
lemma insertSorted_eq (hcap : 1 ≤ cap) (hlo : ∀ a ∈ lo, msgId a < msgId item)
    (hhi : ∀ b ∈ hi, msgId item < msgId b) :
    insertSorted msgId cap ((lo ++ hi).take cap) item = (lo ++ item :: hi).take cap := by
  rcases Nat.lt_or_ge lo.length cap with hroom | hfull
  · have hhi' : ∀ b ∈ hi.take (cap - lo.length), msgId item < msgId b :=
      fun b hb => hhi b (List.mem_of_mem_take hb)
    rw [List.take_append, List.take_of_length_le hroom.le, insertSorted_room hlo hhi' ?_ hroom,
      List.take_append, List.take_append, List.take_of_length_le hroom.le]
    · obtain ⟨d, hd⟩ : ∃ d, cap - lo.length = d + 1 := ⟨cap - lo.length - 1, by omega⟩
      rw [hd, List.take_succ_cons, List.take_succ_cons, List.take_take, min_eq_left (Nat.le_succ d)]
    · rw [List.length_append, List.length_take]
      omega
  · rw [List.take_append_of_le_length hfull, List.take_append_of_le_length hfull]
    apply insertSorted_above (fun a ha => hlo a (List.mem_of_mem_take ha)) hcap
    rw [List.length_take, min_eq_left hfull]

lemma exists_place {sorted : List T} (hs : sorted.Pairwise fun a b => msgId a < msgId b)
    (hfresh : ∀ a ∈ sorted, msgId a ≠ id) :
    ∃ lo hi, sorted = lo ++ hi ∧ (∀ a ∈ lo, msgId a < id) ∧ ∀ b ∈ hi, id < msgId b := by
  induction sorted with
  | nil => exact ⟨[], [], rfl, by simp, by simp⟩
  | cons a sorted ih =>
    obtain ⟨hhead, htail⟩ := List.pairwise_cons.mp hs
    rcases (hfresh a List.mem_cons_self).lt_or_gt with hlt | hgt
    · obtain ⟨lo, hi, rfl, hlo, hhi⟩ := ih htail fun b hb => hfresh b (List.mem_cons_of_mem _ hb)
      exact ⟨a :: lo, hi, rfl, List.forall_mem_cons.mpr ⟨hlt, hlo⟩, hhi⟩
    · refine ⟨[], a :: sorted, rfl, by simp, List.forall_mem_cons.mpr ⟨hgt, fun b hb => ?_⟩⟩
      exact hgt.trans (hhead b hb)

/-- The least `cap` items, in ascending order. -/
def Kept (msgId : T → MsgId) (cap : ℕ) (items kept : List T) : Prop :=
  ∃ sorted : List T, sorted.Perm items ∧ (sorted.Pairwise fun a b => msgId a < msgId b) ∧ kept = sorted.take cap

lemma Kept.insert (h : Kept msgId cap items kept) (hcap : 1 ≤ cap) (hfresh : ∀ a ∈ items, msgId a ≠ msgId item) :
    Kept msgId cap (items ++ [item]) (insertSorted msgId cap kept item) := by
  obtain ⟨sorted, hperm, hs, rfl⟩ := h
  obtain ⟨lo, hi, rfl, hlo, hhi⟩ := exists_place hs fun a ha => hfresh a (hperm.mem_iff.mp ha)
  refine ⟨lo ++ item :: hi, ?_, ?_, insertSorted_eq hcap hlo hhi⟩
  · exact List.perm_middle.trans ((hperm.cons item).trans (List.perm_append_singleton item items).symm)
  · obtain ⟨hslo, hshi, hacross⟩ := List.pairwise_append.mp hs
    refine List.pairwise_append.mpr ⟨hslo, List.pairwise_cons.mpr ⟨hhi, hshi⟩, ?_⟩
    rintro a ha b (_ | ⟨_, hb⟩)
    · exact hlo a ha
    · exact hacross a ha b hb

variable (cursor floor : MsgId)

lemma kept_nil : Kept msgId cap [] [] := ⟨[], List.Perm.refl _, List.Pairwise.nil, by rw [List.take_nil]⟩

lemma placed_kept (hcap : 1 ≤ cap) (distinct : (items.map msgId).Nodup) :
    Kept msgId cap ((live msgId floor items).filter fun item => cursor < msgId item)
        (items.foldl (place msgId cursor cap floor) ([], [])).1 ∧
      Kept msgId cap ((live msgId floor items).filter fun item => ¬cursor < msgId item)
        (items.foldl (place msgId cursor cap floor) ([], [])).2 := by
  induction items using List.reverseRecOn with
  | nil => exact ⟨kept_nil, kept_nil⟩
  | append_singleton items item ih =>
    rw [List.map_append, List.nodup_append] at distinct
    obtain ⟨hitems, -, hnew⟩ := distinct
    obtain ⟨hafter, hwrapped⟩ := ih hitems
    have hfresh : ∀ a ∈ items, msgId a ≠ msgId item := fun a ha =>
      hnew _ (List.mem_map_of_mem ha) _ (by simp)
    rw [List.foldl_concat, live, List.filter_append]
    rw [live] at hafter hwrapped
    generalize items.foldl (place msgId cursor cap floor) ([], []) = lists at *
    unfold place
    split_ifs with hfloor hcursor
    · simpa [hfloor] using And.intro hafter hwrapped
    · have hinsert := hafter.insert hcap fun a ha =>
        hfresh a (List.mem_of_mem_filter (List.mem_of_mem_filter ha))
      simpa [not_lt.mp hfloor, hcursor, List.filter_cons] using And.intro hinsert hwrapped
    · have hinsert := hwrapped.insert hcap fun a ha =>
        hfresh a (List.mem_of_mem_filter (List.mem_of_mem_filter ha))
      simpa [not_lt.mp hfloor, not_lt.mp hcursor, List.filter_cons] using And.intro hafter hinsert

lemma take_two (first second : List T) (cap : ℕ) :
    (first.take cap ++ second.take cap).take cap = (first ++ second).take cap := by
  rw [List.take_append, List.take_append, List.take_take, List.take_take, min_self, List.length_take]
  congr 2
  omega

/-- One batch is the beginning of the walk over the live ids. -/
lemma pickBatch_walk (hcap : 1 ≤ cap) (distinct : (items.map msgId).Nodup) :
    ∃ whole : List T, whole.Perm (live msgId floor items) ∧
      IsWalk cursor (liveIds msgId floor items) (whole.map msgId) ∧
      pickBatch msgId items cursor cap floor = whole.take cap := by
  obtain ⟨⟨after, hpa, hsa, hka⟩, ⟨wrapped, hpw, hsw, hkw⟩⟩ := 
    placed_kept cursor floor hcap distinct
  have hperm : (after ++ wrapped).Perm (live msgId floor items) :=
    (hpa.append hpw).trans (by
      simpa only [decide_not] using List.filter_append_perm (fun item => decide (cursor < msgId item)) _)
  have hmema : ∀ a ∈ after, cursor < msgId a := fun a ha =>
    of_decide_eq_true (List.mem_filter.mp (hpa.mem_iff.mp ha)).2
  have hmemw : ∀ a ∈ wrapped, ¬cursor < msgId a := fun a ha =>
    of_decide_eq_true (List.mem_filter.mp (hpw.mem_iff.mp ha)).2
  refine ⟨after ++ wrapped, hperm, ⟨hperm.map msgId, ?_⟩, ?_⟩
  · rw [List.pairwise_map, List.pairwise_append]
    refine ⟨?_, ?_, fun a ha b hb => metBefore_of_after (hmema a ha) (hmemw b hb)⟩
    · refine hsa.imp_of_mem fun ha hb hab => metBefore_of_lt hab ?_
      exact iff_of_true (hmema _ ha) (hmema _ hb)
    · refine hsw.imp_of_mem fun ha hb hab => metBefore_of_lt hab ?_
      exact iff_of_false (hmemw _ ha) (hmemw _ hb)
  · rw [pickBatch, if_neg (by omega)]
    simp only [hka, hkw, take_two]

end Kept

section Cycles

variable {T : Type*} (msgId : T → MsgId) (cap : ℕ)

/-- The cursor before each cycle, when cycle `k` lists `listing k` with the floor `floor k`. -/
def cursorAt (listing : ℕ → List T) (floor : ℕ → MsgId) (start : Cursor) : ℕ → Cursor
  | 0 => start
  | k + 1 => (intakePeer msgId (listing k) cap (floor k) (cursorAt listing floor start k)).2

def pickedAt (listing : ℕ → List T) (floor : ℕ → MsgId) (start : Cursor) (k : ℕ) : List T :=
  (intakePeer msgId (listing k) cap (floor k) (cursorAt msgId cap listing floor start k)).1

variable {msgId cap} {listing : ℕ → List T} {floor : ℕ → MsgId} {start : Cursor}

lemma intakePeer_picked (all : List T) (floor : MsgId) (cursor : Cursor) :
    (intakePeer msgId all cap floor cursor).1 = pickBatch msgId all (cursor.getD ⟨[]⟩) cap floor := rfl

lemma intakePeer_cursor (all : List T) (floor : MsgId) (cursor : Cursor) {last : T}
    (h : (intakePeer msgId all cap floor cursor).1.getLast? = some last) :
    (intakePeer msgId all cap floor cursor).2 = some (msgId last) := by
  rw [intakePeer_picked] at h
  simp only [intakePeer, h]

lemma picked_live (hcap : 1 ≤ cap) {k : ℕ} (distinct : ((listing k).map msgId).Nodup) {x : T}
    (hx : x ∈ pickedAt msgId cap listing floor start k) : x ∈ live msgId (floor k) (listing k) := by
  obtain ⟨whole, hperm, -, hpick⟩ := 
    pickBatch_walk ((cursorAt msgId cap listing floor start k).getD ⟨[]⟩) (floor k) hcap distinct
  rw [pickedAt, intakePeer_picked, hpick] at hx
  exact hperm.mem_iff.mp (List.mem_of_mem_take hx)

/-- Messages may leave the mirror or fall below the floor from one cycle to the next. -/
lemma cycles_lap (start : Cursor) (hcap : 1 ≤ cap) (distinct : ∀ k, ((listing k).map msgId).Nodup)
    (hshrink : ∀ k, liveIds msgId (floor (k + 1)) (listing (k + 1)) ⊆ liveIds msgId (floor k) (listing k)) :
    Laps cap (fun k => liveIds msgId (floor k) (listing k))
      (fun k => (pickedAt msgId cap listing floor start k).map msgId)
      (fun k => (cursorAt msgId cap listing floor start k).getD ⟨[]⟩) where
  batch k := by
    obtain ⟨whole, -, hwalk, hpick⟩ := 
      pickBatch_walk ((cursorAt msgId cap listing floor start k).getD ⟨[]⟩) (floor k) hcap (distinct k)
    refine ⟨whole.map msgId, hwalk, ?_⟩
    rw [pickedAt, intakePeer_picked, hpick, List.map_take]
  rest k l h := by
    rw [List.getLast?_map, Option.map_eq_some_iff] at h
    obtain ⟨last, hlast, rfl⟩ := h
    rw [cursorAt, intakePeer_cursor _ _ _ hlast]
    rfl
  shrinks := hshrink

/-- A message that stays live is taken up within as many cycles as cover the messages that were live at first. -/
theorem picked_while_others_leave (start : Cursor) (hcap : 1 ≤ cap)
    (distinct : ∀ k, ((listing k).map msgId).Nodup)
    (hshrink : ∀ k, liveIds msgId (floor (k + 1)) (listing (k + 1)) ⊆ liveIds msgId (floor k) (listing k))
    {id : MsgId} (hid : ∀ k, id ∈ liveIds msgId (floor k) (listing k)) :
    ∃ k < (live msgId (floor 0) (listing 0)).length ⌈/⌉ cap,
      id ∈ (pickedAt msgId cap listing floor start k).map msgId := by
  obtain ⟨k, hk, hpicked⟩ := (cycles_lap start hcap distinct hshrink).lap hcap hid
  rw [liveIds, List.length_map] at hk
  exact ⟨k, hk, hpicked⟩

/-- A batch is the next stretch of the walk from the cursor, and the batches of a whole lap reach every message,
in whatever order each cycle lists them. -/
theorem cursor_walks (msgId : T → MsgId) (messages : List T) (distinct : (messages.map msgId).Nodup) (cap : ℕ)
    (hcap : 1 ≤ cap) (floor : MsgId) :
    (∀ cursor, ∃ whole : List T, whole.Perm (live msgId floor messages) ∧
      (whole.Pairwise fun a b => MetBefore cursor (msgId a) (msgId b)) ∧
      pickBatch msgId messages cursor cap floor = whole.take (min cap (live msgId floor messages).length)) ∧
    ∀ (listing : ℕ → List T) (start : Cursor), (∀ k, (listing k).Perm messages) →
      ∀ m ∈ live msgId floor messages, ∃ k < (live msgId floor messages).length ⌈/⌉ cap,
        m ∈ pickedAt msgId cap listing (fun _ => floor) start k := by
  constructor
  · intro cursor
    obtain ⟨whole, hperm, hwalk, hpick⟩ := pickBatch_walk cursor floor hcap distinct
    refine ⟨whole, hperm, List.pairwise_map.mp hwalk.2, ?_⟩
    rw [hpick, ← hperm.length_eq, List.take_eq_take_iff]
    omega
  · intro listing start hlisting m hm
    have hlive : ∀ k, (live msgId floor (listing k)).Perm (live msgId floor messages) := fun k => (hlisting k).filter _
    have hdistinct : ∀ k, ((listing k).map msgId).Nodup := fun k => ((hlisting k).map msgId).nodup_iff.mpr distinct
    have hids : ∀ k, (liveIds msgId floor (listing k)).Perm (liveIds msgId floor messages) :=
      fun k => (hlive k).map msgId
    obtain ⟨k, hk, hpicked⟩ := picked_while_others_leave start hcap hdistinct
      (fun k => ((hids (k + 1)).trans (hids k).symm).subset)
      (fun k => (hids k).mem_iff.mpr (List.mem_map_of_mem hm))
    obtain ⟨x, hx, hsame⟩ := List.mem_map.mp hpicked
    have hxlive := picked_live hcap (hdistinct k) hx
    have heq : x = m := List.inj_on_of_nodup_map distinct (List.mem_of_mem_filter ((hlive k).mem_iff.mp hxlive))
      (List.mem_of_mem_filter hm) hsame
    rw [(hlive 0).length_eq] at hk
    exact ⟨k, hk, heq ▸ hx⟩

def mirrorSample : List MsgId := [⟨js "c"⟩, ⟨js "a"⟩, ⟨js "b"⟩]

theorem cursor_walks_sample :
    pickBatch id mirrorSample ⟨js "b"⟩ 2 ⟨[]⟩ = [⟨js "c"⟩, ⟨js "a"⟩] ∧
      ∃ k < 2, ⟨js "b"⟩ ∈ pickedAt id 2 (fun _ => mirrorSample) (fun _ => ⟨[]⟩) (some ⟨js "b"⟩) k := by
  refine ⟨by decide, ?_⟩
  obtain ⟨k, hk, hpicked⟩ := (cursor_walks id mirrorSample (by decide) 2 (by decide) ⟨[]⟩).2
    (fun _ => mirrorSample) (some ⟨js "b"⟩) (fun _ => List.Perm.refl _) ⟨js "b"⟩ (by decide)
  exact ⟨k, hk, hpicked⟩

end Cycles

end TinyCloud.Courier

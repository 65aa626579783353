import Mathlib.Data.List.Induction
import TinyCloud.Sealed.Writes

/-! The counters of a sealed partition are a recount of its entries, and the contents of its entries are there. -/

namespace TinyCloud.Sealed

open TinyCloud.Collections TinyCloud.Replica TinyCloud.Runs

section Rows

variable {α : Type} {d : Dict String α} {rows : List (String × α)} {ids : List String} {k : String} {v : α}

lemma putAll_concat (r : String × α) : putAll d (rows ++ [r]) = (putAll d rows).set r.1 r.2 :=
  List.foldl_concat _ _ _ _

lemma get?_putAll_of_not_mem (h : k ∉ rows.map Prod.fst) : (putAll d rows).get? k = d.get? k := by
  induction rows using List.reverseRecOn with
  | nil => rfl
  | append_singleton rows r ih =>
    rw [List.map_append, List.mem_append, not_or] at h
    rw [putAll_concat, Dict.get?_set_of_ne _ _ (by simpa using h.2)]
    exact ih h.1

lemma mem_of_get?_putAll (h : (putAll d rows).get? k = some v) : (k, v) ∈ rows ∨ d.get? k = some v := by
  induction rows using List.reverseRecOn with
  | nil => exact .inr h
  | append_singleton rows r ih =>
    rw [putAll_concat, Dict.get?_set] at h
    split_ifs at h with hk
    · cases h
      exact .inl (by simp [hk])
    · exact (ih h).imp_left fun hm => List.mem_append_left _ hm

lemma get?_putAll_of_mem (h : k ∈ rows.map Prod.fst) : (putAll d rows).get? k ≠ none := by
  induction rows using List.reverseRecOn with
  | nil => cases h
  | append_singleton rows r ih =>
    rw [putAll_concat, Dict.get?_set]
    split_ifs with hk
    · exact Option.some_ne_none _
    · rw [List.map_append, List.mem_append] at h
      exact ih (h.resolve_right (by simpa using hk))

lemma get?_putAll_of_get? (h : d.get? k ≠ none) : (putAll d rows).get? k ≠ none := by
  by_cases hk : k ∈ rows.map Prod.fst
  · exact get?_putAll_of_mem hk
  · rwa [get?_putAll_of_not_mem hk]

lemma get?_deleteAll_of_not_mem (h : k ∉ ids) : (deleteAll d ids).get? k = d.get? k := by
  induction ids generalizing d with
  | nil => rfl
  | cons id ids ih =>
    rw [List.mem_cons, not_or] at h
    exact (ih h.2).trans (d.get?_delete_of_ne h.1)

end Rows

section Count

def SealedEntry.isLive (e : SealedEntry) : Bool :=
  match e.row.entry with
  | .deleted _ => false
  | .live _ => true

def SealedEntry.hasContent (e : SealedEntry) : Bool := e.row.entry.hasContent

def SealedEntry.contentSize (e : SealedEntry) : ℕ := if e.hasContent then e.row.size.getD 0 else 0

/-- The counters that the decrypted entries give. -/
def recount (entries : Dict String SealedEntry) : Counters where
  keys := entries.count SealedEntry.isLive
  contentMissing := entries.count fun e => e.isLive && !e.hasContent
  tombstones := entries.count fun e => !e.isLive
  contentBytes := entries.total SealedEntry.contentSize

/-- The counters with a new entry. -/
def deposit (c : Counters) (e : EntryRow) : Counters :=
  match e.entry with
  | .deleted _ => { c with tombstones := c.tombstones + 1 }
  | .live row =>
    let c := { c with keys := c.keys + 1 }
    if row.content then { c with contentBytes := c.contentBytes + e.size.getD 0 }
    else { c with contentMissing := c.contentMissing + 1 }

def replaced (c : Counters) (previous : Option SealedEntry) : Counters :=
  match previous with
  | some previous => withdraw c previous.row
  | none => c

variable (entries : Dict String SealedEntry) (id : String) (e : SealedEntry)

/-- What an entry counts for. -/
def SealedEntry.weight (e : SealedEntry) : Counters where
  keys := (if e.isLive then 1 else 0 : ℕ)
  contentMissing := (if e.isLive && !e.hasContent then 1 else 0 : ℕ)
  tombstones := (if !e.isLive then 1 else 0 : ℕ)
  contentBytes := e.contentSize

def Counters.add (c d : Counters) : Counters :=
  ⟨c.keys + d.keys, c.contentMissing + d.contentMissing, c.tombstones + d.tombstones, c.contentBytes + d.contentBytes⟩

lemma Counters.add_right_comm (a b c : Counters) : (a.add b).add c = (a.add c).add b := by
  simp only [Counters.add, Counters.mk.injEq]
  omega

lemma Counters.add_right_cancel {a b : Counters} (c : Counters) (h : a.add c = b.add c) : a = b := by
  obtain ⟨a₁, a₂, a₃, a₄⟩ := a
  obtain ⟨b₁, b₂, b₃, b₄⟩ := b
  simp only [Counters.add, Counters.mk.injEq] at h ⊢
  omega

lemma deposit_eq (c : Counters) : deposit c e.row = c.add e.weight := by
  obtain ⟨hashId, entry, size⟩ := e
  cases entry with
  | deleted key => simp [deposit, Counters.add, SealedEntry.weight, SealedEntry.isLive, SealedEntry.contentSize,
      SealedEntry.hasContent, LocalEntry.hasContent]
  | live row => cases hc : row.content <;> simp [deposit, Counters.add, SealedEntry.weight, SealedEntry.isLive,
      SealedEntry.contentSize, SealedEntry.hasContent, LocalEntry.hasContent, hc]

lemma withdraw_add (c : Counters) : (withdraw c e.row).add e.weight = c := by
  obtain ⟨hashId, entry, size⟩ := e
  cases entry with
  | deleted key => simp [withdraw, Counters.add, SealedEntry.weight, SealedEntry.isLive, SealedEntry.contentSize,
      SealedEntry.hasContent, LocalEntry.hasContent]
  | live row => cases hc : row.content <;> simp [withdraw, Counters.add, SealedEntry.weight, SealedEntry.isLive,
      SealedEntry.contentSize, SealedEntry.hasContent, LocalEntry.hasContent, hc]

lemma recount_set_new (h : entries.get? id = none) : recount (entries.set id e) = (recount entries).add e.weight := by
  simp only [recount, Counters.add, SealedEntry.weight, entries.count_set_new h, entries.total_set_new h, Int.natCast_add]

lemma recount_set_same {previous : SealedEntry} (h : entries.get? id = some previous) :
    (recount (entries.set id e)).add previous.weight = (recount entries).add e.weight := by
  have hkeys := entries.count_set SealedEntry.isLive id e
  have hmissing := entries.count_set (fun e => e.isLive && !e.hasContent) id e
  have htombstones := entries.count_set (fun e => !e.isLive) id e
  simp only [h, Option.elim_some] at hkeys hmissing htombstones
  simp only [recount, Counters.add, SealedEntry.weight, Counters.mk.injEq]
  exact ⟨by exact_mod_cast hkeys, by exact_mod_cast hmissing, by exact_mod_cast htombstones,
    by exact_mod_cast entries.total_set_same h⟩

/-- Setting an entry takes the previous one out of the recount and the new one in. -/
lemma recount_set : recount (entries.set id e) = deposit (replaced (recount entries) (entries.get? id)) e.row := by
  rw [deposit_eq]
  cases h : entries.get? id with
  | none => exact recount_set_new entries id e h
  | some previous =>
    apply Counters.add_right_cancel previous.weight
    rw [recount_set_same entries id e h, replaced, Counters.add_right_comm, withdraw_add]

end Count

section Prepare

variable {ids : Ids} {oldEntries : Dict String SealedEntry} {held : String → Option SealedBlob} {a b start : Prepared}
  {change : VerifiedChange} {changes : List VerifiedChange} {page : VerifiedPage}

lemma get?_foldl_set {k : String} {c : VerifiedChange}
    (h : (changes.foldl (fun d c => d.set c.key c) (Dict.empty : Dict String VerifiedChange)).get? k = some c) :
    c.key = k := by
  induction changes using List.reverseRecOn with
  | nil => cases h
  | append_singleton changes change ih =>
    rw [List.foldl_concat, Dict.get?_set] at h
    split_ifs at h with hk
    · cases h
      exact hk.symm
    · exact ih h

lemma nodup_latest (changes : List VerifiedChange) : ((latest changes).map LocalEntry.key).Nodup := by
  unfold latest Dict.values
  rw [List.map_map]
  have hkeys := (changes.foldl (fun d c => d.set c.key c) (Dict.empty : Dict String VerifiedChange)).nodup
  rwa [← List.map_congr_left fun e he => get?_foldl_set (Dict.mem_entries _ |>.mp he)] at hkeys

lemma backed_ok {available available' : Dict String ℕ} {hashId hash : String} {length : ℕ}
    (h : backed held available hashId hash = .ok (available', length)) :
    available'.get? hashId ≠ none ∧ (∀ id, available.get? id ≠ none → available'.get? id ≠ none) ∧
      ∀ id, available'.get? id ≠ none → available.get? id ≠ none ∨ held id ≠ none := by
  unfold backed at h
  split at h
  · rename_i n hn
    cases h
    exact ⟨by simp [hn], fun _ h => h, fun _ h => .inl h⟩
  · split at h
    · rename_i old hold
      split_ifs at h
      cases h
      refine ⟨by simp, fun id hid => ?_, fun id hid => ?_⟩
      · rw [Dict.get?_set]
        split_ifs
        · exact Option.some_ne_none _
        · exact hid
      · rw [Dict.get?_set] at hid
        split_ifs at hid with heq
        · exact .inr (by simp [heq, hold])
        · exact .inl hid
    · cases h

/-- A content entry names its content, which is available. -/
def Backs (ids : Ids) (available : Dict String ℕ) (e : SealedEntry) : Prop :=
  e.hasContent = true → ∃ row, e.row.entry = .live row ∧ e.hashId = some (ids.blob row.hash) ∧
    available.get? (ids.blob row.hash) ≠ none

/-- A change takes the old entry's weight from the counters and adds that of its own. -/
lemma prepareChange_ok (h : prepareChange ids oldEntries held a change = .ok b) :
    ∃ e, b.newEntries = a.newEntries ++ [(ids.entry change.key, e)] ∧
      b.counters = deposit (replaced a.counters (oldEntries.get? (ids.entry change.key))) e.row ∧
      Backs ids b.available e ∧ (∀ id, a.available.get? id ≠ none → b.available.get? id ≠ none) ∧
      ∀ id, b.available.get? id ≠ none → a.available.get? id ≠ none ∨ held id ≠ none := by
  cases change with
  | deleted key =>
    cases h
    refine ⟨⟨none, ⟨.deleted key, none⟩⟩, rfl, rfl, ?_, fun _ h => h, fun _ h => .inl h⟩
    rintro ⟨⟩
  | live row =>
    cases hc : row.content with
    | false =>
      simp only [prepareChange, hc, Bool.false_eq_true, if_false] at h
      cases h
      refine ⟨⟨some (ids.blob row.hash), ⟨.live row, none⟩⟩, rfl, ?_, fun h => ?_, fun _ h => h, fun _ h => .inl h⟩
      · simp only [deposit, hc, Bool.false_eq_true, if_false]
        rfl
      · rw [SealedEntry.hasContent, LocalEntry.hasContent, hc] at h
        cases h
    | true =>
      simp only [prepareChange, hc, if_true] at h
      obtain ⟨⟨available, length⟩, hbacked, h⟩ := bind_eq_ok h
      cases h
      obtain ⟨hself, hkept, hfrom⟩ := backed_ok hbacked
      refine ⟨⟨some (ids.blob row.hash), ⟨.live row, some length⟩⟩, rfl, ?_, fun _ => ⟨row, rfl, rfl, hself⟩, hkept, hfrom⟩
      simp only [deposit, hc, if_true, Option.getD_some]
      rfl

/-- What has been prepared for some of the changes. -/
structure Ready (ids : Ids) (oldEntries : Dict String SealedEntry) (held : String → Option SealedBlob) (start a : Prepared) :
    Prop where
  counted : a.counters = recount (putAll oldEntries a.newEntries)
  backs : ∀ r ∈ a.newEntries, Backs ids a.available r.2
  found : ∀ id, a.available.get? id ≠ none → start.available.get? id ≠ none ∨ held id ≠ none

lemma Backs.mono {available available' : Dict String ℕ} {e : SealedEntry} (h : Backs ids available e)
    (hkept : ∀ id, available.get? id ≠ none → available'.get? id ≠ none) : Backs ids available' e := by
  intro hc
  obtain ⟨row, hrow, hid, hav⟩ := h hc
  exact ⟨row, hrow, hid, hkept _ hav⟩

lemma Ready.prepareChange (h : Ready ids oldEntries held start a)
    (hnew : ids.entry change.key ∉ a.newEntries.map Prod.fst)
    (hb : prepareChange ids oldEntries held a change = .ok b) : Ready ids oldEntries held start b := by
  obtain ⟨e, hentries, hcounters, hbacks, hkept, hfrom⟩ := prepareChange_ok hb
  refine ⟨?_, fun r hr => ?_, fun id hid => ?_⟩
  · rw [hcounters, hentries, putAll_concat, recount_set, get?_putAll_of_not_mem hnew, h.counted]
  · rw [hentries, List.mem_append, List.mem_singleton] at hr
    obtain hr | rfl := hr
    · exact (h.backs r hr).mono hkept
    · exact hbacks
  · exact (hfrom id hid).elim (h.found id) .inr

lemma Ready.prepare (h : Ready ids oldEntries held start a)
    (hnodup : (a.newEntries.map Prod.fst ++ changes.map fun c => ids.entry c.key).Nodup)
    (hb : prepare ids oldEntries held a changes = .ok b) : Ready ids oldEntries held start b := by
  induction changes generalizing a with
  | nil =>
    cases hb
    exact h
  | cons change changes ih =>
    rw [Sealed.prepare, List.foldlM_cons] at hb
    obtain ⟨c, hc, hb⟩ := bind_eq_ok hb
    obtain ⟨e, hentries, -⟩ := prepareChange_ok hc
    refine ih (h.prepareChange ?_ hc) ?_ hb
    · intro hmem
      exact (List.nodup_append.mp hnodup).2.2 _ hmem _ List.mem_cons_self rfl
    · rw [hentries, List.map_append, List.append_assoc]
      exact hnodup

end Prepare

section Sound

/-- The counters are a recount, a partition without metadata is empty, and the contents of the entries are there. -/
structure Sound (ids : Ids) (s : Partition) : Prop where
  counted : ∀ row, s.metaRow = some row → row.counters = recount s.entries
  blank : s.metaRow = none → s.entries = .empty ∧ s.blobs = .empty
  backed : ∀ id e, s.entries.get? id = some e → e.hasContent = true →
    ∃ row, e.row.entry = .live row ∧ e.hashId = some (ids.blob row.hash) ∧ s.blobs.get? (ids.blob row.hash) ≠ none

variable {ids : Ids} {s : Partition} {h : Handle} {old row : Option SealedMeta} {state : Live} {page : VerifiedPage}

lemma recount_empty : recount .empty = ⟨0, 0, 0, 0⟩ := rfl

lemma sealedMeta_counters (hs : Sound ids s) (state : Live) :
    (sealedMeta state s.metaRow none).counters = recount s.entries := by
  cases hrow : s.metaRow with
  | none => rw [(hs.blank hrow).1, recount_empty, sealedMeta]; rfl
  | some row => exact hs.counted row hrow

lemma Sound.commitMeta (hs : Sound ids s) (state : Live) :
    Sound ids (Write.apply s (.commitMeta (sealedMeta state s.metaRow none))) where
  counted row hrow := by
    cases hrow
    exact sealedMeta_counters hs state
  blank hrow := by cases hrow
  backed := hs.backed

lemma sound_empty (row : SealedMeta) (hrow : row.counters = ⟨0, 0, 0, 0⟩) : Sound ids ⟨some row, .empty, .empty⟩ where
  counted r hr := by
    cases hr
    rw [hrow, recount_empty]
  blank hr := by cases hr
  backed id e he := by cases he

lemma mem_keep {entries : Dict String SealedEntry} {id : String} {e : SealedEntry} {hashId : String}
    (he : entries.get? id = some e) (hc : e.hasContent = true) (hid : e.hashId = some hashId) :
    hashId ∈ keep entries := by
  refine List.mem_filterMap.mpr ⟨e, (entries.mem_values).mpr ⟨id, he⟩, ?_⟩
  change (if e.hasContent = true then e.hashId else none) = some hashId
  rw [if_pos hc, hid]

lemma Sound.collectGarbage (hs : Sound ids s) (state : Live) :
    Sound ids (Write.apply s (.collectGarbage (sealedMeta state s.metaRow none)
      (s.blobs.keys.filter fun id => decide (id ∉ keep s.entries)))) where
  counted row hrow := by
    cases hrow
    exact sealedMeta_counters hs state
  blank hrow := by cases hrow
  backed id e he hc := by
    obtain ⟨row, hrow, hid, hblob⟩ := hs.backed id e he hc
    refine ⟨row, hrow, hid, ?_⟩
    change (deleteAll _ _).get? _ ≠ none
    rwa [get?_deleteAll_of_not_mem]
    intro hmem
    exact of_decide_eq_true (List.mem_filter.mp hmem).2 (mem_keep he hc hid)

lemma nodup_ids (hids : Function.Injective ids.entry) (changes : List VerifiedChange) :
    ((latest changes).map fun c => ids.entry c.key).Nodup := by
  have hkeys := (nodup_latest changes).map hids
  rwa [List.map_map] at hkeys

/-- A page's write keeps the recount and the contents, if it was prepared from these rows. -/
lemma Sound.applyPage (hs : Sound ids s) (hids : Function.Injective ids.entry) {held : String → Option SealedBlob}
    {blobs : List (String × SealedBlob)} {prepared : Prepared} (state : Live) (hrow : s.metaRow ≠ none)
    (hheld : ∀ id, held id ≠ none → s.blobs.get? id ≠ none)
    (hprepared : prepare ids s.entries held ⟨(s.metaRow.map SealedMeta.counters).getD ⟨0, 0, 0, 0⟩,
      putAll .empty (blobs.map fun (id, blob) => (id, blob.bytes.size)), []⟩ (latest page.changes) = .ok prepared) :
    Sound ids (Write.apply s (.applyPage (sealedMeta state s.metaRow (some prepared.counters)) blobs prepared.newEntries)) := by
  have hready : Ready ids s.entries held ⟨(s.metaRow.map SealedMeta.counters).getD ⟨0, 0, 0, 0⟩,
      putAll .empty (blobs.map fun (id, blob) => (id, blob.bytes.size)), []⟩ prepared := by
    refine Ready.prepare ⟨?_, fun r hr => absurd hr List.not_mem_nil, fun id hid => .inl hid⟩ (nodup_ids hids _) hprepared
    obtain ⟨old, hold⟩ := Option.ne_none_iff_exists'.mp hrow
    rw [hold]
    exact hs.counted old hold
  have hfound : ∀ id, prepared.available.get? id ≠ none → (putAll s.blobs blobs).get? id ≠ none := by
    intro id hid
    obtain hpage | hid := hready.found id hid
    · obtain ⟨length, hpage⟩ := Option.ne_none_iff_exists'.mp hpage
      obtain hmem | hempty := mem_of_get?_putAll hpage
      · obtain ⟨b, hb, heq⟩ := List.mem_map.mp hmem
        cases heq
        exact get?_putAll_of_mem (List.mem_map_of_mem hb)
      · cases hempty
    · exact get?_putAll_of_get? (hheld id hid)
  refine ⟨fun row hr => ?_, fun hr => (by cases hr), fun id e he hc => ?_⟩
  · cases hr
    exact hready.counted
  · obtain hnew | hold := mem_of_get?_putAll he
    · obtain ⟨row, hrow, hid, hav⟩ := hready.backs _ hnew hc
      exact ⟨row, hrow, hid, hfound _ hav⟩
    · obtain ⟨row, hrow, hid, hblob⟩ := hs.backed id e hold hc
      exact ⟨row, hrow, hid, get?_putAll_of_get? hblob⟩

lemma Sound.erasePartition (hs : Sound ids s) : Sound ids (erasePartition s) := by
  unfold Sealed.erasePartition
  split
  · rename_i hrow
    rw [← (hs.blank hrow).1, ← (hs.blank hrow).2]
    exact hs
  · split
    · exact hs
    · exact sound_empty _ rfl

end Sound

end TinyCloud.Sealed

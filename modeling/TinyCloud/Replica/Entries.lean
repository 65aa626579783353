import TinyCloud.Replica.Store

/-! The entry table under upserts: one row a key, and which rows a page leaves alone. -/

namespace TinyCloud.Replica

def keys (entries : List EntryRow) : List String :=
  entries.map fun e => e.entry.key

variable {entries : List EntryRow} {e : EntryRow} {key : String} {p : VerifiedPage}
  {reused : String → Option ℕ}

lemma key_changeRow (c : VerifiedChange) : (changeRow p reused c).entry.key = c.key := by
  cases c <;> rfl

lemma entry_changeRow (c : VerifiedChange) : (changeRow p reused c).entry = c := by
  cases c <;> rfl

lemma keys_upsert : keys (upsert entries e) =
    if e.entry.key ∈ keys entries then keys entries else keys entries ++ [e.entry.key] := by
  unfold upsert
  by_cases h : entries.any (fun o => o.entry.key == e.entry.key) = true
  · have hm : e.entry.key ∈ keys entries := by
      obtain ⟨o, ho, hk⟩ := List.any_eq_true.mp h
      exact List.mem_map.mpr ⟨o, ho, beq_iff_eq.mp hk⟩
    rw [if_pos h, if_pos hm, keys, List.map_map]
    refine List.map_congr_left fun o _ => ?_
    simp only [Function.comp_apply]
    split
    · rename_i hk
      exact (beq_iff_eq.mp hk).symm
    · rfl
  · have hm : e.entry.key ∉ keys entries := by
      intro hm
      obtain ⟨o, ho, hk⟩ := List.mem_map.mp hm
      exact h (List.any_eq_true.mpr ⟨o, ho, beq_iff_eq.mpr hk⟩)
    rw [if_neg h, if_neg hm]
    simp [keys]

lemma nodup_upsert (h : (keys entries).Nodup) : (keys (upsert entries e)).Nodup := by
  rw [keys_upsert]
  split
  · exact h
  · rename_i hn
    refine List.nodup_append.mpr ⟨h, List.nodup_singleton _, ?_⟩
    rintro k hk k' hk' rfl
    exact hn (List.mem_singleton.mp hk' ▸ hk)

lemma lookup_upsert_self : lookup (upsert entries e) e.entry.key = some e := by
  unfold lookup upsert
  split
  · rename_i h
    induction entries with
    | nil => simp at h
    | cons o os ih =>
      rw [List.map_cons, List.find?_cons]
      by_cases hk : (o.entry.key == e.entry.key) = true
      · simp [hk]
      · rw [List.any_cons, Bool.or_eq_true] at h
        rw [if_neg hk]
        simp only [hk]
        exact ih (h.resolve_left hk)
  · rename_i h
    rw [List.find?_append]
    have hn : entries.find? (fun o => o.entry.key == e.entry.key) = none := by
      rw [List.find?_eq_none]
      intro o ho hk
      exact h (List.any_eq_true.mpr ⟨o, ho, hk⟩)
    simp [hn]

lemma lookup_upsert_of_ne (hne : key ≠ e.entry.key) :
    lookup (upsert entries e) key = lookup entries key := by
  unfold lookup upsert
  split
  · rename_i h
    clear h
    induction entries with
    | nil => rfl
    | cons o os ih =>
      rw [List.map_cons, List.find?_cons, List.find?_cons, ih]
      by_cases hk : o.entry.key = e.entry.key
      · have ho : (o.entry.key == key) = false := by
          rw [hk]
          simpa using hne.symm
        have he : (e.entry.key == key) = false := by simpa using hne.symm
        simp [hk, he]
      · simp [hk]
  · rw [List.find?_append]
    have he : (e.entry.key == key) = false := by simpa using hne.symm
    simp [he]

lemma nodup_applyChanges (h : (keys entries).Nodup) : (keys (applyChanges entries p reused)).Nodup := by
  unfold applyChanges
  induction p.changes generalizing entries with
  | nil => exact h
  | cons c cs ih => exact ih (nodup_upsert h)

lemma mem_upsert {o : EntryRow} (h : o ∈ upsert entries e) : o ∈ entries ∨ o = e := by
  unfold upsert at h
  split at h
  · obtain ⟨o', ho, rfl⟩ := List.mem_map.mp h
    split
    · exact .inr rfl
    · exact .inl ho
  · rcases List.mem_append.mp h with h | h
    · exact .inl h
    · exact .inr (List.mem_singleton.mp h)

lemma mem_foldl_upsert {f : VerifiedChange → EntryRow} (hf : ∀ c, (f c).entry = c)
    {cs : List VerifiedChange} {o : EntryRow}
    (h : o ∈ cs.foldl (fun t c => upsert t (f c)) entries) : o ∈ entries ∨ o.entry ∈ cs := by
  induction cs generalizing entries with
  | nil => exact .inl h
  | cons c cs ih =>
    rcases ih h with h | h
    · rcases mem_upsert h with h | rfl
      · exact .inl h
      · rw [hf]
        exact .inr List.mem_cons_self
    · exact .inr (List.mem_cons_of_mem _ h)

lemma mem_applyChanges {o : EntryRow} (h : o ∈ applyChanges entries p reused) :
    o ∈ entries ∨ o.entry ∈ p.changes :=
  mem_foldl_upsert entry_changeRow h

lemma lookup_foldl_upsert_of_not_mem {f : VerifiedChange → EntryRow}
    (hf : ∀ c, (f c).entry.key = c.key) {cs : List VerifiedChange}
    (h : key ∉ cs.map LocalEntry.key) :
    lookup (cs.foldl (fun t c => upsert t (f c)) entries) key = lookup entries key := by
  induction cs generalizing entries with
  | nil => rfl
  | cons c cs ih =>
    rw [List.map_cons, List.mem_cons, not_or] at h
    rw [List.foldl_cons, ih h.2, lookup_upsert_of_ne]
    rw [hf]
    exact h.1

lemma lookup_applyChanges_of_not_mem (h : key ∉ p.changes.map LocalEntry.key) :
    lookup (applyChanges entries p reused) key = lookup entries key :=
  lookup_foldl_upsert_of_not_mem key_changeRow h

lemma lookup_of_mem (hn : (keys entries).Nodup) (he : e ∈ entries) :
    lookup entries e.entry.key = some e := by
  unfold lookup
  induction entries with
  | nil => cases he
  | cons o os ih =>
    rw [keys, List.map_cons, List.nodup_cons] at hn
    rw [List.find?_cons]
    rcases List.mem_cons.mp he with rfl | he
    · simp
    · have hne : (o.entry.key == e.entry.key) = false := by
        rw [beq_eq_false_iff_ne]
        intro hk
        exact hn.1 (List.mem_map.mpr ⟨e, he, hk.symm⟩)
      simp only [hne]
      exact ih hn.2 he

lemma mem_of_lookup (h : lookup entries key = some e) : e ∈ entries ∧ e.entry.key = key := by
  have hk := List.find?_some h
  exact ⟨List.mem_of_find?_eq_some h, beq_iff_eq.mp hk⟩

lemma mem_liveRows {row : LiveRow} : row ∈ liveRows entries ↔ ∃ e ∈ entries, e.entry = .live row := by
  unfold liveRows
  rw [List.mem_mergeSort, List.mem_filterMap]
  refine exists_congr fun e => and_congr_right fun _ => ?_
  cases he : e.entry with
  | deleted k => simp [LocalEntry.liveRow]
  | live r => simp [LocalEntry.liveRow]

lemma nodup_liveRows (hn : (keys entries).Nodup) : ((liveRows entries).map LiveRow.key).Nodup := by
  have hperm : ((liveRows entries).map LiveRow.key).Perm
      ((entries.filterMap fun e => e.entry.liveRow).map LiveRow.key) :=
    (List.mergeSort_perm _ _).map _
  refine hperm.nodup_iff.mpr ?_
  have hsub : ((entries.filterMap fun e => e.entry.liveRow).map LiveRow.key).Sublist (keys entries) := by
    clear hn hperm
    induction entries with
    | nil => exact List.Sublist.refl _
    | cons o os ih =>
      rw [keys, List.map_cons]
      cases ho : o.entry with
      | deleted k =>
        rw [List.filterMap_cons_none (by simp [ho, LocalEntry.liveRow])]
        exact ih.cons _
      | live r =>
        rw [List.filterMap_cons_some (by simp [ho, LocalEntry.liveRow]; rfl), List.map_cons]
        exact ih.cons_cons _
  exact hsub.nodup hn

lemma get_of_mem_pendingRepairs {db : Db} {row : LiveRow} (hn : (keys db.entries).Nodup)
    (h : row ∈ pendingRepairs db) : get db row.key = some (.live row) ∧ row.content = false := by
  obtain ⟨hm, hc⟩ := List.mem_filter.mp h
  obtain ⟨e, he, hrow⟩ := mem_liveRows.mp hm
  have hl := lookup_of_mem hn he
  refine ⟨?_, by simpa using hc⟩
  have hk : e.entry.key = row.key := by rw [hrow]; rfl
  rw [get, ← hk, hl, Option.map_some, hrow]

end TinyCloud.Replica

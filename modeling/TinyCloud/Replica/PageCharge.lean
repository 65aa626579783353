import TinyCloud.Replica.ContentFiles
import Mathlib.Algebra.BigOperators.Group.Finset.Basic
import Mathlib.Algebra.GroupWithZero.Nat
import Mathlib.Algebra.Order.BigOperators.Group.Finset
import Mathlib.Algebra.BigOperators.Group.Finset.Piecewise

/-! What a page is charged for admission: the new contents, less those that only the replaced entries hold. -/

namespace TinyCloud.Replica

open TinyCloud.Runs

section Charge

/-- The content that an entry refers to. -/
def LocalEntry.held : LocalEntry → Option String
  | .deleted _ => none
  | .live row => if row.content then some row.hash else none

def keptHashes (p : VerifiedPage) : List String := p.changes.filterMap LocalEntry.held

def changedKeys (p : VerifiedPage) : List String := (p.changes.map LocalEntry.key).dedup

def addedBytes (entries : List EntryRow) (p : VerifiedPage) : ℕ :=
  ((p.blobs.filter fun b => !referenced entries b.1).map fun b => b.2.size).sum

/-- The content that a changed key releases: its old one, if the page does not keep it and changes all its holders. -/
def releasedBy (entries : List EntryRow) (p : VerifiedPage) (key : String) : Option (String × ℕ) := do
  let old ← lookup entries key
  let hash ← old.entry.held
  let size ← old.size
  let holders := entries.filter fun e => e.entry.held == some hash
  if hash ∈ keptHashes p ∨ ∃ holder ∈ holders, holder.entry.key ∉ changedKeys p then none else some (hash, size)

def addReleased (released : List (String × ℕ)) (r : Option (String × ℕ)) : List (String × ℕ) :=
  match r with
  | none => released
  | some (hash, size) => if hash ∈ released.map Prod.fst then released else released ++ [(hash, size)]

def released (entries : List EntryRow) (p : VerifiedPage) : List (String × ℕ) :=
  (changedKeys p).foldl (fun r key => addReleased r (releasedBy entries p key)) []

/-- `blobBytes` of the admission. -/
def netBytes (entries : List EntryRow) (p : VerifiedPage) : ℤ :=
  addedBytes entries p - ((released entries p).map Prod.snd).sum

/-- The contents that the entries refer to. -/
def heldHashes (entries : List EntryRow) : Finset String := (entries.filterMap fun e => e.entry.held).toFinset

/-- The size of the distinct contents that the entries refer to. -/
def heldBytes (size : String → ℕ) (entries : List EntryRow) : ℕ := ∑ hash ∈ heldHashes entries, size hash

/-- One row for each key, and contents with their sizes. -/
structure Stored (size : String → ℕ) (entries : List EntryRow) : Prop where
  nodup : (keys entries).Nodup
  sized : ∀ e ∈ entries, ∀ hash, e.entry.held = some hash → e.size = some (size hash)

/-- The contents of a page are those of its changes, each once. -/
structure Verified (size : String → ℕ) (p : VerifiedPage) : Prop where
  nodup : (p.blobs.map Prod.fst).Nodup
  kept : ∀ b ∈ p.blobs, b.1 ∈ keptHashes p
  sized : ∀ b ∈ p.blobs, b.2.size = size b.1

end Charge

section Released

variable {entries : List EntryRow} {p : VerifiedPage} {size : String → ℕ} {hash key : String}

lemma mem_heldHashes : hash ∈ heldHashes entries ↔ ∃ e ∈ entries, e.entry.held = some hash := by
  simp [heldHashes]

lemma referenced_iff : referenced entries hash = true ↔ hash ∈ heldHashes entries := by
  rw [mem_heldHashes, referenced, List.any_eq_true]
  refine exists_congr fun e => and_congr_right fun _ => ?_
  cases e.entry with
  | deleted key => simp [LocalEntry.held]
  | live row => simp [LocalEntry.held]

lemma foldl_addReleased (f : String → Option (String × ℕ)) (ks : List String) (acc : List (String × ℕ))
    (hacc : (acc.map Prod.fst).Nodup) :
    let r := ks.foldl (fun r key => addReleased r (f key)) acc
    (r.map Prod.fst).Nodup ∧ (∀ e ∈ r, e ∈ acc ∨ ∃ key ∈ ks, f key = some e) ∧ (∀ e ∈ acc, e ∈ r) ∧
      ∀ key ∈ ks, ∀ e, f key = some e → e.1 ∈ r.map Prod.fst := by
  induction ks generalizing acc with
  | nil => exact ⟨hacc, fun e he => .inl he, fun e he => he, fun key hk => absurd hk List.not_mem_nil⟩
  | cons k ks ih =>
    rw [List.foldl_cons]
    have hstep : ((addReleased acc (f k)).map Prod.fst).Nodup ∧
        (∀ e ∈ addReleased acc (f k), e ∈ acc ∨ f k = some e) ∧ (∀ e ∈ acc, e ∈ addReleased acc (f k)) ∧
        ∀ e, f k = some e → e.1 ∈ (addReleased acc (f k)).map Prod.fst := by
      unfold addReleased
      cases hk : f k with
      | none => exact ⟨hacc, fun e he => .inl he, fun e he => he, fun e he => by cases he⟩
      | some r =>
        obtain ⟨hash, n⟩ := r
        dsimp only
        split_ifs with hin
        · exact ⟨hacc, fun e he => .inl he, fun e he => he, fun e he => by cases he; exact hin⟩
        · refine ⟨?_, ?_, ?_, ?_⟩
          · rw [List.map_append, List.nodup_append]
            refine ⟨hacc, List.nodup_singleton _, ?_⟩
            rintro a ha b hb rfl
            simp only [List.map_cons, List.map_nil, List.mem_singleton] at hb
            exact hin (hb ▸ ha)
          · intro e he
            rcases List.mem_append.mp he with he | he
            · exact .inl he
            · exact .inr (by rw [List.mem_singleton.mp he])
          · exact fun e he => List.mem_append_left _ he
          · intro e he
            cases he
            simp
    obtain ⟨hnodup, hfrom, hkeep, hmem⟩ := ih _ hstep.1
    refine ⟨hnodup, ?_, fun e he => hkeep e (hstep.2.2.1 e he), ?_⟩
    · intro e he
      rcases hfrom e he with he | ⟨key, hkey, he⟩
      · rcases hstep.2.1 e he with he | he
        · exact .inl he
        · exact .inr ⟨k, List.mem_cons_self, he⟩
      · exact .inr ⟨key, List.mem_cons_of_mem _ hkey, he⟩
    · intro key hkey e he
      rcases List.mem_cons.mp hkey with rfl | hkey
      · obtain ⟨e', he', heq⟩ := List.mem_map.mp (hstep.2.2.2 e he)
        exact List.mem_map.mpr ⟨e', hkeep e' he', heq⟩
      · exact hmem key hkey e he

lemma mem_changedKeys : key ∈ changedKeys p ↔ key ∈ p.changes.map LocalEntry.key := List.mem_dedup

lemma mem_keptHashes : hash ∈ keptHashes p ↔ ∃ c ∈ p.changes, c.held = some hash := List.mem_filterMap

lemma releasedBy_eq (hs : Stored size entries) {n : ℕ} : releasedBy entries p key = some (hash, n) ↔
    n = size hash ∧ hash ∉ keptHashes p ∧ (∃ e, lookup entries key = some e ∧ e.entry.held = some hash) ∧
      ∀ e ∈ entries, e.entry.held = some hash → e.entry.key ∈ changedKeys p := by
  unfold releasedBy
  simp only [Option.bind_eq_bind, Option.bind_eq_some_iff, Option.ite_none_left_eq_some, Option.some.injEq, Prod.mk.injEq,
    not_or, not_exists, not_and, not_not, List.mem_filter, beq_iff_eq, and_imp]
  constructor
  · rintro ⟨old, hold, h, hheld, m, hsize, ⟨hkept, hholders⟩, rfl, rfl⟩
    have hsized := hs.sized old (mem_of_lookup hold).1 h hheld
    rw [hsize, Option.some.injEq] at hsized
    exact ⟨hsized, hkept, ⟨old, hold, hheld⟩, hholders⟩
  · rintro ⟨rfl, hkept, ⟨old, hold, hheld⟩, hholders⟩
    exact ⟨old, hold, hash, hheld, _, hs.sized old (mem_of_lookup hold).1 hash hheld, ⟨hkept, hholders⟩, rfl, rfl⟩

/-- What is released: contents that only changed keys hold and that the page does not keep. -/
lemma mem_released (hs : Stored size entries) : hash ∈ (released entries p).map Prod.fst ↔
    hash ∈ heldHashes entries ∧ hash ∉ keptHashes p ∧
      ∀ e ∈ entries, e.entry.held = some hash → e.entry.key ∈ changedKeys p := by
  obtain ⟨-, hfrom, -, hmem⟩ := foldl_addReleased (releasedBy entries p) (changedKeys p) [] List.nodup_nil
  constructor
  · intro h
    obtain ⟨e, he, rfl⟩ := List.mem_map.mp h
    obtain he | ⟨key, -, he⟩ := hfrom e he
    · cases he
    · obtain ⟨-, hkept, ⟨old, hold, hheld⟩, hholders⟩ := (releasedBy_eq hs).mp he
      exact ⟨mem_heldHashes.mpr ⟨old, (mem_of_lookup hold).1, hheld⟩, hkept, hholders⟩
  · rintro ⟨hheld, hkept, hholders⟩
    obtain ⟨e, he, hheld⟩ := mem_heldHashes.mp hheld
    have hlookup := lookup_of_mem hs.nodup he
    have hreleased : releasedBy entries p e.entry.key = some (hash, size hash) :=
      (releasedBy_eq hs).mpr ⟨rfl, hkept, ⟨e, hlookup, hheld⟩, hholders⟩
    exact hmem e.entry.key (hholders e he hheld) (hash, size hash) hreleased

lemma released_sum (hs : Stored size entries) :
    ((released entries p).map Prod.snd).sum = ∑ hash ∈ ((released entries p).map Prod.fst).toFinset, size hash := by
  obtain ⟨hnodup, hfrom, -, -⟩ := foldl_addReleased (releasedBy entries p) (changedKeys p) [] List.nodup_nil
  have hsnd : (released entries p).map Prod.snd = ((released entries p).map Prod.fst).map size := by
    rw [List.map_map]
    refine List.map_congr_left fun e he => ?_
    obtain he | ⟨key, -, he⟩ := hfrom e he
    · cases he
    · exact ((releasedBy_eq hs).mp he).1
  rw [hsnd]
  exact (List.sum_toFinset size hnodup).symm

lemma addedBytes_sum (hp : Verified size p) :
    addedBytes entries p = ∑ hash ∈ (p.blobs.map Prod.fst).toFinset \ heldHashes entries, size hash := by
  have hmap : ∀ l : List (String × ByteArray), (∀ b ∈ l, b.2.size = size b.1) →
      l.map (fun b => b.2.size) = (l.map Prod.fst).map size := by
    intro l hl
    rw [List.map_map]
    exact List.map_congr_left hl
  have hfilter : (p.blobs.map Prod.fst).toFinset \ heldHashes entries =
      ((p.blobs.filter fun b => !referenced entries b.1).map Prod.fst).toFinset := by
    ext hash
    simp only [Finset.mem_sdiff, List.mem_toFinset, List.mem_map, List.mem_filter, Bool.not_eq_true', ← referenced_iff,
      Bool.not_eq_true]
    constructor
    · rintro ⟨⟨b, hb, rfl⟩, href⟩
      exact ⟨b, ⟨hb, href⟩, rfl⟩
    · rintro ⟨b, ⟨hb, href⟩, rfl⟩
      exact ⟨⟨b, hb, rfl⟩, href⟩
  have hnodup : ((p.blobs.filter fun b => !referenced entries b.1).map Prod.fst).Nodup :=
    hp.nodup.sublist (List.filter_sublist.map _)
  rw [addedBytes, hmap _ fun b hb => hp.sized b (List.mem_filter.mp hb).1, hfilter, List.sum_toFinset size hnodup]

end Released

section Change

variable {entries : List EntryRow} {p : VerifiedPage} {size : String → ℕ} {hash key : String} {reused : String → Option ℕ}

lemma lookup_foldl_upsert_of_mem {f : VerifiedChange → EntryRow} (hf : ∀ c, (f c).entry.key = c.key)
    {cs : List VerifiedChange} (h : key ∈ cs.map LocalEntry.key) :
    ∃ c ∈ cs, c.key = key ∧ lookup (cs.foldl (fun t c => upsert t (f c)) entries) key = some (f c) := by
  induction cs generalizing entries with
  | nil => cases h
  | cons c cs ih =>
    by_cases hin : key ∈ cs.map LocalEntry.key
    · obtain ⟨d, hd, hkey, hlookup⟩ := @ih (upsert entries (f c)) hin
      exact ⟨d, List.mem_cons_of_mem _ hd, hkey, hlookup⟩
    · have hkey : key = c.key := (List.mem_cons.mp h).resolve_right hin
      refine ⟨c, List.mem_cons_self, hkey.symm, ?_⟩
      rw [List.foldl_cons, lookup_foldl_upsert_of_not_mem hf hin, hkey, ← hf c]
      exact lookup_upsert_self

lemma lookup_applyChanges_of_mem (h : key ∈ p.changes.map LocalEntry.key) :
    ∃ c ∈ p.changes, c.key = key ∧ lookup (applyChanges entries p reused) key = some (changeRow p reused c) :=
  lookup_foldl_upsert_of_mem key_changeRow h

lemma mem_applyChanges_unchanged {e : EntryRow} (hn : (keys entries).Nodup) (he : e ∈ entries)
    (hkey : e.entry.key ∉ p.changes.map LocalEntry.key) : e ∈ applyChanges entries p reused := by
  have hlookup := lookup_of_mem hn he
  rw [← lookup_applyChanges_of_not_mem hkey] at hlookup
  exact (mem_of_lookup hlookup).1

/-- The rows of unchanged keys stay, and the other rows are those of changes. -/
lemma mem_applyChanges_cases {e : EntryRow} (hn : (keys entries).Nodup) (he : e ∈ applyChanges entries p reused) :
    (e ∈ entries ∧ e.entry.key ∉ p.changes.map LocalEntry.key) ∨ ∃ c ∈ p.changes, e = changeRow p reused c := by
  have hlookup := lookup_of_mem (nodup_applyChanges hn) he
  by_cases hkey : e.entry.key ∈ p.changes.map LocalEntry.key
  · obtain ⟨c, hc, -, hrow⟩ := @lookup_applyChanges_of_mem entries p _ reused hkey
    rw [hrow] at hlookup
    exact .inr ⟨c, hc, (Option.some.inj hlookup).symm⟩
  · rw [lookup_applyChanges_of_not_mem hkey] at hlookup
    exact .inl ⟨(mem_of_lookup hlookup).1, hkey⟩

lemma mem_applyChanges_once {c : VerifiedChange} (honce : (p.changes.map LocalEntry.key).Nodup) (hc : c ∈ p.changes) :
    changeRow p reused c ∈ applyChanges entries p reused := by
  obtain ⟨d, hd, hkey, hlookup⟩ := @lookup_applyChanges_of_mem entries p _ reused (List.mem_map_of_mem hc)
  obtain rfl : d = c := List.inj_on_of_nodup_map honce hd hc hkey
  exact (mem_of_lookup hlookup).1

lemma held_eq_some {c : VerifiedChange} : c.held = some hash ↔ ∃ row, c = .live row ∧ row.content = true ∧ row.hash = hash := by
  cases c with
  | deleted key => simp [LocalEntry.held]
  | live row => simp [LocalEntry.held]

/-- The contents that a page keeps come with it or are held already. -/
lemma fence_resolves {db : Db} {t : LeaseToken} {now : ℕ} (h : applyPageFence db t p now = .ok reused)
    (hkept : hash ∈ keptHashes p) : hash ∈ p.blobs.map Prod.fst ∨ hash ∈ heldHashes db.entries := by
  obtain ⟨c, hc, hheld⟩ := mem_keptHashes.mp hkept
  obtain ⟨row, rfl, hcontent, rfl⟩ := held_eq_some.mp hheld
  rcases applyPageFence_ok h hc hcontent with hblob | ⟨e, he, row', hrow, hcontent', hhash⟩
  · exact .inl hblob
  · exact .inr (mem_heldHashes.mpr ⟨e, he, held_eq_some.mpr ⟨row', hrow, hcontent', hhash⟩⟩)

lemma fence_reused {db : Db} {t : LeaseToken} {now : ℕ} (h : applyPageFence db t p now = .ok reused) :
    reused = reusedSize db.entries := by
  obtain ⟨_, _, h⟩ := bind_eq_ok h
  obtain ⟨_, _, h⟩ := bind_eq_ok h
  dsimp only at h
  split at h
  · cases h
    rfl
  · cases h

/-- The contents after a page: those of the unchanged keys, and kept ones. -/
lemma held_after (hn : (keys entries).Nodup) (h : hash ∈ heldHashes (applyChanges entries p reused)) :
    (∃ e ∈ entries, e.entry.held = some hash ∧ e.entry.key ∉ changedKeys p) ∨ hash ∈ keptHashes p := by
  obtain ⟨e, he, hheld⟩ := mem_heldHashes.mp h
  rcases mem_applyChanges_cases hn he with ⟨he, hkey⟩ | ⟨c, hc, rfl⟩
  · exact .inl ⟨e, he, hheld, fun h => hkey (mem_changedKeys.mp h)⟩
  · rw [entry_changeRow] at hheld
    exact .inr (mem_keptHashes.mpr ⟨c, hc, hheld⟩)

lemma held_unchanged {e : EntryRow} (hn : (keys entries).Nodup) (he : e ∈ entries) (hheld : e.entry.held = some hash)
    (hkey : e.entry.key ∉ changedKeys p) : hash ∈ heldHashes (applyChanges entries p reused) :=
  mem_heldHashes.mpr ⟨e, mem_applyChanges_unchanged hn he fun h => hkey (mem_changedKeys.mpr h), hheld⟩

lemma kept_held (honce : (p.changes.map LocalEntry.key).Nodup) (h : hash ∈ keptHashes p) :
    hash ∈ heldHashes (applyChanges entries p reused) := by
  obtain ⟨c, hc, hheld⟩ := mem_keptHashes.mp h
  refine mem_heldHashes.mpr ⟨changeRow p reused c, mem_applyChanges_once honce hc, ?_⟩
  rwa [entry_changeRow]

lemma change_eq (size : String → ℕ) (entries after : List EntryRow) :
    heldBytes size after + ∑ hash ∈ heldHashes entries \ heldHashes after, size hash =
      heldBytes size entries + ∑ hash ∈ heldHashes after \ heldHashes entries, size hash := by
  have hafter := Finset.sum_inter_add_sum_sdiff (heldHashes after) (heldHashes entries) size
  have hbefore := Finset.sum_inter_add_sum_sdiff (heldHashes entries) (heldHashes after) size
  rw [Finset.inter_comm] at hbefore
  unfold heldBytes
  omega

lemma reusedSize_eq (hs : Stored size entries) (h : hash ∈ heldHashes entries) : reusedSize entries hash = some (size hash) := by
  obtain ⟨e, he, hheld⟩ := mem_heldHashes.mp h
  obtain ⟨row, hrow, hcontent, hhash⟩ := held_eq_some.mp hheld
  have hsome : (reusedSize entries hash).isSome = true := by
    unfold reusedSize
    rw [List.findSome?_isSome_iff]
    exact ⟨e, he, by simp [hrow, hcontent, hhash, hs.sized e he hash hheld]⟩
  obtain ⟨n, hn⟩ := Option.isSome_iff_exists.mp hsome
  have hn' := hn
  unfold reusedSize at hn'
  obtain ⟨o, ho, hsize⟩ := List.exists_of_findSome?_eq_some hn'
  split at hsize
  · rename_i row' hrow'
    rw [Option.ite_none_right_eq_some, Bool.and_eq_true, beq_iff_eq] at hsize
    obtain ⟨⟨rfl, hcontent'⟩, hsize⟩ := hsize
    rw [hs.sized o ho _ (held_eq_some.mpr ⟨row', hrow', hcontent', rfl⟩)] at hsize
    rw [hn, ← hsize]
  · cases hsize

/-- The table stays one of contents with their sizes. -/
theorem stored_applyChanges {db : Db} {t : LeaseToken} {now : ℕ} (hs : Stored size db.entries) (hp : Verified size p)
    (hfence : applyPageFence db t p now = .ok reused) : Stored size (applyChanges db.entries p reused) := by
  refine ⟨nodup_applyChanges hs.nodup, fun e he hash hheld => ?_⟩
  rcases mem_applyChanges_cases hs.nodup he with ⟨he, -⟩ | ⟨c, hc, rfl⟩
  · exact hs.sized e he hash hheld
  · rw [entry_changeRow] at hheld
    obtain ⟨row, rfl, hcontent, rfl⟩ := held_eq_some.mp hheld
    have hkept := mem_keptHashes.mpr ⟨_, hc, hheld⟩
    simp only [changeRow, hcontent, if_true]
    cases hblob : p.blobs.lookup row.hash with
    | some bytes =>
      obtain ⟨l, r, heq, -⟩ := List.lookup_eq_some_iff.mp hblob
      have hmem : (row.hash, bytes) ∈ p.blobs := by simp [heq]
      exact congrArg some (hp.sized _ hmem)
    | none =>
      have hnot : row.hash ∉ p.blobs.map Prod.fst := by
        intro hin
        obtain ⟨b, hb, heq⟩ := List.mem_map.mp hin
        exact absurd heq.symm (by simpa using List.lookup_eq_none_iff.mp hblob b hb)
      have hheld := (fence_resolves hfence hkept).resolve_left hnot
      rw [fence_reused hfence]
      exact reusedSize_eq hs hheld

/-- A page is charged at least what it changes, and exactly that if it names each key once. -/
theorem netBytes_covers {db : Db} {t : LeaseToken} {now : ℕ} (hs : Stored size db.entries) (hp : Verified size p)
    (hfence : applyPageFence db t p now = .ok reused) :
    (heldBytes size (applyChanges db.entries p reused) : ℤ) - heldBytes size db.entries ≤ netBytes db.entries p ∧
      ((p.changes.map LocalEntry.key).Nodup →
        (heldBytes size (applyChanges db.entries p reused) : ℤ) - heldBytes size db.entries = netBytes db.entries p) := by
  have hadded : heldHashes (applyChanges db.entries p reused) \ heldHashes db.entries ⊆
      (p.blobs.map Prod.fst).toFinset \ heldHashes db.entries := by
    intro hash h
    obtain ⟨hafter, hnot⟩ := Finset.mem_sdiff.mp h
    refine Finset.mem_sdiff.mpr ⟨?_, hnot⟩
    rcases held_after hs.nodup hafter with ⟨e, he, hheld, -⟩ | hkept
    · exact absurd (mem_heldHashes.mpr ⟨e, he, hheld⟩) hnot
    · exact List.mem_toFinset.mpr ((fence_resolves hfence hkept).resolve_right hnot)
  have hfreed : ((released db.entries p).map Prod.fst).toFinset ⊆
      heldHashes db.entries \ heldHashes (applyChanges db.entries p reused) := by
    intro hash h
    obtain ⟨hheld, hkept, hholders⟩ := (mem_released hs).mp (List.mem_toFinset.mp h)
    refine Finset.mem_sdiff.mpr ⟨hheld, fun hafter => ?_⟩
    rcases held_after hs.nodup hafter with ⟨e, he, hheld, hkey⟩ | h
    · exact hkey (hholders e he hheld)
    · exact hkept h
  have hchange := change_eq size db.entries (applyChanges db.entries p reused)
  unfold netBytes
  rw [addedBytes_sum hp, released_sum hs]
  constructor
  · have hle := Finset.sum_le_sum_of_subset hadded (f := size)
    have hge := Finset.sum_le_sum_of_subset hfreed (f := size)
    omega
  · intro honce
    have hadded' : (p.blobs.map Prod.fst).toFinset \ heldHashes db.entries ⊆
        heldHashes (applyChanges db.entries p reused) \ heldHashes db.entries := by
      intro hash h
      obtain ⟨hblob, hnot⟩ := Finset.mem_sdiff.mp h
      obtain ⟨b, hb, rfl⟩ := List.mem_map.mp (List.mem_toFinset.mp hblob)
      exact Finset.mem_sdiff.mpr ⟨kept_held honce (hp.kept b hb), hnot⟩
    have hfreed' : heldHashes db.entries \ heldHashes (applyChanges db.entries p reused) ⊆
        ((released db.entries p).map Prod.fst).toFinset := by
      intro hash h
      obtain ⟨hheld, hafter⟩ := Finset.mem_sdiff.mp h
      refine List.mem_toFinset.mpr ((mem_released hs).mpr ⟨hheld, fun hkept => hafter (kept_held honce hkept), ?_⟩)
      intro e he hheld
      by_contra hkey
      exact hafter (held_unchanged hs.nodup he hheld hkey)
    rw [← hadded.antisymm hadded', hfreed.antisymm hfreed']
    omega

end Change

section Engine

variable {contentHash : ByteArray → String} {size : String → ℕ} {blobs : List (String × ByteArray)}

lemma setBlob_nodup (h : (blobs.map Prod.fst).Nodup) (hash : String) (bytes : ByteArray) :
    ((setBlob blobs hash bytes).map Prod.fst).Nodup := by
  unfold setBlob
  rw [List.map_append, List.nodup_append]
  refine ⟨h.sublist (List.filter_sublist.map _), List.nodup_singleton _, ?_⟩
  rintro a ha b hb rfl
  obtain ⟨c, hc, rfl⟩ := List.mem_map.mp ha
  have hne := (List.mem_filter.mp hc).2
  simp only [List.map_cons, List.map_nil, List.mem_singleton] at hb
  simp [hb] at hne

lemma mem_setBlob {hash : String} {bytes : ByteArray} {b : String × ByteArray} (h : b ∈ setBlob blobs hash bytes) :
    b ∈ blobs ∨ b.1 = hash := by
  rcases List.mem_append.mp h with h | h
  · exact .inl (List.mem_filter.mp h).1
  · exact .inr (by rw [List.mem_singleton.mp h])

lemma verifyChange_blobs {reads : PageReads} {c : Change} {v : VerifiedChange × List (String × ByteArray)}
    (hv : verifyChange contentHash reads blobs c = .ok v) (h : (blobs.map Prod.fst).Nodup) :
    (v.2.map Prod.fst).Nodup ∧ ∀ b ∈ v.2, b ∈ blobs ∨ v.1.held = some b.1 := by
  unfold verifyChange at hv
  split at hv
  · cases hv
    exact ⟨h, fun b hb => .inl hb⟩
  · split at hv
    · cases hv
    · split at hv
      · cases hv
        exact ⟨h, fun b hb => .inl hb⟩
      · split at hv
        · cases hv
        · cases hv
          exact ⟨h, fun b hb => .inl hb⟩
        · cases hv
          refine ⟨setBlob_nodup h _ _, fun b hb => (mem_setBlob hb).imp_right ?_⟩
          rintro rfl
          rfl

lemma verifyChanges_blobs {reads : PageReads} {cs : List Change} {v : List VerifiedChange × List (String × ByteArray)}
    (hv : verifyChanges contentHash reads cs blobs = .ok v) (h : (blobs.map Prod.fst).Nodup) :
    (v.2.map Prod.fst).Nodup ∧ ∀ b ∈ v.2, b ∈ blobs ∨ b.1 ∈ v.1.filterMap LocalEntry.held := by
  induction cs generalizing blobs v with
  | nil =>
    cases hv
    exact ⟨h, fun b hb => .inl hb⟩
  | cons c cs ih =>
    obtain ⟨w, hw, hv⟩ := bind_eq_ok hv
    obtain ⟨ws, hws, hv⟩ := bind_eq_ok hv
    cases hv
    obtain ⟨hnodup, hfirst⟩ := verifyChange_blobs hw h
    obtain ⟨hnodup, hrest⟩ := ih hws hnodup
    refine ⟨hnodup, fun b hb => ?_⟩
    have hsub : ws.1.filterMap LocalEntry.held ⊆ (w.1 :: ws.1).filterMap LocalEntry.held :=
      ((List.sublist_cons_self _ _).filterMap _).subset
    rcases hrest b hb with hb | hb
    · refine (hfirst b hb).imp_right fun hheld => List.mem_filterMap.mpr ⟨w.1, List.mem_cons_self, hheld⟩
    · exact .inr (hsub hb)

lemma repairChanges_blobs {contents : String → Option FetchedContent} {rows : List LiveRow}
    {v : List VerifiedChange × List (String × ByteArray)} (hv : repairChanges contentHash contents rows blobs = .ok v)
    (h : (blobs.map Prod.fst).Nodup) :
    (v.2.map Prod.fst).Nodup ∧ ∀ b ∈ v.2, b ∈ blobs ∨ b.1 ∈ v.1.filterMap LocalEntry.held := by
  induction rows generalizing blobs v with
  | nil =>
    cases hv
    exact ⟨h, fun b hb => .inl hb⟩
  | cons row rows ih =>
    obtain ⟨r, hr, hv⟩ := bind_eq_ok hv
    split at hv
    · exact ih hv h
    · obtain ⟨ws, hws, hv⟩ := bind_eq_ok hv
      cases hv
      obtain ⟨hnodup, hrest⟩ := ih hws (setBlob_nodup h _ _)
      refine ⟨hnodup, fun b hb => ?_⟩
      have hsub : ws.1.filterMap LocalEntry.held ⊆
          (LocalEntry.live { row with content := true } :: ws.1).filterMap LocalEntry.held :=
        ((List.sublist_cons_self _ _).filterMap _).subset
      rcases hrest b hb with hb | hb
      · refine (mem_setBlob hb).imp_right fun hhash => ?_
        refine List.mem_filterMap.mpr ⟨_, List.mem_cons_self, ?_⟩
        rw [hhash]
        rfl
      · exact .inr (hsub hb)

/-- The pages that a sync verifies, from the feed and for repair, are verified ones. -/
theorem verified_pages (hsize : ∀ bytes, size (contentHash bytes) = bytes.size) (a : Attempt) (m : Memory) (window : CommitWindow) :
    (∀ page reads v, verifyChanges contentHash reads page.changes [] = .ok v → Verified size (feedPage a m page window v)) ∧
      ∀ row contents rows v, repairChanges contentHash contents rows [] = .ok v → Verified size (repairPage row m window v) := by
  constructor
  · intro page reads v hv
    obtain ⟨hnodup, hkept⟩ := verifyChanges_blobs hv List.nodup_nil
    have hhashed := hashed_verifyChanges hashed_nil hv
    refine ⟨hnodup, fun b hb => (hkept b hb).resolve_left List.not_mem_nil, fun b hb => ?_⟩
    rw [← hhashed b hb, hsize]
  · intro row contents rows v hv
    obtain ⟨hnodup, hkept⟩ := repairChanges_blobs hv List.nodup_nil
    have hhashed := hashed_repairChanges hashed_nil hv
    refine ⟨hnodup, fun b hb => (hkept b hb).resolve_left List.not_mem_nil, fun b hb => ?_⟩
    rw [← hhashed b hb, hsize]

end Engine

end TinyCloud.Replica

import TinyCloud.Replica.Steps
import TinyCloud.Replica.Entries

/-! Feed application is serial: whatever processes sync, reset and crash, the
committed entries and cursor are those of one chain of pages since the last
clearing, each requested with the cursor the one before it committed. -/

namespace TinyCloud.Replica

open Runs

def Event.entries (entries : List EntryRow) : Event → List EntryRow
  | .feed _ _ _ p reused => applyChanges entries p reused
  | .repair p reused => applyChanges entries p reused
  | .cleared => []

def Event.cursor (cursor : Option String) : Event → Option String
  | .feed _ _ page _ _ => some page.cursor
  | .repair _ _ => cursor
  | .cleared => none

def Event.reply : Event → Option ℕ
  | .feed reply _ _ _ _ => some reply
  | _ => none

def replay (history : List Event) : List EntryRow :=
  history.foldl Event.entries []

def replayCursor (history : List Event) : Option String :=
  history.foldl Event.cursor none

def Attests : VerifiedChange → Change → Prop
  | .deleted key, .deleted key' => key = key'
  | .live row, .live key etag metadata =>
    row.key = key ∧ row.etag = etag ∧ row.metadata = metadata ∧ hashFromEtag etag = some row.hash
  | _, _ => False

/-- The change stores the content of an entry that was missing it, and nothing else. -/
def FillsIn (entries : List EntryRow) (c : VerifiedChange) : Prop :=
  ∃ row, c = .live { row with content := true } ∧ row.content = false ∧
    (lookup entries row.key).map EntryRow.entry = some (.live row)

def Serial (before : List Event) : Event → Prop
  | .feed _ requested page p _ =>
    requested = replayCursor before ∧ List.Forall₂ Attests p.changes page.changes
  | .repair p _ => ∀ c ∈ p.changes, FillsIn (replay before) c
  | .cleared => True

/-- `once`: no answer of the node is committed twice. -/
structure Explained (db : Db) (history : List Event) : Prop where
  entries : db.entries = replay history
  cursor : db.row.cursor = replayCursor history
  serial : ∀ i e, history[i]? = some e → Serial (history.take i) e
  once : (history.filterMap Event.reply).Nodup

def Repairs (db : Db) (rest : List LiveRow) : Prop :=
  (rest.map LiveRow.key).Nodup ∧
    ∀ row ∈ rest, get db row.key = some (.live row) ∧ row.content = false

def Origin.Coherent (db : Db) (m : Memory) (p : VerifiedPage) : Origin → Prop
  | .feed _ requested page => requested = m.cursor ∧ p.cursor = some page.cursor ∧
      List.Forall₂ Attests p.changes page.changes
  | .repair rest => p.cursor = m.cursor ∧ Repairs db rest ∧
      (∀ c ∈ p.changes, FillsIn db.entries c) ∧ ∀ c ∈ p.changes, ∀ row ∈ rest, row.key ≠ c.key

/-- What a session remembers is what the replica holds. -/
def Session.Coherent (db : Db) : Session → Prop
  | .requesting _ m | .verifying _ m _ _ _ | .drained _ m => m.cursor = db.row.cursor
  | .applying _ m o p | .writing _ m o p _ _ => m.cursor = db.row.cursor ∧ o.Coherent db m p
  | .committed _ _ (.feed _ _ page) _ => db.row.cursor = some page.cursor
  | .committed _ m (.repair rest) _ => m.cursor = db.row.cursor ∧ Repairs db rest
  | .repairing _ m rest => m.cursor = db.row.cursor ∧ Repairs db rest
  | _ => True

def Session.reply : Session → Option ℕ
  | .verifying _ _ reply _ _ => some reply
  | .applying _ _ (.feed reply _ _) _ | .writing _ _ (.feed reply _ _) _ _ _ => some reply
  | _ => none

structure SerialInv (s : State) : Prop where
  token_le : ∀ {x c lease}, s.sessions x = some c → c.lease = some lease →
    lease.token ≤ s.db.row.leaseToken
  token_ne : ∀ {x y c d lease lease'}, x ≠ y → s.sessions x = some c → s.sessions y = some d →
    c.lease = some lease → d.lease = some lease' → lease.token ≠ lease'.token
  coherent : ∀ {x c}, s.sessions x = some c → Holding s.db c → c.Coherent s.db
  nodup : (keys s.db.entries).Nodup
  explained : Explained s.db s.history
  reply_lt : ∀ {x c n}, s.sessions x = some c → c.reply = some n → n < s.replies
  reply_ne : ∀ {x y c d n k}, x ≠ y → s.sessions x = some c → s.sessions y = some d →
    c.reply = some n → d.reply = some k → n ≠ k
  reply_fresh : ∀ {x c n}, s.sessions x = some c → c.reply = some n →
    n ∉ s.history.filterMap Event.reply
  history_lt : ∀ n ∈ s.history.filterMap Event.reply, n < s.replies

variable {contentHash : ByteArray → String} {s t : State} {x y : ℕ} {c : Option Session} {d : Session}
  {act : SessionAction}

lemma verifyChange_attests {reads : PageReads} {blobs : List (String × ByteArray)} {ch : Change}
    {v : VerifiedChange × List (String × ByteArray)}
    (h : verifyChange contentHash reads blobs ch = .ok v) : Attests v.1 ch := by
  unfold verifyChange at h
  split at h
  · cases h
    rfl
  · split at h
    · cases h
    · rename_i hash hh
      split at h
      · cases h
        exact ⟨rfl, rfl, rfl, hh⟩
      · split at h
        · cases h
        · cases h
          exact ⟨rfl, rfl, rfl, hh⟩
        · cases h
          exact ⟨rfl, rfl, rfl, hh⟩

lemma verifyChanges_attests {reads : PageReads} {blobs : List (String × ByteArray)} {cs : List Change}
    {v : List VerifiedChange × List (String × ByteArray)}
    (h : verifyChanges contentHash reads cs blobs = .ok v) : List.Forall₂ Attests v.1 cs := by
  induction cs generalizing blobs v with
  | nil =>
    cases h
    exact .nil
  | cons ch cs ih =>
    obtain ⟨w, hw, h⟩ := bind_eq_ok h
    obtain ⟨ws, hws, h⟩ := bind_eq_ok h
    cases h
    exact .cons (verifyChange_attests hw) (ih hws)

-- The repaired changes are, in order, some of the batch's rows with their content.
lemma repairChanges_sublist {contents : String → Option FetchedContent} {rows : List LiveRow}
    {blobs : List (String × ByteArray)} {v : List VerifiedChange × List (String × ByteArray)}
    (h : repairChanges contentHash contents rows blobs = .ok v) :
    ∀ ch ∈ v.1, ∃ row ∈ rows, ch = .live { row with content := true } := by
  induction rows generalizing blobs v with
  | nil =>
    cases h
    intro ch hch
    cases hch
  | cons row rows ih =>
    obtain ⟨r, _, h⟩ := bind_eq_ok h
    split at h
    · intro ch hch
      obtain ⟨row', hr, he⟩ := ih h ch hch
      exact ⟨row', List.mem_cons_of_mem _ hr, he⟩
    · obtain ⟨w, hw, h⟩ := bind_eq_ok h
      cases h
      intro ch hch
      rcases List.mem_cons.mp hch with rfl | hch
      · exact ⟨row, List.mem_cons_self, rfl⟩
      · obtain ⟨row', hr, he⟩ := ih hw ch hch
        exact ⟨row', List.mem_cons_of_mem _ hr, he⟩

lemma Explained.append {db db' : Db} {history : List Event} {e : Event} (h : Explained db history)
    (hentries : db'.entries = e.entries db.entries) (hcursor : db'.row.cursor = e.cursor db.row.cursor)
    (hserial : Serial history e) (hfresh : ∀ n, e.reply = some n → n ∉ history.filterMap Event.reply) :
    Explained db' (history ++ [e]) := by
  refine ⟨?_, ?_, ?_, ?_⟩
  · rw [hentries, h.entries, replay, replay, List.foldl_append]
    rfl
  · rw [hcursor, h.cursor, replayCursor, replayCursor, List.foldl_append]
    rfl
  · intro i e' he
    by_cases hi : i < history.length
    · rw [List.getElem?_append_left hi] at he
      rw [List.take_append_of_le_length hi.le]
      exact h.serial i e' he
    · have hlen := (List.getElem?_eq_some_iff.mp he).1
      rw [List.length_append, List.length_singleton] at hlen
      obtain rfl : i = history.length := by omega
      rw [List.getElem?_concat_length, Option.some.injEq] at he
      subst he
      rwa [List.take_left]
  · rw [List.filterMap_append]
    refine List.nodup_append.mpr ⟨h.once, ?_, ?_⟩
    · cases hr : e.reply <;> simp [hr]
    · rintro n hn k hk rfl
      cases hr : e.reply with
      | none => simp [hr] at hk
      | some m =>
        simp only [List.filterMap_cons, hr, List.filterMap_nil, List.mem_singleton] at hk
        subst hk
        exact hfresh _ hr hn

lemma Explained.same {db db' : Db} {history : List Event} (h : Explained db history)
    (hs : SameContent db db') : Explained db' history :=
  ⟨hs.entries.trans h.entries, hs.cursor.trans h.cursor, h.serial, h.once⟩

lemma Origin.Coherent.same {db db' : Db} {m : Memory} {p : VerifiedPage} {o : Origin}
    (h : o.Coherent db m p) (he : db'.entries = db.entries) : o.Coherent db' m p := by
  cases o with
  | feed reply requested page => exact h
  | repair rest =>
    simp only [Origin.Coherent, Repairs, get, he] at h ⊢
    exact h

lemma Session.Coherent.same {db db' : Db} {d : Session} (h : d.Coherent db)
    (he : db'.entries = db.entries) (hc : db'.row.cursor = db.row.cursor) : d.Coherent db' := by
  cases d with
  | applying a m o p => exact ⟨h.1.trans hc.symm, h.2.same he⟩
  | writing a m o p reused unwritten => exact ⟨h.1.trans hc.symm, h.2.same he⟩
  | committed a m o p =>
    cases o with
    | feed reply requested page => exact hc.trans h
    | repair rest =>
      simp only [Session.Coherent, Repairs, get, he, hc] at h ⊢
      exact h
  | repairing a m rest =>
    simp only [Session.Coherent, Repairs, get, he, hc] at h ⊢
    exact h
  | _ =>
    simp only [Session.Coherent, hc] at h ⊢
    try exact h

lemma RowsChange.revokedDetail_eq_none (h : RowsChange act c s t) (ht : t.db.row.revokedDetail = none) :
    s.db.row.revokedDetail = none := by
  cases h with
  | same hs _ => exact hs.revokedDetail ▸ ht
  | acquired _ _ _ _ hr _ _ => exact hr ▸ ht
  | held _ _ _ _ hr => exact hr ▸ ht
  | revoked _ hr _ =>
    rw [ht] at hr
    cases hr

lemma SerialInv.holding_before (hi : SerialInv s) (h : SessionStepped contentHash s x act c t)
    (hx : s.sessions x = c) (hd : t.sessions x = some d) (hh : Holding t.db d) :
    (∃ a, d = .attempting a) ∨ (∃ lease, d = .resetting lease) ∨ ∃ c', c = some c' ∧ Holding s.db c' := by
  obtain ⟨hrev, lease, hl, htok⟩ := hh
  rcases h.lease_cases hx hd hl with ⟨c', rfl, hl'⟩ | ⟨ha | hr, _⟩
  · right; right
    refine ⟨c', rfl, h.rows.revokedDetail_eq_none hrev, lease, hl', ?_⟩
    have hle := hi.token_le hx hl'
    have := h.leaseToken_le
    omega
  · exact .inl ha
  · exact .inr (.inl ⟨lease, hr⟩)

lemma repairs_drop {db : Db} {rest : List LiveRow} (h : Repairs db rest) (n : ℕ) :
    Repairs db (rest.drop n) := by
  refine ⟨?_, fun row hr => h.2 row (List.mem_of_mem_drop hr)⟩
  rw [List.map_drop]
  exact h.1.sublist (List.drop_sublist _ _)

lemma repairs_pending {db : Db} (hn : (keys db.entries).Nodup) (due : String → Bool) :
    Repairs db ((pendingRepairs db).filter fun row => due row.key) := by
  refine ⟨?_, fun row hr => get_of_mem_pendingRepairs hn (List.mem_of_mem_filter hr)⟩
  refine (nodup_liveRows hn).sublist ?_
  exact (List.filter_sublist.trans List.filter_sublist).map _

-- A batch fills in rows of its own, so the rows still to repair are untouched.
lemma coherent_of_batch {db : Db} {m : Memory} {rest : List LiveRow} {window : CommitWindow}
    {contents : String → Option FetchedContent} {v : List VerifiedChange × List (String × ByteArray)}
    (h : Repairs db rest) (hv : repairChanges contentHash contents (rest.take repairBatch) [] = .ok v) :
    (Origin.repair (rest.drop repairBatch)).Coherent db m (repairPage db.row m window v) := by
  have hrows := repairChanges_sublist hv
  refine ⟨rfl, repairs_drop h _, ?_, ?_⟩
  · intro ch hch
    obtain ⟨row, hr, rfl⟩ := hrows ch hch
    obtain ⟨hg, hc⟩ := h.2 row (List.mem_of_mem_take hr)
    exact ⟨row, rfl, hc, hg⟩
  · intro ch hch row hr hk
    obtain ⟨row', hr', rfl⟩ := hrows ch hch
    have hnodup := h.1
    rw [← List.take_append_drop repairBatch rest, List.map_append] at hnodup
    refine (List.nodup_append.mp hnodup).2.2 row'.key (List.mem_map_of_mem hr') row.key
      (List.mem_map_of_mem hr) ?_
    exact hk.symm

lemma repairs_applyChanges {db : Db} {p : VerifiedPage} {reused : String → Option ℕ} {rest : List LiveRow}
    (h : Repairs db rest) (hne : ∀ ch ∈ p.changes, ∀ row ∈ rest, row.key ≠ ch.key) :
    Repairs { db with row := commitRow db.row p, entries := applyChanges db.entries p reused } rest := by
  refine ⟨h.1, fun row hr => ?_⟩
  have hnot : row.key ∉ p.changes.map LocalEntry.key := by
    intro hm
    obtain ⟨ch, hch, hk⟩ := List.mem_map.mp hm
    exact hne ch hch row hr hk.symm
  simp only [get, lookup_applyChanges_of_not_mem hnot]
  exact h.2 row hr

lemma SerialInv.coherent_self (hi : SerialInv s) (h : SessionStepped contentHash s x act c t)
    (hx : s.sessions x = c) (hd : t.sessions x = some d) (hh : Holding t.db d) : d.Coherent t.db := by
  rcases hi.holding_before h hx hd hh with ⟨a, rfl⟩ | ⟨lease, rfl⟩ | ⟨c', rfl, hc⟩
  · trivial
  · trivial
  · have hco := hi.coherent hx hc
    cases h with
    | refused =>
      rw [drop_sessions_self] at hd
      cases hd
    | released =>
      rw [drop_sessions_self] at hd
      cases hd
    | renewed ha hr =>
      obtain rfl : c' = d := Option.some.inj (hx.symm.trans hd)
      have hs := sameContent_renewLease hr
      exact hco.same hs.entries hs.cursor
    | ready hm =>
      rw [put_sessions_self, Option.some.injEq] at hd
      subst hd
      obtain ⟨_, _, hm⟩ := bind_eq_ok hm
      cases hm
      rfl
    | replied =>
      rw [put_sessions_self, Option.some.injEq] at hd
      subst hd
      exact hco
    | wasReset _ hr =>
      rw [put_sessions_self, Option.some.injEq] at hd
      subst hd
      obtain ⟨_, _, hcur, _⟩ := reset_ok hr
      exact hcur.symm
    | verified hv =>
      rw [put_sessions_self, Option.some.injEq] at hd
      subst hd
      exact ⟨hco, rfl, rfl, verifyChanges_attests hv⟩
    | fenced _ =>
      rw [put_sessions_self, Option.some.injEq] at hd
      subst hd
      exact hco
    | wroteBlob =>
      rw [put_sessions_self, Option.some.injEq] at hd
      subst hd
      exact ⟨hco.1, hco.2.same rfl⟩
    | @committed a m o p reused now db hact hc' =>
      rw [put_sessions_self, Option.some.injEq] at hd
      subst hd
      obtain ⟨_, rfl⟩ := commitPage_ok hc'
      have hcur := (commitRow_row s.db.row p).1
      cases o with
      | feed reply requested page => exact hcur.trans hco.2.2.1
      | repair rest =>
        obtain ⟨hm, hp, hrest, _, hne⟩ := hco
        exact ⟨(hp ▸ hcur).symm, repairs_applyChanges hrest hne⟩
    | @advanced a m reply requested page p d' hd' =>
      rw [put_sessions_self, Option.some.injEq] at hd
      subst hd
      subst hd'
      split <;> exact hco.symm
    | resumed =>
      rw [put_sessions_self, Option.some.injEq] at hd
      subst hd
      exact hco
    | repairsRead =>
      rw [put_sessions_self, Option.some.injEq] at hd
      subst hd
      exact ⟨hco, repairs_pending hi.nodup _⟩
    | batchEmpty =>
      rw [put_sessions_self, Option.some.injEq] at hd
      subst hd
      exact ⟨hco.1, repairs_drop hco.2 _⟩
    | batchFetched hv =>
      rw [put_sessions_self, Option.some.injEq] at hd
      subst hd
      exact ⟨hco.1, coherent_of_batch hco.2 hv⟩
    | _ =>
      rw [put_sessions_self, Option.some.injEq] at hd
      subst hd
      trivial

-- Only the holder of the lease changes rows, so for any other holder they stand still.
lemma SerialInv.same_of_other (hi : SerialInv s) (h : SessionStepped contentHash s x act c t)
    (hx : s.sessions x = c) (hy : y ≠ x) (hd : s.sessions y = some d) (hh : Holding t.db d) :
    Holding s.db d ∧ SameContent s.db t.db := by
  obtain ⟨hrev, lease, hl, htok⟩ := hh
  have hle := hi.token_le hd hl
  cases h.rows with
  | same hs _ => exact ⟨⟨hs.revokedDetail ▸ hrev, lease, hl, htok.trans hs.leaseToken⟩, hs⟩
  | acquired _ _ _ _ _ ht _ => omega
  | held _ hc hhold ht _ =>
    obtain ⟨_, lease', hl', htok'⟩ := hhold
    subst hc
    exact (hi.token_ne hy hd hx hl hl' (by omega)).elim
  | revoked _ hr _ =>
    rw [hrev] at hr
    cases hr

lemma SerialInv.coherent_other (hi : SerialInv s) (h : SessionStepped contentHash s x act c t)
    (hx : s.sessions x = c) (hy : y ≠ x) (hd : s.sessions y = some d) (hh : Holding t.db d) :
    d.Coherent t.db := by
  obtain ⟨hh, hs⟩ := hi.same_of_other h hx hy hd hh
  exact (hi.coherent hd hh).same hs.entries hs.cursor

lemma SerialInv.explained_step (hi : SerialInv s) (h : SessionStepped contentHash s x act c t)
    (hx : s.sessions x = c) : Explained t.db t.history := by
  cases h with
  | @committed a m o p reused now db hact hc =>
    obtain ⟨⟨hrev, htok⟩, rfl⟩ := commitPage_ok hc
    have hco := hi.coherent hx ⟨hrev, _, rfl, htok.symm⟩
    have hcur := (commitRow_row s.db.row p).1
    cases o with
    | feed reply requested page =>
      obtain ⟨hm, hreq, hp, hattest⟩ := hco
      refine hi.explained.append rfl (hcur.trans hp) ⟨?_, hattest⟩ ?_
      · rw [hreq, hm, hi.explained.cursor]
      · intro n hn
        cases hn
        exact hi.reply_fresh hx rfl
    | repair rest =>
      obtain ⟨hm, hp, _, hfill, _⟩ := hco
      refine hi.explained.append rfl ?_ ?_ fun n hn => by cases hn
      · exact hcur.trans (hp.trans hm)
      · intro ch hch
        rw [← hi.explained.entries]
        exact hfill ch hch
  | wasReset _ hr | resetDone _ hr =>
    obtain ⟨_, hentries, hcur, _⟩ := reset_ok hr
    exact hi.explained.append hentries hcur trivial fun n hn => by cases hn
  | marked _ => exact hi.explained.append rfl rfl trivial fun n hn => by cases hn
  | acquired _ hacq ha =>
    obtain ⟨rfl, _⟩ := acquireSyncLease_eq hacq
    exact ⟨hi.explained.entries, hi.explained.cursor, hi.explained.serial, hi.explained.once⟩
  | resetBegan _ hacq =>
    obtain ⟨rfl, _⟩ := acquireSyncLease_eq hacq
    exact ⟨hi.explained.entries, hi.explained.cursor, hi.explained.serial, hi.explained.once⟩
  | discarded _ _ => exact hi.explained.same (sameContent_discardPendingGrant _ _)
  | learnedRetention => exact hi.explained.same (sameContent_markRetentionRevoked _ _ _)
  | released => exact hi.explained.same (sameContent_releaseLease _ _)
  | wroteBlob => exact hi.explained.same (sameContent_writeBlob _ _ _)
  | renewed _ hr => exact hi.explained.same (sameContent_renewLease hr)
  | _ => exact hi.explained

lemma SerialInv.nodup_step (hi : SerialInv s) (h : SessionStepped contentHash s x act c t) :
    (keys t.db.entries).Nodup := by
  cases h with
  | committed _ hc =>
    obtain ⟨_, rfl⟩ := commitPage_ok hc
    exact nodup_applyChanges hi.nodup
  | wasReset _ hr | resetDone _ hr =>
    obtain ⟨_, hentries, _⟩ := reset_ok hr
    simp only [State.put, hentries]
    exact List.nodup_nil
  | marked _ => exact List.nodup_nil
  | acquired _ hacq ha =>
    obtain ⟨rfl, _⟩ := acquireSyncLease_eq hacq
    exact hi.nodup
  | resetBegan _ hacq =>
    obtain ⟨rfl, _⟩ := acquireSyncLease_eq hacq
    exact hi.nodup
  | discarded _ _ => exact (sameContent_discardPendingGrant s.db _).entries ▸ hi.nodup
  | learnedRetention => exact (sameContent_markRetentionRevoked s.db _ _).entries ▸ hi.nodup
  | released => exact (sameContent_releaseLease s.db _).entries ▸ hi.nodup
  | renewed _ hr => exact (sameContent_renewLease hr).entries ▸ hi.nodup
  | _ => exact hi.nodup

lemma SessionStepped.replies_le (h : SessionStepped contentHash s x act c t) : s.replies ≤ t.replies := by
  cases h with
  | replied => exact Nat.le_succ _
  | _ => exact Nat.le_refl _

lemma SessionStepped.reply_cases (h : SessionStepped contentHash s x act c t) (hx : s.sessions x = c)
    {n : ℕ} (hd : t.sessions x = some d) (hn : d.reply = some n) :
    (∃ c', c = some c' ∧ c'.reply = some n) ∨ (n = s.replies ∧ t.replies = s.replies + 1) := by
  cases h with
  | refused =>
    rw [drop_sessions_self] at hd
    cases hd
  | released =>
    rw [drop_sessions_self] at hd
    cases hd
  | renewed _ _ =>
    have hd : s.sessions x = some d := hd
    exact .inl ⟨d, hx.symm.trans hd, hn⟩
  | replied =>
    rw [put_sessions_self, Option.some.injEq] at hd
    subst hd
    cases hn
    exact .inr ⟨rfl, rfl⟩
  | verified _ =>
    rw [put_sessions_self, Option.some.injEq] at hd
    subst hd
    exact .inl ⟨_, rfl, hn⟩
  | @fenced a m o p now reused _ =>
    rw [put_sessions_self, Option.some.injEq] at hd
    subst hd
    refine .inl ⟨_, rfl, ?_⟩
    cases o <;> exact hn
  | @wroteBlob a m o p reused hash bytes unwritten =>
    rw [put_sessions_self, Option.some.injEq] at hd
    subst hd
    refine .inl ⟨_, rfl, ?_⟩
    cases o <;> exact hn
  | @advanced a m reply requested page p d' hd' =>
    rw [put_sessions_self, Option.some.injEq] at hd
    subst hd
    subst hd'
    split at hn <;> cases hn
  | _ =>
    rw [put_sessions_self, Option.some.injEq] at hd
    subst hd
    cases hn

lemma SessionStepped.history_replies (h : SessionStepped contentHash s x act c t) :
    t.history.filterMap Event.reply = s.history.filterMap Event.reply ∨
      ∃ c' n, c = some c' ∧ c'.reply = some n ∧
        t.history.filterMap Event.reply = s.history.filterMap Event.reply ++ [n] ∧
        ∀ d, t.sessions x = some d → d.reply = none := by
  cases h with
  | @committed a m o p reused now db hact hc =>
    cases o with
    | feed reply requested page =>
      refine .inr ⟨_, reply, rfl, rfl, ?_, ?_⟩
      · simp [State.put, Origin.event, Event.reply]
      · intro d hd
        rw [put_sessions_self, Option.some.injEq] at hd
        subst hd
        rfl
    | repair rest => exact .inl (by simp [State.put, Origin.event, Event.reply])
  | wasReset _ _ | resetDone _ _ | marked _ => exact .inl (by simp [State.put, Event.reply])
  | _ => exact .inl rfl

lemma SerialInv.session_step (hi : SerialInv s) (h : SessionStepped contentHash s x act c t)
    (hx : s.sessions x = c) : SerialInv t := by
  have hother : ∀ {y}, y ≠ x → t.sessions y = s.sessions y := fun hy => h.other hy
  have hreplies := h.replies_le
  refine ⟨?_, ?_, ?_, hi.nodup_step h, hi.explained_step h hx, ?_, ?_, ?_, ?_⟩
  · intro y d lease hd hl
    have hle := h.leaseToken_le
    by_cases hy : y = x
    · subst hy
      rcases h.lease_cases hx hd hl with ⟨c', rfl, hl'⟩ | ⟨_, htok, ht⟩
      · exact (hi.token_le hx hl').trans hle
      · omega
    · rw [hother hy] at hd
      exact (hi.token_le hd hl).trans hle
  · have hnew : ∀ {y d d' lease lease'}, y ≠ x → t.sessions x = some d → s.sessions y = some d' →
        d.lease = some lease → d'.lease = some lease' → lease.token ≠ lease'.token := by
      intro y d d' lease lease' hy hd hd' hl hl'
      rcases h.lease_cases hx hd hl with ⟨c', rfl, hl₀⟩ | ⟨_, htok, _⟩
      · exact hi.token_ne (Ne.symm hy) hx hd' hl₀ hl'
      · have := hi.token_le hd' hl'
        omega
    intro y z d d' lease lease' hne hd hd' hl hl'
    by_cases hy : y = x
    · subst hy
      rw [hother (Ne.symm hne)] at hd'
      exact hnew (Ne.symm hne) hd hd' hl hl'
    · rw [hother hy] at hd
      by_cases hz : z = x
      · subst hz
        exact (hnew hy hd' hd hl' hl).symm
      · rw [hother hz] at hd'
        exact hi.token_ne hne hd hd' hl hl'
  · intro y d hd hh
    by_cases hy : y = x
    · subst hy
      exact hi.coherent_self h hx hd hh
    · rw [hother hy] at hd
      exact hi.coherent_other h hx hy hd hh
  · intro y d n hd hn
    by_cases hy : y = x
    · subst hy
      rcases h.reply_cases hx hd hn with ⟨c', rfl, hn'⟩ | ⟨rfl, ht⟩
      · exact (hi.reply_lt hx hn').trans_le hreplies
      · omega
    · rw [hother hy] at hd
      exact (hi.reply_lt hd hn).trans_le hreplies
  · have hnew : ∀ {y d d' n k}, y ≠ x → t.sessions x = some d → s.sessions y = some d' →
        d.reply = some n → d'.reply = some k → n ≠ k := by
      intro y d d' n k hy hd hd' hn hk
      rcases h.reply_cases hx hd hn with ⟨c', rfl, hn'⟩ | ⟨rfl, _⟩
      · exact hi.reply_ne (Ne.symm hy) hx hd' hn' hk
      · have := hi.reply_lt hd' hk
        omega
    intro y z d d' n k hne hd hd' hn hk
    by_cases hy : y = x
    · subst hy
      rw [hother (Ne.symm hne)] at hd'
      exact hnew (Ne.symm hne) hd hd' hn hk
    · rw [hother hy] at hd
      by_cases hz : z = x
      · subst hz
        exact (hnew hy hd' hd hk hn).symm
      · rw [hother hz] at hd'
        exact hi.reply_ne hne hd hd' hn hk
  · intro y d n hd hn
    rcases h.history_replies with hh | ⟨c', k, rfl, hk, hh, hnone⟩
    · rw [hh]
      by_cases hy : y = x
      · subst hy
        rcases h.reply_cases hx hd hn with ⟨c', rfl, hn'⟩ | ⟨rfl, _⟩
        · exact hi.reply_fresh hx hn'
        · exact fun hm => Nat.lt_irrefl _ (hi.history_lt _ hm)
      · rw [hother hy] at hd
        exact hi.reply_fresh hd hn
    · rw [hh, List.mem_append, List.mem_singleton, not_or]
      by_cases hy : y = x
      · subst hy
        rw [hnone d hd] at hn
        cases hn
      · rw [hother hy] at hd
        exact ⟨hi.reply_fresh hd hn, hi.reply_ne hy hd hx hn hk⟩
  · intro n hn
    rcases h.history_replies with hh | ⟨c', k, rfl, hk, hh, _⟩
    · rw [hh] at hn
      exact (hi.history_lt n hn).trans_le hreplies
    · rw [hh, List.mem_append, List.mem_singleton] at hn
      rcases hn with hn | rfl
      · exact (hi.history_lt n hn).trans_le hreplies
      · exact (hi.reply_lt hx hk).trans_le hreplies

-- A step that leaves the rows and the fence alone, and at most drops a session.
lemma SerialInv.quiet (hi : SerialInv s) (hdb : SameContent s.db t.db) (hh : t.history = s.history)
    (hr : t.replies = s.replies)
    (hs : ∀ y d, t.sessions y = some d → s.sessions y = some d) : SerialInv t := by
  refine ⟨?_, ?_, ?_, ?_, ?_, ?_, ?_, ?_, ?_⟩
  · intro y d lease hd hl
    rw [hdb.leaseToken]
    exact hi.token_le (hs y d hd) hl
  · intro y z d d' lease lease' hne hd hd' hl hl'
    exact hi.token_ne hne (hs y d hd) (hs z d' hd') hl hl'
  · intro y d hd ⟨hrev, lease, hl, htok⟩
    refine (hi.coherent (hs y d hd) ⟨?_, lease, hl, ?_⟩).same hdb.entries hdb.cursor
    · rwa [hdb.revokedDetail] at hrev
    · rwa [hdb.leaseToken] at htok
  · rw [hdb.entries]
    exact hi.nodup
  · rw [hh]
    exact hi.explained.same hdb
  · intro y d n hd hn
    rw [hr]
    exact hi.reply_lt (hs y d hd) hn
  · intro y z d d' n k hne hd hd' hn hk
    exact hi.reply_ne hne (hs y d hd) (hs z d' hd') hn hk
  · intro y d n hd hn
    rw [hh]
    exact hi.reply_fresh (hs y d hd) hn
  · rw [hh, hr]
    exact hi.history_lt

lemma SerialInv.of_stepped (hi : SerialInv s) {a : Action} (h : Stepped contentHash s a t) : SerialInv t := by
  cases h with
  | session _ _ _ _ h => exact hi.session_step h rfl
  | @crashed y =>
    refine hi.quiet (.refl _) rfl rfl fun z d hd => ?_
    by_cases hz : z = y
    · subst hz
      rw [show _ = none from drop_sessions_self] at hd
      cases hd
    · exact (drop_sessions_of_ne hz).symm.trans hd
  | collectBegan _ _ _ _ _ => exact hi.quiet (.refl _) rfl rfl fun _ _ h => h
  | collectEnded => exact hi.quiet (.refl _) rfl rfl fun _ _ h => h
  | unlinked _ _ => exact hi.quiet (sameContent_unlinkBlob _ _) rfl rfl fun _ _ h => h
  | purged _ => exact hi.quiet (sameContent_unlinkBlob _ _) rfl rfl fun _ _ h => h
  | installed _ _ => exact hi.quiet (sameContent_installGrant _ _) rfl rfl fun _ _ h => h
  | retention => exact hi.quiet (sameContent_setRetentionGrant _ _) rfl rfl fun _ _ h => h

lemma serialInv_init (space folder : String) (policy : LocalReadPolicy) (cid : Option String) :
    SerialInv (initState space folder policy cid) := by
  have hs : ∀ y, (initState space folder policy cid).sessions y = none := fun _ => rfl
  refine ⟨?_, ?_, ?_, List.nodup_nil, ⟨rfl, rfl, ?_, List.nodup_nil⟩, ?_, ?_, ?_, ?_⟩
  · intro y d lease hd
    rw [hs] at hd
    cases hd
  · intro y z d d' lease lease' _ hd
    rw [hs] at hd
    cases hd
  · intro y d hd
    rw [hs] at hd
    cases hd
  · intro i e he
    cases he
  · intro y d n hd
    rw [hs] at hd
    cases hd
  · intro y z d d' n k _ hd
    rw [hs] at hd
    cases hd
  · intro y d n hd
    rw [hs] at hd
    cases hd
  · intro n hn
    cases hn

lemma serialInv_of_reachable (h : (machine contentHash).Reachable s) : SerialInv s := by
  refine Machine.Reachable.invariant (I := SerialInv) h ?_ ?_
  · rintro s ⟨space, folder, policy, cid, rfl⟩
    exact serialInv_init space folder policy cid
  · intro s a t hi hs
    exact hi.of_stepped (stepped_of_step hs)

theorem feed_serial (contentHash : ByteArray → String) (s : State)
    (h : (machine contentHash).Reachable s) : Explained s.db s.history :=
  (serialInv_of_reachable h).explained

-- The hash of the empty content, the only one the sample run fetches.
def emptyHash : String :=
  "af1349b9f5f9a1a6a0404dea36dcc9499bcb25c9adc112b7cc9a93cae41f3262"

def sampleGrant : GrantRecord :=
  ⟨"grant-a", none, none⟩

def samplePage (keys : List String) (cursor : String) (more : Bool) : SyncPage where
  changes := keys.map fun key => .live key ("blake3-" ++ emptyHash) []
  more := more
  cursor := cursor
  source := ⟨"did:key:node", "default", "notes/"⟩
  authority := ⟨none, none, none⟩

def missingReads : PageReads :=
  ⟨fun _ => none, fun _ => false, fun _ => some .missing⟩

def applyActions (x : ℕ) : List Action :=
  [.session x (.fence 0), .session x (.commit 0), .session x .advance]

-- One sync applies a page and crashes; a second one follows its cursor and repairs.
def sampleSync : List Action :=
  [.installGrant sampleGrant, .session 0 .start, .session 0 (.acquire "p" 10 0),
    .session 0 (.readState 0), .session 0 (.reply (samplePage ["notes/a"] "c1" true) 0),
    .session 0 (.verify missingReads)] ++ applyActions 0 ++
  [.crash 0, .session 1 .start, .session 1 (.acquire "q" 10 10), .session 1 (.readState 10),
    .session 1 (.reply (samplePage [] "c2" false) 10), .session 1 (.verify missingReads),
    .session 1 (.fence 10), .session 1 (.commit 10), .session 1 .advance,
    .session 1 (.startRepair fun _ => true),
    .session 1 (.repairBatch (fun _ => some (.found ByteArray.empty ("blake3-" ++ emptyHash))) 10),
    .session 1 (.fence 10), .session 1 .writeBlob, .session 1 (.commit 10), .session 1 .advance,
    .session 1 .finish, .session 1 .release]

def sampleStart : State :=
  initState "default" "notes/" .whileGrantValid none

def committedCursors (s : State) : List (Option (Option String)) :=
  s.history.map fun e => match e with
    | .feed _ requested _ _ _ => some requested
    | _ => none

theorem feed_serial_sample : ∃ s, (machine fun _ => emptyHash).run sampleStart sampleSync = some s ∧
    committedCursors s = [some none, some (some "c1"), none] ∧ Explained s.db s.history := by
  have hrun : ((machine fun _ => emptyHash).run sampleStart sampleSync).map committedCursors =
      some [some none, some (some "c1"), none] := by
    decide +kernel
  obtain ⟨s, hs, hcursors⟩ := Option.map_eq_some_iff.mp hrun
  refine ⟨s, hs, hcursors, feed_serial _ s (.of_run (.start ?_) hs)⟩
  exact ⟨"default", "notes/", .whileGrantValid, none, rfl⟩

end TinyCloud.Replica

import Mathlib.Data.List.Basic

/-! The pending-write state of one replication identity: the records that pin a
key to the network, and the commit epoch that fences replicas behind it. -/

namespace TinyCloud.Kv

def kvPrefixCovers (folder key : String) : Bool :=
  folder == "/" || key.startsWith folder

structure ReplicationIdentity where
  host : String
  space : String
  principal : String
  deriving DecidableEq, Repr

inductive WriteOp
  | put
  | delete
  deriving DecidableEq, Repr

inductive RecordState
  | inFlight
  | committed
  | ambiguous
  deriving DecidableEq, Repr

inductive WriteOutcome
  | committed
  | failed
  | ambiguous
  deriving DecidableEq, Repr

structure PendingWriteRecord where
  opId : String
  seq : ℕ
  key : String
  op : WriteOp
  state : RecordState
  epoch : Option ℕ
  startedAt : String
  settledAt : Option String
  code : Option String
  deriving DecidableEq, Repr

structure PendingWriteState where
  v : ℕ
  identity : ReplicationIdentity
  committedEpoch : ℕ
  seq : ℕ
  records : List PendingWriteRecord
  deriving DecidableEq, Repr

def emptyPendingState (identity : ReplicationIdentity) : PendingWriteState :=
  ⟨2, identity, 0, 0, []⟩

namespace PendingWriteState

def beginRecords (s : PendingWriteState) (opId : String) (keys : List (String × WriteOp))
    (startedAt : String) : List PendingWriteRecord :=
  keys.zipIdx.map fun ((key, op), i) =>
    ⟨opId, s.seq + i + 1, key, op, .inFlight, none, startedAt, none, none⟩

def begin (s : PendingWriteState) (opId : String) (keys : List (String × WriteOp))
    (startedAt : String) : PendingWriteState :=
  { s with
    seq := s.seq + keys.length
    records := s.records ++ s.beginRecords opId keys startedAt }

def own (opId : String) (r : PendingWriteRecord) : Bool :=
  r.opId == opId && r.state == .inFlight

def settle (s : PendingWriteState) (opId : String) (outcome : WriteOutcome) (settledAt : String)
    (code : Option String) : PendingWriteState :=
  if outcome = .failed then
    { s with records := s.records.filter (fun r => r.opId != opId) }
  else if outcome = .committed ∧ s.records.any (own opId) then
    { s with
      committedEpoch := s.committedEpoch + 1
      records := s.records.map fun r =>
        if own opId r then
          { r with state := .committed, epoch := some (s.committedEpoch + 1), settledAt := some settledAt }
        else r }
  else
    { s with
      records := s.records.map fun r =>
        if own opId r then
          { r with
            state := .ambiguous
            settledAt := some settledAt
            code := if code.getD "" = "" then r.code else code }
        else r }

-- A record without an epoch is never cleared by a sync.
def clearedBy (folder : String) (syncStartEpoch : ℕ) (r : PendingWriteRecord) : Bool :=
  r.state == .committed && r.epoch.any (· ≤ syncStartEpoch) && kvPrefixCovers folder r.key

def afterSync (s : PendingWriteState) (folder : String) (syncStartEpoch : ℕ) : PendingWriteState :=
  { s with records := s.records.filter fun r => !clearedBy folder syncStartEpoch r }

def afterSyncCleared (s : PendingWriteState) (folder : String) (syncStartEpoch : ℕ) : ℕ :=
  s.records.length - (s.afterSync folder syncStartEpoch).records.length

def clearPrefix (s : PendingWriteState) (folder : String) : PendingWriteState :=
  { s with records := s.records.filter fun r => !kvPrefixCovers folder r.key }

def clearPrefixCleared (s : PendingWriteState) (folder : String) : ℕ :=
  s.records.length - (s.clearPrefix folder).records.length

-- The record that pins the key until its write is settled.
def HasUnsettled (s : PendingWriteState) (opId key : String) : Prop :=
  ∃ r ∈ s.records, r.opId = opId ∧ r.key = key ∧ r.state ≠ .committed

instance (s : PendingWriteState) (opId key : String) : Decidable (s.HasUnsettled opId key) :=
  inferInstanceAs (Decidable (∃ r ∈ s.records, _))

@[simp] lemma begin_committedEpoch (s : PendingWriteState) (opId : String)
    (keys : List (String × WriteOp)) (startedAt : String) :
    (s.begin opId keys startedAt).committedEpoch = s.committedEpoch := rfl

@[simp] lemma afterSync_committedEpoch (s : PendingWriteState) (folder : String) (e : ℕ) :
    (s.afterSync folder e).committedEpoch = s.committedEpoch := rfl

@[simp] lemma clearPrefix_committedEpoch (s : PendingWriteState) (folder : String) :
    (s.clearPrefix folder).committedEpoch = s.committedEpoch := rfl

lemma HasUnsettled.begin {s : PendingWriteState} {opId key : String} (h : s.HasUnsettled opId key)
    (opId' : String) (keys : List (String × WriteOp)) (startedAt : String) :
    (s.begin opId' keys startedAt).HasUnsettled opId key := by
  obtain ⟨r, hr, hrest⟩ := h
  exact ⟨r, List.mem_append_left _ hr, hrest⟩

lemma begin_hasUnsettled (s : PendingWriteState) (opId : String) (keys : List (String × WriteOp))
    (startedAt : String) {key : String} {op : WriteOp} (h : (key, op) ∈ keys) :
    (s.begin opId keys startedAt).HasUnsettled opId key := by
  obtain ⟨i, hi⟩ := List.mem_iff_getElem?.mp h
  refine ⟨⟨opId, s.seq + i + 1, key, op, .inFlight, none, startedAt, none, none⟩,
    List.mem_append_right _ ?_, rfl, rfl, by simp⟩
  exact List.mem_map.mpr ⟨((key, op), i), List.mem_zipIdx_iff_getElem?.mpr hi, rfl⟩

lemma settle_committedEpoch_le (s : PendingWriteState) (opId : String) (outcome : WriteOutcome)
    (settledAt : String) (code : Option String) :
    s.committedEpoch ≤ (s.settle opId outcome settledAt code).committedEpoch := by
  unfold settle
  split
  · exact Nat.le_refl _
  · split
    · exact Nat.le_succ _
    · exact Nat.le_refl _

-- The other two cases are the ones a fence has to make up for.
lemma HasUnsettled.settle {s : PendingWriteState} {opId key : String} (h : s.HasUnsettled opId key)
    (opId' : String) (outcome : WriteOutcome) (settledAt : String) (code : Option String) :
    (s.settle opId' outcome settledAt code).HasUnsettled opId key ∨
      (opId = opId' ∧ outcome = .failed) ∨
      (opId = opId' ∧ outcome = .committed ∧
        (s.settle opId' outcome settledAt code).committedEpoch = s.committedEpoch + 1) := by
  obtain ⟨r, hr, hop, hkey, hstate⟩ := h
  by_cases hf : outcome = .failed
  · by_cases ho : opId = opId'
    · exact .inr (.inl ⟨ho, hf⟩)
    · refine .inl ⟨r, ?_, hop, hkey, hstate⟩
      simp only [PendingWriteState.settle, if_pos hf, List.mem_filter]
      exact ⟨hr, by simpa [hop] using ho⟩
  · by_cases hc : outcome = .committed ∧ s.records.any (own opId')
    · by_cases ho : opId = opId'
      · refine .inr (.inr ⟨ho, hc.1, ?_⟩)
        simp only [PendingWriteState.settle, if_neg hf, if_pos hc]
      · refine .inl ⟨r, ?_, hop, hkey, hstate⟩
        simp only [PendingWriteState.settle, if_neg hf, if_pos hc]
        have hown : own opId' r = false := by simp [own, hop, ho]
        exact List.mem_map.mpr ⟨r, hr, by simp [hown]⟩
    · left
      simp only [HasUnsettled, PendingWriteState.settle, if_neg hf, if_neg hc]
      refine ⟨_, List.mem_map_of_mem hr, ?_⟩
      split
      · exact ⟨hop, hkey, by simp⟩
      · exact ⟨hop, hkey, hstate⟩

lemma HasUnsettled.afterSync {s : PendingWriteState} {opId key : String}
    (h : s.HasUnsettled opId key) (folder : String) (e : ℕ) :
    (s.afterSync folder e).HasUnsettled opId key := by
  obtain ⟨r, hr, hop, hkey, hstate⟩ := h
  refine ⟨r, List.mem_filter.mpr ⟨hr, ?_⟩, hop, hkey, hstate⟩
  simp [clearedBy, hstate]

lemma HasUnsettled.clearPrefix {s : PendingWriteState} {opId key : String}
    (h : s.HasUnsettled opId key) {folder : String} (hc : kvPrefixCovers folder key = false) :
    (s.clearPrefix folder).HasUnsettled opId key := by
  obtain ⟨r, hr, hop, hkey, hstate⟩ := h
  exact ⟨r, List.mem_filter.mpr ⟨hr, by simp [hkey, hc]⟩, hop, hkey, hstate⟩

end PendingWriteState

end TinyCloud.Kv

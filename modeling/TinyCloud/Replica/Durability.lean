import Mathlib
import TinyCloud.Replica.ContentFiles

/-! Content files under power loss. A file's bytes survive once the file is synced, a name once
its directory is; a committed transaction survives. Leases pass between processes that
store pages, collect garbage and reset. `Db.blobs` is unused here: the content files are on the disk. -/

namespace TinyCloud.Replica.Durability

open Runs

section Disk

structure File where
  bytes : ByteArray
  synced : Bool
  deriving DecidableEq

inductive Dir
  | root
  | shard (name : String)
  deriving DecidableEq

/-- The visible names, those that power loss leaves, and every name that was ever linked. -/
structure Disk where
  shards : String → Bool
  shardsKept : String → Bool
  files : List (String × File)
  filesKept : String → Bool
  linked : List (String × File)

def shardOf (hash : String) : String := String.ofList (hash.toList.take 2)

def Disk.file (d : Disk) (hash : String) : Option File := d.files.lookup hash

def Disk.mkdir (d : Disk) (name : String) : Disk :=
  if d.shards name then d
  else { d with
    shards := Function.update d.shards name true
    shardsKept := Function.update d.shardsKept name false }

/-- `link` of a temporary file to its content address; an existing blob wins, a missing shard fails. -/
def Disk.link (d : Disk) (hash : String) (f : File) : Option Disk :=
  if !d.shards (shardOf hash) then none
  else if (d.file hash).isSome then some d
  else some { d with
    files := (hash, f) :: d.files
    filesKept := Function.update d.filesKept hash false
    linked := (hash, f) :: d.linked }

def Disk.unlink (d : Disk) (hash : String) : Disk :=
  { d with
    files := d.files.filter (fun b => b.1 != hash)
    filesKept := Function.update d.filesKept hash false }

/-- `rmdir`, whose failure is ignored. -/
def Disk.rmdir (d : Disk) (name : String) : Disk :=
  if d.files.any (fun b => shardOf b.1 == name) then d
  else { d with
    shards := Function.update d.shards name false
    shardsKept := Function.update d.shardsKept name false }

def Disk.fsync (d : Disk) : Dir → Option Disk
  | .root => some { d with shardsKept := d.shards }
  | .shard name =>
    if d.shards name then
      let kept := fun hash => if shardOf hash = name then (d.file hash).isSome else d.filesKept hash
      some { d with filesKept := kept }
    else none

def Disk.keeps (d : Disk) (hash : String) : Bool := d.filesKept hash && d.shardsKept (shardOf hash)

/-- The names that show after power loss: those kept, and of the others any that once were there.
A file that was not synced shows with any bytes. -/
def Disk.powerLoss (d : Disk) (shards : String → Bool) (files : List (String × File)) : Disk :=
  let shards' := fun name => d.shardsKept name || shards name
  let files' := d.files.filter (fun b => d.keeps b.1) ++ files.filter fun b =>
    !d.keeps b.1 && shards' (shardOf b.1) &&
      d.linked.any fun l => l.1 == b.1 && (l.2 == b.2 || (!l.2.synced && !b.2.synced))
  { shards := shards'
    shardsKept := shards'
    files := files'
    filesKept := fun hash => (files'.lookup hash).isSome
    linked := files' ++ d.linked }

end Disk

structure Page where
  page : VerifiedPage
  reused : String → Option ℕ

/-- Where a process stands in `applyPage` or `collectGarbage`. -/
inductive Task
  | ready
  | admitting (p : Page)
  | collecting (kept : List EntryRow) (next : Option Page)
  | storing (p : Page) (todo : List (String × ByteArray)) (dirs : List Dir)
  | creating (p : Page) (hash : String) (bytes : ByteArray) (todo : List (String × ByteArray))
      (dirs : List Dir)
  | opening (p : Page) (hash : String) (bytes : ByteArray) (todo : List (String × ByteArray))
      (dirs : List Dir)
  | filling (p : Page) (hash : String) (temp : File) (todo : List (String × ByteArray)) (dirs : List Dir)
  | syncing (p : Page) (dirs : List Dir)
  | committing (p : Page)

structure Worker where
  lease : LeaseToken
  task : Task

structure State where
  db : Db
  disk : Disk
  workers : ℕ → Option Worker
  lock : Option ℕ

inductive GrantChange
  | install (g : GrantRecord)
  | discard (cid : String)
  | setRetention (cid : Option String)
  | retentionRevoked (cid detail : String)

def GrantChange.apply (db : Db) : GrantChange → Db
  | .install g => installGrant db g
  | .discard cid => discardPendingGrant db cid
  | .setRetention cid => setRetentionGrant db cid
  | .retentionRevoked cid detail => markRetentionRevoked db cid detail

inductive Action
  | acquire (x : ℕ) (holder : String) (ttlMs now : ℕ)
  | renew (x ttlMs now : ℕ)
  | release (x : ℕ)
  | change (g : GrantChange)
  | markRevoked (detail : String)
  | reset (x : ℕ) (keepSource : Bool) (now : ℕ)
  | collect (x now : ℕ)
  | unlink (x : ℕ) (hash : String)
  | rmdir (x : ℕ) (name : String)
  | collected (x : ℕ)
  | apply (x : ℕ) (page : VerifiedPage) (quota : Bool) (now : ℕ)
  | stat (x : ℕ)
  | mkdir (x : ℕ)
  | write (x : ℕ)
  | sync (x : ℕ)
  | link (x : ℕ)
  | fsync (x : ℕ)
  | commit (x now : ℕ)
  | fail (x : ℕ)
  | purge (hash : String)
  | purgeDir (name : String)
  | kill (x : ℕ)
  | powerLoss (shards : String → Bool) (files : List (String × File))

def State.put (s : State) (x : ℕ) (lease : LeaseToken) (task : Task) : State :=
  { s with workers := Function.update s.workers x (some ⟨lease, task⟩) }

def State.drop (s : State) (x : ℕ) : State :=
  { s with
    workers := Function.update s.workers x none
    lock := if s.lock = some x then none else s.lock }

def addDir (dirs : List Dir) (dir : Dir) : List Dir := if dir ∈ dirs then dirs else dirs ++ [dir]

/-- One system call or transaction of a worker's task. -/
def advance (s : State) (x : ℕ) (lease : LeaseToken) : Task → Action → Option State
  | .storing p [] dirs, .stat _ => some (s.put x lease (.syncing p dirs))
  | .storing p ((hash, bytes) :: todo) dirs, .stat _ =>
    if (s.disk.file hash).isSome then some (s.put x lease (.storing p todo dirs))
    else some (s.put x lease (.creating p hash bytes todo dirs))
  | .creating p hash bytes todo dirs, .mkdir _ =>
    some { s.put x lease (.opening p hash bytes todo dirs) with disk := s.disk.mkdir (shardOf hash) }
  | .opening p hash bytes todo dirs, .write _ =>
    some (s.put x lease (.filling p hash ⟨bytes, false⟩ todo dirs))
  | .filling p hash temp todo dirs, .sync _ =>
    some (s.put x lease (.filling p hash { temp with synced := true } todo dirs))
  | .filling p hash temp todo dirs, .link _ =>
    if temp.synced then
      (s.disk.link hash temp).map fun disk =>
        { s.put x lease (.storing p todo (addDir (addDir dirs (.shard (shardOf hash))) .root)) with
          disk := disk }
    else none
  | .syncing p [], .fsync _ => some (s.put x lease (.committing p))
  | .syncing p (dir :: dirs), .fsync _ =>
    (s.disk.fsync dir).map fun disk => { s.put x lease (.syncing p dirs) with disk := disk }
  | .committing p, .commit _ now =>
    match commitPage s.db lease p.page p.reused now with
    | .ok db => some { s.put x lease .ready with db := db }
    | .error _ => none
  | _, _ => none

/-- `BEGIN IMMEDIATE` and the lease check of `collectGarbage`. -/
def beginCollect (s : State) (x : ℕ) (lease : LeaseToken) (next : Option Page) (now : ℕ) : Option State :=
  match checkLease s.db.row lease now with
  | .ok _ => some { s.put x lease (.collecting s.db.entries next) with lock := some x }
  | .error _ => none

def endCollect (s : State) (x : ℕ) (lease : LeaseToken) : Option Page → State
  | none => { s.put x lease .ready with lock := none }
  | some p => { s.put x lease (.storing p p.page.blobs []) with lock := none }

variable (contentHash : ByteArray → String)

def isHashed (blobs : List (String × ByteArray)) : Bool := blobs.all fun b => contentHash b.2 == b.1

def beginApply (s : State) (x : ℕ) (lease : LeaseToken) (page : VerifiedPage) (quota : Bool) (now : ℕ) :
    Option State :=
  -- a page comes verified: its blobs hash to their names
  if !isHashed contentHash page.blobs then none
  else
    match applyPageFence s.db lease page now with
    | .ok reused =>
      if quota then some (s.put x lease (.admitting ⟨page, reused⟩))
      else some (s.put x lease (.storing ⟨page, reused⟩ page.blobs []))
    | .error _ => none

/-- A write transaction of a process that no collector holds off. -/
def transact (s : State) (db : Option Db) : Option State :=
  if s.lock.isSome then none else db.map fun db => { s with db := db }

def step (s : State) : Action → Option State
  | .acquire x holder ttlMs now =>
    if s.lock.isSome || (s.workers x).isSome then none
    else (acquireSyncLease s.db holder ttlMs now).map fun r =>
      { s.put x r.2 .ready with db := r.1 }
  | .renew x ttlMs now => do
    let w ← s.workers x
    transact s (renewLease s.db w.lease ttlMs now).toOption
  | .release x => do
    let w ← s.workers x
    match w.task with
    | .ready => (transact s (some (releaseLease s.db w.lease))).map fun t => t.drop x
    | _ => none
  | .change g => transact s (some (g.apply s.db))
  | .markRevoked detail => transact s (some (Replica.markRevoked s.db detail))
  | .reset x keepSource now => do
    let w ← s.workers x
    match w.task with
    | .ready => transact s (Replica.reset s.db w.lease keepSource now).toOption
    | _ => none
  | .collect x now => do
    let w ← s.workers x
    if s.lock.isSome then none
    else
      match w.task with
      | .ready => beginCollect s x w.lease none now
      | .admitting p => beginCollect s x w.lease (some p) now
      | _ => none
  | .unlink x hash => do
    let w ← s.workers x
    match w.task with
    | .collecting kept _ => if referenced kept hash then none else some { s with disk := s.disk.unlink hash }
    | _ => none
  | .rmdir x name => do
    let w ← s.workers x
    match w.task with
    | .collecting _ _ => some { s with disk := s.disk.rmdir name }
    | _ => none
  | .collected x => do
    let w ← s.workers x
    match w.task with
    | .collecting _ next => some (endCollect s x w.lease next)
    | _ => none
  | .apply x page quota now => do
    let w ← s.workers x
    match w.task with
    | .ready => beginApply contentHash s x w.lease page quota now
    | _ => none
  | .commit x now => do
    let w ← s.workers x
    if s.lock.isSome then none else advance s x w.lease w.task (.commit x now)
  | .fail x => do
    let w ← s.workers x
    some { s.put x w.lease .ready with lock := if s.lock = some x then none else s.lock }
  | .purge hash =>
    if s.db.row.revokedDetail.isSome then some { s with disk := s.disk.unlink hash } else none
  | .purgeDir name =>
    if s.db.row.revokedDetail.isSome then some { s with disk := s.disk.rmdir name } else none
  | .kill x => some (s.drop x)
  | .powerLoss shards files =>
    some { s with disk := s.disk.powerLoss shards files, workers := fun _ => none, lock := none }
  | .stat x => do
    let w ← s.workers x
    advance s x w.lease w.task (.stat x)
  | .mkdir x => do
    let w ← s.workers x
    advance s x w.lease w.task (.mkdir x)
  | .write x => do
    let w ← s.workers x
    advance s x w.lease w.task (.write x)
  | .sync x => do
    let w ← s.workers x
    advance s x w.lease w.task (.sync x)
  | .link x => do
    let w ← s.workers x
    advance s x w.lease w.task (.link x)
  | .fsync x => do
    let w ← s.workers x
    advance s x w.lease w.task (.fsync x)

def initDisk : Disk := ⟨fun _ => false, fun _ => false, [], fun _ => false, []⟩

def machine : Machine State Action where
  initial s := ∃ space folder policy cid,
    s = ⟨initDb space folder policy cid, initDisk, fun _ => none, none⟩
  step := step contentHash

section DiskLaws

variable {contentHash : ByteArray → String} {d d' : Disk} {hash : String} {f : File}

structure Disk.Ok (contentHash : ByteArray → String) (d : Disk) : Prop where
  kept : ∀ h, d.filesKept h = true → (d.file h).isSome = true
  shardsKept : ∀ n, d.shardsKept n = true → d.shards n = true
  placed : ∀ b ∈ d.files, d.shards (shardOf b.1) = true
  files : ∀ b ∈ d.files, b.2.synced = true ∧ contentHash b.2.bytes = b.1
  linked : ∀ b ∈ d.linked, b.2.synced = true ∧ contentHash b.2.bytes = b.1

/-- Nothing is lost: no file, and no name that power loss leaves. -/
structure Disk.Grows (d d' : Disk) : Prop where
  file : ∀ h, (d.file h).isSome = true → (d'.file h).isSome = true
  filesKept : ∀ h, d.filesKept h = true → d'.filesKept h = true
  shardsKept : ∀ n, d.shardsKept n = true → d'.shardsKept n = true

lemma Disk.Grows.refl (d : Disk) : d.Grows d := ⟨fun _ h => h, fun _ h => h, fun _ h => h⟩

lemma keeps_iff : d.keeps hash = true ↔ d.filesKept hash = true ∧ d.shardsKept (shardOf hash) = true := by
  rw [Disk.keeps, Bool.and_eq_true]

lemma Disk.Grows.keeps (h : d.Grows d') (hk : d.keeps hash = true) : d'.keeps hash = true := by
  rw [keeps_iff] at hk ⊢
  exact ⟨h.filesKept _ hk.1, h.shardsKept _ hk.2⟩

lemma mem_files (h : d.file hash = some f) : (hash, f) ∈ d.files := by
  obtain ⟨l, r, he, -⟩ := List.lookup_eq_some_iff.mp h
  rw [he]
  simp

lemma file_isSome_iff : (d.file hash).isSome = true ↔ ∃ b ∈ d.files, b.1 = hash := by
  rw [Disk.file, List.lookup_isSome_iff]
  exact exists_congr fun b => and_congr_right fun _ =>
    ⟨fun h => (beq_iff_eq.mp h).symm, by rintro rfl; simp⟩

lemma ok_initDisk : Disk.Ok contentHash initDisk :=
  ⟨by simp [initDisk], by simp [initDisk], by simp [initDisk], by simp [initDisk], by simp [initDisk]⟩

lemma ok_mkdir (h : d.Ok contentHash) (name : String) :
    (d.mkdir name).Ok contentHash ∧ d.Grows (d.mkdir name) := by
  unfold Disk.mkdir
  split_ifs with hn
  · exact ⟨h, .refl d⟩
  have hk : d.shardsKept name ≠ true := fun hk => hn (h.shardsKept _ hk)
  refine ⟨⟨h.kept, fun n hs => ?_, fun b hb => ?_, h.files, h.linked⟩, fun _ h => h, fun _ h => h,
    fun n hs => ?_⟩
  · simp only [Function.update_apply] at hs ⊢
    split_ifs at hs ⊢
    exact h.shardsKept n hs
  · simp only [Function.update_apply]
    split_ifs
    · rfl
    · exact h.placed b hb
  · have hne : n ≠ name := by
      rintro rfl
      exact hk hs
    simpa only [Function.update_of_ne hne] using hs

lemma ok_link (h : d.Ok contentHash) (hs : f.synced = true) (hh : contentHash f.bytes = hash)
    (hl : d.link hash f = some d') :
    d'.Ok contentHash ∧ d.Grows d' ∧ (d'.file hash).isSome = true := by
  unfold Disk.link at hl
  split_ifs at hl with hshard hfile
  · cases hl
    exact ⟨h, .refl d, hfile⟩
  · cases hl
    have hk : d.filesKept hash ≠ true := fun hk => hfile (h.kept _ hk)
    have hgrow : ∀ x, (d.file x).isSome = true → (List.lookup x ((hash, f) :: d.files)).isSome = true := by
      intro x hx
      rw [List.lookup_cons]
      split
      · rfl
      · exact hx
    rw [Bool.not_eq_true', Bool.not_eq_false] at hshard
    refine ⟨⟨fun x hx => ?_, h.shardsKept, ?_, ?_, ?_⟩, ⟨hgrow, fun x hx => ?_, fun _ h => h⟩, ?_⟩
    · simp only [Function.update_apply] at hx
      split_ifs at hx
      exact hgrow x (h.kept x hx)
    · exact List.forall_mem_cons.mpr ⟨hshard, h.placed⟩
    · exact List.forall_mem_cons.mpr ⟨⟨hs, hh⟩, h.files⟩
    · exact List.forall_mem_cons.mpr ⟨⟨hs, hh⟩, h.linked⟩
    · have hne : x ≠ hash := by
        rintro rfl
        exact hk hx
      simpa only [Function.update_of_ne hne] using hx
    · exact (congrArg Option.isSome List.lookup_cons_self).trans rfl

lemma ok_fsync {dir : Dir} (h : d.Ok contentHash) (hf : d.fsync dir = some d') :
    d'.Ok contentHash ∧ d.Grows d' := by
  cases dir with
  | root =>
    cases hf
    exact ⟨⟨h.kept, fun _ h => h, h.placed, h.files, h.linked⟩, fun _ h => h, fun _ h => h, h.shardsKept⟩
  | shard name =>
    simp only [Disk.fsync, Option.ite_none_right_eq_some, Option.some.injEq] at hf
    obtain ⟨-, rfl⟩ := hf
    refine ⟨⟨fun x hx => ?_, h.shardsKept, h.placed, h.files, h.linked⟩, fun _ h => h, fun x hx => ?_,
      fun _ h => h⟩
    · simp only at hx
      split_ifs at hx
      · exact hx
      · exact h.kept x hx
    · simp only
      split_ifs
      · exact h.kept x hx
      · exact hx

lemma lookup_filter_ne {l : List (String × File)} {x : String} (hx : x ≠ hash) :
    (l.filter fun b => b.1 != hash).lookup x = l.lookup x := by
  induction l with
  | nil => rfl
  | cons b l ih =>
    rw [List.filter_cons]
    split_ifs with hb
    · rw [List.lookup_cons, List.lookup_cons, ih]
    · have he : b.1 = hash := by simpa using hb
      rw [ih, List.lookup_cons, he, beq_eq_false_iff_ne.mpr hx]

lemma ok_unlink (h : d.Ok contentHash) : (d.unlink hash).Ok contentHash := by
  refine ⟨fun x hx => ?_, h.shardsKept, fun b hb => h.placed b (List.mem_of_mem_filter hb),
    fun b hb => h.files b (List.mem_of_mem_filter hb), h.linked⟩
  simp only [Disk.unlink, Function.update_apply] at hx
  split_ifs at hx with hne
  rw [Disk.file, Disk.unlink, lookup_filter_ne hne]
  exact h.kept x hx

lemma keeps_unlink {x : String} (hx : x ≠ hash) : (d.unlink hash).keeps x = d.keeps x := by
  simp only [Disk.keeps, Disk.unlink, Function.update_of_ne hx]

lemma ok_rmdir (h : d.Ok contentHash) (name : String) : (d.rmdir name).Ok contentHash := by
  unfold Disk.rmdir
  split_ifs with hany
  · exact h
  refine ⟨h.kept, fun n hn => ?_, fun b hb => ?_, h.files, h.linked⟩
  · simp only [Function.update_apply] at hn ⊢
    split_ifs at hn ⊢
    exact h.shardsKept n hn
  · have hne : shardOf b.1 ≠ name := fun he => hany (List.any_eq_true.mpr ⟨b, hb, by simp [he]⟩)
    simpa only [Function.update_of_ne hne] using h.placed b hb

/-- A directory that holds a kept file is not removed. -/
lemma keeps_rmdir (h : d.Ok contentHash) {name : String} (hk : d.keeps hash = true) :
    (d.rmdir name).keeps hash = true := by
  unfold Disk.rmdir
  split_ifs with hany
  · exact hk
  rw [keeps_iff] at hk ⊢
  obtain ⟨b, hb, rfl⟩ := file_isSome_iff.mp (h.kept _ hk.1)
  have hne : shardOf b.1 ≠ name := fun he => hany (List.any_eq_true.mpr ⟨b, hb, by simp [he]⟩)
  exact ⟨hk.1, by simpa only [Function.update_of_ne hne] using hk.2⟩

variable {shards : String → Bool} {files : List (String × File)}

lemma keeps_powerLoss (h : d.Ok contentHash) (hk : d.keeps hash = true) :
    (d.powerLoss shards files).keeps hash = true := by
  rw [keeps_iff] at hk ⊢
  refine ⟨?_, ?_⟩
  · obtain ⟨b, hb, rfl⟩ := file_isSome_iff.mp (h.kept _ hk.1)
    refine (file_isSome_iff (d := d.powerLoss shards files)).mpr ⟨b, List.mem_append_left _ ?_, rfl⟩
    exact List.mem_filter.mpr ⟨hb, keeps_iff.mpr hk⟩
  · simp [Disk.powerLoss, hk.2]

lemma ok_powerLoss (h : d.Ok contentHash) : (d.powerLoss shards files).Ok contentHash := by
  have hgood : ∀ b ∈ (d.powerLoss shards files).files,
      (d.powerLoss shards files).shards (shardOf b.1) = true ∧
        b.2.synced = true ∧ contentHash b.2.bytes = b.1 := by
    intro b hb
    rcases List.mem_append.mp hb with hb | hb
    · obtain ⟨hm, hk⟩ := List.mem_filter.mp hb
      have hs := (keeps_iff.mp hk).2
      exact ⟨by simp [Disk.powerLoss, hs], h.files b hm⟩
    · obtain ⟨-, hk⟩ := List.mem_filter.mp hb
      simp only [Bool.and_eq_true, List.any_eq_true, Bool.or_eq_true, beq_iff_eq] at hk
      obtain ⟨⟨-, hs⟩, l, hl, hname, hf⟩ := hk
      obtain ⟨hsync, hhash⟩ := h.linked l hl
      rcases hf with hf | ⟨hf, -⟩
      · exact ⟨by simpa [Disk.powerLoss] using hs, hf ▸ hsync, by rw [← hf, ← hname, hhash]⟩
      · rw [hsync] at hf
        cases hf
  refine ⟨fun x hx => hx, fun n hn => hn, fun b hb => (hgood b hb).1, fun b hb => (hgood b hb).2, ?_⟩
  intro b hb
  rcases List.mem_append.mp hb with hb | hb
  · exact (hgood b hb).2
  · exact h.linked b hb

end DiskLaws

section Invariant

def Task.page : Task → Option Page
  | .ready => none
  | .admitting p => some p
  | .collecting _ next => next
  | .storing p _ _ | .creating p _ _ _ _ | .opening p _ _ _ _ | .filling p _ _ _ _ => some p
  | .syncing p _ | .committing p => some p

def Task.todo : Task → List (String × ByteArray)
  | .admitting p | .collecting _ (some p) => p.page.blobs
  | .storing _ todo _ => todo
  | .creating _ hash bytes todo _ | .opening _ hash bytes todo _ => (hash, bytes) :: todo
  | .filling _ hash temp todo _ => (hash, temp.bytes) :: todo
  | _ => []

def Task.dirs : Task → List Dir
  | .storing _ _ dirs | .creating _ _ _ _ dirs | .opening _ _ _ _ dirs | .filling _ _ _ _ dirs => dirs
  | .syncing _ dirs => dirs
  | _ => []

def Task.isCollecting : Task → Bool
  | .collecting _ _ => true
  | _ => false

def Task.isStoring : Task → Bool
  | .ready | .admitting _ | .collecting _ _ => false
  | _ => true

def Resolves (entries : List EntryRow) (hash : String) : Prop :=
  ∃ e ∈ entries, ∃ row, e.entry = .live row ∧ row.content = true ∧ row.hash = hash

/-- A content file whose name is kept once the listed directories are synced. -/
structure Stored (d : Disk) (dirs : List Dir) (hash : String) : Prop where
  file : (d.file hash).isSome = true
  name : d.filesKept hash = true ∨ .shard (shardOf hash) ∈ dirs
  shard : d.shardsKept (shardOf hash) = true ∨ .root ∈ dirs

def Covered (entries : List EntryRow) (d : Disk) (task : Task) : Prop :=
  ∀ p ∈ task.page, ∀ row, .live row ∈ p.page.changes → row.content = true →
    row.hash ∈ task.todo.map Prod.fst ∨ Resolves entries row.hash ∨
      task.isStoring = true ∧ Stored d task.dirs row.hash

def Holds (row : ReplicaRow) (lease : LeaseToken) : Prop :=
  row.revokedDetail = none ∧ lease.token = row.leaseToken

structure Inv (contentHash : ByteArray → String) (s : State) : Prop where
  disk : s.disk.Ok contentHash
  kept : s.db.row.revokedDetail = none → ∀ h, Resolves s.db.entries h → s.disk.keeps h = true
  bounded : ∀ {x w}, s.workers x = some w → w.lease.token ≤ s.db.row.leaseToken
  unique : ∀ {x y w v}, s.workers x = some w → s.workers y = some v → w.lease.token = v.lease.token → x = y
  hashed : ∀ {x w}, s.workers x = some w → Hashed contentHash w.task.todo
  covered : ∀ {x w}, s.workers x = some w → Holds s.db.row w.lease → Covered s.db.entries s.disk w.task
  collecting : ∀ {x w}, s.workers x = some w → w.task.isCollecting = true → s.lock = some x
  locked : ∀ {x}, s.lock = some x → ∃ w next, s.workers x = some w ∧
    w.task = .collecting s.db.entries next ∧ Holds s.db.row w.lease

variable {contentHash : ByteArray → String} {s t : State} {x : ℕ} {w : Worker} {task : Task} {disk : Disk}
  {entries : List EntryRow} {d d' : Disk} {dirs : List Dir} {hash : String}

lemma Stored.mono (h : Stored d dirs hash) (hg : d.Grows d') : Stored d' dirs hash :=
  ⟨hg.file _ h.file, h.name.imp_left (hg.filesKept _), h.shard.imp_left (hg.shardsKept _)⟩

lemma Covered.mono (h : Covered entries d task) (hg : d.Grows d') : Covered entries d' task :=
  fun p hp row hr hc => (h p hp row hr hc).imp_right (Or.imp_right (And.imp_right (Stored.mono · hg)))

lemma inv_init {space folder : String} {policy : LocalReadPolicy} {cid : Option String} :
    Inv contentHash ⟨initDb space folder policy cid, initDisk, fun _ => none, none⟩ where
  disk := ok_initDisk
  kept _ h := by
    rintro ⟨e, he, -⟩
    cases he
  bounded h := by cases h
  unique h := by cases h
  hashed h := by cases h
  covered h := by cases h
  collecting h := by cases h
  locked h := by cases h

lemma workers_put {lease : LeaseToken} {y : ℕ} {v : Worker} (h : (s.put x lease task).workers y = some v) :
    y = x ∧ v = ⟨lease, task⟩ ∨ y ≠ x ∧ s.workers y = some v := by
  simp only [State.put, Function.update_apply] at h
  split_ifs at h with hy
  · cases h
    exact .inl ⟨hy, rfl⟩
  · exact .inr ⟨hy, h⟩

/-- A worker moves on, and the disk loses nothing. -/
lemma Inv.put (hi : Inv contentHash s) (hx : s.workers x = some w) (task : Task) (hd : disk.Ok contentHash)
    (hg : s.disk.Grows disk) (hh : Hashed contentHash task.todo) (hn : task.isCollecting = false)
    (hc : Holds s.db.row w.lease → Covered s.db.entries disk task) {lock : Option ℕ}
    (hl : lock = if s.lock = some x then none else s.lock) :
    Inv contentHash { s.put x w.lease task with disk := disk, lock := lock } where
  disk := hd
  kept hr h hres := hg.keeps (hi.kept hr h hres)
  bounded h := by
    rcases workers_put h with ⟨-, rfl⟩ | ⟨-, h⟩
    · exact hi.bounded (w := w) hx
    · exact hi.bounded h
  unique h h' ht := by
    rcases workers_put h with ⟨hy, rfl⟩ | ⟨-, h⟩ <;> rcases workers_put h' with ⟨hy', rfl⟩ | ⟨-, h'⟩
    · exact hy.trans hy'.symm
    · exact hy.trans (hi.unique (w := w) hx h' ht)
    · exact (hi.unique (v := w) h hx ht).trans hy'.symm
    · exact hi.unique h h' ht
  hashed h := by
    rcases workers_put h with ⟨-, rfl⟩ | ⟨-, h⟩
    · exact hh
    · exact hi.hashed h
  covered h hold := by
    rcases workers_put h with ⟨-, rfl⟩ | ⟨-, h⟩
    · exact hc hold
    · exact (hi.covered h hold).mono hg
  collecting h hcol := by
    rcases workers_put h with ⟨-, rfl⟩ | ⟨hy, h⟩
    · rw [hn] at hcol
      cases hcol
    · have hlock := hi.collecting h hcol
      have hne : s.lock ≠ some x := by
        rw [hlock]
        exact fun he => hy (Option.some.inj he)
      rw [← hlock]
      exact hl.trans (if_neg hne)
  locked {y} h := by
    simp only [hl, Option.ite_none_left_eq_some] at h
    obtain ⟨w', next, hw, hk⟩ := hi.locked h.2
    have hy : y ≠ x := by
      rintro rfl
      exact h.1 h.2
    exact ⟨w', next, (Function.update_of_ne hy ..).trans hw, hk⟩

lemma Inv.not_locked (hi : Inv contentHash s) (hx : s.workers x = some w) (hn : w.task.isCollecting = false) :
    s.lock = if s.lock = some x then none else s.lock := by
  refine (if_neg fun he => ?_).symm
  obtain ⟨w', next, hx', hw', -⟩ := hi.locked he
  rw [hx, Option.some.injEq] at hx'
  subst hx'
  rw [hw'] at hn
  cases hn

lemma Inv.drop (hi : Inv contentHash s) (x : ℕ) : Inv contentHash (s.drop x) := by
  have hsome : ∀ {y w}, (s.drop x).workers y = some w → y ≠ x ∧ s.workers y = some w := by
    intro y w h
    simp only [State.drop, Function.update_apply, Option.ite_none_left_eq_some] at h
    exact h
  refine ⟨hi.disk, hi.kept, fun h => hi.bounded (hsome h).2, fun h h' => hi.unique (hsome h).2 (hsome h').2,
    fun h => hi.hashed (hsome h).2, fun h => hi.covered (hsome h).2, fun {y w} h hcol => ?_, fun {y} h => ?_⟩
  · have hl := hi.collecting (hsome h).2 hcol
    have hne : s.lock ≠ some x := by
      rw [hl]
      exact fun he => (hsome h).1 (Option.some.inj he)
    rw [← hl]
    exact if_neg hne
  · simp only [State.drop, Option.ite_none_left_eq_some] at h
    obtain ⟨w, next, hw, hk⟩ := hi.locked h.2
    have hy : y ≠ x := by
      rintro rfl
      exact h.1 h.2
    exact ⟨w, next, (Function.update_of_ne hy ..).trans hw, hk⟩

lemma Inv.powerLoss {shards : String → Bool} {files : List (String × File)} (hi : Inv contentHash s) :
    Inv contentHash
      { s with disk := s.disk.powerLoss shards files, workers := fun _ => none, lock := none } where
  disk := ok_powerLoss hi.disk
  kept hr h hres := keeps_powerLoss hi.disk (hi.kept hr h hres)
  bounded h := by cases h
  unique h := by cases h
  hashed h := by cases h
  covered h := by cases h
  collecting h := by cases h
  locked h := by cases h

lemma Inv.sameContent (hi : Inv contentHash s) {db : Db} (h : SameContent s.db db) :
    Inv contentHash { s with db := db } := by
  have hold : ∀ {l : LeaseToken}, Holds db.row l ↔ Holds s.db.row l := by
    intro l
    rw [Holds, Holds, h.revokedDetail, h.leaseToken]
  refine ⟨hi.disk, fun hr hash hres => ?_, fun hx => ?_, hi.unique, hi.hashed, fun hx hh => ?_,
    hi.collecting, fun hl => ?_⟩
  · rw [h.entries] at hres
    exact hi.kept (h.revokedDetail ▸ hr) hash hres
  · rw [h.leaseToken]
    exact hi.bounded hx
  · rw [h.entries]
    exact hi.covered hx (hold.mp hh)
  · obtain ⟨w, next, hw, ht, hh⟩ := hi.locked hl
    exact ⟨w, next, hw, by rw [ht, h.entries], hold.mpr hh⟩

lemma Inv.setDisk (hi : Inv contentHash s) (hd : disk.Ok contentHash)
    (hk : s.db.row.revokedDetail = none → ∀ h, Resolves s.db.entries h → disk.keeps h = true)
    (hc : ∀ {x w}, s.workers x = some w → Holds s.db.row w.lease → Covered s.db.entries disk w.task) :
    Inv contentHash { s with disk := disk } :=
  ⟨hd, hk, hi.bounded, hi.unique, hi.hashed, fun h => hc h, hi.collecting, hi.locked⟩

lemma Inv.setDb (hi : Inv contentHash s) {db : Db} (hl : s.lock = none)
    (ht : s.db.row.leaseToken ≤ db.row.leaseToken)
    (hk : db.row.revokedDetail = none → ∀ h, Resolves db.entries h → s.disk.keeps h = true)
    (hc : ∀ {x w}, s.workers x = some w → Holds db.row w.lease → Covered db.entries s.disk w.task) :
    Inv contentHash { s with db := db } where
  disk := hi.disk
  kept := hk
  bounded h := (hi.bounded h).trans ht
  unique := hi.unique
  hashed := hi.hashed
  covered h := hc h
  collecting := hi.collecting
  locked h := by
    rw [hl] at h
    cases h

lemma Inv.holder_unique (hi : Inv contentHash s) (hx : s.workers x = some w) (hw : Holds s.db.row w.lease)
    {y : ℕ} {v : Worker} (hy : s.workers y = some v) (hv : Holds s.db.row v.lease) : y = x ∧ v = w := by
  have hyx : y = x := hi.unique hy hx (hv.2.trans hw.2.symm)
  subst hyx
  rw [hx, Option.some.injEq] at hy
  exact ⟨rfl, hy.symm⟩

lemma Inv.acquire (hi : Inv contentHash s) {db : Db} {lease : LeaseToken} {holder : String} {ttlMs now : ℕ}
    (hl : s.lock = none) (ha : acquireSyncLease s.db holder ttlMs now = some (db, lease)) :
    Inv contentHash { s.put x lease .ready with db := db } := by
  obtain ⟨rfl, htok⟩ := acquireSyncLease_eq ha
  have hlt : ∀ {y v}, s.workers y = some v → v.lease.token < lease.token := by
    intro y v hy
    have := hi.bounded hy
    omega
  refine ⟨hi.disk, hi.kept, fun h => ?_, fun h h' ht => ?_, fun h => ?_, fun h hh => ?_, fun h hcol => ?_,
    fun h => ?_⟩
  · rcases workers_put h with ⟨-, rfl⟩ | ⟨-, h⟩
    · exact htok.le
    · exact (hi.bounded h).trans (Nat.le_succ _)
  · rcases workers_put h with ⟨hy, rfl⟩ | ⟨-, h⟩ <;> rcases workers_put h' with ⟨hy', rfl⟩ | ⟨-, h'⟩
    · exact hy.trans hy'.symm
    · exact absurd ht (hlt h').ne'
    · exact absurd ht (hlt h).ne
    · exact hi.unique h h' ht
  · rcases workers_put h with ⟨-, rfl⟩ | ⟨-, h⟩
    · exact hashed_nil
    · exact hi.hashed h
  · rcases workers_put h with ⟨-, rfl⟩ | ⟨-, h⟩
    · rintro p hp
      cases hp
    · exact absurd (hh.2.trans htok.symm) (hlt h).ne
  · rcases workers_put h with ⟨-, rfl⟩ | ⟨-, h⟩
    · cases hcol
    · exact hi.collecting h hcol
  · have hlock : s.lock = some _ := h
    rw [hl] at hlock
    cases hlock

lemma Inv.beginCollect {now : ℕ} (hi : Inv contentHash s) (hx : s.workers x = some w)
    (next : Option Page) (hl : s.lock = none) (hh : Hashed contentHash (Task.collecting [] next).todo)
    (hc : Holds s.db.row w.lease → Covered s.db.entries s.disk (.collecting s.db.entries next))
    (hb : beginCollect s x w.lease next now = some t) : Inv contentHash t := by
  unfold Durability.beginCollect at hb
  split at hb
  swap
  · cases hb
  rename_i hlease
  cases hb
  have hold : Holds s.db.row w.lease := ⟨(checkLease_ok hlease).1, (checkLease_ok hlease).2.1.symm⟩
  refine ⟨hi.disk, hi.kept, fun h => ?_, fun h h' ht => ?_, fun h => ?_, fun h hh => ?_, fun h hcol => ?_,
    fun h => ?_⟩
  · rcases workers_put h with ⟨-, rfl⟩ | ⟨-, h⟩
    · exact hi.bounded (w := w) hx
    · exact hi.bounded h
  · rcases workers_put h with ⟨hy, rfl⟩ | ⟨-, h⟩ <;> rcases workers_put h' with ⟨hy', rfl⟩ | ⟨-, h'⟩
    · exact hy.trans hy'.symm
    · exact hy.trans (hi.unique (w := w) hx h' ht)
    · exact (hi.unique (v := w) h hx ht).trans hy'.symm
    · exact hi.unique h h' ht
  · rcases workers_put h with ⟨-, rfl⟩ | ⟨-, h⟩
    · cases next <;> exact hh
    · exact hi.hashed h
  · rcases workers_put h with ⟨-, rfl⟩ | ⟨-, h⟩
    · exact hc hold
    · exact hi.covered h hh
  · rcases workers_put h with ⟨hy, rfl⟩ | ⟨-, h⟩
    · exact congrArg some hy.symm
    · have hlock := hi.collecting h hcol
      rw [hl] at hlock
      cases hlock
  · cases h
    exact ⟨_, next, Function.update_self .., rfl, hold⟩

/-- The collector is the holder, so the rows it read are the rows that stand. -/
lemma Inv.collector (hi : Inv contentHash s) {kept : List EntryRow} {next : Option Page}
    (hx : s.workers x = some w) (hw : w.task = .collecting kept next) :
    kept = s.db.entries ∧ Holds s.db.row w.lease := by
  obtain ⟨w', next', hx', hw', hold⟩ := hi.locked (hi.collecting hx (by rw [hw]; rfl))
  rw [hx, Option.some.injEq] at hx'
  subst hx'
  rw [hw] at hw'
  cases hw'
  exact ⟨rfl, hold⟩

lemma Inv.collectDisk (hi : Inv contentHash s) {kept : List EntryRow} {next : Option Page}
    (hx : s.workers x = some w) (hw : w.task = .collecting kept next) (hd : disk.Ok contentHash)
    (hk : ∀ h, Resolves kept h → s.disk.keeps h = true → disk.keeps h = true) :
    Inv contentHash { s with disk := disk } := by
  obtain ⟨rfl, hold⟩ := hi.collector hx hw
  refine hi.setDisk hd (fun hr h hres => hk h hres (hi.kept hr h hres)) fun hy hv => ?_
  obtain ⟨rfl, rfl⟩ := hi.holder_unique hx hold hy hv
  have hc := hi.covered hx hold
  rw [hw] at hc ⊢
  intro p hp row hr hcon
  rcases hc p hp row hr hcon with h | h | ⟨h, -⟩
  · exact .inl h
  · exact .inr (.inl h)
  · cases h

lemma Inv.revokedDisk (hi : Inv contentHash s) (hr : s.db.row.revokedDetail.isSome = true)
    (hd : disk.Ok contentHash) : Inv contentHash { s with disk := disk } := by
  have hne : s.db.row.revokedDetail ≠ none := Option.isSome_iff_ne_none.mp hr
  exact hi.setDisk hd (fun h => absurd h hne) fun _ hh => absurd hh.1 hne

lemma resolves_of_referenced (h : referenced entries hash = false) {h' : String}
    (hr : Resolves entries h') : h' ≠ hash := by
  rintro rfl
  obtain ⟨e, he, row, hrow, hc, hh⟩ := hr
  have hany : referenced entries h' = true := by
    refine List.any_eq_true.mpr ⟨e, he, ?_⟩
    rw [hrow]
    simp only [hc, hh, Bool.true_and, beq_self_eq_true]
  rw [h] at hany
  cases hany

lemma Stored.fsync {dir : Dir} (h : Stored d (dir :: dirs) hash) (hd : d.Ok contentHash)
    (hf : d.fsync dir = some d') : Stored d' dirs hash := by
  have hg : d.Grows d' := (ok_fsync hd hf).2
  refine ⟨hg.file _ h.file, ?_, ?_⟩
  · rcases h.name with hn | hn
    · exact .inl (hg.filesKept _ hn)
    · rcases List.mem_cons.mp hn with rfl | hn
      · simp only [Disk.fsync, Option.ite_none_right_eq_some, Option.some.injEq] at hf
        obtain ⟨-, rfl⟩ := hf
        exact .inl ((if_pos rfl).trans h.file)
      · exact .inr hn
  · rcases h.shard with hs | hs
    · exact .inl (hg.shardsKept _ hs)
    · rcases List.mem_cons.mp hs with rfl | hs
      · obtain ⟨b, hb, rfl⟩ := file_isSome_iff.mp h.file
        cases hf
        exact .inl (hd.placed b hb)
      · exact .inr hs

lemma Stored.keeps (h : Stored d [] hash) : d.keeps hash = true :=
  keeps_iff.mpr ⟨h.name.resolve_right List.not_mem_nil, h.shard.resolve_right List.not_mem_nil⟩

lemma stored_of_keeps (hd : d.Ok contentHash) (h : d.keeps hash = true) : Stored d dirs hash := by
  rw [keeps_iff] at h
  exact ⟨hd.kept _ h.1, .inl h.1, .inl h.2⟩

lemma mem_addDir {dir dir' : Dir} : dir ∈ addDir dirs dir' ↔ dir ∈ dirs ∨ dir = dir' := by
  unfold addDir
  split_ifs with h
  · exact ⟨.inl, fun hd => hd.elim id fun he => he ▸ h⟩
  · rw [List.mem_append, List.mem_singleton]

lemma Stored.addDir (h : Stored d dirs hash) (dir : Dir) : Stored d (addDir dirs dir) hash :=
  ⟨h.file, h.name.imp_right fun hm => mem_addDir.mpr (.inl hm),
    h.shard.imp_right fun hm => mem_addDir.mpr (.inl hm)⟩

-- The first content of `todo` is stored, and what was stored stays so.
lemma Covered.stored {p : Page} {bytes : ByteArray} {todo : List (String × ByteArray)} {dirs' : List Dir}
    (h : Covered entries d task) (hp : task.page = some p) (htodo : task.todo = (hash, bytes) :: todo)
    (hnew : Stored d' dirs' hash) (hold : ∀ h, Stored d task.dirs h → Stored d' dirs' h) :
    Covered entries d' (.storing p todo dirs') := by
  intro p' hp' row hr hc
  cases hp'
  rcases h p hp row hr hc with hm | hres | ⟨-, hs⟩
  · rw [htodo, List.map_cons, List.mem_cons] at hm
    rcases hm with hm | hm
    · exact .inr (.inr ⟨rfl, hm ▸ hnew⟩)
    · exact .inl hm
  · exact .inr (.inl hres)
  · exact .inr (.inr ⟨rfl, hold _ hs⟩)

def skipsKept (s : State) : Action → Bool
  | .stat x =>
    match s.workers x with
    | some ⟨lease, .storing _ ((hash, _) :: _) _⟩ =>
      s.db.row.revokedDetail.isSome || lease.token != s.db.row.leaseToken ||
        (s.disk.file hash).isNone || s.disk.keeps hash
    | _ => true
  | _ => true

lemma skipsKept_stat {p : Page} {bytes : ByteArray} {todo : List (String × ByteArray)}
    (h : skipsKept s (.stat x) = true) (hx : s.workers x = some w)
    (hw : w.task = .storing p ((hash, bytes) :: todo) dirs) (hf : (s.disk.file hash).isSome = true)
    (hold : Holds s.db.row w.lease) : s.disk.keeps hash = true := by
  obtain ⟨lease, task⟩ := w
  obtain ⟨hr, ht⟩ := hold
  dsimp only at hw ht
  subst hw
  obtain ⟨f, hf⟩ := Option.isSome_iff_exists.mp hf
  simpa only [skipsKept, hx, hr, ht, hf, Option.isSome_none, Option.isNone_some, bne_self_eq_false,
    Bool.false_or] using h

lemma covered_ready : Covered entries d .ready := by
  rintro p hp
  cases hp

-- What the commit adds is stored, for every name its page refers to is covered.
lemma Inv.commit {p : Page} {now : ℕ} {db : Db} (hi : Inv contentHash s) (hx : s.workers x = some w)
    (hw : w.task = .committing p) (hl : s.lock = none)
    (hc : commitPage s.db w.lease p.page p.reused now = .ok db) :
    Inv contentHash { s.put x w.lease .ready with db := db } := by
  obtain ⟨⟨hrev, htok⟩, rfl⟩ := commitPage_ok hc
  have hold : Holds s.db.row w.lease := ⟨hrev, htok.symm⟩
  have hcov := hi.covered hx hold
  rw [hw] at hcov
  have hput := hi.put hx .ready hi.disk (.refl _) hashed_nil rfl (fun _ => covered_ready)
    (hi.not_locked hx (by rw [hw]; rfl))
  obtain ⟨-, -, hlt, hrd, -⟩ := commitRow_row s.db.row p.page
  refine hput.setDb hl hlt.ge (fun _ h hres => ?_) fun {y v} hy hv => ?_
  · obtain ⟨e, he, row, hrow, hcon, rfl⟩ := hres
    rcases mem_applyChanges he with he | he
    · exact hi.kept hrev _ ⟨e, he, row, hrow, hcon, rfl⟩
    · rw [hrow] at he
      rcases hcov p rfl row he hcon with h | h | ⟨-, h⟩
      · cases h
      · exact hi.kept hrev _ h
      · exact h.keeps
  · rcases workers_put hy with ⟨-, rfl⟩ | ⟨hne, hy⟩
    · exact covered_ready
    · have hvold : Holds s.db.row v.lease := ⟨hrev, hv.2.trans hlt⟩
      exact absurd (hi.holder_unique hx hold hy hvold).1 hne

lemma Inv.advance {act : Action} (hi : Inv contentHash s) (hx : s.workers x = some w)
    (hg : ∀ y, act = .stat y → y = x ∧ skipsKept s act = true)
    (hl : ∀ y n, act = .commit y n → s.lock = none)
    (ha : advance s x w.lease w.task act = some t) : Inv contentHash t := by
  have hcov := hi.covered hx
  have hhash := hi.hashed hx
  have hlock := hi.not_locked hx
  generalize hw : w.task = task at *
  unfold Durability.advance at ha
  split at ha
  · -- every content is written
    cases ha
    exact hi.put hx (.syncing _ _) hi.disk (.refl _) hashed_nil rfl hcov (hlock rfl)
  · rename_i p hash bytes todo dirs y
    obtain ⟨rfl, hskip⟩ := hg _ rfl
    have htodo : Hashed contentHash todo := fun b hb => hhash b (List.mem_cons_of_mem _ hb)
    split_ifs at ha with hf
    · cases ha
      refine hi.put hx (.storing _ _ _) hi.disk (.refl _) htodo rfl (fun hold => ?_) (hlock rfl)
      have hkeeps := skipsKept_stat hskip hx hw hf hold
      exact (hcov hold).stored rfl rfl (stored_of_keeps hi.disk hkeeps) fun _ h => h
    · cases ha
      exact hi.put hx (.creating _ _ _ _ _) hi.disk (.refl _) hhash rfl hcov (hlock rfl)
  · cases ha
    obtain ⟨hd, hgrows⟩ := ok_mkdir hi.disk _
    exact hi.put hx (.opening _ _ _ _ _) hd hgrows hhash rfl (fun hold => (hcov hold).mono hgrows) (hlock rfl)
  · rename_i p hash bytes todo dirs y
    cases ha
    exact hi.put hx (.filling p hash ⟨bytes, false⟩ todo dirs) hi.disk (.refl _) hhash rfl hcov (hlock rfl)
  · rename_i p hash temp todo dirs y
    cases ha
    exact hi.put hx (.filling p hash { temp with synced := true } todo dirs) hi.disk (.refl _) hhash rfl
      hcov (hlock rfl)
  · rename_i p hash temp todo dirs y
    split_ifs at ha with hsync
    obtain ⟨disk, hlink, rfl⟩ := Option.map_eq_some_iff.mp ha
    obtain ⟨hd, hgrows, hfile⟩ := ok_link hi.disk hsync (hhash _ List.mem_cons_self) hlink
    have htodo : Hashed contentHash todo := fun b hb => hhash b (List.mem_cons_of_mem _ hb)
    refine hi.put hx (.storing _ _ _) hd hgrows htodo rfl (fun hold => ?_) (hlock rfl)
    refine (hcov hold).stored rfl rfl ⟨hfile, .inr ?_, .inr ?_⟩
      fun h hs => ((hs.mono hgrows).addDir _).addDir _
    · exact mem_addDir.mpr (.inl (mem_addDir.mpr (.inr rfl)))
    · exact mem_addDir.mpr (.inr rfl)
  · cases ha
    exact hi.put hx (.committing _) hi.disk (.refl _) hashed_nil rfl hcov (hlock rfl)
  · rename_i p dir dirs y
    obtain ⟨disk, hf, rfl⟩ := Option.map_eq_some_iff.mp ha
    obtain ⟨hd, hgrows⟩ := ok_fsync hi.disk hf
    refine hi.put hx (.syncing _ _) hd hgrows hashed_nil rfl (fun hold p' hp row hr hc => ?_) (hlock rfl)
    exact (hcov hold p' hp row hr hc).imp_right (Or.imp_right (And.imp_right (Stored.fsync · hi.disk hf)))
  · rename_i p y now
    split at ha
    · rename_i hc
      cases ha
      exact hi.commit hx hw (hl _ _ rfl) hc
    · cases ha
  · cases ha

lemma Inv.reset {keepSource : Bool} {now : ℕ} {db : Db} (hi : Inv contentHash s)
    (hx : s.workers x = some w) (hw : w.task = .ready) (hl : s.lock = none)
    (hr : Replica.reset s.db w.lease keepSource now = .ok db) : Inv contentHash { s with db := db } := by
  obtain ⟨⟨hrev, htok⟩, hentries, -, hlt, hrd, -⟩ := reset_ok hr
  refine hi.setDb hl hlt.ge (fun _ h hres => ?_) fun {y v} hy hv => ?_
  · obtain ⟨e, he, -⟩ := hres
    rw [hentries] at he
    cases he
  · have hvold : Holds s.db.row v.lease := ⟨hrev, hv.2.trans hlt⟩
    obtain ⟨rfl, rfl⟩ := hi.holder_unique hx ⟨hrev, htok.symm⟩ hy hvold
    rw [hw]
    exact covered_ready

lemma GrantChange.sameContent (g : GrantChange) (db : Db) : SameContent db (g.apply db) := by
  cases g with
  | install g => exact sameContent_installGrant db g
  | discard cid => exact sameContent_discardPendingGrant db cid
  | setRetention cid => exact sameContent_setRetentionGrant db cid
  | retentionRevoked cid detail => exact sameContent_markRetentionRevoked db cid detail

lemma transact_eq_some {db : Option Db} (h : transact s db = some t) :
    s.lock = none ∧ ∃ db', db = some db' ∧ t = { s with db := db' } := by
  simp only [transact, Option.ite_none_left_eq_some, Bool.not_eq_true, Option.isSome_eq_false_iff,
    Option.isNone_iff_eq_none, Option.map_eq_some_iff] at h
  obtain ⟨hl, db', hdb, rfl⟩ := h
  exact ⟨hl, db', hdb, rfl⟩

lemma toOption_eq_some {ε α : Type} {r : Except ε α} {a : α} (h : r.toOption = some a) : r = .ok a := by
  cases r with
  | ok b =>
    cases h
    rfl
  | error e => cases h

lemma Inv.apply {page : VerifiedPage} {quota : Bool} {now : ℕ} (hi : Inv contentHash s)
    (hx : s.workers x = some w) (hw : w.task = .ready)
    (ha : beginApply contentHash s x w.lease page quota now = some t) : Inv contentHash t := by
  unfold beginApply at ha
  split at ha
  · cases ha
  rename_i hhash
  rw [Bool.not_eq_true', Bool.not_eq_false, isHashed, List.all_eq_true] at hhash
  have hblobs : Hashed contentHash page.blobs := fun b hb => beq_iff_eq.mp (hhash b hb)
  have hlock := hi.not_locked hx (by rw [hw]; rfl)
  split at ha
  swap
  · cases ha
  rename_i reused hf
  have hcov : ∀ row, .live row ∈ page.changes → row.content = true →
      row.hash ∈ page.blobs.map Prod.fst ∨ Resolves s.db.entries row.hash := fun row hr hc =>
    applyPageFence_ok hf hr hc
  split_ifs at ha
  · cases ha
    refine hi.put hx (.admitting ⟨page, reused⟩) hi.disk (.refl _) hblobs rfl
      (fun _ p hp row hr hc => ?_) hlock
    cases hp
    exact (hcov row hr hc).imp_right .inl
  · cases ha
    refine hi.put hx (.storing ⟨page, reused⟩ _ _) hi.disk (.refl _) hblobs rfl
      (fun _ p hp row hr hc => ?_) hlock
    cases hp
    exact (hcov row hr hc).imp_right .inl

lemma Inv.endCollect {kept : List EntryRow} {next : Option Page} (hi : Inv contentHash s)
    (hx : s.workers x = some w) (hw : w.task = .collecting kept next) :
    Inv contentHash (endCollect s x w.lease next) := by
  have hl : s.lock = some x := hi.collecting hx (by rw [hw]; rfl)
  have hlock : none = if s.lock = some x then none else s.lock := (if_pos hl).symm
  have hcov := hi.covered hx
  have hhash := hi.hashed hx
  rw [hw] at hcov hhash
  cases next with
  | none => exact hi.put hx .ready hi.disk (.refl _) hashed_nil rfl (fun _ => covered_ready) hlock
  | some p =>
    refine hi.put hx (.storing _ _ _) hi.disk (.refl _) hhash rfl (fun hold p' hp row hr hc => ?_) hlock
    cases hp
    rcases hcov hold p rfl row hr hc with h | h | ⟨h, -⟩
    · exact .inl h
    · exact .inr (.inl h)
    · cases h

lemma inv_step {act : Action} (hi : Inv contentHash s) (hg : skipsKept s act = true)
    (h : step contentHash s act = some t) : Inv contentHash t := by
  cases act with
  | acquire x holder ttlMs now =>
    simp only [step, Option.ite_none_left_eq_some, Option.map_eq_some_iff] at h
    obtain ⟨hn, ⟨db, lease⟩, ha, rfl⟩ := h
    have hl : s.lock = none ∧ s.workers x = none := by simpa using hn
    exact hi.acquire hl.1 ha
  | renew x ttlMs now =>
    obtain ⟨w, -, h⟩ := Option.bind_eq_some_iff.mp h
    obtain ⟨-, db, hdb, rfl⟩ := transact_eq_some h
    exact hi.sameContent (sameContent_renewLease (toOption_eq_some hdb))
  | release x =>
    obtain ⟨w, -, h⟩ := Option.bind_eq_some_iff.mp h
    split at h
    · obtain ⟨u, hu, rfl⟩ := Option.map_eq_some_iff.mp h
      obtain ⟨-, db, hdb, rfl⟩ := transact_eq_some hu
      cases hdb
      exact (hi.sameContent (sameContent_releaseLease s.db w.lease)).drop x
    · cases h
  | change g =>
    obtain ⟨-, db, hdb, rfl⟩ := transact_eq_some h
    cases hdb
    exact hi.sameContent (g.sameContent s.db)
  | markRevoked detail =>
    obtain ⟨hl, db, hdb, rfl⟩ := transact_eq_some h
    cases hdb
    exact hi.setDb hl (Nat.le_succ _) (fun hr => by cases hr) fun _ hh => by cases hh.1
  | reset x keepSource now =>
    obtain ⟨w, hx, h⟩ := Option.bind_eq_some_iff.mp h
    split at h
    · rename_i hw
      obtain ⟨hl, db, hdb, rfl⟩ := transact_eq_some h
      exact hi.reset hx hw hl (toOption_eq_some hdb)
    · cases h
  | collect x now =>
    obtain ⟨w, hx, h⟩ := Option.bind_eq_some_iff.mp h
    rw [Option.ite_none_left_eq_some] at h
    obtain ⟨hl, h⟩ := h
    have hl : s.lock = none := by simpa using hl
    have hcov := hi.covered hx
    have hhash := hi.hashed hx
    split at h
    · refine hi.beginCollect hx none hl hashed_nil (fun _ p hp => ?_) h
      cases hp
    · rename_i p hw
      rw [hw] at hcov hhash
      refine hi.beginCollect hx (some p) hl hhash (fun hold p' hp row hr hc => ?_) h
      cases hp
      exact (hcov hold p rfl row hr hc).imp_right (Or.imp_right fun hs => by cases hs.1)
    · cases h
  | unlink x hash =>
    obtain ⟨w, hx, h⟩ := Option.bind_eq_some_iff.mp h
    split at h
    · rename_i hw
      rw [Option.ite_none_left_eq_some, Option.some.injEq, Bool.not_eq_true] at h
      obtain ⟨href, rfl⟩ := h
      refine hi.collectDisk hx hw (ok_unlink hi.disk) fun h hres hk => ?_
      rw [keeps_unlink (resolves_of_referenced href hres)]
      exact hk
    · cases h
  | rmdir x name =>
    obtain ⟨w, hx, h⟩ := Option.bind_eq_some_iff.mp h
    split at h
    · rename_i hw
      cases h
      exact hi.collectDisk hx hw (ok_rmdir hi.disk name) fun _ _ hk => keeps_rmdir hi.disk hk
    · cases h
  | collected x =>
    obtain ⟨w, hx, h⟩ := Option.bind_eq_some_iff.mp h
    split at h
    · rename_i hw
      cases h
      exact hi.endCollect hx hw
    · cases h
  | apply x page quota now =>
    obtain ⟨w, hx, h⟩ := Option.bind_eq_some_iff.mp h
    split at h
    · rename_i hw
      exact hi.apply hx hw h
    · cases h
  | commit x now =>
    obtain ⟨w, hx, h⟩ := Option.bind_eq_some_iff.mp h
    rw [Option.ite_none_left_eq_some] at h
    exact hi.advance hx (fun _ hy => by cases hy) (fun _ _ _ => by simpa using h.1) h.2
  | fail x =>
    obtain ⟨w, hx, h⟩ := Option.bind_eq_some_iff.mp h
    cases h
    exact hi.put hx .ready hi.disk (.refl _) hashed_nil rfl (fun _ => covered_ready) rfl
  | purge hash =>
    simp only [step, Option.ite_none_right_eq_some, Option.some.injEq] at h
    obtain ⟨hr, rfl⟩ := h
    exact hi.revokedDisk hr (ok_unlink hi.disk)
  | purgeDir name =>
    simp only [step, Option.ite_none_right_eq_some, Option.some.injEq] at h
    obtain ⟨hr, rfl⟩ := h
    exact hi.revokedDisk hr (ok_rmdir hi.disk name)
  | kill x =>
    cases h
    exact hi.drop x
  | powerLoss shards files =>
    cases h
    exact hi.powerLoss
  | stat x =>
    obtain ⟨w, hx, h⟩ := Option.bind_eq_some_iff.mp h
    refine hi.advance hx (fun _ hy => ?_) (fun _ _ hy => by cases hy) h
    cases hy
    exact ⟨rfl, hg⟩
  | mkdir x | write x | sync x | link x | fsync x =>
    obtain ⟨w, hx, h⟩ := Option.bind_eq_some_iff.mp h
    exact hi.advance hx (fun _ hy => by cases hy) (fun _ _ hy => by cases hy) h

/-- Every committed content row of a replica that is not revoked has its file, with the bytes that
hash to its name, as long as no writer passes over a file whose name power loss could still take. -/
theorem content_durable (h : (machine contentHash).Within (fun s act => skipsKept s act = true) s)
    (hr : s.db.row.revokedDetail = none) {e : EntryRow} {row : LiveRow} (he : e ∈ s.db.entries)
    (hrow : e.entry = .live row) (hc : row.content = true) :
    ∃ f, s.disk.file row.hash = some f ∧ f.synced = true ∧ contentHash f.bytes = row.hash := by
  have hi : Inv contentHash s := by
    refine h.invariant (fun s hs => ?_) fun s act t _ hi hg hst => inv_step hi hg hst
    obtain ⟨space, folder, policy, cid, rfl⟩ := hs
    exact inv_init
  have hk := (keeps_iff.mp (hi.kept hr _ ⟨e, he, row, hrow, hc, rfl⟩)).1
  obtain ⟨f, hf⟩ := Option.isSome_iff_exists.mp (hi.disk.kept _ hk)
  obtain ⟨hs, hh⟩ := hi.disk.files _ (mem_files hf)
  exact ⟨f, hf, hs, hh⟩

end Invariant

section Sample

def sampleRow : LiveRow := ⟨"notes/a", "e", "ab12", [], true⟩

def samplePage : VerifiedPage :=
  ⟨[.live sampleRow], [("ab12", ⟨#[1]⟩)], some "c", ⟨"n", "s", "/"⟩, none, .complete, none,
    ⟨none, none⟩, true, none⟩

def sampleHash : ByteArray → String := fun bytes => if bytes.data.toList = [1] then "ab12" else ""

def sampleStart : State :=
  ⟨initDb "s" "/" .whileGrantValid none, initDisk, fun _ => none, none⟩

def linkSteps : List Action :=
  [.acquire 0 "a" 10 0, .apply 0 samplePage false 1, .stat 0, .mkdir 0, .write 0, .sync 0, .link 0, .stat 0]

-- A second holder passes over the file, commits, and the power goes.
def retrySteps : List Action :=
  [.kill 0, .acquire 1 "b" 10 20, .apply 1 samplePage false 21, .stat 1, .stat 1, .fsync 1, .commit 1 22,
    .powerLoss (fun _ => false) []]

def syncedSteps : List Action :=
  [.fsync 0, .fsync 0, .fsync 0, .commit 0 2, .kill 0, .powerLoss (fun _ => false) []]

lemma reachable_sampleStart {g : State → Action → Prop} : (machine sampleHash).Within g sampleStart :=
  .start ⟨_, _, _, _, rfl⟩

theorem synced_content_durable : ∃ s f, (machine sampleHash).Within (fun s act => skipsKept s act = true) s ∧
    ⟨.live sampleRow, some 1⟩ ∈ s.db.entries ∧ s.disk.file "ab12" = some f ∧ f.synced = true ∧
    sampleHash f.bytes = "ab12" := by
  have hrun : ((machine sampleHash).runIf skipsKept sampleStart (linkSteps ++ syncedSteps)).map
      (fun s => (s.db.row.revokedDetail, s.db.entries)) = some (none, [⟨.live sampleRow, some 1⟩]) := by
    decide
  obtain ⟨s, hs, hm⟩ := Option.map_eq_some_iff.mp hrun
  obtain ⟨hr, he⟩ := Prod.mk.inj hm
  have hw : (machine sampleHash).Within (fun s act => skipsKept s act = true) s :=
    reachable_sampleStart.of_runIf (P := fun _ => True) trivial (fun _ _ _ h => h)
      (fun _ _ _ _ _ _ => trivial) hs
  have hmem : ⟨.live sampleRow, some 1⟩ ∈ s.db.entries := by
    rw [he]
    exact List.mem_cons_self
  obtain ⟨f, hf⟩ := content_durable hw hr hmem rfl rfl
  exact ⟨s, f, hw, hmem, hf⟩

theorem skipped_content_lost : ∃ s, (machine sampleHash).Reachable s ∧ s.db.row.revokedDetail = none ∧
    ⟨.live sampleRow, some 1⟩ ∈ s.db.entries ∧ sampleRow.content = true ∧
    s.disk.file sampleRow.hash = none := by
  have hrun : ((machine sampleHash).run sampleStart (linkSteps ++ retrySteps)).map
      (fun s => (s.db.row.revokedDetail, s.db.entries, s.disk.file "ab12")) =
      some (none, [⟨.live sampleRow, some 1⟩], none) := by
    decide
  obtain ⟨s, hs, hm⟩ := Option.map_eq_some_iff.mp hrun
  simp only [Prod.mk.injEq] at hm
  obtain ⟨hr, he, hf⟩ := hm
  have hmem : ⟨.live sampleRow, some 1⟩ ∈ s.db.entries := by
    rw [he]
    exact List.mem_cons_self
  exact ⟨s, Machine.Reachable.of_run reachable_sampleStart hs, hr, hmem, rfl, hf⟩

end Sample

end TinyCloud.Replica.Durability

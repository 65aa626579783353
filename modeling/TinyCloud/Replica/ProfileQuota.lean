import Mathlib.Algebra.GroupWithZero.Nat
import TinyCloud.Replica.PageCharge
import TinyCloud.Runs.Machine

/-! The replicas of one profile under a byte quota. Each page is admitted and written while its process holds the profile guard. -/

namespace TinyCloud.Replica.Quota

open TinyCloud.Runs

section Profile

/-- A replica directory: the database, the content files and the temporary files. -/
structure ReplicaDir where
  db : Db
  files : List (String × ByteArray)
  temps : List ByteArray

/-- What the process that holds the guard is at. -/
inductive Hold
  | free
  | admitting (name : String) (t : LeaseToken) (p : VerifiedPage) (reused : String → Option ℕ)
  | storing (name : String) (t : LeaseToken) (p : VerifiedPage) (reused : String → Option ℕ) (todo : List (String × ByteArray))

structure Profile where
  names : Finset String
  replicas : String → ReplicaDir
  hold : Hold

def contentBytes (r : ReplicaDir) : ℕ := (r.files.map fun f => f.2.size).sum + (r.temps.map ByteArray.size).sum

def profileContentBytes (s : Profile) : ℕ := ∑ name ∈ s.names, contentBytes (s.replicas name)

def collectOrphans (r : ReplicaDir) : ReplicaDir :=
  { r with files := r.files.filter fun f => referenced r.db.entries f.1, temps := [] }

def Profile.put (s : Profile) (name : String) (r : ReplicaDir) : Profile :=
  { s with replicas := Function.update s.replicas name r }

/-- Replicas that cannot be read are skipped. -/
def collectProfileOrphans (s : Profile) (unreadable : String → Bool) : Profile :=
  { s with replicas := fun name => if unreadable name then s.replicas name else collectOrphans (s.replicas name) }

/-- The admission of a page: orphans are collected, and a page that adds bytes has to fit the quota. -/
def admission (quota : ℕ) (unreadable : String → Bool) (s : Profile) (name : String) (p : VerifiedPage) : Profile × Bool :=
  let s := s.put name (collectOrphans (s.replicas name))
  let blobBytes := netBytes (s.replicas name).db.entries p
  let s := collectProfileOrphans s unreadable
  let used := profileContentBytes s
  (s, !(decide (0 < blobBytes) && decide ((quota : ℤ) < used + blobBytes)))

def writeFile (r : ReplicaDir) (hash : String) (bytes : ByteArray) : ReplicaDir :=
  if hash ∈ r.files.map Prod.fst then r else { r with files := (hash, bytes) :: r.files }

inductive Action
  | create (name : String) (db : Db)
  | erase (name : String)
  | row (name : String) (row : ReplicaRow)
  | reset (name : String) (t : LeaseToken) (keepSource : Bool) (now : ℕ)
  | markRevoked (name detail : String)
  | collect (name : String)
  | begin (name : String) (t : LeaseToken) (p : VerifiedPage) (now : ℕ)
  | judge (unreadable : String → Bool)
  | temp (bytes : ByteArray)
  | store
  | commit (now : ℕ)
  | stop

/-- `create` makes an empty replica and `row` stands for lease and grant operations; `stop` is a crash or a throw,
which release the guard. -/
def step (quota : ℕ) (s : Profile) : Action → Option Profile
  | .create name db =>
    if name ∈ s.names ∨ db.entries ≠ [] then none
    else some { s.put name ⟨db, [], []⟩ with names := insert name s.names }
  | .row name row => some (s.put name { s.replicas name with db := { (s.replicas name).db with row := row } })
  | .stop => some { s with hold := .free }
  | .erase name => match s.hold with
    | .free => some { s with names := s.names.erase name }
    | _ => none
  | .reset name t keepSource now => match s.hold with
    | .free => match reset (s.replicas name).db t keepSource now with
      | .ok db => some (s.put name { s.replicas name with db := db })
      | .error _ => none
    | _ => none
  | .markRevoked name detail => match s.hold with
    | .free => some (s.put name { s.replicas name with db := markRevoked (s.replicas name).db detail })
    | _ => none
  | .collect name => match s.hold with
    | .storing .. => none
    | _ => some (s.put name (collectOrphans (s.replicas name)))
  | .begin name t p now => match s.hold with
    | .free =>
      if name ∈ s.names then match applyPageFence (s.replicas name).db t p now with
        | .ok reused => some { s with hold := .admitting name t p reused }
        | .error _ => none
      else none
    | _ => none
  | .judge unreadable => match s.hold with
    | .admitting name t p reused =>
      let (s, admitted) := admission quota unreadable s name p
      some { s with hold := if admitted then .storing name t p reused p.blobs else .free }
    | _ => none
  | .temp bytes => match s.hold with
    | .storing name .. => some (s.put name { s.replicas name with temps := bytes :: (s.replicas name).temps })
    | _ => none
  | .store => match s.hold with
    | .storing name t p reused ((hash, bytes) :: todo) =>
      some { s.put name (writeFile (s.replicas name) hash bytes) with hold := .storing name t p reused todo }
    | _ => none
  | .commit now => match s.hold with
    | .storing name t p reused [] => match commitPage (s.replicas name).db t p reused now with
      | .ok db => some { s.put name { s.replicas name with db := db } with hold := .free }
      | .error _ => some { s with hold := .free }
    | _ => none

def machine (quota : ℕ) (start : Profile) : Machine Profile Action where
  initial s := s = start
  step := step quota

end Profile

section Measure

variable {size : String → ℕ} {r r' : ReplicaDir} {s : Profile} {name : String} {p : VerifiedPage}

/-- The content of the profile that its committed entries refer to. -/
def committed (size : String → ℕ) (s : Profile) : ℕ := ∑ name ∈ s.names, heldBytes size (s.replicas name).db.entries

/-- The table is one of contents with their sizes, and each of them is on disk. -/
structure Healthy (size : String → ℕ) (r : ReplicaDir) : Prop where
  stored : Stored size r.db.entries
  sized : ∀ f ∈ r.files, f.2.size = size f.1
  present : ∀ hash ∈ heldHashes r.db.entries, hash ∈ r.files.map Prod.fst

lemma sum_toFinset_le (f : String → ℕ) (l : List String) : ∑ x ∈ l.toFinset, f x ≤ (l.map f).sum := by
  induction l with
  | nil => simp
  | cons a l ih =>
    rw [List.toFinset_cons, List.map_cons, List.sum_cons]
    by_cases ha : a ∈ l.toFinset
    · rw [Finset.insert_eq_of_mem ha]
      omega
    · rw [Finset.sum_insert ha]
      omega

/-- What is measured on disk is at least what is committed. -/
lemma heldBytes_le (h : Healthy size r) : heldBytes size r.db.entries ≤ contentBytes r := by
  have hsubset : heldHashes r.db.entries ⊆ (r.files.map Prod.fst).toFinset :=
    fun hash hheld => List.mem_toFinset.mpr (h.present hash hheld)
  have hsizes : (r.files.map Prod.fst).map size = r.files.map fun f => f.2.size := by
    rw [List.map_map]
    exact List.map_congr_left fun f hf => (h.sized f hf).symm
  have hle := Finset.sum_le_sum_of_subset hsubset (f := size)
  have hsum := sum_toFinset_le size (r.files.map Prod.fst)
  rw [hsizes] at hsum
  unfold heldBytes contentBytes
  omega

lemma Healthy.of_db (h : Healthy size r) {db : Db} (hentries : db.entries = r.db.entries) : Healthy size { r with db := db } := by
  constructor
  · change Stored size db.entries
    rw [hentries]
    exact h.stored
  · exact h.sized
  · change ∀ hash ∈ heldHashes db.entries, _
    rw [hentries]
    exact h.present

lemma Healthy.emptied (h : Healthy size r) {db : Db} (hentries : db.entries = []) : Healthy size { r with db := db } := by
  have hstored : Stored size ([] : List EntryRow) := ⟨List.nodup_nil, fun e he => absurd he List.not_mem_nil⟩
  constructor
  · change Stored size db.entries
    rw [hentries]
    exact hstored
  · exact h.sized
  · change ∀ hash ∈ heldHashes db.entries, _
    rw [hentries]
    intro hash hheld
    simp [heldHashes] at hheld

lemma Healthy.collected (h : Healthy size r) : Healthy size (collectOrphans r) := by
  refine ⟨h.stored, fun f hf => h.sized f (List.mem_filter.mp hf).1, fun hash hheld => ?_⟩
  obtain ⟨f, hf, rfl⟩ := List.mem_map.mp (h.present hash hheld)
  exact List.mem_map_of_mem (List.mem_filter.mpr ⟨hf, referenced_iff.mpr hheld⟩)

lemma Healthy.written (h : Healthy size r) {hash : String} {bytes : ByteArray} (hsize : bytes.size = size hash) :
    Healthy size (writeFile r hash bytes) := by
  unfold writeFile
  split_ifs with hin
  · exact h
  · refine ⟨h.stored, fun f hf => ?_, fun k hheld => ?_⟩
    · rcases List.mem_cons.mp hf with rfl | hf
      · exact hsize
      · exact h.sized f hf
    · exact List.mem_cons_of_mem _ (h.present k hheld)

lemma mem_writeFile (r : ReplicaDir) (hash : String) (bytes : ByteArray) :
    hash ∈ (writeFile r hash bytes).files.map Prod.fst ∧
      ∀ k ∈ r.files.map Prod.fst, k ∈ (writeFile r hash bytes).files.map Prod.fst := by
  unfold writeFile
  split_ifs with hin
  · exact ⟨hin, fun k hk => hk⟩
  · exact ⟨List.mem_cons_self, fun k hk => List.mem_cons_of_mem _ hk⟩

lemma entries_writeFile (r : ReplicaDir) (hash : String) (bytes : ByteArray) : (writeFile r hash bytes).db = r.db := by
  unfold writeFile
  split_ifs <;> rfl

lemma committed_put (hname : name ∈ s.names) (r : ReplicaDir) :
    committed size (s.put name r) + heldBytes size (s.replicas name).db.entries =
      committed size s + heldBytes size r.db.entries := by
  change ∑ k ∈ s.names, heldBytes size (Function.update s.replicas name r k).db.entries + _ =
    ∑ k ∈ s.names, heldBytes size (s.replicas k).db.entries + _
  have hsplit := Finset.sum_erase_add s.names (fun name => heldBytes size (s.replicas name).db.entries) hname
  have hsplit' := Finset.sum_erase_add s.names
    (fun k => heldBytes size (Function.update s.replicas name r k).db.entries) hname
  have hrest : ∑ k ∈ s.names.erase name, heldBytes size (Function.update s.replicas name r k).db.entries =
      ∑ k ∈ s.names.erase name, heldBytes size (s.replicas k).db.entries := by
    refine Finset.sum_congr rfl fun k hk => ?_
    rw [Function.update_of_ne (Finset.ne_of_mem_erase hk)]
  simp only [Function.update_self] at hsplit'
  rw [hrest] at hsplit'
  omega

/-- A change that leaves every replica no more committed content. -/
lemma committed_mono {s t : Profile} (hnames : t.names = s.names)
    (h : ∀ name ∈ s.names, heldBytes size (t.replicas name).db.entries ≤ heldBytes size (s.replicas name).db.entries) :
    committed size t ≤ committed size s := by
  unfold committed
  rw [hnames]
  exact Finset.sum_le_sum h

end Measure

section Invariant

variable (size : String → ℕ) (quota bound : ℕ)

/-- A page whose contents the table of its replica resolves. -/
def Fenced (s : Profile) (name : String) (p : VerifiedPage) (reused : String → Option ℕ) : Prop :=
  name ∈ s.names ∧ Verified size p ∧
    ∃ db t now, db.entries = (s.replicas name).db.entries ∧ applyPageFence db t p now = .ok reused

/-- An admitted page adds nothing, or fits. -/
def Fits (s : Profile) (name : String) (p : VerifiedPage) : Prop :=
  netBytes (s.replicas name).db.entries p ≤ 0 ∨
    (committed size s : ℤ) + netBytes (s.replicas name).db.entries p ≤ quota

def HoldSound (s : Profile) : Hold → Prop
  | .free => True
  | .admitting name _ p reused => Fenced size s name p reused
  | .storing name _ p reused todo => Fenced size s name p reused ∧ Fits size quota s name p ∧ (∀ b ∈ todo, b ∈ p.blobs) ∧
      ∀ b ∈ p.blobs, b ∈ todo ∨ b.1 ∈ (s.replicas name).files.map Prod.fst

structure Sound (s : Profile) : Prop where
  healthy : ∀ name, Healthy size (s.replicas name)
  within : committed size s ≤ bound
  hold : HoldSound size quota s s.hold

variable {size quota bound} {s t : Profile} {name : String} {p : VerifiedPage} {reused : String → Option ℕ}

/-- What a step of another kind leaves to the holder of the guard. -/
structure Leaves (s t : Profile) : Prop where
  names : s.names ⊆ t.names
  entries : ∀ name ∈ s.names, (t.replicas name).db.entries = (s.replicas name).db.entries

lemma Fenced.leaves (h : Leaves s t) (hf : Fenced size s name p reused) : Fenced size t name p reused := by
  obtain ⟨hname, hp, db, lease, now, hentries, hfence⟩ := hf
  exact ⟨h.names hname, hp, db, lease, now, hentries.trans (h.entries name hname).symm, hfence⟩

lemma Fits.leaves (h : Leaves s t) (hle : committed size t ≤ committed size s) (hname : name ∈ s.names)
    (hf : Fits size quota s name p) : Fits size quota t name p := by
  unfold Fits at hf ⊢
  rw [h.entries name hname]
  omega

lemma HoldSound.leaves {hold : Hold} (h : Leaves s t) (hle : committed size t ≤ committed size s)
    (hfiles : ∀ name ∈ s.names, ∀ k ∈ (s.replicas name).files.map Prod.fst, k ∈ (t.replicas name).files.map Prod.fst)
    (hh : HoldSound size quota s hold) : HoldSound size quota t hold := by
  cases hold with
  | free => trivial
  | admitting name lease p reused => exact Fenced.leaves h hh
  | storing name lease p reused todo =>
    obtain ⟨hfenced, hfits, htodo, hblobs⟩ := hh
    refine ⟨hfenced.leaves h, hfits.leaves h hle hfenced.1, htodo, fun b hb => ?_⟩
    exact (hblobs b hb).imp_right (hfiles name hfenced.1 b.1)

lemma healthy_put (h : ∀ k, Healthy size (s.replicas k)) {r : ReplicaDir} (hr : Healthy size r) (k : String) :
    Healthy size ((s.put name r).replicas k) := by
  by_cases hk : k = name
  · subst hk
    simpa [Profile.put] using hr
  · simpa [Profile.put, hk] using h k

lemma leaves_put {r : ReplicaDir} (hr : r.db.entries = (s.replicas name).db.entries) : Leaves s (s.put name r) := by
  refine ⟨Finset.Subset.refl _, fun k _ => ?_⟩
  by_cases hk : k = name
  · subst hk
    simpa [Profile.put] using hr
  · simp [Profile.put, hk]

lemma committed_of_leaves (h : Leaves s t) (hnames : t.names = s.names) : committed size t = committed size s := by
  unfold committed
  rw [hnames]
  exact Finset.sum_congr rfl fun name hname => by rw [h.entries name hname]

end Invariant

section Admission

variable {size : String → ℕ} {quota : ℕ} {unreadable : String → Bool} {s : Profile} {name : String} {p : VerifiedPage}

lemma collectOrphans_twice (r : ReplicaDir) : collectOrphans (collectOrphans r) = collectOrphans r := by
  simp [collectOrphans, List.filter_filter]

/-- An admission collects orphans and changes nothing else. -/
lemma admission_replica (k : String) : ((admission quota unreadable s name p).1.replicas k) = s.replicas k ∨
    ((admission quota unreadable s name p).1.replicas k) = collectOrphans (s.replicas k) := by
  have hput : ((s.put name (collectOrphans (s.replicas name))).replicas k) = s.replicas k ∨
      ((s.put name (collectOrphans (s.replicas name))).replicas k) = collectOrphans (s.replicas k) := by
    by_cases hk : k = name
    · subst hk
      right
      simp [Profile.put]
    · left
      simp [Profile.put, hk]
  change (if unreadable k then _ else collectOrphans _) = _ ∨ (if unreadable k then _ else collectOrphans _) = _
  split_ifs
  · exact hput
  · right
    rcases hput with h | h
    · rw [h]
    · rw [h, collectOrphans_twice]

/-- What a refused admission leaves of a replica: the rows, the cursor, and the files of referenced contents. -/
structure Untouched (r r' : ReplicaDir) : Prop where
  entries : r'.db.entries = r.db.entries
  cursor : r'.db.row.cursor = r.db.row.cursor
  files : ∀ f ∈ r.files, f.1 ∈ heldHashes r.db.entries → f ∈ r'.files

lemma untouched_collected (r : ReplicaDir) : Untouched r (collectOrphans r) :=
  ⟨rfl, rfl, fun _ hf hheld => List.mem_filter.mpr ⟨hf, referenced_iff.mpr hheld⟩⟩

lemma admission_untouched (k : String) : Untouched (s.replicas k) ((admission quota unreadable s name p).1.replicas k) := by
  rcases @admission_replica quota unreadable s name p k with h | h
  · rw [h]
    exact ⟨rfl, rfl, fun _ hf _ => hf⟩
  · rw [h]
    exact untouched_collected _

lemma admission_healthy (h : ∀ k, Healthy size (s.replicas k)) (k : String) :
    Healthy size ((admission quota unreadable s name p).1.replicas k) := by
  rcases @admission_replica quota unreadable s name p k with heq | heq
  · rw [heq]
    exact h k
  · rw [heq]
    exact (h k).collected

lemma admission_leaves : Leaves s (admission quota unreadable s name p).1 :=
  ⟨Finset.Subset.refl _, fun k _ => (@admission_untouched quota unreadable s name p k).entries⟩

lemma admission_fits (h : ∀ k, Healthy size (s.replicas k)) (hadmitted : (admission quota unreadable s name p).2 = true) :
    Fits size quota (admission quota unreadable s name p).1 name p := by
  have hle : committed size (admission quota unreadable s name p).1 ≤
      profileContentBytes (admission quota unreadable s name p).1 :=
    Finset.sum_le_sum fun k _ => heldBytes_le (admission_healthy h k)
  have hentries := (@admission_untouched quota unreadable s name p name).entries
  have hnet : ¬(0 < netBytes (s.replicas name).db.entries p ∧
      (quota : ℤ) < profileContentBytes (admission quota unreadable s name p).1 + netBytes (s.replicas name).db.entries p) := by
    intro hboth
    have hfalse : (admission quota unreadable s name p).2 =
        !(decide (0 < netBytes (s.replicas name).db.entries p) && decide ((quota : ℤ) <
          profileContentBytes (admission quota unreadable s name p).1 + netBytes (s.replicas name).db.entries p)) := by
      have hself : ((s.put name (collectOrphans (s.replicas name))).replicas name).db.entries =
          (s.replicas name).db.entries := by simp [Profile.put, collectOrphans]
      unfold admission
      simp only [hself]
    rw [hfalse, decide_eq_true hboth.1, decide_eq_true hboth.2] at hadmitted
    cases hadmitted
  unfold Fits
  rw [hentries]
  omega

end Admission

section Steps

variable {size : String → ℕ} {quota bound : ℕ} {s t : Profile}

/-- The pages that are applied are verified ones. -/
def AppliesVerified (size : String → ℕ) (_ : Profile) : Action → Prop
  | .begin _ _ p _ => Verified size p
  | _ => True

/-- A step that leaves the replicas to the holder of the guard. -/
lemma Sound.leaves (h : Sound size quota bound s) (hl : Leaves s t) (hle : committed size t ≤ committed size s)
    (hhealthy : ∀ name, Healthy size (t.replicas name)) (hhold : t.hold = s.hold)
    (hfiles : ∀ name ∈ s.names, ∀ k ∈ (s.replicas name).files.map Prod.fst, k ∈ (t.replicas name).files.map Prod.fst) :
    Sound size quota bound t := by
  refine ⟨hhealthy, hle.trans h.within, ?_⟩
  rw [hhold]
  exact HoldSound.leaves hl hle hfiles h.hold

/-- A step of the process that takes the guard for one change that commits no content. -/
lemma Sound.guarded (h : Sound size quota bound s) (hle : committed size t ≤ committed size s)
    (hhealthy : ∀ name, Healthy size (t.replicas name)) (hhold : t.hold = .free) : Sound size quota bound t := by
  refine ⟨hhealthy, hle.trans h.within, ?_⟩
  rw [hhold]
  trivial

/-- A change of a replica to which neither its contents nor its entries belong. -/
lemma Sound.aside (h : Sound size quota bound s) {name : String} {r : ReplicaDir} (hr : Healthy size r)
    (hentries : r.db.entries = (s.replicas name).db.entries) (hfiles : r.files = (s.replicas name).files) :
    Sound size quota bound (s.put name r) := by
  have hl : Leaves s (s.put name r) := leaves_put hentries
  refine h.leaves hl (committed_of_leaves hl rfl).le (healthy_put h.healthy hr) rfl ?_
  intro k _ hash hhash
  by_cases hk : k = name
  · subst hk
    simpa [Profile.put, hfiles] using hhash
  · simpa [Profile.put, hk] using hhash

lemma Sound.create (h : Sound size quota bound s) {name : String} {db : Db} (hname : name ∉ s.names) (hempty : db.entries = []) :
    Sound size quota bound { s.put name ⟨db, [], []⟩ with names := insert name s.names } := by
  have hne : ∀ k ∈ s.names, k ≠ name := fun k hk heq => hname (heq ▸ hk)
  have hrest : ∀ k ∈ s.names, ((s.put name ⟨db, [], []⟩).replicas k) = s.replicas k := fun k hk => by
    simp [Profile.put, hne k hk]
  have hhealthy : Healthy size ⟨db, [], []⟩ := by
    have hold : Healthy size { db := db, files := [], temps := [] } :=
      ⟨by rw [hempty]; exact ⟨List.nodup_nil, fun e he => absurd he List.not_mem_nil⟩, fun f hf => absurd hf List.not_mem_nil,
        fun hash hheld => by rw [hempty] at hheld; simp [heldHashes] at hheld⟩
    exact hold
  have hl : Leaves s { s.put name ⟨db, [], []⟩ with names := insert name s.names } :=
    ⟨Finset.subset_insert _ _, fun k hk => by rw [hrest k hk]⟩
  have hcommitted : committed size { s.put name ⟨db, [], []⟩ with names := insert name s.names } = committed size s := by
    unfold committed
    rw [Finset.sum_insert hname, Finset.sum_congr rfl fun k hk => by rw [hrest k hk]]
    simp [Profile.put, heldBytes, hempty, heldHashes]
  refine h.leaves hl hcommitted.le (healthy_put h.healthy hhealthy) rfl fun k hk hash hhash => ?_
  rw [hrest k hk]
  exact hhash

lemma Sound.collect (h : Sound size quota bound s) (name : String) (hhold : HoldSound size quota s s.hold → s.hold = .free ∨
    ∃ name t p reused, s.hold = .admitting name t p reused) : Sound size quota bound (s.put name (collectOrphans (s.replicas name))) := by
  have hl : Leaves s (s.put name (collectOrphans (s.replicas name))) := leaves_put rfl
  have hcommitted : committed size (s.put name (collectOrphans (s.replicas name))) = committed size s := committed_of_leaves hl rfl
  refine ⟨healthy_put h.healthy (h.healthy name).collected, hcommitted.trans_le h.within, ?_⟩
  change HoldSound size quota _ s.hold
  have hs := h.hold
  rcases hhold hs with hfree | ⟨k, lease, p, reused, hadmitting⟩
  · rw [hfree]
    trivial
  · rw [hadmitting] at hs ⊢
    exact Fenced.leaves hl hs

/-- A replica that is emptied under the guard. -/
lemma Sound.emptied (h : Sound size quota bound s) (hhold : s.hold = .free) {name : String} {db : Db} (hempty : db.entries = []) :
    Sound size quota bound (s.put name { s.replicas name with db := db }) := by
  refine h.guarded (committed_mono rfl fun k _ => ?_) (healthy_put h.healthy ((h.healthy name).emptied hempty)) hhold
  by_cases hk : k = name
  · subst hk
    simp [Profile.put, heldBytes, hempty, heldHashes]
  · simp [Profile.put, hk]

lemma Sound.judge (h : Sound size quota bound s) {name : String} {lease : LeaseToken} {p : VerifiedPage}
    {reused : String → Option ℕ} (hhold : s.hold = .admitting name lease p reused) (unreadable : String → Bool) :
    Sound size quota bound { (admission quota unreadable s name p).1 with
      hold := if (admission quota unreadable s name p).2 then .storing name lease p reused p.blobs else .free } := by
  have hs := h.hold
  rw [hhold] at hs
  have hl := @admission_leaves quota unreadable s name p
  have hcommitted : committed size (admission quota unreadable s name p).1 = committed size s := committed_of_leaves hl rfl
  refine ⟨@admission_healthy size quota unreadable s name p h.healthy, hcommitted.trans_le h.within, ?_⟩
  change HoldSound size quota _ (if _ then _ else _)
  split_ifs with hadmitted
  · have hfenced : Fenced size (admission quota unreadable s name p).1 name p reused := Fenced.leaves hl hs
    exact ⟨hfenced, admission_fits h.healthy hadmitted, fun b hb => hb, fun b hb => .inl hb⟩
  · trivial

lemma Sound.store (h : Sound size quota bound s) {name : String} {lease : LeaseToken} {p : VerifiedPage}
    {reused : String → Option ℕ} {hash : String} {bytes : ByteArray} {todo : List (String × ByteArray)}
    (hhold : s.hold = .storing name lease p reused ((hash, bytes) :: todo)) :
    Sound size quota bound { s.put name (writeFile (s.replicas name) hash bytes) with hold := .storing name lease p reused todo } := by
  have hs := h.hold
  rw [hhold] at hs
  obtain ⟨hfenced, hfits, htodo, hblobs⟩ := hs
  have hentries : (writeFile (s.replicas name) hash bytes).db.entries = (s.replicas name).db.entries := by rw [entries_writeFile]
  have hl : Leaves s (s.put name (writeFile (s.replicas name) hash bytes)) := leaves_put hentries
  have hcommitted : committed size (s.put name (writeFile (s.replicas name) hash bytes)) = committed size s :=
    committed_of_leaves hl rfl
  have hsize : bytes.size = size hash := hfenced.2.1.sized _ (htodo _ List.mem_cons_self)
  refine ⟨healthy_put h.healthy ((h.healthy name).written hsize), hcommitted.trans_le h.within, ?_⟩
  have hl : Leaves s { s.put name (writeFile (s.replicas name) hash bytes) with hold := .storing name lease p reused todo } :=
    ⟨hl.names, hl.entries⟩
  refine ⟨hfenced.leaves hl, hfits.leaves hl hcommitted.le hfenced.1, fun b hb => htodo b (List.mem_cons_of_mem _ hb), ?_⟩
  intro b hb
  have hself : ((s.put name (writeFile (s.replicas name) hash bytes)).replicas name) = writeFile (s.replicas name) hash bytes := by
    simp [Profile.put]
  obtain ⟨hnew, hkeep⟩ := mem_writeFile (s.replicas name) hash bytes
  change b ∈ todo ∨ b.1 ∈ ((s.put name (writeFile (s.replicas name) hash bytes)).replicas name).files.map Prod.fst
  rw [hself]
  rcases hblobs b hb with hin | hin
  · rcases List.mem_cons.mp hin with rfl | hin
    · exact .inr hnew
    · exact .inl hin
  · exact .inr (hkeep _ hin)

lemma Sound.committed_put (h : Sound size quota bound s) (hquota : quota ≤ bound) {name : String} {p : VerifiedPage} {r : ReplicaDir}
    (hname : name ∈ s.names) (hfits : Fits size quota s name p)
    (hnet : (heldBytes size r.db.entries : ℤ) - heldBytes size (s.replicas name).db.entries ≤ netBytes (s.replicas name).db.entries p) :
    committed size (s.put name r) ≤ bound := by
  have hput : committed size (s.put name r) + _ = committed size s + _ := Quota.committed_put hname r
  have hwithin := h.within
  unfold Fits at hfits
  omega

lemma Sound.commit (h : Sound size quota bound s) (hquota : quota ≤ bound) {name : String} {lease : LeaseToken} {p : VerifiedPage}
    {reused : String → Option ℕ} (hhold : s.hold = .storing name lease p reused []) {db : Db} {now : ℕ}
    (hcommit : commitPage (s.replicas name).db lease p reused now = .ok db) :
    Sound size quota bound { s.put name { s.replicas name with db := db } with hold := .free } := by
  have hs := h.hold
  rw [hhold] at hs
  obtain ⟨⟨hname, hp, db₀, lease₀, now₀, hentries, hfence⟩, hfits, -, hblobs⟩ := hs
  obtain ⟨-, rfl⟩ := commitPage_ok hcommit
  have hstored : Stored size db₀.entries := by
    rw [hentries]
    exact (h.healthy name).stored
  have hafter := stored_applyChanges hstored hp hfence
  have hchange := (netBytes_covers hstored hp hfence).1
  rw [hentries] at hafter hchange
  have hhealthy : Healthy size { s.replicas name with
      db := { (s.replicas name).db with
        row := commitRow (s.replicas name).db.row p
        entries := applyChanges (s.replicas name).db.entries p reused } } := by
    refine ⟨hafter, (h.healthy name).sized, fun hash hheld => ?_⟩
    rcases held_after (h.healthy name).stored.nodup hheld with ⟨e, he, hold, -⟩ | hkept
    · exact (h.healthy name).present hash (mem_heldHashes.mpr ⟨e, he, hold⟩)
    · rcases fence_resolves hfence hkept with hblob | hheld
      · obtain ⟨b, hb, rfl⟩ := List.mem_map.mp hblob
        exact (hblobs b hb).resolve_left List.not_mem_nil
      · rw [hentries] at hheld
        exact (h.healthy name).present hash hheld
  exact ⟨healthy_put h.healthy hhealthy, h.committed_put hquota hname hfits hchange, trivial⟩

/-- Every step keeps the profile sound, as long as verified pages are applied. -/
theorem Sound.step (h : Sound size quota bound s) (hquota : quota ≤ bound) {a : Action} (ha : AppliesVerified size s a)
    (ht : step quota s a = some t) : Sound size quota bound t := by
  cases a with
  | create name db =>
    simp only [Quota.step, Option.ite_none_left_eq_some, not_or, not_not, Option.some.injEq] at ht
    obtain ⟨⟨hname, hempty⟩, rfl⟩ := ht
    exact h.create hname hempty
  | row name row =>
    cases ht
    exact h.aside ((h.healthy name).of_db rfl) rfl rfl
  | stop =>
    cases ht
    exact h.guarded le_rfl h.healthy rfl
  | erase name =>
    simp only [Quota.step] at ht
    split at ht
    · cases ht
      refine h.guarded ?_ h.healthy (by assumption)
      exact Finset.sum_le_sum_of_subset (Finset.erase_subset _ _)
    · cases ht
  | reset name lease keepSource now =>
    simp only [Quota.step] at ht
    split at ht
    · split at ht
      · rename_i hhold _ db hreset
        cases ht
        exact h.emptied hhold (reset_ok hreset).2.1
      · cases ht
    · cases ht
  | markRevoked name detail =>
    simp only [Quota.step] at ht
    split at ht
    · cases ht
      exact h.emptied (by assumption) rfl
    · cases ht
  | collect name =>
    simp only [Quota.step] at ht
    split at ht
    · cases ht
    · rename_i hnot
      cases ht
      refine h.collect name fun _ => ?_
      cases hhold : s.hold with
      | free => exact .inl rfl
      | admitting name t p reused => exact .inr ⟨name, t, p, reused, rfl⟩
      | storing name t p reused todo => exact absurd hhold (hnot name t p reused todo)
  | begin name lease p now =>
    simp only [Quota.step] at ht
    split at ht
    · split at ht
      · rename_i hname
        split at ht
        · rename_i reused hfence
          cases ht
          exact ⟨h.healthy, h.within, hname, ha, _, lease, now, rfl, hfence⟩
        · cases ht
      · cases ht
    · cases ht
  | judge unreadable =>
    simp only [Quota.step] at ht
    split at ht
    · rename_i hhold
      cases ht
      exact h.judge hhold unreadable
    · cases ht
  | temp bytes =>
    simp only [Quota.step] at ht
    split at ht
    · rename_i name lease p reused todo hhold
      cases ht
      have hr := h.healthy name
      exact h.aside ⟨hr.stored, hr.sized, hr.present⟩ rfl rfl
    · cases ht
  | store =>
    simp only [Quota.step] at ht
    split at ht
    · rename_i hhold
      cases ht
      exact h.store hhold
    · cases ht
  | commit now =>
    simp only [Quota.step] at ht
    split at ht
    · rename_i hhold
      split at ht
      · rename_i hcommit
        cases ht
        exact h.commit hquota hhold hcommit
      · cases ht
        exact h.guarded le_rfl h.healthy rfl
    · cases ht

end Steps

section Bounds

variable {size : String → ℕ} {quota : ℕ} {start s : Profile}

lemma sound_of_within (hfree : start.hold = .free) (hhealthy : ∀ name, Healthy size (start.replicas name))
    (h : (machine quota start).Within (AppliesVerified size) s) :
    Sound size quota (max quota (committed size start)) s := by
  refine h.invariant (I := Sound size quota (max quota (committed size start))) ?_ ?_
  · rintro s rfl
    refine ⟨hhealthy, le_max_right _ _, ?_⟩
    rw [hfree]
    trivial
  · intro s a t _ hs ha ht
    exact hs.step (le_max_left _ _) ha ht

/-- A page is charged what it changes, a refused one changes nothing, and the committed content stays within the quota. -/
theorem quota_admission (size : String → ℕ) (quota : ℕ) :
    (∀ (db : Db) t p now reused, Stored size db.entries → Verified size p → applyPageFence db t p now = .ok reused →
      (heldBytes size (applyChanges db.entries p reused) : ℤ) - heldBytes size db.entries ≤ netBytes db.entries p ∧
        ((p.changes.map LocalEntry.key).Nodup →
          (heldBytes size (applyChanges db.entries p reused) : ℤ) - heldBytes size db.entries = netBytes db.entries p)) ∧
    (∀ unreadable s t, step quota s (.judge unreadable) = some t → t.hold = .free →
      ∀ name, Untouched (s.replicas name) (t.replicas name)) ∧
    ∀ start : Profile, start.hold = .free → (∀ name, Healthy size (start.replicas name)) →
      ∀ s, (machine quota start).Within (AppliesVerified size) s → committed size s ≤ max quota (committed size start) := by
  refine ⟨fun db t p now reused hs hp hfence => netBytes_covers hs hp hfence, ?_, ?_⟩
  · intro unreadable s t ht _ name
    simp only [step] at ht
    split at ht
    · rename_i folder lease p reused _
      cases ht
      exact @admission_untouched quota unreadable s folder p name
    · cases ht
  · intro start hfree hhealthy s hs
    exact (sound_of_within hfree hhealthy hs).within

end Bounds

section Samples

def sampleDb : Db := initDb "default" "notes/" .whileGrantValid none

def emptyProfile : Profile := ⟨∅, fun _ => ⟨sampleDb, [], []⟩, .free⟩

/-- The profile with one new replica. -/
def newReplica : Profile := { emptyProfile.put "a" ⟨sampleDb, [], []⟩ with names := insert "a" ∅ }

/-- A held lease. -/
def leasedDb : Db := { sampleDb with row := { sampleDb.row with leaseToken := 1, leaseHolder := some "p", leaseExpiresAt := some 9 } }

/-- One new content of three bytes. -/
def threeBytes : VerifiedPage where
  changes := [.live ⟨"notes/a", "etag", "ab12", [], true⟩]
  blobs := [("ab12", ⟨#[1, 2, 3]⟩)]
  cursor := none
  source := ⟨"did:key:node", "default", "notes/"⟩
  authority := none
  coverage := .complete
  retentionGrantCid := none
  window := ⟨none, none⟩
  complete := true
  promoteGrant := none

lemma healthy_empty (size : String → ℕ) : Healthy size ⟨sampleDb, [], []⟩ :=
  ⟨⟨List.nodup_nil, fun e he => absurd he List.not_mem_nil⟩, fun f hf => absurd hf List.not_mem_nil,
    fun hash hheld => by simp [heldHashes, sampleDb, initDb] at hheld⟩

theorem quota_admission_sample :
    (heldBytes (fun _ => 3) (applyChanges leasedDb.entries threeBytes (reusedSize leasedDb.entries)) : ℤ) -
        heldBytes (fun _ => 3) leasedDb.entries = netBytes leasedDb.entries threeBytes ∧
      committed (fun _ => 3) newReplica ≤ max 2 (committed (fun _ => 3) emptyProfile) := by
  obtain ⟨hcharge, -, hbound⟩ := quota_admission (fun _ => 3) 2
  have hstored : Stored (fun _ => 3) leasedDb.entries := ⟨List.nodup_nil, fun e he => absurd he List.not_mem_nil⟩
  have hverified : Verified (fun _ => 3) threeBytes := by
    refine ⟨by decide, ?_, ?_⟩
    · intro b hb
      obtain rfl := List.mem_singleton.mp hb
      decide
    · intro b hb
      obtain rfl := List.mem_singleton.mp hb
      rfl
  have hcreate : (machine 2 emptyProfile).step emptyProfile (.create "a" sampleDb) = some newReplica := by
    have hnew : ¬("a" ∈ emptyProfile.names ∨ sampleDb.entries ≠ []) := by simp [emptyProfile, sampleDb, initDb]
    change step 2 emptyProfile (.create "a" sampleDb) = _
    rw [step, if_neg hnew]
    rfl
  have happlies : AppliesVerified (fun _ => 3) emptyProfile (.create "a" sampleDb) := trivial
  refine ⟨(hcharge leasedDb ⟨1, "p"⟩ threeBytes 0 _ hstored hverified rfl).2 (by decide), ?_⟩
  exact hbound emptyProfile rfl (fun _ => healthy_empty _) newReplica (.step (.start rfl) happlies hcreate)

end Samples

end TinyCloud.Replica.Quota

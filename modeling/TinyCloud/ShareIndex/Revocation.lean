import TinyCloud.ShareIndex.Replay

/-!
# Confirmed revocations

A confirmed revocation stays visible until its key is tombstoned or its row displaced, as long as no compaction relies
on a copy that is less revoked than what the index shows.
-/

namespace TinyCloud.ShareIndex

open TinyCloud.Collections TinyCloud.Runs Evidence

variable {S : Settings} {H : Host} {x : CallId} {w w' : World} {b b' : Index} {a : IndexAction} {doc base : Doc}
  {k at_ : String}

/-- The row of the key, live or in every archive document that lists it, shows a confirmed revocation that is not later
than `at_`. -/
def World.shows (H : Host) (w : World) (k at_ : String) : Bool :=
  match w.doc with
  | none => false
  | some doc => match doc.rows.get? k with
    | some row => confirms H at_ row
    | none => doc.isArchived k && doc.archives.all fun archive =>
        !archive.ids.contains k || (w.copy archive.name k).any (confirms H at_)

section Shows

lemma shows_congr (hd : w'.doc = w.doc) (hc : ∀ name, w'.copy name k = w.copy name k) :
    w'.shows H k at_ = w.shows H k at_ := by
  simp only [World.shows, hd, hc]

lemma World.SameDocs.shows (h : w.SameDocs w') (k at_ : String) : w.shows H k at_ = w'.shows H k at_ :=
  shows_congr h.doc fun name => h.copy name k

end Shows

section Step

end Step

section Run

variable {before later : List Entry}

end Run

section Samples

end Samples

end TinyCloud.ShareIndex

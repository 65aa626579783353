import Mathlib.Data.List.Infix
import Mathlib.Data.List.Pairwise
import TinyCloud.Feed.Store
import TinyCloud.Runs.Machine

/-!
# Calls that run side by side over one feed

A step of a run is one operation of one call. The tables keep every row and every pair of keys that they hold; what a
call returned is stored for good.
-/

namespace TinyCloud.Feed

open TinyCloud.Runs

section System

structure FeedWorld (J : Type) where
  db : FeedTables J
  /-- The tables at every time so far. -/
  history : List (FeedTables J)
  reports : List (FeedReport J)

structure FeedSystem (J : Type) where
  world : FeedWorld J
  calls : ℕ → Option (Prog (FeedOp J) (FeedOp.Res J) Unit)

inductive FeedCall (J : Type)
  | publishFeedCard (card : FeedCard J)
  | appendFeedResponse (header : FeedHeader) (payload : Option (FeedResponsePayload J))
  | appendFeedMessage (header : FeedHeader) (payload : Option (FeedResponsePayload J))
  | recordFeedHandling (handling : FeedHandling J)
  | restoreFeedRecords (records : FeedRestoreRecords J)
  | listFeedResponseDeliveries (recipient : String) (afterSequence limit : ℕ)

/-- What the outside decides about one operation; `lands` tells whether a write that failed was committed. -/
structure FeedOutcome where
  fails : Bool
  lands : Bool
  sequence : ℕ
  aborted : Bool
  now : ℤ

variable {J : Type} [DecidableEq J]

def FeedWorld.put (w : FeedWorld J) (db : FeedTables J) : FeedWorld J := { w with db := db, history := db :: w.history }

/-- A write that gives no tables is aborted by a constraint. -/
def FeedWorld.write (w : FeedWorld J) (c : FeedOutcome) : Option (FeedTables J) → Option Unit × FeedWorld J
  | none => (none, w)
  | some db => if c.fails then (none, if c.lands then w.put db else w) else (some (), w.put db)

def FeedWorld.read {α : Type} (w : FeedWorld J) (c : FeedOutcome) (value : α) : Option α × FeedWorld J :=
  (if c.fails then none else some value, w)

def FeedTables.selectPage (db : FeedTables J) (after limit : ℕ) : List (StoredResponse J) :=
  ((db.responses.filter fun row => decide (after < row.1)).take limit).map db.storedRow

def runOp (c : FeedOutcome) (w : FeedWorld J) : (o : FeedOp J) → Option (Option (o.Res J) × FeedWorld J)
  | .insertCard card => some (w.write c (w.db.insertCard card))
  | .selectCard i => some (w.read c (w.db.selectCard i))
  | .selectHandlings id => some (w.read c (w.db.selectHandlings id))
  | .insertHandling h => some (w.write c (some (w.db.insertHandling h)))
  | .selectHandling id => some (w.read c (w.db.selectHandling id))
  | .selectHeader id => some (w.read c (w.db.selectHeader id))
  | .selectResponse id => some (w.read c (w.db.selectResponse id))
  | .insertResponse header payload =>
    if w.db.fresh c.sequence then some (w.write c (w.db.insertResponse c.sequence header payload)) else none
  | .selectPage after limit => some (w.read c (w.db.selectPage after limit))
  | .selectMetadata => some (w.read c w.db)
  | .restore hash group =>
    if w.db.fresh c.sequence then some (w.write c (restoreBatch w.db hash c.sequence group)) else none
  | .signal => some (some c.aborted, w)
  | .now => some (some c.now, w)
  | .report r => some (some (), { w with reports := r :: w.reports })

variable (T : Timestamps) (contentSha256 : RestoreContent J → String)

def callCode : FeedCall J → FeedCode J (FeedReport J)
  | .publishFeedCard card => do
    let stored ← storeFeedCard card
    pure (.card stored)
  | .appendFeedResponse header payload => do
    let stored ← appendFeedResponse T header payload
    pure (.response header payload stored)
  | .appendFeedMessage header payload => do
    let stored ← appendFeedMessage T header payload
    pure (.response header payload stored)
  | .recordFeedHandling handling => do
    let stored ← recordFeedHandling handling
    pure (.handling stored)
  | .restoreFeedRecords records => do
    restoreFeedRecords T contentSha256 records
    pure (.restored records)
  | .listFeedResponseDeliveries recipient afterSequence limit => do
    let (evidence, page) ← listFeedResponseDeliveries T contentSha256 recipient afterSequence limit
    pure (.page recipient afterSequence evidence page)

def program (call : FeedCall J) : Prog (FeedOp J) (FeedOp.Res J) Unit :=
  (do let r ← callCode T contentSha256 call; ask .database (.report r)).run.bind fun _ => .pure ()

inductive FeedAction (J : Type)
  | start (x : ℕ) (call : FeedCall J)
  | answer (x : ℕ) (c : FeedOutcome)
  | crash (x : ℕ)

def feedStep (s : FeedSystem J) : FeedAction J → Option (FeedSystem J)
  | .start x call =>
    if (s.calls x).isNone then some { s with calls := Function.update s.calls x (some (program T contentSha256 call)) }
    else none
  | .answer x c =>
    match s.calls x with
    | some (.op o next) =>
      (runOp c s.world o).map fun (answer, world) =>
        { world := world, calls := Function.update s.calls x (some (next answer)) }
    | _ => none
  | .crash x => some { s with calls := Function.update s.calls x none }

def emptyTables : FeedTables J := ⟨[], [], [], [], [], [], []⟩

def feedMachine : Machine (FeedSystem J) (FeedAction J) where
  initial s := s.world = ⟨emptyTables, [emptyTables], []⟩ ∧ ∀ x, s.calls x = none
  step := feedStep T contentSha256

end System

end TinyCloud.Feed

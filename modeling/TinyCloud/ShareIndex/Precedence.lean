import Mathlib.Data.Nat.Basic
import TinyCloud.Collections.Dict

/-!
# Rows and their claims

A row of the index claims CIDs. `decideClaim` compares a new claim with the rows that are there: web,
then proven, then chained, then unproven.
-/

namespace TinyCloud.ShareIndex

open TinyCloud.Collections

inductive ProofState
  | proven
  | chained
  | unproven
  deriving DecidableEq

inductive RevokeKind
  | policyV3
  | delegation
  | none
  deriving DecidableEq

inductive Source
  | web
  | agent (agentId : String)
  deriving DecidableEq

structure Revocation where
  at_ : String
  confirmed : Bool
  deriving DecidableEq

structure Row where
  n : String
  k : String
  ak : String
  al : String
  a : List String
  c : String
  x : String
  r : Option Revocation
  rk : RevokeKind
  cid : Option String
  cc : Option (List String)
  src : Source
  ps : Option ProofState
  migrated : Bool
  na : Bool
  deriving DecidableEq

abbrev Rows := Dict String Row

def agentOf (row : Row) : Option String :=
  match row.src with
  | .web => none
  | .agent agentId => some agentId

def isWebRow (row : Row) : Bool := row.src == .web && !row.migrated

def RANK : ProofState → ℕ
  | .unproven => 0
  | .chained => 1
  | .proven => 2

def claimRank (row : Row) : ℕ := if isWebRow row then 3 else RANK (row.ps.getD .unproven)

def Row.claims (row : Row) : List String := row.cc.getD []

/-- The node has confirmed the row's revocation. -/
def Row.revoked (row : Row) : Bool := row.r.any (·.confirmed)

inductive ClaimDecision
  | admit_ (displaced : List String)
  | refuse (heldBy : String)

def collides (row other : Row) : Bool := other.claims.any fun cid => row.claims.contains cid

/-- The collisions with `entries`; the ones already found are `displaced`. -/
def decideAmong (key : String) (row : Row) (displaced : List String) : List (String × Row) → ClaimDecision
  | [] => .admit_ displaced
  | (otherKey, other) :: entries =>
    if otherKey == key || !collides row other then decideAmong key row displaced entries
    else if isWebRow row && isWebRow other then decideAmong key row displaced entries
    else if claimRank row ≤ claimRank other || (row.migrated && other.revoked) then .refuse otherKey
    else decideAmong key row (displaced ++ [otherKey]) entries

def decideClaim (rows : Rows) (key : String) (row : Row) : ClaimDecision :=
  if row.claims.isEmpty then .admit_ [] else decideAmong key row [] rows.entries

section Claims

variable {row other : Row} {key : String} {rows : Rows}

lemma collides_iff : collides row other = true ↔ ∃ cid ∈ row.claims, cid ∈ other.claims := by
  simp only [collides, List.any_eq_true, List.contains_iff_mem]
  constructor
  · rintro ⟨cid, ho, hr⟩
    exact ⟨cid, hr, ho⟩
  · rintro ⟨cid, hr, ho⟩
    exact ⟨cid, ho, hr⟩

lemma collides_comm : collides row other = collides other row := by
  rw [Bool.eq_iff_iff, collides_iff, collides_iff]
  exact ⟨fun ⟨cid, hr, ho⟩ => ⟨cid, ho, hr⟩, fun ⟨cid, hr, ho⟩ => ⟨cid, ho, hr⟩⟩

lemma RANK_lt (ps : ProofState) : RANK ps < 3 := by
  cases ps <;> decide

lemma claimRank_web (h : isWebRow row = true) : claimRank row = 3 := if_pos h

lemma claimRank_le (row : Row) : claimRank row ≤ 3 := by
  unfold claimRank
  split
  · exact le_refl _
  · exact Nat.le_of_lt (RANK_lt _)

lemma claimRank_lt_of_not_web (h : isWebRow row = false) : claimRank row < 3 := by
  rw [claimRank, if_neg (by simp [h])]
  exact RANK_lt _

/-- Rows that stand in each other's way: they share a CID and are not both web rows. -/
def Rivals (row other : Row) : Prop :=
  (∃ cid ∈ row.claims, cid ∈ other.claims) ∧ ¬ (isWebRow row = true ∧ isWebRow other = true)

instance : Decidable (Rivals row other) := inferInstanceAs (Decidable (_ ∧ _))

lemma Rivals.symm (h : Rivals row other) : Rivals other row := by
  obtain ⟨⟨cid, hr, ho⟩, hweb⟩ := h
  exact ⟨⟨cid, ho, hr⟩, fun ⟨h₁, h₂⟩ => hweb ⟨h₂, h₁⟩⟩

/-- `row` may take the place of `other`. -/
def Outranks (row other : Row) : Prop :=
  claimRank other < claimRank row ∧ ¬ (row.migrated = true ∧ other.revoked = true)

lemma decideAmong_cons (key : String) (row other : Row) (displaced : List String) (otherKey : String)
    (entries : List (String × Row)) :
    (otherKey = key ∨ ¬ Rivals row other) ∧
        decideAmong key row displaced ((otherKey, other) :: entries) = decideAmong key row displaced entries ∨
      (otherKey ≠ key ∧ Rivals row other ∧ ¬ Outranks row other) ∧
        decideAmong key row displaced ((otherKey, other) :: entries) = .refuse otherKey ∨
      (otherKey ≠ key ∧ Rivals row other ∧ Outranks row other) ∧
        decideAmong key row displaced ((otherKey, other) :: entries) =
          decideAmong key row (displaced ++ [otherKey]) entries := by
  simp only [decideAmong]
  split_ifs with h₁ h₂ h₃
  · left
    refine ⟨?_, rfl⟩
    simp only [Bool.or_eq_true, beq_iff_eq, Bool.not_eq_true', ← Bool.not_eq_true, collides_iff] at h₁
    exact h₁.imp id fun h hr => h hr.1
  · left
    simp only [Bool.and_eq_true] at h₂
    exact ⟨.inr fun hr => hr.2 h₂, rfl⟩
  all_goals
    simp only [Bool.or_eq_true, beq_iff_eq, Bool.not_eq_true', not_or, Bool.not_eq_false, collides_iff] at h₁
    simp only [Bool.and_eq_true] at h₂
    simp only [Bool.or_eq_true, Bool.and_eq_true, decide_eq_true_eq] at h₃
    right
  · left
    refine ⟨⟨h₁.1, ⟨h₁.2, h₂⟩, fun hout => ?_⟩, rfl⟩
    exact h₃.elim (fun h => absurd hout.1 (not_lt.mpr h)) fun h => hout.2 h
  · right
    rw [not_or, not_le] at h₃
    exact ⟨⟨h₁.1, ⟨h₁.2, h₂⟩, h₃⟩, rfl⟩

lemma decideAmong_admitted {displaced found : List String} {entries : List (String × Row)}
    (h : decideAmong key row displaced entries = .admit_ found) :
    (∀ k, k ∈ found ↔ k ∈ displaced ∨ ∃ other, (k, other) ∈ entries ∧ k ≠ key ∧ Rivals row other) ∧
      ∀ k other, (k, other) ∈ entries → k ≠ key → Rivals row other → Outranks row other := by
  induction entries generalizing displaced with
  | nil =>
    cases h
    simp
  | cons e entries ih =>
    obtain ⟨otherKey, other⟩ := e
    rcases decideAmong_cons key row other displaced otherKey entries with
      ⟨hskip, he⟩ | ⟨-, he⟩ | ⟨⟨hk, hr, hout⟩, he⟩
    · obtain ⟨hfound, houts⟩ := ih (he ▸ h)
      refine ⟨fun k => (hfound k).trans (or_congr_right ?_), fun k o hm hk hr => ?_⟩
      · refine exists_congr fun o => ⟨fun hm => ⟨List.mem_cons_of_mem _ hm.1, hm.2⟩, fun hm => ?_⟩
        obtain ⟨hm, hk, hr⟩ := hm
        rcases List.mem_cons.mp hm with heq | hm
        · cases heq
          exact (hskip.elim hk (absurd hr)).elim
        · exact ⟨hm, hk, hr⟩
      · rcases List.mem_cons.mp hm with heq | hm
        · cases heq
          exact (hskip.elim hk (absurd hr)).elim
        · exact houts k o hm hk hr
    · rw [he] at h
      cases h
    · obtain ⟨hfound, houts⟩ := ih (he ▸ h)
      refine ⟨fun k => (hfound k).trans ?_, fun k o hm hk' hr' => ?_⟩
      · rw [List.mem_append, List.mem_singleton, or_assoc]
        refine or_congr_right ⟨?_, ?_⟩
        · rintro (rfl | ⟨o, hm, hrest⟩)
          · exact ⟨other, List.mem_cons_self, hk, hr⟩
          · exact ⟨o, List.mem_cons_of_mem _ hm, hrest⟩
        · rintro ⟨o, hm, hrest⟩
          rcases List.mem_cons.mp hm with heq | hm
          · cases heq
            exact .inl rfl
          · exact .inr ⟨o, hm, hrest⟩
      · rcases List.mem_cons.mp hm with heq | hm
        · cases heq
          exact hout
        · exact houts k o hm hk' hr'

lemma decideAmong_refuse {displaced : List String} {heldBy : String} {entries : List (String × Row)}
    (h : decideAmong key row displaced entries = .refuse heldBy) :
    ∃ other, (heldBy, other) ∈ entries ∧ heldBy ≠ key ∧ Rivals row other ∧ ¬ Outranks row other := by
  induction entries generalizing displaced with
  | nil => cases h
  | cons e entries ih =>
    obtain ⟨otherKey, other⟩ := e
    rcases decideAmong_cons key row other displaced otherKey entries with
      ⟨-, he⟩ | ⟨⟨hk, hr, hout⟩, he⟩ | ⟨-, he⟩
    · obtain ⟨o, hm, hrest⟩ := ih (he ▸ h)
      exact ⟨o, List.mem_cons_of_mem _ hm, hrest⟩
    · rw [he] at h
      cases h
      exact ⟨other, List.mem_cons_self, hk, hr, hout⟩
    · obtain ⟨o, hm, hrest⟩ := ih (he ▸ h)
      exact ⟨o, List.mem_cons_of_mem _ hm, hrest⟩

lemma decideClaim_admitted {displaced : List String} (h : decideClaim rows key row = .admit_ displaced) :
    (∀ k, k ∈ displaced ↔ ∃ other, rows.get? k = some other ∧ k ≠ key ∧ Rivals row other) ∧
      ∀ k other, rows.get? k = some other → k ≠ key → Rivals row other → Outranks row other := by
  unfold decideClaim at h
  split at h
  · rename_i hempty
    have hnone : ∀ other, ¬ Rivals row other := by
      rintro other ⟨⟨cid, hcid, -⟩, -⟩
      rw [List.isEmpty_iff.mp hempty] at hcid
      cases hcid
    cases h
    exact ⟨fun k => by simp [hnone], fun _ other _ _ hr => absurd hr (hnone other)⟩
  · obtain ⟨hfound, houts⟩ := decideAmong_admitted h
    simp only [List.not_mem_nil, false_or, Dict.mem_entries] at hfound houts
    exact ⟨hfound, houts⟩

lemma decideClaim_refuse {heldBy : String} (h : decideClaim rows key row = .refuse heldBy) :
    ∃ other, rows.get? heldBy = some other ∧ heldBy ≠ key ∧ Rivals row other ∧ ¬ Outranks row other := by
  unfold decideClaim at h
  split at h
  · cases h
  · obtain ⟨other, hm, hrest⟩ := decideAmong_refuse h
    exact ⟨other, (rows.mem_entries).mp hm, hrest⟩

end Claims

end TinyCloud.ShareIndex

import Mathlib.Data.List.Basic
import Mathlib.Logic.Function.Basic
import Mathlib.Data.Nat.Basic
import Mathlib.Order.Nat
import Mathlib.Tactic.Common

/-! The turn directory of a profile: numbered turns with their owner and marker
files, and what every file operation on it keeps true. -/

namespace TinyCloud.Profile

structure Owner where
  process : ℕ
  token : ℕ
  after : Option ℕ
  deriving DecidableEq, Repr

inductive Marker
  | held
  | done
  deriving DecidableEq, Repr

structure TurnEntry where
  owner : Owner
  markers : List (ℕ × Marker)
  deriving DecidableEq, Repr

/-- `granted` records each turn as its own `held` marker appears in it. -/
structure TurnDirectory where
  created : Bool
  turns : ℕ → Option TurnEntry
  granted : List (ℕ × ℕ)

structure Turn where
  slot : ℕ
  token : ℕ
  deriving DecidableEq, Repr

structure TurnState where
  owner : Owner
  slot : ℕ
  held : Bool
  done : Bool
  deriving DecidableEq, Repr

inductive ReadPc
  | owner
  | missing
  | done (o : Owner)
  | held (o : Owner) (done : Bool)
  deriving DecidableEq, Repr

inductive TurnRead
  | gone
  | damaged
  | turn (t : TurnState)
  deriving DecidableEq, Repr

def emptyDirectory : TurnDirectory :=
  ⟨false, fun _ => none, []⟩

namespace TurnDirectory

variable (D : TurnDirectory)

def hasMarker (slot token : ℕ) (kind : Marker) : Bool :=
  (D.turns slot).any fun e => decide ((token, kind) ∈ e.markers)

-- One file operation of `readTurn`.
def readTurn (slot : ℕ) : ReadPc → ReadPc ⊕ TurnRead
  | .owner => match D.turns slot with
    | none => .inl .missing
    | some e => .inl (.done e.owner)
  | .missing => .inr (if (D.turns slot).isSome then .damaged else .gone)
  | .done o => .inl (.held o (D.hasMarker slot o.token .done))
  | .held o done => .inr (.turn ⟨o, slot, D.hasMarker slot o.token .held, done⟩)

def createTurnDirectory (process token : ℕ) : TurnDirectory :=
  if D.created then D
  else
    { created := true
      turns := Function.update D.turns 0
        (some ⟨⟨process, token, none⟩, [(token, .held), (token, .done)]⟩)
      granted := D.granted ++ [(0, token)] }

def publish (slot : ℕ) (o : Owner) : TurnDirectory :=
  { D with turns := Function.update D.turns slot (some ⟨o, []⟩) }

def addMarker (slot token : ℕ) (kind : Marker) (e : TurnEntry) : TurnDirectory :=
  { D with
    turns := Function.update D.turns slot (some { e with markers := (token, kind) :: e.markers })
    granted := if kind = .held ∧ e.owner.token = token then D.granted ++ [(slot, token)] else D.granted }

-- A marker that exists already is left, and none is written where no turn is.
def markTurn (slot token : ℕ) (kind : Marker) : TurnDirectory :=
  match D.turns slot with
  | none => D
  | some e => if (token, kind) ∈ e.markers then D else D.addMarker slot token kind e

def remove (slot : ℕ) : TurnDirectory :=
  { D with turns := Function.update D.turns slot none }

def grant (n : ℕ) : Option ℕ :=
  (D.granted[n]?).map Prod.snd

def Present (n : ℕ) : Prop :=
  ∃ e, D.turns n = some e ∧ D.grant n = some e.owner.token

def Gone (n : ℕ) : Prop :=
  n < D.granted.length ∧ ¬ D.Present n

def Fresh (n token : ℕ) : Prop :=
  D.grant n = some token ∨
    (n = D.granted.length ∧ ∃ e, D.turns n = some e ∧ e.owner.token = token)

def Over (n : ℕ) : Prop :=
  n + 1 < D.granted.length ∨
    ∃ e token, D.turns n = some e ∧ D.grant n = some token ∧ (token, .done) ∈ e.markers

/-- A published turn names the grant before it, which was over by then. -/
def Follows (o : Owner) : ℕ → Prop
  | 0 => o.after = none ∧ D.grant 0 = some o.token
  | k + 1 => ∃ token, o.after = some token ∧ D.grant k = some token ∧ D.Over k

structure Sound : Prop where
  numbered : D.granted.map Prod.fst = List.range D.granted.length
  created : D.created = true ↔ 0 < D.granted.length
  follows : ∀ {n e}, D.turns n = some e → D.Follows e.owner n
  held : ∀ {n e token}, D.turns n = some e → (token, .held) ∈ e.markers → D.grant n = some token
  heldOwn : ∀ {n e}, D.turns n = some e → D.grant n = some e.owner.token →
    (e.owner.token, .held) ∈ e.markers
  latest : ∀ {n}, n + 1 = D.granted.length → D.Present n
  suffix : ∀ {n}, D.Present n → n + 1 < D.granted.length → D.Present (n + 1)
  undone : ∀ {e}, D.turns D.granted.length = some e → (e.owner.token, .done) ∉ e.markers

/-- What other operations on the directory cannot take back. -/
structure Grows (D' : TurnDirectory) : Prop where
  length : D.granted.length ≤ D'.granted.length
  grant : ∀ {n token}, D.grant n = some token → D'.grant n = some token
  gone : ∀ {n}, D.Gone n → D'.Gone n
  fresh : ∀ {n token}, D.Fresh n token → D'.Fresh n token
  passed : ∀ {n}, D.Over n → D'.Over n

variable {D} {D' : TurnDirectory} {n slot token : ℕ} {o : Owner} {e : TurnEntry} {kind : Marker}

lemma grant_lt (h : D.grant n = some token) : n < D.granted.length := by
  obtain ⟨p, hp, _⟩ := Option.map_eq_some_iff.mp h
  exact (List.getElem?_eq_some_iff.mp hp).1

lemma grant_of_lt (h : n < D.granted.length) : ∃ token, D.grant n = some token :=
  ⟨(D.granted[n]).2, by simp [grant, List.getElem?_eq_getElem h]⟩

lemma grant_append {p : ℕ × ℕ} (h : D'.granted = D.granted ++ [p]) :
    D'.grant n = if n = D.granted.length then some p.2 else D.grant n := by
  unfold grant
  rw [h]
  split
  · rename_i hn
    subst hn
    simp
  · rename_i hn
    by_cases hlt : n < D.granted.length
    · rw [List.getElem?_append_left hlt]
    · rw [List.getElem?_eq_none (by simp; omega), List.getElem?_eq_none (by omega)]

lemma Present.lt (h : D.Present n) : n < D.granted.length :=
  grant_lt h.choose_spec.2

lemma present_or_gone (h : n < D.granted.length) : D.Present n ∨ D.Gone n := by
  by_cases hp : D.Present n
  · exact .inl hp
  · exact .inr ⟨h, hp⟩

lemma Gone.not_fresh (h : D.Gone n) (hf : D.Fresh n token) : D.grant n = some token := by
  rcases hf with hf | ⟨hn, _⟩
  · exact hf
  · exact absurd h.1 (by omega)

lemma Fresh.le (h : D.Fresh n token) : n ≤ D.granted.length := by
  rcases h with h | ⟨h, _⟩
  · exact (grant_lt h).le
  · exact h.le

lemma Follows.le (h : D.Follows o n) : n ≤ D.granted.length := by
  cases n with
  | zero => exact Nat.zero_le _
  | succ k =>
    obtain ⟨token, _, hg, _⟩ := h
    exact Nat.succ_le_of_lt (grant_lt hg)

lemma Sound.gone_before (hD : D.Sound) (h : D.Gone (n + 1)) : D.Gone n :=
  ⟨by have := h.1; omega, fun hp => h.2 (hD.suffix hp h.1)⟩

lemma Sound.known (hD : D.Sound) (h : D.turns n = some e) : D.Fresh n e.owner.token ∨ D.Gone n := by
  rcases Nat.lt_or_eq_of_le (hD.follows h).le with hlt | heq
  · rcases present_or_gone hlt with ⟨e', he, hg⟩ | hgone
    · rw [h] at he
      cases he
      exact .inl (.inl hg)
    · exact .inr hgone
  · exact .inl (.inr ⟨heq, e, h, rfl⟩)

lemma hasMarker_iff : D.hasMarker slot token kind = true ↔
    ∃ e, D.turns slot = some e ∧ (token, kind) ∈ e.markers := by
  simp [hasMarker, Option.any_eq_true]

lemma Grows.refl : D.Grows D :=
  ⟨le_refl _, id, id, id, id⟩

lemma Grows.follows (h : D.Grows D') (hf : D.Follows o n) : D'.Follows o n := by
  cases n with
  | zero => exact ⟨hf.1, h.grant hf.2⟩
  | succ k =>
    obtain ⟨token, ha, hg, ho⟩ := hf
    exact ⟨token, ha, h.grant hg, h.passed ho⟩

lemma turns_update_of_ne {v : Option TurnEntry} (h : n ≠ slot) :
    Function.update D.turns slot v n = D.turns n :=
  Function.update_of_ne h _ _

section Publish

lemma publish_turns_self : (D.publish slot o).turns slot = some ⟨o, []⟩ :=
  Function.update_self _ _ _

lemma publish_turns_of_ne (h : n ≠ slot) : (D.publish slot o).turns n = D.turns n :=
  Function.update_of_ne h _ _

lemma publish_present (hfree : D.turns slot = none) (hnew : ∀ n, D.grant n ≠ some o.token) :
    (D.publish slot o).Present n ↔ D.Present n := by
  by_cases hn : n = slot
  · subst hn
    constructor
    · rintro ⟨e, he, hg⟩
      rw [publish_turns_self] at he
      cases he
      exact (hnew _ hg).elim
    · rintro ⟨e, he, _⟩
      rw [hfree] at he
      cases he
  · unfold Present
    rw [publish_turns_of_ne hn]
    rfl

lemma publish_grows (hfree : D.turns slot = none) (hnew : ∀ n, D.grant n ≠ some o.token) :
    D.Grows (D.publish slot o) := by
  have hkept : ∀ {n e}, D.turns n = some e → (D.publish slot o).turns n = some e := by
    intro n e he
    rw [publish_turns_of_ne]
    · exact he
    · rintro rfl
      rw [hfree] at he
      cases he
  refine ⟨le_refl _, id, ?_, ?_, ?_⟩
  · exact fun h => ⟨h.1, fun hp => h.2 ((publish_present hfree hnew).mp hp)⟩
  · exact fun h => h.imp id fun ⟨hn, e, he, ht⟩ => ⟨hn, e, hkept he, ht⟩
  · exact fun h => h.imp id fun ⟨e, token, he, hg⟩ => ⟨e, token, hkept he, hg⟩

lemma Sound.publish (hD : D.Sound) (hfree : D.turns slot = none) (hnew : ∀ n, D.grant n ≠ some o.token)
    (hfollows : D.Follows o slot) : (D.publish slot o).Sound := by
  have hgrows := publish_grows hfree hnew
  have hcases : ∀ {n e}, (D.publish slot o).turns n = some e → D.turns n = some e ∨ (n = slot ∧ e = ⟨o, []⟩) := by
    intro n e he
    by_cases hn : n = slot
    · subst hn
      rw [publish_turns_self] at he
      cases he
      exact .inr ⟨rfl, rfl⟩
    · rw [publish_turns_of_ne hn] at he
      exact .inl he
  refine ⟨hD.numbered, hD.created, ?_, ?_, ?_, ?_, ?_, ?_⟩
  · intro n e he
    rcases hcases he with he | ⟨rfl, rfl⟩
    · exact hgrows.follows (hD.follows he)
    · exact hgrows.follows hfollows
  · intro n e token he hm
    rcases hcases he with he | ⟨rfl, rfl⟩
    · exact hD.held he hm
    · cases hm
  · intro n e he hg
    rcases hcases he with he | ⟨rfl, rfl⟩
    · exact hD.heldOwn he hg
    · exact (hnew _ hg).elim
  · exact fun h => (publish_present hfree hnew).mpr (hD.latest h)
  · intro n hp hn
    exact (publish_present hfree hnew).mpr (hD.suffix ((publish_present hfree hnew).mp hp) hn)
  · intro e he
    rcases hcases he with he | ⟨_, rfl⟩
    · exact hD.undone he
    · exact List.not_mem_nil

end Publish

section Remove

lemma remove_turns (h : (D.remove slot).turns n = some e) : D.turns n = some e ∧ n ≠ slot := by
  by_cases hn : n = slot
  · subst hn
    rw [show (D.remove n).turns n = none from Function.update_self _ _ _] at h
    cases h
  · exact ⟨(Function.update_of_ne hn _ _).symm.trans h, hn⟩

lemma remove_turns_of_ne (h : n ≠ slot) : (D.remove slot).turns n = D.turns n :=
  Function.update_of_ne h _ _

lemma remove_grows (hlt : slot + 1 < D.granted.length) : D.Grows (D.remove slot) := by
  refine ⟨le_refl _, id, ?_, ?_, ?_⟩
  · rintro n ⟨hn, hp⟩
    refine ⟨hn, fun ⟨e, he, hg⟩ => hp ⟨e, (remove_turns he).1, hg⟩⟩
  · rintro n token (hg | ⟨hn, e, he, ht⟩)
    · exact .inl hg
    · refine .inr ⟨hn, e, ?_, ht⟩
      rwa [remove_turns_of_ne (by omega)]
  · rintro n (hn | ⟨e, token, he, hg, hm⟩)
    · exact .inl hn
    · by_cases hn : n = slot
      · subst hn
        exact .inl hlt
      · refine .inr ⟨e, token, ?_, hg, hm⟩
        rwa [remove_turns_of_ne hn]

-- The oldest present grant goes first, so those left are still the last ones.
lemma Sound.remove (hD : D.Sound) (hlt : slot + 1 < D.granted.length)
    (h : slot = 0 ∨ ¬ D.Present (slot - 1) ∨ ¬ D.Present slot) :
    (D.remove slot).Sound := by
  have hgrows := remove_grows hlt
  refine ⟨hD.numbered, hD.created, ?_, ?_, ?_, ?_, ?_, ?_⟩
  · exact fun he => hgrows.follows (hD.follows (remove_turns he).1)
  · exact fun he => hD.held (remove_turns he).1
  · exact fun he => hD.heldOwn (remove_turns he).1
  · intro n hn
    obtain ⟨e, he, hg⟩ := hD.latest hn
    refine ⟨e, ?_, hg⟩
    rwa [remove_turns_of_ne (by have : n + 1 = D.granted.length := hn; omega)]
  · rintro n ⟨e, he, hg⟩ hn
    have hold := (remove_turns he).1
    obtain ⟨e', he', hg'⟩ := hD.suffix ⟨e, hold, hg⟩ hn
    refine ⟨e', ?_, hg'⟩
    rw [remove_turns_of_ne]
    · exact he'
    · rintro rfl
      rcases h with h | h | h
      · omega
      · exact h ⟨e, hold, hg⟩
      · exact h ⟨e', he', hg'⟩
  · intro e he
    exact hD.undone (remove_turns he).1

end Remove

section Mark

lemma addMarker_turns_self : (D.addMarker slot token kind e).turns slot =
    some { e with markers := (token, kind) :: e.markers } :=
  Function.update_self _ _ _

lemma addMarker_turns_of_ne (h : n ≠ slot) : (D.addMarker slot token kind e).turns n = D.turns n :=
  Function.update_of_ne h _ _

lemma markTurn_turns (h : (D.markTurn slot token kind).turns n = some e) :
    ∃ e₀, D.turns n = some e₀ ∧ e.owner = e₀.owner ∧
      ∀ m ∈ e.markers, m ∈ e₀.markers ∨ (n = slot ∧ m = (token, kind)) := by
  unfold markTurn at h
  split at h
  · exact ⟨e, h, rfl, fun m hm => .inl hm⟩
  · rename_i e₁ he₁
    split at h
    · exact ⟨e, h, rfl, fun m hm => .inl hm⟩
    · by_cases hn : n = slot
      · subst hn
        rw [addMarker_turns_self, Option.some.injEq] at h
        subst h
        refine ⟨e₁, he₁, rfl, fun m hm => ?_⟩
        rcases List.mem_cons.mp hm with rfl | hm
        · exact .inr ⟨rfl, rfl⟩
        · exact .inl hm
      · rw [addMarker_turns_of_ne hn] at h
        exact ⟨e, h, rfl, fun m hm => .inl hm⟩

lemma markTurn_kept (slot token : ℕ) (kind : Marker) (h : D.turns n = some e) : ∃ e', (D.markTurn slot token kind).turns n = some e' ∧
    e'.owner = e.owner ∧ ∀ m ∈ e.markers, m ∈ e'.markers := by
  unfold markTurn
  split
  · exact ⟨e, h, rfl, fun _ hm => hm⟩
  · rename_i e₁ he₁
    split
    · exact ⟨e, h, rfl, fun _ hm => hm⟩
    · by_cases hn : n = slot
      · subst hn
        rw [h] at he₁
        cases he₁
        exact ⟨_, addMarker_turns_self, rfl, fun m hm => List.mem_cons_of_mem _ hm⟩
      · exact ⟨e, (addMarker_turns_of_ne hn).trans h, rfl, fun _ hm => hm⟩

lemma markTurn_marked (slot token : ℕ) (kind : Marker) (h : D.turns slot = some e) :
    ∃ e', (D.markTurn slot token kind).turns slot = some e' ∧ (token, kind) ∈ e'.markers := by
  unfold markTurn
  rw [h]
  dsimp only
  split
  · rename_i hm
    exact ⟨e, h, hm⟩
  · exact ⟨_, addMarker_turns_self, List.mem_cons_self⟩

lemma markTurn_granted (D : TurnDirectory) (slot token : ℕ) (kind : Marker) : (D.markTurn slot token kind).granted = D.granted ∨
    (kind = .held ∧ ∃ e, D.turns slot = some e ∧ e.owner.token = token ∧ (token, .held) ∉ e.markers ∧
      (D.markTurn slot token kind).granted = D.granted ++ [(slot, token)]) := by
  unfold markTurn
  split
  · exact .inl rfl
  · rename_i e he
    split
    · exact .inl rfl
    · rename_i hm
      by_cases hk : kind = .held ∧ e.owner.token = token
      · obtain ⟨rfl, ht⟩ := hk
        exact .inr ⟨rfl, e, he, ht, hm, by simp [addMarker, ht]⟩
      · exact .inl (if_neg hk)

/-- A `held` marker is only written for a turn that waits for it or has it. -/
def MayMark (D : TurnDirectory) (slot token : ℕ) : Marker → Prop
  | .held => D.Fresh slot token
  | .done => slot < D.granted.length

lemma Sound.markTurn_grant (hD : D.Sound) (hk : D.MayMark slot token kind) :
    (D.markTurn slot token kind).granted = D.granted ∨
      (slot = D.granted.length ∧ kind = .held ∧ (∃ e, D.turns slot = some e ∧ e.owner.token = token) ∧
        (D.markTurn slot token kind).granted = D.granted ++ [(slot, token)]) := by
  rcases markTurn_granted D slot token kind with h | ⟨rfl, e, he, ht, hm, h⟩
  · exact .inl h
  · refine .inr ⟨?_, rfl, ⟨e, he, ht⟩, h⟩
    rcases hk with hg | ⟨hn, _⟩
    · subst ht
      exact (hm (hD.heldOwn he hg)).elim
    · exact hn

lemma Sound.markTurn_grows (hD : D.Sound) (hk : D.MayMark slot token kind) :
    D.Grows (D.markTurn slot token kind) := by
  have hgrant : ∀ {n t}, D.grant n = some t → (D.markTurn slot token kind).grant n = some t := by
    intro n t hg
    rcases hD.markTurn_grant hk with h | ⟨_, _, _, h⟩
    · rwa [grant, h]
    · rw [grant_append h, if_neg (grant_lt hg).ne]
      exact hg
  have hlen : D.granted.length ≤ (D.markTurn slot token kind).granted.length := by
    rcases hD.markTurn_grant hk with h | ⟨_, _, _, h⟩
    · rw [h]
    · rw [h, List.length_append]
      omega
  refine ⟨hlen, hgrant, ?_, ?_, ?_⟩
  · rintro n ⟨hn, hp⟩
    refine ⟨hn.trans_le hlen, fun ⟨e, he, hg⟩ => hp ?_⟩
    obtain ⟨e₀, he₀, ho, _⟩ := markTurn_turns he
    obtain ⟨t, ht⟩ := grant_of_lt hn
    refine ⟨e₀, he₀, ?_⟩
    rw [ht, ← hgrant ht, hg, ho]
  · rintro n t (hg | ⟨hn, e, he, ht⟩)
    · exact .inl (hgrant hg)
    · obtain ⟨e', he', ho, _⟩ := markTurn_kept slot token kind he
      rcases hD.markTurn_grant hk with h | ⟨hs, _, ⟨e₁, he₁, ht₁⟩, h⟩
      · exact .inr ⟨by rw [h]; exact hn, e', he', by rw [ho, ht]⟩
      · refine .inl ?_
        rw [grant_append h, if_pos hn]
        rw [hs, ← hn, he] at he₁
        cases he₁
        rw [← ht, ht₁]
  · rintro n (hn | ⟨e, t, he, hg, hm⟩)
    · exact .inl (hn.trans_le hlen)
    · obtain ⟨e', he', _, hkeep⟩ := markTurn_kept slot token kind he
      exact .inr ⟨e', t, he', hgrant hg, hkeep _ hm⟩

lemma Sound.markTurn_present (hD : D.Sound) (hk : D.MayMark slot token kind) (h : D.Present n) :
    (D.markTurn slot token kind).Present n := by
  obtain ⟨e, he, hg⟩ := h
  obtain ⟨e', he', ho, _⟩ := markTurn_kept slot token kind he
  exact ⟨e', he', by rw [ho]; exact (hD.markTurn_grows hk).grant hg⟩

lemma Sound.markTurn (hD : D.Sound) (hk : D.MayMark slot token kind) :
    (D.markTurn slot token kind).Sound := by
  have hgrows := hD.markTurn_grows hk
  have hgrant := hD.markTurn_grant hk
  refine ⟨?_, ?_, ?_, ?_, ?_, ?_, ?_, ?_⟩
  · rcases hgrant with h | ⟨hs, _, _, h⟩
    · rw [h]
      exact hD.numbered
    · rw [h, List.map_append, hD.numbered, List.length_append, List.length_singleton, List.range_succ, hs]
      rfl
  · have hcreated : (D.markTurn slot token kind).created = D.created := by
      unfold TurnDirectory.markTurn
      split
      · rfl
      · split <;> rfl
    rw [hcreated, hD.created]
    rcases hgrant with h | ⟨hs, _, ⟨e, he, _⟩, h⟩
    · rw [h]
    · have hle := hgrows.length
      constructor
      · omega
      · intro _
        have hf := hD.follows he
        cases slot with
        | zero => exact grant_lt hf.2
        | succ k => omega
  · intro n e he
    obtain ⟨e₀, he₀, ho, _⟩ := markTurn_turns he
    rw [ho]
    exact hgrows.follows (hD.follows he₀)
  · intro n e t he hm
    obtain ⟨e₀, he₀, ho, hmarks⟩ := markTurn_turns he
    rcases hmarks _ hm with hm | ⟨rfl, heq⟩
    · exact hgrows.grant (hD.held he₀ hm)
    · cases heq
      rcases hk with hg | ⟨hn, e₁, he₁, ht₁⟩
      · exact hgrows.grant hg
      · rw [he₀] at he₁
        cases he₁
        by_cases hheld : (token, Marker.held) ∈ e₀.markers
        · exact hgrows.grant (hD.held he₀ hheld)
        · rcases hgrant with h | ⟨_, _, _, h⟩
          · simp [TurnDirectory.markTurn, he₀, hheld, addMarker, ht₁] at h
          · rw [grant_append h, if_pos hn]
  · intro n e he hg
    obtain ⟨e₀, he₀, ho, hmarks⟩ := markTurn_turns he
    by_cases hold : D.grant n = some e₀.owner.token
    · obtain ⟨e', he', _, hkeep⟩ := markTurn_kept slot token kind he₀
      rw [he] at he'
      cases he'
      rw [ho]
      exact hkeep _ (hD.heldOwn he₀ hold)
    · rcases hgrant with h | ⟨hs, rfl, ⟨e₁, he₁, ht₁⟩, h⟩
      · rw [grant, h, ho] at hg
        exact (hold hg).elim
      · rw [grant_append h] at hg
        split at hg
        · rename_i hn
          obtain ⟨e', he', hm'⟩ := markTurn_marked slot token .held he₁
          obtain rfl : n = slot := hn.trans hs.symm
          rw [he] at he'
          cases he'
          cases hg
          exact hm'
        · rw [ho] at hg
          exact (hold hg).elim
  · intro n hn
    rcases hgrant with h | ⟨hs, _, ⟨e₁, he₁, ht₁⟩, h⟩
    · rw [h] at hn
      exact hD.markTurn_present hk (hD.latest hn)
    · rw [h, List.length_append, List.length_singleton] at hn
      obtain ⟨e', he', ho, _⟩ := markTurn_kept slot token kind he₁
      obtain rfl : n = slot := by omega
      refine ⟨e', he', ?_⟩
      rw [grant_append h, if_pos hs, ho, ht₁]
  · intro n hp hn
    obtain ⟨e, he, hg⟩ := hp
    have hold : n < D.granted.length := by
      rcases hgrant with h | ⟨_, _, _, h⟩
      · rw [h] at hn
        omega
      · rw [h, List.length_append, List.length_singleton] at hn
        omega
    rcases present_or_gone hold with hp | hgone
    · by_cases hlast : n + 1 < D.granted.length
      · exact hD.markTurn_present hk (hD.suffix hp hlast)
      · rcases hgrant with h | ⟨hs, _, ⟨e₁, he₁, ht₁⟩, h⟩
        · rw [h] at hn
          exact (hlast hn).elim
        · obtain ⟨e', he', ho, _⟩ := markTurn_kept slot token kind he₁
          obtain rfl : n + 1 = slot := by omega
          refine ⟨e', he', ?_⟩
          rw [grant_append h, if_pos hs, ho, ht₁]
    · exact ((hgrows.gone hgone).2 ⟨e, he, hg⟩).elim
  · intro e he
    obtain ⟨e₀, he₀, ho, hmarks⟩ := markTurn_turns he
    rcases hgrant with h | ⟨hs, _, _, h⟩
    · rw [h] at he₀ hmarks
      rw [ho]
      intro hm
      rcases hmarks _ hm with hm | ⟨hn, heq⟩
      · exact hD.undone he₀ hm
      · cases heq
        exact absurd hk (by simp only [MayMark]; omega)
    · rw [h, List.length_append, List.length_singleton] at he₀
      have := (hD.follows he₀).le
      omega

end Mark

section Create

lemma Sound.not_created (hD : D.Sound) (hc : D.created = false) : D.granted = [] ∧ ∀ n, D.turns n = none := by
  have hlen : D.granted.length = 0 := by
    have := hD.created
    rw [hc] at this
    simpa using this
  refine ⟨List.eq_nil_of_length_eq_zero hlen, fun n => ?_⟩
  cases hn : D.turns n with
  | none => rfl
  | some e =>
    have hf := hD.follows hn
    have := hf.le
    obtain rfl : n = 0 := by omega
    have := grant_lt hf.2
    omega

lemma Sound.createTurnDirectory_eq (hD : D.Sound) (hc : D.created = false) (process token : ℕ) :
    D.createTurnDirectory process token = ⟨true, Function.update (fun _ => none) 0
      (some ⟨⟨process, token, none⟩, [(token, .held), (token, .done)]⟩), [(0, token)]⟩ := by
  obtain ⟨hg, ht⟩ := hD.not_created hc
  have hturns : D.turns = fun _ => none := funext ht
  simp [TurnDirectory.createTurnDirectory, hc, hg, hturns]

lemma Sound.createTurnDirectory_grows (hD : D.Sound) (process token : ℕ) :
    D.Grows (D.createTurnDirectory process token) := by
  cases hc : D.created with
  | true =>
    rw [TurnDirectory.createTurnDirectory, if_pos hc]
    exact .refl
  | false =>
    obtain ⟨hg, ht⟩ := hD.not_created hc
    refine ⟨by simp [hg], ?_, ?_, ?_, ?_⟩
    · intro n t h
      have := grant_lt h
      simp [hg] at this
    · rintro n ⟨h, _⟩
      simp [hg] at h
    · rintro n t (h | ⟨_, e, he, _⟩)
      · have := grant_lt h
        simp [hg] at this
      · rw [ht] at he
        cases he
    · rintro n (h | ⟨e, t, he, _⟩)
      · simp [hg] at h
      · rw [ht] at he
        cases he

lemma Sound.createTurnDirectory (hD : D.Sound) (process token : ℕ) :
    (D.createTurnDirectory process token).Sound := by
  cases hc : D.created with
  | true =>
    rw [TurnDirectory.createTurnDirectory, if_pos hc]
    exact hD
  | false =>
    rw [hD.createTurnDirectory_eq hc]
    have hturns : ∀ {n e}, Function.update (fun _ => none) 0
        (some (⟨⟨process, token, none⟩, [(token, .held), (token, .done)]⟩ : TurnEntry)) n = some e →
        n = 0 ∧ e = ⟨⟨process, token, none⟩, [(token, .held), (token, .done)]⟩ := by
      intro n e he
      rw [Function.update_apply] at he
      split at he
      · cases he
        exact ⟨by assumption, rfl⟩
      · cases he
    refine ⟨rfl, by simp, ?_, ?_, ?_, ?_, ?_, ?_⟩
    · intro n e he
      obtain ⟨rfl, rfl⟩ := hturns he
      exact ⟨rfl, rfl⟩
    · intro n e t he hm
      obtain ⟨rfl, rfl⟩ := hturns he
      simp only [List.mem_cons, Prod.mk.injEq, reduceCtorEq, and_false, List.not_mem_nil, or_false,
        and_true] at hm
      rw [hm]
      rfl
    · intro n e he _
      obtain ⟨rfl, rfl⟩ := hturns he
      exact List.mem_cons_self
    · intro n hn
      obtain rfl : n = 0 := by simpa using hn
      exact ⟨_, rfl, rfl⟩
    · intro n _ hn
      simp at hn
    · intro e he
      cases he

end Create

lemma sound_empty : emptyDirectory.Sound := by
  refine ⟨rfl, by simp [emptyDirectory], ?_, ?_, ?_, ?_, ?_, ?_⟩
  · intro n e he
    cases he
  · intro n e t he
    cases he
  · intro n e he
    cases he
  · intro n hn
    cases hn
  · intro n _ hn
    cases hn
  · intro e he
    cases he

end TurnDirectory

end TinyCloud.Profile

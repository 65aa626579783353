import Mathlib.Logic.Basic

/-! Machines with partial transitions: the states reached by runs whose steps
all meet a guard, and the invariants of such runs. -/

namespace TinyCloud.Runs

variable {σ α : Type*}

structure Machine (σ α : Type*) where
  initial : σ → Prop
  step : σ → α → Option σ

namespace Machine

variable (M : Machine σ α)

inductive Within (g : σ → α → Prop) : σ → Prop
  | start {s} : M.initial s → Within g s
  | step {s a t} : Within g s → g s a → M.step s a = some t → Within g t

abbrev Reachable : σ → Prop := M.Within (fun _ _ => True)

-- A run that stops at the first step the test refuses.
def runIf (c : σ → α → Bool) (s : σ) : List α → Option σ
  | [] => some s
  | a :: as => if c s a then (M.step s a).bind (fun t => runIf c t as) else none

def run : σ → List α → Option σ :=
  M.runIf (fun _ _ => true)

variable {M} {g g' : σ → α → Prop} {s t : σ} {as : List α}

lemma Within.mono (h : M.Within g s) (hg : ∀ s a, g s a → g' s a) : M.Within g' s := by
  induction h with
  | start hi => exact .start hi
  | step _ ha hs ih => exact .step ih (hg _ _ ha) hs

lemma Within.reachable (h : M.Within g s) : M.Reachable s :=
  h.mono (fun _ _ _ => trivial)

lemma Within.invariant {I : σ → Prop} (h : M.Within g s) (hi : ∀ s, M.initial s → I s)
    (hs : ∀ s a t, M.Within g s → I s → g s a → M.step s a = some t → I t) : I s := by
  induction h with
  | start h => exact hi _ h
  | step hw ha he ih => exact hs _ _ _ hw ih ha he

lemma Reachable.invariant {I : σ → Prop} (h : M.Reachable s) (hi : ∀ s, M.initial s → I s)
    (hs : ∀ s a t, I s → M.step s a = some t → I t) : I s :=
  Within.invariant h hi (fun s a t _ hI _ he => hs s a t hI he)

lemma Reachable.next {a : α} (h : M.Reachable s) (hs : M.step s a = some t) : M.Reachable t :=
  .step h trivial hs

lemma Within.of_runIf {c : σ → α → Bool} {P : σ → Prop} (h : M.Within g s) (hp : P s)
    (hc : ∀ s a, P s → c s a = true → g s a)
    (hs : ∀ s a t, P s → c s a = true → M.step s a = some t → P t)
    (hr : M.runIf c s as = some t) : M.Within g t := by
  induction as generalizing s with
  | nil =>
    cases hr
    exact h
  | cons a as ih =>
    simp only [runIf] at hr
    split at hr
    · rename_i ha
      obtain ⟨u, hu, hr⟩ := Option.bind_eq_some_iff.mp hr
      exact ih (.step h (hc _ _ hp ha) hu) (hs _ _ _ hp ha hu) hr
    · cases hr

lemma runIf_keeps {c : σ → α → Bool} {P : σ → Prop} (hp : P s)
    (hs : ∀ s a t, P s → c s a = true → M.step s a = some t → P t) (hr : M.runIf c s as = some t) : P t := by
  induction as generalizing s with
  | nil =>
    cases hr
    exact hp
  | cons a as ih =>
    simp only [runIf] at hr
    split at hr
    · rename_i ha
      obtain ⟨u, hu, hr⟩ := Option.bind_eq_some_iff.mp hr
      exact ih (hs _ _ _ hp ha hu) hr
    · cases hr

lemma runIf_congr {M' : Machine σ α} {c : σ → α → Bool} (h : ∀ a ∈ as, ∀ s, M.step s a = M'.step s a) :
    M.runIf c s as = M'.runIf c s as := by
  induction as generalizing s with
  | nil => rfl
  | cons a as ih =>
    have htail := fun t => ih (s := t) fun b hb => h b (List.mem_cons_of_mem a hb)
    simp only [runIf, h a List.mem_cons_self s, htail]

lemma Reachable.of_run (h : M.Reachable s) (hr : M.run s as = some t) : M.Reachable t :=
  Within.of_runIf (P := fun _ => True) h trivial (fun _ _ _ _ => trivial) (fun _ _ _ _ _ _ => trivial) hr

end Machine

end TinyCloud.Runs

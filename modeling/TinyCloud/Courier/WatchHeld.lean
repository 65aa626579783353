import TinyCloud.Courier.WatchQueue

/-! The messages of one watcher over crashes and restarts: what is held is recorded as paused, so that
a resumed thread gets its backlog back, and no message with a receipt is lost. -/

namespace TinyCloud.Courier

open TinyCloud.Runs

section State

variable {paused : List ThreadKey} {now : ℕ} {s s' : WatchState} {key : ThreadKey} {k : MessageKey} {m : WakeMessage}

def WatchState.Pending (s : WatchState) (k : MessageKey) : Prop :=
  ∃ entry, s.pending k.1 = some entry ∧ k.2 ∈ entry.messages.map (·.messageId)

def WatchState.Present (s : WatchState) (k : MessageKey) : Prop :=
  s.Pending k ∨ k.2 ∈ (s.held k.1).map (·.messageId)

def Delivered.Waking (item : Delivered) : Prop := ∃ intent ∈ WAKE_INTENTS, item.intent = some intent

def Delivered.messageKey (item : Delivered) : MessageKey := (item.key, item.messageId)

lemma hasMessage_iff {messages : List WakeMessage} {id : String} :
    hasMessage messages id = true ↔ id ∈ messages.map (·.messageId) := by
  simp [hasMessage, List.any_eq_true]

lemma present_congr (hp : s'.pending = s.pending) (hh : s'.held = s.held) : s'.Present k ↔ s.Present k := by
  simp only [WatchState.Present, WatchState.Pending, hp, hh]

lemma addMessage_held (s : WatchState) (key : ThreadKey) (at_ : ℕ) (m : WakeMessage) :
    (s.addMessage key at_ m).held = s.held := by
  unfold WatchState.addMessage
  simp only
  split <;> rfl

/-- What a message that arrives does to the pending wake of its thread. -/
lemma addMessage_pending (s : WatchState) (key : ThreadKey) (at_ : ℕ) (m : WakeMessage) :
    ∃ entry, (s.addMessage key at_ m).pending = Function.update s.pending key (some entry) ∧
      m.messageId ∈ entry.messages.map (·.messageId) ∧
        ∀ old, s.pending key = some old → ∀ id ∈ old.messages.map (·.messageId), id ∈ entry.messages.map (·.messageId) := by
  unfold WatchState.addMessage
  simp only
  split
  · rename_i h
    refine ⟨_, rfl, hasMessage_iff.mp h, ?_⟩
    intro old hold id hid
    rwa [hold]
  · refine ⟨_, rfl, by simp, ?_⟩
    intro old hold id hid
    rw [hold, Option.getD_some, List.map_append]
    exact List.mem_append_left _ hid

lemma WatchState.Pending.addMessage (h : s.Pending k) (key : ThreadKey) (at_ : ℕ) (m : WakeMessage) :
    (s.addMessage key at_ m).Pending k := by
  obtain ⟨entry, hp, -, hold⟩ := addMessage_pending s key at_ m
  obtain ⟨old, hk, hid⟩ := h
  rw [WatchState.Pending, hp, Function.update_apply]
  split
  · rename_i heq
    exact ⟨entry, rfl, hold old (heq ▸ hk) _ hid⟩
  · exact ⟨old, hk, hid⟩

lemma pending_addMessage (s : WatchState) (key : ThreadKey) (at_ : ℕ) (m : WakeMessage) :
    (s.addMessage key at_ m).Pending (key, m.messageId) := by
  obtain ⟨entry, hp, hm, -⟩ := addMessage_pending s key at_ m
  exact ⟨entry, by rw [hp, Function.update_self], hm⟩

lemma WatchState.Present.addMessage (h : s.Present k) (key : ThreadKey) (at_ : ℕ) (m : WakeMessage) :
    (s.addMessage key at_ m).Present k := by
  rcases h with h | h
  · exact .inl (h.addMessage key at_ m)
  · right
    rwa [addMessage_held]

lemma hold_pending (s : WatchState) (key : ThreadKey) (m : WakeMessage) :
    (s.hold key m).pending = s.pending := by
  unfold WatchState.hold
  split <;> rfl

/-- A held message stays held unless the limit of its thread pushes it out. -/
lemma hold_held (s : WatchState) (key : ThreadKey) (m : WakeMessage) (k : MessageKey)
    (h : k.2 ∈ (s.held k.1).map (·.messageId) ∨ k = (key, m.messageId)) :
    k.2 ∈ ((s.hold key m).held k.1).map (·.messageId) ∨ k ∈ s.pushedOut key m := by
  unfold WatchState.hold WatchState.pushedOut
  split
  · rename_i hm
    rcases h with h | rfl
    · exact .inl h
    · exact .inl (hasMessage_iff.mp hm)
  · by_cases hk : k.1 = key
    · have hmem : k.2 ∈ (s.held key ++ [m]).map (·.messageId) := by
        rw [List.map_append]
        rcases h with h | rfl
        · exact List.mem_append_left _ (hk ▸ h)
        · simp
      obtain ⟨m', hm', hid⟩ := List.mem_map.mp hmem
      rw [← List.take_append_drop ((s.held key).length + 1 - MAX_HELD_PER_THREAD) (s.held key ++ [m])] at hm'
      rcases List.mem_append.mp hm' with hm' | hm'
      · right
        refine List.mem_map.mpr ⟨m', hm', ?_⟩
        rw [← hk, hid]
      · left
        simp only [hk, Function.update_self]
        refine List.mem_map.mpr ⟨m', ?_, hid⟩
        simpa [lastOf] using hm'
    · left
      simp only [Function.update_of_ne hk]
      exact h.resolve_right fun h => hk (congrArg Prod.fst h)

lemma WatchState.Present.hold (h : s.Present k) (key : ThreadKey) (m : WakeMessage) :
    (s.hold key m).Present k ∨ k ∈ s.pushedOut key m := by
  rcases h with h | h
  · left
    left
    rwa [WatchState.Pending, hold_pending]
  · exact (hold_held s key m k (.inl h)).imp .inr id

lemma present_hold (s : WatchState) (key : ThreadKey) (m : WakeMessage) :
    (s.hold key m).Present (key, m.messageId) ∨ (key, m.messageId) ∈ s.pushedOut key m :=
  (hold_held s key m _ (.inr rfl)).imp .inr id

lemma deliverOne_present (s : WatchState) (at_ : ℕ) (item : Delivered) (k : MessageKey) (h : s.Present k ∨
    item.Waking ∧ item.messageId ∉ s.woken ∧ k = item.messageKey) :
    (s.deliverOne paused at_ item).1.Present k ∨ k ∈ (s.deliverOne paused at_ item).2 := by
  unfold WatchState.deliverOne
  split
  · rename_i hi
    refine .inl (h.resolve_right ?_)
    rintro ⟨⟨intent, -, hw⟩, -⟩
    rw [hi] at hw
    cases hw
  · rename_i intent hi
    simp only
    split
    · rename_i hskip
      refine .inl (h.resolve_right ?_)
      rintro ⟨⟨intent', hw, hi'⟩, hnew, -⟩
      rw [hi] at hi'
      cases hi'
      simp only [Bool.or_eq_true, Bool.not_eq_true', List.contains_eq_mem, decide_eq_true_eq,
        decide_eq_false_iff_not] at hskip
      exact hskip.elim (· hw) hnew
    · split
      · rcases h with h | ⟨-, -, rfl⟩
        · exact h.hold item.key _
        · exact present_hold s item.key ⟨item.messageId, intent⟩
      · rcases h with h | ⟨-, -, rfl⟩
        · exact .inl (h.addMessage item.key at_ _)
        · exact .inl (.inl (pending_addMessage s item.key at_ ⟨item.messageId, intent⟩))

lemma deliverOne_woken (s : WatchState) (at_ : ℕ) (item : Delivered) :
    (s.deliverOne paused at_ item).1.woken = s.woken := by
  unfold WatchState.deliverOne WatchState.hold WatchState.addMessage
  split
  · rfl
  · simp only
    split_ifs <;> rfl

lemma deliver_present (paused : List ThreadKey) (s : WatchState) (at_ : ℕ) (items : List Delivered) (k : MessageKey) (h : s.Present k ∨
    ∃ item ∈ items, item.Waking ∧ item.messageId ∉ s.woken ∧ k = item.messageKey) :
    (s.deliver paused at_ items).1.Present k ∨ k ∈ (s.deliver paused at_ items).2 := by
  induction items generalizing s with
  | nil => exact .inl (h.resolve_right nofun)
  | cons item items ih =>
    have hout {l : List MessageKey} (h : k ∈ (s.deliverOne paused at_ item).2) :
        k ∈ (s.deliverOne paused at_ item).2 ++ l := List.mem_append_left _ h
    have hrest (h : (s.deliverOne paused at_ item).1.Present k ∨ ∃ item' ∈ items, item'.Waking ∧
        item'.messageId ∉ (s.deliverOne paused at_ item).1.woken ∧ k = item'.messageKey) :
        (s.deliver paused at_ (item :: items)).1.Present k ∨ k ∈ (s.deliver paused at_ (item :: items)).2 :=
      (ih _ h).imp id (List.mem_append_right _)
    rcases h with h | ⟨item', hmem, hw, hnew, hk⟩
    · rcases deliverOne_present s at_ item k (.inl h) with h | h
      · exact hrest (.inl h)
      · exact .inr (hout h)
    · rcases List.mem_cons.mp hmem with rfl | hmem
      · rcases deliverOne_present s at_ item' k (.inr ⟨hw, hnew, hk⟩) with h | h
        · exact hrest (.inl h)
        · exact .inr (hout h)
      · refine hrest (.inr ⟨item', hmem, hw, ?_, hk⟩)
        rwa [deliverOne_woken]

lemma holdAll_present (key : ThreadKey) (s : WatchState) (messages : List WakeMessage) (k : MessageKey)
    (h : s.Present k ∨ k.1 = key ∧ k.2 ∈ messages.map (·.messageId)) :
    ((s.holdAll key messages).1.Present k ∨ k ∈ (s.holdAll key messages).2) := by
  induction messages generalizing s with
  | nil => exact .inl (h.resolve_right (by simp))
  | cons m messages ih =>
    have hrest (h : (s.hold key m).Present k ∨ k.1 = key ∧ k.2 ∈ messages.map (·.messageId)) :
        ((s.holdAll key (m :: messages)).1.Present k ∨ k ∈ (s.holdAll key (m :: messages)).2) :=
      (ih _ h).imp id (List.mem_append_right _)
    have hfirst (h : (s.hold key m).Present k ∨ k ∈ s.pushedOut key m) :
        ((s.holdAll key (m :: messages)).1.Present k ∨ k ∈ (s.holdAll key (m :: messages)).2) := by
      rcases h with h | h
      · exact hrest (.inl h)
      · exact .inr (List.mem_append_left _ h)
    rcases h with h | ⟨hk, hid⟩
    · exact hfirst (h.hold key m)
    · rw [List.map_cons, List.mem_cons] at hid
      rcases hid with hid | hid
      · obtain rfl : k = (key, m.messageId) := Prod.ext hk hid
        exact hfirst (present_hold s key m)
      · exact hrest (.inr ⟨hk, hid⟩)

lemma holdAll_held (key : ThreadKey) (s : WatchState) (messages : List WakeMessage) (k : MessageKey) (hk : k.1 = key)
    (h : k.2 ∈ messages.map (·.messageId) ∨ k.2 ∈ (s.held key).map (·.messageId)) :
    k.2 ∈ ((s.holdAll key messages).1.held key).map (·.messageId) ∨ k ∈ (s.holdAll key messages).2 := by
  induction messages generalizing s with
  | nil => exact .inl (h.resolve_left (by simp))
  | cons m messages ih =>
    have hrest (h : k.2 ∈ messages.map (·.messageId) ∨ k.2 ∈ ((s.hold key m).held key).map (·.messageId)) :
        k.2 ∈ ((s.holdAll key (m :: messages)).1.held key).map (·.messageId) ∨
          k ∈ (s.holdAll key (m :: messages)).2 :=
      (ih _ h).imp id (List.mem_append_right _)
    have hfirst (h : k.2 ∈ (s.held k.1).map (·.messageId) ∨ k = (key, m.messageId)) :
        k.2 ∈ ((s.holdAll key (m :: messages)).1.held key).map (·.messageId) ∨
          k ∈ (s.holdAll key (m :: messages)).2 := by
      rcases hold_held s key m k h with h | h
      · exact hrest (.inr (hk ▸ h))
      · exact .inr (List.mem_append_left _ h)
    rcases h with h | h
    · rw [List.map_cons, List.mem_cons] at h
      rcases h with h | h
      · exact hfirst (.inr (Prod.ext hk h))
      · exact hrest (.inl h)
    · exact hfirst (.inl (hk ▸ h))

lemma settle_held (s : WatchState) (key : ThreadKey) (ids approved : List String) :
    (s.settle key ids approved).held = s.held := by
  unfold WatchState.settle
  split <;> rfl

/-- What is settled leaves the pending wake of its thread, and nothing else does. -/
lemma settle_pending (s : WatchState) (key : ThreadKey) (ids approved : List String) (k : MessageKey)
    (h : s.Pending k) (hk : k.1 = key → k.2 ∉ ids) : (s.settle key ids approved).Pending k := by
  obtain ⟨entry, hp, hid⟩ := h
  unfold WatchState.Pending WatchState.settle
  split
  · exact ⟨entry, hp, hid⟩
  · rename_i old hold
    by_cases heq : k.1 = key
    · rw [heq, hold] at hp
      cases hp
      obtain ⟨m, hm, hid'⟩ := List.mem_map.mp hid
      have hmem : m ∈ entry.messages.filter fun m => !ids.contains m.messageId := by
        refine List.mem_filter.mpr ⟨hm, ?_⟩
        simpa [hid'] using hk heq
      simp only [heq, Function.update_self]
      rw [if_neg]
      · exact ⟨_, rfl, List.mem_map.mpr ⟨m, hmem, hid'⟩⟩
      · simp only [Bool.and_eq_true, List.isEmpty_iff, not_and]
        intro hnil
        rw [hnil] at hmem
        cases hmem
    · simp only [Function.update_of_ne heq]
      exact ⟨entry, hp, hid⟩

lemma WatchState.Present.settle (h : s.Present k) (key : ThreadKey) (ids approved : List String) :
    (s.settle key ids approved).Present k ∨ k.1 = key ∧ k.2 ∈ ids := by
  by_cases hk : k.1 = key ∧ k.2 ∈ ids
  · exact .inr hk
  · left
    rcases h with h | h
    · exact .inl (settle_pending s key ids approved k h fun h₁ h₂ => hk ⟨h₁, h₂⟩)
    · right
      rwa [settle_held]

lemma foldl_addMessage (s : WatchState) (key : ThreadKey) (at_ : ℕ) (messages : List WakeMessage) (k : MessageKey)
    (h : s.Pending k ∨ k.1 = key ∧ k.2 ∈ messages.map (·.messageId)) :
    (messages.foldl (fun s m => s.addMessage key at_ m) s).Pending k := by
  induction messages generalizing s with
  | nil => exact h.resolve_right (by simp)
  | cons m messages ih =>
    apply ih
    rcases h with h | ⟨hk, hid⟩
    · exact .inl (h.addMessage key at_ m)
    · rw [List.map_cons, List.mem_cons] at hid
      rcases hid with hid | hid
      · obtain rfl : k = (key, m.messageId) := Prod.ext hk hid
        exact .inl (pending_addMessage s key at_ m)
      · exact .inr ⟨hk, hid⟩

/-- The backlog of a thread that is resumed is pending. -/
lemma resume_pending (at_ : ℕ) (s : WatchState) (key : ThreadKey)
    (h : s.Pending k ∨ k.1 = key ∧ k.2 ∈ (s.held key).map (·.messageId)) : (s.resume at_ key).Pending k := by
  unfold WatchState.Pending WatchState.resume
  cases he : (s.held key).isEmpty with
  | true =>
    have h : s.Pending k := by
      refine h.resolve_right ?_
      rw [List.isEmpty_iff.mp he]
      simp
    exact h
  | false =>
    obtain ⟨entry, hentry, hid⟩ := foldl_addMessage s key at_ (s.held key) k h
    simp only [Bool.false_eq_true, if_false, Function.update_apply]
    split
    · rename_i hk
      rw [← hk] at hentry ⊢
      rw [hentry]
      exact ⟨_, rfl, hid⟩
    · exact ⟨entry, hentry, hid⟩

lemma resume_held (at_ : ℕ) (s : WatchState) (key : ThreadKey) :
    (s.resume at_ key).held = Function.update s.held key [] := rfl

lemma resume_present (at_ : ℕ) (s : WatchState) (key : ThreadKey) (h : s.Present k) :
    (s.resume at_ key).Present k := by
  rcases h with h | h
  · exact .inl (resume_pending at_ s key (.inl h))
  · by_cases hk : k.1 = key
    · exact .inl (resume_pending at_ s key (.inr ⟨hk, hk ▸ h⟩))
    · right
      rwa [resume_held, Function.update_of_ne hk]

lemma resumeAll_present (at_ : ℕ) (s : WatchState) (resumed : List ThreadKey) (h : s.Present k) :
    (resumed.foldl (WatchState.resume at_) s).Present k := by
  induction resumed generalizing s with
  | nil => exact h
  | cons key resumed ih => exact ih _ (resume_present at_ s key h)

lemma resumeAll_held (at_ : ℕ) (s : WatchState) (resumed : List ThreadKey) (key : ThreadKey) :
    (resumed.foldl (WatchState.resume at_) s).held key = if key ∈ resumed then [] else s.held key := by
  induction resumed generalizing s with
  | nil => simp
  | cons k resumed ih =>
    rw [List.foldl_cons, ih, resume_held, Function.update_apply]
    by_cases h₁ : key ∈ resumed <;> by_cases h₂ : key = k <;> simp [h₁, h₂]

lemma addApproval_present (at_ : ℕ) (s : WatchState) (wake : ThreadKey × WakeApproval) (h : s.Present k) :
    (s.addApproval at_ wake).Present k := by
  rcases h with ⟨entry, hp, hid⟩ | h
  · left
    unfold WatchState.Pending WatchState.addApproval
    simp only [Function.update_apply]
    split
    · rename_i hk
      rw [hk] at hp
      exact ⟨_, rfl, by rw [hp]; exact hid⟩
    · exact ⟨entry, hp, hid⟩
  · exact .inr h

lemma addApprovals_present (at_ : ℕ) (s : WatchState) (wakes : List (ThreadKey × WakeApproval)) (h : s.Present k) :
    (wakes.foldl (WatchState.addApproval at_) s).Present k := by
  induction wakes generalizing s with
  | nil => exact h
  | cons wake wakes ih => exact ih _ (addApproval_present at_ s wake h)

lemma woke_fields (paused : List ThreadKey) (now : ℕ) (s : WatchState) (key : ThreadKey) (woken approved : List String) :
    ((Mutation.woke key woken approved).apply paused now s).1.pending = (s.settle key woken approved).pending ∧
      ((Mutation.woke key woken approved).apply paused now s).1.held = (s.settle key woken approved).held ∧
        ((Mutation.woke key woken approved).apply paused now s).1.paused = (s.settle key woken approved).paused := by
  simp only [Mutation.apply, and_self]

/-- A message that a mutation gives up is pushed out of a backlog, or was woken. -/
lemma apply_present (paused : List ThreadKey) (now : ℕ) (m : Mutation) (h : s.Present k) : (m.apply paused now s).1.Present k ∨
    k ∈ (m.apply paused now s).2 ∨ ∃ key woken approved, m = .woke key woken approved ∧ k.2 ∈ woken := by
  cases m with
  | deliver items at_ => exact (deliver_present paused s at_ items k (.inl h)).imp id .inl
  | approvals handled wakes at_ =>
    refine .inl (addApprovals_present at_ _ wakes ?_)
    exact (present_congr rfl rfl).mpr h
  | hold key messages =>
    rcases holdAll_present key s messages k (.inl h) with hp | hout
    · rcases hp.settle key (messages.map (·.messageId)) [] with hp | ⟨hk, hid⟩
      · exact .inl hp
      · rcases holdAll_held key s messages k hk (.inl hid) with hheld | hout
        · left
          right
          simp only [Mutation.apply]
          rwa [settle_held, hk]
        · exact .inr (.inl hout)
    · exact .inr (.inl hout)
  | count key carries =>
    left
    simp only [Mutation.apply]
    split
    · exact (present_congr rfl rfl).mpr h
    · exact h
  | backOff key a c => exact .inl ((present_congr rfl rfl).mpr h)
  | woke key woken approved =>
    obtain ⟨hpending, hheld, -⟩ := woke_fields paused now s key woken approved
    rcases h.settle key woken approved with hp | ⟨-, hid⟩
    · exact .inl ((present_congr hpending hheld).mpr hp)
    · exact .inr (.inr ⟨key, woken, approved, rfl, hid⟩)
  | recordPause key => exact .inl ((present_congr rfl rfl).mpr h)
  | resync resumed added at_ =>
    left
    have hp := resumeAll_present at_ s resumed h
    simp only [Mutation.apply, WatchState.resync]
    exact hp
  | prune => exact .inl ((present_congr rfl rfl).mpr h)
  | other => exact .inl h

/-- A thread with held messages is recorded as paused. -/
def WatchState.Recorded (s : WatchState) : Prop := ∀ key, s.held key ≠ [] → key ∈ s.paused

/-- No pending wake has a message twice. -/
def WatchState.Once (s : WatchState) : Prop :=
  ∀ key entry, s.pending key = some entry → (entry.messages.map (·.messageId)).Nodup

/-- What a mutation holds belongs to threads that are recorded as paused. -/
def Mutation.HoldsRecorded (paused : List ThreadKey) (s : WatchState) : Mutation → Prop
  | .deliver items _ => ∀ item ∈ items, item.Waking → item.key ∈ paused → item.key ∈ s.paused
  | .hold key messages => messages ≠ [] → key ∈ s.paused
  | _ => True

lemma hold_recorded (h : s.Recorded) (hk : key ∈ s.paused) (m : WakeMessage) :
    (s.hold key m).Recorded ∧ (s.hold key m).paused = s.paused := by
  unfold WatchState.hold
  split
  · exact ⟨h, rfl⟩
  · refine ⟨fun k hne => ?_, rfl⟩
    by_cases heq : k = key
    · exact heq ▸ hk
    · simp only [Function.update_of_ne heq] at hne
      exact h k hne

lemma addMessage_paused (s : WatchState) (key : ThreadKey) (at_ : ℕ) (m : WakeMessage) :
    (s.addMessage key at_ m).paused = s.paused := by
  unfold WatchState.addMessage
  simp only
  split <;> rfl

lemma recorded_congr (hh : s'.held = s.held) (hp : s'.paused = s.paused) (h : s.Recorded) : s'.Recorded := by
  intro key hne
  rw [hp]
  exact h key (hh ▸ hne)

lemma deliverOne_recorded (h : s.Recorded) (at_ : ℕ) (item : Delivered)
    (hi : item.Waking → item.key ∈ paused → item.key ∈ s.paused) :
    (s.deliverOne paused at_ item).1.Recorded ∧ (s.deliverOne paused at_ item).1.paused = s.paused := by
  unfold WatchState.deliverOne
  split
  · exact ⟨h, rfl⟩
  · rename_i intent hintent
    simp only
    split
    · exact ⟨h, rfl⟩
    · rename_i hskip
      split
      · rename_i hk
        refine hold_recorded h (hi ⟨intent, ?_, hintent⟩ hk) _
        simp only [Bool.or_eq_true, Bool.not_eq_true', List.contains_eq_mem, decide_eq_false_iff_not,
          decide_eq_true_eq, not_or, not_not] at hskip
        exact hskip.1
      · exact ⟨recorded_congr (addMessage_held ..) (addMessage_paused ..) h, addMessage_paused ..⟩

lemma deliver_recorded (h : s.Recorded) (at_ : ℕ) (items : List Delivered)
    (hi : ∀ item ∈ items, item.Waking → item.key ∈ paused → item.key ∈ s.paused) :
    (s.deliver paused at_ items).1.Recorded := by
  induction items generalizing s with
  | nil => exact h
  | cons item items ih =>
    obtain ⟨hr, hp⟩ := deliverOne_recorded h at_ item (hi item List.mem_cons_self)
    apply ih hr
    intro item' hmem
    rw [hp]
    exact hi item' (List.mem_cons_of_mem _ hmem)

lemma holdAll_recorded (h : s.Recorded) (messages : List WakeMessage) (hk : messages ≠ [] → key ∈ s.paused) :
    (s.holdAll key messages).1.Recorded := by
  induction messages generalizing s with
  | nil => exact h
  | cons m messages ih =>
    obtain ⟨hr, hp⟩ := hold_recorded h (hk nofun) m
    apply ih hr
    rw [hp]
    exact fun _ => hk nofun

lemma settle_paused (s : WatchState) (key : ThreadKey) (ids approved : List String) :
    (s.settle key ids approved).paused = s.paused := by
  unfold WatchState.settle
  split <;> rfl

lemma addApprovals_held (at_ : ℕ) (s : WatchState) (wakes : List (ThreadKey × WakeApproval)) :
    (wakes.foldl (WatchState.addApproval at_) s).held = s.held ∧
      (wakes.foldl (WatchState.addApproval at_) s).paused = s.paused := by
  induction wakes generalizing s with
  | nil => exact ⟨rfl, rfl⟩
  | cons wake wakes ih => exact ih _

lemma resumeAll_paused (at_ : ℕ) (s : WatchState) (resumed : List ThreadKey) :
    (resumed.foldl (WatchState.resume at_) s).paused = s.paused := by
  induction resumed generalizing s with
  | nil => rfl
  | cons key resumed ih => exact ih _

lemma apply_recorded (m : Mutation) (h : s.Recorded) (hm : m.HoldsRecorded paused s) :
    (m.apply paused now s).1.Recorded := by
  cases m with
  | deliver items at_ => exact deliver_recorded h at_ items hm
  | approvals handled wakes at_ =>
    obtain ⟨hh, hp⟩ := addApprovals_held at_ { s with
      approvalsSeen := s.approvalsSeen ++ handled.filter fun id => !s.approvalsSeen.contains id } wakes
    exact recorded_congr hh hp h
  | hold key messages =>
    exact recorded_congr (settle_held ..) (settle_paused ..) (holdAll_recorded h messages hm)
  | count key carries =>
    simp only [Mutation.apply]
    split
    · exact recorded_congr rfl rfl h
    · exact h
  | backOff key a c => exact recorded_congr rfl rfl h
  | woke key woken approved =>
    obtain ⟨-, hheld, hpaused⟩ := woke_fields paused now s key woken approved
    exact recorded_congr (hheld.trans (settle_held ..)) (hpaused.trans (settle_paused ..)) h
  | recordPause key =>
    intro k hk
    simp only [Mutation.apply]
    split
    · exact h k hk
    · exact List.mem_append_left _ (h k hk)
  | resync resumed added at_ =>
    intro k hk
    simp only [Mutation.apply, WatchState.resync, resumeAll_held, resumeAll_paused] at hk ⊢
    split at hk
    · exact absurd rfl hk
    · rename_i hr
      exact List.mem_append_left _ (List.mem_filter.mpr ⟨h k hk, by simpa using hr⟩)
  | prune => exact recorded_congr rfl rfl h
  | other => exact h

lemma addMessage_once (h : s.Once) (key : ThreadKey) (at_ : ℕ) (m : WakeMessage) : (s.addMessage key at_ m).Once := by
  have hentry : (((s.pending key).getD ⟨[], [], at_, at_⟩).messages.map (·.messageId)).Nodup := by
    cases hp : s.pending key with
    | none => simp
    | some entry => exact h key entry hp
  intro k entry hk
  unfold WatchState.addMessage at hk
  simp only at hk
  split at hk
  · simp only [Function.update_apply] at hk
    split at hk
    · cases hk
      exact hentry
    · exact h k entry hk
  · rename_i hnew
    simp only [Function.update_apply] at hk
    split at hk
    · cases hk
      rw [List.map_append, List.nodup_append]
      refine ⟨hentry, List.nodup_singleton _, ?_⟩
      intro id hid id' hid'
      rw [List.map_singleton, List.mem_singleton] at hid'
      rintro rfl
      exact hnew (hasMessage_iff.mpr (hid' ▸ hid))
    · exact h k entry hk

lemma once_congr (hp : s'.pending = s.pending) (h : s.Once) : s'.Once := fun key entry hk => h key entry (hp ▸ hk)

lemma deliverOne_once (h : s.Once) (at_ : ℕ) (item : Delivered) : (s.deliverOne paused at_ item).1.Once := by
  unfold WatchState.deliverOne
  split
  · exact h
  · simp only
    split
    · exact h
    · split
      · exact once_congr (hold_pending ..) h
      · exact addMessage_once h item.key at_ _

lemma deliver_once (h : s.Once) (at_ : ℕ) (items : List Delivered) : (s.deliver paused at_ items).1.Once := by
  induction items generalizing s with
  | nil => exact h
  | cons item items ih => exact ih (deliverOne_once h at_ item)

lemma holdAll_pending (s : WatchState) (messages : List WakeMessage) :
    (s.holdAll key messages).1.pending = s.pending := by
  induction messages generalizing s with
  | nil => rfl
  | cons m messages ih => exact (ih _).trans (hold_pending s key m)

lemma settle_once (h : s.Once) (key : ThreadKey) (ids approved : List String) : (s.settle key ids approved).Once := by
  unfold WatchState.settle
  split
  · exact h
  · rename_i old hold
    intro k entry hk
    simp only [Function.update_apply] at hk
    split at hk
    · rw [Option.ite_none_left_eq_some] at hk
      obtain ⟨-, hk⟩ := hk
      cases hk
      exact (h key old hold).sublist (List.filter_sublist.map _)
    · exact h k entry hk

lemma addApproval_once (h : s.Once) (at_ : ℕ) (wake : ThreadKey × WakeApproval) : (s.addApproval at_ wake).Once := by
  intro k entry hk
  simp only [WatchState.addApproval, Function.update_apply] at hk
  split at hk
  · cases hk
    cases hp : s.pending wake.1 with
    | none => simp
    | some old => simpa [hp] using h wake.1 old hp
  · exact h k entry hk

lemma addApprovals_once (h : s.Once) (at_ : ℕ) (wakes : List (ThreadKey × WakeApproval)) :
    (wakes.foldl (WatchState.addApproval at_) s).Once := by
  induction wakes generalizing s with
  | nil => exact h
  | cons wake wakes ih => exact ih (addApproval_once h at_ wake)

lemma foldl_addMessage_once (h : s.Once) (key : ThreadKey) (at_ : ℕ) (messages : List WakeMessage) :
    (messages.foldl (fun s m => s.addMessage key at_ m) s).Once := by
  induction messages generalizing s with
  | nil => exact h
  | cons m messages ih => exact ih (addMessage_once h key at_ m)

lemma resume_once (h : s.Once) (at_ : ℕ) (key : ThreadKey) : (s.resume at_ key).Once := by
  have hfold := foldl_addMessage_once h key at_ (s.held key)
  intro k entry hk
  simp only [WatchState.resume] at hk
  split at hk
  · exact h k entry hk
  · simp only [Function.update_apply] at hk
    split at hk
    · obtain ⟨old, hold, rfl⟩ := Option.map_eq_some_iff.mp hk
      exact hfold key old hold
    · exact hfold k entry hk

lemma resumeAll_once (h : s.Once) (at_ : ℕ) (resumed : List ThreadKey) :
    (resumed.foldl (WatchState.resume at_) s).Once := by
  induction resumed generalizing s with
  | nil => exact h
  | cons key resumed ih => exact ih (resume_once h at_ key)

lemma apply_once (paused : List ThreadKey) (now : ℕ) (m : Mutation) (h : s.Once) : (m.apply paused now s).1.Once := by
  cases m with
  | deliver items at_ => exact deliver_once h at_ items
  | approvals handled wakes at_ =>
    apply addApprovals_once
    exact once_congr rfl h
  | hold key messages => exact settle_once (once_congr (holdAll_pending ..) h) key _ _
  | count key carries =>
    simp only [Mutation.apply]
    split
    · exact once_congr rfl h
    · exact h
  | backOff key a c => exact once_congr rfl h
  | woke key woken approved =>
    obtain ⟨hpending, -, -⟩ := woke_fields paused now s key woken approved
    exact once_congr hpending (settle_once h key woken approved)
  | recordPause key => exact once_congr rfl h
  | resync resumed added at_ =>
    simp only [Mutation.apply, WatchState.resync]
    exact once_congr rfl (resumeAll_once h at_ resumed)
  | prune => exact once_congr rfl h
  | other => exact h

lemma deliver_woken (s : WatchState) (at_ : ℕ) (items : List Delivered) :
    (s.deliver paused at_ items).1.woken = s.woken := by
  induction items generalizing s with
  | nil => rfl
  | cons item items ih => exact (ih _).trans (deliverOne_woken s at_ item)

lemma holdAll_woken (key : ThreadKey) (s : WatchState) (messages : List WakeMessage) :
    (s.holdAll key messages).1.woken = s.woken := by
  induction messages generalizing s with
  | nil => rfl
  | cons m messages ih =>
    refine (ih _).trans ?_
    unfold WatchState.hold
    split <;> rfl

lemma settle_woken (s : WatchState) (key : ThreadKey) (ids approved : List String) :
    (s.settle key ids approved).woken = s.woken := by
  unfold WatchState.settle
  split <;> rfl

lemma addApprovals_woken (at_ : ℕ) (s : WatchState) (wakes : List (ThreadKey × WakeApproval)) :
    (wakes.foldl (WatchState.addApproval at_) s).woken = s.woken := by
  induction wakes generalizing s with
  | nil => rfl
  | cons wake wakes ih => exact ih _

lemma resumeAll_woken (at_ : ℕ) (s : WatchState) (resumed : List ThreadKey) :
    (resumed.foldl (WatchState.resume at_) s).woken = s.woken := by
  induction resumed generalizing s with
  | nil => rfl
  | cons key resumed ih => exact ih _

lemma apply_woken (m : Mutation) {id : String} (h : id ∈ (m.apply paused now s).1.woken) :
    id ∈ s.woken ∨ ∃ key woken approved, m = .woke key woken approved ∧ id ∈ woken := by
  cases m with
  | deliver items at_ => exact .inl (deliver_woken s at_ items ▸ h)
  | approvals handled wakes at_ =>
    simp only [Mutation.apply, addApprovals_woken] at h
    exact .inl h
  | hold key messages => exact .inl (holdAll_woken key s messages ▸ (settle_woken ..).symm ▸ h)
  | count key carries =>
    left
    simp only [Mutation.apply] at h
    split at h
    · exact h
    · exact h
  | backOff key a c => exact .inl h
  | woke key woken approved =>
    simp only [Mutation.apply, lastOf, settle_woken] at h
    exact (List.mem_append.mp (List.mem_of_mem_drop h)).imp (fun h => h) fun h => ⟨key, woken, approved, rfl, h⟩
  | recordPause key => exact .inl h
  | resync resumed added at_ =>
    simp only [Mutation.apply, WatchState.resync, resumeAll_woken] at h
    exact .inl h
  | prune => exact .inl h
  | other => exact .inl h

end State

section Kept

def WokenIn (log : List WatchEvent) (id : String) : Prop := ∃ key s, .woke key s ∈ log ∧ id ∈ s.woken

/-- The message is pending, held or woken, or was dropped by the limit of its backlog. -/
def Accounted (log : List WatchEvent) (s : WatchState) (k : MessageKey) : Prop :=
  s.Present k ∨ WokenIn log k.2 ∨ .dropped k ∈ log

structure StateKept (log : List WatchEvent) (s : WatchState) : Prop where
  recorded : s.Recorded
  once : s.Once
  woken : ∀ id ∈ s.woken, WokenIn log id

/-- What a queued job may rely on. -/
structure JobLogged (log : List WatchEvent) (j : Job) : Prop where
  receipts : ∀ items, j.owner = .receipts items → ∃ at_, j.mutation = .deliver items at_
  woke : ∀ key woken approved, j.mutation = .woke key woken approved → ∀ id ∈ woken, WokenIn log id

def Job.delivers (j : Job) (item : Delivered) : Prop := ∃ items at_, j.mutation = .deliver items at_ ∧ item ∈ items

/-- The receipt of the message is committed, or a write that counts it is acknowledged. -/
def Due (b : WatchWorld) (W : Watcher) (item : Delivered) : Prop :=
  item ∈ b.store.receipts ∨ (∃ items ∈ W.committing, item ∈ items) ∨
    ∃ j ∈ W.stateQueue, (∃ at_ etag, j.phase = .sent at_ (.ok etag)) ∧ j.delivers item

def WatchWorld.stored (b : WatchWorld) : WatchState := (b.store.watch.map Prod.fst).getD emptyWatchState

structure RunHeld (b : WatchWorld) (W : Watcher) : Prop where
  state : StateKept b.log W.state
  tail : ∀ j ∈ W.stateQueue.tail, j.phase = .queued
  jobs : ∀ j ∈ W.stateQueue, JobLogged b.log j
  applied : ∀ j ∈ W.stateQueue, j.phase ≠ .queued → ∀ item, j.delivers item → item.Waking →
    Accounted b.log W.state item.messageKey
  due : ∀ item, Due b W item → item.Waking →
    Accounted b.log W.state item.messageKey ∧ Accounted b.log b.stored item.messageKey

structure HeldKept (b : WatchWorld) : Prop where
  runs : ∀ w W, b.runs w = some W → RunHeld b W
  sole : ∀ w w' W W', b.runs w = some W → b.runs w' = some W' → w = w'
  stored : StateKept b.log b.stored
  receipts : ∀ item ∈ b.store.receipts, item.Waking → Accounted b.log b.stored item.messageKey

/-- One watcher at a time. -/
def Sole (b : WatchWorld) : WatchAction → Prop
  | .start _ _ _ => ∀ w, b.runs w = none
  | _ => True

/-- Messages are held for threads that are recorded as paused. -/
def HoldsPaused (b : WatchWorld) : WatchAction → Prop
  | .run w => ∀ W m owner rest, b.runs w = some W → W.stateQueue = ⟨m, owner, .queued⟩ :: rest →
    m.HoldsRecorded W.pausedKeys W.state
  | _ => True

variable {b b' : WatchWorld} {w : ℕ} {W W' : Watcher} {key : ThreadKey} {log log' : List WatchEvent}
  {s s' : WatchState} {k : MessageKey}

lemma WokenIn.mono {id : String} (h : WokenIn log id) (hl : ∀ e ∈ log, e ∈ log') : WokenIn log' id := by
  obtain ⟨key, s, he, hid⟩ := h
  exact ⟨key, s, hl _ he, hid⟩

lemma Accounted.mono (h : Accounted log s k) (hl : ∀ e ∈ log, e ∈ log') : Accounted log' s k :=
  h.imp id (Or.imp (fun h => h.mono hl) (hl _))

lemma StateKept.mono (h : StateKept log s) (hl : ∀ e ∈ log, e ∈ log') : StateKept log' s :=
  ⟨h.recorded, h.once, fun id hid => (h.woken id hid).mono hl⟩

lemma JobLogged.mono {j : Job} (h : JobLogged log j) (hl : ∀ e ∈ log, e ∈ log') : JobLogged log' j :=
  ⟨h.receipts, fun key woken approved hm id hid => (h.woke key woken approved hm id hid).mono hl⟩

/-- A watcher whose copy, queue front and commits stay; jobs may be appended. -/
lemma RunHeld.grow (h : RunHeld b W) (hs : W'.state = W.state) (hc : W'.committing = W.committing)
    {jobs : List Job} (hq : W'.stateQueue = W.stateQueue ++ jobs)
    (hjobs : ∀ j ∈ jobs, j.phase = .queued ∧ JobLogged b'.log j) (hl : ∀ e ∈ b.log, e ∈ b'.log)
    (hstored : b'.stored = b.stored) (hr : b'.store.receipts = b.store.receipts) : RunHeld b' W' := by
  have hnot {j : Job} (hj : j ∈ W'.stateQueue) (hp : j.phase ≠ .queued) : j ∈ W.stateQueue := by
    rw [hq] at hj
    exact (List.mem_append.mp hj).resolve_right fun hj => hp (hjobs j hj).1
  refine ⟨?_, ?_, ?_, ?_, ?_⟩
  · rw [hs]
    exact h.state.mono hl
  · intro j hj
    rw [hq] at hj
    cases hW : W.stateQueue with
    | nil =>
      rw [hW, List.nil_append] at hj
      exact (hjobs j (List.mem_of_mem_tail hj)).1
    | cons j' rest =>
      rw [hW, List.cons_append, List.tail_cons] at hj
      rcases List.mem_append.mp hj with hj | hj
      · exact h.tail j (by rwa [hW])
      · exact (hjobs j hj).1
  · intro j hj
    rw [hq] at hj
    rcases List.mem_append.mp hj with hj | hj
    · exact (h.jobs j hj).mono hl
    · exact (hjobs j hj).2
  · intro j hj hp item hi hw
    rw [hs]
    exact (h.applied j (hnot hj hp) hp item hi hw).mono hl
  · intro item hd hw
    have hd : Due b W item := by
      rcases hd with hd | hd | ⟨j, hj, hp, hi⟩
      · exact .inl (hr ▸ hd)
      · exact .inr (.inl (hc ▸ hd))
      · refine .inr (.inr ⟨j, hnot hj ?_, hp, hi⟩)
        obtain ⟨at_, etag, hp⟩ := hp
        rw [hp]
        nofun
    obtain ⟨h₁, h₂⟩ := h.due item hd hw
    rw [hs, hstored]
    exact ⟨h₁.mono hl, h₂.mono hl⟩

lemma HeldKept.mono (h : HeldKept b) {R : Option Watcher} (hR : b'.runs = Function.update b.runs w R)
    (hW : ∀ W', R = some W' → (∃ W, b.runs w = some W) ∧ RunHeld b' W') (hl : ∀ e ∈ b.log, e ∈ b'.log)
    (hstored : b'.stored = b.stored) (hr : b'.store.receipts = b.store.receipts) : HeldKept b' := by
  have hcases {w' : ℕ} {X : Watcher} (hX : b'.runs w' = some X) :
      w' = w ∧ R = some X ∨ w' ≠ w ∧ b.runs w' = some X := by
    rw [hR, Function.update_apply] at hX
    split at hX
    · exact .inl ⟨by assumption, hX⟩
    · exact .inr ⟨by assumption, hX⟩
  have hlive {w' : ℕ} {X : Watcher} (hX : b'.runs w' = some X) : ∃ Y, b.runs w' = some Y := by
    rcases hcases hX with ⟨rfl, hX⟩ | ⟨-, hX⟩
    · exact (hW X hX).1
    · exact ⟨X, hX⟩
  refine ⟨?_, ?_, ?_, ?_⟩
  · intro w' X hX
    rcases hcases hX with ⟨-, hX⟩ | ⟨-, hX⟩
    · exact (hW X hX).2
    · exact (h.runs w' X hX).grow rfl rfl (List.append_nil _).symm (List.forall_mem_nil _) hl hstored hr
  · intro w₁ w₂ X₁ X₂ h₁ h₂
    obtain ⟨Y₁, h₁⟩ := hlive h₁
    obtain ⟨Y₂, h₂⟩ := hlive h₂
    exact h.sole _ _ _ _ h₁ h₂
  · rw [hstored]
    exact h.stored.mono hl
  · intro item hi hw
    rw [hstored]
    exact (h.receipts item (hr ▸ hi) hw).mono hl

lemma stored_congr (h : b'.store.watch = b.store.watch) : b'.stored = b.stored := by
  rw [WatchWorld.stored, WatchWorld.stored, h]

/-- Steps of a watcher that only append jobs. -/
lemma HeldKept.grow (h : HeldKept b) (hW : b.runs w = some W) (hs : W'.state = W.state)
    (hc : W'.committing = W.committing) {jobs : List Job} (hq : W'.stateQueue = W.stateQueue ++ jobs)
    {store : WatchStore} {events : List WatchEvent}
    (hjobs : ∀ j ∈ jobs, j.phase = .queued ∧ JobLogged (events ++ b.log) j)
    (hwatch : store.watch = b.store.watch) (hr : store.receipts = b.store.receipts) :
    HeldKept { b with
      store
      runs := Function.update b.runs w (some W')
      log := events ++ b.log } := by
  have hl (e : WatchEvent) (he : e ∈ b.log) : e ∈ events ++ b.log := List.mem_append_right _ he
  refine h.mono rfl ?_ hl (stored_congr hwatch) hr
  rintro _ ⟨⟩
  exact ⟨⟨W, hW⟩, (h.runs w W hW).grow hs hc hq hjobs hl (stored_congr hwatch) hr⟩

lemma HeldKept.drift (h : HeldKept b) (hW : b.runs w = some W) (hd : Drift W W') {store : WatchStore}
    (hwatch : store.watch = b.store.watch) (hr : store.receipts = b.store.receipts) (events : List WatchEvent) :
    HeldKept { b with
      store
      runs := Function.update b.runs w (some W')
      log := events ++ b.log } := by
  obtain ⟨jobs, hq, hjobs⟩ := hd.queue
  refine h.grow hW hd.state hd.committing hq (fun j hj => ⟨(hjobs j hj).1, ?_⟩) hwatch hr
  obtain ⟨-, key, messages, hm, ho⟩ := hjobs j hj
  constructor
  · intro items hi
    rw [ho] at hi
    cases hi
  · intro key' woken approved hw
    rw [hm] at hw
    cases hw

lemma HeldKept.setWake (h : HeldKept b) (hW : b.runs w = some W) (task : Option WakeTask) {store : WatchStore}
    (hwatch : store.watch = b.store.watch) (hr : store.receipts = b.store.receipts) :
    HeldKept ({ b with store }.setRun w (some (W.setWake key task))) := by
  refine h.mono rfl ?_ (fun _ he => he) (stored_congr hwatch) hr
  rintro _ ⟨⟩
  have hq : (W.setWake key task).stateQueue = W.stateQueue ++ [] := (List.append_nil _).symm
  exact ⟨⟨W, hW⟩, (h.runs w W hW).grow rfl rfl hq (List.forall_mem_nil _) (fun _ he => he) (stored_congr hwatch) hr⟩

/-- Steps of a watcher that append a job which counts nothing. -/
lemma HeldKept.enqueue (h : HeldKept b) (hW : b.runs w = some W) {m : Mutation} {o : Owner}
    (events : List WatchEvent) (hs : W'.state = W.state) (hc : W'.committing = W.committing)
    (hq : W'.stateQueue = W.stateQueue ++ [⟨m, o, .queued⟩])
    (ho : ∀ items, o = .receipts items → ∃ at_, m = .deliver items at_)
    (hm : ∀ key woken approved, m = .woke key woken approved → ∀ id ∈ woken, WokenIn (events ++ b.log) id) :
    HeldKept { b with
      runs := Function.update b.runs w (some W')
      log := events ++ b.log } := by
  apply h.grow hW hs hc hq ?_ rfl rfl
  intro j hj
  rw [List.mem_singleton.mp hj]
  exact ⟨rfl, ho, hm⟩

lemma HeldKept.congr (h : HeldKept b) (hruns : b'.runs = b.runs) (hlog : b'.log = b.log)
    (hwatch : b'.store.watch = b.store.watch) (hr : b'.store.receipts = b.store.receipts) : HeldKept b' := by
  apply h.mono (w := b.nextRun) (R := b.runs b.nextRun) (by rw [hruns, Function.update_eq_self]) ?_
    (fun e he => hlog ▸ he) (stored_congr hwatch) hr
  intro W' hW'
  exact ⟨⟨W', hW'⟩, (h.runs _ W' hW').grow rfl rfl (List.append_nil _).symm (List.forall_mem_nil _) (fun e he => hlog ▸ he)
    (stored_congr hwatch) hr⟩

end Kept

section Steps

variable {opts : WatchOptions} {sentAt : String → Option ℕ} {b b' : WatchWorld} {w : ℕ} {W : Watcher}
  {key : ThreadKey}

lemma onRun_held (h : HeldKept b) {f : Watcher → Option Watcher} (hf : ∀ W W', f W = some W' → Drift W W')
    (hs : b.onRun w f = some b') : HeldKept b' := by
  obtain ⟨W, W', hW, he, rfl⟩ := onRun_eq_some hs
  exact h.drift hW (hf W W' he) rfl rfl []

lemma addMarker_receipts (store : WatchStore) (key : ThreadKey) :
    (store.addMarker key).receipts = store.receipts := by
  unfold WatchStore.addMarker
  split <;> rfl

lemma tickOne_held (h : HeldKept b) {force : Bool} (hs : b.tickOne opts w key force = some b') : HeldKept b' := by
  refine onRun_held h (fun W W' hf => ?_) hs
  split at hf
  · cases hf
  · rw [Option.ite_none_right_eq_some] at hf
    cases hf.2
    apply Drift.trans ?_ (.lock _ _)
    exact .move W key trivial

lemma listMarkers_held (h : HeldKept b) {fails : Bool} (hs : b.listMarkers opts w fails = some b') :
    HeldKept b' := by
  refine onRun_held h (fun W W' hf => ?_) hs
  split at hf
  · split at hf
    · cases hf
      exact .finishSync opts b.now W
    · cases hf
      exact .of_eq rfl rfl rfl rfl rfl rfl rfl rfl
  · cases hf

lemma applyListing_held (h : HeldKept b) (hs : b.applyListing opts w = some b') : HeldKept b' := by
  obtain ⟨W, hW, hf⟩ := Option.bind_eq_some_iff.mp hs
  split at hf
  · rename_i waiter listed rest hl
    simp only at hf
    split at hf
    · cases hf
      have hlisted : Drift W { W with pausedKeys := listed } := .of_eq rfl rfl rfl rfl rfl rfl rfl rfl
      exact h.drift hW (hlisted.trans (.finishSync opts b.now _)) rfl rfl []
    · cases hf
      exact h.enqueue hW _ rfl rfl rfl (by rintro _ ⟨⟩) (by rintro _ _ _ ⟨⟩)
  · cases hf

lemma noticeId_held (h : HeldKept b) {fails : Bool} (hs : b.noticeId w key fails = some b') : HeldKept b' := by
  obtain ⟨W, task, hW, ht, hf⟩ := onWake_eq_some hs
  split at hf
  · split at hf
    · cases hf
      exact h.setWake hW none rfl rfl
    · rename_i s _ _
      cases hf
      have hmove : Drift W (W.setWake key (some ⟨task.at_, .pausing s⟩)) := .move W key trivial
      exact h.drift hW (hmove.trans (.lock _ _)) rfl rfl []
  · cases hf

lemma writeMarker_held (h : HeldKept b) {answer : PutAnswer} (hs : b.writeMarker w answer = some b') :
    HeldKept b' := by
  obtain ⟨W, hW, hf⟩ := Option.bind_eq_some_iff.mp hs
  split at hf
  · rename_i k rest hl
    have hquiet (created : Option Bool) : Drift W { W with pausedLock := .wrote k created :: rest } :=
      .of_eq rfl rfl rfl rfl rfl rfl rfl rfl
    cases answer with
    | answered shown =>
      cases hf
      exact h.drift hW (hquiet _) (addMarker_watch _ k) (addMarker_receipts _ k) []
    | failed lands =>
      cases hf
      cases lands with
      | true => exact h.drift hW (hquiet _) (addMarker_watch _ k) (addMarker_receipts _ k) []
      | false => exact h.drift hW (hquiet _) rfl rfl []
  · cases hf

lemma wroteMarker_held (h : HeldKept b) (hs : b.wroteMarker w = some b') : HeldKept b' := by
  obtain ⟨W, W', hW, hf, rfl⟩ := onRun_eq_some hs
  split at hf
  · rename_i k created rest hl
    have hstart (keys : List ThreadKey) : Drift W { W with
        pausedKeys := keys
        pausedLock := rest } := .of_eq rfl rfl rfl rfl rfl rfl rfl rfl
    simp only at hf
    split at hf
    · split at hf
      · cases hf
        exact h.enqueue hW [] rfl rfl rfl (by rintro _ ⟨⟩) (by rintro _ _ _ ⟨⟩)
      · cases hf
        exact h.drift hW ((hstart _).trans (.checkPaused _ k _ _ _)) rfl rfl []
    · cases hf
      exact h.drift hW ((hstart _).trans (.drop _ k)) rfl rfl []
    · cases hf
      exact h.drift hW (hstart _) rfl rfl []
  · cases hf

lemma enqueue_held (h : HeldKept b) {m : Mutation} {o : Owner}
    (ho : ∀ items, o = .receipts items → ∃ at_, m = .deliver items at_)
    (hm : ∀ key woken approved, m ≠ .woke key woken approved) (hs : b.enqueue w m o = some b') : HeldKept b' := by
  obtain ⟨W, W', hW, hf, rfl⟩ := onRun_eq_some hs
  cases hf
  exact h.enqueue hW [] rfl rfl rfl ho fun key woken approved he => absurd he (hm key woken approved)

variable {m : Mutation} {owner : Owner} {at_ : ℕ} {rest : List Job} {result : WriteResult}

/-- Only the front of the queue is under way. -/
lemma RunHeld.front (h : RunHeld b W) {j : Job} (hq : W.stateQueue = j :: rest) {phase : JobPhase} {j' : Job}
    (hj : j' ∈ { j with phase } :: rest) (hp : j'.phase ≠ .queued) : j' = { j with phase } := by
  refine (List.mem_cons.mp hj).resolve_right fun hj => hp ?_
  apply h.tail
  rwa [hq]

lemma RunHeld.jobs_front (h : RunHeld b W) {j : Job} (hq : W.stateQueue = j :: rest) {phase : JobPhase}
    {log : List WatchEvent} (hl : ∀ e ∈ b.log, e ∈ log) (j' : Job) (hj : j' ∈ { j with phase } :: rest) :
    JobLogged log j' := by
  rcases List.mem_cons.mp hj with rfl | hj
  · have := h.jobs j (hq ▸ List.mem_cons_self)
    exact ⟨this.receipts, (this.mono hl).woke⟩
  · exact (h.jobs j' (hq ▸ List.mem_cons_of_mem _ hj)).mono hl

lemma runJob_held (h : HeldKept b) (hg : HoldsPaused b (.run w)) (hs : b.runJob w = some b') : HeldKept b' := by
  obtain ⟨W, hW, hf⟩ := Option.bind_eq_some_iff.mp hs
  split at hf
  · rename_i m owner rest hq
    cases hf
    have hr := h.runs w W hW
    have hjob := hr.jobs _ (hq ▸ List.mem_cons_self)
    have hl (e : WatchEvent) (he : e ∈ b.log) :
        e ∈ (m.apply W.pausedKeys b.now W.state).2.map WatchEvent.dropped ++ b.log := List.mem_append_right _ he
    have hkeep {k : MessageKey} (hk : Accounted b.log W.state k) :
        Accounted ((m.apply W.pausedKeys b.now W.state).2.map WatchEvent.dropped ++ b.log)
          (m.apply W.pausedKeys b.now W.state).1 k := by
      rcases hk with hk | hk
      · rcases apply_present W.pausedKeys b.now m hk with hp | hout | ⟨key, woken, approved, hm, hid⟩
        · exact .inl hp
        · exact .inr (.inr (List.mem_append_left _ (List.mem_map_of_mem hout)))
        · exact .inr (.inl ((hjob.woke key woken approved hm k.2 hid).mono hl))
      · exact .inr (hk.imp (fun h => h.mono hl) (hl _))
    refine h.mono rfl ?_ hl rfl rfl
    rintro _ ⟨⟩
    refine ⟨⟨W, hW⟩, ?_, ?_, ?_, ?_, ?_⟩
    · refine ⟨apply_recorded m hr.state.recorded (hg W m owner rest hW hq), apply_once _ _ m hr.state.once, ?_⟩
      intro id hid
      rcases apply_woken m hid with hid | ⟨key, woken, approved, hm, hid⟩
      · exact (hr.state.woken id hid).mono hl
      · exact (hjob.woke key woken approved hm id hid).mono hl
    · intro j hj
      exact hr.tail j (by rw [hq]; exact hj)
    · exact hr.jobs_front hq hl
    · intro j hj hp item hi hw
      obtain rfl := hr.front hq hj hp
      obtain ⟨items, at_, rfl, hmem⟩ := hi
      by_cases hwoken : item.messageId ∈ W.state.woken
      · exact .inr (.inl ((hr.state.woken _ hwoken).mono hl))
      · rcases deliver_present W.pausedKeys W.state at_ items item.messageKey
          (.inr ⟨item, hmem, hw, hwoken, rfl⟩) with hp | hout
        · exact .inl hp
        · exact .inr (.inr (List.mem_append_left _ (List.mem_map_of_mem hout)))
    · intro item hd hw
      have hd : Due b W item := by
        refine hd.imp id (Or.imp id ?_)
        rintro ⟨j, hj, ⟨at_, etag, hp⟩, hi⟩
        have := hr.front hq hj (by rw [hp]; nofun)
        rw [this] at hp
        cases hp
      obtain ⟨h₁, h₂⟩ := hr.due item hd hw
      exact ⟨hkeep h₁, h₂.mono hl⟩
  · cases hf

/-- The answer to a write is known, or its tag; the store holds what it held, or the copy. -/
lemma RunHeld.sent (h : RunHeld b W) (hq : W.stateQueue = ⟨m, owner, .ran at_⟩ :: rest) {W' : Watcher}
    (hs : W'.state = W.state) (hc : W'.committing = W.committing) {phase : JobPhase}
    (hq' : W'.stateQueue = ⟨m, owner, phase⟩ :: rest) (hl : ∀ e ∈ b.log, e ∈ b'.log)
    (hr : b'.store.receipts = b.store.receipts)
    (hstored : b'.stored = W.state ∨ b'.stored = b.stored ∧ ∀ at_ etag, phase ≠ .sent at_ (.ok etag)) :
    RunHeld b' W' := by
  have happlied (item : Delivered) (hi : (⟨m, owner, phase⟩ : Job).delivers item) (hw : item.Waking) :
      Accounted b'.log W.state item.messageKey :=
    (h.applied ⟨m, owner, .ran at_⟩ (hq ▸ List.mem_cons_self) nofun item hi hw).mono hl
  refine ⟨?_, ?_, ?_, ?_, ?_⟩
  · rw [hs]
    exact h.state.mono hl
  · intro j hj
    rw [hq'] at hj
    exact h.tail j (by rw [hq]; exact hj)
  · intro j hj
    rw [hq'] at hj
    exact h.jobs_front hq hl j hj
  · intro j hj hp item hi hw
    rw [hq'] at hj
    obtain rfl := h.front hq hj hp
    rw [hs]
    exact happlied item hi hw
  · intro item hd hw
    have hcase : Due b W item ∨ (⟨m, owner, phase⟩ : Job).delivers item ∧ ∃ at_ etag, phase = .sent at_ (.ok etag) := by
      rcases hd with hd | hd | ⟨j, hj, ⟨at', etag, hp⟩, hi⟩
      · exact .inl (.inl (hr ▸ hd))
      · exact .inl (.inr (.inl (hc ▸ hd)))
      · rw [hq'] at hj
        obtain rfl := h.front hq hj (by rw [hp]; nofun)
        exact .inr ⟨hi, at', etag, hp⟩
    have hcopy : Accounted b'.log W.state item.messageKey := by
      rcases hcase with hd | ⟨hi, -⟩
      · exact (h.due item hd hw).1.mono hl
      · exact happlied item hi hw
    rw [hs]
    refine ⟨hcopy, ?_⟩
    rcases hstored with hst | ⟨hst, hno⟩
    · rw [hst]
      exact hcopy
    · rw [hst]
      rcases hcase with hd | ⟨-, at', etag, hp⟩
      · exact (h.due item hd hw).2.mono hl
      · exact absurd hp (hno at' etag)

lemma fetchEtag_held (h : HeldKept b) {fails shown : Bool} (hs : b.fetchEtag w fails shown = some b') :
    HeldKept b' := by
  obtain ⟨W, W', hW, hf, rfl⟩ := onRun_eq_some hs
  split at hf
  · rename_i m owner at_ rest he hq
    split at hf
    · cases hf
      refine h.mono rfl ?_ (fun _ he => he) rfl rfl
      rintro _ ⟨⟩
      exact ⟨⟨W, hW⟩, (h.runs w W hW).sent hq rfl rfl rfl (fun _ he => he) rfl (.inr ⟨rfl, nofun⟩)⟩
    · cases hf
      refine h.mono rfl ?_ (fun _ he => he) rfl rfl
      rintro _ ⟨⟩
      exact ⟨⟨W, hW⟩, (h.runs w W hW).sent hq rfl rfl hq (fun _ he => he) rfl (.inr ⟨rfl, nofun⟩)⟩
  · cases hf

/-- A write takes effect. -/
lemma putState_lands (h : HeldKept b) (hW : b.runs w = some W) (hq : W.stateQueue = ⟨m, owner, .ran at_⟩ :: rest)
    (events : List WatchEvent) : HeldKept { b with
      store := b.store.putState W.state
      runs := Function.update b.runs w
        (some { W with stateQueue := ⟨m, owner, .sent at_ result⟩ :: rest })
      log := events ++ b.log } := by
  have hl (e : WatchEvent) (he : e ∈ b.log) : e ∈ events ++ b.log := List.mem_append_right _ he
  have hr := h.runs w W hW
  have hcases {w' : ℕ} {X : Watcher} (hX : Function.update b.runs w
      (some { W with stateQueue := ⟨m, owner, .sent at_ result⟩ :: rest }) w' = some X) :
      w' = w ∧ X = { W with stateQueue := ⟨m, owner, .sent at_ result⟩ :: rest } := by
    rw [Function.update_apply] at hX
    split at hX
    · exact ⟨by assumption, (Option.some.inj hX).symm⟩
    · rename_i hne
      exact absurd (h.sole _ _ _ _ hX hW) hne
  refine ⟨?_, ?_, hr.state.mono hl, ?_⟩
  · intro w' X hX
    obtain ⟨-, rfl⟩ := hcases hX
    exact hr.sent hq rfl rfl rfl hl rfl (.inl rfl)
  · intro w₁ w₂ X₁ X₂ h₁ h₂
    exact (hcases h₁).1.trans (hcases h₂).1.symm
  · intro item hi hw
    exact (hr.due item (.inl hi) hw).1.mono hl

lemma putState_held (h : HeldKept b) {answer : PutAnswer} (hs : b.putState w answer = some b') : HeldKept b' := by
  obtain ⟨W, hW, hf⟩ := Option.bind_eq_some_iff.mp hs
  split at hf
  · rename_i m owner at_ rest hq
    have hrefused (result : WriteResult) (hres : ∀ etag, result ≠ .ok etag) (events : List WatchEvent) :
        HeldKept { b with
          runs := Function.update b.runs w
            (some { W with stateQueue := ⟨m, owner, .sent at_ result⟩ :: rest })
          log := events ++ b.log } := by
      have hl (e : WatchEvent) (he : e ∈ b.log) : e ∈ events ++ b.log := List.mem_append_right _ he
      refine h.mono rfl ?_ hl rfl rfl
      rintro _ ⟨⟩
      refine ⟨⟨W, hW⟩, (h.runs w W hW).sent hq rfl rfl rfl hl rfl (.inr ⟨rfl, ?_⟩)⟩
      intro at' etag hp
      cases hp
      exact hres etag rfl
    simp only at hf
    split at hf
    · cases hf
    · cases answer with
      | answered shown =>
        simp only at hf
        split at hf
        · cases hf
          exact putState_lands h hW hq _
        · cases hf
          exact hrefused .conflict nofun _
      | failed lands =>
        cases hf
        split
        · exact putState_lands h hW hq []
        · exact hrefused .failed nofun []
  · cases hf

lemma acknowledge_fields (W : Watcher) (rest : List Job) (result : WriteResult) :
    (Watcher.acknowledge { W with stateQueue := rest } result).state = W.state ∧
      (Watcher.acknowledge { W with stateQueue := rest } result).stateQueue = rest ∧
        (Watcher.acknowledge { W with stateQueue := rest } result).committing = W.committing := by
  cases result <;> exact ⟨rfl, rfl, rfl⟩

/-- The answer is taken in; the receipts of messages that are written may be committed. -/
lemma RunHeld.popped (h : RunHeld b W) {j : Job} (hq : W.stateQueue = j :: rest) {W' : Watcher}
    (hs : W'.state = W.state) (hq' : W'.stateQueue = rest)
    (hc : ∀ items ∈ W'.committing, ∀ item ∈ items, Due b W item) : RunHeld b W' := by
  have hmem {j' : Job} (hj : j' ∈ rest) : j' ∈ W.stateQueue := hq ▸ List.mem_cons_of_mem _ hj
  refine ⟨hs ▸ h.state, ?_, ?_, ?_, ?_⟩
  · intro j' hj
    rw [hq'] at hj
    exact h.tail j' (by rw [hq]; exact List.mem_of_mem_tail hj)
  · intro j' hj
    exact h.jobs j' (hmem (hq' ▸ hj))
  · intro j' hj hp item hi hw
    rw [hs]
    exact h.applied j' (hmem (hq' ▸ hj)) hp item hi hw
  · intro item hd hw
    rw [hs]
    refine h.due item ?_ hw
    rcases hd with hd | ⟨items, hi, hmem'⟩ | ⟨j', hj, hp, hi⟩
    · exact .inl hd
    · exact hc items hi item hmem'
    · exact .inr (.inr ⟨j', hmem (hq' ▸ hj), hp, hi⟩)

lemma acknowledge_held (h : HeldKept b) (hs : b.acknowledge opts w = some b') : HeldKept b' := by
  obtain ⟨W, hW, hf⟩ := Option.bind_eq_some_iff.mp hs
  split at hf
  · rename_i m owner at_ result rest hq
    cases hf
    set T : Watcher := Watcher.acknowledge { W with stateQueue := rest } result with hT
    obtain ⟨hst, hqueue, hcom⟩ := acknowledge_fields W rest result
    have hr := h.runs w W hW
    have hcommit : ∀ items ∈ W.committing, ∀ item ∈ items, Due b W item :=
      fun items hi item hmem => .inr (.inl ⟨items, hi, hmem⟩)
    -- the receipts of a write that took effect are due already
    have hcontinue : RunHeld b (T.continue_ opts b.now owner (Watcher.isOk result)).1 := by
      have hpop : RunHeld b T := hr.popped hq hst hqueue (hcom ▸ hcommit)
      have hdrift {X : Watcher} (hd : Drift T X) : RunHeld b X := by
        obtain ⟨jobs, hq', hjobs⟩ := hd.queue
        refine hpop.grow hd.state hd.committing hq' (fun j hj => ⟨(hjobs j hj).1, ?_⟩) (fun _ he => he) rfl rfl
        obtain ⟨-, key, messages, hm, ho⟩ := hjobs j hj
        constructor
        · intro items hi
          rw [ho] at hi
          cases hi
        · intro key' woken approved hw
          rw [hm] at hw
          cases hw
      cases owner with
      | wake key =>
        rcases mutated_drift b.now T key (Watcher.isOk result) with hd | ⟨at', s, -, heq⟩
        · exact hdrift hd
        · simp only [Watcher.continue_, heq]
          exact hr.popped hq hst hqueue (hcom ▸ hcommit)
      | sync => exact hdrift (.finishSync opts b.now T)
      | receipts items =>
        obtain ⟨at', rfl⟩ := (hr.jobs _ (hq ▸ List.mem_cons_self)).receipts items rfl
        simp only [Watcher.continue_]
        cases result with
        | ok etag =>
          refine hr.popped hq hst hqueue ?_
          intro items' hi item hmem
          rcases List.mem_append.mp hi with hi | hi
          · exact hcommit items' (hcom ▸ hi) item hmem
          · rw [List.mem_singleton.mp hi] at hmem
            exact .inr (.inr ⟨_, hq ▸ List.mem_cons_self, ⟨at_, etag, rfl⟩, items, at', rfl, hmem⟩)
        | conflict => exact hpop
        | failed => exact hpop
      | nobody => exact hpop
    refine h.mono rfl ?_ (fun e he => List.mem_append_right _ he) rfl rfl
    rintro _ ⟨⟩
    exact ⟨⟨W, hW⟩, hcontinue.grow rfl rfl (List.append_nil _).symm (List.forall_mem_nil _) (fun e he => List.mem_append_right _ he)
      rfl rfl⟩
  · cases hf

lemma commit_held (h : HeldKept b) {fails lands : Bool} (hs : b.commit w fails lands = some b') : HeldKept b' := by
  obtain ⟨W, hW, hf⟩ := Option.bind_eq_some_iff.mp hs
  split at hf
  · rename_i items rest hc
    cases hf
    have hr := h.runs w W hW
    have hnew (item : Delivered) (hi : item ∈ b.store.receipts ++ items) : Due b W item := by
      rcases List.mem_append.mp hi with hi | hi
      · exact .inl hi
      · exact .inr (.inl ⟨items, hc ▸ List.mem_cons_self, hi⟩)
    have hreceipts (item : Delivered) (hi : item ∈ (if (fails && !lands) = true then b.store else { b.store with
        receipts := b.store.receipts ++ items }).receipts) : Due b W item := by
      split at hi
      · exact .inl hi
      · exact hnew item hi
    have hstored : ((if (fails && !lands) = true then b.store else { b.store with
        receipts := b.store.receipts ++ items }).watch.map Prod.fst).getD emptyWatchState = b.stored := by
      split <;> rfl
    have hcases {w' : ℕ} {X : Watcher} (hX : Function.update b.runs w
        (some { W with committing := rest }) w' = some X) : w' = w ∧ X = { W with committing := rest } := by
      rw [Function.update_apply] at hX
      split at hX
      · exact ⟨by assumption, (Option.some.inj hX).symm⟩
      · rename_i hne
        exact absurd (h.sole _ _ _ _ hX hW) hne
    refine ⟨?_, ?_, ?_, ?_⟩
    · intro w' X hX
      obtain ⟨-, rfl⟩ := hcases hX
      refine ⟨hr.state, hr.tail, hr.jobs, hr.applied, ?_⟩
      intro item hd hw
      have hd : Due b W item := by
        rcases hd with hd | ⟨items', hi, hmem⟩ | hd
        · exact hreceipts item hd
        · exact .inr (.inl ⟨items', hc ▸ List.mem_cons_of_mem _ hi, hmem⟩)
        · exact .inr (.inr hd)
      obtain ⟨h₁, h₂⟩ := hr.due item hd hw
      exact ⟨h₁, by simpa only [WatchWorld.stored, WatchWorld.setRun, hstored] using h₂⟩
    · intro w₁ w₂ X₁ X₂ h₁ h₂
      exact (hcases h₁).1.trans (hcases h₂).1.symm
    · simpa only [WatchWorld.stored, WatchWorld.setRun, hstored] using h.stored
    · intro item hi hw
      have := (hr.due item (hreceipts item hi) hw).2
      simpa only [WatchWorld.stored, WatchWorld.setRun, hstored] using this
  · cases hf

lemma start_held (h : HeldKept b) {profile pid : ℕ} {shown : Bool} (hg : ∀ w, b.runs w = none) :
    HeldKept (b.startRun profile pid shown) := by
  have hcases {w : ℕ} {X : Watcher} (hX : (b.startRun profile pid shown).runs w = some X) :
      w = b.nextRun ∧ X.state = b.stored ∧ X.stateQueue = [] ∧ X.committing = [] := by
    simp only [WatchWorld.startRun, Function.update_apply] at hX
    split at hX
    · cases hX
      exact ⟨by assumption, rfl, rfl, rfl⟩
    · rw [hg] at hX
      cases hX
  refine ⟨?_, ?_, h.stored, h.receipts⟩
  · intro w X hX
    obtain ⟨-, hs, hq, hc⟩ := hcases hX
    refine ⟨hs ▸ h.stored, ?_, ?_, ?_, ?_⟩
    · rw [hq]
      nofun
    · rw [hq]
      nofun
    · rw [hq]
      nofun
    · intro item hd hw
      have hi : item ∈ b.store.receipts := by
        rcases hd with hd | ⟨items, hi, -⟩ | ⟨j, hj, -⟩
        · exact hd
        · rw [hc] at hi
          cases hi
        · rw [hq] at hj
          cases hj
      rw [hs]
      exact ⟨h.receipts item hi hw, h.receipts item hi hw⟩
  · intro w w' X X' hX hX'
    exact (hcases hX).1.trans (hcases hX').1.symm

lemma claim_held (h : HeldKept b) {answer : PutAnswer} (hs : b.claim w key answer = some b') : HeldKept b' := by
  obtain ⟨W, task, hW, ht, hf⟩ := onWake_eq_some hs
  split at hf
  · cases answer with
    | answered shown =>
      simp only at hf
      split at hf
      · cases hf
        exact h.setWake hW _ rfl rfl
      · cases hf
        exact h.setWake hW _ rfl rfl
    | failed lands =>
      cases hf
      apply h.setWake hW none
      · split <;> rfl
      · split <;> rfl
  · cases hf

lemma readClaim_held (h : HeldKept b) {fails shown : Bool} (hs : b.readClaim w key fails shown = some b') :
    HeldKept b' := by
  obtain ⟨W, task, hW, ht, hf⟩ := onWake_eq_some hs
  split at hf
  · split at hf
    · cases hf
      exact h.setWake hW none rfl rfl
    · split at hf
      · cases hf
        exact h.setWake hW _ rfl rfl
      · split at hf
        · cases hf
          exact h.setWake hW _ rfl rfl
        · cases hf
          exact h.drift hW (.skip W key _) rfl rfl []
  · cases hf

lemma judge_held (h : HeldKept b) {alive : Bool} (hs : b.judge w key alive = some b') : HeldKept b' := by
  obtain ⟨W, task, hW, ht, hf⟩ := onWake_eq_some hs
  split at hf
  · split at hf
    · cases hf
      exact h.setWake hW _ rfl rfl
    · split at hf
      · cases hf
        exact h.setWake hW _ rfl rfl
      · cases hf
        exact h.drift hW (.skip W key _) rfl rfl []
  · cases hf

lemma takeOver_held (h : HeldKept b) {answer : PutAnswer} (hs : b.takeOver w key answer = some b') :
    HeldKept b' := by
  obtain ⟨W, task, hW, ht, hf⟩ := onWake_eq_some hs
  split at hf
  · cases answer with
    | answered shown =>
      simp only at hf
      split at hf
      · cases hf
        exact h.setWake hW _ rfl rfl
      · cases hf
        exact h.drift hW (.skip W key _) rfl rfl []
    | failed lands =>
      cases hf
      apply h.setWake hW none
      · split <;> rfl
      · split <;> rfl
  · cases hf

lemma count_held (h : HeldKept b) (hs : b.count w key = some b') : HeldKept b' := by
  obtain ⟨W, task, hW, ht, hf⟩ := onWake_eq_some hs
  split at hf
  · cases hf
    exact h.enqueue hW [] rfl rfl rfl (by rintro _ ⟨⟩) (by rintro _ _ _ ⟨⟩)
  · cases hf

lemma woken_held (h : HeldKept b) {ok : Bool} (hs : b.woken w key ok = some b') : HeldKept b' := by
  obtain ⟨W, task, hW, ht, hf⟩ := onWake_eq_some hs
  split at hf
  · rename_i s hp
    split at hf
    · cases hf
      refine h.enqueue hW [.woke key s] rfl rfl rfl (by rintro _ ⟨⟩) ?_
      rintro k woken approved ⟨⟩ id hid
      exact ⟨key, s, List.mem_cons_self, hid⟩
    · cases hf
      exact h.enqueue hW [] rfl rfl rfl (by rintro _ ⟨⟩) (by rintro _ _ _ ⟨⟩)
  · cases hf

lemma releaseRead_held (h : HeldKept b) {fails : Bool} (hs : b.releaseRead w key fails = some b') :
    HeldKept b' := by
  obtain ⟨W, task, hW, ht, hf⟩ := onWake_eq_some hs
  split at hf
  · split at hf
    · cases hf
      exact h.setWake hW _ rfl rfl
    · cases hf
      exact h.setWake hW none rfl rfl
  · cases hf

lemma releaseDelete_held (h : HeldKept b) {lands : Bool} (hs : b.releaseDelete w key lands = some b') :
    HeldKept b' := by
  obtain ⟨W, task, hW, ht, hf⟩ := onWake_eq_some hs
  split at hf
  · cases hf
    apply h.setWake hW none
    · split <;> rfl
    · split <;> rfl
  · cases hf

lemma pruneClaim_held (h : HeldKept b) {claim : ClaimKey} {lands : Bool}
    (hs : b.pruneClaim sentAt w claim lands = some b') : HeldKept b' := by
  unfold WatchWorld.pruneClaim at hs
  split at hs
  · cases hs
    refine h.congr rfl rfl ?_ ?_
    · split <;> rfl
    · split <;> rfl
  · cases hs

lemma crash_held (h : HeldKept b) : HeldKept (b.setRun w none) :=
  h.mono rfl nofun (fun _ he => he) rfl rfl

lemma watchStep_held (h : HeldKept b) {a : WatchAction} (hsole : Sole b a) (hg : HoldsPaused b a)
    (hs : watchStep opts sentAt b a = some b') : HeldKept b' := by
  cases a with
  | clock now =>
    simp only [watchStep, Option.ite_none_right_eq_some] at hs
    cases hs.2
    exact h.congr rfl rfl rfl rfl
  | pause key =>
    cases hs
    exact h.congr rfl rfl (addMarker_watch _ key) (addMarker_receipts _ key)
  | unpause key =>
    cases hs
    exact h.congr rfl rfl rfl rfl
  | start profile pid shown =>
    cases hs
    exact start_held h hsole
  | stop w =>
    obtain ⟨W, W', hW, hf, rfl⟩ := onRun_eq_some hs
    cases hf
    refine h.mono rfl ?_ (fun _ he => he) rfl rfl
    rintro _ ⟨⟩
    exact ⟨⟨W, hW⟩, (h.runs w W hW).grow rfl rfl (List.append_nil _).symm (List.forall_mem_nil _) (fun _ he => he) rfl rfl⟩
  | crash w =>
    cases hs
    exact crash_held h
  | tick w key force => exact tickOne_held h hs
  | syncPaused w =>
    refine onRun_held h ?_ hs
    rintro W _ ⟨⟩
    exact .lock W _
  | list w fails => exact listMarkers_held h hs
  | apply w => exact applyListing_held h hs
  | noticeId w key fails => exact noticeId_held h hs
  | writeMarker w answer => exact writeMarker_held h hs
  | wroteMarker w => exact wroteMarker_held h hs
  | deliver w items =>
    refine enqueue_held h ?_ (by rintro _ _ _ ⟨⟩) hs
    rintro _ ⟨⟩
    exact ⟨b.now, rfl⟩
  | approve w handled wakes => exact enqueue_held h (by rintro _ ⟨⟩) (by rintro _ _ _ ⟨⟩) hs
  | prune w => exact enqueue_held h (by rintro _ ⟨⟩) (by rintro _ _ _ ⟨⟩) hs
  | other w => exact enqueue_held h (by rintro _ ⟨⟩) (by rintro _ _ _ ⟨⟩) hs
  | run w => exact runJob_held h hg hs
  | fetch w fails shown => exact fetchEtag_held h hs
  | put w answer => exact putState_held h hs
  | acknowledge w => exact acknowledge_held h hs
  | commit w fails lands => exact commit_held h hs
  | claim w key answer => exact claim_held h hs
  | readClaim w key fails shown => exact readClaim_held h hs
  | judge w key alive => exact judge_held h hs
  | takeOver w key answer => exact takeOver_held h hs
  | count w key => exact count_held h hs
  | woken w key ok => exact woken_held h hs
  | releaseRead w key fails => exact releaseRead_held h hs
  | releaseDelete w key lands => exact releaseDelete_held h hs
  | pruneClaim w claim lands => exact pruneClaim_held h hs

end Steps

section Runs

variable {opts : WatchOptions} {sentAt : String → Option ℕ} {b b' : WatchWorld} {w : ℕ} {W : Watcher}
  {key : ThreadKey}

lemma heldKept_initial (h : (watchMachine opts sentAt).initial b) : HeldKept b := by
  obtain ⟨hstore, hruns, -⟩ := h
  have hstored : b.stored = emptyWatchState := by simp [WatchWorld.stored, hstore]
  refine ⟨?_, ?_, ?_, ?_⟩
  · simp [hruns]
  · simp [hruns]
  · rw [hstored]
    exact ⟨fun key hne => absurd rfl hne, nofun, nofun⟩
  · simp [hstore]

/-- A listing without the marker of a recorded thread queues the job that resumes it. -/
lemma applyListing_resumes {waiter : Option ThreadKey} {rest : List PauseJob} {listed : List ThreadKey}
    (hW : b.runs w = some W) (hl : W.pausedLock = .sync waiter (.listed listed) :: rest) (hk : key ∈ W.state.paused)
    (hn : key ∉ listed) : ∃ b' W' resumed added, b.applyListing opts w = some b' ∧ b'.runs w = some W' ∧
      W'.stateQueue = W.stateQueue ++ [⟨.resync resumed added b.now, .sync, .queued⟩] ∧ key ∈ resumed := by
  have hmem : key ∈ W.state.paused.filter fun key => key ∉ listed := List.mem_filter.mpr ⟨hk, by simpa using hn⟩
  have hne : (W.state.paused.filter fun key => decide (key ∉ listed)).isEmpty = false := by
    rw [List.isEmpty_eq_false_iff_exists_mem]
    exact ⟨key, hmem⟩
  rw [WatchWorld.applyListing, hW, Option.bind_some, hl]
  simp only [hne, Bool.false_and, Bool.false_eq_true, if_false]
  refine ⟨_, _, _, _, rfl, Function.update_self .., rfl, hmem⟩

/-- The job that resumes a thread makes each of its held messages pending, once, and leaves none held. -/
lemma runJob_resumes {resumed added : List ThreadKey} {at_ : ℕ} {owner : Owner} {rest : List Job} (hW : b.runs w = some W)
    (hq : W.stateQueue = ⟨.resync resumed added at_, owner, .queued⟩ :: rest) (hk : key ∈ resumed)
    (hone : W.state.Once) : ∃ b' W', b.runJob w = some b' ∧ b'.runs w = some W' ∧ W'.state.held key = [] ∧
      ∀ m ∈ W.state.held key, ∃ entry, W'.state.pending key = some entry ∧
        (entry.messages.map (·.messageId)).count m.messageId = 1 := by
  rw [WatchWorld.runJob, hW, Option.bind_some, hq]
  refine ⟨_, _, rfl, Function.update_self .., ?_, ?_⟩
  · simp only [WatchState.resync, resumeAll_held, if_pos hk]
  · intro m hm
    have hp : WatchState.Present W.state (key, m.messageId) := .inr (List.mem_map_of_mem hm)
    have honce := apply_once W.pausedKeys b.now (.resync resumed added at_) hone
    have hpresent := apply_present W.pausedKeys b.now (.resync resumed added at_) hp
    rcases hpresent with hpresent | hout | ⟨_, _, _, hw, -⟩
    · rcases hpresent with ⟨entry, he, hid⟩ | hheld
      · exact ⟨entry, he, List.count_eq_one_of_mem (honce key entry he) hid⟩
      · simp only [Mutation.apply, WatchState.resync, resumeAll_held, if_pos hk] at hheld
        cases hheld
    · cases hout
    · cases hw

/-- Threads with held messages are recorded as paused, a listing without their marker resumes them and
makes each held message pending once, and a message with a receipt is accounted for. -/
theorem held_released (h : (watchMachine opts sentAt).Within (fun b a => Sole b a ∧ HoldsPaused b a) b) :
    ((∀ key, b.stored.held key ≠ [] → key ∈ b.stored.paused) ∧
      ∀ w W key, b.runs w = some W → W.state.held key ≠ [] → key ∈ W.state.paused) ∧
    (∀ w W waiter listed rest key, b.runs w = some W → W.pausedLock = .sync waiter (.listed listed) :: rest →
      W.state.held key ≠ [] → key ∉ listed → ∃ b' W' resumed added, b.applyListing opts w = some b' ∧
        b'.runs w = some W' ∧
          W'.stateQueue = W.stateQueue ++ [⟨.resync resumed added b.now, .sync, .queued⟩] ∧ key ∈ resumed) ∧
    (∀ w W resumed added at_ owner rest key, b.runs w = some W →
      W.stateQueue = ⟨.resync resumed added at_, owner, .queued⟩ :: rest → key ∈ resumed →
        ∃ b' W', b.runJob w = some b' ∧ b'.runs w = some W' ∧ W'.state.held key = [] ∧
          ∀ m ∈ W.state.held key, ∃ entry, W'.state.pending key = some entry ∧
            (entry.messages.map (·.messageId)).count m.messageId = 1) ∧
    ∀ item ∈ b.store.receipts, item.Waking → Accounted b.log b.stored item.messageKey ∧
      ∀ w W, b.runs w = some W → Accounted b.log W.state item.messageKey := by
  have hk : HeldKept b :=
    h.invariant (fun _ => heldKept_initial) fun _ _ _ _ hk hg hs => watchStep_held hk hg.1 hg.2 hs
  refine ⟨⟨hk.stored.recorded, fun w W key hW => (hk.runs w W hW).state.recorded key⟩, ?_, ?_, ?_⟩
  · intro w W waiter listed rest key hW hl hne hn
    exact applyListing_resumes hW hl ((hk.runs w W hW).state.recorded key hne) hn
  · intro w W resumed added at_ owner rest key hW hq hr
    exact runJob_resumes hW hq hr (hk.runs w W hW).state.once
  · intro item hi hw
    exact ⟨hk.receipts item hi hw, fun w W hW => ((hk.runs w W hW).due item (.inl hi) hw).1⟩

/-- A test that leaves restarts out. -/
def recordedCheck (b : WatchWorld) : WatchAction → Bool
  | .start _ _ _ => false
  | .run w => (b.runs w).all fun W =>
    match W.stateQueue with
    | ⟨.deliver items _, _, _⟩ :: _ => items.all fun item => item.key ∉ W.pausedKeys || item.key ∈ W.state.paused
    | ⟨.hold key _, _, _⟩ :: _ => key ∈ W.state.paused
    | _ => true
  | _ => true

lemma guard_of_recordedCheck {a : WatchAction} (h : recordedCheck b a = true) : Sole b a ∧ HoldsPaused b a := by
  cases a with
  | start profile pid shown => cases h
  | run w =>
    refine ⟨trivial, fun W m owner rest hW hq => ?_⟩
    simp only [recordedCheck, hW, hq, Option.all_some] at h
    cases m with
    | deliver items at_ =>
      intro item hi _ hk
      simp only [List.all_eq_true, Bool.or_eq_true, decide_eq_true_eq] at h
      exact (h item hi).resolve_left fun hn => hn hk
    | hold key messages => exact fun _ => by simpa using h
    | _ => trivial
  | _ => exact ⟨trivial, trivial⟩

theorem held_released_sample : ∃ b, (watchMachine ⟨0, 1⟩ fun _ => none).Within
      (fun b a => Sole b a ∧ HoldsPaused b a) b ∧
    b.stored.held sampleThread = [⟨"m1", "ask"⟩] ∧ sampleThread ∈ b.stored.paused := by
  have hrun : ((watchMachine ⟨0, 1⟩ fun _ => none).runIf recordedCheck (emptyWorld.startRun 1 7 true)
      ([.pause sampleThread, .syncPaused 0, .list 0 false, .apply 0] ++ sampleWrite 0 ++
        [.deliver 0 [⟨sampleThread, "m1", some "ask"⟩]] ++ sampleWrite 0 ++ [.commit 0 false false])).map
      (fun b => b.stored.held sampleThread) = some [⟨"m1", "ask"⟩] := by
    decide +kernel
  obtain ⟨b, hb, hheld⟩ := Option.map_eq_some_iff.mp hrun
  have hempty : (watchMachine ⟨0, 1⟩ fun _ => none).initial emptyWorld := ⟨rfl, fun _ => rfl, rfl⟩
  have hfirst : Sole emptyWorld (.start 1 7 true) ∧ HoldsPaused emptyWorld (.start 1 7 true) := ⟨fun _ => rfl, trivial⟩
  have hstart := (Machine.Within.start (g := fun b a => Sole b a ∧ HoldsPaused b a) hempty).step hfirst rfl
  have hwithin := Machine.Within.of_runIf (P := fun _ => True) hstart trivial
    (fun _ _ _ hc => guard_of_recordedCheck hc) (fun _ _ _ _ _ _ => trivial) hb
  exact ⟨b, hwithin, hheld, (held_released hwithin).1.1 sampleThread (by rw [hheld]; nofun)⟩

/-- The owner pauses a thread while its wake finds it over budget, and resumes it before the pause is
listed; a listing then runs. -/
def sampleUnrecorded : List WatchAction :=
  [WatchAction.deliver 0 [⟨sampleThread, "m1", some "ask"⟩]] ++ sampleWrite 0 ++
    [WatchAction.commit 0 false false, .tick 0 sampleThread true, .list 0 false, .apply 0] ++
    [WatchAction.claim 0 sampleThread (.answered true), .count 0 sampleThread] ++ sampleWrite 0 ++
    [WatchAction.woken 0 sampleThread true] ++ sampleWrite 0 ++
    [WatchAction.deliver 0 [⟨sampleThread, "m2", some "ask"⟩]] ++ sampleWrite 0 ++
    [WatchAction.commit 0 false false, .tick 0 sampleThread true, .list 0 false, .apply 0] ++
    [WatchAction.pause sampleThread, .noticeId 0 sampleThread false, .writeMarker 0 (.answered true),
      .wroteMarker 0] ++
    sampleWrite 0 ++ [WatchAction.unpause sampleThread, .syncPaused 0, .list 0 false, .apply 0]

/-- A held message whose thread is neither recorded as paused nor marked, after a listing that succeeded. -/
theorem held_unreleased : ∃ b W, (watchMachine ⟨0, 1⟩ fun _ => none).Within Sole b ∧ b.runs 0 = some W ∧
    W.state.held sampleThread = [⟨"m2", "ask"⟩] ∧ sampleThread ∉ W.state.paused ∧ sampleThread ∉ b.store.markers ∧
    W.pausedLock = [] ∧ W.stateQueue.length = 0 := by
  have hrun : ((watchMachine ⟨0, 1⟩ fun _ => none).runIf (fun _ a => match a with
      | .start _ _ _ => false
      | _ => true) (emptyWorld.startRun 1 7 true) sampleUnrecorded).bind (fun b => (b.runs 0).map fun W =>
        (W.state.held sampleThread, W.state.paused, b.store.markers, W.pausedLock, W.stateQueue.length)) =
      some ([⟨"m2", "ask"⟩], [], [], [], 0) := by
    decide +kernel
  obtain ⟨b, hb, hrun⟩ := Option.bind_eq_some_iff.mp hrun
  obtain ⟨W, hW, hrun⟩ := Option.map_eq_some_iff.mp hrun
  simp only [Prod.mk.injEq] at hrun
  obtain ⟨hheld, hpaused, hmarkers, hlock, hqueue⟩ := hrun
  have hempty : (watchMachine ⟨0, 1⟩ fun _ => none).initial emptyWorld := ⟨rfl, fun _ => rfl, rfl⟩
  have hfirst : Sole emptyWorld (.start 1 7 true) := fun _ => rfl
  have hwithin := Machine.Within.of_runIf (P := fun _ => True)
    ((Machine.Within.start (g := Sole) hempty).step hfirst rfl) trivial (fun b a _ hc => by
      cases a with
      | start profile pid shown => cases hc
      | _ => trivial) (fun _ _ _ _ _ _ => trivial) hb
  exact ⟨b, W, hwithin, hW, hheld, by simp [hpaused], by simp [hmarkers], hlock, hqueue⟩

end Runs

end TinyCloud.Courier

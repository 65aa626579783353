import TinyCloud.Guard.Expansion
import TinyCloud.Guard.Scripts

/-!
# The guard's static words at run time

Where every variable that a command uses was last set by the assignment that the census counted, its
static value is its value, and words that are all static are the arguments that the shell passes.
-/

namespace TinyCloud.Guard

open TinyCloud.Collections

variable {c c' c'' : Census} {x name : String} {a : RawAssign} {cmd : RawCmd} {cmds : List RawCmd}

section Counting

/-- A later census counts no less, and a variable counted as often has the same definition. -/
structure Census.Grows (c c' : Census) : Prop where
  count : ∀ x, c.count x ≤ c'.count x
  defs : ∀ x, c'.count x = c.count x → c'.defs.get? x = c.defs.get? x

lemma Census.Grows.refl (c : Census) : c.Grows c := ⟨fun _ => Nat.le_refl _, fun _ _ => rfl⟩

lemma Census.Grows.trans (h : c.Grows c') (h' : c'.Grows c'') : c.Grows c'' := by
  refine ⟨fun x => Nat.le_trans (h.count x) (h'.count x), fun x he => ?_⟩
  have hle := h.count x
  have hle' := h'.count x
  rw [h'.defs x (by omega), h.defs x (by omega)]

lemma grows_foldl {α : Type} {f : Census → α → Census} (hf : ∀ (c : Census) a, c.Grows (f c a)) (xs : List α) (c : Census) :
    c.Grows (xs.foldl f c) := by
  induction xs generalizing c with
  | nil => exact .refl c
  | cons a xs ih => exact (hf c a).trans (ih _)

@[simp] lemma count_bump (c : Census) (name x : String) (n : ℕ) :
    (c.bump name n).count x = c.count x + if x = name then n else 0 := by
  simp only [Census.bump, Census.count, Dict.get?_set]
  split
  · rename_i h
    rw [h]
    rfl
  · rfl

lemma grows_bump (c : Census) (name : String) (n : ℕ) : c.Grows (c.bump name n) := by
  refine ⟨fun x => ?_, fun _ _ => rfl⟩
  rw [count_bump]
  omega

lemma grows_taint (c : Census) (taint : Bool) : c.Grows { c with taintAll := taint } :=
  ⟨fun _ => Nat.le_refl _, fun _ _ => rfl⟩

lemma count_assign (c : Census) (a : RawAssign) (x : String) :
    (c.assign a).count x = c.count x + if x = a.name then (if a.append then 2 else 1) else 0 :=
  count_bump c a.name x _

lemma grows_assign (c : Census) (a : RawAssign) : c.Grows (c.assign a) := by
  refine ⟨fun x => ?_, fun x he => ?_⟩
  · rw [count_assign]
    omega
  rw [count_assign] at he
  have hne : x ≠ a.name := by
    rintro rfl
    rw [if_pos rfl] at he
    split at he <;> omega
  exact Dict.get?_set_of_ne _ _ hne

lemma grows_declared (c : Census) (w : RawWord) : c.Grows (c.declared w) := by
  unfold Census.declared
  split
  · exact grows_taint c _
  · split
    · exact grows_bump ..
    · split
      · exact grows_bump ..
      · exact .refl c

lemma grows_read (c : Census) (w : RawWord) : c.Grows (c.read w) := by
  unfold Census.read
  split
  · exact grows_taint c _
  · split
    · exact grows_bump ..
    · exact .refl c

lemma grows_ite {p : Prop} [Decidable p] (h : c.Grows c') : c.Grows (if p then c' else c) := by
  split
  · exact h
  · exact .refl c

lemma grows_head (c : Census) (head : RawWord) (args : List RawWord) : c.Grows (c.head head args) := by
  unfold Census.head
  split
  · exact grows_taint c _
  · refine Census.Grows.trans (grows_ite (grows_taint c true)) (Census.Grows.trans (grows_ite ?_) (grows_ite ?_))
    · exact grows_foldl grows_declared args _
    · exact grows_foldl grows_read args _

lemma grows_cmd (c : Census) (cmd : RawCmd) : (cmd.assigns.foldl Census.assign c).Grows (c.cmd cmd) := by
  have hvars : ∀ d : Census, d.Grows (cmd.forVars.foldl (fun d name => d.bump name 2) d) :=
    grows_foldl (fun d name => grows_bump d name 2) cmd.forVars
  refine (hvars _).trans ?_
  unfold Census.cmd
  simp only
  split
  · exact .refl _
  · exact grows_head _ _ _

/-- A variable that is counted once has the value of its one assignment for its definition. -/
lemma counted_once (hc : cmd ∈ cmds) (ha : a ∈ cmd.assigns) (hone : (census cmds).count a.name = 1) :
    a.append = false ∧ (census cmds).defs.get? a.name = some a.value := by
  obtain ⟨before, after, rfl⟩ := List.append_of_mem hc
  obtain ⟨early, late, hassigns⟩ := List.append_of_mem ha
  have hafter : ∃ c : Census, (c.assign a).Grows (census (before ++ cmd :: after)) := by
    refine ⟨early.foldl Census.assign (census before), ?_⟩
    have hlate : ((early.foldl Census.assign (census before)).assign a).Grows
        (cmd.assigns.foldl Census.assign (census before)) := by
      rw [hassigns, List.foldl_append, List.foldl_cons]
      exact grows_foldl grows_assign late _
    have hcmds : ((census before).cmd cmd).Grows (census (before ++ cmd :: after)) := by
      unfold census
      rw [List.foldl_append, List.foldl_cons]
      exact grows_foldl (fun c cmd => (grows_foldl grows_assign cmd.assigns c).trans (grows_cmd c cmd)) after _
    exact (hlate.trans (grows_cmd _ cmd)).trans hcmds
  obtain ⟨c, hgrows⟩ := hafter
  have hle := hgrows.count a.name
  have hdef := hgrows.defs a.name
  have hcount : (c.assign a).count a.name = c.count a.name + if a.append then 2 else 1 := by
    rw [count_assign, if_pos rfl]
  cases happ : a.append with
  | true =>
    rw [happ] at hcount
    simp only [if_true] at hcount
    omega
  | false =>
    rw [happ] at hcount
    simp only [Bool.false_eq_true, if_false] at hcount
    rw [hdef (by omega)]
    exact ⟨rfl, Dict.get?_set_self _ _ _⟩

end Counting

section Resolving

/-- A command outside loops and functions. -/
def plainCmd : RawCmd := ⟨[], [], [], [], [], false, false, false, []⟩

/-- The static value of a variable, wherever it is used. -/
def Census.static (c : Census) (name : String) : Option String := lookup c plainCmd name

lemma lookupIn_succ (c : Census) (cmd : RawCmd) (depth : ℕ) (resolving : List String) (name : String) :
    lookupIn c cmd (depth + 1) resolving name =
      if c.taintAll || cmd.inLoop || cmd.inFunc then none
      else if c.counts.get? name ≠ some 1 ∨ name ∈ resolving then none
      else (c.defs.get? name).bind fun value =>
        resolveParts (lookupIn c cmd depth (name :: resolving)) value.parts := by
  rw [lookupIn]
  split_ifs
  · rfl
  · rfl
  · cases c.defs.get? name <;> rfl

lemma resolveParts_mono {f g : String → Option String} (h : ∀ x v, f x = some v → g x = some v) {parts : List Part}
    {v : String} (hv : resolveParts f parts = some v) : resolveParts g parts = some v := by
  induction parts generalizing v with
  | nil => exact hv
  | cons part parts ih =>
    cases part with
    | lit s q =>
      obtain ⟨w, hw, rfl⟩ := Option.map_eq_some_iff.mp hv
      exact Option.map_eq_some_iff.mpr ⟨w, ih hw, rfl⟩
    | var name q =>
      obtain ⟨u, hu, hv⟩ := Option.bind_eq_some_iff.mp hv
      obtain ⟨w, hw, rfl⟩ := Option.map_eq_some_iff.mp hv
      exact Option.bind_eq_some_iff.mpr ⟨u, h name u hu, Option.map_eq_some_iff.mpr ⟨w, ih hw, rfl⟩⟩
    | dyn => cases hv

/-- More depth and fewer names that are resolving keep a value; flags of the command can only take it away. -/
lemma lookupIn_mono {depth depth' : ℕ} {resolving resolving' : List String} {v : String} (hd : depth ≤ depth')
    (hr : resolving' ⊆ resolving) (h : lookupIn c cmd depth resolving name = some v) :
    lookupIn c plainCmd depth' resolving' name = some v := by
  induction depth generalizing depth' resolving resolving' name v with
  | zero => cases h
  | succ depth ih =>
    obtain ⟨depth', rfl⟩ : ∃ k, depth' = k + 1 := ⟨depth' - 1, by omega⟩
    rw [lookupIn_succ] at h ⊢
    split_ifs at h with htaint hskip
    rw [Bool.or_eq_true, Bool.or_eq_true, not_or, not_or] at htaint
    have hplain : ¬ (c.taintAll || plainCmd.inLoop || plainCmd.inFunc) = true := by simp [plainCmd, htaint.1.1]
    have hkeep : ¬ (c.counts.get? name ≠ some 1 ∨ name ∈ resolving') := fun hbad =>
      hskip (hbad.imp_right fun hin => hr hin)
    rw [if_neg hplain, if_neg hkeep]
    obtain ⟨value, hvalue, h⟩ := Option.bind_eq_some_iff.mp h
    refine Option.bind_eq_some_iff.mpr ⟨value, hvalue, resolveParts_mono (fun y w hy => ?_) h⟩
    exact ih (Nat.le_of_succ_le_succ hd) (List.cons_subset_cons name hr) hy

/-- What a static value rests on. -/
lemma static_cases {v : String} (h : c.static name = some v) : c.count name = 1 ∧
    ∃ value, c.defs.get? name = some value ∧ resolveParts c.static value.parts = some v := by
  unfold Census.static lookup at h
  rw [lookupIn_succ] at h
  split_ifs at h with htaint hskip
  rw [not_or, not_not] at hskip
  obtain ⟨value, hvalue, h⟩ := Option.bind_eq_some_iff.mp h
  refine ⟨by rw [Census.count, hskip.1]; rfl, value, hvalue, resolveParts_mono (fun y w hy => ?_) h⟩
  exact lookupIn_mono (Nat.le_succ _) (List.nil_subset _) hy

/-- The depth of `lookup` is never what ends it: names that are resolving are defined and distinct. -/
lemma lookupIn_deep (cmd : RawCmd) {depth : ℕ} (extra : ℕ) {resolving : List String} (hn : resolving.Nodup)
    (hdefs : ∀ y ∈ resolving, y ∈ c.defs.entries.map Prod.fst)
    (hd : c.defs.entries.length < depth + resolving.length) (name : String) :
    lookupIn c cmd (depth + extra) resolving name = lookupIn c cmd depth resolving name := by
  induction depth generalizing resolving name with
  | zero =>
    have hle : resolving.length ≤ (c.defs.entries.map Prod.fst).length := (List.subperm_of_subset hn hdefs).length_le
    rw [List.length_map] at hle
    omega
  | succ depth ih =>
    rw [show depth + 1 + extra = depth + extra + 1 by omega, lookupIn_succ, lookupIn_succ]
    split_ifs with htaint hskip
    · rfl
    · rfl
    · rw [not_or] at hskip
      cases hvalue : c.defs.get? name with
      | none => rfl
      | some value =>
        have hkeys : ∀ y ∈ name :: resolving, y ∈ c.defs.entries.map Prod.fst := by
          intro y hy
          rcases List.mem_cons.mp hy with rfl | hy
          · exact List.mem_map.mpr ⟨_, c.defs.mem_entries.mpr hvalue, rfl⟩
          · exact hdefs y hy
        have hsame : lookupIn c cmd (depth + extra) (name :: resolving) = lookupIn c cmd depth (name :: resolving) :=
          funext fun y => ih (List.nodup_cons.mpr ⟨hskip.2, hn⟩) hkeys (by simp only [List.length_cons]; omega) y
        rw [Option.bind_some, Option.bind_some, hsame]

theorem lookup_deep (c : Census) (cmd : RawCmd) (extra : ℕ) (name : String) :
    lookupIn c cmd (c.defs.entries.length + 1 + extra) [] name = lookup c cmd name :=
  lookupIn_deep cmd extra List.nodup_nil (fun _ h => nomatch h) (by simp) name

end Resolving

section Expanding

variable {e : Expansion} {sp : Splitting} {atoms : List Atom} {s t : Shell} {sets : List String}

/-- A word decided at run time is among the fields, or being read. -/
def Expansion.Dirty (e : Expansion) : Prop :=
  (∃ w ∈ e.fields, w.dynamic = true) ∨ (e.cur.dyn = true ∧ e.cur.started = true)

lemma dirty_push (h : e.Dirty) : e.push.Dirty := by
  left
  rcases h with ⟨w, hw, hd⟩ | ⟨hd, hs⟩
  · refine ⟨w, ?_, hd⟩
    unfold Expansion.push
    simp only
    split
    · exact List.mem_append_left _ hw
    · exact hw
  · exact ⟨⟨e.cur.text, e.cur.dyn⟩, by simp [Expansion.push, hs], hd⟩

lemma dirty_text (text : String) (started : Bool) (h : e.Dirty) : (e.text text started).Dirty :=
  h.imp id fun h => ⟨h.1, by simp [Expansion.text, h.2]⟩

lemma dirty_placeholder (e : Expansion) : e.placeholder.Dirty := .inr ⟨rfl, rfl⟩

lemma dirty_piece (piece : List Char) (h : e.Dirty) : (e.piece piece).Dirty := by
  unfold Expansion.piece
  split
  · exact h
  · exact h.imp id fun h => ⟨by simp [h.1], rfl⟩

/-- One character of an unquoted expansion. -/
def Expansion.char (e : Expansion) (ch : Char) : Expansion := if isBlank ch then e.push else e.piece [ch]

lemma dirty_chars (cs : List Char) (h : e.Dirty) : (cs.foldl Expansion.char e).Dirty := by
  induction cs generalizing e with
  | nil => exact h
  | cons ch cs ih =>
    apply ih
    unfold Expansion.char
    split
    · exact dirty_push h
    · exact dirty_piece _ h

lemma push_push (e : Expansion) : e.push.push = e.push := rfl

lemma piece_cons (e : Expansion) (ch : Char) (piece : List Char) :
    e.piece (ch :: piece) = (e.piece [ch]).piece piece := by
  cases piece with
  | nil => rfl
  | cons d piece =>
    unfold Expansion.piece
    simp only [List.isEmpty_cons, Bool.false_eq_true, if_false, Expansion.mk.injEq, true_and, Field.mk.injEq, and_true]
    constructor
    · rw [String.append_assoc, ← String.ofList_append]
      rfl
    · simp [Bool.or_assoc]

lemma splitBlanks_cons (cs : List Char) : ∃ piece pieces, splitBlanks cs = piece :: pieces := by
  induction cs with
  | nil => exact ⟨_, _, rfl⟩
  | cons ch cs ih =>
    obtain ⟨piece, pieces, h⟩ := ih
    unfold splitBlanks
    rw [h]
    split
    · split <;> exact ⟨_, _, rfl⟩
    · exact ⟨_, _, rfl⟩

/-- Splitting a value at its runs of blanks is reading it one character at a time. -/
lemma pieces_splitBlanks (cs : List Char) (e : Expansion) : e.pieces (splitBlanks cs) = cs.foldl Expansion.char e := by
  induction cs generalizing e with
  | nil => rfl
  | cons ch cs ih =>
    obtain ⟨piece, pieces, hp⟩ := splitBlanks_cons cs
    rw [List.foldl_cons]
    cases hb : isBlank ch with
    | false =>
      have hchar : e.char ch = e.piece [ch] := by simp [Expansion.char, hb]
      rw [hchar, ← ih, hp]
      have hsplit : splitBlanks (ch :: cs) = (ch :: piece) :: pieces := by simp [splitBlanks, hb, hp]
      rw [hsplit, Expansion.pieces, piece_cons]
      rfl
    | true =>
      have hchar : e.char ch = e.push := by simp [Expansion.char, hb]
      rw [hchar]
      cases cs with
      | nil => simp [splitBlanks, hb, Expansion.pieces, Expansion.piece]
      | cons d cs =>
        cases hd : isBlank d with
        | true =>
          have hsplit : splitBlanks (ch :: d :: cs) = splitBlanks (d :: cs) := by
            rw [splitBlanks, if_pos hb, if_pos (by simp [hd])]
          rw [hsplit, ih, List.foldl_cons, List.foldl_cons]
          simp [Expansion.char, hd, push_push]
        | false =>
          have hsplit : splitBlanks (ch :: d :: cs) = [] :: splitBlanks (d :: cs) := by
            rw [splitBlanks, if_pos hb, if_neg (by simp [hd])]
          rw [hsplit, ← ih, hp]
          rfl

lemma dirty_part (c : Census) (cmd : RawCmd) (part : Part) (h : e.Dirty) : (expandPart c cmd e part).Dirty := by
  unfold expandPart
  split
  · exact dirty_text _ _ h
  · exact dirty_placeholder e
  · split
    · exact dirty_placeholder e
    · split_ifs
      · exact dirty_placeholder e
      · exact dirty_text _ _ h
      · rw [pieces_splitBlanks]
        exact dirty_chars _ h

lemma dirty_parts (c : Census) (cmd : RawCmd) (parts : List Part) (h : e.Dirty) :
    (parts.foldl (expandPart c cmd) e).Dirty := by
  induction parts generalizing e with
  | nil => exact h
  | cons part parts ih => exact ih (dirty_part c cmd part h)

/-- An unquoted expansion's character that can make a pathname pattern. -/
def Atom.isGlobbed : Atom → Bool
  | .char ch .expanded => isGlob ch
  | _ => false

/-- The fields read so far, by the guard and by the shell. -/
structure Follows (e : Expansion) (sp : Splitting) : Prop where
  fields : e.fields.map (·.value) = sp.done.map textOf
  text : e.cur.text = textOf sp.rest
  started : e.cur.started = !sp.rest.isEmpty
  plain : ∀ field ∈ sp.done ++ [sp.rest], field.any Atom.isGlobbed = false

lemma textOf_append (a b : List Atom) : textOf (a ++ b) = textOf a ++ textOf b := by
  rw [textOf, List.flatMap_append, String.ofList_append]
  rfl

lemma textOf_atoms (q : Quoting) (text : String) : textOf (atomsOf q text) = text := by
  have hchars : (atomsOf q text).flatMap Atom.text = text.toList := by
    unfold atomsOf
    induction text.toList with
    | nil => rfl
    | cons ch cs ih => rw [List.map_cons, List.flatMap_cons, ih]; rfl
  rw [textOf, hchars, String.ofList_toList]

lemma textOf_quote (q : Bool) : textOf (quoteOf q) = "" := by
  cases q <;> rfl

lemma Follows.close (h : Follows e sp) : e.push.fields.map (·.value) = sp.close.map textOf := by
  unfold Expansion.push Splitting.close
  rw [h.started]
  cases hr : sp.rest.isEmpty with
  | true => simp [h.fields]
  | false => simp [h.fields, h.text]

lemma Follows.push (h : Follows e sp) : Follows e.push ⟨sp.close, []⟩ := by
  refine ⟨h.close, rfl, rfl, fun field hf => ?_⟩
  unfold Splitting.close at hf
  rcases List.mem_append.mp hf with hf | hf
  · split at hf
    · exact h.plain field (List.mem_append_left _ hf)
    · exact h.plain field hf
  · rw [List.mem_singleton.mp hf]
    rfl

/-- Characters that end no field join the field that is being read. -/
lemma feed_solid (hsolid : atoms.any Atom.isBreak = false) (sp : Splitting) :
    atoms.foldl Splitting.feed sp = ⟨sp.done, sp.rest ++ atoms⟩ := by
  induction atoms generalizing sp with
  | nil => simp
  | cons a atoms ih =>
    rw [List.any_cons, Bool.or_eq_false_iff] at hsolid
    rw [List.foldl_cons, ih hsolid.2, Splitting.feed, hsolid.1]
    simp

lemma Follows.solid (h : Follows e sp) {text : String} {started : Bool} (hglob : atoms.any Atom.isGlobbed = false)
    (htext : textOf atoms = text) (hstarted : started = !atoms.isEmpty) :
    Follows (e.text text started) ⟨sp.done, sp.rest ++ atoms⟩ := by
  refine ⟨h.fields, ?_, ?_, fun field hf => ?_⟩
  · rw [textOf_append, htext, ← h.text]
    rfl
  · change (e.cur.started || started) = _
    rw [h.started, hstarted]
    cases sp.rest <;> cases atoms <;> rfl
  · rcases List.mem_append.mp hf with hf | hf
    · exact h.plain field (List.mem_append_left _ hf)
    · rw [List.mem_singleton.mp hf, List.any_append, hglob, h.plain _ (by simp)]
      rfl

lemma Follows.char (h : Follows e sp) {ch : Char} (hclean : ¬ (e.char ch).Dirty) :
    Follows (e.char ch) (sp.feed (.char ch .expanded)) := by
  unfold Expansion.char Splitting.feed at *
  cases hb : isBlank ch with
  | true =>
    simp only [hb, Atom.isBreak, if_true]
    exact h.push
  | false =>
    simp only [hb, Atom.isBreak, Bool.false_eq_true, if_false] at hclean ⊢
    have hglob : isGlob ch = false := by
      rw [Bool.eq_false_iff]
      intro hglob
      exact hclean (.inr ⟨by simp [Expansion.piece, hglob], rfl⟩)
    refine ⟨h.fields, ?_, by simp [Expansion.piece], fun field hf => ?_⟩
    · rw [textOf_append, ← h.text]
      rfl
    · rcases List.mem_append.mp hf with hf | hf
      · exact h.plain field (List.mem_append_left _ hf)
      · rw [List.mem_singleton.mp hf, List.any_append, h.plain sp.rest (by simp)]
        simp [Atom.isGlobbed, hglob]

lemma Follows.chars (h : Follows e sp) {cs : List Char} (hclean : ¬ (cs.foldl Expansion.char e).Dirty) :
    Follows (cs.foldl Expansion.char e) ((cs.map fun ch => Atom.char ch .expanded).foldl Splitting.feed sp) := by
  induction cs generalizing e sp with
  | nil => exact h
  | cons ch cs ih =>
    have hfirst : ¬ (e.char ch).Dirty := fun hd => hclean (dirty_chars cs hd)
    exact ih (h.char hfirst) hclean

def Part.varName : Part → Option String
  | .var name _ => some name
  | _ => none

def RawWord.vars (w : RawWord) : List String := w.parts.filterMap Part.varName

def Part.splits : Part → Bool
  | .var _ q => !q
  | _ => false

lemma not_break_quoted (q : Bool) (text : String) (hq : Quoting) (hne : hq ≠ .expanded) :
    (quoteOf q ++ atomsOf hq text).any Atom.isBreak = false ∧
      (quoteOf q ++ atomsOf hq text).any Atom.isGlobbed = false := by
  constructor
  all_goals
    rw [List.any_append, Bool.or_eq_false_iff]
    refine ⟨by cases q <;> rfl, ?_⟩
    simp only [atomsOf, List.any_map, List.any_eq_false]
    intro ch _
    cases hq <;> simp_all [Atom.isBreak, Atom.isGlobbed]

lemma atoms_isEmpty (q : Bool) (hq : Quoting) (text : String) :
    (quoteOf q ++ atomsOf hq text).isEmpty = !(text ≠ "" || q) := by
  cases q with
  | true => simp [quoteOf]
  | false =>
    have hnil : text = "" ↔ text.toList = [] := by simp
    cases h : text.toList with
    | nil => simp [quoteOf, atomsOf, h, hnil]
    | cons ch cs => simp [quoteOf, atomsOf, h, hnil]

/-- One part that leaves every word static gives the shell the same fields. -/
lemma Follows.part (h : Follows e sp) {part : Part} {found : List Atom} (hclean : ¬ (expandPart c cmd e part).Dirty)
    (hval : ∀ v, part.varName.bind (lookup c cmd) = some v → part.varName.map s.value = some v)
    (hs : Spells sets s [part] found t) :
    t = s ∧ Follows (expandPart c cmd e part) (found.foldl Splitting.feed sp) := by
  cases hs with
  | lit text q hs =>
    cases hs
    refine ⟨rfl, ?_⟩
    obtain ⟨hsolid, hglob⟩ := not_break_quoted q text (if q then .quoted else .literal) (by cases q <;> simp)
    rw [List.append_nil, feed_solid hsolid]
    refine h.solid hglob ?_ ?_
    · rw [textOf_append, textOf_quote, textOf_atoms, String.empty_append]
    · rw [atoms_isEmpty, Bool.not_not]
  | dyn => exact absurd (dirty_placeholder e) hclean
  | var name q hs =>
    cases hs
    refine ⟨rfl, ?_⟩
    cases hv : lookup c cmd name with
    | none =>
      simp only [expandPart, hv] at hclean
      exact absurd (dirty_placeholder e) hclean
    | some v =>
      have hvalue : s.value name = v := Option.some.inj (hval v hv)
      simp only [expandPart, hv, hvalue, List.append_nil] at hclean ⊢
      cases q with
      | true =>
        obtain ⟨hsolid, hglob⟩ := not_break_quoted true v .quoted (by simp)
        simp only [Bool.not_true, Bool.false_and, Bool.false_eq_true, if_false, if_true] at hclean ⊢
        rw [feed_solid hsolid]
        refine h.solid hglob ?_ rfl
        rw [textOf_append, textOf_quote, textOf_atoms, String.empty_append]
      | false =>
        simp only [Bool.not_false, Bool.true_and, Bool.false_eq_true, if_false] at hclean ⊢
        split at hclean
        · exact absurd (dirty_placeholder e) hclean
        · rename_i hifs
          rw [if_neg hifs, pieces_splitBlanks]
          rw [pieces_splitBlanks] at hclean
          exact h.chars hclean

lemma spells_cons {part : Part} {parts : List Part} (h : Spells sets s (part :: parts) atoms t) :
    ∃ found rest u, atoms = found ++ rest ∧ Spells sets s [part] found u ∧ Spells sets u parts rest t := by
  cases h with
  | lit text q h => exact ⟨_, _, s, rfl, by simpa using Spells.lit text q (.nil s), h⟩
  | var name q h => exact ⟨_, _, s, rfl, by simpa using Spells.var name q (.nil s), h⟩
  | dyn found hu h => exact ⟨_, _, _, rfl, by simpa using Spells.dyn found hu (.nil _), h⟩

lemma Follows.parts {parts : List Part} (h : Follows e sp) (hclean : ¬ (parts.foldl (expandPart c cmd) e).Dirty)
    (hval : ∀ part ∈ parts, ∀ v, part.varName.bind (lookup c cmd) = some v → part.varName.map s.value = some v)
    (hs : Spells sets s parts atoms t) :
    t = s ∧ Follows (parts.foldl (expandPart c cmd) e) (atoms.foldl Splitting.feed sp) := by
  induction parts generalizing e sp atoms with
  | nil =>
    cases hs
    exact ⟨rfl, h⟩
  | cons part parts ih =>
    obtain ⟨found, rest, u, rfl, hpart, hrest⟩ := spells_cons hs
    have hfirst : ¬ (expandPart c cmd e part).Dirty := fun hd => hclean (dirty_parts c cmd parts hd)
    obtain ⟨rfl, hstep⟩ := h.part hfirst (hval part List.mem_cons_self) hpart
    rw [List.foldl_append]
    exact ih hstep hclean (fun p hp => hval p (List.mem_cons_of_mem _ hp)) hrest

/-- A literal character makes the field a pathname pattern. -/
def literalPattern (field : List Atom) : Bool :=
  field.any (fun | .char ch .literal => ch == '*' || ch == '?' | _ => false) ||
    (field.dropWhile fun | .char ch .literal => ch != '[' | _ => true).any (Atom.isOpen (· == ']'))

end Expanding

section Running

/-- The variables that a command's words, values, redirections and here-strings name. -/
def RawCmd.uses (cmd : RawCmd) : List String :=
  (cmd.words ++ cmd.redirs.map (·.target) ++ cmd.assigns.map (·.value) ++ cmd.hereStrings).flatMap RawWord.vars

/-- What the census takes for granted where a command is reached: each variable that has a static value was last set by an
assignment, blanks split words as at the start, and no literal character makes a pathname pattern. -/
structure SeenAt (c : Census) (cmd : RawCmd) (s : Shell) : Prop where
  assigned : ∀ x ∈ cmd.uses, (lookup c cmd x).isSome = true → (s.vars x).origin = .assigned
  blanks : c.ifs = false → (∃ w ∈ cmd.words, w.parts.any Part.splits = true) → s.value "IFS" = DEFAULT_IFS
  literals : ∀ w ∈ cmd.words, .dyn ∉ w.parts → ∀ sets atoms t, Spells sets s w.parts atoms t →
    ∀ field ∈ fieldsOf atoms, literalPattern field = false

/-- The same for the value that an assignment gives to a variable with a static value. -/
def Seen (c : Census) : Guards where
  command := SeenAt c
  assign := fun a s => (c.static a.name).isSome = true → ∀ y ∈ a.value.vars, (s.vars y).origin = .assigned

/-- Variables with a static value that were last set by an assignment have it, and the shell knows no other functions
than the script's. -/
structure Holds (cmds : List RawCmd) (s : Shell) : Prop where
  static : ∀ x v, (census cmds).static x = some v → (s.vars x).origin = .assigned → (s.vars x).value = some v
  funs : ∀ f body, s.funs f = some body → body.cmds ⊆ cmds

variable {script : Script} {o : Outcome} {s t u : Shell} {sets : List String} {atoms : List Atom}

lemma Holds.start (cmds : List RawCmd) (env : String → Option String) : Holds cmds (Shell.start env) :=
  ⟨fun _ _ _ h => (nomatch h), fun _ _ h => (nomatch h)⟩

lemma Holds.touched {may : String → Prop} (h : Holds cmds s) (ht : Touched may s t) : Holds cmds t := by
  refine ⟨fun x v hx ho => ?_, fun f body hf => h.funs f body (ht.1 ▸ hf)⟩
  rcases ht.2 x with he | ⟨-, hother⟩
  · rw [he] at ho ⊢
    exact h.static x v hx ho
  · rw [ho] at hother
    cases hother

lemma Holds.spells {parts : List Part} (h : Holds cmds s) (hs : Spells sets s parts atoms t) : Holds cmds t := by
  induction hs with
  | nil => exact h
  | lit text q hs ih => exact ih h
  | var name q hs ih => exact ih h
  | dyn found hu hs ih => exact ih (h.touched hu)

lemma Holds.passes {words : List RawWord} {args : List String} (h : Holds cmds s) (hp : Passes sets s words args t) :
    Holds cmds t := by
  induction hp with
  | nil => exact h
  | cons hw ha hp ih => exact ih (h.spells hw)

/-- A value that resolves is what the shell makes of it. -/
lemma value_static {parts : List Part} {v : String} (hv : resolveParts c.static parts = some v)
    (hvars : ∀ y ∈ parts.filterMap Part.varName, ∀ w, c.static y = some w → s.value y = w)
    (hs : Spells sets s parts atoms t) : t = s ∧ textOf atoms = v := by
  induction hs generalizing v with
  | nil =>
    cases hv
    exact ⟨rfl, rfl⟩
  | lit text q hs ih =>
    obtain ⟨w, hw, rfl⟩ := Option.map_eq_some_iff.mp hv
    obtain ⟨rfl, htext⟩ := ih hw hvars
    refine ⟨rfl, ?_⟩
    rw [textOf_append, textOf_append, textOf_quote, textOf_atoms, htext, String.empty_append]
  | var name q hs ih =>
    obtain ⟨u, hu, hv⟩ := Option.bind_eq_some_iff.mp hv
    obtain ⟨w, hw, rfl⟩ := Option.map_eq_some_iff.mp hv
    obtain ⟨rfl, htext⟩ := ih hw fun y hy => hvars y (List.mem_cons_of_mem _ hy)
    refine ⟨rfl, ?_⟩
    rw [textOf_append, textOf_append, textOf_quote, textOf_atoms, htext, String.empty_append,
      hvars name List.mem_cons_self u hu]
  | dyn => cases hv

lemma Holds.assign {a : RawAssign} (h : Holds cmds s) (hc : cmd ∈ cmds) (ha : a ∈ cmd.assigns)
    (hok : (Seen (census cmds)).assign a s) (hv : Spells sets s a.value.parts atoms u) :
    Holds cmds (u.set a.name ⟨some ((if a.append then u.value a.name else "") ++ textOf atoms), .assigned⟩) := by
  have hu : Holds cmds u := h.spells hv
  refine ⟨fun x v hx ho => ?_, hu.funs⟩
  simp only [Shell.set] at ho ⊢
  split
  · rename_i he
    subst he
    obtain ⟨hone, value, hvalue, hresolve⟩ := static_cases hx
    obtain ⟨happend, hdef⟩ := counted_once hc ha hone
    cases hdef.symm.trans hvalue
    have hvars : ∀ y ∈ a.value.vars, ∀ w, (census cmds).static y = some w → s.value y = w := by
      intro y hy w hw
      rw [Shell.value, h.static y w hw (hok (by rw [hx]; rfl) y hy)]
      rfl
    obtain ⟨-, htext⟩ := value_static hresolve hvars hv
    simp [happend, htext]
  · rename_i hne
    rw [if_neg hne] at ho
    exact hu.static x v hx ho

lemma Holds.assigns {assigns : List RawAssign} (h : Holds cmds s) (hc : cmd ∈ cmds) (hin : assigns ⊆ cmd.assigns)
    (ha : Assigns (Seen (census cmds)) sets s assigns t) : Holds cmds t := by
  induction ha with
  | nil => exact h
  | cons hok hv ha ih =>
    exact ih (h.assign hc (hin List.mem_cons_self) hok hv) fun a ha => hin (List.mem_cons_of_mem _ ha)

lemma Holds.acts {before inside : Shell} {args : List String} (h : Holds cmds s) (hc : cmd ∈ cmds)
    (ha : Acts (Seen (census cmds)) sets cmd s before inside args) : Holds cmds before ∧ Holds cmds inside := by
  obtain ⟨u, hp, ht⟩ := ha.expanded
  have hbefore : Holds cmds before := (h.passes hp).touched ht
  exact ⟨hbefore, hbefore.assigns hc (List.Subset.refl _) ha.assigned⟩

lemma Holds.leaves {before inside : Shell} {assigns : List RawAssign} (hb : Holds cmds before) (hi : Holds cmds inside)
    (hl : Leaves assigns before inside t) : Holds cmds t := by
  refine ⟨fun x v hx ho => ?_, fun f body hf => hi.funs f body (hl.1 ▸ hf)⟩
  rcases hl.2 x with he | ⟨-, he⟩
  · rw [he] at ho ⊢
    exact hi.static x v hx ho
  · rw [he] at ho ⊢
    exact hb.static x v hx ho

/-- What an execution keeps to its end, and has at the command that it reaches. -/
def Outcome.Holds (cmds : List RawCmd) : Outcome → Prop
  | .ended t => Guard.Holds cmds t
  | .reached cmd t => cmd ∈ cmds ∧ Guard.Holds cmds t

lemma Holds.exec (h : Holds cmds s) (hin : script.cmds ⊆ cmds) (he : Exec (Seen (census cmds)) script s o) :
    o.Holds cmds := by
  induction he with
  | skip s => exact h
  | command inner sets c s => exact ⟨hin (by simp [Script.cmds]), h⟩
  | substitution hok hu hp ha he ih =>
    simp only [Script.cmds, List.append_subset, List.cons_subset] at hin
    exact ih ((h.touched hu).assigns hin.2.1 hp.subset ha) hin.1
  | assignment hw ha =>
    simp only [Script.cmds, List.append_subset, List.cons_subset] at hin
    exact (h.acts hin.2.1 ha).2
  | action hw ha hu hl =>
    simp only [Script.cmds, List.append_subset, List.cons_subset] at hin
    obtain ⟨hbefore, hinside⟩ := h.acts hin.2.1 ha
    exact hbefore.leaves (hinside.touched hu) hl
  | call hw ha hf hb hl ih =>
    simp only [Script.cmds, List.append_subset, List.cons_subset] at hin
    obtain ⟨hbefore, hinside⟩ := h.acts hin.2.1 ha
    exact hbefore.leaves (ih hinside (hinside.funs _ _ hf)) hl
  | called hw ha hf hb ih =>
    simp only [Script.cmds, List.append_subset, List.cons_subset] at hin
    obtain ⟨-, hinside⟩ := h.acts hin.2.1 ha
    exact ih hinside (hinside.funs _ _ hf)
  | first he ih => exact ih h (List.append_subset.mp hin).1
  | second ha he iha ih =>
    obtain ⟨hleft, hright⟩ := List.append_subset.mp hin
    exact ih (iha h hleft) hright
  | left he ih => exact ih h (List.append_subset.mp hin).1
  | right he ih => exact ih h (List.append_subset.mp hin).2
  | subshell a s => exact h
  | within he ih => exact ih h hin
  | done a s => exact h
  | round he ih => exact ih h hin
  | rounds ha he iha ih => exact ih (iha h hin) hin
  | noItem names a s => exact h
  | item hu he ih => exact ih (h.touched hu) hin
  | items hu ha he iha ih => exact ih (iha (h.touched hu) hin) hin
  | function name body s =>
    refine ⟨h.static, fun f found hf => ?_⟩
    simp only at hf
    split at hf
    · cases hf
      exact hin
    · exact h.funs f found hf

end Running

end TinyCloud.Guard

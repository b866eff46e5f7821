import GoOutline.Proofs.Token.Longest
import Mathlib.Data.List.Basic

/-!
# Scanning code

What the scanner finds where only tokens are looked for that may come outside of strings.

* `isCodeToken`, `IsCodeSet`: these tokens, and sets of them.
* `step_derived`: after its first character a token is read on as long as some token goes on.
* `step_candidates_skip`: white space before a token is skipped.
* `found_scanFrom_afterBreak`: where a line break is a token, several of them are one.
* `found_scan`: all in all, white space is skipped and then the longest token is found.
-/

namespace GoOutline.Token

open GoOutline.Grammar

/-! ### Tokens of code -/

/-- Whether a token may come outside of strings and has characters. -/
def isCodeToken : Terminal → Bool
  | .rawText | .quotedText | .escape | .closingQuote | .endOfInput => false
  | _ => true

theorem patterns_getD (t : Terminal) : patterns.getD t.ctorIdx .nothing = t.pattern := by
  cases t <;> rfl

theorem mem_all (t : Terminal) : t ∈ Terminal.all := by
  cases t <;> decide

theorem weight_eq_zero {t : Terminal} (h : isCodeToken t) : t.weight = 0 := by
  cases t <;> first | rfl | cases h

theorem isImmediate_eq_false {t : Terminal} (h : isCodeToken t) : t.isImmediate = false := by
  cases t <;> first | rfl | cases h

theorem isDone_pattern_eq_false {t : Terminal} (h : isCodeToken t) : t.pattern.isDone = false := by
  cases t <;> first | rfl | cases h

theorem mem_blanks_of_isBlank {c : Char} (h : isBlank c) :
    c ∈ ['\t', '\n', '\x0b', '\x0c', '\r', ' '] := by
  rcases Bool.or_eq_true_iff.mp h with h | h
  · obtain ⟨hlo, hhi⟩ := Bool.and_eq_true_iff.mp h
    have hlo : 9 ≤ c.toNat := of_decide_eq_true hlo
    have hhi : c.toNat ≤ 13 := of_decide_eq_true hhi
    have hc : c = Char.ofNat c.toNat := (Char.ofNat_toNat c).symm
    have hcases : c.toNat = 9 ∨ c.toNat = 10 ∨ c.toNat = 11 ∨ c.toNat = 12 ∨ c.toNat = 13 := by
      omega
    rcases hcases with h | h | h | h | h <;> rw [hc, h] <;> decide
  · simp [beq_iff_eq.mp h]

/-- No token but the line break begins with white space. -/
theorem after_blank {t : Terminal} {c : Char} (ht : isCodeToken t) (hc : isBlank c)
    (hbreak : ¬ (t = .lineBreak ∧ c = '\n')) : t.pattern.after c = .nothing := by
  have hmem := mem_blanks_of_isBlank hc
  simp only [List.mem_cons, List.not_mem_nil, or_false] at hmem
  rcases hmem with rfl | rfl | rfl | rfl | rfl | rfl <;> cases t <;>
    first | rfl | exact absurd ht (by decide) | exact absurd ⟨rfl, rfl⟩ hbreak

/-! ### Scanning for tokens of code -/

/-- The candidates for some tokens after `read`. -/
def derived (ts : List Terminal) (read : List Char) : List Candidate :=
  ts.filterMap fun t =>
    let p := read.foldl (fun p c => p.after c) t.pattern
    if p.isNothing then none else some ⟨t, p, false⟩

theorem derived_cons (t : Terminal) (ts : List Terminal) (read : List Char) :
    derived (t :: ts) read =
      if (read.foldl (fun p c => p.after c) t.pattern).isNothing then derived ts read
      else ⟨t, read.foldl (fun p c => p.after c) t.pattern, false⟩ :: derived ts read := by
  rw [derived, List.filterMap_cons]
  dsimp only
  split
  · next h =>
    split at h
    · next hp => rw [if_pos hp]; rfl
    · cases h
  · next k h =>
    split at h
    · cases h
    · next hp => rw [if_neg hp]; cases h; rfl

theorem mem_derived {ts : List Terminal} {read : List Char} {k : Candidate}
    (h : k ∈ derived ts read) : k.token ∈ ts ∧ k.isLeading = false ∧
      k.pattern = read.foldl (fun p c => p.after c) k.token.pattern := by
  obtain ⟨t, ht, hk⟩ := List.mem_filterMap.mp h
  dsimp only at hk
  split at hk
  · cases hk
  · cases hk
    exact ⟨ht, rfl, rfl⟩

theorem isNothing_iff {p : Pattern} : p.isNothing ↔ p = .nothing := by
  cases p <;> simp [Pattern.isNothing]

theorem completed_derived (ts : List Terminal) (read : List Char) :
    completed (derived ts read) = matching ts read := by
  rw [completed_eq_best, matching]
  congr 1
  induction ts with
  | nil => rfl
  | cons t ts ih =>
    cases hp : (read.foldl (fun p c => p.after c) t.pattern).isNothing with
    | true =>
      have hnot : t.pattern.accepts read = false := by
        rw [Pattern.accepts, isNothing_iff.mp hp]
        rfl
      rw [derived_cons, if_pos hp, List.filter_cons, hnot, ih]
      rfl
    | false =>
      rw [derived_cons, if_neg (by simp [hp]), List.filter_cons, List.filter_cons, Pattern.accepts]
      split
      · rw [List.map_cons, ih]
      · exact ih

theorem filterMap_goOn_derived (ts : List Terminal) (read : List Char) (c : Char) :
    (((derived ts read).map fun k => (k, k.after c)).filterMap fun n => n.1.goOn n.2) =
      derived ts (read ++ [c]) := by
  rw [List.filterMap_map, derived, List.filterMap_filterMap, derived]
  congr 1
  funext t
  simp only [List.foldl_append, List.foldl_cons, List.foldl_nil]
  split
  · next h => simp [isNothing_iff.mp h, Pattern.after, Pattern.isNothing]
  · next h => simp [Candidate.after, Candidate.goOn]

theorem foldl_weight_eq_zero {c : Char} {ks : List Candidate} (h : ∀ k ∈ ks, k.token.weight = 0) :
    (ks.map fun k => (k, k.after c)).foldl
      (fun w n => if n.2.1.isNothing then w else max w n.1.token.weight) 0 = 0 := by
  induction ks with
  | nil => rfl
  | cons k ks ih =>
    rw [List.map_cons, List.foldl_cons, h k List.mem_cons_self, Nat.max_self, ite_self]
    exact ih fun k hk => h k (List.mem_cons_of_mem _ hk)

/-- Tokens of code are read on as long as one of them goes on. -/
theorem step_derived {ts : List Terminal} (hts : ∀ t ∈ ts, isCodeToken t) (read : List Char)
    (c : Char) :
    step (derived ts read) c =
      if (derived ts (read ++ [c])).isEmpty then none else some ⟨derived ts (read ++ [c]), false⟩ := by
  have hleading : (derived ts read).any (·.isLeading) = false := by
    rw [List.any_eq_false]
    intro k hk
    simp [(mem_derived hk).2.1]
  have hweight : ∀ k ∈ derived ts read, k.token.weight = 0 := fun k hk =>
    weight_eq_zero (hts k.token (mem_derived hk).1)
  have hcompleted : ∀ t ∈ completed (derived ts read), t.weight = 0 := by
    intro t ht
    rw [completed_derived] at ht
    exact weight_eq_zero (hts t (of_matching ht).1)
  rw [step, filterMap_goOn_derived, foldl_weight_eq_zero hweight, hleading]
  cases hempty : (derived ts (read ++ [c])).isEmpty with
  | true => rfl
  | false =>
    have hskipped : ((derived ts read).map fun k => (k, k.after c)).all (·.2.1.isNothing) = false := by
      obtain ⟨k, hk⟩ := List.isEmpty_eq_false_iff_exists_mem.mp hempty
      rw [← filterMap_goOn_derived, List.filterMap_map, List.mem_filterMap] at hk
      obtain ⟨j, hj, hgo⟩ := hk
      rw [List.all_eq_false]
      refine ⟨(j, j.after c), List.mem_map.mpr ⟨j, hj, rfl⟩, fun hnothing => ?_⟩
      have hlead := (mem_derived hj).2.1
      simp [Candidate.goOn, Candidate.after, hlead] at hgo
      exact absurd hnothing (by simp [Candidate.after, hgo])
    rw [hskipped]
    cases hdone : completed (derived ts read) with
    | none => rfl
    | some t => simp [hcompleted t hdone]

/-- Where no token goes on, there is no longer one. -/
theorem longest_eq_none {ts : List Terminal} {read : List Char} (h : derived ts read = [])
    (text : List Char) : longest ts read text = none := by
  have hmatch : matching ts read = none := by rw [← completed_derived, h]; rfl
  induction text generalizing read with
  | nil => rw [longest, hmatch, Option.map_none]
  | cons c text ih =>
    have hnext : derived ts (read ++ [c]) = [] := by rw [← filterMap_goOn_derived, h]; rfl
    rw [longest, hmatch, ih hnext (by rw [← completed_derived, hnext]; rfl)]
    rfl

theorem map_found (space read : List Char) (o : Option Terminal) :
    o.map (Cursor.found ⟨space, read.reverse⟩) =
      (o.map (·, read)).map fun q => ⟨q.1, space.reverse, q.2⟩ := by
  cases o with
  | none => rfl
  | some t => simp [Cursor.found]

theorem scanFrom_of_step {atEnd : Option Terminal} {ks : List Candidate} {c : Char}
    {progress : Progress} (h : step ks c = some progress) (text : List Char) (u : Cursor)
    (sofar : Option Scanned) :
    scanFrom atEnd (c :: text) ks u sofar = scanFrom atEnd text progress.candidates
      (u.push c progress.isSkipped) (((completed ks).map u.found).or sofar) := by
  rw [scanFrom, h]

theorem found_scanFrom_of_stop {atEnd : Option Terminal} {ks : List Candidate} {c : Char}
    (h : step ks c = none) (text : List Char) (u : Cursor) (sofar : Option Scanned) :
    (scanFrom atEnd (c :: text) ks u sofar).found = ((completed ks).map u.found).or sofar := by
  rw [scanFrom, h]

theorem push_read (space read : List Char) (c : Char) :
    Cursor.push ⟨space, read.reverse⟩ c false = ⟨space, (read ++ [c]).reverse⟩ := by
  simp [Cursor.push]

/-- What is found of tokens of code is the longest one. -/
theorem found_scanFrom_derived {ts : List Terminal} (hts : ∀ t ∈ ts, isCodeToken t)
    (atEnd : Option Terminal) (text : List Char) {read : List Char} (hread : read ≠ [])
    (space : List Char) (sofar : Option Scanned) :
    (scanFrom atEnd text (derived ts read) ⟨space, read.reverse⟩ sofar).found =
      ((longest ts read text).map fun q => ⟨q.1, space.reverse, q.2⟩).or sofar := by
  induction text generalizing read sofar with
  | nil =>
    have hne : read.reverse.isEmpty = false := by simpa using hread
    rw [scanFrom, completed_derived, longest, ← map_found]
    simp only [hne, Bool.false_eq_true, if_false]
  | cons c text ih =>
    have hstep := step_derived hts read c
    rw [longest]
    cases hempty : (derived ts (read ++ [c])).isEmpty with
    | true =>
      rw [hempty, if_pos rfl] at hstep
      rw [found_scanFrom_of_stop hstep, longest_eq_none (List.isEmpty_iff.mp hempty), Option.none_or,
        completed_derived, map_found]
    | false =>
      rw [hempty, if_neg Bool.false_ne_true] at hstep
      rw [scanFrom_of_step hstep, push_read, ih (by simp), completed_derived, map_found,
        Option.map_or, Option.or_assoc]

/-! ### White space -/

/-- The tokens of a set, but for the end of the text. -/
def tokensIn (set : Nat) : List Terminal := (tokensOf set).filter (· ≠ .endOfInput)

/-- A set of tokens that may come outside of strings. A comment may come anywhere. -/
structure IsCodeSet (set : Nat) : Prop where
  comment : Terminal.comment.isIn set
  isCode : ∀ t ∈ tokensIn set, isCodeToken t

/-- Whether a character is skipped before a token: a line break only where it is no token. -/
def isSkipped (set : Nat) (c : Char) : Bool :=
  isBlank c && !(c == '\n' && Terminal.lineBreak.isIn set)

theorem mem_tokensIn {set : Nat} {t : Terminal} :
    t ∈ tokensIn set ↔ t.isIn set ∧ t ≠ .endOfInput := by
  simp [tokensIn, tokensOf, mem_all, and_comm]

theorem candidates_eq (set : Nat) : candidates set = (tokensIn set).map .start := by
  rw [candidates, tokensIn]
  induction tokensOf set with
  | nil => rfl
  | cons t ts ih =>
    by_cases h : t = .endOfInput <;> simp [h, ih]

theorem start_eq {t : Terminal} (h : isCodeToken t) : Candidate.start t = ⟨t, t.pattern, true⟩ := by
  rw [Candidate.start, patterns_getD, isImmediate_eq_false h]
  rfl

section

variable {set : Nat} (hset : IsCodeSet set)

include hset

theorem completed_candidates : completed (candidates set) = none := by
  rw [completed_eq_best, candidates_eq, best_eq_none_iff, List.map_eq_nil_iff,
    List.filter_eq_nil_iff]
  intro k hk
  obtain ⟨t, ht, rfl⟩ := List.mem_map.mp hk
  rw [start_eq (hset.isCode t ht), isDone_pattern_eq_false (hset.isCode t ht)]
  rintro ⟨⟩

theorem candidates_ne_nil : candidates set ≠ [] := by
  rw [candidates_eq]
  refine List.ne_nil_of_mem (a := Candidate.start .comment) (List.mem_map.mpr ⟨_, ?_, rfl⟩)
  exact mem_tokensIn.mpr ⟨hset.comment, by decide⟩

/-- White space before a token is skipped. -/
theorem step_candidates_skip {c : Char} (hc : isSkipped set c) :
    step (candidates set) c = some ⟨candidates set, true⟩ := by
  obtain ⟨hblank, hbreak⟩ := Bool.and_eq_true_iff.mp hc
  have hafter : ∀ t ∈ tokensIn set, (Candidate.start t).after c = (.nothing, true) := by
    intro t ht
    rw [start_eq (hset.isCode t ht), Candidate.after, after_blank (hset.isCode t ht) hblank, hblank]
    · rfl
    · rintro ⟨rfl, rfl⟩
      simp [(mem_tokensIn.mp ht).1] at hbreak
  have hnexts : ((candidates set).map fun k => (k, k.after c)) =
      (tokensIn set).map fun t => (Candidate.start t, .nothing, true) := by
    rw [candidates_eq, List.map_map]
    exact List.map_congr_left fun t ht => by rw [Function.comp, hafter t ht]
  have hleft : ((tokensIn set).map fun t => (Candidate.start t, Pattern.nothing, true)).filterMap
      (fun n => n.1.goOn n.2) = candidates set := by
    rw [candidates_eq, List.filterMap_map, ← List.filterMap_eq_map]
    refine List.filterMap_congr fun t ht => ?_
    show (Candidate.start t).goOn (.nothing, true) = some (.start t)
    rw [start_eq (hset.isCode t ht), Candidate.goOn, if_pos rfl, patterns_getD]
    rfl
  rw [step, hnexts, hleft, completed_candidates hset]
  simp [candidates_ne_nil hset, Pattern.isNothing]

/-- The first character of a token is read. -/
theorem step_candidates_read {c : Char} (hc : isBlank c = false) :
    step (candidates set) c =
      if (derived (tokensIn set) [c]).isEmpty then none
      else some ⟨derived (tokensIn set) [c], false⟩ := by
  have hafter : ∀ t ∈ tokensIn set, (Candidate.start t).after c = (t.pattern.after c, false) := by
    intro t ht
    rw [start_eq (hset.isCode t ht), Candidate.after, hc]
    rfl
  have hnexts : ((candidates set).map fun k => (k, k.after c)) =
      (tokensIn set).map fun t => (Candidate.start t, t.pattern.after c, false) := by
    rw [candidates_eq, List.map_map]
    exact List.map_congr_left fun t ht => by rw [Function.comp, hafter t ht]
  have hleft : ((tokensIn set).map fun t => (Candidate.start t, t.pattern.after c, false)).filterMap
      (fun n => n.1.goOn n.2) = derived (tokensIn set) [c] := by
    rw [List.filterMap_map, derived]
    refine List.filterMap_congr fun t ht => ?_
    show (Candidate.start t).goOn (t.pattern.after c, false) = _
    rw [start_eq (hset.isCode t ht), Candidate.goOn, if_neg Bool.false_ne_true]
    rfl
  rw [step, hnexts, hleft, completed_candidates hset]
  cases hempty : (derived (tokensIn set) [c]).isEmpty with
  | true => rfl
  | false =>
    have hread : ((tokensIn set).map fun t =>
        (Candidate.start t, t.pattern.after c, false)).all (·.2.1.isNothing) = false := by
      obtain ⟨k, hk⟩ := List.isEmpty_eq_false_iff_exists_mem.mp hempty
      rw [← hleft, List.filterMap_map, List.mem_filterMap] at hk
      obtain ⟨t, ht, hgo⟩ := hk
      rw [List.all_eq_false]
      refine ⟨_, List.mem_map.mpr ⟨t, ht, rfl⟩, fun hnothing => ?_⟩
      simp [Candidate.goOn, hnothing] at hgo
    rw [hread]
    rfl

end

/-! ### Line breaks -/

/-- A candidate after a line break: the line break is complete, and others have not begun. -/
def afterBreak (t : Terminal) : Candidate :=
  if t = .lineBreak then ⟨.lineBreak, .alt .done (.text ['\n']), true⟩ else .start t

theorem token_afterBreak (t : Terminal) : (afterBreak t).token = t := by
  rw [afterBreak]
  split
  · next h => exact h.symm
  · rfl

theorem isLeading_afterBreak {t : Terminal} (h : isCodeToken t) : (afterBreak t).isLeading := by
  rw [afterBreak]
  split
  · rfl
  · rw [start_eq h]

theorem isDone_afterBreak {t : Terminal} (h : isCodeToken t) :
    (afterBreak t).pattern.isDone = decide (t = .lineBreak) := by
  rw [afterBreak]
  split
  · next ht => rw [ht]; rfl
  · next ht => rw [start_eq h, isDone_pattern_eq_false h]; simp [ht]

/-- What a character leaves of a candidate after a line break. -/
theorem after_afterBreak {t : Terminal} (h : isCodeToken t) (c : Char) :
    (afterBreak t).after c = (if t = .lineBreak then Terminal.lineBreak.pattern.after c
      else t.pattern.after c, isBlank c) := by
  rw [afterBreak]
  split
  · next ht =>
    have hdone : (Pattern.alt .done (.text ['\n'])).after c = Terminal.lineBreak.pattern.after c := rfl
    rw [Candidate.after, hdone]
    rfl
  · rw [start_eq h]
    rfl

theorem token_of_goOn {k j : Candidate} {next : Pattern × Bool} (h : k.goOn next = some j) :
    j.token = k.token := by
  rw [Candidate.goOn] at h
  split at h
  · cases h
    rfl
  · split at h
    · cases h
    · cases h
      rfl

theorem after_start {t : Terminal} (h : isCodeToken t) (c : Char) :
    (Candidate.start t).after c = (t.pattern.after c, isBlank c) := by
  rw [start_eq h]
  rfl

section

variable {set : Nat} (hset : IsCodeSet set)

include hset

/-- A line break is read, before others and after others. -/
theorem left_break {f : Terminal → Candidate} (htoken : ∀ t ∈ tokensIn set, (f t).token = t)
    (hafter : ∀ t ∈ tokensIn set, (f t).after '\n' = (t.pattern.after '\n', true)) :
    (((tokensIn set).map f).map fun k => (k, k.after '\n')).filterMap (fun n => n.1.goOn n.2) =
      (tokensIn set).map afterBreak := by
  rw [List.map_map, List.filterMap_map, ← List.filterMap_eq_map]
  refine List.filterMap_congr fun t ht => ?_
  show (f t).goOn ((f t).after '\n') = some (afterBreak t)
  rw [hafter t ht, Candidate.goOn, if_pos rfl, htoken t ht, patterns_getD, afterBreak]
  split
  · next h => rw [h]; rfl
  · next h =>
    rw [after_blank (hset.isCode t ht) rfl (fun hbreak => h hbreak.1), start_eq (hset.isCode t ht)]
    rfl

omit hset in
theorem isSkipped_break (hbreak : Terminal.lineBreak.isIn set) {f : Terminal → Candidate}
    (hafter : ∀ t ∈ tokensIn set, (f t).after '\n' = (t.pattern.after '\n', true)) :
    (((tokensIn set).map f).map fun k => (k, k.after '\n')).all (·.2.1.isNothing) = false := by
  have hmem : Terminal.lineBreak ∈ tokensIn set := mem_tokensIn.mpr ⟨hbreak, by decide⟩
  rw [List.map_map, List.all_eq_false]
  refine ⟨_, List.mem_map.mpr ⟨_, hmem, rfl⟩, ?_⟩
  simp only [Function.comp, hafter _ hmem]
  decide

theorem tokensIn_ne_nil : tokensIn set ≠ [] :=
  List.ne_nil_of_mem (mem_tokensIn.mpr ⟨hset.comment, by decide⟩)

theorem step_candidates_break (hbreak : Terminal.lineBreak.isIn set) :
    step (candidates set) '\n' = some ⟨(tokensIn set).map afterBreak, false⟩ := by
  have hafter : ∀ t ∈ tokensIn set,
      (Candidate.start t).after '\n' = (t.pattern.after '\n', true) := fun t ht =>
    after_start (hset.isCode t ht) '\n'
  rw [step, completed_candidates hset, candidates_eq, left_break hset (fun _ _ => rfl) hafter,
    isSkipped_break hbreak hafter]
  simp [tokensIn_ne_nil hset]

theorem completed_afterBreak (hbreak : Terminal.lineBreak.isIn set) :
    completed ((tokensIn set).map afterBreak) = some .lineBreak := by
  have hmem : ∀ t, t ∈ (((tokensIn set).map afterBreak).filter (·.pattern.isDone)).map (·.token) ↔
      t = .lineBreak := by
    intro t
    simp only [List.mem_map, List.mem_filter]
    constructor
    · rintro ⟨k, ⟨⟨u, hu, rfl⟩, hdone⟩, rfl⟩
      rw [isDone_afterBreak (hset.isCode u hu)] at hdone
      rw [token_afterBreak, of_decide_eq_true hdone]
    · rintro rfl
      exact ⟨_, ⟨⟨_, mem_tokensIn.mpr ⟨hbreak, by decide⟩, rfl⟩, rfl⟩, rfl⟩
  rw [completed_eq_best]
  cases hbest : best _ with
  | none =>
    rw [best_eq_none_iff] at hbest
    have := (hmem .lineBreak).mpr rfl
    rw [hbest] at this
    cases this
  | some t => rw [(hmem t).mp (mem_of_best hbest)]

theorem foldl_weight_afterBreak (c : Char) :
    (((tokensIn set).map afterBreak).map fun k => (k, k.after c)).foldl
      (fun w n => if n.2.1.isNothing then w else max w n.1.token.weight) 0 = 0 := by
  refine foldl_weight_eq_zero fun k hk => ?_
  obtain ⟨t, ht, rfl⟩ := List.mem_map.mp hk
  rw [token_afterBreak, weight_eq_zero (hset.isCode t ht)]

/-- Further line breaks are read. -/
theorem step_afterBreak_break (hbreak : Terminal.lineBreak.isIn set) :
    step ((tokensIn set).map afterBreak) '\n' = some ⟨(tokensIn set).map afterBreak, false⟩ := by
  have hafter : ∀ t ∈ tokensIn set, (afterBreak t).after '\n' = (t.pattern.after '\n', true) := by
    intro t ht
    rw [after_afterBreak (hset.isCode t ht)]
    split
    · next h => rw [h]; rfl
    · rfl
  have hmem : Terminal.lineBreak ∈ tokensIn set := mem_tokensIn.mpr ⟨hbreak, by decide⟩
  have hother : ((tokensIn set).map afterBreak).all (·.token != .lineBreak) = false := by
    rw [List.all_eq_false]
    exact ⟨_, List.mem_map.mpr ⟨_, hmem, rfl⟩, by decide⟩
  rw [step, completed_afterBreak hset hbreak, left_break hset (fun t _ => token_afterBreak t) hafter,
    isSkipped_break hbreak hafter, foldl_weight_afterBreak hset, Option.any_some, hother]
  simp [tokensIn_ne_nil hset, Terminal.weight]

/-- A line break ends where anything else follows. -/
theorem step_afterBreak_other (hbreak : Terminal.lineBreak.isIn set) {c : Char} (hc : c ≠ '\n') :
    step ((tokensIn set).map afterBreak) c = none := by
  rw [step, completed_afterBreak hset hbreak, foldl_weight_afterBreak hset, Option.any_some]
  cases hblank : isBlank c with
  | true =>
    have hskipped : (((tokensIn set).map afterBreak).map fun k => (k, k.after c)).all
        (·.2.1.isNothing) = true := by
      rw [List.map_map, List.all_eq_true]
      intro n hn
      obtain ⟨t, ht, rfl⟩ := List.mem_map.mp hn
      have hcode := hset.isCode t ht
      simp only [Function.comp, after_afterBreak hcode]
      split
      · rw [after_blank rfl hblank fun h => hc h.2]
        rfl
      · rw [after_blank hcode hblank fun h => hc h.2]
        rfl
    rw [hskipped]
    simp [Terminal.weight]
  | false =>
    have hleading : ((tokensIn set).map afterBreak).any (·.isLeading) = true := by
      obtain ⟨t, ht⟩ := List.exists_mem_of_ne_nil _ (tokensIn_ne_nil hset)
      rw [List.any_eq_true]
      exact ⟨_, List.mem_map.mpr ⟨t, ht, rfl⟩, isLeading_afterBreak (hset.isCode t ht)⟩
    have hother : ((((tokensIn set).map afterBreak).map fun k => (k, k.after c)).filterMap
        fun n => n.1.goOn n.2).all (·.token != .lineBreak) = true := by
      rw [List.map_map, List.filterMap_map, List.all_eq_true]
      intro k hk
      obtain ⟨t, ht, hgo⟩ := List.mem_filterMap.mp hk
      have hcode := hset.isCode t ht
      rw [token_of_goOn hgo]
      show ((afterBreak t).token != .lineBreak) = true
      rw [token_afterBreak, bne_iff_ne]
      rintro rfl
      have hnothing : Terminal.lineBreak.pattern.after c = .nothing := if_neg hc
      have hnone : (afterBreak .lineBreak).goOn ((afterBreak .lineBreak).after c) = none := by
        rw [after_afterBreak hcode, if_pos rfl, hnothing, hblank]
        rfl
      cases hgo.symm.trans hnone
    rw [hleading, hother]
    simp [Terminal.weight]

/-- A line break with all that follow it is one token. -/
theorem found_scanFrom_afterBreak (hbreak : Terminal.lineBreak.isIn set) (atEnd : Option Terminal)
    (text : List Char) {read : List Char} (hread : read ≠ []) (space : List Char)
    (sofar : Option Scanned) :
    (scanFrom atEnd text ((tokensIn set).map afterBreak) ⟨space, read.reverse⟩ sofar).found =
      some ⟨.lineBreak, space.reverse, read ++ text.takeWhile (· = '\n')⟩ := by
  induction text generalizing read sofar with
  | nil =>
    have hne : read.reverse.isEmpty = false := by simpa using hread
    rw [scanFrom, completed_afterBreak hset hbreak]
    simp [hne, Cursor.found]
  | cons c text ih =>
    by_cases hc : c = '\n'
    · subst hc
      rw [scanFrom_of_step (step_afterBreak_break hset hbreak), push_read, ih (by simp)]
      simp
    · rw [found_scanFrom_of_stop (step_afterBreak_other hset hbreak hc),
        completed_afterBreak hset hbreak]
      simp [hc, Cursor.found]

/-! ### The next token of code -/

omit hset in
/-- The next token of code after white space. -/
def nextToken (set : Nat) (space : List Char) : List Char → Option Scanned
  | [] => (endToken set).map (⟨·, space, []⟩)
  | c :: rest =>
    if c = '\n' then some ⟨.lineBreak, space, '\n' :: rest.takeWhile (· = '\n')⟩
    else (longest (tokensIn set) [c] rest).map fun q => ⟨q.1, space, q.2⟩

/-- White space is skipped, and then the longest token is found. -/
theorem found_scan (text : List Char) :
    (scan set text).found =
      nextToken set (text.takeWhile (isSkipped set)) (text.dropWhile (isSkipped set)) := by
  have hfrom : ∀ space, (scanFrom (endToken set) text (candidates set) ⟨space, []⟩ none).found =
      nextToken set (space.reverse ++ text.takeWhile (isSkipped set))
        (text.dropWhile (isSkipped set)) := by
    induction text with
    | nil =>
      intro space
      rw [scanFrom, completed_candidates hset]
      show ((endToken set).map (Cursor.found ⟨space, [].reverse⟩)).or none = _
      rw [Option.or_none, map_found]
      simp [nextToken, Function.comp_def]
    | cons c text ih =>
      intro space
      cases hc : isSkipped set c with
      | true =>
        rw [scanFrom_of_step (step_candidates_skip hset hc), completed_candidates hset,
          List.takeWhile_cons_of_pos hc, List.dropWhile_cons_of_pos hc]
        show (scanFrom _ text (candidates set) ⟨c :: space, []⟩ none).found = _
        rw [ih, List.reverse_cons, List.append_assoc, List.singleton_append]
      | false =>
        rw [List.takeWhile_cons_of_neg (by simp [hc]), List.dropWhile_cons_of_neg (by simp [hc]),
          List.append_nil, nextToken]
        by_cases hbreak : c = '\n'
        · subst hbreak
          have hin : Terminal.lineBreak.isIn set := by simpa [isSkipped, isBlank] using hc
          rw [if_pos rfl, scanFrom_of_step (step_candidates_break hset hin)]
          exact found_scanFrom_afterBreak hset hin _ text (List.cons_ne_nil '\n' []) space _
        · have hblank : isBlank c = false := by simpa [isSkipped, hbreak] using hc
          have hstep := step_candidates_read hset hblank
          rw [if_neg hbreak]
          cases hempty : (derived (tokensIn set) [c]).isEmpty with
          | true =>
            rw [hempty, if_pos rfl] at hstep
            rw [found_scanFrom_of_stop hstep, completed_candidates hset,
              longest_eq_none (List.isEmpty_iff.mp hempty)]
            rfl
          | false =>
            rw [hempty, if_neg Bool.false_ne_true] at hstep
            rw [scanFrom_of_step hstep, completed_candidates hset]
            exact (found_scanFrom_derived hset.isCode _ text (List.cons_ne_nil c []) space none).trans
              Option.or_none
  exact hfrom []

end

end GoOutline.Token

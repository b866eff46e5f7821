import GoOutline.Proofs.Token.Accept

/-!
# The longest token

* `best`, `matching`: the preferred one of some tokens, and of those that are spelled like a text.
* `longest`: the longest beginning of a text that is spelled like one of some tokens.
* `longest_append`: it ends before a text that no token goes on with.
* `matching_eq_none_of_longest`: no longer beginning is spelled like a token.
* `longest_of_only`: if only one beginning of a text can be a token, it is the longest.
-/

namespace GoOutline.Token

open GoOutline.Grammar

/-! ### The preferred token -/

theorem prefer_eq (o : Option Terminal) (t : Terminal) : prefer o t = some t ∨ prefer o t = o := by
  cases o with
  | none => exact .inl rfl
  | some u =>
    rw [prefer]
    split
    · exact .inr rfl
    · exact .inl rfl

/-- The preferred one of some tokens. -/
def best (ts : List Terminal) : Option Terminal := ts.foldl prefer none

theorem completed_eq_best (ks : List Candidate) :
    completed ks = best ((ks.filter (·.pattern.isDone)).map (·.token)) := by
  rw [completed, best, List.foldl_map, List.foldl_filter]

theorem foldl_prefer (ts : List Terminal) (o : Option Terminal) :
    ts.foldl prefer o = o ∨ ∃ t ∈ ts, ts.foldl prefer o = some t := by
  induction ts generalizing o with
  | nil => exact .inl rfl
  | cons u ts ih =>
    rw [List.foldl_cons]
    rcases ih (prefer o u) with h | ⟨t, ht, h⟩
    · rcases prefer_eq o u with hu | hu
      · exact .inr ⟨u, List.mem_cons_self, h.trans hu⟩
      · exact .inl (h.trans hu)
    · exact .inr ⟨t, List.mem_cons_of_mem u ht, h⟩

theorem mem_of_best {ts : List Terminal} {t : Terminal} (h : best ts = some t) : t ∈ ts := by
  rcases foldl_prefer ts none with hnone | ⟨u, hu, hsome⟩
  · cases h.symm.trans hnone
  · cases h.symm.trans hsome
    exact hu

theorem best_eq_none_iff {ts : List Terminal} : best ts = none ↔ ts = [] := by
  constructor
  · intro h
    cases ts with
    | nil => rfl
    | cons u ts =>
      rcases foldl_prefer ts (some u) with hu | ⟨t, -, ht⟩
      · cases h.symm.trans hu
      · cases h.symm.trans ht
  · rintro rfl
    rfl

/-- The preferred one of the tokens that are spelled like the text. -/
def matching (ts : List Terminal) (w : List Char) : Option Terminal :=
  best (ts.filter (·.pattern.accepts w))

theorem matching_eq_none_iff {ts : List Terminal} {w : List Char} :
    matching ts w = none ↔ ∀ t ∈ ts, t.pattern.accepts w = false := by
  rw [matching, best_eq_none_iff, List.filter_eq_nil_iff]
  simp

theorem of_matching {ts : List Terminal} {w : List Char} {t : Terminal}
    (h : matching ts w = some t) : t ∈ ts ∧ t.pattern.accepts w :=
  List.mem_filter.mp (mem_of_best h)

/-- The longest beginning of a text that is spelled like a token, after `read`. -/
def longest (ts : List Terminal) : (read text : List Char) → Option (Terminal × List Char)
  | read, [] => (matching ts read).map (·, read)
  | read, c :: text =>
    (longest ts (read ++ [c]) text).or ((matching ts read).map (·, read))

theorem of_longest {ts : List Terminal} {read text w : List Char} {t : Terminal}
    (h : longest ts read text = some (t, w)) :
    matching ts w = some t ∧ ∃ v rest, w = read ++ v ∧ text = v ++ rest := by
  induction text generalizing read with
  | nil =>
    obtain ⟨u, hu, heq⟩ := Option.map_eq_some_iff.mp h
    cases heq
    exact ⟨hu, [], [], by simp, rfl⟩
  | cons c text ih =>
    rcases Option.or_eq_some_iff.mp h with h | ⟨-, h⟩
    · obtain ⟨hmatch, v, rest, rfl, rfl⟩ := ih h
      exact ⟨hmatch, c :: v, rest, by simp, rfl⟩
    · obtain ⟨u, hu, heq⟩ := Option.map_eq_some_iff.mp h
      cases heq
      exact ⟨hu, [], c :: text, by simp, rfl⟩

/-- The longest token ends before a text that none goes on with. -/
theorem longest_append {ts : List Terminal} {read text rest : List Char}
    (h : ∀ v, v ≠ [] → v <+: rest → matching ts (read ++ text ++ v) = none) :
    longest ts read (text ++ rest) = longest ts read text := by
  induction text generalizing read with
  | nil =>
    rw [List.nil_append]
    induction rest generalizing read with
    | nil => rfl
    | cons c rest ih =>
      have hnone : longest ts (read ++ [c]) rest = none := by
        rw [ih, longest, matching_eq_none_iff.mpr, Option.map_none]
        · exact matching_eq_none_iff.mp
            (by simpa using h [c] (by simp) (List.prefix_cons_iff.mpr (.inr ⟨[], rfl, by simp⟩)))
        · intro v hv hprefix
          simpa using h (c :: v) (by simp) (List.cons_prefix_cons.mpr ⟨rfl, hprefix⟩)
      show (longest ts (read ++ [c]) rest).or _ = _
      rw [hnone, Option.none_or, longest]
  | cons c text ih =>
    rw [List.cons_append, longest, longest, ih]
    intro v hv hprefix
    simpa using h v hv hprefix

/-- No longer beginning of the text is spelled like a token. -/
theorem matching_eq_none_of_longest {ts : List Terminal} {read text v : List Char}
    {o : Option (Terminal × List Char)} (h : longest ts read text = o) (hv : v <+: text)
    (hlong : ∀ t w, o = some (t, w) → w.length < (read ++ v).length) :
    matching ts (read ++ v) = none := by
  subst h
  induction text generalizing read v with
  | nil =>
    obtain rfl := List.prefix_nil.mp hv
    rw [List.append_nil]
    cases hmatch : matching ts read with
    | none => rfl
    | some t =>
      have := hlong t read (by rw [longest, hmatch]; rfl)
      simp at this
  | cons c text ih =>
    cases v with
    | nil =>
      rw [List.append_nil] at hlong ⊢
      cases hmatch : matching ts read with
      | none => rfl
      | some t =>
        exfalso
        cases hmore : longest ts (read ++ [c]) text with
        | none =>
          have := hlong t read (by rw [longest, hmore, hmatch]; rfl)
          omega
        | some q =>
          obtain ⟨-, v, rest, hw, -⟩ := of_longest (t := q.1) (w := q.2) hmore
          have := hlong q.1 q.2 (by rw [longest, hmore]; rfl)
          rw [hw, List.append_assoc, List.length_append] at this
          omega
    | cons d v =>
      obtain ⟨rfl, htail⟩ := List.cons_prefix_cons.mp hv
      have hmore : ∀ t w, longest ts (read ++ [d]) text = some (t, w) →
          w.length < (read ++ [d] ++ v).length := by
        intro t w hw
        have := hlong t w (by rw [longest, hw]; rfl)
        simpa using this
      simpa using ih htail hmore

theorem matching_eq_some {ts : List Terminal} {w : List Char} {t : Terminal} (ht : t ∈ ts)
    (hw : t.pattern.accepts w) (honly : ∀ u ∈ ts, u.pattern.accepts w → u = t) :
    matching ts w = some t := by
  cases hmatch : matching ts w with
  | none => simp [matching_eq_none_iff.mp hmatch t ht] at hw
  | some u =>
    obtain ⟨hu, huw⟩ := of_matching hmatch
    rw [honly u hu huw]

theorem longest_self {ts : List Terminal} {read text : List Char} {t : Terminal}
    (h : matching ts (read ++ text) = some t) : longest ts read text = some (t, read ++ text) := by
  induction text generalizing read with
  | nil =>
    rw [List.append_nil] at h ⊢
    rw [longest, h]
    rfl
  | cons c text ih =>
    rw [longest, ih (by simpa using h)]
    simp

/-- If only one beginning of a text can be a token, it is the longest. -/
theorem longest_of_only {ts : List Terminal} {read : List Char} (part : List Char)
    {rest : List Char}
    (h : ∀ v, v <+: part ++ rest → matching ts (read ++ v) ≠ none → v = part) :
    longest ts read (part ++ rest) = (matching ts (read ++ part)).map (·, read ++ part) := by
  have happend : longest ts read (part ++ rest) = longest ts read part := by
    refine longest_append fun v hv hrest => ?_
    by_contra hmatch
    rw [List.append_assoc] at hmatch
    have hsame := h (part ++ v) (List.prefix_append_right_inj part |>.mpr hrest) hmatch
    exact hv (by simpa using hsame)
  rw [happend]
  cases hmatch : matching ts (read ++ part) with
  | some t => rw [longest_self hmatch]; rfl
  | none =>
    cases hlong : longest ts read part with
    | none => rfl
    | some q =>
      obtain ⟨hq, v, tail, hv, rfl⟩ := of_longest (t := q.1) (w := q.2) hlong
      rw [hv] at hq
      have hwhole : v = v ++ tail := by
        refine h v ?_ (by rw [hq]; rintro ⟨⟩)
        rw [List.append_assoc]
        exact List.prefix_append v _
      rw [← hwhole, hq] at hmatch
      cases hmatch

end GoOutline.Token

import GoOutline.Proofs.Parse.Same

/-!
# Reading a text with a comment and with a space

All readings of a text stay the same if a comment is replaced by a space.

* `Run.Same`, `Ready.Same`: readings of both texts that have come equally far.
* `Run.Same.take`, `Ready.Same.shift?`, `Ready.Same.roots`: each step keeps this.
* `same_hindmost`, `same_readyOf`, `same_nextOf`: so does a round, in which the readings farthest behind
  take their next token.
* `read?_blank`: the trees of both texts are the same, comments apart.
-/

namespace GoOutline.Parse

open GoOutline.Grammar GoOutline.Automaton GoOutline.Syntax GoOutline.Text GoOutline.Token List

section

variable {c after : List Char}

/-! ### Readings -/

variable (c after) in
/-- Readings of both texts that have come equally far. -/
structure Run.Same (r r' : Run) : Prop where
  stack : Stack.Same c after r.stack r'.stack
  rest : Parallel c after r.rest r'.rest
  space : r.space = r'.space

variable (c after) in
/-- Readings of both texts before the same token. -/
structure Ready.Same (q q' : Ready) : Prop where
  run : Run.Same c after q.run q'.run
  ahead : Ahead.Same c after q.ahead q'.ahead
  isEnd : q.isEnd = q'.isEnd

theorem Run.Same.state {r r' : Run} (h : Run.Same c after r r') : r.state = r'.state := h.stack.state

/-- The next token is the same. -/
theorem Run.Same.next? {text text' : List Char} {r r' : Run} (h : Run.Same c after r r')
    (hr : r.IsAt text) (hr' : r'.IsAt text') :
    Option.Rel (Ahead.Same c after) r.next? r'.next? := by
  unfold Run.next?
  dsimp only
  rw [hr.left_eq, hr'.left_eq, Nat.add_sub_cancel_left, Nat.add_sub_cancel_left, h.state, h.space]
  exact nextFrom_blank (comment_isIn_expected _) h.rest _ (Nat.lt_succ_self _) (Nat.lt_succ_self _)

theorem ne_quotes_of_word {text : List Char} {a : Ahead} (ha : a.IsAt text) (hword : a.look.isWord) :
    a.look.token ≠ .quote ∧ a.look.token ≠ .backquote := by
  obtain ⟨d, w, hw, hd, -⟩ := accepts_identifier_iff.mp (ha.word hword)
  have hspelled := ha.spelled
  rw [hw] at hspelled
  constructor
  · intro htoken
    rw [htoken] at hspelled
    rw [head_of_accepts_quote hspelled] at hd
    cases hd
  · intro htoken
    rw [htoken] at hspelled
    rw [head_of_accepts_backquote hspelled] at hd
    cases hd

theorem Ahead.Same.seenIn {text : List Char} {a a' : Ahead} (h : Ahead.Same c after a a')
    (ha : a.IsAt text) (s : ItemSet) : Ahead.Same c after (a.seenIn s) (a'.seenIn s) := by
  unfold Ahead.seenIn
  rw [← h.token, ← h.isWord]
  split
  · next hseen =>
    simp only [Bool.and_eq_true] at hseen
    obtain ⟨hquote, hback⟩ := ne_quotes_of_word ha hseen.1.2
    refine ⟨rfl, h.isWord, h.text, h.rest.imp_right fun hblanked => ?_⟩
    exact (hblanked.isBlanked hquote hback).blankedAfter (by simp) (by simp)
  · exact h

theorem Run.Same.reduce (hc : c ≠ []) {r r' : Run} (h : Run.Same c after r r') {i : Grammar.Item}
    (hi : (Head.nonterminal i.lhs).literal? = none) :
    Forall₂ (Run.Same c after) (r.reduce i) (r'.reduce i) := by
  unfold Run.reduce
  rw [forall₂_map_left_iff, forall₂_map_right_iff]
  exact (h.stack.reduce hc hi).imp fun s s' hs => ⟨hs, h.rest, h.space⟩

theorem Run.IsAt.literal?_eq_none {text : List Char} {r : Run} (h : r.IsAt text) {t : Terminal}
    {i : Grammar.Item} (hi : .reduce i ∈ r.state.actions t) :
    (Head.nonterminal i.lhs).literal? = none := by
  obtain ⟨lookahead, -, hof, hrest, -⟩ := h.reads.isSound_state.of_reduce hi
  exact hof.literal?_eq_none hrest

theorem Run.Same.turn (hc : c ≠ []) {text : List Char} {r r' : Run} (h : Run.Same c after r r')
    (hr : r.IsAt text) {t : Terminal} {act : Action} (hact : act ∈ r.state.actions t) :
    Forall₂ (Run.Same c after) (r.turn act) (r'.turn act) := by
  cases act with
  | shift isIdle => exact .nil
  | accept => exact .nil
  | reduce i => exact h.reduce hc (hr.literal?_eq_none hact)

/-- What is done before the next token is the same. -/
theorem Run.Same.follow (hc : c ≠ []) {text : List Char} (fuel : Nat) {r r' : Run} {a a' : Ahead}
    (h : Run.Same c after r r') (hr : r.IsAt text) (ha : Ahead.Same c after a a')
    (haat : a.IsAt (restAt text r.stack.left)) :
    Forall₂ (Ready.Same c after) (r.follow fuel a).1 (r'.follow fuel a').1 ∧
      Forall₂ (Run.Same c after) (r.follow fuel a).2 (r'.follow fuel a').2 := by
  induction fuel generalizing r r' a a' with
  | zero => exact ⟨.nil, .nil⟩
  | succ fuel ih =>
    have hseen := ha.seenIn haat r.state
    have hseenat := haat.seenIn r.state
    rw [Run.follow, Run.follow]
    dsimp only
    rw [← h.state]
    generalize a.seenIn r.state = a at hseen hseenat
    generalize a'.seenIn r.state = a' at hseen
    rw [← hseen.token]
    generalize hacts : (r.state.actions a.look.token).filter (!·.isIdle) = acts
    have hact : ∀ act ∈ acts, act ∈ r.state.actions a.look.token := by
      intro act hact
      rw [← hacts] at hact
      exact (mem_filter.mp hact).1
    have hturns : Forall₂ (Run.Same c after) (acts.dropLast.flatMap r.turn)
        (acts.dropLast.flatMap r'.turn) := by
      have hrefl : Forall₂ Eq acts.dropLast acts.dropLast := forall₂_refl _
      refine rel_flatMap (forall₂_and_mem hrefl) ?_
      rintro act _ ⟨rfl, hmem, -⟩
      exact h.turn hc hr (hact act (dropLast_subset _ hmem))
    split
    · exact ⟨.nil, .nil⟩
    · exact ⟨.cons ⟨h, hseen, rfl⟩ .nil, hturns⟩
    · exact ⟨.cons ⟨h, hseen, rfl⟩ .nil, hturns⟩
    · next i hlast =>
      have hi := hact _ (mem_of_getLast? hlast)
      have hreduce := h.reduce hc (hr.literal?_eq_none hi)
      have hat : ∀ q ∈ r.reduce i, q.IsAt text ∧ q.stack.left = r.stack.left := fun q hq =>
        hr.of_mem_reduce hi hq
      revert hat
      generalize r.reduce i = qs at hreduce
      generalize r'.reduce i = qs' at hreduce
      intro hat
      cases hreduce with
      | nil => exact ⟨.nil, hturns⟩
      | @cons q q' qs qs' hq hqs =>
        obtain ⟨hqat, hleft⟩ := hat q mem_cons_self
        obtain ⟨hready, hothers⟩ := ih hq hqat hseen (hleft ▸ hseenat)
        exact ⟨hready, rel_append (rel_append hturns hqs) hothers⟩

/-- All ways to the next token are the same. -/
theorem Run.Same.take (hc : c ≠ []) {text text' : List Char} (depth : Nat) {r r' : Run}
    (h : Run.Same c after r r') (hr : r.IsAt text) (hr' : r'.IsAt text') :
    Forall₂ (Ready.Same c after) (r.take depth) (r'.take depth) := by
  induction depth generalizing r r' with
  | zero => exact .nil
  | succ depth ih =>
    have hnext := h.next? hr hr'
    rw [Run.take, Run.take]
    generalize ha : r.next? = o at hnext
    generalize ha' : r'.next? = o' at hnext
    cases hnext with
    | none => exact .nil
    | @some a a' hsame =>
      have hat := hr.of_next? ha
      obtain ⟨hready, hturns⟩ := h.follow hc Run.maxBuilt hr hsame hat
      have hturnsat := (hr.follow Run.maxBuilt hat).2
      have hturnsat' := (hr'.follow Run.maxBuilt (hr'.of_next? ha')).2
      exact rel_append hready (rel_flatMap (forall₂_and_mem hturns) fun q q' hq =>
        ih hq.1 (hturnsat q hq.2.1) (hturnsat' q' hq.2.2))

theorem Run.Same.meets (hc : c ≠ []) {q q' r r' : Run} (hq : Run.Same c after q q')
    (hr : Run.Same c after r r') : q.meets r = q'.meets r' := hq.stack.alike hc hr.stack

theorem Run.Same.join (hc : c ≠ []) {q q' r r' : Run} (hq : Run.Same c after q q')
    (hr : Run.Same c after r r') : Run.Same c after (q.join r) (q'.join r') :=
  ⟨hq.stack.join hc hr.stack, hq.rest, hq.space⟩

/-- The same number of characters is left after the next token. -/
theorem Ahead.Same.left {text text' : List Char} {a a' : Ahead} (h : Ahead.Same c after a a')
    (ha : a.IsAt text) (ha' : a'.IsAt text') : a.left = placeIn c after a'.left := by
  rw [ha.left_eq, ha'.left_eq]
  rcases h.rest with ⟨heq, hpast⟩ | ⟨part, rest, rest', heq, heq', -, hblanked⟩
  · exact length_of_parallel (.inr ⟨heq, hpast⟩)
  · rw [heq, heq']
    exact length_of_isBlanked part hblanked

section

variable {text text' : List Char} {q q' r r' : Ready}

theorem Ready.Same.meets (hc : c ≠ []) (hq : Ready.Same c after q q') (hqat : q.IsAt text)
    (hqat' : q'.IsAt text') (hr : Ready.Same c after r r') (hrat : r.IsAt text)
    (hrat' : r'.IsAt text') : q.meets r = q'.meets r' := by
  have hleft : (q.ahead.left == r.ahead.left) = (q'.ahead.left == r'.ahead.left) := by
    rw [Bool.eq_iff_iff, beq_iff_eq, beq_iff_eq, hq.ahead.left hqat.ahead hqat'.ahead,
      hr.ahead.left hrat.ahead hrat'.ahead, placeIn_inj hc]
  rw [Ready.meets, Ready.meets, hq.run.meets hc hr.run, hq.ahead.token, hr.ahead.token, hleft]

theorem Ready.Same.join (hc : c ≠ []) (hq : Ready.Same c after q q') (hr : Ready.Same c after r r') :
    Ready.Same c after (q.join r) (q'.join r') :=
  ⟨hq.run.join hc hr.run, hq.ahead, hq.isEnd⟩

/-- With the next token taken, the readings are the same. -/
theorem Ready.Same.shift? (hq : Ready.Same c after q q') (hqat : q.IsAt text)
    (hqat' : q'.IsAt text') : Option.Rel (Run.Same c after) q.shift? q'.shift? := by
  unfold Ready.shift?
  rw [← hq.isEnd]
  split
  · exact .none
  · next hend =>
    have hgoes : q.isEnd = false := by simpa using hend
    have htaken := hq.ahead.taken? hqat.ahead hqat'.ahead
    generalize hk : q.ahead.taken? = o at htaken
    generalize hk' : q'.ahead.taken? = o' at htaken
    cases htaken with
    | none => exact .none
    | @some k k' hkk =>
      have hat := hqat.ahead.of_taken? (hqat.goesOn hgoes) hk
      have hat' := hqat'.ahead.of_taken? (hqat'.goesOn (hq.isEnd ▸ hgoes)) hk'
      have hleft : k.left = placeIn c after k'.left := by
        rw [hat.left_eq, hat'.left_eq]
        exact length_of_parallel hkk.rest
      have he : Entry.Same ⟨q.ahead.comments, k.tree⟩ ⟨q'.ahead.comments, k'.tree⟩ :=
        ⟨Tree.bareAll_comments hqat.ahead.comments, Tree.bareAll_comments hqat'.ahead.comments,
          hkk.tree⟩
      refine .some ⟨?_, hkk.rest, rfl⟩
      dsimp only
      rw [hkk.symbol]
      exact hq.run.stack.push _ he hleft

/-- Complete trees are the same, comments apart. -/
theorem Ready.Same.roots (hq : Ready.Same c after q q') (hqat : q.IsAt text)
    (hqat' : q'.IsAt text') :
    Forall₂ (fun t t' : Tree => t.bare = t'.bare) q.roots q'.roots := by
  unfold Ready.roots
  rw [← hq.isEnd]
  split
  · next hend =>
    refine rel_filterMap ?_ (forall₂_and_mem hq.run.stack.ways)
    rintro ⟨⟨comments, tree⟩, below⟩ ⟨⟨comments', tree'⟩, below'⟩ ⟨hww, hw, -⟩
    have hsymbol := (hqat.run.reads.of_accept (hqat.isEnd hend) hw).2
    have htree : tree.bare = tree'.bare := hww.entry.tree
    have hcomments : Tree.bareAll comments = [] := hww.entry.comments
    have hcomments' : Tree.bareAll comments' = [] := hww.entry.comments'
    cases tree with
    | leaf l =>
      cases tree' with
      | leaf l' => exact .none
      | node b' cs' => rw [Tree.bare, Tree.bare] at htree; cases htree
    | node b cs =>
      cases tree' with
      | leaf l' => rw [Tree.bare, Tree.bare] at htree; cases htree
      | node b' cs' =>
        have hliteral : b.head.literal? = none := by rw [Tree.head_of_symbol? hsymbol]; rfl
        obtain ⟨hhead, hlabels, hchildren⟩ := Tree.of_bare_node hliteral htree
        refine .some ?_
        rw [← hhead, ← hlabels]
        refine Tree.bare_branchOf hliteral _ _ ?_
        have hlast := Tree.bareAll_cons_congr (bare_leafOf hq.ahead.token hq.ahead.text)
          (rfl : Tree.bareAll [] = Tree.bareAll [])
        rw [Tree.bareAll_append, Tree.bareAll_append, Tree.bareAll_append, Tree.bareAll_append,
          Tree.bareAll_append, Tree.bareAll_append, hcomments, hcomments', hchildren, hlast,
          Tree.bareAll_comments hqat.ahead.comments, Tree.bareAll_comments hqat'.ahead.comments]
  · exact .nil

end

/-! ### All readings -/

theorem same_addTo {α : Type} {R : α → α → Prop} {meets : α → α → Bool} {join : α → α → α}
    (hmeets : ∀ x x' y y', R x x' → R y y' → meets x y = meets x' y')
    (hjoin : ∀ x x' y y', R x x' → R y y' → meets x y → R (join x y) (join x' y'))
    {xs xs' : List α} (h : Forall₂ R xs xs') {x x' : α} (hx : R x x') :
    Forall₂ R (addTo meets join xs x) (addTo meets join xs' x') := by
  induction h with
  | nil => exact .cons hx .nil
  | cons hy hys ih =>
    rw [addTo, addTo, ← hmeets _ _ _ _ hy hx]
    split
    · next hyx => exact .cons (hjoin _ _ _ _ hy hx hyx) hys
    · exact .cons hy ih

theorem same_condense {α : Type} {R : α → α → Prop} {meets : α → α → Bool} {join : α → α → α}
    (hmeets : ∀ x x' y y', R x x' → R y y' → meets x y = meets x' y')
    (hjoin : ∀ x x' y y', R x x' → R y y' → meets x y → R (join x y) (join x' y'))
    {xs xs' : List α} (h : Forall₂ R xs xs') :
    Forall₂ R (condense meets join xs) (condense meets join xs') := by
  have hfold : ∀ {ys ys' : List α}, Forall₂ R ys ys' →
      Forall₂ R (xs.foldl (addTo meets join) ys) (xs'.foldl (addTo meets join) ys') := by
    induction h with
    | nil => exact fun hys => hys
    | cons hx _ ih => exact fun hys => ih (same_addTo hmeets hjoin hys hx)
  exact hfold .nil

theorem foldl_max_left (hc : c ≠ []) {runs runs' : List Run}
    (h : Forall₂ (Run.Same c after) runs runs') (n : Nat) :
    runs.foldl (fun n r => max n r.stack.left) (placeIn c after n) =
      placeIn c after (runs'.foldl (fun n r => max n r.stack.left) n) := by
  induction h generalizing n with
  | nil => rfl
  | cons hr _ ih => rw [foldl_cons, foldl_cons, hr.stack.left, ← placeIn_max hc, ih]

/-- The same readings are farthest behind. -/
theorem same_hindmost (hc : c ≠ []) {runs runs' : List Run}
    (h : Forall₂ (Run.Same c after) runs runs') :
    Forall₂ (Run.Same c after) (hindmost runs).1 (hindmost runs').1 ∧
      Forall₂ (Run.Same c after) (hindmost runs).2 (hindmost runs').2 := by
  have hmost := foldl_max_left hc h 0
  rw [placeIn, if_pos (Nat.zero_le _)] at hmost
  rw [hindmost, hindmost, partition_eq_filter_filter, partition_eq_filter_filter, hmost]
  generalize runs'.foldl (fun n r => max n r.stack.left) 0 = most
  have hiff : ∀ {r r' : Run}, Run.Same c after r r' →
      (r.stack.left = placeIn c after most ↔ r'.stack.left = most) := by
    intro r r' hr
    rw [hr.stack.left, placeIn_inj hc]
  exact ⟨rel_filter (fun r r' hr => by simpa using hiff hr) h,
    rel_filter (fun r r' hr => by simpa using not_congr (hiff hr)) h⟩

section

variable {text text' : List Char}

theorem same_readyOf (hc : c ≠ []) {now now' : List Run} (h : Forall₂ (Run.Same c after) now now')
    (hat : ∀ r ∈ now, r.IsAt text) (hat' : ∀ r ∈ now', r.IsAt text') :
    Forall₂ (Ready.Same c after) (readyOf now) (readyOf now') := by
  have hall : Forall₂ (fun q q' : Ready => Ready.Same c after q q' ∧ q.IsAt text ∧ q'.IsAt text')
      (now.flatMap (Run.take maxTurns)) (now'.flatMap (Run.take maxTurns)) := by
    refine rel_flatMap (forall₂_and_mem h) ?_
    rintro r r' ⟨hrr, hr, hr'⟩
    have hready := hrr.take hc maxTurns (hat r hr) (hat' r' hr')
    refine (forall₂_and_mem hready).imp ?_
    rintro q q' ⟨hqq, hq, hq'⟩
    exact ⟨hqq, (hat r hr).of_mem_take hq, (hat' r' hr').of_mem_take hq'⟩
  refine (same_condense (fun q q' r r' hq hr => ?_) (fun q q' r r' hq hr hqr => ?_) hall).imp
    fun _ _ hq => hq.1
  · exact hq.1.meets hc hq.2.1 hq.2.2 hr.1 hr.2.1 hr.2.2
  · have hqr' := hq.1.meets hc hq.2.1 hq.2.2 hr.1 hr.2.1 hr.2.2
    exact ⟨hq.1.join hc hr.1, hq.2.1.join hr.2.1 hqr, hq.2.2.join hr.2.2 (hqr' ▸ hqr)⟩

theorem same_nextOf (hc : c ≠ []) {ready ready' : List Ready} {later later' : List Run}
    (h : Forall₂ (Ready.Same c after) ready ready') (hat : ∀ q ∈ ready, q.IsAt text)
    (hat' : ∀ q ∈ ready', q.IsAt text') (hlater : Forall₂ (Run.Same c after) later later') :
    Forall₂ (Run.Same c after) (nextOf ready later) (nextOf ready' later') := by
  have hshifted : Forall₂ (Run.Same c after) (ready.filterMap Ready.shift?)
      (ready'.filterMap Ready.shift?) :=
    rel_filterMap (fun q q' hq => hq.1.shift? (hat q hq.2.1) (hat' q' hq.2.2)) (forall₂_and_mem h)
  exact same_condense (fun _ _ _ _ hq hr => hq.meets hc hr) (fun _ _ _ _ hq hr _ => hq.join hc hr)
    (rel_append hshifted hlater)

theorem map_bare_heaviest {ts ts' : List Tree}
    (h : Forall₂ (fun t t' : Tree => t.bare = t'.bare) ts ts') :
    (heaviest ts).map Tree.bare = (heaviest ts').map Tree.bare := by
  induction h with
  | nil => rfl
  | @cons t t' ts ts' ht _ ih =>
    rw [heaviest, heaviest]
    have hdynamic : ∀ {u u' : Tree}, u.bare = u'.bare → u.dynamic = u'.dynamic := by
      intro u u' hu
      rw [← Tree.dynamic_bare, hu, Tree.dynamic_bare]
    cases hu : heaviest ts with
    | none =>
      rw [hu] at ih
      rw [Option.map_eq_none_iff.mp ih.symm]
      exact congrArg some ht
    | some u =>
      rw [hu] at ih
      obtain ⟨u', hu', huu⟩ := Option.map_eq_some_iff.mp ih.symm
      rw [hu']
      dsimp only
      rw [hdynamic ht, hdynamic huu.symm]
      split
      · exact congrArg some huu.symm
      · exact congrArg some ht

/-- Readings of both texts come to the same trees, comments apart. -/
theorem map_bare_readFrom (hc : c ≠ []) (fuel : Nat) {runs runs' : List Run} {done done' : List Tree}
    (h : Forall₂ (Run.Same c after) runs runs') (hat : ∀ r ∈ runs, r.IsAt text)
    (hat' : ∀ r ∈ runs', r.IsAt text')
    (hdone : Forall₂ (fun t t' : Tree => t.bare = t'.bare) done done') :
    (readFrom fuel runs done).map Tree.bare = (readFrom fuel runs' done').map Tree.bare := by
  induction fuel generalizing runs runs' done done' with
  | zero => rfl
  | succ fuel ih =>
    cases h with
    | nil => exact map_bare_heaviest hdone
    | @cons r r' runs runs' hr hruns =>
      have hall := Forall₂.cons hr hruns
      have hwide := any_eq_of_forall₂ (fun r r' (h : Run.Same c after r r') => h.stack.isWide) hall
      obtain ⟨hnow, hlater⟩ := same_hindmost hc hall
      have hnowat := fun q hq => hat q (of_mem_hindmost (.inl hq))
      have hnowat' := fun q hq => hat' q (of_mem_hindmost (.inl hq))
      have hready := same_readyOf hc hnow hnowat hnowat'
      have hreadyat := isAt_readyOf hnowat
      have hreadyat' := isAt_readyOf hnowat'
      have hreadywide := any_eq_of_forall₂
        (fun q q' (h : Ready.Same c after q q') => h.run.stack.isWide) hready
      rw [readFrom, readFrom]
      · dsimp only
        rw [hall.length_eq, hwide, hreadywide]
        split
        · rfl
        split
        · rfl
        refine ih (same_nextOf hc hready hreadyat hreadyat' hlater)
          (isAt_nextOf hreadyat fun q hq => hat q (of_mem_hindmost (.inr hq)))
          (isAt_nextOf hreadyat' fun q hq => hat' q (of_mem_hindmost (.inr hq))) ?_
        exact rel_append hdone (rel_flatMap (forall₂_and_mem hready) fun q q' hq =>
          hq.1.roots (hreadyat q hq.2.1) (hreadyat' q' hq.2.2))
      · rintro ⟨⟩
      · rintro ⟨⟩

end

end

/-! ### Whole texts -/

theorem start_of_head? {text : List Char} (h : text.head? ≠ some byteOrderMark) :
    Run.start text = ⟨.bottom text.length, text, []⟩ := by
  cases text with
  | nil => rfl
  | cons d rest => rw [Run.start, if_neg fun hd => h (congrArg some hd)]

/-- Both texts begin in the same way. -/
theorem same_start {text c : List Char} {ps qs : List Piece}
    (h : pieces text = ps ++ .comment c :: qs) :
    Run.Same c (sourceOf qs) (.start text) (.start (sourceOf ps ++ ' ' :: sourceOf qs)) := by
  have hblanked := IsBlanked.of_pieces h
  have hbottom : Stack.Same c (sourceOf qs) (.bottom text.length)
      (.bottom (sourceOf ps ++ ' ' :: sourceOf qs).length) :=
    .mk (length_of_parallel (.inl hblanked)) .nil
  have hplain : text.head? ≠ some byteOrderMark →
      (sourceOf ps ++ ' ' :: sourceOf qs).head? ≠ some byteOrderMark →
      Run.Same c (sourceOf qs) (.start text) (.start (sourceOf ps ++ ' ' :: sourceOf qs)) := by
    intro hhead hhead'
    rw [start_of_head? hhead, start_of_head? hhead']
    exact ⟨hbottom, .inl hblanked, rfl⟩
  cases ps with
  | nil =>
    refine hplain ?_ (by rw [sourceOf_nil, nil_append, head?_cons]; decide)
    have hmem : .comment c ∈ pieces text := by simp [h]
    have hhead := (isComment_of_mem_pieces hmem).head?
    rw [← sourceOf_pieces text, h, nil_append, sourceOf_cons, Piece.chars, head?_append, hhead,
      Option.some_or]
    decide
  | cons p ps =>
    obtain ⟨d, rest, rest', rfl, hsource⟩ := exists_cons_of_pieces h
    by_cases hd : d = byteOrderMark
    · -- the mark is a piece of its own
      subst hd
      rw [pieces_cons (comment?_eq_none_of_ne (by decide) rest) (by decide)] at h
      obtain ⟨rfl, hrest⟩ := List.cons.inj h
      exact ⟨hbottom, .inl (.of_pieces hrest), rfl⟩
    · rw [hsource] at hplain ⊢
      exact hplain (by simpa using hd) (by simpa using hd)

namespace Tree.IsRoot

variable {text : List Char} {t : Tree}

theorem length_items (h : t.IsRoot text) : t.bare.items.length = t.items.length := by
  obtain ⟨b, cs, rfl, hb⟩ := h.exists_node
  have hitems := congrArg length (Tree.items_bare hb cs)
  rwa [length_map, length_map] at hitems

end Tree.IsRoot

/-- If a comment is replaced by a space, the tree of the text stays the same, comments apart. -/
theorem read?_blank {text c : List Char} {ps qs : List Piece}
    (h : pieces text = ps ++ .comment c :: qs) :
    (read? (sourceOf ps ++ ' ' :: sourceOf qs)).map Tree.bare = (read? text).map Tree.bare := by
  have hc : c ≠ [] := by
    rintro rfl
    have hmem : .comment [] ∈ pieces text := by simp [h]
    cases (isComment_of_mem_pieces hmem).head?
  have hrounds : maxRounds (sourceOf ps ++ ' ' :: sourceOf qs) = maxRounds text := by
    rw [maxRounds, maxRounds, pieces_blank h, h, length_append, length_append]
    rfl
  have hat := Run.isAt_start text
  have hat' := Run.isAt_start (sourceOf ps ++ ' ' :: sourceOf qs)
  have hread := map_bare_readFrom hc (maxRounds text)
    (Forall₂.cons (same_start h) .nil) (by simpa using hat) (by simpa using hat') .nil
  unfold read?
  rw [hrounds]
  generalize ho : readFrom (maxRounds text) [.start text] [] = o at hread
  generalize ho' : readFrom (maxRounds text) [.start (sourceOf ps ++ ' ' :: sourceOf qs)] [] = o'
    at hread
  cases o with
  | none =>
    rw [Option.map_eq_none_iff.mp hread.symm]
  | some t =>
    obtain ⟨t', rfl, htt⟩ := Option.map_eq_some_iff.mp hread.symm
    have hroot := isRoot_of_readFrom (by simpa using hat) (by simp) ho
    have hroot' := isRoot_of_readFrom (by simpa using hat') (by simp) ho'
    rw [Option.filter_some, Option.filter_some, ← Tree.isClosed_bare t, ← Tree.isClosed_bare t',
      ← hroot.length_items, ← hroot'.length_items, htt]
    split
    · exact congrArg some htt
    · rfl

end GoOutline.Parse

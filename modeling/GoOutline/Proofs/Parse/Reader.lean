import GoOutline.Proofs.Parse.Stack

/-!
# What the direct reader finds

Whatever the reader finds is a tree of the whole text.

* `Ahead.IsAt`, `isAt_of_nextFrom`: what is ahead is as it should be.
* `Run.IsAt`, `Ready.IsAt`: the readings of a text, at each point between and before its tokens.
* `Run.IsAt.of_mem_take`, `Ready.IsAt.of_shift?`: each step keeps this.
* `Tree.IsRoot`, `isRoot_of_read?`: the tree that is found is a file with all of the text.
-/

namespace GoOutline.Parse

open GoOutline.Grammar GoOutline.Automaton GoOutline.Syntax GoOutline.Text GoOutline.Token

/-! ### Looking ahead -/

theorem comment_isIn_expected (s : ItemSet) : Terminal.comment.isIn s.expected := by
  have hfold : ∀ {α : Type} (f : Nat → α → Nat) (xs : List α) (set : Nat),
      (∀ set x, Terminal.comment.isIn set → Terminal.comment.isIn (f set x)) →
      Terminal.comment.isIn set → Terminal.comment.isIn (xs.foldl f set) := by
    intro α f xs
    induction xs with
    | nil => exact fun set _ h => h
    | cons x xs ih => exact fun set hf h => ih _ hf (hf set x h)
  have hor : ∀ set more, Terminal.comment.isIn set → Terminal.comment.isIn (set ||| more) := by
    intro set more h
    rw [Terminal.isIn] at h ⊢
    rw [Nat.testBit_or, h, Bool.true_or]
  refine hfold _ _ _ (fun set x h => hor set x.2 h) (hfold _ _ _ (fun set i h => ?_) (by decide))
  split
  · exact h
  · exact hor _ _ h

/-- What is ahead in a text: comments, and a token as it should be. -/
structure Ahead.IsAt (text : List Char) (a : Ahead) : Prop where
  comments : ∀ t ∈ a.comments, t.IsComment
  spans : Tree.Spans a.comments text (a.look.space ++ (a.look.text ++ a.rest))
  space : ∀ c ∈ a.look.space, isGap c
  spelled : isSpelled a.look.token a.look.text
  whole : IsWholeBefore a.look.text a.rest
  atEnd : a.look.token = .endOfInput → a.rest = []
  token : a.look.token ≠ .comment
  word : a.look.isWord → Terminal.identifier.pattern.accepts a.look.text
  left_eq : a.left = a.rest.length

theorem isComment_commentOf {look : Lookahead} (h : look.token = .comment) :
    (commentOf look).IsComment :=
  ⟨congrArg some h, rfl, rfl⟩

theorem spans_commentOf (look : Lookahead) (h : look.token = .comment) {rest : List Char}
    (hspelled : isSpelled look.token look.text) (hspace : ∀ c ∈ look.space, isGap c)
    (hwhole : IsWholeBefore look.text rest) :
    Tree.Spans [commentOf look] (look.space ++ (look.text ++ rest)) rest :=
  spans_leafAt hspelled hspace hwhole fun _ => .inl h

/-- What is ahead, past any comments, is as it should be. -/
theorem isAt_of_nextFrom {set fuel : Nat} (hset : Terminal.comment.isIn set) {space rest : List Char}
    {a : Ahead} (hspace : ∀ c ∈ space, isGap c)
    (h : nextFrom (codeSet set) fuel space rest rest.length = some a) : a.IsAt (space ++ rest) := by
  induction fuel generalizing space rest a with
  | zero => cases h
  | succ fuel ih =>
    rw [nextFrom] at h
    obtain ⟨found, hfound, h⟩ := Option.bind_eq_some_iff.mp h
    have hat := isTokenAt_of_lookahead hset hfound
    have hgaps : ∀ c ∈ space ++ found.space, isGap c := by
      intro c hc
      rcases List.mem_append.mp hc with hc | hc
      · exact hspace c hc
      · rw [isGap, hat.space c hc]
        rfl
    have happend : space ++ found.space ++
        (found.text ++ rest.drop (found.space.length + found.text.length)) = space ++ rest := by
      rw [List.append_assoc, hat.append]
    dsimp only at h
    split at h
    · next htoken =>
      obtain ⟨more, hmore, heq⟩ := Option.bind_eq_some_iff.mp h
      cases heq
      rw [← List.length_drop] at hmore
      have hrest := ih (by simp) hmore
      have hspans : Tree.Spans [commentOf { found with space := space ++ found.space }]
          (space ++ rest) (rest.drop (found.space.length + found.text.length)) := by
        rw [← happend]
        exact spans_commentOf { found with space := space ++ found.space } htoken hat.spelled hgaps
          hat.whole
      exact { hrest with
        comments := List.forall_mem_cons.mpr ⟨isComment_commentOf htoken, hrest.comments⟩
        spans := hspans.append hrest.spans }
    · next htoken =>
      cases h
      refine ⟨by simp, ?_, hgaps, hat.spelled, hat.whole, hat.atEnd, htoken, ?_, ?_⟩
      · rw [happend]
        exact .nil _
      · intro hword
        have hfound : found.isWord → Terminal.identifier.pattern.accepts found.text :=
          accepts_identifier_of_lookahead hset hfound
        exact hfound hword
      · exact List.length_drop.symm

theorem Ahead.IsAt.seenIn {text : List Char} {a : Ahead} (h : a.IsAt text) (s : ItemSet) :
    (a.seenIn s).IsAt text := by
  unfold Ahead.seenIn
  split
  · next hseen =>
    have hword : a.look.isWord := by
      simp only [Bool.and_eq_true] at hseen
      exact hseen.1.2
    exact { h with
      spelled := isSpelled_of_accepts (by simp) (h.word hword)
      atEnd := fun ht => by cases ht
      token := by simp }
  · exact h

/-! ### Taking a token -/

/-- What is taken from a text: a token or a string, which is no comment. -/
structure Taken.IsAt (text : List Char) (taken : Taken) : Prop where
  symbol : taken.tree.symbol? = some taken.symbol
  notQuote : taken.symbol ∉ quotes
  isDerived : taken.tree.IsDerived
  spans : Tree.Spans [taken.tree] text taken.rest
  left_eq : taken.left = taken.rest.length

theorem Taken.isAt_string {n : RuleName} (hn : (Head.nonterminal n.ctorIdx).literal?.isSome)
    {a : Ahead} {text : List Char} (h : a.IsAt text) {parts : List Scanned} {rest : List Char}
    (hquote : ∃ c, a.look.text = [c] ∧ isIdentifierStart c = false)
    (hrest : a.rest = charsOf parts ++ rest) (hparts : ∀ s ∈ parts, s.IsPart) :
    (Taken.string n a.look (parts, rest)).IsAt
      (a.look.space ++ (a.look.text ++ a.rest)) := by
  refine ⟨rfl, by simp [quotes, Taken.string, RuleName.symbol], .string hn rfl, ?_, rfl⟩
  rw [hrest]
  exact spans_string hn h.spelled h.space hquote hparts

/-- What is taken with the next token is as it should be. -/
theorem Ahead.IsAt.of_taken? {text : List Char} {a : Ahead} (h : a.IsAt text)
    (hend : a.look.token ≠ .endOfInput) {taken : Taken} (htaken : a.taken? = some taken) :
    taken.IsAt (a.look.space ++ (a.look.text ++ a.rest)) := by
  have hspelled := h.spelled
  unfold Ahead.taken? at htaken
  split at htaken
  · next htoken =>
    obtain ⟨⟨parts, rest⟩, hparts, rfl⟩ := Option.map_eq_some_iff.mp htaken
    obtain ⟨hrest, hall⟩ := of_quotedTokens hparts
    rw [htoken] at hspelled
    exact Taken.isAt_string (by decide) h ⟨'"', Pattern.accepts_text_iff.mp hspelled, by decide⟩
      hrest hall
  · next htoken =>
    obtain ⟨⟨parts, rest⟩, hparts, rfl⟩ := Option.map_eq_some_iff.mp htaken
    obtain ⟨hrest, hall⟩ := of_rawTokens hparts
    rw [htoken] at hspelled
    exact Taken.isAt_string (by decide) h ⟨'`', Pattern.accepts_text_iff.mp hspelled, by decide⟩
      hrest hall
  · next hquote hback =>
    cases htaken
    have hextra : (some a.look.token == some Terminal.endOfInput) = false := by simpa using hend
    refine ⟨rfl, by simpa [quotes] using ⟨hquote, hback⟩, ?_, ?_, h.left_eq⟩
    · exact .leaf (by simpa [leafOf, Tree.leafOf] using h.token) hextra rfl
    · refine spans_leafAt h.spelled h.space h.whole fun hextra' => ?_
      exact .inr (by simpa using hextra')

/-! ### Readings -/

theorem restAt_length (text : List Char) : restAt text text.length = text := by
  rw [restAt, Nat.sub_self, List.drop_zero]

/-- Readings of a text, between two tokens. -/
structure Run.IsAt (text : List Char) (r : Run) : Prop where
  reads : r.stack.Reads text
  rest_eq : restAt text r.stack.left = r.space ++ r.rest
  left_eq : r.stack.left = r.space.length + r.rest.length
  space : ∀ c ∈ r.space, isGap c

/-- Readings of a text, before a token. -/
structure Ready.IsAt (text : List Char) (q : Ready) : Prop where
  run : q.run.IsAt text
  ahead : q.ahead.IsAt (restAt text q.run.stack.left)
  isEnd : q.isEnd → .accept ∈ q.run.state.actions q.ahead.look.token
  goesOn : q.isEnd = false → q.ahead.look.token ≠ .endOfInput

theorem Run.isAt_start (text : List Char) : (Run.start text).IsAt text := by
  unfold Run.start
  split
  · next c rest =>
    dsimp only
    split
    · next hc =>
      refine ⟨.bottom _, restAt_length _, ?_, ?_⟩
      · simp [Stack.bottom, Stack.left, Nat.add_comm]
      · intro d hd
        rw [List.mem_singleton.mp hd, hc]
        decide
    · exact ⟨.bottom _, restAt_length _, by simp [Stack.bottom, Stack.left], by simp⟩
  · exact ⟨.bottom [], rfl, rfl, by simp⟩

theorem Run.IsAt.of_next? {text : List Char} {r : Run} (h : r.IsAt text) {a : Ahead}
    (ha : r.next? = some a) : a.IsAt (restAt text r.stack.left) := by
  unfold Run.next? at ha
  dsimp only at ha
  rw [h.left_eq, Nat.add_sub_cancel_left] at ha
  rw [h.rest_eq]
  exact isAt_of_nextFrom (comment_isIn_expected _) h.space ha

theorem Run.IsAt.of_mem_reduce {text : List Char} {r q : Run} (h : r.IsAt text) {t : Terminal}
    {i : Grammar.Item} (hi : .reduce i ∈ r.state.actions t) (hq : q ∈ r.reduce i) :
    q.IsAt text ∧ q.stack.left = r.stack.left := by
  obtain ⟨stack, hstack, rfl⟩ := List.mem_map.mp hq
  obtain ⟨hreads, hleft⟩ := h.reads.of_mem_reduce hi hstack
  exact ⟨⟨hreads, by rw [hleft]; exact h.rest_eq, by rw [hleft]; exact h.left_eq, h.space⟩, hleft⟩

/-- What is done before a token, as it comes ready or turns off. -/
theorem Run.IsAt.follow {text : List Char} (fuel : Nat) {r : Run} {a : Ahead} (h : r.IsAt text)
    (ha : a.IsAt (restAt text r.stack.left)) :
    (∀ q ∈ (r.follow fuel a).1, q.IsAt text) ∧ ∀ q ∈ (r.follow fuel a).2, q.IsAt text := by
  induction fuel generalizing r a with
  | zero => simp [Run.follow]
  | succ fuel ih =>
    have hseen := ha.seenIn r.state
    rw [Run.follow]
    dsimp only
    generalize a.seenIn r.state = a at hseen
    generalize hacts : (r.state.actions a.look.token).filter (!·.isIdle) = acts
    have hact : ∀ act ∈ acts, act ∈ r.state.actions a.look.token := by
      intro act hact
      rw [← hacts] at hact
      exact (List.mem_filter.mp hact).1
    have hturns : ∀ q ∈ acts.dropLast.flatMap r.turn, q.IsAt text := by
      intro q hq
      obtain ⟨act, hmem, hq⟩ := List.mem_flatMap.mp hq
      cases act with
      | shift isIdle => cases hq
      | accept => cases hq
      | reduce i => exact (h.of_mem_reduce (hact _ (List.dropLast_subset _ hmem)) hq).1
    split
    · simp
    · next isIdle hlast =>
      have hshift := hact _ (List.mem_of_getLast? hlast)
      refine ⟨?_, hturns⟩
      intro q hq
      rw [List.mem_singleton.mp hq]
      exact ⟨h, hseen, (by cases ·), fun _ => h.reads.isSound_state.ne_endOfInput_of_shift hshift⟩
    · next hlast =>
      have haccept := hact _ (List.mem_of_getLast? hlast)
      refine ⟨?_, hturns⟩
      intro q hq
      rw [List.mem_singleton.mp hq]
      exact ⟨h, hseen, fun _ => haccept, (by cases ·)⟩
    · next i hlast =>
      have hreduce := hact _ (List.mem_of_getLast? hlast)
      split
      · exact ⟨by simp, hturns⟩
      · next q more hq =>
        have hall : ∀ p ∈ q :: more, p.IsAt text ∧ p.stack.left = r.stack.left := by
          rw [← hq]
          exact fun p hp => h.of_mem_reduce hreduce hp
        obtain ⟨hqat, hleft⟩ := hall q List.mem_cons_self
        obtain ⟨hready, hothers⟩ := ih hqat (hleft ▸ hseen)
        refine ⟨hready, fun p hp => ?_⟩
        rcases List.mem_append.mp hp with hp | hp
        · rcases List.mem_append.mp hp with hp | hp
          · exact hturns p hp
          · exact (hall p (List.mem_cons_of_mem q hp)).1
        · exact hothers p hp

/-- All ways to the next token are readings of the text. -/
theorem Run.IsAt.of_mem_take {text : List Char} {depth : Nat} {r : Run} (h : r.IsAt text)
    {q : Ready} (hq : q ∈ r.take depth) : q.IsAt text := by
  induction depth generalizing r with
  | zero => cases hq
  | succ depth ih =>
    rw [Run.take] at hq
    split at hq
    · cases hq
    · next a ha =>
      obtain ⟨hready, hturns⟩ := h.follow Run.maxBuilt (h.of_next? ha)
      rcases List.mem_append.mp hq with hq | hq
      · exact hready q hq
      · obtain ⟨p, hp, hq⟩ := List.mem_flatMap.mp hq
        exact ih (hturns p hp) hq

theorem Run.IsAt.join {text : List Char} {q r : Run} (hq : q.IsAt text) (hr : r.IsAt text)
    (h : q.meets r) : (q.join r).IsAt text :=
  ⟨hq.reads.join hr.reads h, hq.rest_eq, hq.left_eq, hq.space⟩

theorem Ready.IsAt.join {text : List Char} {q r : Ready} (hq : q.IsAt text) (hr : r.IsAt text)
    (h : q.meets r) : (q.join r).IsAt text := by
  have hruns : q.run.meets r.run := by
    simp only [Ready.meets, Bool.and_eq_true] at h
    exact h.1.1
  exact ⟨hq.run.join hr.run hruns, hq.ahead, hq.isEnd, hq.goesOn⟩

/-- With the next token taken, the readings stand after it. -/
theorem Ready.IsAt.of_shift? {text : List Char} {q : Ready} (h : q.IsAt text) {r : Run}
    (hr : q.shift? = some r) : r.IsAt text := by
  unfold Ready.shift? at hr
  split at hr
  · cases hr
  · next hend =>
    obtain ⟨taken, htaken, rfl⟩ := Option.map_eq_some_iff.mp hr
    have hat := h.ahead.of_taken? (h.goesOn (by simpa using hend)) htaken
    have hspans := h.ahead.spans.append hat.spans
    have hrest : restAt text taken.left = taken.rest := by
      obtain ⟨front, hfront⟩ : ∃ front, text = front ++ taken.rest := by
        refine ⟨text.take (text.length - q.run.stack.left) ++
          (q.ahead.comments ++ [taken.tree]).flatMap Tree.chars, ?_⟩
        rw [List.append_assoc, hspans.chars_eq, restAt, List.take_append_drop]
      rw [restAt, hat.left_eq, hfront, List.length_append, Nat.add_sub_cancel, List.drop_left]
    refine ⟨h.run.reads.push hat.symbol hat.notQuote ⟨h.ahead.comments, hat.isDerived⟩ ?_, hrest,
      (Nat.zero_add _).symm ▸ hat.left_eq, by simp⟩
    rw [hrest]
    exact hspans

/-! ### Whole texts -/

/-- The tree of a whole text: a file with the comments around it, and the end. -/
structure Tree.IsRoot (text : List Char) (t : Tree) : Prop where
  spans : Tree.Spans [t] text []
  shape : ∃ b children file before after last,
    t = .node b (before ++ children ++ after ++ [.leaf last]) ∧ b.head = .nonterminal RuleName.sourceFile.ctorIdx ∧ b.labels = file.labels ∧
    file.head = b.head ∧ (Tree.node file children).IsDerived ∧ (∀ c ∈ before, c.IsComment) ∧
    (∀ c ∈ after, c.IsComment) ∧ last.token = some .endOfInput

theorem Tree.IsRoot.exists_node {text : List Char} {t : Tree} (h : t.IsRoot text) :
    ∃ b cs, t = .node b cs ∧ b.head.literal? = none := by
  obtain ⟨b, children, file, before, after, last, rfl, hhead, -⟩ := h.shape
  exact ⟨b, _, rfl, by rw [hhead]; rfl⟩

theorem Tree.IsRoot.chars_eq {text : List Char} {t : Tree} (h : t.IsRoot text) : t.chars = text := by
  have hchars := h.spans.chars_eq
  rwa [List.flatMap_singleton, List.append_nil] at hchars

theorem Ready.IsAt.of_mem_roots {text : List Char} {q : Ready} (h : q.IsAt text) {t : Tree}
    (ht : t ∈ q.roots) : t.IsRoot text := by
  unfold Ready.roots at ht
  split at ht
  · next hend =>
    obtain ⟨⟨⟨comments, tree⟩, below⟩, hw, heq⟩ := List.mem_filterMap.mp ht
    obtain ⟨hleads, -⟩ := h.run.reads.of_mem_ways hw
    obtain ⟨hleft, hsymbol⟩ := h.run.reads.of_accept (h.isEnd hend) hw
    have htoken := (h.run.reads.isSound_state.of_accept (h.isEnd hend)).1
    cases tree with
    | leaf l => cases heq
    | node file children =>
      cases heq
      have hhead := Tree.head_of_symbol? hsymbol
      obtain ⟨b, hb, hbhead, hlabels, -⟩ := Tree.exists_branchOf_eq file.head file.labels 0
        (comments ++ children ++ q.ahead.comments ++ [.leaf (leafOf q.ahead.look)])
      refine ⟨?_, b, children, file, comments, q.ahead.comments, leafOf q.ahead.look, hb,
        hbhead.trans hhead, hlabels, hbhead.symm, hleads.isSound.tree, hleads.isSound.comments,
        h.ahead.comments, congrArg some htoken⟩
      have hliteral : file.head.literal? = none := by rw [hhead]; rfl
      have hspans := hleads.spans
      rw [hleft, restAt_length] at hspans
      obtain ⟨hcomments, hfile⟩ := hspans.of_append
      have hlast : Tree.Spans [.leaf (leafOf q.ahead.look)]
          (q.ahead.look.space ++ (q.ahead.look.text ++ q.ahead.rest)) [] := by
        rw [h.ahead.atEnd htoken]
        exact spans_leafAt h.ahead.spelled h.ahead.space (fun _ => rfl) fun _ => .inr htoken
      have hall := ((hcomments.append (hfile.of_node hliteral)).append h.ahead.spans).append hlast
      rw [hhead] at hliteral ⊢
      exact hall.branchOf hliteral
  · cases ht

theorem forall_mem_addTo {α : Type} {P : α → Prop} {meets : α → α → Bool} {join : α → α → α}
    (hjoin : ∀ x y, P x → P y → meets x y → P (join x y)) {xs : List α} {x : α}
    (hxs : ∀ y ∈ xs, P y) (hx : P x) : ∀ y ∈ addTo meets join xs x, P y := by
  induction xs with
  | nil => exact fun y hy => List.mem_singleton.mp hy ▸ hx
  | cons y ys ih =>
    obtain ⟨hy, hys⟩ := List.forall_mem_cons.mp hxs
    rw [addTo]
    split
    · next hmeets => exact List.forall_mem_cons.mpr ⟨hjoin y x hy hx hmeets, hys⟩
    · exact List.forall_mem_cons.mpr ⟨hy, ih hys⟩

theorem forall_mem_condense {α : Type} {P : α → Prop} {meets : α → α → Bool} {join : α → α → α}
    (hjoin : ∀ x y, P x → P y → meets x y → P (join x y)) {xs : List α} (hxs : ∀ x ∈ xs, P x) :
    ∀ y ∈ condense meets join xs, P y := by
  have hfold : ∀ xs ys : List α, (∀ x ∈ xs, P x) → (∀ y ∈ ys, P y) →
      ∀ y ∈ xs.foldl (addTo meets join) ys, P y := by
    intro xs
    induction xs with
    | nil => exact fun ys _ hys => hys
    | cons x xs ih =>
      intro ys hxs hys
      obtain ⟨hx, hxs⟩ := List.forall_mem_cons.mp hxs
      exact ih _ hxs (forall_mem_addTo hjoin hys hx)
  exact hfold xs [] hxs (by simp)

theorem of_heaviest {ts : List Tree} {t : Tree} (h : heaviest ts = some t) : t ∈ ts := by
  induction ts generalizing t with
  | nil => cases h
  | cons u ts ih =>
    rw [heaviest] at h
    split at h
    · cases h
      exact List.mem_cons_self
    · next v hv =>
      cases h
      split
      · exact List.mem_cons_of_mem u (ih hv)
      · exact List.mem_cons_self

theorem of_mem_hindmost {runs : List Run} {r : Run}
    (h : r ∈ (hindmost runs).1 ∨ r ∈ (hindmost runs).2) : r ∈ runs := by
  rw [hindmost, List.partition_eq_filter_filter] at h
  rcases h with h | h
  · exact (List.mem_filter.mp h).1
  · exact (List.mem_filter.mp h).1

theorem isAt_readyOf {text : List Char} {now : List Run} (h : ∀ r ∈ now, r.IsAt text) :
    ∀ q ∈ readyOf now, q.IsAt text := by
  refine forall_mem_condense (fun q r hq hr => hq.join hr) fun q hq => ?_
  obtain ⟨r, hr, hq⟩ := List.mem_flatMap.mp hq
  exact (h r hr).of_mem_take hq

theorem isAt_nextOf {text : List Char} {ready : List Ready} {later : List Run}
    (hready : ∀ q ∈ ready, q.IsAt text) (hlater : ∀ r ∈ later, r.IsAt text) :
    ∀ r ∈ nextOf ready later, r.IsAt text := by
  refine forall_mem_condense (fun q r hq hr => hq.join hr) fun r hr => ?_
  rcases List.mem_append.mp hr with hr | hr
  · obtain ⟨q, hq, hshift⟩ := List.mem_filterMap.mp hr
    exact (hready q hq).of_shift? hshift
  · exact hlater r hr

/-- What is found by following readings of a text is a tree of the whole text. -/
theorem isRoot_of_readFrom {text : List Char} {fuel : Nat} {runs : List Run} {done : List Tree}
    (hruns : ∀ r ∈ runs, r.IsAt text) (hdone : ∀ t ∈ done, t.IsRoot text) {t : Tree}
    (h : readFrom fuel runs done = some t) : t.IsRoot text := by
  induction fuel generalizing runs done with
  | zero => cases h
  | succ fuel ih =>
    cases runs with
    | nil => exact hdone t (of_heaviest h)
    | cons r runs =>
      have hready := isAt_readyOf fun q hq => hruns q (of_mem_hindmost (.inl hq))
      have hnext := isAt_nextOf hready fun q hq => hruns q (of_mem_hindmost (.inr hq))
      rw [readFrom] at h
      · dsimp only at h
        split at h
        · cases h
        split at h
        · cases h
        refine ih hnext (fun u hu => ?_) h
        rcases List.mem_append.mp hu with hu | hu
        · exact hdone u hu
        · obtain ⟨q, hq, hu⟩ := List.mem_flatMap.mp hu
          exact (hready q hq).of_mem_roots hu
      · rintro ⟨⟩

theorem isRoot_of_read? {text : List Char} {t : Tree} (h : read? text = some t) : t.IsRoot text := by
  obtain ⟨h, -⟩ := Option.filter_eq_some_iff.mp h
  refine isRoot_of_readFrom ?_ (by simp) h
  simpa using Run.isAt_start text

end GoOutline.Parse

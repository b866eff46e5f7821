import GoOutline.Proofs.Grammar.States
import GoOutline.Proofs.Parse.Span

/-!
# What is on a stack

A stack has read a part of a text: the trees along each way down are the text before it.

* `Tree.IsDerived`: the children of each node are as a production has them.
* `Stack.Reads`: each entry of a stack is a stretch of the text and has the symbol that leads from the
  state below it to the one above.
* `Stack.Reads.of_mem_walk`: what a walk down passes is a stretch of the text.
* `Stack.Reads.symbols_of_mem_walk`: if the state has an item, what has been read of the item lies on
  top.
* `Stack.Reads.push`, `Stack.Reads.of_mem_reduce`, `Stack.Reads.join`: what is done with stacks keeps
  this.
-/

namespace GoOutline.Parse

open GoOutline.Grammar GoOutline.Automaton GoOutline.Syntax GoOutline.Token

/-! ### Derived trees -/

namespace Tree

/-- The symbol that a tree stands for. -/
def symbol? : Tree → Option Grammar.Symbol
  | leaf l => l.token.map .terminal
  | node b _ => match b.head with
    | .nonterminal n => some (.nonterminal n)
    | _ => none

theorem head_of_symbol? {b : Branch} {cs : List Tree} {n : Nat}
    (h : (node b cs).symbol? = some (.nonterminal n)) : b.head = .nonterminal n := by
  rw [symbol?] at h
  split at h
  · next m hm => cases h; exact hm
  · cases h

/-- Whether a tree is a comment. -/
def IsComment : Tree → Prop
  | leaf l => l.token = some .comment ∧ l.isExtra = true ∧ l.isMissing = false
  | node _ _ => False

/-- Whether the children of each node are as a production has them, comments apart. A string is read as
a whole. -/
inductive IsDerived : Tree → Prop
  | leaf {l : Leaf} (htoken : l.token ≠ some .comment) (hextra : l.isExtra = false)
      (hmissing : l.isMissing = false) : IsDerived (leaf l)
  | string {b : Branch} {cs : List Tree} (hhead : b.head.literal?.isSome)
      (hextra : b.isExtra = false) : IsDerived (node b cs)
  | node {b : Branch} {cs : List Tree} {p : Production} (hp : p ∈ allProductions)
      (hhead : b.head = .nonterminal p.lhs) (hliteral : b.head.literal? = none)
      (hextra : b.isExtra = false) (hlabels : b.labels = p.steps.map labelOf)
      (hsymbols : (cs.filter (!·.isExtra)).map symbol? = p.steps.map (some ·.symbol))
      (hcomments : ∀ c ∈ cs, c.isExtra = true → c.IsComment)
      (hchildren : ∀ c ∈ cs, c.isExtra = false → IsDerived c) : IsDerived (node b cs)

theorem IsComment.isExtra {t : Tree} (h : t.IsComment) : t.isExtra = true := by
  cases t with
  | leaf l => exact h.2.1
  | node b cs => exact h.elim

theorem IsDerived.isExtra {t : Tree} (h : t.IsDerived) : t.isExtra = false := by
  cases h with
  | leaf _ hextra => exact hextra
  | string _ hextra => exact hextra
  | node _ _ _ hextra => exact hextra

end Tree

/-! ### Entries -/

namespace Entry

/-- The trees of some entries, with the comments before them. -/
def treesOf (parts : List Entry) : List Tree := parts.flatMap fun e => e.comments ++ [e.tree]

theorem commentsBefore_append_childrenOf (parts : List Entry) :
    commentsBefore parts ++ childrenOf parts = treesOf parts := by
  cases parts with
  | nil => rfl
  | cons e parts => simp [commentsBefore, childrenOf, treesOf]

/-- An entry as a parser puts it on a stack: comments, and a tree that was derived. -/
structure IsSound (e : Entry) : Prop where
  comments : ∀ t ∈ e.comments, t.IsComment
  tree : e.tree.IsDerived

end Entry

/-! ### Stacks -/

/-- The last `left` characters of a text. -/
def restAt (text : List Char) (left : Nat) : List Char := text.drop (text.length - left)

/-- A way down from a state at a place: the entry has the symbol that leads there, and is the stretch of
the text between. -/
structure Leads (text : List Char) (state : ItemSet) (left : Nat) (w : Way) : Prop where
  advance : ∃ x, w.1.tree.symbol? = some x ∧ x ∉ quotes ∧ state = w.2.state.advance x
  isSound : w.1.IsSound
  spans : Tree.Spans (w.1.comments ++ [w.1.tree]) (restAt text w.2.left) (restAt text left)

/-- A stack that has read a part of a text: only at the start are there no ways down. -/
inductive Stack.Reads (text : List Char) : Stack → Prop
  | node {state : ItemSet} {left : Nat} {ways : List Way}
      (hstart : ways = [] → state = .start ∧ left = text.length)
      (hways : ∀ w ∈ ways, Leads text state left w) (hbelow : ∀ w ∈ ways, Reads text w.2) :
      Reads text (.node state left ways)

namespace Stack.Reads

variable {text : List Char} {s : Stack}

theorem bottom (text : List Char) : (Stack.bottom text.length).Reads text :=
  .node (fun _ => ⟨rfl, rfl⟩) (by simp) (by simp)

theorem isSound_state (h : s.Reads text) : s.state.IsSound := by
  induction h with
  | @node state left ways hstart hways _ ih =>
    cases ways with
    | nil =>
      rw [Stack.state, (hstart rfl).1]
      exact isSound_start
    | cons w ways =>
      obtain ⟨x, -, hx, rfl⟩ := (hways w List.mem_cons_self).advance
      exact (ih w List.mem_cons_self).advance hx

theorem of_mem_ways (h : s.Reads text) {w : Way} (hw : w ∈ s.ways) :
    Leads text s.state s.left w ∧ w.2.Reads text := by
  cases h with
  | node _ hways hbelow => exact ⟨hways w hw, hbelow w hw⟩

theorem of_ways_eq_nil (h : s.Reads text) (hs : s.ways = []) :
    s.state = .start ∧ s.left = text.length := by
  cases h with
  | node hstart _ _ => exact hstart hs

theorem push (h : s.Reads text) {x : Grammar.Symbol} {e : Entry} {left : Nat}
    (hsymbol : e.tree.symbol? = some x) (hx : x ∉ quotes) (he : e.IsSound)
    (hspans : Tree.Spans (e.comments ++ [e.tree]) (restAt text s.left) (restAt text left)) :
    (s.push x e left).Reads text := by
  refine .node (fun hnil => absurd hnil (List.cons_ne_nil _ _)) ?_ ?_
  · intro w hw
    rw [List.mem_singleton.mp hw]
    exact ⟨⟨x, hsymbol, hx, rfl⟩, he, hspans⟩
  · intro w hw
    rw [List.mem_singleton.mp hw]
    exact h

/-! ### Walking down -/

/-- What a walk down passes is a stretch of the text. -/
theorem of_mem_walk (h : s.Reads text) {count : Nat} (passed : List Entry) {rest : List Char}
    (hpassed : Tree.Spans (Entry.treesOf passed) (restAt text s.left) rest)
    (hsound : ∀ e ∈ passed, e.IsSound) {r : List Entry × Stack} (hr : r ∈ s.walk count passed) :
    r.2.Reads text ∧ Tree.Spans (Entry.treesOf r.1) (restAt text r.2.left) rest ∧
      ∀ e ∈ r.1, e.IsSound := by
  induction count generalizing s passed with
  | zero =>
    obtain rfl := List.mem_singleton.mp hr
    exact ⟨h, hpassed, hsound⟩
  | succ count ih =>
    obtain ⟨⟨e, below⟩, hw, hr⟩ := List.mem_flatMap.mp hr
    obtain ⟨hleads, hbelow⟩ := h.of_mem_ways hw
    refine ih hbelow (e :: passed) ?_ (List.forall_mem_cons.mpr ⟨hleads.isSound, hsound⟩) hr
    exact hleads.spans.append hpassed

/-- If a state has an item, what has been read of it lies on top of the stack. -/
theorem symbols_of_mem_walk (h : s.Reads text) {i : Item} {lookahead : Nat}
    (hi : (i, lookahead) ∈ s.state.kernel ∨ i.seen = []) {passed : List Entry}
    {r : List Entry × Stack} (hr : r ∈ s.walk i.seen.length passed) :
    r.1.map (·.tree.symbol?) = i.seen.reverse.map (some ·.symbol) ++ passed.map (·.tree.symbol?) := by
  obtain ⟨production, seen, rest⟩ := i
  induction seen generalizing s rest passed with
  | nil =>
    obtain rfl := List.mem_singleton.mp hr
    rfl
  | cons st seen ih =>
    obtain ⟨⟨e, below⟩, hw, hmem⟩ := List.mem_flatMap.mp hr
    obtain ⟨hleads, hbelow⟩ := h.of_mem_ways hw
    obtain ⟨x, hsymbol, -, hstate⟩ := hleads.advance
    have hi := hi.resolve_right (List.cons_ne_nil st seen)
    rw [hstate] at hi
    obtain ⟨j, st', rest', hrest, rfl, heq, hj⟩ := ItemSet.of_mem_advance hi
    obtain ⟨rfl, hseen, rfl⟩ := Item.mk.inj heq
    obtain ⟨rfl, rfl⟩ := List.cons.inj hseen
    have hmore : (⟨j.production, j.seen, j.rest⟩, lookahead) ∈ below.state.kernel ∨ j.seen = [] := by
      rcases hj with hj | ⟨p, -, rfl⟩
      · exact .inl hj
      · exact .inr rfl
    rw [ih hbelow j.rest hmore hmem]
    simp [hsymbol]

end Stack.Reads

/-! ### Adding ways -/

theorem Stack.mem_addWay {vs : List Way} {w u : Way} (h : u ∈ addWay vs w) : u = w ∨ u ∈ vs := by
  induction vs with
  | nil => exact .inl (List.mem_singleton.mp h)
  | cons v vs ih =>
    rw [addWay] at h
    split at h
    · rcases List.mem_cons.mp h with rfl | h
      · split
        · exact .inl rfl
        · exact .inr List.mem_cons_self
      · exact .inr (List.mem_cons_of_mem v h)
    · rcases List.mem_cons.mp h with rfl | h
      · exact .inr List.mem_cons_self
      · exact (ih h).imp_right (List.mem_cons_of_mem v)

theorem Stack.addWay_ne_nil (vs : List Way) (w : Way) : addWay vs w ≠ [] := by
  cases vs with
  | nil => exact List.cons_ne_nil _ _
  | cons v vs =>
    rw [addWay]
    split <;> exact List.cons_ne_nil _ _

theorem Stack.mem_foldl_addWay {ws vs : List Way} {u : Way} (h : u ∈ ws.foldl addWay vs) :
    u ∈ ws ∨ u ∈ vs := by
  induction ws generalizing vs with
  | nil => exact .inr h
  | cons w ws ih =>
    rcases ih h with h | h
    · exact .inl (List.mem_cons_of_mem w h)
    · rcases mem_addWay h with rfl | h
      · exact .inl List.mem_cons_self
      · exact .inr h

theorem Stack.foldl_addWay_ne_nil {vs : List Way} (h : vs ≠ []) (ws : List Way) :
    ws.foldl addWay vs ≠ [] := by
  induction ws generalizing vs with
  | nil => exact h
  | cons w ws ih => exact ih (addWay_ne_nil vs w)

/-- What has come to the same point can be joined. -/
theorem Stack.Reads.join {text : List Char} {a b : Stack} (ha : a.Reads text) (hb : b.Reads text)
    (halike : a.alike b) : (a.join b).Reads text := by
  obtain ⟨hleft, hstate⟩ := Bool.and_eq_true_iff.mp halike
  have hleft : a.left = b.left := by simpa using hleft
  have hstate : a.state = b.state := of_decide_eq_true hstate
  have hways : ∀ w ∈ b.ways.foldl addWay a.ways,
      Leads text a.state a.left w ∧ w.2.Reads text := by
    intro w hw
    rcases mem_foldl_addWay hw with hw | hw
    · rw [hleft, hstate]
      exact hb.of_mem_ways hw
    · exact ha.of_mem_ways hw
  refine .node (fun hnil => ha.of_ways_eq_nil ?_) (fun w hw => (hways w hw).1) fun w hw =>
    (hways w hw).2
  cases hvs : a.ways with
  | nil => rfl
  | cons v vs => exact absurd hnil (foldl_addWay_ne_nil (hvs ▸ List.cons_ne_nil v vs) _)

/-! ### Building productions -/

namespace Entry

theorem filter_childrenOf {parts : List Entry} (h : ∀ e ∈ parts, e.IsSound) :
    (childrenOf parts).filter (!·.isExtra) = parts.map (·.tree) := by
  have hone : ∀ e : Entry, e.IsSound →
      (e.comments ++ [e.tree]).filter (!·.isExtra) = [e.tree] := by
    intro e he
    have hcomments : e.comments.filter (!·.isExtra) = [] :=
      List.filter_eq_nil_iff.mpr fun t ht => by simp [(he.comments t ht).isExtra]
    rw [List.filter_append, hcomments]
    simp [he.tree.isExtra]
  cases parts with
  | nil => rfl
  | cons e parts =>
    obtain ⟨he, hparts⟩ := List.forall_mem_cons.mp h
    rw [childrenOf, List.filter_cons_of_pos (by simp [he.tree.isExtra]), List.filter_flatMap,
      List.flatMap_congr fun f hf => hone f (hparts f hf), ← List.map_eq_flatMap]
    rfl

theorem of_mem_childrenOf {parts : List Entry} (h : ∀ e ∈ parts, e.IsSound) {t : Tree}
    (ht : t ∈ childrenOf parts) : t.IsComment ∨ t.IsDerived := by
  have hmem : t ∈ treesOf parts := by
    rw [← commentsBefore_append_childrenOf]
    exact List.mem_append_right _ ht
  obtain ⟨e, he, hmem⟩ := List.mem_flatMap.mp hmem
  rcases List.mem_append.mp hmem with hmem | hmem
  · exact .inl ((h e he).comments t hmem)
  · rw [List.mem_singleton.mp hmem]
    exact .inr (h e he).tree

theorem isComment_of_mem_commentsBefore {parts : List Entry} (h : ∀ e ∈ parts, e.IsSound) :
    ∀ t ∈ commentsBefore parts, t.IsComment := by
  cases parts with
  | nil => simp [commentsBefore]
  | cons e parts => exact (h e List.mem_cons_self).comments

/-- The entry for a complete item is sound, if its parts are what has been read of the item. -/
theorem isSound_build {i : Item} {lookahead : Nat} (hi : i.IsOf lookahead) (hrest : i.rest = [])
    (hgoal : i.lhs ≠ goal) {parts : List Entry} (hparts : ∀ e ∈ parts, e.IsSound)
    (hsymbols : parts.map (·.tree.symbol?) = i.seen.reverse.map (some ·.symbol)) :
    (build i parts).IsSound := by
  have hsteps : i.seen.reverse = i.production.steps := by
    have := hi.steps
    rwa [hrest, List.append_nil] at this
  have hmem : i.production ∈ allProductions := by
    refine (List.mem_cons.mp hi.mem).resolve_left fun hstart => hgoal ?_
    rw [Item.lhs, hstart]
    rfl
  obtain ⟨b, hb, hhead, hlabels, hextra, -⟩ := Tree.exists_branchOf_eq (.nonterminal i.lhs)
    (i.seen.reverse.map labelOf) i.production.dynamic (childrenOf parts)
  refine ⟨isComment_of_mem_commentsBefore hparts, ?_⟩
  have htree : (build i parts).tree = .node b (childrenOf parts) := hb
  rw [htree]
  refine .node hmem hhead (by rw [hhead, hi.literal?_eq_none hrest]) hextra
    (by rw [hlabels, hsteps]) ?_ ?_ ?_
  · rw [filter_childrenOf hparts, List.map_map, ← hsteps]
    exact hsymbols
  · intro c hc hextra
    refine (of_mem_childrenOf hparts hc).resolve_right fun hderived => ?_
    rw [hderived.isExtra] at hextra
    cases hextra
  · intro c hc hextra
    refine (of_mem_childrenOf hparts hc).resolve_left fun hcomment => ?_
    rw [hcomment.isExtra] at hextra
    cases hextra

end Entry

theorem Stack.of_mem_reduce {s q : Stack} {i : Item} (h : q ∈ s.reduce i) :
    ∃ parts below, (parts, below) ∈ s.walk i.seen.length [] ∧
      q = below.push (.nonterminal i.lhs) (Entry.build i parts) s.left := by
  obtain ⟨⟨e, below⟩, hw, rfl⟩ := List.mem_map.mp h
  rcases mem_foldl_addWay hw with hw | hw
  · obtain ⟨⟨parts, below'⟩, hr, heq⟩ := List.mem_map.mp hw
    cases heq
    exact ⟨parts, below, hr, rfl⟩
  · cases hw

/-- A stack on which something complete has been built has read the same part of the text. -/
theorem Stack.Reads.of_mem_reduce {text : List Char} {s q : Stack} (h : s.Reads text) {t : Terminal}
    {i : Item} (hi : .reduce i ∈ s.state.actions t) (hq : q ∈ s.reduce i) :
    q.Reads text ∧ q.left = s.left := by
  obtain ⟨lookahead, hcomplete, hof, hrest, hgoal⟩ := h.isSound_state.of_reduce hi
  obtain ⟨parts, below, hr, rfl⟩ := Stack.of_mem_reduce hq
  obtain ⟨hbelow, hspans, hparts⟩ := h.of_mem_walk [] (.nil _) (by simp) hr
  have hkernel : (i, lookahead) ∈ s.state.kernel ∨ i.seen = [] := by
    rcases (ItemSet.of_mem_complete hcomplete).2 with hi | ⟨p, -, rfl⟩
    · exact .inl hi
    · exact .inr rfl
  have hsymbols := h.symbols_of_mem_walk hkernel hr
  rw [List.map_nil, List.append_nil] at hsymbols
  rw [← Entry.commentsBefore_append_childrenOf] at hspans
  obtain ⟨hcomments, hchildren⟩ := hspans.of_append
  refine ⟨hbelow.push rfl (by simp [quotes])
    (Entry.isSound_build hof hrest hgoal hparts hsymbols) ?_, rfl⟩
  exact hcomments.append (hchildren.branchOf (hof.literal?_eq_none hrest))

/-- Where a text is complete, each way down is a file, and the start of the text is below it. -/
theorem Stack.Reads.of_accept {text : List Char} {s : Stack} (h : s.Reads text) {t : Terminal}
    (ht : .accept ∈ s.state.actions t) {w : Way} (hw : w ∈ s.ways) :
    w.2.left = text.length ∧ w.1.tree.symbol? = some RuleName.sourceFile.symbol := by
  obtain ⟨-, i, lookahead, hi, hstart, hrest⟩ := h.isSound_state.of_accept ht
  obtain ⟨hleads, hbelow⟩ := h.of_mem_ways hw
  obtain ⟨x, hsymbol, -, hstate⟩ := hleads.advance
  have hsteps := (h.isSound_state _ hi).steps
  rw [hrest, hstart, List.append_nil] at hsteps
  rw [hstate] at hi
  obtain ⟨j, st, rest, hjrest, rfl, rfl, hj⟩ := ItemSet.of_mem_advance hi
  -- nothing had been read of the item before
  have hseen : j.seen = [] := by
    have hlength := congrArg List.length hsteps
    have hone : Item.start.production.steps.length = 1 := rfl
    rw [List.length_reverse, List.length_cons, hone] at hlength
    exact List.length_eq_zero_iff.mp (by omega)
  have hkernel : (j, lookahead) ∈ w.2.state.kernel := by
    refine hj.resolve_right ?_
    rintro ⟨p, hp, rfl⟩
    exact lhs_ne_goal hp (congrArg Production.lhs hstart)
  have hfile : st.symbol = RuleName.sourceFile.symbol := by
    rw [List.reverse_cons, hseen, List.reverse_nil, List.nil_append] at hsteps
    rw [(List.cons.inj hsteps).1]
  refine ⟨?_, hsymbol.trans (congrArg some hfile)⟩
  by_cases hways : w.2.ways = []
  · exact (hbelow.of_ways_eq_nil hways).2
  · obtain ⟨v, hv⟩ := List.exists_mem_of_ne_nil _ hways
    obtain ⟨y, -, -, hstate'⟩ := (hbelow.of_mem_ways hv).1.advance
    rw [hstate'] at hkernel
    obtain ⟨k, st', rest', -, -, heq, -⟩ := ItemSet.of_mem_advance hkernel
    rw [heq] at hseen
    cases hseen

end GoOutline.Parse

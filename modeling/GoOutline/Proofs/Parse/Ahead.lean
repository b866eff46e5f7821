import GoOutline.Proofs.Parse.Bare
import GoOutline.Proofs.Parse.Reader

/-!
# What is ahead, with a comment and with a space

The next token of a text stays the same if a comment is replaced by a space, and so does what is taken
with it.

* `nextFrom_eq`, `nextFrom_skip`: the next token does not depend on the fuel, nor on the space before
  it.
* `Ahead.Same`, `nextFrom_blank`: what is ahead is the same, comments and spaces apart.
* `Taken.Same`, `Ahead.Same.taken?`: so is what is taken from the text, also if it is a string.
-/

namespace GoOutline.Parse

open GoOutline.Grammar GoOutline.Automaton GoOutline.Syntax GoOutline.Text GoOutline.Token

/-! ### The next token -/

theorem nextFrom_succ (wanted fuel : Nat) (space rest : List Char) (left : Nat) :
    nextFrom wanted (fuel + 1) space rest left = (lookahead wanted rest).bind fun found =>
      if found.token = .comment then
        (nextFrom wanted fuel [] (rest.drop (found.space.length + found.text.length))
          (left - (found.space.length + found.text.length))).map fun a =>
            { a with comments := commentOf { found with space := space ++ found.space } :: a.comments }
      else some ⟨[], { found with space := space ++ found.space },
        rest.drop (found.space.length + found.text.length),
        left - (found.space.length + found.text.length)⟩ := by
  rw [nextFrom]
  refine congrArg _ (funext fun found => ?_)
  dsimp only
  split
  · cases nextFrom wanted fuel [] _ _ <;> rfl
  · rfl

variable {set : Nat} (hset : Terminal.comment.isIn set)

include hset

/-- There is less text after a comment. -/
theorem length_drop_lt_of_comment {rest : List Char} {found : Lookahead}
    (h : lookahead (codeSet set) rest = some found) (hcomment : found.token = .comment) :
    (rest.drop (found.space.length + found.text.length)).length < rest.length := by
  have hat := isTokenAt_of_lookahead hset h
  have hspelled := hat.spelled
  rw [hcomment] at hspelled
  have hne : found.text ≠ [] := (isOf_of_comment? (accepts_commentText_iff.mp hspelled)).1
  have hpos := List.length_pos_iff.mpr hne
  have hlength := congrArg List.length hat.append
  rw [List.length_append, List.length_append] at hlength
  omega

/-- The next token does not depend on the fuel. -/
theorem nextFrom_eq {fuel fuel' : Nat} {space rest : List Char} {left : Nat}
    (h : rest.length < fuel) (h' : rest.length < fuel') :
    nextFrom (codeSet set) fuel space rest left = nextFrom (codeSet set) fuel' space rest left := by
  induction fuel generalizing fuel' space rest left with
  | zero => exact absurd h (Nat.not_lt_zero _)
  | succ fuel ih =>
    obtain ⟨fuel', rfl⟩ : ∃ n, fuel' = n + 1 := ⟨fuel' - 1, by omega⟩
    rw [nextFrom_succ, nextFrom_succ]
    cases hfound : lookahead (codeSet set) rest with
    | none => rfl
    | some found =>
      simp only [Option.bind_some]
      split
      · next hcomment =>
        have hlt := length_drop_lt_of_comment hset hfound hcomment
        have hmore : (rest.drop (found.space.length + found.text.length)).length < fuel' := by omega
        rw [ih (by omega) hmore]
      · rfl

/-- White space before the next token. -/
theorem lookahead_skip {sp : List Char}
    (hsp : ∀ d ∈ sp, isSkipped (scanSet (codeSet set)) d = true) (rest : List Char) :
    lookahead (codeSet set) (sp ++ rest) =
      (lookahead (codeSet set) rest).map fun found => { found with space := sp ++ found.space } := by
  rw [lookahead, lookahead, found_scan_skip (isCodeSet_scanSet hset) hsp, Option.map_map,
    Option.map_map]
  congr 1
  funext s
  simp only [Function.comp_apply, classify]
  split
  · split <;> rfl
  · rfl

theorem nextFrom_skip {sp : List Char}
    (hsp : ∀ d ∈ sp, isSkipped (scanSet (codeSet set)) d = true) (fuel : Nat)
    (space rest : List Char) (left : Nat) :
    nextFrom (codeSet set) fuel space (sp ++ rest) (sp.length + left) =
      nextFrom (codeSet set) fuel (space ++ sp) rest left := by
  cases fuel with
  | zero => rfl
  | succ fuel =>
    rw [nextFrom_succ, nextFrom_succ, lookahead_skip hset hsp, Option.bind_map]
    refine congrArg _ (funext fun found => ?_)
    have hdrop : ∀ n, (sp ++ rest).drop (sp.length + n) = rest.drop n := by
      intro n
      rw [← List.drop_drop, List.drop_left]
    simp only [Function.comp_apply, List.length_append, Nat.add_assoc, hdrop, Nat.add_sub_add_left,
      List.append_assoc]

omit hset

/-! ### Texts in parallel -/

/-- What is ahead is the same, comments and spaces apart. -/
structure Ahead.Same (c after : List Char) (a a' : Ahead) : Prop where
  token : a.look.token = a'.look.token
  isWord : a.look.isWord = a'.look.isWord
  text : a.look.text = a'.look.text
  rest : (a.rest = a'.rest ∧ a.rest.length ≤ after.length) ∨
    BlankedAfter c after a.look.token a.rest a'.rest

theorem Ahead.rel_comments {c after : List Char} {o o' : Option Ahead}
    (h : Option.Rel (Ahead.Same c after) o o') (f f' : Ahead → List Tree) :
    Option.Rel (Ahead.Same c after) (o.map fun a => { a with comments := f a })
      (o'.map fun a => { a with comments := f' a }) := by
  cases h with
  | none => exact .none
  | some ha => exact .some ⟨ha.token, ha.isWord, ha.text, ha.rest⟩

/-- Past the comment, only the space before a token may differ. -/
theorem nextFrom_past {c after : List Char} (wanted fuel : Nat) (space space' : List Char)
    {rest : List Char} (h : rest.length ≤ after.length) (left : Nat) :
    Option.Rel (Ahead.Same c after) (nextFrom wanted fuel space rest left)
      (nextFrom wanted fuel space' rest left) := by
  induction fuel generalizing space space' rest left with
  | zero => exact .none
  | succ fuel ih =>
    rw [nextFrom_succ, nextFrom_succ]
    cases lookahead wanted rest with
    | none => exact .none
    | some found =>
      have hdrop : (rest.drop (found.space.length + found.text.length)).length ≤ after.length := by
        rw [List.length_drop]
        omega
      simp only [Option.bind_some]
      split
      · exact Ahead.rel_comments (ih [] [] hdrop _) _ _
      · exact .some ⟨rfl, rfl, rfl, .inl ⟨rfl, hdrop⟩⟩

/-- A token that is taken for a word opens no string. -/
theorem blankedAfter_classify {c after text text' : List Char} {s : Scanned} (expected : Nat)
    (h : BlankedAfter c after s.token text text') :
    BlankedAfter c after (classify expected s).token text text' := by
  rcases cases_of_classify expected s with heq | ⟨t, heq, htoken, ht⟩
  · rw [heq]
    exact h
  · rw [htoken] at h
    rw [heq]
    refine (h.isBlanked (by decide) (by decide)).blankedAfter ?_ ?_
    · rintro rfl
      rcases ht with ht | ⟨ht, -⟩ <;> cases ht
    · rintro rfl
      rcases ht with ht | ⟨ht, -⟩ <;> cases ht

include hset

/-- The next token is the comment that is replaced, or the same in both texts. -/
theorem lookahead_blank {c after rest rest' : List Char} (h : IsBlanked c after rest rest') :
    (∃ space, (∀ d ∈ space, isSkipped (scanSet (codeSet set)) d = true) ∧
        rest = space ++ (c ++ after) ∧ rest' = space ++ ' ' :: after ∧
        lookahead (codeSet set) rest = some ⟨.comment, false, space, c⟩) ∨
      lookahead (codeSet set) rest' = lookahead (codeSet set) rest ∧
        ∀ found ∈ lookahead (codeSet set) rest, BlankedAfter c after found.token
          (rest.drop (found.space.length + found.text.length))
          (rest'.drop (found.space.length + found.text.length)) := by
  obtain ⟨ps, qs, hpieces, rfl, rfl⟩ := h
  rcases found_scan_blank (isCodeSet_scanSet hset) hpieces with
    ⟨space, hspace, rfl, hfound⟩ | ⟨hsame, hafter⟩
  · refine .inl ⟨space, hspace, ?_, ?_, ?_⟩
    · rw [← sourceOf_pieces rest, hpieces, sourceOf_append, sourceOf_map_char, sourceOf_cons]
      rfl
    · rw [sourceOf_map_char]
    · rw [lookahead, hfound]
      rfl
  · refine .inr ⟨by rw [lookahead, lookahead, hsame], fun found hmem => ?_⟩
    obtain ⟨s, hs, rfl⟩ := Option.map_eq_some_iff.mp hmem
    have hlook : (classify (codeSet set) s).space = s.space ∧
        (classify (codeSet set) s).text = s.text := by
      rcases cases_of_classify (codeSet set) s with heq | ⟨t, heq, -⟩ <;> rw [heq] <;> exact ⟨rfl, rfl⟩
    rw [hlook.1, hlook.2]
    exact blankedAfter_classify _ (hafter s hs)

/-- Where the comment itself is next, the space in its place is skipped. -/
theorem nextFrom_at_comment {c after sp : List Char}
    (hsp : ∀ d ∈ sp, isSkipped (scanSet (codeSet set)) d = true)
    (hfound : lookahead (codeSet set) (sp ++ (c ++ after)) = some ⟨.comment, false, sp, c⟩)
    (space : List Char) {fuel fuel' : Nat} (hfuel : (sp ++ (c ++ after)).length < fuel)
    (hfuel' : (sp ++ ' ' :: after).length < fuel') :
    Option.Rel (Ahead.Same c after)
      (nextFrom (codeSet set) fuel space (sp ++ (c ++ after)) (sp ++ (c ++ after)).length)
      (nextFrom (codeSet set) fuel' space (sp ++ ' ' :: after) (sp ++ ' ' :: after).length) := by
  obtain ⟨fuel, rfl⟩ : ∃ n, fuel = n + 1 := ⟨fuel - 1, by omega⟩
  have hlt := length_drop_lt_of_comment hset hfound rfl
  have hdrop : (sp ++ (c ++ after)).drop (sp.length + c.length) = after := by
    rw [← List.append_assoc, ← List.length_append, List.drop_left]
  have hskip : ∀ d ∈ sp ++ [' '], isSkipped (scanSet (codeSet set)) d = true := by
    intro d hd
    rcases List.mem_append.mp hd with hd | hd
    · exact hsp d hd
    · rw [List.mem_singleton.mp hd]
      rfl
  have hthere : nextFrom (codeSet set) fuel' space (sp ++ ' ' :: after)
      (sp ++ ' ' :: after).length =
        nextFrom (codeSet set) fuel' (space ++ (sp ++ [' '])) after after.length := by
    rw [← nextFrom_skip hset hskip, List.append_assoc, List.singleton_append]
    simp [Nat.add_right_comm, Nat.add_assoc]
  have hafter : after.length < fuel ∧ after.length < fuel' := by
    rw [hdrop] at hlt
    rw [List.length_append, List.length_cons] at hfuel'
    omega
  rw [hthere, nextFrom_eq hset hafter.2 hafter.1, nextFrom_succ, hfound]
  simp only [Option.bind_some, if_true, ← List.length_drop, hdrop]
  have hpast := nextFrom_past (c := c) (codeSet set) fuel [] (space ++ (sp ++ [' ']))
    (Nat.le_refl after.length) after.length
  have hcomments := Ahead.rel_comments hpast
    (commentOf ⟨.comment, false, space ++ sp, c⟩ :: ·.comments) (·.comments)
  rwa [Option.map_id'] at hcomments

/-- What is ahead is the same if a comment is replaced by a space. -/
theorem nextFrom_blank {c after rest rest' : List Char} (h : Parallel c after rest rest')
    (space : List Char) {fuel fuel' : Nat} (hfuel : rest.length < fuel)
    (hfuel' : rest'.length < fuel') :
    Option.Rel (Ahead.Same c after) (nextFrom (codeSet set) fuel space rest rest.length)
      (nextFrom (codeSet set) fuel' space rest' rest'.length) := by
  rcases h with h | ⟨rfl, hpast⟩
  · induction fuel generalizing fuel' space rest rest' with
    | zero => exact absurd hfuel (Nat.not_lt_zero _)
    | succ fuel ih =>
      rcases lookahead_blank hset h with ⟨sp, hsp, rfl, rfl, hfound⟩ | ⟨hsame, hafter⟩
      · exact nextFrom_at_comment hset hsp hfound space hfuel hfuel'
      · obtain ⟨fuel', rfl⟩ : ∃ n, fuel' = n + 1 := ⟨fuel' - 1, by omega⟩
        rw [nextFrom_succ, nextFrom_succ, hsame]
        cases hfound : lookahead (codeSet set) rest with
        | none => exact .none
        | some found =>
          have hblanked := hafter found hfound
          simp only [Option.bind_some]
          split
          · next hcomment =>
            rw [hcomment] at hblanked
            have hlt := length_drop_lt_of_comment hset hfound hcomment
            have hlt' := length_drop_lt_of_comment hset (hsame.trans hfound) hcomment
            rw [← List.length_drop, ← List.length_drop]
            exact Ahead.rel_comments
              (ih [] (by omega) (by omega) (hblanked.isBlanked (by decide) (by decide))) _ _
          · exact .some ⟨rfl, rfl, rfl, .inr hblanked⟩
  · rw [nextFrom_eq hset hfuel' hfuel]
    exact nextFrom_past _ _ _ _ hpast _

omit hset

/-! ### What is taken -/

/-- What is taken is the same, comments and spaces apart. -/
structure Taken.Same (c after : List Char) (k k' : Taken) : Prop where
  symbol : k.symbol = k'.symbol
  tree : k.tree.bare = k'.tree.bare
  rest : Parallel c after k.rest k'.rest

theorem bare_leafOf {look look' : Lookahead} (htoken : look.token = look'.token)
    (htext : look.text = look'.text) :
    (Tree.leaf (leafOf look)).bare = (Tree.leaf (leafOf look')).bare := by
  rw [Tree.bare, Tree.bare, leafOf, leafOf, htoken, htext]
  rfl

/-- The space before a string does not belong to it. -/
theorem bare_string {n : RuleName} (hn : (Head.nonterminal n.ctorIdx).literal?.isSome)
    {look look' : Lookahead} (htoken : look.token = look'.token) (htext : look.text = look'.text)
    (parts : List Scanned) (rest rest' : List Char) :
    (Taken.string n look (parts, rest)).tree.bare =
      (Taken.string n look' (parts, rest')).tree.bare := by
  have hleaf := Tree.leaf.inj (bare_leafOf htoken htext)
  unfold Taken.string Tree.branchOf
  rw [Tree.bare_string _ _ hn, Tree.bare_string _ _ hn, Tree.unspaced, Tree.unspaced, hleaf]
  rfl

/-- A string is taken in the same way, whatever comes after it. -/
theorem Taken.same_string {c after : List Char} {n : RuleName}
    (hn : (Head.nonterminal n.ctorIdx).literal?.isSome) {look look' : Lookahead}
    (htoken : look.token = look'.token) (htext : look.text = look'.text)
    {o : Option (List Scanned)} {rest rest' : List Char} (h : Parallel c after rest rest') :
    Option.Rel (Taken.Same c after) ((o.map (·, rest)).map (Taken.string n look))
      ((o.map (·, rest')).map (Taken.string n look')) := by
  cases o with
  | none => exact .none
  | some parts => exact .some ⟨rfl, bare_string hn htoken htext parts rest rest', h⟩

/-- What is taken with the next token is the same if a comment is replaced by a space. -/
theorem Ahead.Same.taken? {c after text text' : List Char} {a a' : Ahead}
    (h : Ahead.Same c after a a') (ha : a.IsAt text) (ha' : a'.IsAt text') :
    Option.Rel (Taken.Same c after) a.taken? a'.taken? := by
  have hrest := h.rest
  unfold Ahead.taken?
  rw [← h.token]
  split
  · next htoken =>
    have hn : (Head.nonterminal RuleName.interpretedStringLiteral.ctorIdx).literal?.isSome := by decide
    rcases hrest with ⟨heq, hpast⟩ | hblanked
    · rw [ha.left_eq, ha'.left_eq, ← heq]
      cases htokens : quotedTokens (a.rest.length + 1) a.rest with
      | none => exact .none
      | some parts =>
        exact Taken.same_string (o := some parts.1) hn h.token h.text
          (.past hpast (of_quotedTokens htokens).1)
    · rw [htoken] at hblanked
      obtain ⟨part, rest, rest', heq, heq', hclosing, hblanked⟩ := hblanked
      have hquoted : IsQuoted part := by
        have happend := closeQuoted?_append hclosing []
        rwa [List.append_nil] at happend
      obtain ⟨o, ho⟩ := hquoted.hasTokens
      rw [heq, heq', ho _ rest (by rw [ha.left_eq, heq, List.length_append]; omega),
        ho _ rest' (by rw [ha'.left_eq, heq', List.length_append]; omega)]
      exact Taken.same_string hn h.token h.text (.inl hblanked)
  · next htoken =>
    have hn : (Head.nonterminal RuleName.rawStringLiteral.ctorIdx).literal?.isSome := by decide
    rcases hrest with ⟨heq, hpast⟩ | hblanked
    · rw [← heq]
      cases htokens : rawTokens a.rest with
      | none => exact .none
      | some parts =>
        exact Taken.same_string (o := some parts.1) hn h.token h.text
          (.past hpast (of_rawTokens htokens).1)
    · rw [htoken] at hblanked
      obtain ⟨part, rest, rest', heq, heq', hclosing, hblanked⟩ := hblanked
      obtain ⟨parts, hparts⟩ := rawTokens_eq hclosing
      rw [heq, heq', hparts rest, hparts rest']
      exact Taken.same_string (o := some parts) hn h.token h.text (.inl hblanked)
  · next hquote hback =>
    refine .some ⟨rfl, bare_leafOf h.token h.text, ?_⟩
    exact hrest.symm.imp (fun hblanked => hblanked.isBlanked hquote hback) id

end GoOutline.Parse

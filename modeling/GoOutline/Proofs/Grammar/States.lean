import GoOutline.Grammar.ItemSet
import GoOutline.Parse.Sound

/-!
# States of the parser

What the items of a state are, whatever has been read.

* `Item.IsOf`: an item is a production of the grammar, cut in two, without quotes in the part that has
  been read, and only the end may follow the whole file.
* `ItemSet.IsSound`: so are all items that brought the parser to a state.
* `isSound_start`, `ItemSet.IsSound.advance`: so it is at the start, and after every symbol that is no
  quote.
* `ItemSet.IsSound.literal?_eq_none`: no state builds a string.
* `ItemSet.IsSound.of_accept`: a text is complete only at its end.
-/

namespace GoOutline.Grammar

open GoOutline.Parse

/-! ### Items -/

/-- The tokens that a string begins with. -/
def quotes : List Symbol := [.terminal .quote, .terminal .backquote]

/-- The productions, that of the whole text included. -/
def fullProductions : List Production := Item.start.production :: allProductions

/-- An item of the grammar that `lookahead` may follow: strings are never taken apart, and only the
end may follow the whole text. -/
structure Item.IsOf (i : Item) (lookahead : Nat) : Prop where
  mem : i.production ∈ fullProductions
  steps : i.seen.reverse ++ i.rest = i.production.steps
  seen : ∀ s ∈ i.seen, s.symbol ∉ quotes
  atEnd : i.lhs = goal → i.production = Item.start.production ∧ lookahead = Terminal.endOfInput.bit

/-- Whether all items that brought the parser to a state are items of the grammar. -/
def ItemSet.IsSound (s : ItemSet) : Prop := ∀ x ∈ s.kernel, x.1.IsOf x.2

theorem isSound_start : ItemSet.start.IsSound := by
  intro x hx
  obtain rfl := List.mem_singleton.mp hx
  exact ⟨List.mem_cons_self, rfl, by simp [Item.start, Production.item], fun _ => ⟨rfl, rfl⟩⟩

theorem lhs_ne_goal {p : Production} (h : p ∈ allProductions) : p.lhs ≠ goal := by
  have hall : (allProductions.all fun p => p.lhs != goal) = true := by decide +kernel
  simpa using List.all_eq_true.mp hall p h

theorem mem_productionsFrom {code : Nat} {p : Production}
    (h : p ∈ productionsFrom.getD code []) : p ∈ allProductions ∧ p.beginsWith code := by
  by_cases hcode : code < symbolCount
  · have hget : productionsFrom.getD code [] = allProductions.filter (·.beginsWith code) := by
      simp [productionsFrom, hcode]
    rw [hget] at h
    exact List.mem_filter.mp h
  · have hget : productionsFrom.getD code [] = [] := by
      simp [productionsFrom, hcode]
    rw [hget] at h
    cases h

theorem Terminal.ctorIdx_lt (t : Terminal) : t.ctorIdx < Terminal.count := by
  cases t <;> decide

theorem Symbol.code_injective {x y : Symbol} (h : x.code = y.code) : x = y := by
  cases x with
  | terminal t =>
    cases y with
    | terminal u => rw [← t.ofNat_ctorIdx, ← u.ofNat_ctorIdx]; exact congrArg _ (congrArg _ h)
    | nonterminal m =>
      have := t.ctorIdx_lt
      simp only [Symbol.code] at h
      omega
  | nonterminal n =>
    cases y with
    | terminal u =>
      have := u.ctorIdx_lt
      simp only [Symbol.code] at h
      omega
    | nonterminal m =>
      simp only [Symbol.code] at h
      rw [show n = m by omega]

theorem exists_of_next? {i : Item} {x : Symbol} (h : i.next? = some x) :
    ∃ s rest, i.rest = s :: rest ∧ s.symbol = x ∧ i.advance = ⟨i.production, s :: i.seen, rest⟩ := by
  obtain ⟨production, seen, rest⟩ := i
  cases rest with
  | nil => cases h
  | cons s rest => exact ⟨s, rest, rfl, Option.some.inj h, rfl⟩

theorem exists_of_beginsWith {p : Production} {x : Symbol} (h : p.beginsWith x.code) :
    ∃ s rest, p.steps = s :: rest ∧ s.symbol = x := by
  unfold Production.beginsWith at h
  split at h
  · cases h
  · next s rest hsteps => exact ⟨s, rest, hsteps, Symbol.code_injective (eq_of_beq h)⟩

/-- Where the items of a state come from: one more symbol has been read of an item of the state before,
or of a production that could begin there. -/
theorem ItemSet.of_mem_advance {s : ItemSet} {x : Symbol} {i : Item} {lookahead : Nat}
    (h : (i, lookahead) ∈ (s.advance x).kernel) :
    ∃ j st rest, j.rest = st :: rest ∧ st.symbol = x ∧ i = ⟨j.production, st :: j.seen, rest⟩ ∧
      ((j, lookahead) ∈ s.kernel ∨ ∃ p ∈ allProductions, j = p.item) := by
  rcases List.mem_append.mp h with h | h
  · obtain ⟨⟨j, l⟩, hj, heq⟩ := List.mem_map.mp h
    cases heq
    obtain ⟨hj, hnext⟩ := List.mem_filter.mp hj
    obtain ⟨st, rest, hrest, hsymbol, hadvance⟩ := exists_of_next? (eq_of_beq hnext)
    exact ⟨j, st, rest, hrest, hsymbol, hadvance, .inl hj⟩
  · obtain ⟨p, hp, heq⟩ := List.mem_filterMap.mp h
    obtain ⟨hp, hbegins⟩ := mem_productionsFrom hp
    obtain ⟨st, rest, hsteps, hsymbol⟩ := exists_of_beginsWith hbegins
    split at heq
    · cases heq
    · cases heq
      have hnext : p.item.next? = some x := by simp [Production.item, Item.next?, hsteps, hsymbol]
      obtain ⟨st, rest, hrest, hsymbol, hadvance⟩ := exists_of_next? hnext
      exact ⟨p.item, st, rest, hrest, hsymbol, hadvance, .inr ⟨p, hp, rfl⟩⟩

/-! ### Sound states -/

theorem Production.isOf_item {p : Production} (h : p ∈ allProductions) (lookahead : Nat) :
    p.item.IsOf lookahead :=
  ⟨List.mem_cons_of_mem _ h, rfl, by simp [Production.item],
    fun hgoal => absurd hgoal (lhs_ne_goal h)⟩

theorem ItemSet.IsSound.advance {s : ItemSet} (h : s.IsSound) {x : Symbol} (hx : x ∉ quotes) :
    (s.advance x).IsSound := by
  rintro ⟨i, lookahead⟩ hi
  obtain ⟨j, st, rest, hrest, hsymbol, rfl, hj⟩ := ItemSet.of_mem_advance hi
  have hof : j.IsOf lookahead := by
    rcases hj with hj | ⟨p, hp, rfl⟩
    · exact h _ hj
    · exact Production.isOf_item hp lookahead
  refine ⟨hof.mem, ?_, ?_, hof.atEnd⟩
  · have := hof.steps
    rw [hrest] at this
    simpa using this
  · exact List.forall_mem_cons.mpr ⟨hsymbol ▸ hx, hof.seen⟩

theorem mem_insertComplete {x y : Item × Nat} {items : List (Item × Nat)}
    (h : y ∈ insertComplete x items) : y = x ∨ y ∈ items := by
  induction items with
  | nil => exact .inl (List.mem_singleton.mp h)
  | cons z items ih =>
    rw [insertComplete] at h
    split at h
    · exact List.mem_cons.mp h
    · rcases List.mem_cons.mp h with rfl | h
      · exact .inr List.mem_cons_self
      · exact (ih h).imp_right (List.mem_cons_of_mem z)

/-- A complete item is one that brought the parser here, or a production of nothing. -/
theorem ItemSet.of_mem_complete {s : ItemSet} {i : Item} {lookahead : Nat}
    (h : (i, lookahead) ∈ s.complete) :
    i.rest = [] ∧ ((i, lookahead) ∈ s.kernel ∨ ∃ p ∈ allProductions, i = p.item) := by
  have hfold : ∀ (xs items : List (Item × Nat)), (i, lookahead) ∈
      xs.foldl (fun items x => insertComplete x items) items → (i, lookahead) ∈ xs ∨
        (i, lookahead) ∈ items := by
    intro xs
    induction xs with
    | nil => exact fun items h => .inr h
    | cons x xs ih =>
      intro items h
      rcases ih _ h with h | h
      · exact .inl (List.mem_cons_of_mem x h)
      · rcases mem_insertComplete h with rfl | h
        · exact .inl List.mem_cons_self
        · exact .inr h
  rcases hfold _ _ h with h | h
  · obtain ⟨hmem, hrest⟩ := List.mem_filter.mp h
    exact ⟨List.isEmpty_iff.mp hrest, .inl hmem⟩
  · obtain ⟨p, hp, heq⟩ := List.mem_filterMap.mp h
    obtain ⟨hp, hempty⟩ := List.mem_filter.mp hp
    split at heq
    · cases heq
    · cases heq
      exact ⟨List.isEmpty_iff.mp hempty, .inr ⟨p, hp, rfl⟩⟩

/-! ### Actions -/

/-- What is done other than taking the token completes an item that the token may follow. -/
theorem ItemSet.of_mem_actions {s : ItemSet} {t : Terminal} {a : Action} (h : a ∈ s.actions t) :
    (∃ isIdle, a = .shift isIdle) ∨
      ∃ i lookahead, (i, lookahead) ∈ s.complete ∧ t.isIn lookahead ∧ a = i.completion := by
  have hending : ∀ {a}, a ∈ (highest ((s.complete.filter (t.isIn ·.2)).map (·.1))).map
      Item.completion → ∃ i lookahead, (i, lookahead) ∈ s.complete ∧ t.isIn lookahead ∧
        a = i.completion := by
    intro a ha
    obtain ⟨i, hi, rfl⟩ := List.mem_map.mp ha
    obtain ⟨⟨j, lookahead⟩, hj, rfl⟩ := List.mem_map.mp (List.mem_filter.mp hi).1
    obtain ⟨hmem, hin⟩ := List.mem_filter.mp hj
    exact ⟨j, lookahead, hmem, hin, rfl⟩
  unfold ItemSet.actions at h
  dsimp only at h
  split at h
  · split at h
    · cases h
    · exact .inl ⟨false, List.mem_singleton.mp h⟩
  split at h
  · exact .inr (hending h)
  split at h
  · rcases List.mem_append.mp h with h | h
    · exact .inr (hending h)
    · exact .inl ⟨true, List.mem_singleton.mp h⟩
  · rcases List.mem_append.mp h with h | h
    · split at h
      · exact .inr (hending h)
      · cases h
    · split at h
      · exact .inl ⟨false, List.mem_singleton.mp h⟩
      · cases h

theorem Item.completion_ne_shift (i : Item) (isIdle : Bool) : i.completion ≠ .shift isIdle := by
  unfold Item.completion
  split <;> rintro ⟨⟩

/-- A token is taken only if an item that brought the parser here goes on with it. -/
theorem ItemSet.exists_of_shift {s : ItemSet} {t : Terminal} {isIdle : Bool}
    (h : .shift isIdle ∈ s.actions t) :
    ∃ i lookahead x, (i, lookahead) ∈ s.kernel ∧ i.next? = some x ∧ t.isIn x.firstTokens := by
  have hending : ∀ items : List Item, .shift isIdle ∉ items.map Item.completion := by
    intro items hmem
    obtain ⟨i, -, hi⟩ := List.mem_map.mp hmem
    exact i.completion_ne_shift isIdle hi
  have hgoing : s.pending.filter (·.goesOnWith t) ≠ [] := by
    intro hnil
    unfold ItemSet.actions at h
    simp only [hnil, List.isEmpty_nil, if_true] at h
    split at h
    · cases h
    · exact hending _ h
  obtain ⟨i, hi⟩ := List.exists_mem_of_ne_nil _ hgoing
  obtain ⟨hpending, hgoes⟩ := List.mem_filter.mp hi
  obtain ⟨⟨j, lookahead⟩, hj, rfl⟩ := List.mem_map.mp hpending
  unfold Item.goesOnWith at hgoes
  split at hgoes
  · cases hgoes
  · next x hx => exact ⟨j, lookahead, x, (List.mem_filter.mp hj).1, hx, hgoes⟩

/-- No production goes on with the end of the text. -/
theorem ItemSet.IsSound.ne_endOfInput_of_shift {s : ItemSet} (h : s.IsSound) {t : Terminal}
    {isIdle : Bool} (ht : .shift isIdle ∈ s.actions t) : t ≠ .endOfInput := by
  rintro rfl
  obtain ⟨i, lookahead, x, hi, hnext, hfirst⟩ := ItemSet.exists_of_shift ht
  obtain ⟨st, rest, hrest, rfl, -⟩ := exists_of_next? hnext
  have hof := h _ hi
  have hmem : st ∈ i.production.steps := by
    rw [← hof.steps, hrest]
    simp
  have hall : (fullProductions.all fun p =>
      p.steps.all fun s => !Terminal.endOfInput.isIn s.symbol.firstTokens) = true := by
    decide +kernel
  have hnot := List.all_eq_true.mp (List.all_eq_true.mp hall _ hof.mem) st hmem
  rw [hfirst] at hnot
  cases hnot

theorem ItemSet.IsSound.isOf_of_mem_complete {s : ItemSet} (h : s.IsSound) {i : Item}
    {lookahead : Nat} (hi : (i, lookahead) ∈ s.complete) : i.IsOf lookahead := by
  rcases (ItemSet.of_mem_complete hi).2 with hi | ⟨p, hp, rfl⟩
  · exact h _ hi
  · exact Production.isOf_item hp lookahead

theorem eq_completion_reduce {i j : Item} (h : Action.reduce i = j.completion) :
    i = j ∧ j.lhs ≠ goal := by
  unfold Item.completion at h
  split at h
  · cases h
  · next hgoal => cases h; exact ⟨rfl, by simpa using hgoal⟩

/-- What a state builds is an item of the grammar that is complete. -/
theorem ItemSet.IsSound.of_reduce {s : ItemSet} (h : s.IsSound) {t : Terminal} {i : Item}
    (hi : .reduce i ∈ s.actions t) :
    ∃ lookahead, (i, lookahead) ∈ s.complete ∧ i.IsOf lookahead ∧ i.rest = [] ∧ i.lhs ≠ goal := by
  rcases ItemSet.of_mem_actions hi with ⟨_, heq⟩ | ⟨j, lookahead, hj, -, heq⟩
  · cases heq
  · obtain ⟨rfl, hgoal⟩ := eq_completion_reduce heq
    exact ⟨lookahead, hj, h.isOf_of_mem_complete hj, (ItemSet.of_mem_complete hj).1, hgoal⟩

/-- Strings begin with quotes. -/
theorem exists_quote_of_literal? {p : Production} (h : p ∈ fullProductions)
    (hliteral : (Head.nonterminal p.lhs).literal?.isSome) : ∃ s ∈ p.steps, s.symbol ∈ quotes := by
  have hall : (fullProductions.all fun p => !(Head.nonterminal p.lhs).literal?.isSome ||
      p.steps.any fun s => decide (s.symbol ∈ quotes)) = true := by decide +kernel
  have hp := List.all_eq_true.mp hall p h
  rw [hliteral] at hp
  simpa using hp

/-- No string is built from its parts. -/
theorem Item.IsOf.literal?_eq_none {i : Item} {lookahead : Nat} (h : i.IsOf lookahead)
    (hrest : i.rest = []) : (Head.nonterminal i.lhs).literal? = none := by
  cases hliteral : (Head.nonterminal i.lhs).literal? with
  | none => rfl
  | some n =>
    obtain ⟨s, hs, hquote⟩ :=
      exists_quote_of_literal? h.mem (Option.isSome_iff_exists.mpr ⟨n, hliteral⟩)
    rw [← h.steps, hrest, List.append_nil, List.mem_reverse] at hs
    exact absurd hquote (h.seen s hs)

theorem eq_endOfInput_of_isIn {t : Terminal} (h : t.isIn Terminal.endOfInput.bit) :
    t = .endOfInput := by
  revert h
  cases t <;> decide

/-- A text is complete only at its end, when the file has been read. -/
theorem ItemSet.IsSound.of_accept {s : ItemSet} (h : s.IsSound) {t : Terminal}
    (ht : .accept ∈ s.actions t) : t = .endOfInput ∧
      ∃ i lookahead, (i, lookahead) ∈ s.kernel ∧ i.production = Item.start.production ∧
        i.rest = [] := by
  rcases ItemSet.of_mem_actions ht with ⟨_, heq⟩ | ⟨i, lookahead, hi, hin, heq⟩
  · cases heq
  · have hgoal : i.lhs = goal := by
      unfold Item.completion at heq
      split at heq
      · next hgoal => simpa using hgoal
      · cases heq
    obtain ⟨hstart, rfl⟩ := (h.isOf_of_mem_complete hi).atEnd hgoal
    obtain ⟨hrest, hkernel | ⟨p, hp, rfl⟩⟩ := ItemSet.of_mem_complete hi
    · exact ⟨eq_endOfInput_of_isIn hin, i, _, hkernel, hstart, hrest⟩
    · exact absurd hgoal (lhs_ne_goal hp)

end GoOutline.Grammar

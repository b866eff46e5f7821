import GoOutline.Proofs.Parse.Bare
import GoOutline.Proofs.Parse.Leaves
import GoOutline.Proofs.Parse.Reader
import GoOutline.Proofs.Syntax.Lowering
import GoOutline.Proofs.Syntax.Reading
import GoOutline.Proofs.Syntax.Takes

/-!
# What is read conforms

The parser works with productions, and what a node may have as children is said by the rules
themselves. Both say the same: the tests that a tree has to pass are passed by every tree that the
direct reader finds.

* `cases_of_mem_allProductions`: where the productions come from.
* `Tree.IsDerived.isTaken`: what shows of a derived tree is taken by whatever has the symbol of the
  tree.
* `Tree.IsDerived.conforms`: the nodes of a derived tree have children that their rules allow.
* `isReading_of_isRoot`, `readingOf_of_read?`: what the direct reader finds is read of the text.
-/

namespace GoOutline.Grammar

open GoOutline.Syntax

/-! ### Where productions come from -/

/-- The step of a production for one place of a plain sequence. -/
def Place.step (p : Place) : Step := ⟨p.atom.symbol, p.field, p.role⟩

theorem RuleName.ctorIdx_lt (n : RuleName) : n.ctorIdx < RuleName.count := by
  cases n <;> decide

theorem RuleName.ctorIdx_injective {m n : RuleName} (h : m.ctorIdx = n.ctorIdx) : m = n := by
  rw [← m.ofNat_ctorIdx, ← n.ofNat_ctorIdx, h]

theorem isHidden_ctorIdx (n : RuleName) : isHidden n.ctorIdx = n.isHidden := by
  have hlt : isRepetition n.ctorIdx = false := decide_eq_false (Nat.not_le.mpr n.ctorIdx_lt)
  rw [isHidden, hlt, n.ofNat_ctorIdx, Bool.false_or]

theorem isHidden_repetition (k : Nat) : isHidden (RuleName.count + k) = true := by
  have hge : isRepetition (RuleName.count + k) = true := decide_eq_true (Nat.le_add_right _ k)
  rw [isHidden, hge, Bool.true_or]

theorem exists_of_mem_alternatives {r : Rule} {lhs : Nat} {p : Production}
    (h : p ∈ r.alternatives.map (Alternative.production lhs)) :
    p.lhs = lhs ∧ ∃ x ∈ r.expand {}, p.steps = x.places.map Place.step := by
  obtain ⟨x, hx, rfl⟩ := List.mem_map.mp h
  exact ⟨rfl, x, List.mem_eraseDups.mp hx, rfl⟩

/-- A production is a plain sequence of a rule or of a repetition, or it is two runs of a repetition. -/
theorem cases_of_mem_allProductions {p : Production} (h : p ∈ allProductions) :
    (∃ n : RuleName, p.lhs = n.ctorIdx ∧ ∃ x ∈ n.body.expand {}, p.steps = x.places.map Place.step) ∨
      ∃ k r, repetitions[k]? = some r ∧ p.lhs = RuleName.count + k ∧
        (p.steps = [⟨.nonterminal p.lhs, none, none⟩, ⟨.nonterminal p.lhs, none, none⟩] ∨
          ∃ x ∈ r.expand {}, p.steps = x.places.map Place.step) := by
  obtain ⟨⟨q, number⟩, hq, rfl⟩ := List.mem_map.mp h
  rcases List.mem_append.mp (List.fst_mem_of_mem_zipIdx hq) with hq | hq
  · obtain ⟨n, -, hq⟩ := List.mem_flatMap.mp hq
    have hx := exists_of_mem_alternatives hq
    exact .inl ⟨n, hx⟩
  · obtain ⟨⟨r, k⟩, hr, hq⟩ := List.mem_flatMap.mp hq
    refine .inr ⟨k, r, List.mem_zipIdx_iff_getElem?.mp hr, ?_⟩
    rcases List.mem_cons.mp hq with rfl | hq
    · exact ⟨rfl, .inl rfl⟩
    · have hx := exists_of_mem_alternatives hq
      exact hx.imp_right .inr

/-- The productions of a rule are its plain sequences. -/
theorem exists_expand_of_lhs {p : Production} (hp : p ∈ allProductions) {n : RuleName}
    (h : p.lhs = n.ctorIdx) : ∃ x ∈ n.body.expand {}, p.steps = x.places.map Place.step := by
  rcases cases_of_mem_allProductions hp with ⟨m, hm, hx⟩ | ⟨k, r, -, hk, -⟩
  · rwa [RuleName.ctorIdx_injective (hm.symm.trans h)] at hx
  · have := n.ctorIdx_lt
    omega

theorem exists_rule_of_shows {p : Production} (hp : p ∈ allProductions)
    (h : isHidden p.lhs = false) : ∃ n : RuleName, p.lhs = n.ctorIdx := by
  rcases cases_of_mem_allProductions hp with ⟨n, hn, -⟩ | ⟨k, r, -, hk, -⟩
  · exact ⟨n, hn⟩
  · rw [hk, isHidden_repetition] at h
    cases h

/-- The productions of a repetition are two runs, or a plain sequence of what is repeated. -/
theorem cases_of_lhs_repetition {p : Production} (hp : p ∈ allProductions) {r : Rule}
    (h : p.lhs = RuleName.count + repetitions.idxOf r) :
    p.steps = [⟨.many r, none, none⟩, ⟨.many r, none, none⟩].map Place.step ∨
      ∃ x ∈ r.expand {}, p.steps = x.places.map Place.step := by
  rcases cases_of_mem_allProductions hp with ⟨n, hn, -⟩ | ⟨k, s, hs, hk, hsteps⟩
  · have := n.ctorIdx_lt
    omega
  · obtain rfl : k = repetitions.idxOf r := by omega
    obtain ⟨hlt, hget⟩ := List.getElem?_eq_some_iff.mp hs
    obtain rfl : r = s := (List.getElem_idxOf hlt).symm.trans hget
    rwa [h] at hsteps

theorem isRegular_of_mem_repeated {hidden : RuleName → Bool} {r s : Rule} (hs : s ∈ r.repeated)
    {hasRole : Bool} (h : isRegular hidden r hasRole) : isRegular hidden s false := by
  induction r generalizing hasRole with
  | empty => cases hs
  | token t => cases hs
  | rule n => cases hs
  | many1 r ih =>
    obtain ⟨-, hr⟩ := Bool.and_eq_true_iff.mp h
    rcases List.mem_append.mp hs with hs | hs
    · exact ih hs hr
    · rwa [List.mem_singleton.mp hs]
  | seq a b iha ihb =>
    obtain ⟨ha, hb⟩ := Bool.and_eq_true_iff.mp h
    exact (List.mem_append.mp hs).elim (iha · ha) (ihb · hb)
  | alt a b iha ihb =>
    obtain ⟨ha, hb⟩ := Bool.and_eq_true_iff.mp h
    exact (List.mem_append.mp hs).elim (iha · ha) (ihb · hb)
  | field f r ih => exact ih hs h
  | role k r ih => exact ih hs h
  | prec p a r ih => exact ih hs h
  | dynamic d r ih => exact ih hs h

theorem isRegular_of_mem_repetitions {r : Rule} (h : r ∈ repetitions) :
    isRegular (isRegularHidden hiddenDepth) r false := by
  obtain ⟨n, -, hr⟩ := List.mem_flatMap.mp (List.mem_eraseDups.mp h)
  exact isRegular_of_mem_repeated hr (isRegular_body n)

theorem symbol_ne_sourceFile {hidden : RuleName → Bool} {a : Atom} {hasRole : Bool}
    (h : isRegular hidden (ruleOf a) hasRole) : a.symbol ≠ RuleName.sourceFile.symbol := by
  intro ha
  cases a with
  | token t => cases ha
  | rule n =>
    obtain rfl : n = .sourceFile := RuleName.ctorIdx_injective (Grammar.Symbol.nonterminal.inj ha)
    cases h
  | many r =>
    have hlt := RuleName.sourceFile.ctorIdx_lt
    have := Grammar.Symbol.nonterminal.inj ha
    omega

/-- No production has a whole file in it. -/
theorem ne_sourceFile_of_mem_steps {p : Production} (hp : p ∈ allProductions) {s : Step}
    (hs : s ∈ p.steps) : s.symbol ≠ RuleName.sourceFile.symbol := by
  have hplaces : ∀ r, isRegular (isRegularHidden hiddenDepth) r false →
      (∃ x ∈ r.expand {}, p.steps = x.places.map Place.step) →
      s.symbol ≠ RuleName.sourceFile.symbol := by
    rintro r hr ⟨x, hx, hsteps⟩
    rw [hsteps] at hs
    obtain ⟨place, hplace, rfl⟩ := List.mem_map.mp hs
    exact symbol_ne_sourceFile (isRegular_of_mem_expand hx hr hplace)
  rcases cases_of_mem_allProductions hp with ⟨n, -, hx⟩ | ⟨k, r, hr, hlhs, hsteps | hx⟩
  · exact hplaces n.body (isRegular_body n) hx
  · have hsymbol : s.symbol = .nonterminal p.lhs := by
      rw [hsteps] at hs
      simp only [List.mem_cons, List.not_mem_nil, or_false, or_self] at hs
      rw [hs]
    rw [hsymbol, hlhs]
    intro h
    have hlt := RuleName.sourceFile.ctorIdx_lt
    have := Grammar.Symbol.nonterminal.inj h
    omega
  · exact hplaces r (isRegular_of_mem_repetitions (List.mem_of_getElem? hr)) hx

end GoOutline.Grammar

namespace GoOutline.Parse

open GoOutline.Grammar GoOutline.Automaton GoOutline.Syntax

namespace Tree

/-! ### What shows of a tree is taken -/

/-- What shows of a tree is taken by whatever has the symbol of the tree. -/
def IsTaken (t : Tree) : Prop :=
  ∀ (depth : Nat) (a : Atom) (outer : Option Grammar.Field) (label : Label),
    t.symbol? = some a.symbol → isRegular (isRegularHidden depth) (ruleOf a) label.role.isSome →
    Takes depth (ruleOf a) (label.field <|> outer) label.role (Node.bareAll (t.view outer label))

theorem viewAll_of_isExtra {c : Tree} (h : c.isExtra) (outer : Option Grammar.Field)
    (labels : List Label) (cs : List Tree) :
    viewAll outer labels (c :: cs) = c.view none Label.none ++ viewAll outer labels cs := by
  cases labels <;> rw [viewAll, if_pos h]

section

variable {cs : List Tree} (hcomments : ∀ c ∈ cs, c.isExtra = true → c.IsComment)
  (htaken : ∀ c ∈ cs, c.isExtra = false → c.IsTaken)

include hcomments htaken

/-- What shows of the children of a node is taken by the places that they stand at. -/
theorem takesAll_viewAll {places : List Place}
    (hsymbols : (cs.filter (!·.isExtra)).map symbol? = places.map fun p => some p.atom.symbol)
    {depth : Nat}
    (hplaces : ∀ p ∈ places, isRegular (isRegularHidden depth) (ruleOf p.atom) p.role.isSome)
    (outer : Option Grammar.Field) :
    TakesAll depth outer places
      (Node.bareAll (viewAll outer (places.map (labelOf ·.step)) cs)) := by
  induction cs generalizing places with
  | nil =>
    cases places with
    | nil =>
      rw [viewAll]
      exact .nil
    | cons p places => cases hsymbols
  | cons c cs ih =>
    obtain ⟨hcomment, hcomments⟩ := List.forall_mem_cons.mp hcomments
    obtain ⟨hc, htaken⟩ := List.forall_mem_cons.mp htaken
    cases hextra : c.isExtra with
    | true =>
      rw [List.filter_cons_of_neg (by simp [hextra])] at hsymbols
      rw [viewAll_of_isExtra hextra, Node.bareAll_append,
        bareAll_view_of_isComment (hcomment hextra).isComment, List.nil_append]
      exact ih hcomments htaken hsymbols hplaces
    | false =>
      rw [List.filter_cons_of_pos (by simp [hextra])] at hsymbols
      cases places with
      | nil => cases hsymbols
      | cons p places =>
        obtain ⟨hp, hplaces⟩ := List.forall_mem_cons.mp hplaces
        obtain ⟨hsymbol, hsymbols⟩ := List.cons.inj hsymbols
        rw [List.map_cons, viewAll, if_neg (by simp [hextra]), Node.bareAll_append]
        exact .cons (hc hextra depth p.atom outer (labelOf p.step) hsymbol hp)
          (ih hcomments htaken hsymbols hplaces)

/-- What shows of the children of a node is taken by the right-hand side that has their sequence. -/
theorem takes_viewAll {r : Rule} {x : Alternative} (hx : x ∈ r.expand {}) {steps : List Step}
    (hsteps : steps = x.places.map Place.step)
    (hsymbols : (cs.filter (!·.isExtra)).map symbol? = steps.map (some ·.symbol)) {depth : Nat}
    (hr : isRegular (isRegularHidden depth) r false) (outer : Option Grammar.Field) :
    Takes depth r outer none (Node.bareAll (viewAll outer (steps.map labelOf) cs)) := by
  rw [hsteps, List.map_map] at hsymbols ⊢
  have hplaces := takesAll_viewAll hcomments htaken hsymbols
    (fun p hp => isRegular_of_mem_expand hx hr hp) outer
  exact takes_of_mem_expand hx hplaces

end

theorem symbol?_of_head {b : Branch} {cs : List Tree} {n : Nat} (h : b.head = .nonterminal n) :
    (node b cs).symbol? = some (.nonterminal n) := by
  rw [symbol?, h]

theorem kind_nodeOf (n : RuleName) (t : Tree) : (nodeOf n t).bare.kind = .rule n := by
  rw [Node.kind_bare]
  unfold nodeOf
  split
  · rfl
  · split <;> rfl

theorem exists_of_literal? {head : Head} (h : head.literal?.isSome) :
    ∃ n, head = .nonterminal n ∧ isHidden n = false ∧ isLiteral (RuleName.ofNat n) := by
  unfold Head.literal? at h
  split at h
  · next n =>
    split at h
    · next hliteral => exact ⟨n, rfl, by simpa using hliteral⟩
    · cases h
  · cases h

theorem view_hidden {b : Branch} {cs : List Tree} {n : Nat} (hhead : b.head = .nonterminal n)
    (hhidden : isHidden n) (hextra : b.isExtra = false) (outer : Option Grammar.Field)
    (label : Label) :
    view outer label (node b cs) = viewAll (label.field <|> outer) b.labels cs := by
  rw [view, hhead]
  dsimp only
  rw [hextra, hhidden]
  rfl

theorem view_shown {b : Branch} {cs : List Tree} {n : RuleName}
    (hhead : b.head = .nonterminal n.ctorIdx) (hhidden : n.isHidden = false)
    (hextra : b.isExtra = false) (outer : Option Grammar.Field) (label : Label) :
    view outer label (node b cs) = [(label.field <|> outer, nodeOf n (node b cs))] := by
  rw [view_node hhead (by rwa [isHidden_ctorIdx]), hextra, if_neg Bool.false_ne_true,
    n.ofNat_ctorIdx]

/-- A node of a rule that is not hidden is taken, whatever its children are. -/
theorem isTaken_of_shows {b : Branch} {cs : List Tree} {n : Nat} (hhead : b.head = .nonterminal n)
    (hhidden : isHidden n = false) (hextra : b.isExtra = false) : (node b cs).IsTaken := by
  intro depth a outer label hsymbol _
  rw [symbol?_of_head hhead] at hsymbol
  have hsymbol := Option.some.inj hsymbol
  cases a with
  | token t => cases hsymbol
  | rule m =>
    obtain rfl := Grammar.Symbol.nonterminal.inj hsymbol
    rw [isHidden_ctorIdx] at hhidden
    rw [view_shown hhead hhidden hextra, Node.bareAll_cons, not_isComment_nodeOf, Bool.and_false,
      if_neg Bool.false_ne_true]
    exact .rule hhidden rfl (kind_nodeOf m (node b cs))
  | many r =>
    obtain rfl := Grammar.Symbol.nonterminal.inj hsymbol
    rw [isHidden_repetition] at hhidden
    cases hhidden

theorem isTaken_leaf {l : Leaf} (htoken : l.token ≠ some .comment) : (leaf l).IsTaken := by
  intro depth a outer label hsymbol hregular
  obtain ⟨t, ht, hsymbol⟩ := Option.map_eq_some_iff.mp hsymbol
  cases a with
  | rule m => cases hsymbol
  | many r => cases hsymbol
  | token u =>
    cases hsymbol
    have hend : t ≠ .endOfInput := by simpa [ruleOf, isRegular] using hregular
    have hcomment : t ≠ .comment := by rintro rfl; exact htoken ht
    rw [view, ht]
    dsimp only
    by_cases hbreak : t = .lineBreak
    · subst hbreak
      exact .lineBreak
    · have hshows : showsToken t = true := by
        unfold showsToken
        split
        · exact absurd rfl hbreak
        · exact absurd rfl hend
        · rfl
      rw [if_pos hshows, Node.bareAll_cons, if_neg (by simp [Node.isComment, Node.kind, hcomment])]
      exact .token hbreak rfl rfl

/-- What shows of a derived tree is taken by whatever has the symbol of the tree. The induction is on
the tree; hidden nodes are taken by the right-hand sides that their productions come from. -/
theorem IsDerived.isTaken {t : Tree} (h : t.IsDerived) : t.IsTaken := by
  induction h with
  | leaf htoken => exact isTaken_leaf htoken
  | string hhead hextra =>
    obtain ⟨n, hn, hhidden, -⟩ := exists_of_literal? hhead
    exact isTaken_of_shows hn hhidden hextra
  | @node b cs p hp hhead _ hextra hlabels hsymbols hcomments _ ih =>
    cases hhidden : isHidden p.lhs with
    | false => exact isTaken_of_shows hhead hhidden hextra
    | true =>
      intro depth a outer label hsymbol hregular
      rw [symbol?_of_head hhead] at hsymbol
      have hsymbol := Option.some.inj hsymbol
      rw [view_hidden hhead hhidden hextra, hlabels]
      cases a with
      | token t => cases hsymbol
      | rule n =>
        have hlhs : p.lhs = n.ctorIdx := Grammar.Symbol.nonterminal.inj hsymbol
        rw [hlhs, isHidden_ctorIdx] at hhidden
        rw [ruleOf, isRegular, if_pos hhidden] at hregular
        obtain ⟨x, hx, hsteps⟩ := exists_expand_of_lhs hp hlhs
        cases depth with
        | zero => cases hregular
        | succ depth =>
          exact .hidden hhidden (takes_viewAll hcomments ih hx hsteps hsymbols hregular _)
      | many r =>
        have hlhs : p.lhs = RuleName.count + repetitions.idxOf r := Grammar.Symbol.nonterminal.inj hsymbol
        obtain ⟨hrole, hr⟩ := Bool.and_eq_true_iff.mp hregular
        have hrole : label.role = none := by simpa using hrole
        rw [hrole]
        rcases cases_of_lhs_repetition hp hlhs with hsteps | ⟨x, hx, hsteps⟩
        · have hplaces : ∀ q ∈ [(⟨.many r, none, none⟩ : Place), ⟨.many r, none, none⟩],
              isRegular (isRegularHidden depth) (ruleOf q.atom) q.role.isSome := by
            simpa [ruleOf, isRegular] using hr
          rw [hsteps, List.map_map] at hsymbols ⊢
          exact (takesAll_viewAll hcomments ih hsymbols hplaces _).of_runs
        · exact (takes_viewAll hcomments ih hx hsteps hsymbols hr _).once

/-! ### The nodes of a tree conform -/

theorem conforms_leaf {l : Leaf} {outer : Option Grammar.Field} {label : Label} {c : Child}
    (h : c ∈ (leaf l).view outer label) : c.2.bare.conforms := by
  rw [view] at h
  split at h
  · split at h
    · rw [List.mem_singleton.mp h]
      rfl
    · cases h
  · cases h

theorem conforms_branch {n : RuleName} {cs : List Child} (hinner : isInner n)
    (hallows : allows n (Node.bareAll cs)) (hall : ∀ c ∈ cs, c.2.bare.conforms) :
    (Node.branch n cs).bare.conforms := by
  have hchildren : Node.conformAll (Node.bareAll cs) := by
    refine Node.conformAll_iff.mpr fun d hd => ?_
    obtain ⟨c, hc, rfl⟩ := Node.exists_of_mem_bareAll hd
    exact hall c hc
  rw [Node.bare, Node.conforms, hinner, hallows, hchildren]
  rfl

/-- A child of a node that belongs to a production stands for one of its steps, so it is no file. -/
theorem symbol?_ne_sourceFile {p : Production} (hp : p ∈ allProductions) {cs : List Tree}
    (hsymbols : (cs.filter (!·.isExtra)).map symbol? = p.steps.map (some ·.symbol)) {c : Tree}
    (hc : c ∈ cs) (hextra : c.isExtra = false) : c.symbol? ≠ some RuleName.sourceFile.symbol := by
  have hmem : c.symbol? ∈ p.steps.map (some ·.symbol) := by
    rw [← hsymbols]
    exact List.mem_map_of_mem (List.mem_filter.mpr ⟨hc, by simp [hextra]⟩)
  obtain ⟨s, hs, hsymbol⟩ := List.mem_map.mp hmem
  rw [← hsymbol]
  exact fun h => ne_sourceFile_of_mem_steps hp hs (Option.some.inj h)

/-- The nodes that show of a derived tree have children that their rules allow, if the tree is no whole
file. -/
theorem IsDerived.conforms {t : Tree} (h : t.IsDerived)
    (hfile : t.symbol? ≠ some RuleName.sourceFile.symbol) {outer : Option Grammar.Field}
    {label : Label} {c : Child} (hc : c ∈ t.view outer label) : c.2.bare.conforms := by
  induction h generalizing outer label c with
  | leaf => exact conforms_leaf hc
  | string hhead hextra =>
    obtain ⟨n, hn, hhidden, hliteral⟩ := exists_of_literal? hhead
    rw [view_node hn hhidden, hextra, if_neg Bool.false_ne_true, nodeOf, if_pos hliteral] at hc
    rw [List.mem_singleton.mp hc]
    exact hliteral
  | @node b cs p hp hhead hliteral hextra hlabels hsymbols hcomments hchildren ih =>
    have hall : ∀ outer labels, ∀ d ∈ viewAll outer labels cs, d.2.bare.conforms := by
      intro outer labels d hd
      obtain ⟨u, hu, field, label, hview⟩ := exists_view_of_mem_viewAll hd
      cases hextra : u.isExtra with
      | true =>
        cases u with
        | leaf l => exact conforms_leaf hview
        | node b cs => exact (hcomments _ hu hextra).elim
      | false => exact ih u hu hextra (symbol?_ne_sourceFile hp hsymbols hu hextra) hview
    cases hhidden : isHidden p.lhs with
    | true =>
      rw [view_hidden hhead hhidden hextra] at hc
      exact hall _ _ c hc
    | false =>
      obtain ⟨n, hn⟩ := exists_rule_of_shows hp hhidden
      rw [hn] at hhead hhidden
      rw [isHidden_ctorIdx] at hhidden
      have hplain : isLiteral n = false := by
        rw [hhead, Head.literal?, isHidden_ctorIdx, hhidden, n.ofNat_ctorIdx] at hliteral
        simpa using hliteral
      have hinner : isInner n = true := by
        have hne : n ≠ .sourceFile := by
          rintro rfl
          exact hfile (symbol?_of_head hhead)
        rw [isInner, hhidden, hplain]
        simpa using hne
      obtain ⟨x, hx, hsteps⟩ := exists_expand_of_lhs hp hn
      have htakes := takes_viewAll hcomments (fun u hu hextra => (hchildren u hu hextra).isTaken) hx
        hsteps hsymbols (isRegular_body n) none
      rw [view_shown hhead hhidden hextra, nodeOf, hplain, if_neg Bool.false_ne_true, hlabels] at hc
      rw [List.mem_singleton.mp hc]
      exact conforms_branch hinner htakes.allows (hall none _)

/-! ### The top level -/

theorem IsComment.isExtra_of_mem_shown {t : Tree} (h : t.IsComment) {place : Nat} {x : Nat × Tree}
    (hx : x ∈ t.shown place) : x.2.isExtra = true := by
  cases t with
  | leaf l =>
    rw [shown] at hx
    split at hx
    · rw [List.mem_singleton.mp hx]
      exact h.isExtra
    · cases hx
  | node b cs => exact h.elim

/-- What shows of a derived tree, comments apart, is derived and is no whole file. -/
theorem IsDerived.of_mem_shown {t : Tree} (h : t.IsDerived)
    (hfile : t.symbol? ≠ some RuleName.sourceFile.symbol) {place : Nat} {x : Nat × Tree}
    (hx : x ∈ t.shown place) (hextra : x.2.isExtra = false) :
    x.2.IsDerived ∧ x.2.symbol? ≠ some RuleName.sourceFile.symbol := by
  have hself := And.intro h hfile
  induction h generalizing place with
  | leaf =>
    rw [shown] at hx
    split at hx
    · rwa [List.mem_singleton.mp hx]
    · cases hx
  | string hhead =>
    obtain ⟨n, hn, hhidden, -⟩ := exists_of_literal? hhead
    rw [shown, if_pos (by simp [shows, hn, hhidden])] at hx
    rwa [List.mem_singleton.mp hx]
  | node hp _ _ _ _ hsymbols hcomments hchildren ih =>
    rw [shown] at hx
    split at hx
    · rwa [List.mem_singleton.mp hx]
    · obtain ⟨u, hu, place, hx⟩ := exists_shown_of_mem_shownAll hx
      cases huextra : u.isExtra with
      | true =>
        rw [(hcomments u hu huextra).isExtra_of_mem_shown hx] at hextra
        cases hextra
      | false =>
        have hne := symbol?_ne_sourceFile hp hsymbols hu huextra
        exact ih u hu huextra hne hx ⟨hchildren u hu huextra, hne⟩

/-- What stands at the top level of the tree of a whole text is derived and is no whole file. -/
theorem IsRoot.of_mem_items {text : List Char} {t : Tree} (h : t.IsRoot text) {x : Nat × Tree}
    (hx : x ∈ t.items) : x.2.IsDerived ∧ x.2.symbol? ≠ some RuleName.sourceFile.symbol := by
  obtain ⟨b, children, file, before, after, last, rfl, hhead, -, hfile, hderived, hbefore, hafter,
    hlast⟩ := h.shape
  obtain ⟨hx, hitem⟩ := List.mem_filter.mp hx
  have hextra : x.2.isExtra = false := by simpa using (Bool.and_eq_true_iff.mp hitem).1
  obtain ⟨u, hu, place, hx⟩ := exists_shown_of_mem_shownAll hx
  have hno : ∀ {v : Tree}, v.IsComment → x ∉ v.shown place := by
    intro v hv hmem
    rw [hv.isExtra_of_mem_shown hmem] at hextra
    cases hextra
  simp only [Tree.children, List.mem_append, List.mem_singleton] at hu
  rcases hu with ((hu | hu) | hu) | rfl
  · exact absurd hx (hno (hbefore u hu))
  · cases hderived with
    | string hliteral =>
      rw [hfile, hhead] at hliteral
      cases hliteral
    | node hp _ _ _ _ hsymbols hcomments hchildren =>
      cases huextra : u.isExtra with
      | true => exact absurd hx (hno (hcomments u hu huextra))
      | false =>
        exact (hchildren u hu huextra).of_mem_shown (symbol?_ne_sourceFile hp hsymbols hu huextra) hx
          hextra
  · exact absurd hx (hno (hafter u hu))
  · rw [shown, hlast] at hx
    cases hx

end Tree

end GoOutline.Parse

namespace GoOutline.Syntax

open GoOutline.Parse

/-- A tree of a whole text is read of that text: it passes all tests. -/
theorem isReading_of_isRoot {text : List Char} {tree : Tree} (h : tree.IsRoot text) :
    IsReading text tree := by
  obtain ⟨b, cs, rfl, hb⟩ := h.exists_node
  refine ⟨h.chars_eq, h.spans.isSound _ List.mem_cons_self, (h.spans.of_node hb).areWhole, ?_⟩
  intro i hi
  obtain ⟨x, hx, hi⟩ := List.mem_flatMap.mp hi
  obtain ⟨c, hc, rfl⟩ := List.mem_map.mp hi
  obtain ⟨hderived, hfile⟩ := h.of_mem_items hx
  exact hderived.conforms hfile hc

/-- What the direct reader finds is what is read of the text. -/
theorem readingOf_of_read? {text : List Char} {tree : Tree} (h : read? text = some tree) :
    readingOf text = some tree :=
  readingOf_of_isReading h (isReading_of_isRoot (isRoot_of_read? h))

end GoOutline.Syntax

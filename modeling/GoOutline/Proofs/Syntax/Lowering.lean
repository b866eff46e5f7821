import GoOutline.Proofs.Syntax.StmtRule

/-!
# Lowering a whole node

A node whose children are as the grammar has them always contributes something.

* `yields_of_fits`: the same for all rules, but for the dot of an import and for ranges.
* `Node.Lowers`: what a node contributes is of the sort that nodes of its kind contribute, and has the
  words of the node. Of the expressions on the left of a `range` only the first two count.
* `Node.exists_lowers`: every node that conforms contributes something. The induction is on the node;
  the step for a node is the theorem about its rule.
-/

namespace GoOutline.Syntax

open GoOutline.Grammar

/-- The parts of a node can be put together, whatever its rule is. -/
theorem yields_of_fits {n : RuleName} {ps : Parts} (hn : isInner n) (hdot : n ≠ .dot)
    (hrange : n ≠ .rangeClause) (h : Fits n ps) : Yields n ps := by
  cases n with
  | sourceFile | declaration | simpleType | statement | simpleStatement | typeSwitchHeader
  | expression | rawStringLiteral | interpretedStringLiteral => cases hn
  | packageClause => exact yields_packageClause h
  | importDeclaration => exact yields_importDeclaration h
  | importSpec => exact yields_importSpec h
  | dot => exact absurd rfl hdot
  | importSpecList => exact yields_importSpecList h
  | constDeclaration => exact yields_constDeclaration h
  | constSpec => exact yields_constSpec h
  | varDeclaration => exact yields_varDeclaration h
  | varSpec => exact yields_varSpec h
  | varSpecList => exact yields_varSpecList h
  | functionDeclaration => exact yields_functionDeclaration h
  | methodDeclaration => exact yields_methodDeclaration h
  | typeParameterList => exact yields_typeParameterList h
  | typeParameterDeclaration => exact yields_typeParameterDeclaration h
  | parameterList => exact yields_parameterList h
  | parameterDeclaration => exact yields_parameterDeclaration h
  | variadicParameterDeclaration => exact yields_variadicParameterDeclaration h
  | typeAlias => exact yields_typeAlias h
  | typeDeclaration => exact yields_typeDeclaration h
  | typeSpec => exact yields_typeSpec h
  | expressionList => exact yields_expressionList h
  | parenthesizedType => exact yields_parenthesizedType h
  | genericType => exact yields_genericType h
  | typeArguments => exact yields_typeArguments h
  | pointerType => exact yields_pointerType h
  | arrayType => exact yields_arrayType h
  | implicitLengthArrayType => exact yields_implicitLengthArrayType h
  | sliceType => exact yields_sliceType h
  | structType => exact yields_structType h
  | negatedType => exact yields_negatedType h
  | fieldDeclarationList => exact yields_fieldDeclarationList h
  | fieldDeclaration => exact yields_fieldDeclaration h
  | interfaceType => exact yields_interfaceType h
  | methodElem => exact yields_methodElem h
  | typeElem => exact yields_typeElem h
  | mapType => exact yields_mapType h
  | channelType => exact yields_channelType h
  | functionType => exact yields_functionType h
  | block => exact yields_block h
  | statementList => exact yields_statementList h
  | emptyStatement => exact yields_emptyStatement h
  | expressionStatement => exact yields_expressionStatement h
  | sendStatement => exact yields_sendStatement h
  | receiveStatement => exact yields_receiveStatement h
  | incStatement => exact yields_incDec (.inl rfl) h
  | decStatement => exact yields_incDec (.inr rfl) h
  | assignmentStatement => exact yields_assignmentStatement h
  | shortVarDeclaration => exact yields_shortVarDeclaration h
  | labeledStatement => exact yields_labeledStatement h
  | emptyLabeledStatement => exact yields_emptyLabeledStatement h
  | fallthroughStatement => exact yields_fallthroughStatement h
  | breakStatement => exact yields_jump (.inl rfl) h
  | continueStatement => exact yields_jump (.inr rfl) h
  | gotoStatement => exact yields_gotoStatement h
  | returnStatement => exact yields_returnStatement h
  | goStatement => exact yields_call (.inl rfl) h
  | deferStatement => exact yields_call (.inr rfl) h
  | ifStatement => exact yields_ifStatement h
  | forStatement => exact yields_forStatement h
  | forClause => exact yields_forClause h
  | rangeClause => exact absurd rfl hrange
  | expressionSwitchStatement => exact yields_expressionSwitchStatement h
  | expressionCase => exact yields_expressionCase h
  | defaultCase => exact yields_defaultCase h
  | typeSwitchStatement => exact yields_typeSwitchStatement h
  | typeCase => exact yields_typeCase h
  | selectStatement => exact yields_selectStatement h
  | communicationCase => exact yields_communicationCase h
  | parenthesizedExpression => exact yields_parenthesizedExpression h
  | callExpression => exact yields_callExpression h
  | variadicArgument => exact yields_variadicArgument h
  | specialArgumentList => exact yields_specialArgumentList h
  | argumentList => exact yields_argumentList h
  | selectorExpression => exact yields_selectorExpression h
  | indexExpression => exact yields_indexExpression h
  | sliceExpression => exact yields_sliceExpression h
  | typeAssertionExpression => exact yields_typeAssertionExpression h
  | typeConversionExpression => exact yields_typeConversionExpression h
  | typeInstantiationExpression => exact yields_typeInstantiationExpression h
  | compositeLiteral => exact yields_compositeLiteral h
  | literalValue => exact yields_literalValue h
  | literalElement => exact yields_literalElement h
  | keyedElement => exact yields_keyedElement h
  | funcLiteral => exact yields_funcLiteral h
  | unaryExpression => exact yields_unaryExpression h
  | binaryExpression => exact yields_binaryExpression h
  | qualifiedType => exact yields_qualifiedType h

/-! ### Leaves -/

theorem ofLeaf_token_is (t : Terminal) (role : Option Role) (text : String) :
    (ofLeaf (.token t role) text).Is (Category.ofToken t) := by
  cases t <;> simp [ofLeaf]

theorem ofLeaf_literal_is {n : RuleName} (hn : isLiteral n) (text : String) :
    (ofLeaf (.rule n) text).Is n.category := by
  fun_cases isLiteral n with
  | case1 => exact ⟨text, rfl⟩
  | case2 => exact ⟨text, rfl⟩
  | case3 h h' => simp [isLiteral] at hn

theorem words_ofLeaf_token (t : Terminal) (role : Option Role) (text : String) :
    (ofLeaf (.token t role) text).words = if carriesText t then [text] else [] := by
  cases t <;> rfl

theorem ofLeaf_ne_exprs (kind : Kind) (text : String) (xs : List Expr) :
    ofLeaf kind text ≠ .exprs xs := by
  cases kind with
  | token t role => cases t <;> rintro ⟨⟩
  | rule n => rintro ⟨⟩

/-! ### Contributions -/

/-- Only the rule of lists of expressions contributes one. -/
theorem eq_expressionList_of_is {n : RuleName} {xs : List Expr}
    (h : (Fragment.exprs xs).Is n.category) : n = .expressionList := by
  cases n <;> first | rfl | simp at h

/-- Only lists of expressions are cut. -/
theorem firstTwoOf_eq_self {p : Fragment} (h : ∀ xs, p ≠ .exprs xs) (f : Option Grammar.Field) :
    firstTwoOf (f, p) = (f, p) := by
  unfold firstTwoOf
  split
  · next xs heq =>
    cases heq
    exact absurd rfl (h xs)
  · rfl

namespace Node

theorem firstTwo_eq_self {node : Node} (h : ∀ cs, node ≠ branch .expressionList cs)
    (f : Option Grammar.Field) : firstTwo (f, node) = (f, node) := by
  unfold firstTwo
  split
  · next cs heq =>
    cases heq
    exact absurd rfl (h cs)
  · rfl

/-- What a node contributes, of the right sort and with the words of the node. If only the first two
items on the left of a `range` count, then for both in the same way. -/
structure Lowers (node : Node) (p : Fragment) : Prop where
  lower?_eq : node.lower? = some p
  is : p.Is node.kind.category
  words_eq : p.words = node.pruned.words ["."]
  firstTwo_eq : ∀ f, (firstTwoOf (f, p)).2.words = (firstTwo (f, node.pruned)).2.words ["."]

theorem lowers_leaf {kind : Kind} {text : String} (h : (leaf kind text).conforms) :
    (leaf kind text).Lowers (ofLeaf kind text) := by
  have hwords : (ofLeaf kind text).words = (leaf kind text).words ["."] := by
    cases kind with
    | token t role => exact words_ofLeaf_token t role text
    | rule n =>
      have hn : isLiteral n := h
      simp [Kind.isWord, hn, ofLeaf, Fragment.words]
  refine ⟨rfl, ?_, hwords, fun f => ?_⟩
  · cases kind with
    | token t role => exact ofLeaf_token_is t role text
    | rule n => exact ofLeaf_literal_is h text
  · rw [firstTwoOf_eq_self (ofLeaf_ne_exprs kind text), pruned_leaf, firstTwo_eq_self (by simp)]
    exact hwords

/-- The parts are what the children contribute. -/
def LowerAll (cs : List Child) (ps : Parts) : Prop :=
  List.Forall₂ (fun c p => p.1 = c.1 ∧ c.2.Lowers p.2) cs ps

theorem exists_lowerAll {cs : List Child} (h : ∀ c ∈ cs, ∃ p, c.2.Lowers p) :
    ∃ ps, LowerAll cs ps := by
  induction cs with
  | nil => exact ⟨[], .nil⟩
  | cons c cs ih =>
    obtain ⟨p, hp⟩ := h c List.mem_cons_self
    obtain ⟨ps, hps⟩ := ih fun d hd => h d (List.mem_cons_of_mem c hd)
    exact ⟨(c.1, p) :: ps, .cons ⟨rfl, hp⟩ hps⟩

namespace LowerAll

variable {cs : List Child} {ps : Parts}

theorem contribute (h : LowerAll cs ps) : Contribute cs ps :=
  h.imp fun _ _ hp => ⟨hp.1, hp.2.is⟩

theorem take (h : LowerAll cs ps) (k : Nat) : LowerAll (cs.take k) (ps.take k) :=
  List.forall₂_take k h

theorem words_eq (h : LowerAll cs ps) : ps.words = cs.flatMap (·.2.pruned.words ["."]) := by
  induction h with
  | nil => rfl
  | cons hp _ ih => rw [Parts.words_cons, List.flatMap_cons, hp.2.words_eq, ih]

theorem words_firstTwo_eq (h : LowerAll cs ps) :
    Parts.words (ps.map firstTwoOf) =
      cs.flatMap fun c => (firstTwo (c.1, c.2.pruned)).2.words ["."] := by
  induction h with
  | nil => rfl
  | @cons c p _ _ hp _ ih =>
    obtain ⟨hfield, hlower⟩ := hp
    rw [List.map_cons, Parts.words_cons, List.flatMap_cons, ih, ← hlower.firstTwo_eq, ← hfield]

/-- The node above the children contributes what its rule makes of the parts. -/
theorem lower?_branch (h : LowerAll cs ps) (n : RuleName) :
    (branch n cs).lower? = ofRule? n ps := by
  have hparts : (cs.map fun c => (c.1, c.2.lower?)).mapM
      (fun c => c.2.map (c.1, ·)) = some ps := by
    induction h with
    | nil => rfl
    | @cons c p _ _ hp _ ih =>
      obtain ⟨hfield, hlower⟩ := hp
      simp [hlower.lower?_eq, ih, ← hfield]
  rw [lower?, fold, foldChildren_eq_map]
  exact congrArg (Option.bind · (ofRule? n)) hparts

end LowerAll

theorem words_pruned_branch {n : RuleName} (hrange : n ≠ .rangeClause) (cs : List Child) :
    (branch n cs).pruned.words ["."] =
      (if n = .dot then ["."] else []) ++ cs.flatMap (·.2.pruned.words ["."]) := by
  rw [pruned_branch, if_neg hrange, words_branch, List.flatMap_map]

theorem words_pruned_rangeClause (cs : List Child) :
    (branch .rangeClause cs).pruned.words ["."] =
      cs.flatMap fun c => (firstTwo (c.1, c.2.pruned)).2.words ["."] := by
  rw [pruned_branch, if_pos rfl, words_branch, if_neg (by decide), List.flatMap_map,
    List.nil_append]

/-- The words on the left of a `range` are those of the first two expressions in the list. -/
theorem firstTwo_eq_of_expressionList {cs : List Child} {x : Expr} {xs : List Expr}
    (h : LowerAll cs (operandParts x xs)) (f : Option Grammar.Field)
    (hwords : (Fragment.exprs (x :: xs)).words = (branch .expressionList cs).pruned.words ["."]) :
    (firstTwoOf (f, .exprs (x :: xs))).2.words =
      (firstTwo (f, (branch .expressionList cs).pruned)).2.words ["."] := by
  rw [pruned_branch, if_neg (by decide)] at hwords ⊢
  by_cases hf : f = some .left
  · subst hf
    calc ((x :: xs).take 2).flatMap Expr.words
      _ = Parts.words ((operandParts x xs).take 3) := (words_take_operandParts x xs).symm
      _ = (cs.take 3).flatMap (·.2.pruned.words ["."]) := (h.take 3).words_eq
      _ = _ := by
        rw [firstTwo, words_branch, if_neg (by decide), ← List.map_take, List.flatMap_map,
          List.nil_append]
  · simpa [firstTwoOf, firstTwo, hf] using hwords

/-- The step: a node contributes something if its children do and its rule allows them. -/
theorem exists_lowers_branch {n : RuleName} {cs : List Child} {ps : Parts} (hn : isInner n)
    (hfits : Fits n ps) (hps : LowerAll cs ps) : ∃ p, (branch n cs).Lowers p := by
  obtain ⟨p, hp, his, hwords⟩ : ∃ p, ofRule? n ps = some p ∧ p.Is n.category ∧
      p.words = (branch n cs).pruned.words ["."] := by
    by_cases hrange : n = .rangeClause
    · subst hrange
      rw [words_pruned_rangeClause, ← hps.words_firstTwo_eq]
      exact exists_rangeClause hfits
    rw [words_pruned_branch hrange, ← hps.words_eq]
    by_cases hdot : n = .dot
    · subst hdot
      obtain rfl : ps = [(none, .mark .dot)] := by simpa [RuleName.body] using hfits
      exact ⟨.expr (.ident "."), rfl, ⟨".", rfl⟩, rfl⟩
    · rw [if_neg hdot, List.nil_append]
      exact yields_of_fits hn hdot hrange hfits
  refine ⟨p, by rw [hps.lower?_branch, hp], his, hwords, fun f => ?_⟩
  by_cases hlist : n = .expressionList
  · subst hlist
    obtain ⟨x, xs, rfl, -, -⟩ := exists_operandParts hfits
    obtain rfl : Fragment.exprs (x :: xs) = p := by simpa [ofRule?_operandParts] using hp
    exact firstTwo_eq_of_expressionList hps f hwords
  · rw [firstTwoOf_eq_self fun xs hxs => hlist (eq_expressionList_of_is (hxs ▸ his)),
      pruned_branch, firstTwo_eq_self (by simp [hlist]), ← pruned_branch]
    exact hwords

theorem conformAll_iff {cs : List Child} : conformAll cs ↔ ∀ c ∈ cs, c.2.conforms := by
  induction cs with
  | nil => simp [conformAll]
  | cons c cs ih => simp [conformAll, ih]

/-- Every node that conforms contributes something. -/
theorem exists_lowers (node : Node) (h : node.conforms) : ∃ p, node.Lowers p := by
  induction node using Node.induction with
  | leaf kind text => exact ⟨ofLeaf kind text, lowers_leaf h⟩
  | branch n cs ih =>
    simp only [conforms, Bool.and_eq_true, conformAll_iff] at h
    obtain ⟨⟨hn, hallows⟩, hall⟩ := h
    obtain ⟨ps, hps⟩ := exists_lowerAll fun c hc => ih c hc (hall c hc)
    exact exists_lowers_branch hn (fits_of_allows hallows hps.contribute) hps

end Node

end GoOutline.Syntax

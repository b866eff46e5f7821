import GoOutline.Proofs.Syntax.DeclRule

/-!
# What statements contribute

The same for the rules of statements and their clauses. Of the expressions on the left of a `range`
only the first two are kept; no other rule drops a word.
-/

namespace GoOutline.Syntax

open GoOutline.Grammar

attribute [simp] Stmt.words Stmt.fits labelName

attribute [local simp] RuleName.body ofRule? ofExprRule? ofDeclRule? ofStmtRule?

variable {ps : Parts}

/-! ### Simple statements -/

theorem yields_emptyStatement (h : Fits .emptyStatement ps) : Yields .emptyStatement ps := by
  obtain rfl : ps = [(none, .mark .semicolon)] := by simpa using h
  exact ⟨.stmt .empty, rfl, ⟨_, rfl, rfl⟩, rfl⟩

theorem yields_expressionStatement (h : Fits .expressionStatement ps) :
    Yields .expressionStatement ps := by
  obtain ⟨x, rfl, hx⟩ : ∃ x : Expr, ps = [(none, .expr x)] ∧ x.fits .plain := by
    simpa using h
  exact ⟨.stmt (.expr x), rfl, by simpa using hx, by simp⟩

theorem yields_sendStatement (h : Fits .sendStatement ps) : Yields .sendStatement ps := by
  obtain ⟨v, c, rfl, hc, hv⟩ : ∃ v c : Expr,
      ps = [(some .channel, .expr c), (none, .mark .arrow), (some .value, .expr v)] ∧
        c.fits .plain ∧ v.fits .plain := by
    simpa using h
  exact ⟨.stmt (.send c v), rfl, by simpa using ⟨hc, hv⟩, by simp⟩

/-- An expression that is counted up or down: it stands before the token. -/
theorem yields_incDec {n : RuleName} {t : Terminal} {op : Operator}
    (hn : (n, t, op) = (.incStatement, .inc, .inc) ∨ (n, t, op) = (.decStatement, .dec, .dec))
    (h : Fits n ps) : Yields n ps := by
  obtain ⟨x, rfl, hx⟩ : ∃ x : Expr, ps = [(none, .expr x), (none, .mark t)] ∧
      x.fits .plain := by
    rcases hn with hn | hn <;> cases hn <;> simpa using h
  refine ⟨.stmt (.incDec x op), ?_⟩
  rcases hn with hn | hn <;> cases hn <;> exact ⟨rfl, by simpa using hx, by simp⟩

theorem yields_assignmentStatement (h : Fits .assignmentStatement ps) :
    Yields .assignmentStatement ps := by
  obtain ⟨qs, ys, xs, rfl, ⟨-, hxs⟩, hqs, -, hys⟩ : ∃ (qs : Parts) (ys xs : List Expr),
      ps = (some .left, .exprs xs) :: (qs ++ ([(some .right, .exprs ys)] : Parts)) ∧
        (xs ≠ [] ∧ ∀ x ∈ xs, x.fits .plain) ∧
        Covers (CoversHidden 3) (.oneOf (assignmentOperators.map .token)) (some .operator) qs ∧
        ys ≠ [] ∧ ∀ y ∈ ys, y.fits .plain := by
    simpa using h
  obtain ⟨t, ht, rfl⟩ := exists_mark_of_covers (by decide) (by decide) hqs
  obtain ⟨op, hop, hassign⟩ : ∃ op, (Fragment.mark t).operator? = some op ∧ op.isAssignment := by
    have : ∀ t ∈ assignmentOperators, ((Fragment.mark t).operator?).any Operator.isAssignment := by
      decide
    simpa [Option.any_eq_true] using this t ht
  refine ⟨.stmt (.assign xs op ys), ?_, by simpa using ⟨hxs, hassign, hys⟩, by simp⟩
  simp [Parts.get?, Fragment.exprs?, hop]

theorem yields_shortVarDeclaration (h : Fits .shortVarDeclaration ps) :
    Yields .shortVarDeclaration ps := by
  obtain ⟨ys, xs, rfl, ⟨-, hxs⟩, -, hys⟩ : ∃ ys xs : List Expr,
      ps = [(some .left, .exprs xs), (none, .mark .define), (some .right, .exprs ys)] ∧
        (xs ≠ [] ∧ ∀ x ∈ xs, x.fits .plain) ∧ ys ≠ [] ∧ ∀ y ∈ ys, y.fits .plain := by
    simpa using h
  exact ⟨.stmt (.assign xs .define ys), rfl,
    by simpa [Operator.isAssignment] using ⟨hxs, hys⟩, by simp⟩

/-- What stands before a value that is received or ranged over: expressions and `=` or `:=`. -/
def leftParts : Option (List Expr × Terminal) → Parts
  | none => []
  | some (xs, t) => [(some .left, .exprs xs), (none, .mark t)]

/-- Whether the expressions fit, and the token is `=` or `:=`. -/
def IsLeft (left : List Expr × Terminal) : Prop :=
  (left.2 = .assign ∨ left.2 = .define) ∧ left.1 ≠ [] ∧ ∀ x ∈ left.1, x.fits .plain

theorem exists_leftParts {depth : Nat} {qs : Parts}
    (h : Covers (CoversHidden depth) (.opt (.chain [.field .left (.rule .expressionList),
      .oneOf [.token .assign, .token .define]])) none qs) :
    ∃ left, qs = leftParts left ∧ ∀ l ∈ left, IsLeft l := by
  obtain ⟨rs, xs, rfl, hxs, hrs⟩ | rfl : (∃ (rs : Parts) (xs : List Expr),
      qs = (some .left, .exprs xs) :: rs ∧ (xs ≠ [] ∧ ∀ x ∈ xs, x.fits .plain) ∧
        (rs = [(none, .mark .assign)] ∨ rs = [(none, .mark .define)])) ∨ qs = [] := by
    simpa using h
  · rcases hrs with rfl | rfl
    · exact ⟨some (xs, .assign), rfl, by simpa [IsLeft] using hxs⟩
    · exact ⟨some (xs, .define), rfl, by simpa [IsLeft] using hxs⟩
  · exact ⟨none, rfl, by simp⟩

theorem yields_receiveStatement (h : Fits .receiveStatement ps) : Yields .receiveStatement ps := by
  obtain ⟨qs, rs, rfl, hqs, hrs⟩ := h
  obtain ⟨x, rfl, hx⟩ := coversHidden_expression.mp hrs
  obtain ⟨left, rfl, hleft⟩ := exists_leftParts hqs
  match left with
  | none => exact ⟨.stmt (.expr x), rfl, by simpa using hx, by simp [leftParts]⟩
  | some (xs, t) =>
    obtain ⟨ht, -, hxs⟩ := hleft (xs, t) rfl
    obtain rfl | rfl := ht
    · exact ⟨.stmt (.assign xs .assign [x]), rfl,
        by simpa [Operator.isAssignment] using ⟨hxs, hx⟩, by simp [leftParts]⟩
    · exact ⟨.stmt (.assign xs .define [x]), rfl,
        by simpa [Operator.isAssignment] using ⟨hxs, hx⟩, by simp [leftParts]⟩

/-! ### Labels, branches and calls -/

theorem yields_labeledStatement (h : Fits .labeledStatement ps) : Yields .labeledStatement ps := by
  obtain ⟨qs, label, rfl, hqs⟩ : ∃ (qs : Parts) (label : String),
      ps = (some .label, .expr (.ident label)) :: (none, .mark .colon) :: qs ∧
        CoversHidden 3 .statement none qs := by
    simpa using h
  obtain ⟨p, rfl, s, hs, hfits, hwords, hmark⟩ := coversHidden_statement hqs
  refine ⟨.stmt (.labeled label s), ?_, by simpa using hfits, by simp [hwords]⟩
  simp [Parts.get?, Fragment.name?, hmark, hs]

theorem yields_emptyLabeledStatement (h : Fits .emptyLabeledStatement ps) :
    Yields .emptyLabeledStatement ps := by
  obtain ⟨label, rfl⟩ : ∃ label,
      ps = [(some .label, .expr (.ident label)), (none, .mark .colon)] := by
    simpa using h
  exact ⟨.stmt (.labeled label .empty), rfl, by simp, by simp⟩

theorem yields_fallthroughStatement (h : Fits .fallthroughStatement ps) :
    Yields .fallthroughStatement ps := by
  obtain rfl : ps = [(none, .mark .fallthrough)] := by simpa using h
  exact ⟨.stmt (.branch .fallthrough none), rfl, ⟨_, rfl, rfl⟩, rfl⟩

/-- A jump that may name a label. -/
theorem yields_jump {n : RuleName} {t : Terminal} {op : Operator}
    (hn : (n, t, op) = (.breakStatement, .break_, .break_) ∨
      (n, t, op) = (.continueStatement, .continue_, .continue_))
    (h : Fits n ps) : Yields n ps := by
  obtain ⟨rs, rfl, hrs⟩ : ∃ rs : Parts, ps = (none, .mark t) :: rs ∧
      ((∃ label, rs = [(none, .expr (.ident label))]) ∨ rs = []) := by
    rcases hn with hn | hn <;> cases hn <;> simpa using h
  rcases hrs with ⟨label, rfl⟩ | rfl
  · refine ⟨.stmt (.branch op (some label)), ?_⟩
    rcases hn with hn | hn <;> cases hn <;> exact ⟨rfl, ⟨_, rfl, rfl⟩, rfl⟩
  · refine ⟨.stmt (.branch op none), ?_⟩
    rcases hn with hn | hn <;> cases hn <;> exact ⟨rfl, ⟨_, rfl, rfl⟩, rfl⟩

theorem yields_gotoStatement (h : Fits .gotoStatement ps) : Yields .gotoStatement ps := by
  obtain ⟨label, rfl⟩ : ∃ label, ps = [(none, .mark .goto), (none, .expr (.ident label))] := by
    simpa using h
  exact ⟨.stmt (.branch .goto (some label)), rfl, ⟨_, rfl, rfl⟩, rfl⟩

theorem yields_returnStatement (h : Fits .returnStatement ps) : Yields .returnStatement ps := by
  obtain ⟨rs, rfl, ⟨xs, rfl, -, hxs⟩ | rfl⟩ : ∃ rs : Parts, ps = (none, .mark .return_) :: rs ∧
      ((∃ xs : List Expr, rs = [(none, .exprs xs)] ∧ xs ≠ [] ∧ ∀ x ∈ xs, x.fits .plain) ∨
        rs = []) := by
    simpa using h
  · exact ⟨.stmt (.return_ xs), rfl, by simpa using hxs, by simp⟩
  · exact ⟨.stmt (.return_ []), rfl, ⟨_, rfl, rfl⟩, rfl⟩

/-- A call that is started or put off: the token stands before it. -/
theorem yields_call {n : RuleName} {t : Terminal} {make : Expr → Stmt}
    (hn : (n, t, make) = (.goStatement, .go, .go) ∨ (n, t, make) = (.deferStatement, .defer, .defer))
    (h : Fits n ps) : Yields n ps := by
  obtain ⟨x, rfl, hx⟩ : ∃ x : Expr, ps = [(none, .mark t), (none, .expr x)] ∧
      x.fits .plain := by
    rcases hn with hn | hn <;> cases hn <;> simpa using h
  refine ⟨.stmt (make x), ?_⟩
  rcases hn with hn | hn <;> cases hn <;> exact ⟨rfl, by simpa using hx, by simp⟩

/-! ### Blocks -/

theorem yields_statementList (h : Fits .statementList ps) : Yields .statementList ps := by
  obtain ⟨ss, hss, hfits, hwords, -⟩ := Parts.exists_mapM_named Fragment.stmt?
    (fun s => s.fits .plain = true) Stmt.words
    (Covers.inList h none [.stmt, .block, .decl .const, .decl .var, .decl .type] (by decide)) (by
      simp only [List.forall_mem_cons, List.not_mem_nil, false_implies, implies_true, and_true]
      refine ⟨?_, ?_, ?_, ?_, ?_⟩
      · rintro p ⟨s, rfl, hs⟩
        exact ⟨s, rfl, hs, rfl⟩
      · rintro p ⟨ss, rfl, hss⟩
        exact ⟨.block ss, rfl, by simpa using hss, by simp⟩
      all_goals
        rintro p ⟨ss, rfl, hss⟩
        exact ⟨.decl _ ss, rfl, by simpa using hss, by simp⟩)
  refine ⟨.stmts ss, ?_, ⟨ss, rfl, hfits⟩, hwords⟩
  simp [hss]

theorem yields_block (h : Fits .block ps) : Yields .block ps := by
  obtain ⟨qs, rfl, ⟨ss, rfl, hss⟩ | rfl⟩ : ∃ qs : Parts,
      ps = (none, .mark .lbrace) :: (qs ++ ([(none, .mark .rbrace)] : Parts)) ∧
        ((∃ ss : List Stmt, qs = [(none, .stmts ss)] ∧ ∀ s ∈ ss, s.fits .plain) ∨ qs = []) := by
    simpa using h
  · exact ⟨.block ss, rfl, ⟨ss, rfl, hss⟩, by simp⟩
  · exact ⟨.block [], rfl, ⟨[], rfl, by simp⟩, by simp⟩

/-! ### Conditions and loops -/

/-- A statement before a condition or a value. -/
def initParts : Option Stmt → Parts
  | none => []
  | some s => [(some .initializer, .stmt s), (none, .mark .semicolon)]

theorem exists_initParts {depth : Nat} {qs : Parts}
    (h : Covers (CoversHidden (depth + 1)) initializer none qs) :
    ∃ init, qs = initParts init ∧ ∀ s ∈ init, s.fits .plain := by
  obtain ⟨s, rfl, hs⟩ | rfl : (∃ s : Stmt,
      qs = [(some .initializer, .stmt s), (none, .mark .semicolon)] ∧ s.fits .plain) ∨ qs = [] := by
    simpa [initializer] using h
  · exact ⟨some s, rfl, by simpa using hs⟩
  · exact ⟨none, rfl, by simp⟩

@[simp] theorem part?_initParts (init : Option Stmt) (f : Grammar.Field) :
    (initParts init).part? f = if f = .initializer then init.map .stmt else none := by
  cases init <;> simp [initParts, eq_comm]

@[simp] theorem others_initParts (init : Option Stmt) : (initParts init).others = [] := by
  cases init <;> simp [initParts]

@[simp] theorem words_initParts (init : Option Stmt) :
    (initParts init).words = init.elim [] Stmt.words := by
  cases init <;> simp [initParts]

theorem yields_ifStatement (h : Fits .ifStatement ps) : Yields .ifStatement ps := by
  obtain ⟨_, qs, rfl, ⟨_, rfl, rfl⟩, is, rs, rfl, his, hrs⟩ := h
  obtain ⟨init, rfl, hinit⟩ := exists_initParts his
  obtain ⟨es, body, cond, rfl, hcond, hbody, hes⟩ :
      ∃ (es : Parts) (body : List Stmt) (cond : Expr),
        rs = (some .condition, .expr cond) :: (some .consequence, .block body) :: es ∧
          cond.fits .plain ∧ (∀ s ∈ body, s.fits .plain) ∧
          ((∃ qs : Parts, es = (none, .mark .else_) :: qs ∧
            Covers (CoversHidden 3) (.alt (.rule .block) (.rule .ifStatement)) (some .alternative)
              qs) ∨ es = []) := by
    simpa using hrs
  have shaped : ∀ otherwise : Option Stmt, (∀ s ∈ otherwise, s.fits .otherwise) →
      (Fragment.stmt (.if_ init cond body otherwise)).Is .ifStmt := by
    intro otherwise h
    exact ⟨_, _, _, _, rfl,
      by simpa [Option.all_eq_true] using ⟨⟨⟨hinit, hcond⟩, hbody⟩, h⟩⟩
  obtain ⟨_, rfl, ⟨p, rfl, ss, rfl, hss⟩ | ⟨p, rfl, i, c, b, o, rfl, hs⟩⟩ | rfl := hes
  · refine ⟨.stmt (.if_ init cond body (some (.block ss))), ?_,
      shaped _ (by simpa using hss), ?_⟩
    · cases init <;> rfl
    · simp
  · refine ⟨.stmt (.if_ init cond body (some (.if_ i c b o))), ?_,
      shaped _ (by simpa using hs), ?_⟩
    · cases init <;> rfl
    · simp
  · refine ⟨.stmt (.if_ init cond body none), ?_, shaped _ (by simp), ?_⟩
    · cases init <;> rfl
    · simp

theorem yields_forClause (h : Fits .forClause ps) : Yields .forClause ps := by
  obtain ⟨post, cond, init, rfl, hinit, hcond, hpost⟩ :
      ∃ (post : Option Stmt) (cond : Option Expr) (init : Option Stmt),
        ps = Parts.optional .initializer (init.map .stmt) ++ (none, .mark .semicolon) ::
          (Parts.optional .condition (cond.map .expr) ++ (none, .mark .semicolon) ::
            Parts.optional .update (post.map .stmt)) ∧
          (∀ s ∈ init, s.fits .plain) ∧ (∀ x ∈ cond, x.fits .plain) ∧
          ∀ s ∈ post, s.fits .plain := by
    simpa [exists_optional_iff] using h
  refine ⟨.forClause init cond post, ?_, ?_, ?_⟩
  · cases init <;> cases cond <;> cases post <;> rfl
  · simpa [Option.all_eq_true] using ⟨⟨hinit, hcond⟩, hpost⟩
  · simp [Function.comp_def]

theorem yields_forStatement (h : Fits .forStatement ps) : Yields .forStatement ps := by
  obtain ⟨_, _, rfl, ⟨_, rfl, rfl⟩, qs, _, rfl, hqs, p, rfl, body, rfl, hbody⟩ := h
  rcases hqs with (hqs | ⟨_, rfl, init, cond, post, rfl, hclause⟩ |
    ⟨_, rfl, key, value, op, x, rfl, hclause⟩) | rfl
  · obtain ⟨x, rfl, hx⟩ := coversHidden_expression.mp hqs
    exact ⟨.stmt (.for_ none (some x) none body), rfl,
      by simpa using ⟨hx, hbody⟩, by simp⟩
  · refine ⟨.stmt (.for_ init cond post body), rfl, ?_, by simp⟩
    simp_all
  · refine ⟨.stmt (.range key value op x body), rfl, ?_, by simp⟩
    simp_all
  · exact ⟨.stmt (.for_ none none none body), rfl, by simpa using hbody, by simp⟩

/-! ### Clauses -/

/-- The statements of a clause, which may be absent. -/
def bodyParts : Option (List Stmt) → Parts
  | none => []
  | some ss => [(none, .stmts ss)]

theorem exists_bodyParts {hidden : RuleName → Option Grammar.Field → Parts → Prop} {qs : Parts}
    (h : Covers hidden (.opt (.rule .statementList)) none qs) :
    ∃ body, qs = bodyParts body ∧ ∀ s ∈ body.getD [], s.fits .plain := by
  obtain ⟨ss, rfl, hss⟩ | rfl :
      (∃ ss : List Stmt, qs = [(none, .stmts ss)] ∧ ∀ s ∈ ss, s.fits .plain) ∨ qs = [] := by
    simpa using h
  · exact ⟨some ss, rfl, hss⟩
  · exact ⟨none, rfl, by simp⟩

theorem yields_expressionCase (h : Fits .expressionCase ps) : Yields .expressionCase ps := by
  obtain ⟨qs, xs, rfl, ⟨-, hxs⟩, hqs⟩ : ∃ (qs : Parts) (xs : List Expr),
      ps = (none, .mark .case) :: (some .value, .exprs xs) :: (none, .mark .colon) :: qs ∧
        (xs ≠ [] ∧ ∀ x ∈ xs, x.fits .plain) ∧
        Covers (CoversHidden 3) (.opt (.rule .statementList)) none qs := by
    simpa using h
  obtain ⟨body, rfl, hbody⟩ := exists_bodyParts hqs
  refine ⟨.switchCase xs (body.getD []), ?_, ?_, ?_⟩
  · cases body <;> rfl
  · simpa using ⟨hxs, hbody⟩
  · cases body <;> simp [bodyParts]

theorem yields_defaultCase (h : Fits .defaultCase ps) : Yields .defaultCase ps := by
  obtain ⟨qs, rfl, hqs⟩ : ∃ qs : Parts,
      ps = (none, .mark .default) :: (none, .mark .colon) :: qs ∧
        Covers (CoversHidden 3) (.opt (.rule .statementList)) none qs := by
    simpa using h
  obtain ⟨body, rfl, hbody⟩ := exists_bodyParts hqs
  refine ⟨.defaultCase (body.getD []), ?_, ⟨_, rfl, hbody⟩, ?_⟩
  · cases body <;> rfl
  · cases body <;> simp [bodyParts]

theorem yields_communicationCase (h : Fits .communicationCase ps) :
    Yields .communicationCase ps := by
  obtain ⟨qs, s, rfl, hs, hqs⟩ : ∃ (qs : Parts) (s : Stmt),
      ps = (none, .mark .case) :: (some .communication, .stmt s) :: (none, .mark .colon) :: qs ∧
        s.fits .plain ∧ Covers (CoversHidden 3) (.opt (.rule .statementList)) none qs := by
    simpa using h
  obtain ⟨body, rfl, hbody⟩ := exists_bodyParts hqs
  refine ⟨.commCase s (body.getD []), ?_, ?_, ?_⟩
  · cases body <;> rfl
  · simpa using ⟨hs, hbody⟩
  · cases body <;> simp [bodyParts]

theorem yields_typeCase (h : Fits .typeCase ps) : Yields .typeCase ps := by
  obtain ⟨_, _, rfl, ⟨_, rfl, rfl⟩, ts, _, rfl, hts, _, qs, rfl, ⟨_, rfl, rfl⟩, hqs⟩ := h
  have list := Covers.inList hts (some .type) [.expr] (by decide)
  obtain ⟨xs, hxs, hfits, hwords, -⟩ := Parts.exists_exprs list
  obtain ⟨body, rfl, hbody⟩ := exists_bodyParts hqs
  refine ⟨.typeCase xs (body.getD []), ?_, ?_, ?_⟩
  · cases body <;>
      simp [Parts.all?, clauseBody?, bodyParts, Parts.parts_of_inList list,
        Parts.others_eq_nil_of_inList list, hxs, Fragment.isPart, Fragment.stmts?]
  · simpa using ⟨hfits, hbody⟩
  · cases body <;> simp [bodyParts, hwords]

/-! ### Switches -/

/-- The clauses of a switch or a `select`. -/
theorem exists_entries (as : Fragment → Option Stmt) (place : StmtPlace)
    {items : List Category} (list : ∀ p ∈ ps, InList none items p)
    (hreads : ∀ c ∈ items, ∀ p : Fragment, p.Is c →
      Reads as (Stmt.fits place · = true) Stmt.words p) :
    ∃ ss, ps.others.mapM as = some ss ∧ (∀ s ∈ ss, s.fits place) ∧
      ss.flatMap Stmt.words = ps.words := by
  obtain ⟨ss, hss, hfits, hwords, -⟩ := Parts.exists_mapM_named _ _ _ list hreads
  exact ⟨ss, by rw [Parts.others_of_inList list, hss], hfits, hwords⟩

theorem yields_selectStatement (h : Fits .selectStatement ps) : Yields .selectStatement ps := by
  obtain ⟨ss, hss, hfits, hwords⟩ := exists_entries Fragment.selectEntry? .selectEntry
    (Covers.inList h none [.commCase, .defaultCase] (by decide)) (by
      simp only [List.forall_mem_cons, List.not_mem_nil, false_implies, implies_true, and_true]
      constructor
      · rintro p ⟨s, ss, rfl, h⟩
        exact ⟨.commClause (some s) ss, rfl, h, by simp⟩
      · rintro p ⟨ss, rfl, h⟩
        exact ⟨.commClause none ss, rfl, by simpa using h, by simp⟩)
  refine ⟨.stmt (.select ss), ?_, by simpa using hfits, by simpa using hwords⟩
  simp [hss]

theorem yields_expressionSwitchStatement (h : Fits .expressionSwitchStatement ps) :
    Yields .expressionSwitchStatement ps := by
  obtain ⟨_, _, hps, ⟨_, rfl, rfl⟩, is, _, rfl, his, vs, cs, rfl, hvs, hcs⟩ := h
  obtain ⟨init, rfl, hinit⟩ := exists_initParts his
  obtain ⟨tag, rfl, htag⟩ : ∃ tag : Option Expr,
      vs = Parts.optional .value (tag.map .expr) ∧ ∀ x ∈ tag, x.fits .plain := by
    simpa [exists_optional_iff] using hvs
  have list := Covers.inList hcs none [.switchCase, .defaultCase] (by decide)
  obtain ⟨ss, hss, hfits, hwords⟩ := exists_entries Fragment.switchEntry? .switchEntry list (by
    simp only [List.forall_mem_cons, List.not_mem_nil, false_implies, implies_true, and_true]
    constructor
    · rintro p ⟨xs, ss, rfl, h⟩
      exact ⟨.caseClause xs ss, rfl, h, by simp⟩
    · rintro p ⟨ss, rfl, h⟩
      exact ⟨.caseClause [] ss, rfl, by simpa using h, by simp⟩)
  have hinit? : ps.optional? .initializer Fragment.stmt? = some init :=
    Parts.optional?_of_part? (c := .stmt)
      (by simp [hps, Parts.part?_eq_none_of_inList list]) fun _ => rfl
  have htag? : ps.optional? .value Fragment.expr? = some tag :=
    Parts.optional?_of_part? (c := .expr)
      (by simp [hps, Parts.part?_eq_none_of_inList list]) fun _ => rfl
  have hothers : ps.others = cs.others := by simp [hps]
  refine ⟨.stmt (.switch init tag ss), ?_, ?_, ?_⟩
  · simp [hinit?, htag?, hothers, hss]
  · simpa [Option.all_eq_true] using ⟨⟨hinit, htag⟩, hfits⟩
  · simp [hps, hwords, Function.comp_def]

/-- The names that a type switch binds, with `:=`. -/
def aliasParts : Option (List Expr) → Parts
  | none => []
  | some xs => [(some .alias, .exprs xs), (none, .mark .define)]

/-- The parts between `switch` and the clauses of a type switch. -/
def headerParts (init : Option Stmt) (bound : Option (List Expr)) (x : Expr) : Parts :=
  initParts init ++ (aliasParts bound ++
    ([(some .value, .expr x), (none, .mark .dot), (none, .mark .lparen), (none, .mark .type),
      (none, .mark .rparen)] : Parts))

theorem exists_headerParts {depth : Nat} {qs : Parts}
    (h : CoversHidden (depth + 2) .typeSwitchHeader none qs) :
    ∃ init bound x, qs = headerParts init bound x ∧ (∀ s ∈ init, s.fits .plain) ∧
      (∀ xs ∈ bound, ∀ y ∈ xs, y.fits .plain) ∧ x.fits .plain := by
  obtain ⟨is, _, rfl, his, as, vs, rfl, has, hvs⟩ := h
  obtain ⟨init, rfl, hinit⟩ := exists_initParts his
  obtain ⟨x, rfl, hx⟩ : ∃ x : Expr, vs = [(some .value, .expr x), (none, .mark .dot),
      (none, .mark .lparen), (none, .mark .type), (none, .mark .rparen)] ∧ x.fits .plain := by
    simpa using hvs
  obtain ⟨xs, rfl, -, hxs⟩ | rfl : (∃ xs : List Expr,
      as = [(some .alias, .exprs xs), (none, .mark .define)] ∧ xs ≠ [] ∧
        ∀ y ∈ xs, y.fits .plain) ∨ as = [] := by
    simpa using has
  · exact ⟨init, some xs, x, rfl, hinit, by simpa using hxs, hx⟩
  · exact ⟨init, none, x, rfl, hinit, by simp, hx⟩

theorem yields_typeSwitchStatement (h : Fits .typeSwitchStatement ps) :
    Yields .typeSwitchStatement ps := by
  obtain ⟨_, _, hps, ⟨_, rfl, rfl⟩, qs, cs, rfl, hqs, hcs⟩ := h
  obtain ⟨init, bound, x, rfl, hinit, hbound, hx⟩ := exists_headerParts hqs
  have list := Covers.inList hcs none [.typeCase, .defaultCase] (by decide)
  obtain ⟨ss, hss, hfits, hwords⟩ := exists_entries Fragment.typeSwitchEntry? .switchEntry list (by
    simp only [List.forall_mem_cons, List.not_mem_nil, false_implies, implies_true, and_true]
    constructor
    · rintro p ⟨xs, ss, rfl, h⟩
      exact ⟨.caseClause xs ss, rfl, h, by simp⟩
    · rintro p ⟨ss, rfl, h⟩
      exact ⟨.caseClause [] ss, rfl, by simpa using h, by simp⟩)
  have hinit? : ps.optional? .initializer Fragment.stmt? = some init := by
    refine Parts.optional?_of_part? (c := .stmt) ?_ fun _ => rfl
    cases bound <;>
      simp [hps, headerParts, aliasParts, Parts.part?_eq_none_of_inList list]
  have hvalue? : ps.get? .value Fragment.expr? = some x := by
    cases bound <;> simp [hps, headerParts, aliasParts, Parts.get?, Fragment.expr?]
  have hbound? : ps.optional? .alias Fragment.exprs? = some bound := by
    refine Parts.optional?_of_part? (c := .exprs) ?_ fun _ => rfl
    cases bound <;>
      simp [hps, headerParts, aliasParts, Parts.part?_eq_none_of_inList list]
  have hothers : ps.others = cs.others := by
    cases bound <;> simp [hps, headerParts, aliasParts]
  cases bound with
  | none =>
    refine ⟨.stmt (.typeSwitch init (.expr (.typeAssert x none)) ss), ?_, ?_, ?_⟩
    · simp [typeSwitch?, hinit?, hvalue?, hbound?, hothers, hss]
    · simpa [Expr.fits, Option.all_eq_true] using ⟨⟨hinit, hx⟩, hfits⟩
    · simp [hps, headerParts, aliasParts, hwords]
  | some xs =>
    refine ⟨.stmt (.typeSwitch init (.assign xs .define [.typeAssert x none]) ss), ?_, ?_, ?_⟩
    · simp [typeSwitch?, hinit?, hvalue?, hbound?, hothers, hss]
    · simpa [Expr.fits, Option.all_eq_true] using
        ⟨⟨hinit, hbound xs rfl, hx⟩, hfits⟩
    · simp [hps, headerParts, aliasParts, hwords]

/-! ### Ranges -/

/-- The first two expressions on the left. -/
def firstTwoOf : Option Grammar.Field × Fragment → Option Grammar.Field × Fragment
  | (some .left, .exprs xs) => (some .left, .exprs (xs.take 2))
  | p => p

/-- A range keeps the words of all its parts, but of the expressions on the left only the first two. -/
theorem exists_rangeClause (h : Fits .rangeClause ps) :
    ∃ p, ofRule? .rangeClause ps = some p ∧ p.Is .rangeClause ∧
      p.words = Parts.words (ps.map firstTwoOf) := by
  obtain ⟨qs, rs, rfl, hqs, hrs⟩ := h
  obtain ⟨x, rfl, hx⟩ : ∃ x : Expr,
      rs = [(none, .mark .range), (some .right, .expr x)] ∧ x.fits .plain := by
    simpa using hrs
  obtain ⟨left, rfl, hleft⟩ := exists_leftParts hqs
  match left with
  | none =>
    exact ⟨.rangeClause none none none x, rfl, by simpa using hx,
      by simp [leftParts, firstTwoOf]⟩
  | some (xs, t) =>
    obtain ⟨ht, hne, hxs⟩ := hleft (xs, t) rfl
    obtain ⟨op, hop, hplain⟩ : ∃ op : Operator,
        ofRule? .rangeClause (leftParts (some (xs, t)) ++
          ([(none, .mark .range), (some .right, .expr x)] : Parts)) =
            some (.rangeClause xs[0]? xs[1]? (some op) x) ∧ op.isPlainAssignment := by
      obtain rfl | rfl := ht
      · exact ⟨.assign, rfl, rfl⟩
      · exact ⟨.define, rfl, rfl⟩
    refine ⟨_, hop, ?_⟩
    obtain _ | ⟨y, _ | ⟨z, ys⟩⟩ := xs
    · exact absurd rfl hne
    · exact ⟨by simpa [hx, hplain] using hxs, by simp [leftParts, firstTwoOf]⟩
    · have hy : y.fits .plain := hxs y (by simp)
      have hz : z.fits .plain := hxs z (by simp)
      exact ⟨by simp [hx, hplain, hy, hz], by simp [leftParts, firstTwoOf]⟩

end GoOutline.Syntax

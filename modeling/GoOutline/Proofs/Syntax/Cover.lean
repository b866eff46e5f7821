import GoOutline.Proofs.Syntax.Shape
import GoOutline.Syntax.Lower
import Mathlib.Data.List.Forall2
import Mathlib.Logic.Relation

/-!
# What the grammar says about the parts of a node

A node conforms if its rule allows its children. Here the same is said of the parts, which are what
the children contribute.

* `Category`: the sorts of contributions; `Fragment.Is` says what a contribution of a sort looks like.
* `RuleName.category`, `Kind.category`: what the nodes of a rule, or of a kind, contribute.
* `Covers`: a right-hand side describes some parts. `Fits` is the same for a whole rule.
* `fits_of_allows`: if a rule allows the children, their contributions fit the rule.
-/

namespace GoOutline.Syntax

open GoOutline.Grammar (Terminal RuleName Rule Role)

/-! ### Sorts of contributions -/

/-- The sorts of contributions. -/
inductive Category where
  | mark (t : Terminal)
  | comment
  | name | literal | number | expr | exprs | typeArgs | spread | args | entry | element | elements
  | param | params | typeParam | typeParams | member | members | method
  | stmt | ifStmt | stmts | block | switchCase | typeCase | defaultCase | commCase
  | forClause | rangeClause
  | valueSpec | typeSpec | specs | decl (keyword : Keyword) | func
  | importSpec | importSpecs | imports | package
  /-- There is no such contribution. -/
  | nothing
deriving DecidableEq

/-- Whether a contribution is of a sort and fits its place. -/
def Fragment.Is (p : Fragment) : Category → Prop
  | .mark t => p = .mark t
  | .comment => p = .comment
  | .name => ∃ s, p = .expr (.ident s)
  | .literal => ∃ s, p = .expr (.basicLit .string s)
  | .number => ∃ k s, p = .expr (.basicLit k s)
  | .expr => ∃ x, p = .expr x ∧ x.fits .plain
  | .exprs => ∃ xs, p = .exprs xs ∧ xs ≠ [] ∧ ∀ x ∈ xs, x.fits .plain
  | .typeArgs => ∃ xs, p = .typeArgs xs ∧ xs ≠ [] ∧ ∀ x ∈ xs, x.fits .plain
  | .spread => ∃ x, p = .spread x ∧ x.fits .plain
  | .args => ∃ xs isSpread, p = .args xs isSpread ∧ ∀ x ∈ xs, x.fits .plain
  | .entry => ∃ x, p = .element x ∧ x.fits .entry
  | .element => ∃ x, p = .element x ∧ x.fits .element
  | .elements => ∃ xs, p = .elements xs ∧ ∀ x ∈ xs, x.fits .element
  | .param => ∃ f, p = .param f ∧ f.fits .parameter
  | .params => ∃ fs, p = .params fs ∧ ∀ f ∈ fs, f.fits .parameter
  | .typeParam => ∃ f, p = .typeParam f ∧ f.fits .plain
  | .typeParams => ∃ fs, p = .typeParams fs ∧ ∀ f ∈ fs, f.fits .plain
  | .member => ∃ f, p = .member f ∧ f.fits .plain
  | .members => ∃ fs, p = .members fs ∧ ∀ f ∈ fs, f.fits .plain
  | .method => ∃ f, p = .method f ∧ f.fits .plain
  | .stmt => ∃ s, p = .stmt s ∧ s.fits .plain
  | .ifStmt => ∃ init cond body otherwise, p = .stmt (.if_ init cond body otherwise) ∧
      (Stmt.if_ init cond body otherwise).fits .plain
  | .stmts => ∃ ss, p = .stmts ss ∧ ∀ s ∈ ss, s.fits .plain
  | .block => ∃ ss, p = .block ss ∧ ∀ s ∈ ss, s.fits .plain
  | .switchCase => ∃ xs ss, p = .switchCase xs ss ∧ (Stmt.caseClause xs ss).fits .switchEntry
  | .typeCase => ∃ xs ss, p = .typeCase xs ss ∧ (Stmt.caseClause xs ss).fits .switchEntry
  | .defaultCase => ∃ ss, p = .defaultCase ss ∧ ∀ s ∈ ss, s.fits .plain
  | .commCase => ∃ s ss, p = .commCase s ss ∧ (Stmt.commClause (some s) ss).fits .selectEntry
  | .forClause => ∃ init cond post, p = .forClause init cond post ∧
      (Stmt.for_ init cond post []).fits .plain
  | .rangeClause => ∃ key value op x, p = .rangeClause key value op x ∧
      (Stmt.range key value op x []).fits .plain
  | .valueSpec => ∃ names type values, p = .valueSpec names type values ∧
      ∀ keyword ≠ .type, (Spec.value names type values).fits keyword
  | .typeSpec => ∃ name typeParams isAlias type, p = .typeSpec name typeParams isAlias type ∧
      (Spec.type name typeParams isAlias type).fits .type
  | .specs => ∃ ss, p = .specs ss ∧ ∀ keyword ≠ .type, ∀ s ∈ ss, s.fits keyword
  | .decl keyword => ∃ ss, p = .decl keyword ss ∧ ∀ s ∈ ss, s.fits keyword
  | .func => ∃ f, p = .func f ∧ f.isWellShaped
  | .importSpec => ∃ i, p = .importSpec i
  | .importSpecs => ∃ is, p = .importSpecs is
  | .imports => ∃ is, p = .imports is
  | .package => ∃ name, p = .package name
  | .nothing => False

end GoOutline.Syntax

/-- What the nodes of a rule contribute. -/
def GoOutline.Grammar.RuleName.category : GoOutline.Grammar.RuleName → GoOutline.Syntax.Category
  | .packageClause => .package
  | .importDeclaration => .imports
  | .importSpec => .importSpec
  | .importSpecList => .importSpecs
  | .dot => .name
  | .constDeclaration => .decl .const
  | .varDeclaration => .decl .var
  | .typeDeclaration => .decl .type
  | .constSpec | .varSpec => .valueSpec
  | .varSpecList => .specs
  | .typeSpec | .typeAlias => .typeSpec
  | .functionDeclaration | .methodDeclaration => .func
  | .typeParameterList => .typeParams
  | .typeParameterDeclaration => .typeParam
  | .parameterList => .params
  | .parameterDeclaration | .variadicParameterDeclaration => .param
  | .fieldDeclarationList => .members
  | .fieldDeclaration => .member
  | .methodElem => .method
  | .expressionList => .exprs
  | .typeArguments => .typeArgs
  | .variadicArgument => .spread
  | .specialArgumentList | .argumentList => .args
  | .literalElement => .entry
  | .keyedElement => .element
  | .literalValue => .elements
  | .rawStringLiteral | .interpretedStringLiteral => .literal
  | .parenthesizedType | .genericType | .pointerType | .arrayType | .implicitLengthArrayType
  | .sliceType | .structType | .negatedType | .interfaceType | .typeElem | .mapType | .channelType
  | .functionType | .qualifiedType | .parenthesizedExpression | .callExpression
  | .selectorExpression | .indexExpression | .sliceExpression | .typeAssertionExpression
  | .typeConversionExpression | .typeInstantiationExpression | .compositeLiteral | .funcLiteral
  | .unaryExpression | .binaryExpression => .expr
  | .block => .block
  | .statementList => .stmts
  | .ifStatement => .ifStmt
  | .emptyStatement | .expressionStatement | .sendStatement | .receiveStatement | .incStatement
  | .decStatement | .assignmentStatement | .shortVarDeclaration | .labeledStatement
  | .emptyLabeledStatement | .fallthroughStatement | .breakStatement | .continueStatement
  | .gotoStatement | .returnStatement | .goStatement | .deferStatement | .forStatement
  | .expressionSwitchStatement | .typeSwitchStatement | .selectStatement => .stmt
  | .forClause => .forClause
  | .rangeClause => .rangeClause
  | .expressionCase => .switchCase
  | .typeCase => .typeCase
  | .defaultCase => .defaultCase
  | .communicationCase => .commCase
  | .sourceFile | .declaration | .simpleType | .statement | .simpleStatement | .typeSwitchHeader
  | .expression => .nothing

namespace GoOutline.Syntax

open GoOutline.Grammar (Terminal RuleName Rule Role)

/-- What a token contributes. -/
def Category.ofToken : Terminal → Category
  | .identifier | .blank | .nil | .true_ | .false_ | .iota | .new | .make => .name
  | .intLiteral | .floatLiteral | .imaginaryLiteral | .runeLiteral => .number
  | .comment => .comment
  | t => .mark t

/-- What the nodes of a kind contribute. -/
def Kind.category : Kind → Category
  | token t _ => .ofToken t
  | rule n => n.category

/-! ### Parts that a rule describes -/

/-- Whether a right-hand side describes some parts; `hidden` says so for hidden rules. -/
def Covers (hidden : RuleName → Option Grammar.Field → Parts → Prop) :
    Rule → Option Grammar.Field → Parts → Prop
  | .empty, _, ps => ps = []
  | .token t, field, ps =>
    if t = .lineBreak then ps = [] else ∃ p, ps = [(field, p)] ∧ p.Is (.ofToken t)
  | .rule n, field, ps =>
    if n.isHidden then hidden n field ps else ∃ p, ps = [(field, p)] ∧ p.Is n.category
  | .seq a b, field, ps =>
    ∃ qs rs, ps = qs ++ rs ∧ Covers hidden a field qs ∧ Covers hidden b field rs
  | .alt a b, field, ps => Covers hidden a field ps ∨ Covers hidden b field ps
  | .many1 r, field, ps =>
    ∃ qss, qss ≠ [] ∧ ps = qss.flatten ∧ ∀ qs ∈ qss, Covers hidden r field qs
  | .field f r, _, ps => Covers hidden r (some f) ps
  | .role _ r, field, ps => Covers hidden r field ps
  | .prec _ _ r, field, ps => Covers hidden r field ps
  | .dynamic _ r, field, ps => Covers hidden r field ps

/-- `Covers` for hidden rules that are nested at most `depth` deep. -/
def CoversHidden : (depth : Nat) → RuleName → Option Grammar.Field → Parts → Prop
  | 0, _, _, _ => False
  | depth + 1, n, field, ps => Covers (CoversHidden depth) n.body field ps

/-- Whether a rule describes some parts. -/
def Fits (n : RuleName) (ps : Parts) : Prop :=
  Covers (CoversHidden hiddenDepth) n.body none ps

/-! ### From children to parts -/

/-- The parts are what the children contribute, each with the field of its child. -/
def Contribute (cs : List Child) (ps : Parts) : Prop :=
  List.Forall₂ (fun c p => p.1 = c.1 ∧ p.2.Is c.2.kind.category) cs ps

theorem mem_of_mem_distinct {cs : List Child} {lists : List (List Child)}
    (h : cs ∈ distinct lists) : cs ∈ lists := by
  induction lists with
  | nil => exact h
  | cons first more ih =>
    rw [distinct, List.foldr_cons] at h
    split at h
    · exact List.mem_cons_of_mem first (ih h)
    · rcases List.mem_cons.mp h with rfl | h
      · exact List.mem_cons_self
      · exact List.mem_cons_of_mem first (ih h)

/-- What remains after several rounds is reached from the start round by round. -/
theorem exists_transGen_of_mem_restsOfMany {step : List Child → List (List Child)} {fuel : Nat}
    {now : List (List Child)} {rest : List Child} (h : rest ∈ restsOfMany step fuel now) :
    ∃ cs ∈ now, Relation.TransGen (fun cs rest => rest ∈ step cs) cs rest := by
  induction fuel generalizing now with
  | zero => cases h
  | succ fuel ih =>
    rw [restsOfMany] at h
    split at h
    · cases h
    · have one : ∀ mid ∈ distinct (now.flatMap step), ∃ cs ∈ now, mid ∈ step cs :=
        fun mid hmid => List.mem_flatMap.mp (mem_of_mem_distinct hmid)
      rcases List.mem_append.mp h with h | h
      · obtain ⟨cs, hcs, hstep⟩ := one rest h
        exact ⟨cs, hcs, .single hstep⟩
      · obtain ⟨mid, hmid, hrest⟩ := ih h
        obtain ⟨cs, hcs, hstep⟩ := one mid hmid
        exact ⟨cs, hcs, .head hstep hrest⟩

/-- What one child of a kind leaves, and its part. -/
theorem exists_part_of_mem_restOfOne {kind : Kind} {field : Option Grammar.Field}
    {cs rest : List Child} {ps : Parts} (h : rest ∈ restOfOne kind field cs)
    (hps : Contribute cs ps) :
    ∃ p rs, ps = (field, p) :: rs ∧ Contribute rest rs ∧ p.Is kind.category := by
  fun_cases restOfOne kind field cs with
  | case1 => cases h
  | case2 f node more hkind =>
    rw [restOfOne, if_pos hkind, List.mem_singleton] at h
    subst h
    cases hps with
    | cons hp hrs =>
      obtain ⟨rfl, rfl⟩ := hkind
      obtain ⟨rfl, hp⟩ := hp
      exact ⟨_, _, rfl, hrs, hp⟩
  | case3 f node more hkind => simp [restOfOne, hkind] at h

section

variable {hidden : RuleName → Option Grammar.Field → List Child → List (List Child)}
  {covered : RuleName → Option Grammar.Field → Parts → Prop}

/-- What a right-hand side takes off the children, it describes. The induction is on the right-hand
side. -/
theorem exists_covers_of_mem_restsOf
    (hhidden : ∀ n field cs ps, ∀ rest ∈ hidden n field cs, Contribute cs ps →
      ∃ qs rs, ps = qs ++ rs ∧ Contribute rest rs ∧ covered n field qs)
    (r : Rule) (field : Option Grammar.Field) (role : Option Role) {cs rest : List Child}
    {ps : Parts} (h : rest ∈ restsOf hidden r field role cs) (hps : Contribute cs ps) :
    ∃ qs rs, ps = qs ++ rs ∧ Contribute rest rs ∧ Covers covered r field qs := by
  induction r generalizing field role cs rest ps with
  | empty =>
    rw [restsOf, List.mem_singleton] at h
    subst h
    exact ⟨[], ps, rfl, hps, rfl⟩
  | token t =>
    by_cases ht : t = .lineBreak
    · subst ht
      rw [restsOf, List.mem_singleton] at h
      subst h
      exact ⟨[], ps, rfl, hps, rfl⟩
    · rw [restsOf.eq_3 _ _ _ _ _ ht] at h
      obtain ⟨p, rs, rfl, hrs, hp⟩ := exists_part_of_mem_restOfOne h hps
      refine ⟨[(field, p)], rs, rfl, hrs, ?_⟩
      rw [Covers, if_neg ht]
      exact ⟨p, rfl, hp⟩
  | rule n =>
    rw [restsOf] at h
    simp only [Covers]
    split at h
    · next hn =>
      simpa only [hn, if_true] using hhidden n field cs ps rest h hps
    · next hn =>
      obtain ⟨p, rs, rfl, hrs, hp⟩ := exists_part_of_mem_restOfOne h hps
      exact ⟨[(field, p)], rs, rfl, hrs, by rw [if_neg hn]; exact ⟨p, rfl, hp⟩⟩
  | seq a b iha ihb =>
    rw [restsOf] at h
    obtain ⟨mid, hmid, hrest⟩ := List.mem_flatMap.mp h
    obtain ⟨qs, ms, rfl, hms, hqs⟩ := iha field role (mem_of_mem_distinct hmid) hps
    obtain ⟨qs', rs, rfl, hrs, hqs'⟩ := ihb field role hrest hms
    exact ⟨qs ++ qs', rs, (List.append_assoc ..).symm, hrs, qs, qs', rfl, hqs, hqs'⟩
  | alt a b iha ihb =>
    rw [restsOf] at h
    rcases List.mem_append.mp h with h | h
    · obtain ⟨qs, rs, hps', hrs, hqs⟩ := iha field role h hps
      exact ⟨qs, rs, hps', hrs, .inl hqs⟩
    · obtain ⟨qs, rs, hps', hrs, hqs⟩ := ihb field role h hps
      exact ⟨qs, rs, hps', hrs, .inr hqs⟩
  | many1 r ih =>
    rw [restsOf] at h
    obtain ⟨start, hstart, hrun⟩ := exists_transGen_of_mem_restsOfMany h
    rw [List.mem_singleton] at hstart
    subst hstart
    clear h
    induction hrun using Relation.TransGen.head_induction_on generalizing ps with
    | single hstep =>
      obtain ⟨qs, rs, hps', hrs, hqs⟩ := ih field role hstep hps
      exact ⟨qs, rs, hps', hrs, [qs], by simp, by simp, by simpa using hqs⟩
    | head hstep _ ihrun =>
      obtain ⟨qs, ms, rfl, hms, hqs⟩ := ih field role hstep hps
      obtain ⟨qs', rs, rfl, hrs, qss, _, rfl, hqss⟩ := ihrun hms
      refine ⟨qs ++ qss.flatten, rs, (List.append_assoc ..).symm, hrs, qs :: qss, by simp, rfl, ?_⟩
      exact List.forall_mem_cons.mpr ⟨hqs, hqss⟩
  | field f r ih => exact ih (some f) role (by rwa [restsOf] at h) hps
  | role k r ih => exact ih field (some k) (by rwa [restsOf] at h) hps
  | prec p a r ih => exact ih field role (by rwa [restsOf] at h) hps
  | dynamic d r ih => exact ih field role (by rwa [restsOf] at h) hps

end

/-- The same for hidden rules. -/
theorem exists_coversHidden_of_mem_restsOfHidden (depth : Nat) (n : RuleName)
    (field : Option Grammar.Field) (cs : List Child) (ps : Parts) :
    ∀ rest ∈ restsOfHidden depth n field cs, Contribute cs ps →
      ∃ qs rs, ps = qs ++ rs ∧ Contribute rest rs ∧ CoversHidden depth n field qs := by
  induction depth generalizing n field cs ps with
  | zero => intro rest h; cases h
  | succ depth ih =>
    intro rest h hps
    exact exists_covers_of_mem_restsOf ih n.body field none h hps

/-- If a rule allows the children of a node, what they contribute fits the rule. -/
theorem fits_of_allows {n : RuleName} {cs : List Child} {ps : Parts} (h : allows n cs = true)
    (hps : Contribute cs ps) : Fits n ps := by
  obtain ⟨rest, hmem, hrest⟩ := List.any_eq_true.mp h
  obtain rfl := List.isEmpty_iff.mp hrest
  obtain ⟨qs, rs, rfl, hrs, hqs⟩ :=
    exists_covers_of_mem_restsOf (exists_coversHidden_of_mem_restsOfHidden hiddenDepth) n.body none
      none hmem hps
  cases hrs
  rwa [List.append_nil]

end GoOutline.Syntax

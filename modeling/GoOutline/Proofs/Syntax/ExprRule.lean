import GoOutline.Proofs.Syntax.Parts

/-!
# What expressions and types contribute

Parts that fit the rule of an expression or of a type can be put together: the result is of the sort
of the rule, may stand where the rule stands, and has the words of the parts.
-/

namespace GoOutline.Syntax

open GoOutline.Grammar

attribute [simp] Fragment.words Expr.words Expr.fits fieldIdentifier packageIdentifier
  typeIdentifier

attribute [local simp] RuleName.body ofRule? ofExprRule?

variable {ps : Parts}

/-! ### A fixed number of parts -/

theorem yields_parenthesizedExpression (h : Fits .parenthesizedExpression ps) :
    Yields .parenthesizedExpression ps := by
  obtain ⟨x, rfl, hx⟩ : ∃ x : Expr,
      ps = [(none, .mark .lparen), (none, .expr x), (none, .mark .rparen)] ∧ x.fits .plain := by
    simpa using h
  exact ⟨.expr (.paren x), rfl, by simpa using hx, by simp⟩

theorem yields_parenthesizedType (h : Fits .parenthesizedType ps) :
    Yields .parenthesizedType ps := by
  obtain ⟨x, rfl, hx⟩ : ∃ x : Expr,
      ps = [(none, .mark .lparen), (none, .expr x), (none, .mark .rparen)] ∧ x.fits .plain := by
    simpa using h
  exact ⟨.expr (.paren x), rfl, by simpa using hx, by simp⟩

theorem yields_selectorExpression (h : Fits .selectorExpression ps) :
    Yields .selectorExpression ps := by
  obtain ⟨x, s, rfl, hx⟩ : ∃ (x : Expr) (s : String),
      ps = [(some .operand, .expr x), (none, .mark .dot), (some .field, .expr (.ident s))] ∧
        x.fits .plain := by
    simpa using h
  exact ⟨.expr (.selector x s), rfl, by simpa using hx, by simp⟩

theorem yields_qualifiedType (h : Fits .qualifiedType ps) : Yields .qualifiedType ps := by
  obtain ⟨s, t, rfl⟩ : ∃ s t : String,
      ps = [(some .package, .expr (.ident s)), (none, .mark .dot),
        (some .name, .expr (.ident t))] := by
    simpa using h
  exact ⟨.expr (.selector (.ident s) t), rfl, by simp, by simp⟩

theorem yields_indexExpression (h : Fits .indexExpression ps) : Yields .indexExpression ps := by
  obtain ⟨i, x, rfl, hx, hi⟩ : ∃ i x : Expr,
      ps = [(some .operand, .expr x), (none, .mark .lbrack), (some .index, .expr i),
        (none, .mark .rbrack)] ∧ x.fits .plain ∧ i.fits .plain := by
    simpa using h
  exact ⟨.expr (.index x i), rfl, by simpa using ⟨hx, hi⟩, by simp⟩

theorem yields_typeAssertionExpression (h : Fits .typeAssertionExpression ps) :
    Yields .typeAssertionExpression ps := by
  obtain ⟨t, x, rfl, hx, ht⟩ : ∃ t x : Expr,
      ps = [(some .operand, .expr x), (none, .mark .dot), (none, .mark .lparen),
        (some .type, .expr t), (none, .mark .rparen)] ∧ x.fits .plain ∧ t.fits .plain := by
    simpa using h
  exact ⟨.expr (.typeAssert x (some t)), rfl, by simpa using ⟨hx, ht⟩, by simp⟩

theorem yields_variadicArgument (h : Fits .variadicArgument ps) : Yields .variadicArgument ps := by
  obtain ⟨x, rfl, hx⟩ : ∃ x : Expr,
      ps = [(none, .expr x), (none, .mark .ellipsis)] ∧ x.fits .plain := by
    simpa using h
  exact ⟨.spread x, rfl, by simpa using hx, by simp⟩

theorem yields_pointerType (h : Fits .pointerType ps) : Yields .pointerType ps := by
  obtain ⟨x, rfl, hx⟩ : ∃ x : Expr, ps = [(none, .mark .star), (none, .expr x)] ∧
      x.fits .plain := by
    simpa using h
  exact ⟨.expr (.star x), rfl, by simpa using hx, by simp⟩

theorem yields_negatedType (h : Fits .negatedType ps) : Yields .negatedType ps := by
  obtain ⟨x, rfl, hx⟩ : ∃ x : Expr, ps = [(none, .mark .tilde), (none, .expr x)] ∧
      x.fits .plain := by
    simpa using h
  exact ⟨.expr (.unary .tilde x), rfl, by simpa [Operator.isUnary] using hx, by simp⟩

theorem yields_sliceType (h : Fits .sliceType ps) : Yields .sliceType ps := by
  obtain ⟨x, rfl, hx⟩ : ∃ x : Expr,
      ps = [(none, .mark .lbrack), (none, .mark .rbrack), (some .element, .expr x)] ∧
        x.fits .plain := by
    simpa using h
  exact ⟨.expr (.arrayType none x), rfl, by simpa using hx, by simp⟩

theorem yields_arrayType (h : Fits .arrayType ps) : Yields .arrayType ps := by
  obtain ⟨x, n, rfl, hn, hx⟩ : ∃ x n : Expr,
      ps = [(none, .mark .lbrack), (some .length, .expr n), (none, .mark .rbrack),
        (some .element, .expr x)] ∧ n.fits .plain ∧ x.fits .plain := by
    simpa using h
  have hn : n.fits .length := Expr.fits_of_plain hn (by decide)
  exact ⟨.expr (.arrayType (some n) x), rfl, by simpa using ⟨hn, hx⟩, by simp⟩

theorem yields_implicitLengthArrayType (h : Fits .implicitLengthArrayType ps) :
    Yields .implicitLengthArrayType ps := by
  obtain ⟨x, rfl, hx⟩ : ∃ x : Expr,
      ps = [(none, .mark .lbrack), (none, .mark .ellipsis), (none, .mark .rbrack),
        (some .element, .expr x)] ∧ x.fits .plain := by
    simpa using h
  exact ⟨.expr (.arrayType (some (.ellipsis none)) x), rfl, by simpa using hx, by simp⟩

theorem yields_mapType (h : Fits .mapType ps) : Yields .mapType ps := by
  obtain ⟨v, k, rfl, hk, hv⟩ : ∃ v k : Expr,
      ps = [(none, .mark .map), (none, .mark .lbrack), (some .key, .expr k), (none, .mark .rbrack),
        (some .value, .expr v)] ∧ k.fits .plain ∧ v.fits .plain := by
    simpa using h
  exact ⟨.expr (.mapType k v), rfl, by simpa using ⟨hk, hv⟩, by simp⟩

theorem yields_channelType (h : Fits .channelType ps) : Yields .channelType ps := by
  obtain ⟨x, hx, rfl | rfl | rfl⟩ : ∃ x : Expr, x.fits .plain ∧
      (ps = [(none, .mark .chan), (some .value, .expr x)] ∨
        ps = [(none, .mark .chan), (none, .mark .arrow), (some .value, .expr x)] ∨
        ps = [(none, .mark .arrow), (none, .mark .chan), (some .value, .expr x)]) := by
    have h : (∃ x, ps = [(none, .mark .chan), (some .value, .expr x)] ∧ x.fits .plain) ∨
        (∃ x, ps = [(none, .mark .chan), (none, .mark .arrow), (some .value, .expr x)] ∧
          x.fits .plain) ∨
        (∃ x, ps = [(none, .mark .arrow), (none, .mark .chan), (some .value, .expr x)] ∧
          x.fits .plain) := by
      simpa using h
    grind
  · exact ⟨.expr (.chanType .both x), rfl, by simpa using hx, by simp⟩
  · exact ⟨.expr (.chanType .send x), rfl, by simpa using hx, by simp⟩
  · exact ⟨.expr (.chanType .receive x), rfl, by simpa using hx, by simp⟩

theorem yields_structType (h : Fits .structType ps) : Yields .structType ps := by
  obtain ⟨fs, rfl, hfs⟩ : ∃ fs : List Field,
      ps = [(none, .mark .struct), (none, .members fs)] ∧ ∀ f ∈ fs, f.fits .plain := by
    simpa using h
  exact ⟨.expr (.structType fs), rfl, by simpa using hfs, by simp⟩

theorem yields_keyedElement (h : Fits .keyedElement ps) : Yields .keyedElement ps := by
  obtain ⟨v, k, rfl, hk, hv⟩ : ∃ v k : Expr,
      ps = [(some .key, .element k), (none, .mark .colon), (some .value, .element v)] ∧
        k.fits .entry ∧ v.fits .entry := by
    simpa using h
  exact ⟨.element (.keyValue k v), rfl, by simpa using ⟨hk, hv⟩, by simp⟩

theorem yields_literalElement (h : Fits .literalElement ps) : Yields .literalElement ps := by
  obtain ⟨x, rfl, hx⟩ | ⟨xs, rfl, hxs⟩ : (∃ x : Expr, ps = [(none, .expr x)] ∧ x.fits .plain) ∨
      (∃ xs : List Expr, ps = [(none, .elements xs)] ∧ ∀ x ∈ xs, x.fits .element) := by
    simpa using h
  · have hx : x.fits .entry := Expr.fits_of_plain hx (by decide)
    exact ⟨.element x, rfl, by simpa using hx, by simp⟩
  · exact ⟨.element (.compositeLit none xs), rfl, by simpa using hxs, by simp⟩

theorem yields_compositeLiteral (h : Fits .compositeLiteral ps) : Yields .compositeLiteral ps := by
  obtain ⟨xs, t, rfl, ht, hxs⟩ : ∃ (xs : List Expr) (t : Expr),
      ps = [(some .type, .expr t), (some .body, .elements xs)] ∧ t.fits .plain ∧
        ∀ x ∈ xs, x.fits .element := by
    obtain ⟨qs, xs, rfl, hqs, hxs⟩ : ∃ (qs : Parts) (xs : List Expr),
        ps = qs ++ ([(some .body, .elements xs)] : Parts) ∧
          ((∃ t : Expr, qs = [(some .type, .expr t)] ∧ t.fits .plain) ∨
            (∃ s, qs = [(some .type, .expr (.ident s))])) ∧ ∀ x ∈ xs, x.fits .element := by
      simp at h
      grind
    obtain ⟨t, rfl, ht⟩ | ⟨s, rfl⟩ := hqs
    · exact ⟨xs, t, rfl, ht, hxs⟩
    · exact ⟨xs, .ident s, rfl, rfl, hxs⟩
  exact ⟨.expr (.compositeLit (some t) xs), rfl, by simpa using ⟨ht, hxs⟩, by simp⟩

theorem yields_typeConversionExpression (h : Fits .typeConversionExpression ps) :
    Yields .typeConversionExpression ps := by
  obtain ⟨qs, x, t, rfl, ht, hx, hqs⟩ : ∃ (qs : Parts) (x t : Expr),
      ps = (some .type, .expr t) :: (none, .mark .lparen) :: (some .operand, .expr x) ::
        (qs ++ ([(none, .mark .rparen)] : Parts)) ∧ t.fits .plain ∧ x.fits .plain ∧
        (qs = [(none, .mark .comma)] ∨ qs = []) := by
    simpa using h
  refine ⟨.expr (.call t [x] false), rfl, by simpa using ⟨ht, hx⟩, ?_⟩
  rcases hqs with rfl | rfl <;> simp

/-! ### Operators -/

/-- One of several tokens that only mark a place. -/
theorem exists_mark_of_covers {hidden : RuleName → Option Grammar.Field → Parts → Prop}
    {ts : List Terminal} {field : Option Grammar.Field} (hne : ts ≠ [])
    (hts : ∀ t ∈ ts, t ≠ .lineBreak ∧ Category.ofToken t = .mark t)
    (h : Covers hidden (.oneOf (ts.map .token)) field ps) : ∃ t ∈ ts, ps = [(field, .mark t)] := by
  have one : ∀ t, t ≠ .lineBreak ∧ Category.ofToken t = .mark t →
      Covers hidden (.token t) field ps → ps = [(field, .mark t)] := by
    intro t ht h
    rw [Covers, if_neg ht.1, ht.2] at h
    simpa using h
  induction ts with
  | nil => exact absurd rfl hne
  | cons t ts ih =>
    obtain ⟨ht, hts⟩ := List.forall_mem_cons.mp hts
    cases ts with
    | nil => exact ⟨t, by simp, one t ht h⟩
    | cons u us =>
      rcases h with h | h
      · exact ⟨t, by simp, one t ht h⟩
      · obtain ⟨v, hv, hps⟩ := ih (by simp) hts h
        exact ⟨v, List.mem_cons_of_mem t hv, hps⟩

/-- The tokens between two expressions. -/
def binaryTokens : List Terminal :=
  multiplicative ++ additive ++ comparative ++ ([.andAnd, .orOr] : List Terminal)

theorem exists_of_covers_binary {depth : Nat} {rank : Int} {ts : List Terminal} (hne : ts ≠ [])
    (hts : ∀ t ∈ ts, t ∈ binaryTokens)
    (h : Covers (CoversHidden (depth + 1)) (binary rank ts) none ps) :
    ∃ t ∈ binaryTokens, ∃ x y : Expr,
      ps = [(some .left, .expr x), (some .operator, .mark t), (some .right, .expr y)] ∧
        x.fits .plain ∧ y.fits .plain := by
  obtain ⟨qs, y, x, rfl, hx, hqs, hy⟩ : ∃ (qs : Parts) (y x : Expr),
      ps = (some .left, .expr x) :: (qs ++ ([(some .right, .expr y)] : Parts)) ∧ x.fits .plain ∧
        Covers (CoversHidden (depth + 1)) (.oneOf (ts.map .token)) (some .operator) qs ∧
        y.fits .plain := by
    simpa [binary] using h
  have marks : ∀ t ∈ binaryTokens, t ≠ .lineBreak ∧ Category.ofToken t = .mark t := by decide
  obtain ⟨t, ht, rfl⟩ := exists_mark_of_covers hne (fun t ht => marks t (hts t ht)) hqs
  exact ⟨t, hts t ht, x, y, rfl, hx, hy⟩

theorem yields_binaryExpression (h : Fits .binaryExpression ps) : Yields .binaryExpression ps := by
  obtain ⟨t, ht, x, y, rfl, hx, hy⟩ : ∃ t ∈ binaryTokens, ∃ x y : Expr,
      ps = [(some .left, .expr x), (some .operator, .mark t), (some .right, .expr y)] ∧
        x.fits .plain ∧ y.fits .plain := by
    rcases h with h | h | h | h | h
    all_goals exact exists_of_covers_binary (by decide) (by decide) h
  obtain ⟨op, hop, hbinary⟩ : ∃ op, (Fragment.mark t).operator? = some op ∧ op.isBinary := by
    have : ∀ t ∈ binaryTokens, ((Fragment.mark t).operator?).any Operator.isBinary := by decide
    simpa [Option.any_eq_true] using this t ht
  refine ⟨.expr (.binary x op y), ?_, by simpa using ⟨⟨hx, hbinary⟩, hy⟩, by simp⟩
  simp [Parts.get?, Fragment.expr?, hop]

/-- The tokens before an expression. -/
def unaryTokens : List Terminal := [.plus, .minus, .bang, .caret, .star, .amp, .arrow]

theorem yields_unaryExpression (h : Fits .unaryExpression ps) : Yields .unaryExpression ps := by
  obtain ⟨qs, x, rfl, hqs, hx⟩ : ∃ (qs : Parts) (x : Expr),
      ps = qs ++ ([(some .operand, .expr x)] : Parts) ∧
        Covers (CoversHidden 3) (.oneOf (unaryTokens.map .token)) (some .operator) qs ∧
        x.fits .plain := by
    simpa [unaryTokens] using h
  obtain ⟨t, ht, rfl⟩ := exists_mark_of_covers (by decide) (by decide) hqs
  obtain ⟨op, hop, hunary⟩ : ∃ op, (Fragment.mark t).operator? = some op ∧
      (op = .mul ∨ op.isUnary) := by
    have : ∀ t ∈ unaryTokens,
        ((Fragment.mark t).operator?).any fun op => op = .mul ∨ op.isUnary := by decide
    simpa [Option.any_eq_true] using this t ht
  refine ⟨.expr (if op = .mul then .star x else .unary op x), ?_, ?_, ?_⟩
  · simp [unary?, Parts.get?, Fragment.expr?, hop]
  · split <;> simp_all
  · split <;> simp

/-! ### Parts that may be absent -/

theorem yields_sliceExpression (h : Fits .sliceExpression ps) : Yields .sliceExpression ps := by
  obtain ⟨qs, x, rfl, hx, hqs⟩ : ∃ (qs : Parts) (x : Expr),
      ps = (some .operand, .expr x) :: (none, .mark .lbrack) ::
          (qs ++ ([(none, .mark .rbrack)] : Parts)) ∧
        x.fits .plain ∧
        ((∃ high low : Option Expr,
            qs = Parts.optional .start (low.map .expr) ++
              (none, .mark .colon) :: Parts.optional .end_ (high.map .expr) ∧
              (∀ y ∈ low, y.fits .plain) ∧ ∀ y ∈ high, y.fits .plain) ∨
          ∃ (max high : Expr) (low : Option Expr),
            qs = Parts.optional .start (low.map .expr) ++
              ([(none, .mark .colon), (some .end_, .expr high), (none, .mark .colon),
                (some .capacity, .expr max)] : Parts) ∧
              (∀ y ∈ low, y.fits .plain) ∧ high.fits .plain ∧ max.fits .plain) := by
    simpa [exists_optional_iff] using h
  obtain ⟨high, low, rfl, hlow, hhigh⟩ | ⟨max, high, low, rfl, hlow, hhigh, hmax⟩ := hqs
  · refine ⟨.expr (.slice x low high none), ?_, ?_, ?_⟩
    · cases low <;> cases high <;> rfl
    · simpa [Option.all_eq_true] using ⟨⟨hx, hlow⟩, hhigh⟩
    · simp [Function.comp_def]
  · refine ⟨.expr (.slice x low (some high) (some max)), ?_, ?_, ?_⟩
    · cases low <;> rfl
    · simpa [Option.all_eq_true] using ⟨⟨⟨hx, hlow⟩, hhigh⟩, hmax⟩
    · simp [Function.comp_def]

theorem fits_instantiate {x : Expr} {args : List Expr} (hx : x.fits .plain) (hne : args ≠ [])
    (hargs : ∀ y ∈ args, y.fits .plain) : (instantiate x args).fits .plain := by
  match args with
  | [] => exact absurd rfl hne
  | [y] => simpa [instantiate] using ⟨hx, hargs y (by simp)⟩
  | y :: z :: more => simpa [instantiate, hx] using hargs

@[simp] theorem words_instantiate (x : Expr) (args : List Expr) :
    (instantiate x args).words = x.words ++ args.flatMap Expr.words := by
  match args with
  | [] => simp [instantiate]
  | [y] => simp [instantiate]
  | y :: z :: more => simp [instantiate]

theorem yields_genericType (h : Fits .genericType ps) : Yields .genericType ps := by
  obtain ⟨t, args, rfl, ht, hne, hargs⟩ : ∃ (t : Expr) (args : List Expr),
      ps = [(some .type, .expr t), (some .typeArguments, .typeArgs args)] ∧ t.fits .plain ∧
        args ≠ [] ∧ ∀ y ∈ args, y.fits .plain := by
    obtain ⟨qs, args, rfl, hqs, hargs⟩ : ∃ (qs : Parts) (args : List Expr),
        ps = qs ++ ([(some .typeArguments, .typeArgs args)] : Parts) ∧
          ((∃ s, qs = [(some .type, .expr (.ident s))]) ∨
            (∃ t : Expr, qs = [(some .type, .expr t)] ∧ t.fits .plain)) ∧
          args ≠ [] ∧ ∀ y ∈ args, y.fits .plain := by
      simpa using h
    obtain ⟨s, rfl⟩ | ⟨t, rfl, ht⟩ := hqs
    · exact ⟨.ident s, args, rfl, rfl, hargs⟩
    · exact ⟨t, args, rfl, ht, hargs⟩
  exact ⟨.expr (instantiate t args), rfl, by simpa using fits_instantiate ht hne hargs, by simp⟩

theorem yields_callExpression (h : Fits .callExpression ps) : Yields .callExpression ps := by
  obtain ⟨fn, types, args, isSpread, rfl, hfn, htypes, hargs⟩ :
      ∃ (fn : Expr) (types : Option (List Expr)) (args : List Expr) (isSpread : Bool),
        ps = (some .function, .expr fn) :: (Parts.optional .typeArguments (types.map .typeArgs) ++
          ([(some .arguments, .args args isSpread)] : Parts)) ∧ fn.fits .plain ∧
          (∀ ts ∈ types, ts ≠ [] ∧ ∀ t ∈ ts, t.fits .plain) ∧ ∀ x ∈ args, x.fits .plain := by
    have cases : (∃ (args : List Expr) (s : String) (isSpread : Bool),
          ps = [(some .function, .expr (.ident s)), (some .arguments, .args args isSpread)] ∧
            ∀ x ∈ args, x.fits .plain) ∨
        (∃ (args : List Expr) (types : Option (List Expr)) (fn : Expr) (isSpread : Bool),
          ps = (some .function, .expr fn) ::
            (Parts.optional .typeArguments (types.map .typeArgs) ++
              ([(some .arguments, .args args isSpread)] : Parts)) ∧ fn.fits .plain ∧
            (∀ ts ∈ types, ts ≠ [] ∧ ∀ t ∈ ts, t.fits .plain) ∧ ∀ x ∈ args, x.fits .plain) := by
      simpa [allocator, exists_optional_iff, -Bool.exists_bool] using h
    obtain ⟨args, s, isSpread, rfl, hargs⟩ | ⟨args, types, fn, isSpread, h⟩ := cases
    · exact ⟨.ident s, none, args, isSpread, rfl, rfl, by simp, hargs⟩
    · exact ⟨fn, types, args, isSpread, h⟩
  cases types with
  | none => exact ⟨.expr (.call fn args isSpread), rfl, by simpa using ⟨hfn, hargs⟩, by simp⟩
  | some ts =>
    obtain ⟨hne, hts⟩ := htypes ts rfl
    refine ⟨.expr (.call (instantiate fn ts) args isSpread), rfl, ?_, by simp⟩
    simpa using ⟨fits_instantiate hfn hne hts, hargs⟩

/-! ### Lists -/

theorem yields_of_args {n : RuleName} (hn : n.category = .args) (hps : ofExprRule? n ps = args? ps)
    (list : ∀ p ∈ ps, InList none [.expr, .spread] p) : Yields n ps := by
  obtain ⟨ys, hys, hgood, hwords, -⟩ := Parts.exists_mapM_named Fragment.arg?
    (fun y => y.1.fits .plain = true) (fun y => y.1.words) list (by
      simp only [List.forall_mem_cons, List.not_mem_nil, false_implies, implies_true, and_true]
      constructor
      · rintro p ⟨x, rfl, hx⟩
        exact ⟨(x, false), rfl, hx, rfl⟩
      · rintro p ⟨x, rfl, hx⟩
        exact ⟨(x, true), rfl, hx, rfl⟩)
  refine ⟨.args (ys.map (·.1)) (ys.any (·.2)), ?_, ?_, ?_⟩
  · simp [-ofExprRule?, hps, args?, hys]
  · rw [hn]
    exact ⟨_, _, rfl, List.forall_mem_map.mpr hgood⟩
  · rw [← hwords, Fragment.words, List.flatMap_map]

theorem yields_argumentList (h : Fits .argumentList ps) : Yields .argumentList ps :=
  yields_of_args rfl rfl (Covers.inList h none _ (by decide))

theorem yields_specialArgumentList (h : Fits .specialArgumentList ps) :
    Yields .specialArgumentList ps :=
  yields_of_args rfl rfl (Covers.inList h none _ (by decide))

theorem yields_literalValue (h : Fits .literalValue ps) : Yields .literalValue ps := by
  obtain ⟨xs, hxs, hfits, hwords, -⟩ := Parts.exists_mapM_named Fragment.element?
    (fun x => x.fits .element = true) Expr.words (Covers.inList h none [.element] (by decide)) (by
      simp only [List.mem_singleton, forall_eq]
      rintro p ⟨x, rfl, hx⟩
      exact ⟨x, rfl, hx, rfl⟩)
  exact ⟨.elements xs, by simp [hxs], ⟨xs, rfl, hfits⟩, hwords⟩

theorem yields_interfaceType (h : Fits .interfaceType ps) : Yields .interfaceType ps := by
  obtain ⟨fs, hfs, hfits, hwords, -⟩ := Parts.exists_mapM_named Fragment.interfaceElement?
    (fun f => f.fits .plain = true) Field.words
    (Covers.inList h none [.method, .expr] (by decide)) (by
      simp only [List.forall_mem_cons, List.not_mem_nil, false_implies, implies_true, and_true]
      constructor
      · rintro p ⟨f, rfl, hf⟩
        exact ⟨f, rfl, hf, rfl⟩
      · rintro p ⟨x, rfl, hx⟩
        exact ⟨.mk [] x none, rfl, by simpa [Field.fits] using hx, by simp [Field.words]⟩)
  exact ⟨.expr (.interfaceType fs), by simp [hfs],
    by simpa using hfits, by simpa using hwords⟩

theorem yields_typeArguments (h : Fits .typeArguments ps) : Yields .typeArguments ps := by
  obtain ⟨xs, hxs, hfits, hwords, hlen⟩ :=
    Parts.exists_exprs (Covers.inList h none [.expr] (by decide))
  have hne : xs ≠ [] := by
    obtain ⟨as, bs, rfl, -, qs, rs, rfl, hqs, -⟩ := h
    have := named_ne_nil_of_covers_sep1 hqs (by
      rintro qs ⟨p, rfl, x, rfl, -⟩
      simp)
    rw [← List.length_pos_iff, hlen]
    exact List.length_pos_iff.mpr (by simp [this])
  exact ⟨.typeArgs xs, by simp [hxs], ⟨xs, rfl, hne, hfits⟩, hwords⟩

theorem yields_typeInstantiationExpression (h : Fits .typeInstantiationExpression ps) :
    Yields .typeInstantiationExpression ps := by
  obtain ⟨qs, rs, rfl, hqs, hrs⟩ := h
  obtain ⟨t, rfl, ht⟩ := covers_anyType.mp hqs
  have list := Covers.inList hrs none [.expr] (by decide)
  obtain ⟨xs, hxs, hfits, hwords, hlen⟩ := Parts.exists_exprs list
  have hne : xs ≠ [] := by
    obtain ⟨as, bs, rfl, -, us, vs, rfl, hus, -⟩ := hrs
    have := named_ne_nil_of_covers_sep1 hus (by
      intro us hus
      obtain ⟨x, rfl, -⟩ := covers_anyType.mp hus
      simp)
    rw [← List.length_pos_iff, hlen]
    exact List.length_pos_iff.mpr (by simp [this])
  refine ⟨.expr (instantiate t xs), ?_, ⟨_, rfl, fits_instantiate ht hne hfits⟩, ?_⟩
  · simp [Parts.get?, Fragment.expr?, Parts.others_of_inList list, hxs]
  · simp [hwords]

/-- Types with bars between them. -/
theorem fits_union {x : Expr} {more : List Expr} (hx : x.fits .plain)
    (hmore : ∀ y ∈ more, y.fits .plain) :
    (more.foldl (fun acc y => .binary acc .or y) x).fits .plain := by
  induction more generalizing x with
  | nil => exact hx
  | cons y more ih =>
    obtain ⟨hy, hmore⟩ := List.forall_mem_cons.mp hmore
    exact ih (by simpa [Operator.isBinary] using ⟨hx, hy⟩) hmore

theorem words_union (x : Expr) (more : List Expr) :
    (more.foldl (fun acc y => .binary acc .or y) x).words =
      x.words ++ more.flatMap Expr.words := by
  induction more generalizing x with
  | nil => simp
  | cons y more ih => rw [List.foldl_cons, ih]; simp

theorem yields_typeElem (h : Fits .typeElem ps) : Yields .typeElem ps := by
  obtain ⟨xs, hxs, hfits, hwords, hlen⟩ :=
    Parts.exists_exprs (Covers.inList h none [.expr] (by decide))
  have hne := named_ne_nil_of_covers_sep1 h (by
    intro qs hqs
    obtain ⟨x, rfl, -⟩ := covers_anyType.mp hqs
    simp)
  cases xs with
  | nil => exact absurd (List.length_eq_zero_iff.mp hlen.symm) hne
  | cons x more =>
    obtain ⟨hx, hmore⟩ := List.forall_mem_cons.mp hfits
    refine ⟨.expr _, ?_, ⟨_, rfl, fits_union hx hmore⟩, ?_⟩
    · simp [union?, hxs]
    · rw [← hwords]
      exact words_union x more

/-- The parts of a list of expressions: expressions with commas between them. -/
def operandParts (x : Expr) (xs : List Expr) : Parts :=
  (none, .expr x) :: xs.flatMap fun y => [(none, .mark .comma), (none, .expr y)]

/-- Stretches of one form, one after the other. -/
theorem exists_flatMap_of_forall_mem {α β : Type} {P : α → Prop} {stretch : α → List β}
    {qss : List (List β)} (h : ∀ qs ∈ qss, ∃ x, qs = stretch x ∧ P x) :
    ∃ xs : List α, qss.flatten = xs.flatMap stretch ∧ ∀ x ∈ xs, P x := by
  induction qss with
  | nil => exact ⟨[], rfl, by simp⟩
  | cons qs qss ih =>
    obtain ⟨⟨x, rfl, hx⟩, hqss⟩ := List.forall_mem_cons.mp h
    obtain ⟨xs, hxs, hP⟩ := ih hqss
    exact ⟨x :: xs, by rw [List.flatten_cons, hxs, List.flatMap_cons],
      List.forall_mem_cons.mpr ⟨hx, hP⟩⟩

theorem exists_operandParts (h : Fits .expressionList ps) :
    ∃ x xs, ps = operandParts x xs ∧ x.fits .plain ∧ ∀ y ∈ xs, y.fits .plain := by
  obtain ⟨qss, x, rfl, hx, hqss⟩ : ∃ (qss : List Parts) (x : Expr),
      ps = (none, .expr x) :: qss.flatten ∧ x.fits .plain ∧
        ∀ qs ∈ qss, ∃ y : Expr, qs = [(none, .mark .comma), (none, .expr y)] ∧ y.fits .plain := by
    simpa using h
  obtain ⟨xs, hxs, hfits⟩ := exists_flatMap_of_forall_mem hqss
  exact ⟨x, xs, by rw [operandParts, hxs], hx, hfits⟩

theorem mapM_expr?_operandParts (x : Expr) (xs : List Expr) :
    (operandParts x xs).named.mapM Fragment.expr? = some (x :: xs) := by
  have tail : (Parts.named (xs.flatMap fun y =>
      [(none, .mark .comma), (none, .expr y)])).mapM Fragment.expr? = some xs := by
    induction xs with
    | nil => rfl
    | cons y xs ih => simp [Fragment.expr?, ih]
  simp [operandParts, Fragment.expr?, tail]

theorem words_operandParts (x : Expr) (xs : List Expr) :
    (operandParts x xs).words = (x :: xs).flatMap Expr.words := by
  have tail : Parts.words (xs.flatMap fun y => [(none, .mark .comma), (none, .expr y)]) =
      xs.flatMap Expr.words := by
    induction xs with
    | nil => rfl
    | cons y xs ih => simp [ih]
  simp [operandParts, tail]

/-- The first two expressions are the first three parts, the comma counted in. -/
theorem words_take_operandParts (x : Expr) (xs : List Expr) :
    Parts.words ((operandParts x xs).take 3) = ((x :: xs).take 2).flatMap Expr.words := by
  cases xs <;> simp [operandParts]

theorem ofRule?_operandParts (x : Expr) (xs : List Expr) :
    ofRule? .expressionList (operandParts x xs) = some (.exprs (x :: xs)) := by
  simp [mapM_expr?_operandParts]

theorem yields_expressionList (h : Fits .expressionList ps) : Yields .expressionList ps := by
  obtain ⟨x, xs, rfl, hx, hxs⟩ := exists_operandParts h
  exact ⟨.exprs (x :: xs), ofRule?_operandParts x xs,
    ⟨_, rfl, List.cons_ne_nil x xs, List.forall_mem_cons.mpr ⟨hx, hxs⟩⟩,
    (words_operandParts x xs).symm⟩

/-! ### Signatures -/

/-- Whether a contribution is what a function gives back: a list of results, or one type. -/
def Fragment.IsResult (p : Fragment) : Prop := p.Is .params ∨ p.Is .expr

theorem exists_result_of_covers {depth : Nat} {field : Option Grammar.Field}
    (h : Covers (CoversHidden (depth + 1)) resultType field ps) :
    ∃ r, ps = Parts.optional .result r ∧ ∀ p ∈ r, p.IsResult := by
  obtain (⟨fs, rfl, hfs⟩ | ⟨x, rfl, hx⟩) | rfl :
      ((∃ fs : List Field, ps = [(some .result, .params fs)] ∧ ∀ f ∈ fs, f.fits .parameter) ∨
        ∃ x : Expr, ps = [(some .result, .expr x)] ∧ x.fits .plain) ∨ ps = [] := by
    simpa [resultType] using h
  · exact ⟨some (.params fs), rfl, by simpa [Fragment.IsResult] using hfs⟩
  · exact ⟨some (.expr x), rfl, by simpa [Fragment.IsResult] using hx⟩
  · exact ⟨none, rfl, by simp⟩

/-- A signature can be read from its parameters and its result. -/
theorem exists_signature {fs : List Field} {r : Option Fragment}
    (hparams : ps.part? .parameters = some (.params fs)) (hresult : ps.part? .result = r)
    (hr : ∀ p ∈ r, p.IsResult) :
    ∃ results, signature? ps = some (.mk [] fs results) ∧ (∀ f ∈ results, f.fits .parameter) ∧
      results.flatMap Field.words = r.elim [] Fragment.words := by
  have hget : ps.get? .parameters Fragment.params? = some fs := Parts.get?_of_part? hparams
  obtain ⟨o, ho, hfits, hwords⟩ : ∃ o, ps.optional? .result Fragment.results? = some o ∧
      (∀ f ∈ o.getD [], f.fits .parameter) ∧
      (o.getD []).flatMap Field.words = r.elim [] Fragment.words := by
    cases r with
    | none => exact ⟨none, by rw [Parts.optional?, hresult], by simp, rfl⟩
    | some p =>
      rcases hr p rfl with ⟨gs, rfl, hgs⟩ | ⟨x, rfl, hx⟩
      · exact ⟨some gs, by rw [Parts.optional?, hresult]; rfl, hgs, rfl⟩
      · have hx : x.fits .parameter := Expr.fits_of_plain hx (by decide)
        exact ⟨some [.mk [] x none], by rw [Parts.optional?, hresult]; rfl,
          by simpa [Field.fits] using hx, by simp [Field.words]⟩
  exact ⟨o.getD [], by simp [signature?, hget, ho], hfits, hwords⟩

theorem yields_functionType (h : Fits .functionType ps) : Yields .functionType ps := by
  obtain ⟨rs, fs, hps, hfs, hrs⟩ : ∃ (rs : Parts) (fs : List Field),
      ps = (none, .mark .func) :: (some .parameters, .params fs) :: rs ∧
        (∀ f ∈ fs, f.fits .parameter) ∧ Covers (CoversHidden 3) resultType none rs := by
    simpa using h
  obtain ⟨r, rfl, hr⟩ := exists_result_of_covers hrs
  have hparams : ps.part? .parameters = some (.params fs) := by simp [hps]
  have hresult : ps.part? .result = r := by simp [hps]
  obtain ⟨results, hsig, hresults, hwords⟩ := exists_signature hparams hresult hr
  refine ⟨.expr (.funcType (.mk [] fs results)), ?_, ?_, ?_⟩
  · simp [hsig]
  · simpa [FuncType.fits] using ⟨hfs, hresults⟩
  · simp [hps, FuncType.words, hwords]

theorem yields_funcLiteral (h : Fits .funcLiteral ps) : Yields .funcLiteral ps := by
  obtain ⟨rs, body, fs, hps, hfs, hrs, hbody⟩ : ∃ (rs : Parts) (body : List Stmt) (fs : List Field),
      ps = (none, .mark .func) :: (some .parameters, .params fs) ::
        (rs ++ ([(some .body, .block body)] : Parts)) ∧
        (∀ f ∈ fs, f.fits .parameter) ∧ Covers (CoversHidden 3) resultType none rs ∧
        ∀ s ∈ body, s.fits .plain := by
    simpa using h
  obtain ⟨r, rfl, hr⟩ := exists_result_of_covers hrs
  have hparams : ps.part? .parameters = some (.params fs) := by simp [hps]
  have hresult : ps.part? .result = r := by simp [hps]
  have hblock : ps.get? .body Fragment.block? = some body :=
    Parts.get?_of_part? (p := .block body) (by simp [hps])
  obtain ⟨results, hsig, hresults, hwords⟩ := exists_signature hparams hresult hr
  refine ⟨.expr (.funcLit (.mk [] fs results) body), ?_, ?_, ?_⟩
  · simp [hsig, hblock]
  · simpa [FuncType.fits] using ⟨⟨hfs, hresults⟩, hbody⟩
  · simp [hps, FuncType.words, hwords]

end GoOutline.Syntax

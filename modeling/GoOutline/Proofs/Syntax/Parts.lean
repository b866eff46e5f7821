import GoOutline.Proofs.Syntax.Cover
import GoOutline.Proofs.Syntax.Words

/-!
# Parts in the order of a rule

What `Covers` says of the building blocks of the grammar, and how parts are found again in the order
in which a rule has them.

* `coversHidden_expression`, …: what the hidden rules stand for.
* `Parts.optional`: a part that may be absent.
* `symbolsOf`: the sorts of the parts that a right-hand side can describe.
* `InList`: a part is a mark, or an item of a list. `Parts.exists_mapM_named` says that the items of a
  list can all be read.
* `Yields`: the parts of a node can be put together.
-/

namespace GoOutline.Syntax

open GoOutline.Grammar (Terminal RuleName Rule anyType allocator stringLiteral typeIdentifier)

/-! ### Looking up parts -/

@[simp] theorem Fragment.isPart_mark (t : Terminal) : (Fragment.mark t).isPart = false := rfl

@[simp] theorem Fragment.isPart_expr (x : Expr) : (Fragment.expr x).isPart = true := rfl

namespace Parts

variable {ps qs : Parts} {f g : Grammar.Field} {field : Option Grammar.Field} {p : Fragment}

@[simp] theorem part?_nil : Parts.part? [] f = none := rfl

@[simp] theorem part?_cons :
    Parts.part? ((field, p) :: ps) f = if field = some f then some p else Parts.part? ps f := by
  by_cases h : field = some f <;> simp [part?, h]

@[simp] theorem part?_append :
    Parts.part? (ps ++ qs) f = (Parts.part? ps f).or (Parts.part? qs f) := by
  simp [part?, Option.map_or]

@[simp] theorem named_nil : Parts.named [] = [] := rfl

@[simp] theorem named_cons :
    Parts.named ((field, p) :: ps) = if p.isPart then p :: Parts.named ps else Parts.named ps := by
  cases h : p.isPart <;> simp [named, h]

@[simp] theorem named_append : Parts.named (ps ++ qs) = Parts.named ps ++ Parts.named qs := by
  simp [named]

@[simp] theorem others_nil : Parts.others [] = [] := rfl

@[simp] theorem others_cons :
    Parts.others ((field, p) :: ps) =
      if field = none ∧ p.isPart then p :: Parts.others ps else Parts.others ps := by
  cases field <;> cases h : p.isPart <;> simp [others, h]

@[simp] theorem others_append : Parts.others (ps ++ qs) = Parts.others ps ++ Parts.others qs := by
  simp [others]

@[simp] theorem parts_nil : Parts.parts [] f = [] := rfl

@[simp] theorem parts_cons :
    Parts.parts ((field, p) :: ps) f =
      if field = some f ∧ p.isPart then p :: Parts.parts ps f else Parts.parts ps f := by
  by_cases hf : field = some f <;> cases h : p.isPart <;> simp [parts, h, hf]

@[simp] theorem parts_append :
    Parts.parts (ps ++ qs) f = Parts.parts ps f ++ Parts.parts qs f := by
  simp [parts]

theorem get?_of_part? {α : Type} {as : Fragment → Option α} (h : ps.part? f = some p) :
    ps.get? f as = as p := by
  rw [get?, h, Option.bind_some]

/-! ### Parts that may be absent -/

/-- A part that may be absent. -/
def optional (f : Grammar.Field) (p : Option Fragment) : Parts := p.toList.map (some f, ·)

variable {o : Option Fragment}

@[simp] theorem part?_optional :
    Parts.part? (optional g o) f = if g = f then o else none := by
  cases o <;> simp [optional]

@[simp] theorem others_optional : Parts.others (optional g o) = [] := by
  cases o <;> simp [optional]

@[simp] theorem parts_optional (h : g ≠ f) : Parts.parts (optional g o) f = [] := by
  cases o <;> simp [optional, h]

@[simp] theorem words_optional : Parts.words (optional f o) = o.elim [] Fragment.words := by
  cases o <;> simp [optional]

/-- A part that may be absent, as a value that may be absent. -/
theorem optional?_of_part? {α : Type} {as : Fragment → Option α} {c : α → Fragment} {x : Option α}
    (h : ps.part? f = x.map c) (hc : ∀ x, as (c x) = some x) : ps.optional? f as = some x := by
  cases x with
  | none => rw [optional?, h]; rfl
  | some x =>
    rw [optional?, h]
    show (as (c x)).map some = some (some x)
    rw [hc, Option.map_some]

end Parts

/-- A part that is there or not is one that may be absent. -/
theorem exists_optional_iff {α : Type} {c : α → Fragment} {P : α → Prop} {f : Grammar.Field}
    {ps : Parts} :
    ((∃ x, ps = [(some f, c x)] ∧ P x) ∨ ps = []) ↔
      ∃ x : Option α, ps = Parts.optional f (x.map c) ∧ ∀ y ∈ x, P y := by
  constructor
  · rintro (⟨x, rfl, hx⟩ | rfl)
    · exact ⟨some x, rfl, by simpa using hx⟩
    · exact ⟨none, rfl, by simp⟩
  · rintro ⟨_ | x, rfl, h⟩
    · exact .inr rfl
    · exact .inl ⟨x, rfl, h x rfl⟩

/-! ### Building blocks of the grammar -/

attribute [simp] Covers Fits hiddenDepth Rule.chain Rule.oneOf Rule.opt Rule.rank Rule.left
  Rule.right Rule.sep1 Rule.commas1 Rule.commas Rule.sepTrailing RuleName.isHidden RuleName.category
  Category.ofToken Fragment.Is

section

variable {hidden : RuleName → Option Grammar.Field → Parts → Prop} {depth : Nat}
  {field : Option Grammar.Field} {ps : Parts}

@[simp] theorem covers_many {r : Rule} :
    Covers hidden (.many r) field ps ↔
      ∃ qss : List Parts, ps = qss.flatten ∧ ∀ qs ∈ qss, Covers hidden r field qs := by
  constructor
  · rintro (⟨qss, _, h⟩ | rfl)
    · exact ⟨qss, h⟩
    · exact ⟨[], rfl, by simp⟩
  · rintro ⟨_ | ⟨qs, qss⟩, rfl, h⟩
    · exact .inr rfl
    · exact .inl ⟨qs :: qss, by simp, rfl, h⟩

/-- An expression, whatever its rule. -/
@[simp] theorem coversHidden_expression :
    CoversHidden (depth + 1) .expression field ps ↔
      ∃ x : Expr, ps = [(field, .expr x)] ∧ x.fits .plain := by
  constructor
  · intro h
    have cases : (∃ x, ps = [(field, .expr x)] ∧ x.fits .plain) ∨
        (∃ s, ps = [(field, .expr (.ident s))]) ∨
        (∃ k s, ps = [(field, .expr (.basicLit k s))]) := by
      simp [CoversHidden, RuleName.body, allocator, stringLiteral] at h
      grind
    obtain h | ⟨s, rfl⟩ | ⟨k, s, rfl⟩ := cases
    · exact h
    · exact ⟨_, rfl, rfl⟩
    · exact ⟨_, rfl, rfl⟩
  · intro h
    exact .inl (by simpa using h)

/-- A type, whatever its rule. -/
@[simp] theorem coversHidden_simpleType :
    CoversHidden (depth + 1) .simpleType field ps ↔
      ∃ x : Expr, ps = [(field, .expr x)] ∧ x.fits .plain := by
  constructor
  · intro h
    have cases : (∃ s, ps = [(field, .expr (.ident s))]) ∨
        (∃ x, ps = [(field, .expr x)] ∧ x.fits .plain) := by
      simpa [CoversHidden, RuleName.body, typeIdentifier] using h
    obtain ⟨s, rfl⟩ | h := cases
    · exact ⟨_, rfl, rfl⟩
    · exact h
  · intro h
    exact .inr (.inl (by simpa using h))

@[simp] theorem covers_anyType :
    Covers (CoversHidden (depth + 1)) anyType field ps ↔
      ∃ x : Expr, ps = [(field, .expr x)] ∧ x.fits .plain := by
  simp [anyType]

@[simp] theorem covers_stringLiteral :
    Covers hidden stringLiteral field ps ↔
      ∃ s, ps = [(field, .expr (.basicLit .string s))] := by
  simp [stringLiteral]

@[simp] theorem coversHidden_simpleStatement :
    CoversHidden (depth + 1) .simpleStatement field ps ↔
      ∃ s : Stmt, ps = [(field, .stmt s)] ∧ s.fits .plain := by
  simp [CoversHidden, RuleName.body]

@[simp] theorem coversHidden_declaration :
    CoversHidden (depth + 1) .declaration field ps ↔
      ∃ keyword, ∃ ss : List Spec, ps = [(field, .decl keyword ss)] ∧
        ∀ s ∈ ss, s.fits keyword := by
  simp only [CoversHidden, RuleName.body]
  constructor
  · intro h
    simp at h
    grind
  · rintro ⟨_ | _ | _, ss, rfl, h⟩ <;> simpa using h

/-- Whether a contribution is a statement that may stand in a block. -/
def Fragment.IsStatement (p : Fragment) : Prop :=
  ∃ s : Stmt, p.stmt? = some s ∧ s.fits .plain ∧ s.words = p.words ∧ p.isPart

/-- A statement, whatever its rule. -/
theorem coversHidden_statement (h : CoversHidden (depth + 2) .statement field ps) :
    ∃ p : Fragment, ps = [(field, p)] ∧ p.IsStatement := by
  have cases : (∃ k ss, ps = [(field, .decl k ss)] ∧ ∀ s ∈ ss, s.fits k) ∨
      (∃ s, ps = [(field, .stmt s)] ∧ s.fits .plain) ∨
      (∃ ss, ps = [(field, .block ss)] ∧ ∀ s ∈ ss, s.fits .plain) := by
    rw [CoversHidden] at h
    simp [RuleName.body] at h
    grind
  obtain ⟨k, ss, rfl, hss⟩ | ⟨s, rfl, hs⟩ | ⟨ss, rfl, hss⟩ := cases
  · exact ⟨_, rfl, .decl k ss, rfl, by simpa [Stmt.fits] using hss,
      by simp [Stmt.words, Fragment.words], rfl⟩
  · exact ⟨_, rfl, s, rfl, hs, rfl, rfl⟩
  · exact ⟨_, rfl, .block ss, rfl, by simpa [Stmt.fits] using hss,
      by simp [Stmt.words, Fragment.words], rfl⟩

end

/-! ### The symbols of a rule -/

/-- The fields and sorts of the parts that a right-hand side can describe. -/
def symbolsOf (hidden : RuleName → Option Grammar.Field → List (Option Grammar.Field × Category)) :
    Rule → Option Grammar.Field → List (Option Grammar.Field × Category)
  | .empty, _ => []
  | .token t, field => if t = .lineBreak then [] else [(field, .ofToken t)]
  | .rule n, field => if n.isHidden then hidden n field else [(field, n.category)]
  | .seq a b, field => symbolsOf hidden a field ++ symbolsOf hidden b field
  | .alt a b, field => symbolsOf hidden a field ++ symbolsOf hidden b field
  | .many1 r, field => symbolsOf hidden r field
  | .field f r, _ => symbolsOf hidden r (some f)
  | .role _ r, field => symbolsOf hidden r field
  | .prec _ _ r, field => symbolsOf hidden r field
  | .dynamic _ r, field => symbolsOf hidden r field

/-- `symbolsOf` for hidden rules that are nested at most `depth` deep. -/
def symbolsOfHidden : (depth : Nat) → RuleName → Option Grammar.Field →
    List (Option Grammar.Field × Category)
  | 0, _, _ => []
  | depth + 1, n, field => symbolsOf (symbolsOfHidden depth) n.body field

/-- Every part that a right-hand side describes is one of its symbols. -/
theorem exists_symbol_of_covers {covered : RuleName → Option Grammar.Field → Parts → Prop}
    {hidden : RuleName → Option Grammar.Field → List (Option Grammar.Field × Category)}
    (hhidden : ∀ n field ps, covered n field ps →
      ∀ p ∈ ps, ∃ c, (p.1, c) ∈ hidden n field ∧ p.2.Is c)
    {r : Rule} {field : Option Grammar.Field} {ps : Parts} (h : Covers covered r field ps) :
    ∀ p ∈ ps, ∃ c, (p.1, c) ∈ symbolsOf hidden r field ∧ p.2.Is c := by
  induction r generalizing field ps with
  | empty =>
    obtain rfl := h
    simp
  | token t =>
    rw [Covers] at h
    rw [symbolsOf]
    split at h
    · obtain rfl := h
      simp
    · next ht =>
      obtain ⟨p, rfl, hp⟩ := h
      simpa only [if_neg ht, List.mem_singleton, forall_eq] using ⟨_, rfl, hp⟩
  | rule n =>
    rw [Covers] at h
    rw [symbolsOf]
    split at h
    · next hn =>
      rw [if_pos hn]
      exact hhidden n field ps h
    · next hn =>
      obtain ⟨p, rfl, hp⟩ := h
      simpa only [if_neg hn, List.mem_singleton, forall_eq] using ⟨_, rfl, hp⟩
  | seq a b iha ihb =>
    obtain ⟨qs, rs, rfl, hqs, hrs⟩ := h
    intro p hp
    rcases List.mem_append.mp hp with hp | hp
    · obtain ⟨c, hc, hpc⟩ := iha hqs p hp
      exact ⟨c, List.mem_append_left _ hc, hpc⟩
    · obtain ⟨c, hc, hpc⟩ := ihb hrs p hp
      exact ⟨c, List.mem_append_right _ hc, hpc⟩
  | alt a b iha ihb =>
    intro p hp
    rcases h with h | h
    · obtain ⟨c, hc, hpc⟩ := iha h p hp
      exact ⟨c, List.mem_append_left _ hc, hpc⟩
    · obtain ⟨c, hc, hpc⟩ := ihb h p hp
      exact ⟨c, List.mem_append_right _ hc, hpc⟩
  | many1 r ih =>
    obtain ⟨qss, _, rfl, hqss⟩ := h
    intro p hp
    obtain ⟨qs, hqs, hp⟩ := List.mem_flatten.mp hp
    exact ih (hqss qs hqs) p hp
  | field f r ih => exact ih h
  | role k r ih => exact ih h
  | prec p a r ih => exact ih h
  | dynamic d r ih => exact ih h

theorem exists_symbol_of_coversHidden (depth : Nat) (n : RuleName) (field : Option Grammar.Field)
    (ps : Parts) (h : CoversHidden depth n field ps) :
    ∀ p ∈ ps, ∃ c, (p.1, c) ∈ symbolsOfHidden depth n field ∧ p.2.Is c := by
  induction depth generalizing n field ps with
  | zero => cases h
  | succ depth ih => exact exists_symbol_of_covers ih h

/-! ### Lists -/

/-- Whether what is of the first sort is of the second sort too. -/
def Category.isWithin : Category → Category → Bool
  | .name, .expr | .literal, .expr | .number, .expr | .entry, .element | .ifStmt, .stmt => true
  | c, d => c == d

theorem Fragment.Is.of_isWithin {p : Fragment} {c d : Category} (h : p.Is c)
    (hcd : c.isWithin d = true) : p.Is d := by
  revert hcd
  fun_cases Category.isWithin c d with
  | case1 | case2 =>
    obtain ⟨s, rfl⟩ := h
    exact fun _ => ⟨_, rfl, rfl⟩
  | case3 =>
    obtain ⟨k, s, rfl⟩ := h
    exact fun _ => ⟨_, rfl, rfl⟩
  | case4 =>
    obtain ⟨x, rfl, hx⟩ := h
    exact fun _ => ⟨x, rfl, Expr.fits_of_entry hx⟩
  | case5 =>
    obtain ⟨_, _, _, _, rfl, h⟩ := h
    exact fun _ => ⟨_, rfl, h⟩
  | case6 =>
    intro hcd
    rwa [← eq_of_beq hcd]

/-- Whether the sort is that of a part: no mark and no comment. -/
def Category.isPart : Category → Bool
  | .mark _ | .comment => false
  | _ => true

theorem Fragment.Is.isPart_eq {p : Fragment} {c : Category} (h : p.Is c) : p.isPart = c.isPart := by
  cases c with
  | nothing => cases h
  | mark t =>
    obtain rfl := h
    rfl
  | comment =>
    obtain rfl := h
    rfl
  | _ =>
    rw [Fragment.Is] at h
    obtain ⟨_, h⟩ := h
    grind [Fragment.isPart, Category.isPart]

/-- Whether a symbol belongs to a list: a mark, or an item with the given field and of one of the
given sorts. -/
def isListed (field : Option Grammar.Field) (items : List Category)
    (c : Option Grammar.Field × Category) : Bool :=
  !c.2.isPart && (c.1 == none || c.1 == field) || c.2.isPart && c.1 == field && items.any c.2.isWithin

/-- Whether a part belongs to a list. -/
def InList (field : Option Grammar.Field) (items : List Category)
    (p : Option Grammar.Field × Fragment) : Prop :=
  (p.1 = none ∨ p.1 = field) ∧ p.2.isPart = false ∨
    p.1 = field ∧ p.2.isPart = true ∧ ∃ c ∈ items, p.2.Is c

/-- The parts that a right-hand side describes make a list if all its symbols do. -/
theorem Covers.inList {depth : Nat} {r : Rule} {f : Option Grammar.Field} {ps : Parts}
    (h : Covers (CoversHidden depth) r f ps) (field : Option Grammar.Field) (items : List Category)
    (hr : (symbolsOf (symbolsOfHidden depth) r f).all (isListed field items) = true) :
    ∀ p ∈ ps, InList field items p := by
  intro p hp
  obtain ⟨c, hc, hpc⟩ := exists_symbol_of_covers (exists_symbol_of_coversHidden depth) h p hp
  have listed := List.all_eq_true.mp hr _ hc
  simp only [isListed, ← hpc.isPart_eq, Bool.or_eq_true, Bool.and_eq_true, beq_iff_eq,
    Bool.not_eq_true', List.any_eq_true] at listed
  obtain ⟨hmark, hfield⟩ | ⟨⟨hpart, hfield⟩, d, hd, hcd⟩ := listed
  · exact .inl ⟨hfield, hmark⟩
  · exact .inr ⟨hfield, hpart, d, hd, hpc.of_isWithin hcd⟩

/-- Whether a contribution can be read as a value that is as it should be. -/
def Reads {α : Type} (as : Fragment → Option α) (good : α → Prop) (words : α → List String)
    (p : Fragment) : Prop :=
  ∃ y, as p = some y ∧ good y ∧ words y = p.words

theorem exists_mapM {α : Type} {as : Fragment → Option α} {good : α → Prop}
    {words : α → List String} {fs : List Fragment} (h : ∀ p ∈ fs, Reads as good words p) :
    ∃ ys, fs.mapM as = some ys ∧ (∀ y ∈ ys, good y) ∧
      ys.flatMap words = fs.flatMap Fragment.words ∧ ys.length = fs.length := by
  induction fs with
  | nil => exact ⟨[], rfl, by simp, rfl, rfl⟩
  | cons p fs ih =>
    obtain ⟨y, hy, hgood, hwords⟩ := h p List.mem_cons_self
    obtain ⟨ys, hys, hgoods, hwordss, hlen⟩ := ih fun q hq => h q (List.mem_cons_of_mem p hq)
    refine ⟨y :: ys, by simp [hy, hys], List.forall_mem_cons.mpr ⟨hgood, hgoods⟩, ?_, by simp [hlen]⟩
    rw [List.flatMap_cons, List.flatMap_cons, hwords, hwordss]

namespace Parts

variable {ps : Parts} {items : List Category} {field : Option Grammar.Field} {f : Grammar.Field}

/-- Marks have no words. -/
theorem flatMap_words_named (ps : Parts) : ps.named.flatMap Fragment.words = ps.words := by
  induction ps with
  | nil => rfl
  | cons p ps ih =>
    obtain ⟨field, p⟩ := p
    cases p <;> simp [Fragment.isPart, Fragment.words, ih]

theorem forall_mem_named (h : ∀ p ∈ ps, InList field items p) :
    ∀ p ∈ ps.named, ∃ c ∈ items, p.Is c := by
  intro p hp
  obtain ⟨⟨q, hq, rfl⟩, hpart⟩ : (∃ q ∈ ps, q.2 = p) ∧ p.isPart := by
    simpa [named] using hp
  rcases h q hq with ⟨_, hq⟩ | ⟨_, _, hq⟩
  · rw [hq] at hpart
    cases hpart
  · exact hq

theorem others_of_inList (h : ∀ p ∈ ps, InList none items p) : ps.others = ps.named := by
  induction ps with
  | nil => rfl
  | cons p ps ih =>
    obtain ⟨hp, hps⟩ := List.forall_mem_cons.mp h
    obtain ⟨g, p⟩ := p
    obtain ⟨rfl | rfl, hmark⟩ | ⟨rfl, hpart, _⟩ := hp <;> simp_all

theorem parts_of_inList (h : ∀ p ∈ ps, InList (some f) items p) : ps.parts f = ps.named := by
  induction ps with
  | nil => rfl
  | cons p ps ih =>
    obtain ⟨hp, hps⟩ := List.forall_mem_cons.mp h
    obtain ⟨g, p⟩ := p
    obtain ⟨_, hmark⟩ | ⟨rfl, hpart, _⟩ := hp <;> simp_all

theorem others_eq_nil_of_inList (h : ∀ p ∈ ps, InList (some f) items p) : ps.others = [] := by
  induction ps with
  | nil => rfl
  | cons p ps ih =>
    obtain ⟨hp, hps⟩ := List.forall_mem_cons.mp h
    obtain ⟨g, p⟩ := p
    obtain ⟨_, hmark⟩ | ⟨rfl, hpart, _⟩ := hp <;> simp_all

theorem part?_eq_none_of_inList (h : ∀ p ∈ ps, InList field items p) (hf : field ≠ some f) :
    ps.part? f = none := by
  induction ps with
  | nil => rfl
  | cons p ps ih =>
    obtain ⟨hp, hps⟩ := List.forall_mem_cons.mp h
    obtain ⟨g, p⟩ := p
    obtain ⟨rfl | rfl, hmark⟩ | ⟨rfl, hpart, _⟩ := hp <;> simp_all

/-- The items of a list can all be read. -/
theorem exists_mapM_named {α : Type} (as : Fragment → Option α) (good : α → Prop)
    (words : α → List String) (h : ∀ p ∈ ps, InList field items p)
    (hreads : ∀ c ∈ items, ∀ p : Fragment, p.Is c → Reads as good words p) :
    ∃ ys, ps.named.mapM as = some ys ∧ (∀ y ∈ ys, good y) ∧ ys.flatMap words = ps.words ∧
      ys.length = ps.named.length := by
  have reads : ∀ p ∈ ps.named, Reads as good words p := by
    intro p hp
    obtain ⟨c, hc, hpc⟩ := forall_mem_named h p hp
    exact hreads c hc p hpc
  obtain ⟨ys, hys, hgood, hwords, hlen⟩ := exists_mapM reads
  exact ⟨ys, hys, hgood, hwords.trans (flatMap_words_named ps), hlen⟩

/-- Expressions with marks between them can all be read. -/
theorem exists_exprs (h : ∀ p ∈ ps, InList field [.expr] p) :
    ∃ xs : List Expr, ps.named.mapM Fragment.expr? = some xs ∧ (∀ x ∈ xs, x.fits .plain) ∧
      xs.flatMap Expr.words = ps.words ∧ xs.length = ps.named.length := by
  refine exists_mapM_named _ _ _ h ?_
  simp only [List.mem_singleton, forall_eq]
  rintro p ⟨x, rfl, hx⟩
  exact ⟨x, rfl, hx, rfl⟩

end Parts

/-- A list with separators has an item if each of its items has. -/
theorem named_ne_nil_of_covers_sep1 {hidden : RuleName → Option Grammar.Field → Parts → Prop}
    {r sep : Rule} {field : Option Grammar.Field} {ps : Parts}
    (h : Covers hidden (.sep1 r sep) field ps)
    (hr : ∀ qs, Covers hidden r field qs → qs.named ≠ []) : ps.named ≠ [] := by
  obtain ⟨qs, rs, rfl, hqs, -⟩ := h
  simp [hr qs hqs]

/-! ### Contributions of a node -/

/-- Whether some parts can be put together to a contribution of the sort of a rule, and no word is
lost. -/
def Yields (n : RuleName) (ps : Parts) : Prop :=
  ∃ p, ofRule? n ps = some p ∧ p.Is n.category ∧ p.words = ps.words

end GoOutline.Syntax

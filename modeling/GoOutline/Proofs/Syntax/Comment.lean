import GoOutline.Proofs.Syntax.Words
import GoOutline.Syntax.Lower

/-!
# Comments in a node

A comment may stand anywhere among the children of a node. What the node contributes is found by
field, by sort and by order among the children, and each of these looks past comments.

* `Parts.bare`: the parts of a node without its comments.
* `Parts.part?_bare`, `Parts.named_bare`, …: every way to look up parts gives the same without them.
* `ofRule?_bare`: so no rule makes a difference.
* `Node.lower?_bare`: a node contributes the same with and without the comments in it.
* `Node.words_bare`: comments have no words.
-/

namespace GoOutline.Syntax

open GoOutline.Grammar (Terminal RuleName)

/-! ### Looking up parts -/

namespace Parts

variable (ps : Parts)

/-- The parts without the comments among them. -/
def bare : Parts := ps.filter fun p => !(p.1.isNone && p.2.isComment)

theorem not_isPart_of_isComment {p : Fragment} (h : p.isComment) : p.isPart = false := by
  cases p <;> first | rfl | cases h

/-- A part that is looked for is none of the comments. -/
theorem filter_bare {wanted : Option Grammar.Field × Fragment → Bool}
    (h : ∀ p, p.isComment → wanted (none, p) = false) : ps.bare.filter wanted = ps.filter wanted := by
  rw [bare, List.filter_filter]
  refine List.filter_congr fun p _ => ?_
  obtain ⟨_ | f, p⟩ := p
  · cases hp : p.isComment <;> simp [hp, h p]
  · simp

theorem part?_bare (f : Grammar.Field) : ps.bare.part? f = ps.part? f := by
  rw [part?, part?, ← List.head?_filter, ← List.head?_filter, filter_bare]
  exact fun _ _ => rfl

theorem parts_bare (f : Grammar.Field) : ps.bare.parts f = ps.parts f := by
  rw [parts, parts, filter_bare]
  exact fun _ _ => rfl

theorem others_bare : ps.bare.others = ps.others := by
  rw [others, others, filter_bare]
  exact fun p hp => by simp [not_isPart_of_isComment hp]

theorem named_bare : ps.bare.named = ps.named := by
  rw [named, named, List.filter_map, List.filter_map, filter_bare]
  exact fun p hp => by simp [not_isPart_of_isComment hp]

theorem marks_bare : ps.bare.marks = ps.marks := by
  rw [marks, marks, bare, List.filterMap_filter]
  congr 1
  funext p
  obtain ⟨_ | f, p⟩ := p
  · cases p <;> rfl
  · rfl

variable {α : Type} (f : Grammar.Field) (as : Fragment → Option α)

theorem get?_bare : ps.bare.get? f as = ps.get? f as := by rw [get?, get?, part?_bare]

theorem optional?_bare : ps.bare.optional? f as = ps.optional? f as := by
  rw [optional?, optional?, part?_bare]

theorem all?_bare : ps.bare.all? f as = ps.all? f as := by rw [all?, all?, parts_bare]

theorem only?_bare : ps.bare.only? as = ps.only? as := by rw [only?, only?, named_bare]

end Parts

/-! ### The rules -/

section

open Parts

variable (n : RuleName) (ps : Parts)

theorem signature?_bare : signature? ps.bare = signature? ps := by
  simp only [signature?, get?_bare, optional?_bare]

theorem clauseBody?_bare : clauseBody? ps.bare = clauseBody? ps := by
  simp only [clauseBody?, others_bare]

theorem specs?_bare : specs? ps.bare = specs? ps := by
  simp only [specs?, named_bare]

theorem ofExprRule?_bare : ofExprRule? n ps.bare = ofExprRule? n ps := by
  simp only [ofExprRule?, call?, unary?, args?, union?, signature?_bare, get?_bare, optional?_bare,
    only?_bare, named_bare, others_bare, marks_bare]

theorem ofDeclRule?_bare : ofDeclRule? n ps.bare = ofDeclRule? n ps := by
  simp only [ofDeclRule?, specs?_bare, signature?_bare, get?_bare, optional?_bare, all?_bare,
    only?_bare, named_bare, marks_bare]

theorem ofStmtRule?_bare : ofStmtRule? n ps.bare = ofStmtRule? n ps := by
  simp only [ofStmtRule?, for?, range?, receive?, typeSwitch?, branch?, assignment,
    clauseBody?_bare, get?_bare, optional?_bare, all?_bare, only?_bare, named_bare, others_bare,
    marks_bare]

/-- Comments among the parts of a node make no difference, whatever its rule is. -/
theorem ofRule?_bare : ofRule? n ps.bare = ofRule? n ps := by
  simp only [ofRule?, ofExprRule?_bare, ofDeclRule?_bare, ofStmtRule?_bare]

end

/-! ### Whole nodes -/

namespace Node

theorem kind_bare (node : Node) : node.bare.kind = node.kind := by
  cases node <;> rfl

theorem lower?_of_isComment {node : Node} (h : node.isComment) :
    node.lower? = some .comment := by
  cases node with
  | leaf kind text =>
    obtain rfl : kind = .token .comment none := of_decide_eq_true h
    rfl
  | branch rule children => cases of_decide_eq_true h

/-- What the children contribute, if all do. -/
def lowerAll? (children : List Child) : Option Parts :=
  children.mapM fun c => c.2.lower?.map (c.1, ·)

theorem lower?_branch (rule : RuleName) (children : List Child) :
    (branch rule children).lower? = (lowerAll? children).bind (ofRule? rule) := by
  rw [lower?, fold, foldChildren_eq_map]
  show Option.bind _ _ = _
  rw [List.mapM_map]
  rfl

theorem bareAll_cons (c : Child) (children : List Child) :
    bareAll (c :: children) =
      if c.1.isNone && c.2.isComment then bareAll children
      else (c.1, c.2.bare) :: bareAll children := by
  rw [bareAll]

theorem bareAll_append (cs ds : List Child) : bareAll (cs ++ ds) = bareAll cs ++ bareAll ds := by
  induction cs with
  | nil => rfl
  | cons c cs ih =>
    rw [List.cons_append, bareAll_cons, bareAll_cons, ih]
    split <;> rfl

theorem lowerAll?_cons (c : Child) (children : List Child) :
    lowerAll? (c :: children) =
      c.2.lower?.bind fun p => (lowerAll? children).map ((c.1, p) :: ·) := by
  rw [lowerAll?, List.mapM_cons, ← lowerAll?]
  cases c.2.lower? <;> cases lowerAll? children <;> rfl

theorem map_bare_lowerAll?_bareAll {children : List Child}
    (h : ∀ c ∈ children, c.2.bare.lower? = c.2.lower?) :
    (lowerAll? (bareAll children)).map Parts.bare = (lowerAll? children).map Parts.bare := by
  induction children with
  | nil => rfl
  | cons c children ih =>
    have ih := ih fun d hd => h d (List.mem_cons_of_mem c hd)
    rw [bareAll_cons]
    split
    · next hc =>
      -- A comment is dropped on both sides.
      obtain ⟨hfield, hcomment⟩ := Bool.and_eq_true_iff.mp hc
      rw [ih, lowerAll?_cons, lower?_of_isComment hcomment, Option.bind_some, Option.map_map]
      congr 1
      funext ps
      simp [Parts.bare, hfield, Fragment.isComment]
    · rw [lowerAll?_cons, lowerAll?_cons, h c List.mem_cons_self]
      cases c.2.lower? with
      | none => rfl
      | some p =>
        simp only [Option.bind_some, Option.map_map]
        have hcons : ∀ ps : Parts, Parts.bare ((c.1, p) :: ps) =
            Parts.bare [(c.1, p)] ++ ps.bare := fun ps => List.filter_append [_] ps
        have hmap : (Parts.bare ∘ ((c.1, p) :: ·)) = (Parts.bare [(c.1, p)] ++ ·) ∘ Parts.bare :=
          funext hcons
        rw [hmap, ← Option.map_map, ih, Option.map_map]

/-- A node contributes the same with and without the comments in it. -/
theorem lower?_bare (node : Node) : node.bare.lower? = node.lower? := by
  induction node using Node.induction with
  | leaf kind text => rfl
  | branch rule children ih =>
    have hbare : ∀ o : Option Parts,
        o.bind (ofRule? rule) = (o.map Parts.bare).bind (ofRule? rule) := by
      intro o
      cases o with
      | none => rfl
      | some ps => exact (ofRule?_bare rule ps).symm
    rw [bare, lower?_branch, lower?_branch, hbare, map_bare_lowerAll?_bareAll ih, ← hbare]

theorem words_of_isComment {node : Node} (h : node.isComment) (dot : List String) :
    node.words dot = [] := by
  cases node with
  | leaf kind text =>
    obtain rfl : kind = .token .comment none := of_decide_eq_true h
    rfl
  | branch rule children => cases of_decide_eq_true h

/-- What comments have none of is found in the other children. -/
theorem flatMap_bareAll {f : Node → List String} (hf : ∀ node : Node, node.isComment → f node = [])
    {children : List Child} (h : ∀ c ∈ children, f c.2.bare = f c.2) :
    (bareAll children).flatMap (f ·.2) = children.flatMap (f ·.2) := by
  induction children with
  | nil => rfl
  | cons c children ih =>
    have ih := ih fun d hd => h d (List.mem_cons_of_mem c hd)
    rw [bareAll_cons, List.flatMap_cons]
    split
    · next hc => rw [ih, hf _ (Bool.and_eq_true_iff.mp hc).2, List.nil_append]
    · rw [List.flatMap_cons, ih, h c List.mem_cons_self]

/-- Comments have no words. -/
theorem words_bare (node : Node) (dot : List String) : node.bare.words dot = node.words dot := by
  induction node using Node.induction with
  | leaf kind text => rfl
  | branch rule children ih =>
    rw [bare, words_branch, words_branch,
      flatMap_bareAll (fun _ h => words_of_isComment h dot) ih]

theorem exists_of_mem_bareAll {children : List Child} {c : Child} (h : c ∈ bareAll children) :
    ∃ d ∈ children, c = (d.1, d.2.bare) := by
  induction children with
  | nil => cases h
  | cons d children ih =>
    rw [bareAll_cons] at h
    split at h
    · exact (ih h).imp fun e he => ⟨List.mem_cons_of_mem d he.1, he.2⟩
    · rcases List.mem_cons.mp h with rfl | h
      · exact ⟨d, List.mem_cons_self, rfl⟩
      · exact (ih h).imp fun e he => ⟨List.mem_cons_of_mem d he.1, he.2⟩

end Node

end GoOutline.Syntax

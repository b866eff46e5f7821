import GoOutline.Proofs.Parse.Leaves
import GoOutline.Proofs.Syntax.Kinds
import GoOutline.Proofs.Syntax.Order
import GoOutline.Proofs.Token.Spelling

/-!
# What a file declares

The package name, the import paths and the declared names are found in the nodes of a text at fixed
sites. Here they are compared with those of the file.

* `Site`, `Node.texts`: where texts of a sort stand in a node, and the texts that stand there.
* `packageSite`, `importSite`, `declaredSite`: the sites of the three sorts.
* `Agrees`: the texts at some sites are read off the contributions. `Node.texts_eq` says so of a
  whole node; the induction is on the node, and the step is one rule.
* `Node.not_mem_of_mem_texts`: there is no space in a declared name.
* `texts_of_fileOf`: a file has the texts of its items, in the same order.
-/

namespace GoOutline.Syntax

open GoOutline.Grammar (Terminal RuleName)
open GoOutline.Parse (not_mem_of_isSpelled mayHave_space_identifier)

/-! ### Texts in nodes -/

/-- Where texts stand in a node: they are its children with a field, or they stand further below, or
there are none. -/
inductive Site where
  | here (field : Option Grammar.Field)
  | below
  | nowhere

/-- The text of a node that is an identifier or a literal. -/
def Node.word? : Node → Option String
  | leaf kind text => if kind.isWord then some text else none
  | branch _ _ => none

/-- The identifiers and literals among the children with a field. -/
def wordsAt (field : Option Grammar.Field) (cs : List Child) : List String :=
  cs.filterMap fun c => if c.1 = field then c.2.word? else none

mutual

/-- The texts at some sites of a node, in the order of the source. -/
def Node.texts (site : RuleName → Site) : Node → List String
  | .leaf _ _ => []
  | .branch n cs =>
    match site n with
    | .here field => wordsAt field cs
    | .below => textsOfAll site cs
    | .nowhere => []

/-- `Node.texts` for several children. -/
def textsOfAll (site : RuleName → Site) : List (Option Grammar.Field × Node) → List String
  | [] => []
  | (_, node) :: more => node.texts site ++ textsOfAll site more

end

theorem textsOfAll_eq_flatMap (site : RuleName → Site) (cs : List Child) :
    textsOfAll site cs = cs.flatMap (·.2.texts site) := by
  induction cs with
  | nil => rfl
  | cons c cs ih => rw [textsOfAll, ih, List.flatMap_cons]

/-- A package name is the identifier in the package clause. -/
def packageSite : RuleName → Site
  | .packageClause => .here none
  | _ => .nowhere

/-- An import path is the literal in the line of an import. -/
def importSite : RuleName → Site
  | .importSpec => .here (some .path)
  | .importSpecList | .importDeclaration => .below
  | _ => .nowhere

/-- A declared name is an identifier in the line of a declaration, or the name of a function or a
method. What is declared inside of functions does not count. -/
def declaredSite : RuleName → Site
  | .functionDeclaration | .methodDeclaration | .constSpec | .varSpec | .typeSpec | .typeAlias =>
    .here (some .name)
  | .constDeclaration | .varDeclaration | .varSpecList | .typeDeclaration => .below
  | _ => .nowhere

/-! ### Texts in contributions -/

/-- The names that a line declares. -/
def Spec.names : Spec → List String
  | value names _ _ => names
  | type name _ _ _ => [name]

/-- The names that a declaration declares. -/
def Decl.names : Decl → List String
  | general _ specs => specs.flatMap Spec.names
  | func f => [f.name]

namespace Fragment

/-- The package name in a contribution. -/
def packageNames : Fragment → List String
  | package name => [name]
  | _ => []

/-- The import paths in a contribution. -/
def importPaths : Fragment → List String
  | importSpec i => [i.path]
  | importSpecs is | imports is => is.map ImportSpec.path
  | _ => []

/-- The declared names in a contribution. -/
def declaredNames : Fragment → List String
  | valueSpec names _ _ => names
  | typeSpec name _ _ _ => [name]
  | specs ss | decl _ ss => ss.flatMap Spec.names
  | func f => [f.name]
  | _ => []

end Fragment

/-- The words of the parts with a field. -/
def Parts.wordsAt (field : Option Grammar.Field) (ps : Parts) : List String :=
  (ps.filter (·.1 = field)).flatMap (·.2.words)

section WordsAt

variable {field : Option Grammar.Field}

@[simp] theorem Parts.wordsAt_nil : Parts.wordsAt field [] = [] := rfl

@[simp] theorem Parts.wordsAt_cons (p : Option Grammar.Field × Fragment) (ps : Parts) :
    Parts.wordsAt field (p :: ps)
      = (if p.1 = field then p.2.words else []) ++ Parts.wordsAt field ps := by
  by_cases h : p.1 = field <;> simp [Parts.wordsAt, h]

@[simp] theorem Parts.wordsAt_append (ps qs : Parts) :
    Parts.wordsAt field (ps ++ qs) = Parts.wordsAt field ps ++ Parts.wordsAt field qs := by
  simp [Parts.wordsAt]

@[simp] theorem Parts.wordsAt_optional {f : Grammar.Field} (h : some f ≠ field)
    (p : Option Fragment) : Parts.wordsAt field (Parts.optional f p) = [] := by
  cases p <;> simp [Parts.optional, h]

/-- The parts with a field that are no marks have all the words at this field. -/
theorem Parts.flatMap_words_parts (f : Grammar.Field) (ps : Parts) :
    (ps.parts f).flatMap Fragment.words = ps.wordsAt (some f) := by
  induction ps with
  | nil => rfl
  | cons p ps ih =>
    obtain ⟨g, p⟩ := p
    rw [Parts.parts_cons, Parts.wordsAt_cons, ← ih]
    by_cases hg : g = some f
    · cases p <;> simp [hg, Fragment.isPart, Fragment.words]
    · simp [hg]

end WordsAt

/-! ### Agreement -/

/-- Whether nodes of the kind are leaves. -/
def Kind.isLeaf : Kind → Bool
  | token _ _ => true
  | rule n => isLiteral n

/-- The texts at some sites are those that are read off contributions, rule by rule. -/
structure Agrees (site : RuleName → Site) (read : Fragment → List String) : Prop where
  ofLeaf_eq : ∀ kind text, read (ofLeaf kind text) = []
  isLeaf : ∀ n field, site n = .here field → ∀ k ∈ n.kinds, k.1 = field → k.2.isLeaf
  here : ∀ {n field ps p}, site n = .here field → Fits n ps → ofRule? n ps = some p →
    read p = ps.wordsAt field
  below : ∀ {n ps p}, site n = .below → ofRule? n ps = some p → read p = ps.flatMap (read ·.2)
  nowhere : ∀ {n p}, site n = .nowhere → p.Is n.category → read p = []

/-- A node of the kind of a leaf is a leaf. -/
theorem Node.exists_eq_leaf {node : Node} (h : node.conforms) (hkind : node.kind.isLeaf) :
    ∃ kind text, node = leaf kind text := by
  cases node with
  | leaf kind text => exact ⟨kind, text, rfl⟩
  | branch n cs =>
    have hliteral : isLiteral n := hkind
    simp [conforms, isInner, hliteral] at h

/-- The word that a leaf is, is what it contributes. -/
theorem Node.Lowers.toList_word? {kind : Kind} {text : String} {p : Fragment}
    (h : (leaf kind text).Lowers p) : (leaf kind text).word?.toList = p.words := by
  rw [h.words_eq, pruned_leaf, words_leaf, word?]
  split <;> rfl

theorem Node.LowerAll.wordsAt_eq {field : Option Grammar.Field} {cs : List Child} {ps : Parts}
    (h : LowerAll cs ps) (hconforms : ∀ c ∈ cs, c.2.conforms)
    (hleaf : ∀ c ∈ cs, c.1 = field → c.2.kind.isLeaf) : wordsAt field cs = ps.wordsAt field := by
  induction h with
  | nil => rfl
  | @cons c p cs ps hp _ ih =>
    obtain ⟨hfield, hlower⟩ := hp
    obtain ⟨hc, hcs⟩ := List.forall_mem_cons.mp hconforms
    obtain ⟨hcleaf, hcsleaf⟩ := List.forall_mem_cons.mp hleaf
    rw [Parts.wordsAt_cons, hfield, ← ih hcs hcsleaf, wordsAt, wordsAt, List.filterMap_cons]
    by_cases hf : c.1 = field
    · obtain ⟨kind, text, heq⟩ := exists_eq_leaf hc (hcleaf hf)
      rw [heq] at hlower
      rw [if_pos hf, if_pos hf, heq, ← hlower.toList_word?]
      cases (leaf kind text).word? <;> rfl
    · rw [if_neg hf, if_neg hf]
      rfl

theorem Node.LowerAll.flatMap_eq {α : Type} {f : Node → List α} {g : Fragment → List α}
    {cs : List Child} {ps : Parts} (h : LowerAll cs ps)
    (hfg : ∀ c ∈ cs, ∀ p, c.2.lower? = some p → f c.2 = g p) :
    cs.flatMap (f ·.2) = ps.flatMap (g ·.2) := by
  induction h with
  | nil => rfl
  | @cons c p cs ps hp _ ih =>
    have hc := hfg c List.mem_cons_self p.2 hp.2.lower?_eq
    have hcs := ih fun d hd => hfg d (List.mem_cons_of_mem c hd)
    rw [List.flatMap_cons, List.flatMap_cons, hc, hcs]

/-- **The texts at the sites of a node are those of its contribution.** -/
theorem Node.texts_eq {site : RuleName → Site} {read : Fragment → List String}
    (hagrees : Agrees site read) (node : Node) :
    ∀ {p : Fragment}, node.conforms → node.lower? = some p → node.texts site = read p := by
  induction node using Node.induction with
  | leaf kind text =>
    intro p _ hp
    cases hp
    exact (hagrees.ofLeaf_eq kind text).symm
  | branch n cs ih =>
    intro p h hp
    obtain ⟨q, hq⟩ := exists_lowers (branch n cs) h
    obtain rfl : q = p := Option.some.inj (hq.lower?_eq.symm.trans hp)
    simp only [conforms, Bool.and_eq_true, conformAll_iff] at h
    obtain ⟨⟨-, hallows⟩, hall⟩ := h
    obtain ⟨ps, hps⟩ := exists_lowerAll fun c hc => c.2.exists_lowers (hall c hc)
    rw [hps.lower?_branch] at hp
    rw [texts]
    split
    · next field hsite =>
      rw [hagrees.here hsite (fits_of_allows hallows hps.contribute) hp]
      refine hps.wordsAt_eq hall fun c hc hfield => ?_
      exact hagrees.isLeaf n field hsite _ (mem_kinds_of_allows hallows c hc) hfield
    · next hsite =>
      rw [hagrees.below hsite hp, textsOfAll_eq_flatMap]
      exact hps.flatMap_eq fun c hc p hp => ih c hc (hall c hc) hp
    · next hsite => exact (hagrees.nowhere hsite hq.is).symm

/-! ### The three sorts of texts -/

/-- What a contribution is about. -/
inductive Topic where
  | package | imports | declaration | other
deriving DecidableEq

def Fragment.topic : Fragment → Topic
  | package _ => .package
  | importSpec _ | importSpecs _ | imports _ => .imports
  | valueSpec .. | typeSpec .. | specs _ | decl .. | func _ => .declaration
  | _ => .other

def Category.topic : Category → Topic
  | package => .package
  | importSpec | importSpecs | imports => .imports
  | valueSpec | typeSpec | specs | decl _ | func => .declaration
  | _ => .other

theorem Fragment.Is.topic_eq {p : Fragment} {c : Category} (h : p.Is c) : p.topic = c.topic := by
  cases c with
  | nothing => cases h
  | mark t =>
    obtain rfl := h
    rfl
  | comment =>
    obtain rfl := h
    rfl
  | _ =>
    rw [Fragment.Is] at h
    obtain ⟨_, h⟩ := h
    grind [Fragment.topic, Category.topic]

theorem Fragment.texts_of_not_isPart {p : Fragment} (h : p.isPart = false) :
    p.importPaths = [] ∧ p.declaredNames = [] := by
  cases p <;> first | exact ⟨rfl, rfl⟩ | cases h

/-- Marks and comments are about nothing that is looked for. -/
theorem flatMap_named {read : Fragment → List String}
    (hread : ∀ p : Fragment, p.isPart = false → read p = []) (ps : Parts) :
    ps.named.flatMap read = ps.flatMap (read ·.2) := by
  induction ps with
  | nil => rfl
  | cons p ps ih =>
    obtain ⟨f, p⟩ := p
    rw [Parts.named_cons, List.flatMap_cons, ← ih]
    cases hp : p.isPart with
    | true => rfl
    | false => exact (congrArg (· ++ _) (hread p hp)).symm

theorem flatMap_of_mapM {α : Type} {as : Fragment → Option α} {read : Fragment → List String}
    {texts : α → List String} (has : ∀ p y, as p = some y → texts y = read p)
    {fs : List Fragment} {ys : List α} (h : fs.mapM as = some ys) :
    ys.flatMap texts = fs.flatMap read := by
  induction fs generalizing ys with
  | nil =>
    cases h
    rfl
  | cons p fs ih =>
    obtain ⟨y, hy, zs, hzs, rfl⟩ : ∃ y, as p = some y ∧ ∃ zs, fs.mapM as = some zs ∧ y :: zs = ys := by
      simpa [Option.bind_eq_some_iff] using h
    rw [List.flatMap_cons, List.flatMap_cons, has p y hy, ih hzs]

-- what a rule contributes is read off its parts
attribute [local simp] ofRule? ofExprRule? ofDeclRule? ofStmtRule? Option.bind_eq_some_iff

theorem agrees_package : Agrees packageSite Fragment.packageNames where
  ofLeaf_eq := by
    intro kind text
    cases kind with
    | token t role => cases t <;> rfl
    | rule n => rfl
  isLeaf := by
    intro n field hsite
    unfold packageSite at hsite
    split at hsite
    · cases hsite
      decide
    · cases hsite
  here := by
    intro n field ps p hsite hfits hp
    unfold packageSite at hsite
    split at hsite
    · cases hsite
      obtain ⟨s, rfl⟩ := exists_parts_of_packageClause hfits
      cases hp
      rfl
    · cases hsite
  below := by
    intro n ps p hsite
    unfold packageSite at hsite
    split at hsite <;> cases hsite
  nowhere := by
    intro n p hsite his
    have htopic := his.topic_eq
    have hn : n.category.topic ≠ .package := by
      cases n <;> simp_all [packageSite, Category.topic]
    cases p with
    | package name => exact absurd htopic.symm hn
    | _ => rfl

theorem Parts.exists_of_only? {α : Type} {as : Fragment → Option α} {ps : Parts} {y : α}
    (h : ps.only? as = some y) : ∃ p, ps.named = [p] ∧ as p = some y := by
  unfold Parts.only? at h
  split at h
  · next p hp => exact ⟨p, hp, h⟩
  · cases h

theorem importPaths_of_imports? {p : Fragment} {is : List ImportSpec} (h : p.imports? = some is) :
    is.map ImportSpec.path = p.importPaths := by
  cases p <;> cases h <;> rfl

theorem importPaths_of_importSpec? {p : Fragment} {i : ImportSpec} (h : p.importSpec? = some i) :
    [i.path] = p.importPaths := by
  cases p <;> cases h
  rfl

theorem agrees_import : Agrees importSite Fragment.importPaths where
  ofLeaf_eq := by
    intro kind text
    cases kind with
    | token t role => cases t <;> rfl
    | rule n => rfl
  isLeaf := by
    intro n field hsite
    unfold importSite at hsite
    split at hsite <;> cases hsite
    decide
  here := by
    intro n field ps p hsite hfits hp
    unfold importSite at hsite
    split at hsite <;> cases hsite
    obtain ⟨qs, path, rfl, ⟨s, rfl⟩ | rfl⟩ := exists_parts_of_importSpec hfits
    · cases hp
      rfl
    · cases hp
      rfl
  below := by
    intro n ps p hsite hp
    unfold importSite at hsite
    split at hsite <;> cases hsite
    · obtain ⟨is, his, rfl⟩ : ∃ is, ps.named.mapM Fragment.importSpec? = some is ∧
          Fragment.importSpecs is = p := by
        simpa using hp
      have hpaths := flatMap_of_mapM (fun _ _ => importPaths_of_importSpec?) his
      rw [← flatMap_named (fun _ h => (Fragment.texts_of_not_isPart h).1), ← hpaths,
        ← List.map_eq_flatMap]
      rfl
    · obtain ⟨is, his, rfl⟩ : ∃ is, ps.only? Fragment.imports? = some is ∧
          Fragment.imports is = p := by
        simpa using hp
      obtain ⟨q, hq, his⟩ := Parts.exists_of_only? his
      have hpaths := importPaths_of_imports? his
      rw [← flatMap_named (fun _ h => (Fragment.texts_of_not_isPart h).1), hq, List.flatMap_singleton]
      exact hpaths
  nowhere := by
    intro n p hsite his
    have htopic := his.topic_eq
    have hn : n.category.topic ≠ .imports := by
      cases n <;> simp_all [importSite, Category.topic]
    cases p with
    | importSpec | importSpecs | imports => exact absurd htopic.symm hn
    | _ => rfl

theorem words_of_name? {p : Fragment} {name : String} (h : p.name? = some name) :
    [name] = p.words := by
  unfold Fragment.name? at h
  split at h
  · cases h
    rfl
  · cases h

theorem names_of_spec? {p : Fragment} {s : Spec} (h : p.spec? = some s) :
    s.names = p.declaredNames := by
  cases p <;> cases h <;> rfl

/-- The names of a general declaration are those of its parts. -/
theorem flatMap_names_of_specs? {ps : Parts} {ss : List Spec} (h : specs? ps = some ss) :
    ss.flatMap Spec.names = ps.flatMap (·.2.declaredNames) := by
  rw [← flatMap_named fun _ h => (Fragment.texts_of_not_isPart h).2]
  unfold specs? at h
  split at h
  · next lines hnamed =>
    cases h
    rw [hnamed, List.flatMap_singleton]
    rfl
  · exact flatMap_of_mapM (fun _ _ => names_of_spec?) h

/-- The rules that declare one name. -/
def declaresOne : RuleName → Bool
  | .functionDeclaration | .methodDeclaration | .typeSpec | .typeAlias => true
  | _ => false

/-- A rule that declares one name has one part for it. -/
theorem exists_name_of_fits {n : RuleName} {ps : Parts} (hn : declaresOne n) (h : Fits n ps) :
    ∃ s, ps.part? .name = some (.expr (.ident s)) ∧ ps.wordsAt (some .name) = [s] := by
  unfold declaresOne at hn
  split at hn <;> cases hn
  · obtain ⟨name, typeParams, fs, r, body, rfl, -⟩ := exists_parts_of_functionDeclaration h
    exact ⟨name, by simp [funcParts], by simp [funcParts, Expr.words, Fragment.words]⟩
  · obtain ⟨receivers, name, fs, r, body, rfl, -⟩ := exists_parts_of_methodDeclaration h
    exact ⟨name, by simp [funcParts], by simp [funcParts, Expr.words, Fragment.words]⟩
  · obtain ⟨type, typeParams, name, rfl, -⟩ := exists_parts_of_typeSpec h
    exact ⟨name, by simp, by simp [Expr.words, Fragment.words]⟩
  · obtain ⟨type, typeParams, name, rfl, -⟩ := exists_parts_of_typeAlias h
    exact ⟨name, by simp, by simp [Expr.words, Fragment.words]⟩

/-- What a rule that declares one name contributes declares the name of the part. -/
theorem exists_get?_of_ofRule? {n : RuleName} {ps : Parts} {p : Fragment} (hn : declaresOne n)
    (hp : ofRule? n ps = some p) :
    ∃ name, ps.get? .name Fragment.name? = some name ∧ p.declaredNames = [name] := by
  unfold declaresOne at hn
  split at hn <;> cases hn
  · obtain ⟨_, -, name, hname, _, -, _, -, _, -, rfl⟩ := by
      simpa using hp
    exact ⟨name, hname, rfl⟩
  · obtain ⟨_, -, name, hname, _, -, _, -, _, -, rfl⟩ := by
      simpa using hp
    exact ⟨name, hname, rfl⟩
  · obtain ⟨name, hname, _, -, _, -, rfl⟩ := by
      simpa using hp
    exact ⟨name, hname, rfl⟩
  · obtain ⟨name, hname, _, -, _, -, rfl⟩ := by
      simpa using hp
    exact ⟨name, hname, rfl⟩

/-- What a rule of constants or variables contributes declares the names of all its parts. -/
theorem declaredNames_of_valueSpec {n : RuleName} {ps : Parts} {p : Fragment}
    (hn : n = .constSpec ∨ n = .varSpec) (hp : ofRule? n ps = some p) :
    p.declaredNames = ps.wordsAt (some .name) := by
  obtain ⟨names, hnames, hread⟩ : ∃ names, ps.all? .name Fragment.name? = some names ∧
      p.declaredNames = names := by
    rcases hn with rfl | rfl
    · obtain ⟨names, hnames, _, -, _, -, rfl⟩ := by
        simpa using hp
      exact ⟨names, hnames, rfl⟩
    · obtain ⟨names, hnames, _, -, _, -, rfl⟩ := by
        simpa using hp
      exact ⟨names, hnames, rfl⟩
  have hwords := flatMap_of_mapM (fun _ _ => words_of_name?) hnames
  rw [hread, ← Parts.flatMap_words_parts, ← hwords]
  simp

theorem agrees_declared : Agrees declaredSite Fragment.declaredNames where
  ofLeaf_eq := by
    intro kind text
    cases kind with
    | token t role => cases t <;> rfl
    | rule n => rfl
  isLeaf := by
    intro n field hsite
    unfold declaredSite at hsite
    split at hsite <;> cases hsite <;> decide
  here := by
    intro n field ps p hsite hfits hp
    have hone : declaresOne n → p.declaredNames = ps.wordsAt (some .name) := by
      intro hn
      obtain ⟨s, hpart, hwords⟩ := exists_name_of_fits hn hfits
      obtain ⟨name, hname, hread⟩ := exists_get?_of_ofRule? hn hp
      rw [Parts.get?_of_part? hpart] at hname
      cases hname
      rw [hread, hwords]
    unfold declaredSite at hsite
    split at hsite <;> cases hsite
    · exact hone rfl
    · exact hone rfl
    · exact declaredNames_of_valueSpec (.inl rfl) hp
    · exact declaredNames_of_valueSpec (.inr rfl) hp
    · exact hone rfl
    · exact hone rfl
  below := by
    intro n ps p hsite hp
    unfold declaredSite at hsite
    split at hsite <;> cases hsite
    · obtain ⟨ss, hss, rfl⟩ := by
        simpa using hp
      exact flatMap_names_of_specs? hss
    · obtain ⟨ss, hss, rfl⟩ := by
        simpa using hp
      exact flatMap_names_of_specs? hss
    · obtain ⟨ss, hss, rfl⟩ := by
        simpa using hp
      rw [← flatMap_named fun _ h => (Fragment.texts_of_not_isPart h).2]
      exact flatMap_of_mapM (fun _ _ => names_of_spec?) hss
    · obtain ⟨ss, hss, rfl⟩ := by
        simpa using hp
      exact flatMap_names_of_specs? hss
  nowhere := by
    intro n p hsite his
    have htopic := his.topic_eq
    have hn : n.category.topic ≠ .declaration := by
      cases n <;> simp_all [declaredSite, Category.topic]
    cases p with
    | valueSpec | typeSpec | specs | decl | func => exact absurd htopic.symm hn
    | _ => rfl

/-! ### Spelling -/

def Kind.isIdentifier : Kind → Bool
  | token .identifier _ => true
  | _ => false

theorem exists_of_mem_wordsAt {field : Option Grammar.Field} {cs : List Child} {w : String}
    (h : w ∈ wordsAt field cs) : ∃ kind, (field, .leaf kind w) ∈ cs ∧ kind.isWord := by
  obtain ⟨⟨f, node⟩, hc, hw⟩ := List.mem_filterMap.mp h
  by_cases hf : f = field
  · subst hf
    cases node with
    | leaf kind text =>
      by_cases hkind : kind.isWord
      · simp only [Node.word?, hkind, if_true, Option.some.injEq] at hw
        exact ⟨kind, hw ▸ hc, hkind⟩
      · simp [Node.word?, hkind] at hw
    | branch n ds => simp [Node.word?] at hw
  · simp [hf] at hw

/-- The words at the sites of declared names are identifiers. -/
theorem isIdentifier_of_declaredSite {n : RuleName} {field : Option Grammar.Field}
    (hsite : declaredSite n = .here field) :
    ∀ k ∈ n.kinds, k.1 = field → k.2.isWord → k.2.isIdentifier := by
  unfold declaredSite at hsite
  split at hsite <;> cases hsite <;> decide

/-- There is no space in a declared name. -/
theorem Node.not_mem_of_mem_texts (node : Node) (h : node.conforms) (hspelled : node.IsSpelled) :
    ∀ w ∈ node.texts declaredSite, ' ' ∉ w.toList := by
  induction node using Node.induction with
  | leaf kind text =>
    intro w hw
    rw [texts] at hw
    cases hw
  | branch n cs ih =>
    intro w hw
    simp only [conforms, Bool.and_eq_true, conformAll_iff] at h
    obtain ⟨⟨-, hallows⟩, hall⟩ := h
    have hspelled := isSpelled_branch.mp hspelled
    rw [texts] at hw
    split at hw
    · next field hsite =>
      obtain ⟨kind, hc, hword⟩ := exists_of_mem_wordsAt hw
      have hidentifier := isIdentifier_of_declaredSite hsite _ (mem_kinds_of_allows hallows _ hc)
        rfl hword
      unfold Kind.isIdentifier at hidentifier
      split at hidentifier
      · next role heq =>
        obtain rfl : kind = .token .identifier role := heq
        have htext := hspelled _ hc .identifier role w List.mem_cons_self
        exact not_mem_of_isSpelled mayHave_space_identifier htext
      · cases hidentifier
    · rw [textsOfAll_eq_flatMap] at hw
      obtain ⟨c, hc, hw⟩ := List.mem_flatMap.mp hw
      exact ih c hc (hall c hc) (hspelled c hc) w hw
    · cases hw

/-! ### Comments -/

theorem Node.word?_of_isComment {node : Node} (h : node.isComment) : node.word? = none := by
  cases node with
  | leaf kind text =>
    obtain rfl : kind = .token .comment none := of_decide_eq_true h
    rfl
  | branch rule children => rfl

theorem Node.texts_of_isComment {node : Node} (h : node.isComment) (site : RuleName → Site) :
    node.texts site = [] := by
  cases node with
  | leaf kind text => rfl
  | branch rule children => cases of_decide_eq_true h

theorem wordsAt_bareAll (field : Option Grammar.Field) (cs : List Child) :
    wordsAt field (Node.bareAll cs) = wordsAt field cs := by
  induction cs with
  | nil => rfl
  | cons c cs ih =>
    have hcons : ∀ c ds, wordsAt field (c :: ds)
        = (if c.1 = field then c.2.word? else none).toList ++ wordsAt field ds := fun c ds => by
      cases h : (if c.1 = field then c.2.word? else none) <;> simp [wordsAt, h]
    have hword : c.2.bare.word? = c.2.word? := by cases c.2 <;> rfl
    rw [Node.bareAll_cons, hcons c]
    split
    · next hc => simp [ih, Node.word?_of_isComment (Bool.and_eq_true_iff.mp hc).2]
    · rw [hcons, hword, ih]

/-- Comments are no texts at any site. -/
theorem Node.texts_bare (site : RuleName → Site) (node : Node) :
    node.bare.texts site = node.texts site := by
  induction node using Node.induction with
  | leaf kind text => rfl
  | branch n cs ih =>
    have hall : (bareAll cs).flatMap (·.2.texts site) = cs.flatMap (·.2.texts site) :=
      flatMap_bareAll (fun _ h => texts_of_isComment h site) ih
    rw [bare, texts, texts]
    split
    · exact wordsAt_bareAll _ cs
    · rw [textsOfAll_eq_flatMap, textsOfAll_eq_flatMap, hall]
    · rfl

/-! ### Files -/

/-- The texts of an item are those of its contribution. -/
theorem Item.texts_eq {i : Item} {p : Fragment} (h : i.node.bare.conforms)
    (hp : i.node.lower? = some p) :
    i.node.texts packageSite = p.packageNames ∧ i.node.texts importSite = p.importPaths ∧
      i.node.texts declaredSite = p.declaredNames := by
  rw [← Node.lower?_bare] at hp
  rw [← Node.texts_bare packageSite, ← Node.texts_bare importSite, ← Node.texts_bare declaredSite]
  exact ⟨i.node.bare.texts_eq agrees_package h hp, i.node.bare.texts_eq agrees_import h hp,
    i.node.bare.texts_eq agrees_declared h hp⟩

/-- An item stands for some imports and declarations: it has their paths and their names. -/
structure Item.StandsFor (i : Item) (is : List ImportSpec) (ds : List Decl) : Prop where
  package_eq : i.node.texts packageSite = []
  paths_eq : i.node.texts importSite = is.map ImportSpec.path
  names_eq : i.node.texts declaredSite = ds.flatMap Decl.names

section StandsFor

variable {i : Item} (h : i.node.bare.conforms)

include h

theorem Item.standsFor_imports {is : List ImportSpec} (hlower : i.node.lower? = some (.imports is)) :
    i.StandsFor is [] := by
  obtain ⟨hpackage, hpaths, hnames⟩ := Item.texts_eq h hlower
  exact ⟨hpackage, hpaths, hnames⟩

theorem Item.standsFor_func {f : FuncDecl} (hlower : i.node.lower? = some (.func f)) :
    i.StandsFor [] [.func f] := by
  obtain ⟨hpackage, hpaths, hnames⟩ := Item.texts_eq h hlower
  exact ⟨hpackage, hpaths, hnames⟩

theorem Item.standsFor_general {keyword : Keyword} {specs : List Spec}
    (hlower : i.node.lower? = some (.decl keyword specs)) :
    i.StandsFor [] [.general keyword specs] := by
  obtain ⟨hpackage, hpaths, hnames⟩ := Item.texts_eq h hlower
  exact ⟨hpackage, hpaths, hnames.trans (List.flatMap_singleton ..).symm⟩

/-- What one item adds to the imports and the declarations is what it stands for. -/
theorem Item.exists_collect_step {items : List Item} {imports : List ImportSpec} {decls : List Decl}
    {result : List ImportSpec × List Decl}
    (hrun : collect (i :: items) imports decls = .ok result) :
    ∃ is ds, i.StandsFor is ds ∧ collect items (imports ++ is) (decls ++ ds) = .ok result := by
  have hfunc : ∀ f, i.node.lower? = some (.func f) →
      collect items imports (decls ++ [.func f]) = .ok result →
      ∃ is ds, i.StandsFor is ds ∧ collect items (imports ++ is) (decls ++ ds) = .ok result :=
    fun f hlower hrun => ⟨[], _, standsFor_func h hlower, by rwa [List.append_nil]⟩
  have hgeneral : ∀ keyword specs, i.node.lower? = some (.decl keyword specs) →
      collect items imports (decls ++ [.general keyword specs]) = .ok result →
      ∃ is ds, i.StandsFor is ds ∧ collect items (imports ++ is) (decls ++ ds) = .ok result :=
    fun _ _ hlower hrun => ⟨[], _, standsFor_general h hlower, by rwa [List.append_nil]⟩
  rw [collect] at hrun
  split at hrun
  case h_1 =>
    split at hrun
    · cases hrun
    · split at hrun
      · next is hlower => exact ⟨is, [], standsFor_imports h hlower, by rwa [List.append_nil]⟩
      · cases hrun
  case h_7 => cases hrun
  all_goals
    split at hrun
  · exact hfunc _ ‹_› hrun
  · cases hrun
  · exact hfunc _ ‹_› hrun
  · cases hrun
  · exact hgeneral _ _ ‹_› hrun
  · cases hrun
  · exact hgeneral _ _ ‹_› hrun
  · cases hrun
  · exact hgeneral _ _ ‹_› hrun
  · cases hrun

end StandsFor

/-- The run over some items adds their import paths and their names, and no item is about a
package. -/
theorem texts_of_collect {items : List Item} (h : ∀ i ∈ items, i.node.bare.conforms)
    {imports is : List ImportSpec} {decls ds : List Decl}
    (hrun : collect items imports decls = .ok (is, ds)) :
    items.flatMap (·.node.texts packageSite) = [] ∧
      is.map ImportSpec.path
        = imports.map ImportSpec.path ++ items.flatMap (·.node.texts importSite) ∧
      ds.flatMap Decl.names
        = decls.flatMap Decl.names ++ items.flatMap (·.node.texts declaredSite) := by
  induction items generalizing imports decls with
  | nil =>
    cases hrun
    simp
  | cons i items ih =>
    obtain ⟨hi, hitems⟩ := List.forall_mem_cons.mp h
    obtain ⟨js, es, hfor, hrun⟩ := Item.exists_collect_step hi hrun
    obtain ⟨hpackages, hpaths, hnames⟩ := ih hitems hrun
    refine ⟨?_, ?_, ?_⟩
    · rw [List.flatMap_cons, hfor.package_eq, hpackages]
      rfl
    · rw [hpaths, List.map_append, List.append_assoc, List.flatMap_cons, hfor.paths_eq]
    · rw [hnames, List.flatMap_append, List.append_assoc, List.flatMap_cons, hfor.names_eq]

/-- **A file has the texts of its items, in the same order**: the package name, the import paths and
the declared names. -/
theorem texts_of_fileOf {items : List Item} {file : File} (h : ∀ i ∈ items, i.node.bare.conforms)
    (hfile : fileOf items = .ok file) :
    items.flatMap (·.node.texts packageSite) = [file.package] ∧
      items.flatMap (·.node.texts importSite) = file.imports.map ImportSpec.path ∧
      items.flatMap (·.node.texts declaredSite) = file.decls.flatMap Decl.names := by
  cases items with
  | nil => cases hfile
  | cons i items =>
    obtain ⟨hi, hitems⟩ := List.forall_mem_cons.mp h
    rw [fileOf] at hfile
    split at hfile
    · split at hfile
      · next name hlower =>
        obtain ⟨hpackage, hpaths, hnames⟩ := Item.texts_eq hi hlower
        cases hrun : collect items [] [] with
        | error e =>
          rw [hrun] at hfile
          cases hfile
        | ok result =>
          rw [hrun] at hfile
          cases hfile
          obtain ⟨hpackages, hpaths', hnames'⟩ := texts_of_collect hitems hrun
          refine ⟨?_, ?_, ?_⟩
          · rw [List.flatMap_cons, hpackage, hpackages]
            rfl
          · rw [List.flatMap_cons, hpaths]
            exact hpaths'.symm
          · rw [List.flatMap_cons, hnames]
            exact hnames'.symm
      · cases hfile
    · cases hfile

end GoOutline.Syntax

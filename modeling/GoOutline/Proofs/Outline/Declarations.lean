import GoOutline.Outline.OfFile
import GoOutline.Outline.Row
import GoOutline.Proofs.Syntax.Declared

/-!
# Declarations in an outline

The names that a file declares can be read off its outline: nothing that is declared at the top
level is left out, and nothing is added. The builder leaves out lines that do not go with their
keyword, and groups without names; an accepted file has none of them.

* `lastWord`: what stands after the last space of a label.
* `Outline.declared`: the names that a node at the top level shows.
* `Decl.declared_outlines`: a declaration shows its names.
* `declared_of_parse`: the outline of an accepted file shows its package, its imports and all names
  that it declares.
-/

namespace GoOutline

/-! ### Reading labels -/

/-- What stands after the last space of a text. -/
def lastWord (s : String) : String :=
  String.ofList (s.toList.reverse.takeWhile (· ≠ ' ')).reverse

theorem lastWord_append {s name : String} (hs : s.toList.getLast? = some ' ')
    (hname : ' ' ∉ name.toList) : lastWord (s ++ name) = name := by
  obtain ⟨front, hfront⟩ := List.getLast?_eq_some_iff.mp hs
  have hreverse : (s ++ name).toList.reverse = name.toList.reverse ++ ' ' :: front.reverse := by
    rw [String.toList_append, hfront, List.reverse_append, List.reverse_append]
    rfl
  have hall : ∀ c ∈ name.toList.reverse, decide (c ≠ ' ') = true := by
    intro c hc
    have hne : c ≠ ' ' := fun heq => hname (heq ▸ List.mem_reverse.mp hc)
    exact decide_eq_true hne
  have htake : (s ++ name).toList.reverse.takeWhile (· ≠ ' ') = name.toList.reverse := by
    rw [hreverse, List.takeWhile_append_of_pos hall, List.takeWhile_cons_of_neg (by decide),
      List.append_nil]
  rw [lastWord, htake, List.reverse_reverse, String.ofList_toList]

namespace Outline

/-- What stands before the first colon of a label, or the whole label. -/
def title (t : Outline) : String := String.ofList (t.label.toList.takeWhile (· ≠ ':'))

/-- The names that a node at the top level of a file shows: one for a function, a method or a type,
and those of the nodes below for a group of constants or variables. -/
def declared (t : Outline) : List String :=
  if t.title ∈ ["Func", "Method", "Type"] then [lastWord t.label]
  else if t.title ∈ ["Const", "Var"] then t.children.map fun s => lastWord s.label
  else []

theorem title_eq {t : Outline} {head rest : String} (hlabel : t.label = head ++ rest)
    (hcolon : ':' ∈ head.toList) :
    t.title = String.ofList (head.toList.takeWhile (· ≠ ':')) := by
  have hlength : (head.toList.takeWhile (· ≠ ':')).length ≠ head.toList.length := by
    intro hlength
    have heq := (List.takeWhile_prefix _).eq_of_length hlength
    rw [← heq] at hcolon
    have hne := List.all_eq_true.mp List.all_takeWhile ':' hcolon
    cases hne
  rw [title, hlabel, String.toList_append, List.takeWhile_append, if_neg hlength]

/-- A node that shows one name, which stands at the end of its label. -/
theorem declared_eq_singleton {t : Outline} {head name : String} (hlabel : t.label = head ++ name)
    (hcolon : ':' ∈ head.toList)
    (htitle : String.ofList (head.toList.takeWhile (· ≠ ':')) ∈ ["Func", "Method", "Type"])
    (hlast : head.toList.getLast? = some ' ') (hname : ' ' ∉ name.toList) :
    t.declared = [name] := by
  rw [declared, if_pos (title_eq hlabel hcolon ▸ htitle), hlabel, lastWord_append hlast hname]

/-- A node that shows the names of the nodes below it. -/
theorem declared_eq_map {t : Outline} (hlabel : t.label = "Const" ∨ t.label = "Var") :
    t.declared = t.children.map fun s => lastWord s.label := by
  have htitle : t.title ∉ ["Func", "Method", "Type"] ∧ t.title ∈ ["Const", "Var"] := by
    rcases hlabel with h | h
    · rw [title, h]
      decide
    · rw [title, h]
      decide
  rw [declared, if_neg htitle.1, if_pos htitle.2]

end Outline

end GoOutline

namespace GoOutline.Syntax

open Outline (branch leaf)

/-! ### Declarations -/

theorem Spec.declared_typeOutlines (level : Nat) {s : Spec} (h : s.fits .type)
    (hnames : ∀ w ∈ s.names, ' ' ∉ w.toList) :
    (s.typeOutlines level).flatMap Outline.declared = s.names := by
  cases s with
  | value => simp [Spec.fits] at h
  | type name typeParams isAlias shape =>
    have hname : ' ' ∉ name.toList := hnames name List.mem_cons_self
    rw [Spec.typeOutlines, List.flatMap_singleton]
    exact Outline.declared_eq_singleton rfl (by decide) (by decide) (by decide) hname

theorem Spec.lastWords_constOutlines (level : Nat) {s : Spec} (h : s.fits .const)
    (hnames : ∀ w ∈ s.names, ' ' ∉ w.toList) :
    (s.constOutlines level).map (fun t => lastWord t.label) = s.names := by
  cases s with
  | type => simp [Spec.fits] at h
  | value names shape values =>
    have hlast : ∀ name ∈ names, lastWord ("Const: " ++ name) = name := fun name hname =>
      lastWord_append (by decide) (hnames name hname)
    rw [Spec.constOutlines, List.map_map]
    exact (List.map_congr_left hlast).trans (List.map_id _)

theorem Spec.lastWords_varOutlines (level : Nat) {s : Spec} (h : s.fits .var)
    (hnames : ∀ w ∈ s.names, ' ' ∉ w.toList) :
    (s.varOutlines level).map (fun t => lastWord t.label) = s.names := by
  cases s with
  | type => simp [Spec.fits] at h
  | value names shape values =>
    have hlast : ∀ name ∈ names, lastWord ("Var: " ++ name) = name := fun name hname =>
      lastWord_append (by decide) (hnames name hname)
    cases shape with
    | none =>
      rw [Spec.varOutlines, List.map_map]
      exact (List.map_congr_left hlast).trans (List.map_id _)
    | some shape =>
      rw [Spec.varOutlines, List.map_map]
      exact (List.map_congr_left hlast).trans (List.map_id _)

/-- A group shows the names of its nodes, also where there is no group for want of nodes. -/
theorem declared_gathered {title : String} (htitle : title = "Const" ∨ title = "Var") (level : Nat)
    (children : Forest) :
    (gathered title level children).flatMap Outline.declared
      = children.map fun t => lastWord t.label := by
  cases children with
  | nil => rfl
  | cons t children =>
    show [branch title level (t :: children)].flatMap Outline.declared = _
    rw [List.flatMap_singleton]
    exact Outline.declared_eq_map htitle

theorem map_flatMap_eq {build : Spec → Forest} {specs : List Spec}
    (h : ∀ s ∈ specs, (build s).map (fun t => lastWord t.label) = s.names) :
    (specs.flatMap build).map (fun t => lastWord t.label) = specs.flatMap Spec.names := by
  rw [List.map_flatMap]
  exact List.flatMap_congr h

/-- The nodes of a general declaration show its names. -/
theorem declared_outlineSpecs (level : Nat) (keyword : Keyword) {specs : List Spec}
    (h : ∀ s ∈ specs, s.fits keyword) (hnames : ∀ s ∈ specs, ∀ w ∈ s.names, ' ' ∉ w.toList) :
    (outlineSpecs level keyword specs).flatMap Outline.declared = specs.flatMap Spec.names := by
  cases keyword with
  | type =>
    rw [outlineSpecs, List.flatMap_assoc]
    exact List.flatMap_congr fun s hs => s.declared_typeOutlines level (h s hs) (hnames s hs)
  | const =>
    rw [outlineSpecs, declared_gathered (.inl rfl)]
    exact map_flatMap_eq fun s hs => s.lastWords_constOutlines _ (h s hs) (hnames s hs)
  | var =>
    rw [outlineSpecs, declared_gathered (.inr rfl)]
    exact map_flatMap_eq fun s hs => s.lastWords_varOutlines _ (h s hs) (hnames s hs)

theorem FuncDecl.declared_outline (level : Nat) (f : FuncDecl) (hname : ' ' ∉ f.name.toList) :
    (f.outline level).declared = [f.name] := by
  have htitle : (f.outline level).label = f.title := rfl
  rw [FuncDecl.title] at htitle
  split at htitle
  · next receiver _ =>
    have hhead : ("Method: (" ++ receiver.type.brief ++ ") ").toList
        = "Method: (".toList ++ (receiver.type.brief.toList ++ ") ".toList) := by
      rw [String.toList_append, String.toList_append, List.append_assoc]
    have htake : ("Method: (" ++ receiver.type.brief ++ ") ").toList.takeWhile (· ≠ ':')
        = "Method".toList := by
      rw [hhead]
      rfl
    refine Outline.declared_eq_singleton htitle ?_ ?_ ?_ hname
    · rw [hhead]
      exact List.mem_append_left _ (by decide)
    · rw [htake]
      decide
    · rw [String.toList_append, List.getLast?_append]
      rfl
  · exact Outline.declared_eq_singleton htitle (by decide) (by decide) (by decide) hname

/-- A declaration shows its names. -/
theorem Decl.declared_outlines (level : Nat) {d : Decl} (h : d.isWellShaped)
    (hnames : ∀ w ∈ d.names, ' ' ∉ w.toList) :
    (d.outlines level).flatMap Outline.declared = d.names := by
  cases d with
  | general keyword specs =>
    have hfits : ∀ s ∈ specs, s.fits keyword := by
      simpa [Decl.isWellShaped] using h
    refine declared_outlineSpecs level keyword hfits fun s hs w hw => hnames w ?_
    exact List.mem_flatMap.mpr ⟨s, hs, hw⟩
  | func f =>
    rw [Decl.outlines, List.flatMap_singleton]
    exact f.declared_outline level (hnames f.name List.mem_cons_self)

theorem children_ne_nil_of_mem_gathered {title : String} {level : Nat} {children : Forest}
    {t : Outline} (ht : t ∈ gathered title level children) : t.children ≠ [] := by
  cases children with
  | nil => cases ht
  | cons s children =>
    obtain rfl := List.mem_singleton.mp ht
    exact List.cons_ne_nil s children

/-- The label of a function has a colon. -/
theorem FuncDecl.colon_mem_title (f : FuncDecl) : ':' ∈ f.title.toList := by
  rw [FuncDecl.title]
  split
  · rw [String.toList_append, String.toList_append, String.toList_append, List.append_assoc,
      List.append_assoc]
    exact List.mem_append_left _ (by decide)
  · rw [String.toList_append]
    exact List.mem_append_left _ (by decide)

/-- A group that is shown is not empty. -/
theorem Decl.children_ne_nil (level : Nat) (d : Decl) {t : Outline} (ht : t ∈ d.outlines level)
    (hlabel : t.label = "Const" ∨ t.label = "Var") : t.children ≠ [] := by
  have hcolon : ':' ∉ t.label.toList := by
    rcases hlabel with h | h
    · rw [h]
      decide
    · rw [h]
      decide
  cases d with
  | func f =>
    obtain rfl := List.mem_singleton.mp ht
    exact absurd f.colon_mem_title hcolon
  | general keyword specs =>
    cases keyword with
    | const => exact children_ne_nil_of_mem_gathered ht
    | var => exact children_ne_nil_of_mem_gathered ht
    | type =>
      obtain ⟨s, -, ht⟩ := List.mem_flatMap.mp ht
      cases s with
      | value => cases ht
      | type name typeParams isAlias shape =>
        obtain rfl := List.mem_singleton.mp ht
        exact List.cons_ne_nil _ _

/-! ### Files -/

/-- The node of the imports, which is there if there are any. -/
def importGroup (paths : List String) : Forest :=
  if paths = [] then []
  else [branch "Imports" 2 (paths.map fun path => leaf ("Import: " ++ path) 3)]

theorem gathered_imports (imports : List ImportSpec) :
    gathered "Imports" 2 (imports.map (ImportSpec.outline 3))
      = importGroup (imports.map ImportSpec.path) := by
  cases imports with
  | nil => rfl
  | cons i imports =>
    have hne : (i :: imports).map ImportSpec.path ≠ [] := List.cons_ne_nil _ _
    rw [importGroup, if_neg hne, List.map_map]
    rfl

/-- **No top-level declaration is left out.** In the outline of an accepted file the package clause
comes first, then, if and only if there are imports, one node with the path of each import, and then
the declarations. Read from left to right they show exactly the names that functions, methods, types,
constants and variables declare at the top level of the text, in the same order; and a group of
constants or variables is never empty. -/
theorem declared_of_parse {name source : String} {file : File} (h : parse name source = .ok file)
    (title : String) :
    ∃ tree package rest, readingOf source.toList = some tree ∧
      (itemsOf tree).flatMap (·.node.texts packageSite) = [package] ∧
      (file.outline title).children = leaf ("Package: " ++ package) 2 ::
        (importGroup ((itemsOf tree).flatMap (·.node.texts importSite)) ++ rest) ∧
      rest.flatMap Outline.declared = (itemsOf tree).flatMap (·.node.texts declaredSite) ∧
      ∀ t ∈ rest, t.label = "Const" ∨ t.label = "Var" → t.children ≠ [] := by
  obtain ⟨tree, hread, hfile⟩ := exists_readingOf_of_parse h
  have hreading := isReading_of_readingOf hread
  have hshaped := (of_fileOf_eq_ok hreading.conforms hfile).1
  obtain ⟨hpackage, hpaths, hnames⟩ := texts_of_fileOf hreading.conforms hfile
  have hspaces : ∀ d ∈ file.decls, ∀ w ∈ d.names, ' ' ∉ w.toList := by
    intro d hd w hw
    have hmem : w ∈ (itemsOf tree).flatMap (·.node.texts declaredSite) :=
      hnames ▸ List.mem_flatMap.mpr ⟨d, hd, hw⟩
    obtain ⟨i, hi, hw⟩ := List.mem_flatMap.mp hmem
    rw [← Node.texts_bare] at hw
    exact i.node.bare.not_mem_of_mem_texts (hreading.conforms i hi)
      (isSpelled_of_mem_itemsOf hreading.isSound hi).bare w hw
  refine ⟨tree, file.package, file.decls.flatMap (Decl.outlines 2), hread, hpackage, ?_, ?_, ?_⟩
  · show leaf ("Package: " ++ file.package) 2 :: (gathered "Imports" 2 _ ++ _) = _
    rw [gathered_imports]
    exact congrArg (fun paths => _ :: (importGroup paths ++ _)) hpaths.symm
  · rw [List.flatMap_assoc]
    refine Eq.trans ?_ hnames.symm
    exact List.flatMap_congr fun d hd =>
      d.declared_outlines 2 (List.all_eq_true.mp hshaped d hd) (hspaces d hd)
  · intro t ht hlabel
    obtain ⟨d, -, ht⟩ := List.mem_flatMap.mp ht
    exact d.children_ne_nil 2 ht hlabel

/-- A small source file: an import whose path goes over two lines, variables in a group, and a
method. -/
def spannedSource : String := "package p\nimport `a\nb`\nvar (x, y T;)\nfunc (T) m()\n"

/-- The rows in which it is shown. -/
def spannedRows : List Row :=
  [⟨"[-] File: p.go", 1, false, 0⟩, ⟨"    Package: p", 2, false, 1⟩,
    ⟨"[-] Imports", 2, false, 2⟩, ⟨"    Import: `a\nb`", 3, false, 3⟩,
    ⟨"[-] Var", 2, false, 4⟩, ⟨"[-] Var: x", 3, false, 5⟩, ⟨"    Type: T", 4, false, 6⟩,
    ⟨"[-] Var: y", 3, false, 7⟩, ⟨"    Type: T", 4, false, 8⟩, ⟨"    Method: (T) m", 2, false, 9⟩]

theorem exists_parse_spannedSource : ∃ file, parse "p.go" spannedSource = .ok file ∧
    Forest.rows [file.outline "p.go"] = spannedRows := by
  have hrows : (parse "p.go" spannedSource).toOption.map (fun file =>
      Forest.rows [file.outline "p.go"]) = some spannedRows := by
    decide +kernel
  obtain ⟨file, hfile, hrows⟩ := Option.map_eq_some_iff.mp hrows
  exact ⟨file, eq_ok_of_toOption hfile, hrows⟩

theorem declared_spannedSource : ∃ file, parse "p.go" spannedSource = .ok file ∧
    ∃ tree package rest, readingOf spannedSource.toList = some tree ∧
      (itemsOf tree).flatMap (·.node.texts packageSite) = [package] ∧
      (file.outline "p.go").children = leaf ("Package: " ++ package) 2 ::
        (importGroup ((itemsOf tree).flatMap (·.node.texts importSite)) ++ rest) ∧
      rest.flatMap Outline.declared = (itemsOf tree).flatMap (·.node.texts declaredSite) ∧
      ∀ t ∈ rest, t.label = "Const" ∨ t.label = "Var" → t.children ≠ [] := by
  obtain ⟨file, hfile, -⟩ := exists_parse_spannedSource
  exact ⟨file, hfile, declared_of_parse hfile "p.go"⟩

end GoOutline.Syntax

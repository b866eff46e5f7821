import GoOutline.Proofs.Syntax.Conform
import Mathlib.Algebra.GroupWithZero.Nat
import Mathlib.Data.List.Induction

/-!
# The order of the top level

A file is a package clause, then imports, then declarations.

* `InOrder`: items are so.
* `Follow`: items are as they may be after the package clause.
* `Decl`s and imports are collected item by item: `exists_collect_import`, `exists_collect_decl`,
  `collect_of_other`. `collect_of_follow` and `exists_collect_error` are about all items.
* `ne_unreadable_of_read?`: a text that is read directly is never unreadable.
* `verdict_of_readingOf`: a text that the grammar allows is a file if its items are in order, and
  otherwise the error is about the first item that is not.
* `isWellShaped_of_parse`: every file that is accepted is well shaped.
-/

namespace GoOutline.Syntax

open GoOutline.Grammar (RuleName)
open GoOutline.Parse GoOutline.Text GoOutline.Token

/-! ### Order -/

namespace Item

def isPackage (i : Item) : Bool := i.node.kind = .rule .packageClause

def isImport (i : Item) : Bool := i.node.kind = .rule .importDeclaration

/-- Whether the item declares functions, methods, constants, variables or types. -/
def isDeclaration (i : Item) : Bool :=
  match i.node.kind with
  | .rule .functionDeclaration | .rule .methodDeclaration | .rule .constDeclaration
  | .rule .varDeclaration | .rule .typeDeclaration => true
  | _ => false

end Item

/-- Whether some items are a package clause, then imports, then declarations. -/
def InOrder (items : List Item) : Prop :=
  ∃ package imports decls, items = package :: (imports ++ decls) ∧ package.isPackage ∧
    (∀ i ∈ imports, i.isImport) ∧ ∀ d ∈ decls, d.isDeclaration

/-- Whether some items may follow the package clause: imports, if they are early enough, and then
declarations. -/
def Follow (early : Bool) (items : List Item) : Prop :=
  ∃ imports decls, items = imports ++ decls ∧ (∀ i ∈ imports, i.isImport) ∧
    (∀ d ∈ decls, d.isDeclaration) ∧ (early = false → imports = [])

theorem follow_nil (early : Bool) : Follow early [] :=
  ⟨[], [], rfl, by simp, by simp, fun _ => rfl⟩

theorem Item.not_isDeclaration_of_isImport {i : Item} (hi : i.isImport) :
    i.isDeclaration = false := by
  rw [isImport, decide_eq_true_eq] at hi
  rw [isDeclaration, hi]

theorem follow_cons_import {early : Bool} {i : Item} {items : List Item} (hi : i.isImport) :
    Follow early (i :: items) ↔ early = true ∧ Follow early items := by
  constructor
  · rintro ⟨imports, decls, heq, himports, hdecls, hearly⟩
    cases imports with
    | nil =>
      obtain rfl : i :: items = decls := heq
      have hd := hdecls i List.mem_cons_self
      simp [Item.not_isDeclaration_of_isImport hi] at hd
    | cons j imports =>
      obtain ⟨rfl, rfl⟩ : i = j ∧ items = imports ++ decls := by simpa using heq
      obtain rfl : early = true := by simpa using hearly
      exact ⟨rfl, imports, decls, rfl, (List.forall_mem_cons.mp himports).2, hdecls, by simp⟩
  · rintro ⟨rfl, imports, decls, rfl, himports, hdecls, -⟩
    exact ⟨i :: imports, decls, rfl, List.forall_mem_cons.mpr ⟨hi, himports⟩, hdecls, by simp⟩

theorem follow_cons_decl {early : Bool} {i : Item} {items : List Item} (hi : i.isDeclaration) :
    Follow early (i :: items) ↔ Follow false items := by
  constructor
  · rintro ⟨imports, decls, heq, himports, hdecls, -⟩
    cases imports with
    | nil =>
      obtain rfl : i :: items = decls := heq
      exact ⟨[], items, rfl, himports, (List.forall_mem_cons.mp hdecls).2, fun _ => rfl⟩
    | cons j imports =>
      obtain ⟨rfl, rfl⟩ : i = j ∧ items = imports ++ decls := by simpa using heq
      have hj := himports i List.mem_cons_self
      simp [Item.not_isDeclaration_of_isImport hj] at hi
  · rintro ⟨imports, decls, rfl, -, hdecls, hearly⟩
    obtain rfl := hearly rfl
    exact ⟨[], i :: decls, rfl, by simp, List.forall_mem_cons.mpr ⟨hi, hdecls⟩, fun _ => rfl⟩

theorem not_follow_cons_other {early : Bool} {i : Item} {items : List Item} (hi : i.isImport = false)
    (hd : i.isDeclaration = false) : ¬ Follow early (i :: items) := by
  rintro ⟨imports, decls, heq, himports, hdecls, -⟩
  have hmem : i ∈ imports ++ decls := by rw [← heq]; exact List.mem_cons_self
  rcases List.mem_append.mp hmem with h | h
  · exact absurd (himports i h) (by simp [hi])
  · exact absurd (hdecls i h) (by simp [hd])

theorem inOrder_cons {i : Item} {items : List Item} :
    InOrder (i :: items) ↔ i.isPackage ∧ Follow true items := by
  constructor
  · rintro ⟨_, imports, decls, heq, hpackage, himports, hdecls⟩
    obtain ⟨rfl, rfl⟩ := List.cons.inj heq
    exact ⟨hpackage, imports, decls, rfl, himports, hdecls, by simp⟩
  · rintro ⟨hpackage, imports, decls, rfl, himports, hdecls, -⟩
    exact ⟨i, imports, decls, rfl, hpackage, himports, hdecls⟩

theorem not_inOrder_nil : ¬ InOrder [] := by
  rintro ⟨_, _, _, h, -⟩
  cases h

/-! ### Collecting the items -/

/-- What an item contributes, of the right sort and with its words; comments in it do not matter. -/
theorem Item.exists_lower {i : Item} (h : i.node.bare.conforms) :
    ∃ p, i.node.lower? = some p ∧ p.Is i.node.kind.category ∧
      p.words = i.node.bare.pruned.words ["."] := by
  obtain ⟨p, hp⟩ := i.node.bare.exists_lowers h
  exact ⟨p, i.node.lower?_bare ▸ hp.lower?_eq, i.node.kind_bare ▸ hp.is, hp.words_eq⟩

theorem exists_collect_import {i : Item} (hi : i.isImport) (h : i.node.bare.conforms) :
    ∃ is, is.flatMap ImportSpec.words = i.node.bare.pruned.words ["."] ∧
      ∀ more imports, collect (i :: more) imports [] = collect more (imports ++ is) [] := by
  rw [Item.isImport, decide_eq_true_eq] at hi
  obtain ⟨p, hlower, his, hwords⟩ := Item.exists_lower h
  rw [hi] at his
  obtain ⟨is, rfl⟩ := his
  refine ⟨is, hwords, fun more imports => ?_⟩
  rw [collect]
  simp [hi, hlower]

theorem exists_collect_decl {i : Item} (hi : i.isDeclaration) (h : i.node.bare.conforms) :
    ∃ d : Decl, d.isWellShaped ∧ d.words = i.node.bare.pruned.words ["."] ∧
      ∀ more imports decls,
        collect (i :: more) imports decls = collect more imports (decls ++ [d]) := by
  obtain ⟨p, hlower, his, hwords⟩ := Item.exists_lower h
  unfold Item.isDeclaration at hi
  split at hi
  case h_6 => cases hi
  all_goals
    rename_i hk
    rw [hk] at his
    obtain ⟨v, rfl, hv⟩ := his
  · exact ⟨.func v, hv, hwords, fun _ _ _ => by rw [collect]; simp only [hk, hlower]⟩
  · exact ⟨.func v, hv, hwords, fun _ _ _ => by rw [collect]; simp only [hk, hlower]⟩
  · exact ⟨.general .const v, by simpa [Decl.isWellShaped] using hv, hwords,
      fun _ _ _ => by rw [collect]; simp only [hk, hlower]⟩
  · exact ⟨.general .var v, by simpa [Decl.isWellShaped] using hv, hwords,
      fun _ _ _ => by rw [collect]; simp only [hk, hlower]⟩
  · exact ⟨.general .type v, by simpa [Decl.isWellShaped] using hv, hwords,
      fun _ _ _ => by rw [collect]; simp only [hk, hlower]⟩

theorem collect_of_other {i : Item} (hi : i.isImport = false) (hd : i.isDeclaration = false)
    (more : List Item) (imports : List ImportSpec) (decls : List Decl) :
    collect (i :: more) imports decls = .error (i.place, .noDeclaration (snippet i.text)) := by
  rw [collect]
  unfold Item.isImport at hi
  unfold Item.isDeclaration at hd
  split <;> simp_all

theorem collect_of_late {i : Item} (hi : i.isImport) (more : List Item)
    (imports : List ImportSpec) {decls : List Decl} (hdecls : decls ≠ []) :
    collect (i :: more) imports decls = .error (i.place, .lateImport) := by
  rw [Item.isImport, decide_eq_true_eq] at hi
  rw [collect]
  simp [hi, hdecls]

/-- The run over items in order: all imports and declarations are collected. -/
theorem exists_collect_of_follow {items : List Item} (h : ∀ i ∈ items, i.node.bare.conforms)
    (imports : List ImportSpec) (decls : List Decl) (hfollow : Follow decls.isEmpty items) :
    ∃ is ds, collect items imports decls = .ok (imports ++ is, decls ++ ds) ∧
      (∀ d ∈ ds, d.isWellShaped) ∧
      is.flatMap ImportSpec.words ++ ds.flatMap Decl.words =
        items.flatMap (·.node.bare.pruned.words ["."]) ∧
      (decls ≠ [] → is = []) := by
  induction items generalizing imports decls with
  | nil => exact ⟨[], [], by simp [collect], by simp, rfl, fun _ => rfl⟩
  | cons i items ih =>
    obtain ⟨hi, hitems⟩ := List.forall_mem_cons.mp h
    by_cases himport : i.isImport
    · obtain ⟨hempty, hfollow⟩ := (follow_cons_import himport).mp hfollow
      obtain rfl := List.isEmpty_iff.mp hempty
      obtain ⟨is, hwords, hstep⟩ := exists_collect_import himport hi
      obtain ⟨is', ds, hrun, hshaped, hwords', -⟩ := ih hitems (imports ++ is) [] hfollow
      refine ⟨is ++ is', ds, by rw [hstep, hrun, List.append_assoc], hshaped, ?_, by simp⟩
      rw [List.flatMap_append, List.append_assoc, hwords', hwords, List.flatMap_cons]
    · by_cases hdecl : i.isDeclaration
      · obtain ⟨d, hshape, hwords, hstep⟩ := exists_collect_decl hdecl hi
        have hlate : (decls ++ [d]).isEmpty = false := List.isEmpty_eq_false_iff.mpr (by simp)
        obtain ⟨is, ds, hrun, hshaped, hwords', hnone⟩ := ih hitems imports (decls ++ [d])
          (by rwa [hlate, ← follow_cons_decl hdecl])
        obtain rfl := hnone (by simp)
        refine ⟨[], d :: ds, by rw [hstep, hrun, List.append_assoc]; rfl,
          List.forall_mem_cons.mpr ⟨hshape, hshaped⟩, ?_, fun _ => rfl⟩
        rw [List.flatMap_cons, List.flatMap_cons, ← hwords', hwords]
        rfl
      · exact absurd hfollow
          (not_follow_cons_other (Bool.eq_false_iff.mpr himport) (Bool.eq_false_iff.mpr hdecl))

/-- The cause of the error about an item that may not follow. -/
def Item.cause (i : Item) : Cause :=
  if i.isImport then .lateImport else .noDeclaration (snippet i.text)

theorem Item.message_cause (i : Item) : i.cause.message =
    if i.isImport then "imports must appear before other declarations"
    else "expected declaration, found '" ++ snippet i.text ++ "'" :=
  apply_ite Cause.message _ _ _

theorem Item.cause_ne_unreadable (i : Item) : i.cause ≠ .unreadable := by
  rw [Item.cause]
  split <;> simp

/-- The run over items that are not in order stops at the first that may not follow. -/
theorem exists_collect_error {items : List Item} (h : ∀ i ∈ items, i.node.bare.conforms)
    (imports : List ImportSpec) (decls : List Decl) (hfollow : ¬ Follow decls.isEmpty items) :
    ∃ before i after, items = before ++ i :: after ∧ Follow decls.isEmpty before ∧
      ¬ Follow decls.isEmpty (before ++ [i]) ∧
      collect items imports decls = .error (i.place, i.cause) := by
  induction items generalizing imports decls with
  | nil => exact absurd (follow_nil _) hfollow
  | cons i items ih =>
    obtain ⟨hi, hitems⟩ := List.forall_mem_cons.mp h
    by_cases himport : i.isImport
    · cases decls with
      | nil =>
        obtain ⟨is, -, hstep⟩ := exists_collect_import himport hi
        obtain ⟨before, j, after, rfl, hbefore, hnot, hrun⟩ :=
          ih hitems (imports ++ is) [] (by simpa [follow_cons_import himport] using hfollow)
        refine ⟨i :: before, j, after, rfl, (follow_cons_import himport).mpr ⟨rfl, hbefore⟩, ?_,
          by rw [hstep, hrun]⟩
        rw [List.cons_append, follow_cons_import himport]
        exact fun hf => hnot hf.2
      | cons d decls =>
        refine ⟨[], i, items, rfl, follow_nil _, by simp [follow_cons_import himport], ?_⟩
        rw [collect_of_late himport items imports (List.cons_ne_nil d decls), Item.cause,
          if_pos himport]
    · by_cases hdecl : i.isDeclaration
      · obtain ⟨d, -, -, hstep⟩ := exists_collect_decl hdecl hi
        have hlate : (decls ++ [d]).isEmpty = false := List.isEmpty_eq_false_iff.mpr (by simp)
        obtain ⟨before, j, after, rfl, hbefore, hnot, hrun⟩ := ih hitems imports (decls ++ [d])
          (by rwa [hlate, ← follow_cons_decl hdecl])
        rw [hlate] at hbefore hnot
        refine ⟨i :: before, j, after, rfl, (follow_cons_decl hdecl).mpr hbefore, ?_,
          by rw [hstep, hrun]⟩
        rwa [List.cons_append, follow_cons_decl hdecl]
      · have hother := @not_follow_cons_other decls.isEmpty i [] (Bool.eq_false_iff.mpr himport)
          (Bool.eq_false_iff.mpr hdecl)
        refine ⟨[], i, items, rfl, follow_nil _, hother, ?_⟩
        rw [collect_of_other (Bool.eq_false_iff.mpr himport) (Bool.eq_false_iff.mpr hdecl),
          Item.cause, if_neg himport]

/-! ### Files -/

theorem exists_lower_package {i : Item} (hi : i.isPackage) (h : i.node.bare.conforms) :
    ∃ name, i.node.lower? = some (.package name) ∧ [name] = i.node.bare.pruned.words ["."] := by
  rw [Item.isPackage, decide_eq_true_eq] at hi
  obtain ⟨p, hlower, his, hwords⟩ := Item.exists_lower h
  rw [hi] at his
  obtain ⟨name, rfl⟩ := his
  exact ⟨name, hlower, hwords⟩

theorem fileOf_cons {i : Item} (hi : i.isPackage) {name : String}
    (hname : i.node.lower? = some (.package name)) (items : List Item) :
    fileOf (i :: items) =
      (collect items [] []).map fun (imports, decls) => ⟨name, imports, decls⟩ := by
  rw [Item.isPackage, decide_eq_true_eq] at hi
  rw [fileOf]
  simp only [hi, hname]

theorem fileOf_of_not_package {i : Item} (hi : i.isPackage = false) (items : List Item) :
    fileOf (i :: items) = .error (i.place, .noPackage (snippet i.text)) := by
  rw [fileOf]
  unfold Item.isPackage at hi
  split <;> simp_all

/-- Items in order make a well-shaped file with all their words. -/
theorem exists_fileOf_of_inOrder {items : List Item} (h : ∀ i ∈ items, i.node.bare.conforms)
    (horder : InOrder items) :
    ∃ file, fileOf items = .ok file ∧ file.isWellShaped ∧
      file.words = items.flatMap (·.node.bare.pruned.words ["."]) := by
  cases items with
  | nil => exact absurd horder not_inOrder_nil
  | cons i items =>
    obtain ⟨hi, hitems⟩ := List.forall_mem_cons.mp h
    obtain ⟨hpackage, hfollow⟩ := inOrder_cons.mp horder
    obtain ⟨name, hname, hword⟩ := exists_lower_package hpackage hi
    obtain ⟨is, ds, hrun, hshaped, hwords, -⟩ := exists_collect_of_follow hitems [] [] hfollow
    refine ⟨⟨name, is, ds⟩, ?_, List.all_eq_true.mpr hshaped, ?_⟩
    · rw [fileOf_cons hpackage hname, hrun]
      rfl
    · rw [File.words, List.append_assoc, hwords, hword, List.flatMap_cons]

/-- The message about an item that is out of place after some others. -/
def offence (before : List Item) (i : Item) : String :=
  if before.isEmpty then "expected 'package', found '" ++ snippet i.text ++ "'"
  else if i.isImport then "imports must appear before other declarations"
  else "expected declaration, found '" ++ snippet i.text ++ "'"

/-- Whether an item is the first that is out of place. -/
def IsFirstOffender (items before : List Item) (i : Item) : Prop :=
  (∃ after, items = before ++ i :: after) ∧ (before = [] ∨ InOrder before) ∧
    ¬ InOrder (before ++ [i])

/-- Items that are not in order make no file, because of the first that is out of place. -/
theorem exists_fileOf_error {items : List Item} (h : ∀ i ∈ items, i.node.bare.conforms)
    (hne : items ≠ []) (horder : ¬ InOrder items) :
    ∃ before i cause, IsFirstOffender items before i ∧ fileOf items = .error (i.place, cause) ∧
      cause.message = offence before i := by
  cases items with
  | nil => exact absurd rfl hne
  | cons i items =>
    obtain ⟨hi, hitems⟩ := List.forall_mem_cons.mp h
    by_cases hpackage : i.isPackage
    · obtain ⟨name, hname, -⟩ := exists_lower_package hpackage hi
      obtain ⟨before, j, after, rfl, hbefore, hnot, hrun⟩ :=
        exists_collect_error hitems [] [] fun hf => horder (inOrder_cons.mpr ⟨hpackage, hf⟩)
      refine ⟨i :: before, j, j.cause, ⟨⟨after, rfl⟩, .inr (inOrder_cons.mpr ⟨hpackage, hbefore⟩),
        fun ho => hnot (inOrder_cons.mp ho).2⟩, ?_, ?_⟩
      · rw [fileOf_cons hpackage hname, hrun]
        rfl
      · exact j.message_cause
    · refine ⟨[], i, .noPackage (snippet i.text), ⟨⟨items, rfl⟩, .inl rfl,
        fun ho => hpackage (inOrder_cons.mp ho).1⟩, ?_, rfl⟩
      exact fileOf_of_not_package (Bool.eq_false_iff.mpr hpackage) items

theorem exists_fileOf_eq_error {items : List Item} (h : ∀ i ∈ items, i.node.bare.conforms)
    (horder : ¬ InOrder items) : ∃ e, fileOf items = .error e := by
  by_cases hne : items = []
  · exact ⟨(0, .emptyFile), by rw [hne]; rfl⟩
  · obtain ⟨before, i, cause, -, herror, -⟩ := exists_fileOf_error h hne horder
    exact ⟨(i.place, cause), herror⟩

/-- The error about items that conform is never that they cannot be read. -/
theorem ne_unreadable_of_fileOf {items : List Item} (h : ∀ i ∈ items, i.node.bare.conforms)
    {place : Nat} {cause : Cause} (hfile : fileOf items = .error (place, cause)) :
    cause ≠ .unreadable := by
  cases items with
  | nil =>
    cases hfile
    decide
  | cons i items =>
    obtain ⟨hi, hitems⟩ := List.forall_mem_cons.mp h
    by_cases hpackage : i.isPackage
    · obtain ⟨name, hname, -⟩ := exists_lower_package hpackage hi
      rw [fileOf_cons hpackage hname] at hfile
      by_cases hfollow : Follow true items
      · obtain ⟨is, ds, hrun, -⟩ := exists_collect_of_follow hitems [] [] hfollow
        rw [hrun] at hfile
        cases hfile
      · obtain ⟨before, j, after, -, -, -, hrun⟩ := exists_collect_error hitems [] [] hfollow
        rw [hrun] at hfile
        cases hfile
        exact j.cause_ne_unreadable
    · rw [fileOf_of_not_package (Bool.eq_false_iff.mpr hpackage)] at hfile
      cases hfile
      simp

/-! ### Places -/

theorem after_append_singleton (cs : List Char) (c : Char) :
    Position.after (cs ++ [c]) = (Position.after cs).next c := by
  rw [Position.after, List.foldl_append]
  rfl

/-- Lines are counted by line breaks. -/
theorem line_after (cs : List Char) : (Position.after cs).line = cs.count '\n' + 1 := by
  induction cs using List.reverseRecOn with
  | nil => rfl
  | append_singleton cs c ih =>
    rw [after_append_singleton, Position.next, List.count_append]
    split
    · next hc => simp [hc, ih]
    · next hc => simp [hc, ih]

/-- Columns are counted by the bytes on the line. -/
theorem column_after (cs : List Char) : (Position.after cs).column =
    ((cs.reverse.takeWhile (· ≠ '\n')).map Char.utf8Size).sum + 1 := by
  induction cs using List.reverseRecOn with
  | nil => rfl
  | append_singleton cs c ih =>
    rw [after_append_singleton, Position.next]
    split
    · next hc => simp [hc]
    · next hc =>
      simp [hc, ih]
      omega

/-! ### Source files -/

theorem parseText_eq_of_readingOf {text : List Char} {tree : Tree}
    (h : readingOf text = some tree) : parseText text = fileOf (itemsOf tree) := by
  delta parseText
  rw [h]

theorem parse_eq_of_fileOf_eq_ok {name source : String} {tree : Tree} {file : File}
    (h : readingOf source.toList = some tree) (hfile : fileOf (itemsOf tree) = .ok file) :
    parse name source = .ok file := by
  delta parse
  simp only [parseText_eq_of_readingOf h, hfile]

theorem parse_eq_of_fileOf_eq_error {name source : String} {tree : Tree}
    {place : Nat} {cause : Cause} (h : readingOf source.toList = some tree)
    (hfile : fileOf (itemsOf tree) = .error (place, cause)) :
    parse name source = .error ⟨name, .after (source.toList.take place), cause⟩ := by
  delta parse
  simp only [parseText_eq_of_readingOf h, hfile]

theorem parse_eq_ok_iff {name source : String} {tree : Tree} {file : File}
    (h : readingOf source.toList = some tree) :
    parse name source = .ok file ↔ fileOf (itemsOf tree) = .ok file := by
  refine ⟨fun hparse => ?_, parse_eq_of_fileOf_eq_ok h⟩
  cases hfile : fileOf (itemsOf tree) with
  | error e => cases (parse_eq_of_fileOf_eq_error h hfile).symm.trans hparse
  | ok file' => cases (parse_eq_of_fileOf_eq_ok h hfile).symm.trans hparse; rfl

/-- A text that is read directly is never unreadable: its tree passes all tests, and its items
contribute something. -/
theorem ne_unreadable_of_read? {name source : String} {tree : Tree}
    (hread : read? source.toList = some tree) {e : SyntaxError} (h : parse name source = .error e) :
    e.cause ≠ .unreadable := by
  have hreading := readingOf_of_read? hread
  cases hfile : fileOf (itemsOf tree) with
  | ok file => cases (parse_eq_of_fileOf_eq_ok hreading hfile).symm.trans h
  | error err =>
    cases (parse_eq_of_fileOf_eq_error hreading hfile).symm.trans h
    exact ne_unreadable_of_fileOf (isReading_of_readingOf hreading).conforms hfile

/-- What becomes of a text that the grammar allows, with its tree. -/
structure Verdict (name source : String) (tree : Tree) : Prop where
  chars_eq : tree.chars = source.toList
  /-- An item stands in the text where it is said to stand. -/
  stands : ∀ i ∈ itemsOf tree, StandsAt i.place i.text source.toList
  /-- Nothing inside an item is a reason for an error. -/
  lowers : ∀ i ∈ itemsOf tree, i.node.lower?.isSome
  accepted_iff : (∃ file, parse name source = .ok file) ↔ InOrder (itemsOf tree)
  empty : itemsOf tree = [] → ∃ e, parse name source = .error e ∧ e.file = name ∧
    e.place = ⟨1, 1⟩ ∧ e.cause.message = "expected 'package', found 'EOF'"
  /-- The error is about the first item that is out of place, and says where it begins. -/
  offends : itemsOf tree ≠ [] → ¬ InOrder (itemsOf tree) →
    ∃ before i e, IsFirstOffender (itemsOf tree) before i ∧
      parse name source = .error e ∧ e.file = name ∧
      e.place.line = (source.toList.take i.place).count '\n' + 1 ∧
      e.place.column =
        (((source.toList.take i.place).reverse.takeWhile (· ≠ '\n')).map Char.utf8Size).sum + 1 ∧
      e.cause.message = offence before i

/-- A text that the grammar allows is a file if and only if its items are in order. Otherwise the
error is about the first item that is out of place. -/
theorem verdict_of_readingOf (name : String) {source : String} {tree : Tree}
    (h : readingOf source.toList = some tree) : Verdict name source tree := by
  have hreading := isReading_of_readingOf h
  have hconforms := hreading.conforms
  refine ⟨hreading.chars_eq, fun i hi => hreading.standsAt hi, fun i hi => ?_, ⟨?_, ?_⟩, ?_, ?_⟩
  · obtain ⟨p, hlower, -⟩ := Item.exists_lower (hconforms i hi)
    rw [hlower]
    rfl
  · rintro ⟨file, hfile⟩
    by_contra horder
    obtain ⟨e, herror⟩ := exists_fileOf_eq_error hconforms horder
    rw [parse_eq_of_fileOf_eq_error h herror] at hfile
    cases hfile
  · intro horder
    obtain ⟨file, hfile, -⟩ := exists_fileOf_of_inOrder hconforms horder
    exact ⟨file, parse_eq_of_fileOf_eq_ok h hfile⟩
  · intro hnil
    have hfile : fileOf (itemsOf tree) = .error (0, .emptyFile) := by rw [hnil]; rfl
    exact ⟨_, parse_eq_of_fileOf_eq_error h hfile, rfl, rfl, rfl⟩
  · intro hne horder
    obtain ⟨before, i, cause, hfirst, herror, hmessage⟩ :=
      exists_fileOf_error hconforms hne horder
    exact ⟨before, i, _, hfirst, parse_eq_of_fileOf_eq_error h herror, rfl, line_after _,
      column_after _, hmessage⟩

theorem eq_ok_of_toOption {ε α : Type} {r : Except ε α} {a : α} (h : r.toOption = some a) :
    r = .ok a := by
  cases r with
  | error e => cases h
  | ok b => cases h; rfl

/-- A small source file: a loop over a range, with a comment in it. -/
def loopSource : String :=
  "package p\n\nfunc f() \x7b\n\tfor a, b, c = range /* all */ d \x7b\n\t\x7d\n\x7d\n"

theorem exists_reading_loopSource : ∃ tree file, read? loopSource.toList = some tree ∧
    readingOf loopSource.toList = some tree ∧ fileOf (itemsOf tree) = .ok file := by
  have h : ((read? loopSource.toList).any fun tree =>
      (fileOf (itemsOf tree)).toOption.isSome) = true := by
    decide +kernel
  obtain ⟨tree, hread, h⟩ := (Option.any_eq_true _ _).mp h
  obtain ⟨file, hfile⟩ := Option.isSome_iff_exists.mp h
  exact ⟨tree, file, hread, readingOf_of_read? hread, eq_ok_of_toOption hfile⟩

theorem verdict_loopSource : ∃ tree, readingOf loopSource.toList = some tree ∧
    Verdict "p.go" loopSource tree := by
  obtain ⟨tree, -, -, h, -⟩ := exists_reading_loopSource
  exact ⟨tree, h, verdict_of_readingOf "p.go" h⟩

/-! ### Accepted files -/

/-- An accepted text has a reading, whose items make the file. -/
theorem exists_readingOf_of_parse {name source : String} {file : File}
    (h : parse name source = .ok file) : ∃ tree,
      readingOf source.toList = some tree ∧ fileOf (itemsOf tree) = .ok file := by
  cases hread : readingOf source.toList with
  | none =>
    delta parse parseText at h
    simp [hread] at h
  | some tree => exact ⟨tree, rfl, (parse_eq_ok_iff hread).mp h⟩

/-- Only items in order make a file, and it is well shaped and has all their words. -/
theorem of_fileOf_eq_ok {items : List Item} {file : File} (h : ∀ i ∈ items, i.node.bare.conforms)
    (hfile : fileOf items = .ok file) :
    file.isWellShaped ∧ file.words = items.flatMap (·.node.bare.pruned.words ["."]) := by
  by_cases horder : InOrder items
  · obtain ⟨file', hfile', hresult⟩ := exists_fileOf_of_inOrder h horder
    cases hfile.symm.trans hfile'
    exact hresult
  · obtain ⟨e, herror⟩ := exists_fileOf_eq_error h horder
    cases hfile.symm.trans herror

/-- Every accepted file is well shaped, at every depth. -/
theorem isWellShaped_of_parse {name source : String} {file : File}
    (h : parse name source = .ok file) : file.isWellShaped := by
  obtain ⟨tree, hread, hfile⟩ := exists_readingOf_of_parse h
  exact (of_fileOf_eq_ok (isReading_of_readingOf hread).conforms hfile).1

theorem isWellShaped_loopSource :
    ∃ file, parse "p.go" loopSource = .ok file ∧ file.isWellShaped := by
  obtain ⟨tree, file, -, h, hfile⟩ := exists_reading_loopSource
  have hparse : parse "p.go" loopSource = .ok file := parse_eq_of_fileOf_eq_ok h hfile
  exact ⟨file, hparse, isWellShaped_of_parse hparse⟩

end GoOutline.Syntax

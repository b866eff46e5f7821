import GoOutline.Parse.Reading
import GoOutline.Parse.Repair
import GoOutline.Parse.Sound
import GoOutline.Syntax.Error
import GoOutline.Syntax.Lower

/-!
# Parsing source files

* `treeOf`: the parse tree of a text. A text that the grammar allows is read directly; any other text
  is read with repair, and then the tree shows what does not fit.
* `Item`, `itemsOf`: what stands at the top level of a text.
* `readingOf`: the tree of a text that the grammar allows, as it stands or with line breaks added.
* `faultIn`: what does not fit in any other text.
* `fileOf`: the file that some items make, or the first of them that is out of place.
* `parse`: the file with a given text, or the first error in it.
-/

namespace GoOutline.Syntax

open GoOutline.Grammar (Terminal RuleName)
open GoOutline.Parse GoOutline.Text GoOutline.Token

/-! ### Trees -/

/-- The parse tree of a text. Its characters are those of the text. -/
def treeOf (text : List Char) : Option Tree :=
  (read? text).filter (·.chars == text) <|> (repair text).filter (·.chars == text)

/-- The cause that a fault in a tree gives. -/
def causeOf : Fault → Cause
  | .missing t role =>
    match t.kindName? role with
    | some name => .missingKind name
    | none => .missingToken (t.spelling?.getD "")
  | .unexpected text =>
    let found := snippet text
    if found.isEmpty then .unexpectedEnd else .unexpected found

/-! ### The top level -/

/-- Something at the top level of a text. -/
structure Item where
  /-- Number of characters before it. -/
  place : Nat
  text : List Char
  node : Node

/-- What stands at the top level of a tree. -/
def itemsOf (tree : Tree) : List Item :=
  tree.items.flatMap fun (place, t) =>
    (t.view none Label.none).map fun (_, node) => ⟨place, t.text, node⟩

/-- The tree of a text in which nothing that shows is faulty, whose tokens are whole, and whose nodes
have children that their rules allow. -/
def readingOf (text : List Char) : Option Tree :=
  (treeOf text).filter fun tree =>
    tree.isSound && areWhole tree.tokens text && (itemsOf tree).all (·.node.bare.conforms)

/-- An error at an item. -/
abbrev ItemError := Nat × Cause

/-- The first thing that does not fit in a text that the grammar does not allow. -/
def faultIn (text : List Char) : ItemError :=
  match (treeOf text).bind Tree.firstFault? with
  | some (place, fault) => (place, causeOf fault)
  | none => (0, .unreadable)

/-- The imports and declarations that some items add to others. An import must not follow a
declaration. -/
def collect : List Item → List ImportSpec → List Decl →
    Except ItemError (List ImportSpec × List Decl)
  | [], imports, decls => .ok (imports, decls)
  | i :: more, imports, decls =>
    match i.node.kind with
    | .rule .importDeclaration =>
      if !decls.isEmpty then .error (i.place, .lateImport)
      else
        match i.node.lower? with
        | some (.imports is) => collect more (imports ++ is) decls
        | _ => .error (i.place, .unreadable)
    | .rule .functionDeclaration | .rule .methodDeclaration =>
      match i.node.lower? with
      | some (.func f) => collect more imports (decls ++ [.func f])
      | _ => .error (i.place, .unreadable)
    | .rule .constDeclaration | .rule .varDeclaration | .rule .typeDeclaration =>
      match i.node.lower? with
      | some (.decl keyword specs) => collect more imports (decls ++ [.general keyword specs])
      | _ => .error (i.place, .unreadable)
    | _ => .error (i.place, .noDeclaration (snippet i.text))

/-- The file that some items make: a package clause, then imports, then declarations. -/
def fileOf (items : List Item) : Except ItemError File :=
  match items with
  | [] => .error (0, .emptyFile)
  | i :: more =>
    match i.node.kind with
    | .rule .packageClause =>
      match i.node.lower? with
      | some (.package name) =>
        (collect more [] []).map fun (imports, decls) => ⟨name, imports, decls⟩
      | _ => .error (i.place, .unreadable)
    | _ => .error (i.place, .noPackage (snippet i.text))

/-! ### Source files -/

/-- The file with the given text, or the place and cause of the first error. -/
def parseText (text : List Char) : Except ItemError File :=
  match readingOf text with
  | some tree => fileOf (itemsOf tree)
  | none => .error (faultIn text)

/-- The file with the given name and text, or the first error in it. -/
def parse (name source : String) : Except SyntaxError File :=
  let text := source.toList
  match parseText text with
  | .ok file => .ok file
  | .error (place, cause) => .error ⟨name, .after (text.take place), cause⟩

end GoOutline.Syntax

import GoOutline.Syntax.File

/-!
# Expressions on one line

* `Expr.brief`: a short text for an expression. What stands in bodies, in argument lists and inside
  types is left out.
* `brief?`: the same where an expression may be absent.
-/

namespace GoOutline.Syntax

/-- A short text for an expression. -/
def Expr.brief : Expr → String
  | ident name => name
  | basicLit _ value => value
  | selector x sel => x.brief ++ "." ++ sel
  | star x => "*" ++ x.brief
  | arrayType (some length) element => "[" ++ length.brief ++ "]" ++ element.brief
  | arrayType none element => "[]" ++ element.brief
  | mapType key value => "map[" ++ key.brief ++ "]" ++ value.brief
  | chanType .send value => "chan<- " ++ value.brief
  | chanType .receive value => "<-chan " ++ value.brief
  | chanType .both value => "chan " ++ value.brief
  | funcType _ => "func(...)"
  | interfaceType _ => "interface\x7b\x7d"
  | structType _ => "struct\x7b...\x7d"
  | ellipsis (some element) => "..." ++ element.brief
  | ellipsis none => "..."
  | call fn _ _ => fn.brief ++ "(...)"
  | index x i => x.brief ++ "[" ++ i.brief ++ "]"
  | indexList x _ => x.brief ++ "[...]"
  | binary x op y => x.brief ++ " " ++ op.text ++ " " ++ y.brief
  | unary op x => op.text ++ x.brief
  | paren x => "(" ++ x.brief ++ ")"
  | compositeLit (some type) _ => type.brief ++ "\x7b...\x7d"
  | compositeLit none _ => "\x7b...\x7d"
  | funcLit _ _ => "func()\x7b...\x7d"
  | slice x low high max => (slice x low high max).kind
  | typeAssert x type => (typeAssert x type).kind
  | keyValue key value => (keyValue key value).kind

/-- A short text for an expression; nothing stands for an absent one. -/
def brief? : Option Expr → String
  | some x => x.brief
  | none => ""

end GoOutline.Syntax

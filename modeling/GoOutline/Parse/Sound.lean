import GoOutline.Parse.View

/-!
# Sound trees

* `Tree.isSound`: a tree in which nothing that shows is faulty or missing, and each token is spelled
  as it should be.
* `Lexeme`, `Tree.lexemes`, `Tree.tokens`: the tokens of a tree; a string literal is one of them.
* `areWhole`: names and keywords are not cut short.
-/

namespace GoOutline.Parse

open GoOutline.Grammar GoOutline.Automaton GoOutline.Syntax GoOutline.Text GoOutline.Token

/-! ### Tokens in their places -/

/-- Whether a text is a token as the lexicon spells it. Several line breaks may count as one, the end
of the text has no characters, and the terminator that stands there may have none. -/
def isSpelled (t : Terminal) (text : List Char) : Bool :=
  match t with
  | .lineBreak => (Pattern.many1 Terminal.lineBreak.pattern).accepts text
  | .endOfInput => text.isEmpty
  | .nul => text.isEmpty || Terminal.nul.pattern.accepts text
  | t => t.pattern.accepts text

/-- Whether a character may stand between tokens: white space, or an encoding mark. -/
def isGap (c : Char) : Bool := isBlank c || c == byteOrderMark

/-- Whether the leaf is a token as it should be, or a missing line break, which does not show. Only
comments and the end belong to no production. -/
def Leaf.isSound (l : Leaf) : Bool :=
  (if l.isMissing then l.token == some .lineBreak && l.space.isEmpty && l.text.isEmpty
    else l.token.any (isSpelled · l.text))
    && l.space.all isGap
    && (!l.isExtra || l.token == some .comment || l.token == some .endOfInput)

namespace Tree

mutual

/-- Whether nothing that shows in the tree is faulty or missing. -/
def isSound : Tree → Bool
  | leaf l => l.isSound
  | node b children => (b.head matches .nonterminal _) && !b.isExtra && allSound children

/-- Whether all trees are sound. -/
def allSound : List Tree → Bool
  | [] => true
  | t :: more => isSound t && allSound more

end

end Tree

/-! ### Lexemes -/

/-- A token with the space before it. A string literal counts as one token. -/
structure Lexeme where
  kind : Kind
  space : List Char
  text : List Char

/-- The rule of a string literal, if the head is one. -/
def Head.literal? : Head → Option RuleName
  | nonterminal n =>
    if !isHidden n && isLiteral (RuleName.ofNat n) then some (RuleName.ofNat n) else none
  | _ => none

namespace Tree

mutual

/-- The tokens of a tree that are in its text. -/
def lexemes : Tree → List Lexeme
  | leaf l =>
    match l.token with
    | some t => if l.isMissing then [] else [⟨.token t none, l.space, l.text⟩]
    | none => []
  | node b children =>
    match b.head.literal? with
    | some n => [⟨.rule n, space (node b children), text (node b children)⟩]
    | none => allLexemes children

/-- The tokens of several trees. -/
def allLexemes : List Tree → List Lexeme
  | [] => []
  | t :: more => lexemes t ++ allLexemes more

end

/-- The tokens of a whole source file. -/
def tokens (t : Tree) : List Lexeme := allLexemes t.children

end Tree

/-- Whether no name or keyword goes on after its token in a text that begins with the tokens. -/
def areWhole : List Lexeme → List Char → Bool
  | [], _ => true
  | l :: more, text =>
    let rest := text.drop (l.space.length + l.text.length)
    !(l.text.head?.any isIdentifierStart && rest.head?.any isIdentifierPart)
      && areWhole more rest

end GoOutline.Parse

import GoOutline.Yaml.Scan

/-!
# YAML documents

* `Node`: what a document holds.
* `readNode`: the node that some tokens stand for.
* `document?`: the only document in a text.

An alias stands for the scalar that its anchor was put on; an alias of a collection is a node of its
own kind.
-/

namespace GoOutline.Yaml

/-- What a document holds. -/
inductive Node where
  | scalar (text : List Char)
  | sequence (items : List Node)
  | mapping (fields : List (Node × Node))
  /-- A collection that stands elsewhere. -/
  | reference

instance : Inhabited Node := ⟨.scalar []⟩

/-- What an anchor was put on: a scalar with a text, or a collection. -/
abbrev Anchors := List (List Char × Option (List Char))

/-- Tokens that are being read, and the anchors so far. -/
structure Source where
  tokens : List Token
  anchors : Anchors := []
  handles : List (List Char) := []

/-- A way to read a part of a document. -/
abbrev Reading := StateT Source Option

/-- The next token. -/
def peek : Reading (Option Token) := do return (← get).tokens.head?

/-- Passes over the next token. -/
def advance : Reading Unit := modify fun s => { s with tokens := s.tokens.drop 1 }

/-- Passes over the next token, which must be the given one. -/
def expect (t : Token) : Reading Unit := do
  if (← peek) = some t then advance else failure

/-- Whether the next token is one of the given ones. -/
def isNext (tokens : List Token) : Reading Bool := do
  match ← peek with
  | some t => return tokens.contains t
  | none => return false

/-- Puts an anchor on something. -/
def define (anchor : Option (List Char)) (text : Option (List Char)) : Reading Unit :=
  match anchor with
  | some name => modify fun s => { s with anchors := (name, text) :: s.anchors }
  | none => return

/-- What an alias stands for. -/
def resolve (name : List Char) : Reading Node := do
  match (← get).anchors.lookup name with
  | some (some text) => return .scalar text
  | some none => return .reference
  | none => failure

/-- The handles of tags that need no directive. -/
def knownHandles : List (List Char) := [[], ['!'], ['!', '!']]

/-- An anchor, if one comes next. -/
def readAnchor? : Reading (Option (List Char)) := do
  match ← peek with
  | some (.anchor name) =>
    advance
    return some name
  | _ => return none

/-- Whether a tag comes next, which is passed over. Its handle must be known. -/
def readTag? : Reading Bool := do
  match ← peek with
  | some (.tag handle) =>
    advance
    if knownHandles.contains handle || (← get).handles.contains handle then return true
    else failure
  | _ => return false

/-- The anchor and the tag before a node, in any order. -/
def readProperties : Reading (Option (List Char) × Bool) := do
  match ← readAnchor? with
  | some name => return (some name, ← readTag?)
  | none =>
    let isTagged ← readTag?
    if isTagged then return (← readAnchor?, true) else return (none, false)

/-- A scalar without a text. -/
def emptyScalar : Node := .scalar []

mutual

/-- Reads a node. In a block it may be a block; as a part of a mapping it may be a sequence in the
same column. -/
def readNode (inBlock mayHang : Bool) : (fuel : Nat) → Reading Node
  | 0 => failure
  | fuel + 1 => do
    match ← peek with
    | some (.alias name) =>
      advance
      resolve name
    | _ =>
      let (anchor, isTagged) ← readProperties
      match ← peek with
      | some .blockItem =>
        if mayHang then
          define anchor none
          return .sequence (← readHanging fuel)
        else readEmpty anchor isTagged
      | some (.scalar text) =>
        advance
        define anchor (some text)
        return .scalar text
      | some .flowSequenceStart =>
        define anchor none
        advance
        return .sequence (← readFlowItems true fuel)
      | some .flowMappingStart =>
        define anchor none
        advance
        return .mapping (← readFlowFields true fuel)
      | some .sequenceStart =>
        if inBlock then
          define anchor none
          advance
          return .sequence (← readItems fuel)
        else readEmpty anchor isTagged
      | some .mappingStart =>
        if inBlock then
          define anchor none
          advance
          return .mapping (← readFields fuel)
        else readEmpty anchor isTagged
      | _ => readEmpty anchor isTagged
where
  /-- Nothing but an anchor or a tag. -/
  readEmpty (anchor : Option (List Char)) (isTagged : Bool) : Reading Node := do
    if anchor.isSome || isTagged then
      define anchor (some [])
      return emptyScalar
    else failure

/-- Reads a node, or nothing where one of the given tokens comes next. -/
def readNodeUnless (stops : List Token) (inBlock mayHang : Bool) : (fuel : Nat) → Reading Node
  | 0 => failure
  | fuel + 1 => do
    if ← isNext stops then return emptyScalar else readNode inBlock mayHang fuel

/-- Reads the items of a sequence in a block of its own. -/
def readItems : (fuel : Nat) → Reading (List Node)
  | 0 => failure
  | fuel + 1 => do
    match ← peek with
    | some .blockItem =>
      advance
      let item ← readNodeUnless [.blockItem, .blockEnd] true false fuel
      return item :: (← readItems fuel)
    | some .blockEnd =>
      advance
      return []
    | _ => failure

/-- Reads the items of a sequence that stands in the column of a mapping. -/
def readHanging : (fuel : Nat) → Reading (List Node)
  | 0 => failure
  | fuel + 1 => do
    match ← peek with
    | some .blockItem =>
      advance
      let item ← readNodeUnless [.blockItem, .key, .value, .blockEnd] true false fuel
      return item :: (← readHanging fuel)
    | _ => return []

/-- Reads the fields of a mapping in a block. -/
def readFields : (fuel : Nat) → Reading (List (Node × Node))
  | 0 => failure
  | fuel + 1 => do
    match ← peek with
    | some .key =>
      advance
      let name ← readNodeUnless [.key, .value, .blockEnd] true true fuel
      let value ← readFieldValue fuel
      return (name, value) :: (← readFields fuel)
    | some .value =>
      failure
    | some .blockEnd =>
      advance
      return []
    | _ => failure

/-- Reads the value of a field in a block. -/
def readFieldValue : (fuel : Nat) → Reading Node
  | 0 => failure
  | fuel + 1 => do
    match ← peek with
    | some .value =>
      advance
      readNodeUnless [.key, .value, .blockEnd] true true fuel
    | _ => return emptyScalar

/-- Reads the items of a flow sequence. An item with a key is a mapping of its own. -/
def readFlowItems (isFirst : Bool) : (fuel : Nat) → Reading (List Node)
  | 0 => failure
  | fuel + 1 => do
    if (← peek) = some .flowSequenceEnd then
      advance
      return []
    else
      if !isFirst then expect .flowItem
      match ← peek with
      | some .flowSequenceEnd =>
        advance
        return []
      | some .key =>
        advance
        let field ← readFlowPair fuel
        return .mapping [field] :: (← readFlowItems false fuel)
      | _ =>
        let item ← readNode false false fuel
        return item :: (← readFlowItems false fuel)

/-- Reads the key and the value of an item with a key. Where the key is missing, the token after it is
passed over. -/
def readFlowPair : (fuel : Nat) → Reading (Node × Node)
  | 0 => failure
  | fuel + 1 => do
    let name ←
      if ← isNext [.value, .flowItem, .flowSequenceEnd] then do
        advance
        pure emptyScalar
      else readNode false false fuel
    match ← peek with
    | some .value =>
      advance
      return (name, ← readNodeUnless [.flowItem, .flowSequenceEnd] false false fuel)
    | _ => return (name, emptyScalar)

/-- Reads the fields of a flow mapping. -/
def readFlowFields (isFirst : Bool) : (fuel : Nat) → Reading (List (Node × Node))
  | 0 => failure
  | fuel + 1 => do
    if (← peek) = some .flowMappingEnd then
      advance
      return []
    else
      if !isFirst then expect .flowItem
      match ← peek with
      | some .flowMappingEnd =>
        advance
        return []
      | some .key =>
        advance
        let name ← readNodeUnless [.value, .flowItem, .flowMappingEnd] false false fuel
        match ← peek with
        | some .value =>
          advance
          let value ← readNodeUnless [.flowItem, .flowMappingEnd] false false fuel
          return (name, value) :: (← readFlowFields false fuel)
        | _ => return (name, emptyScalar) :: (← readFlowFields false fuel)
      | _ =>
        let name ← readNode false false fuel
        return (name, emptyScalar) :: (← readFlowFields false fuel)

end

/-! ### Documents -/

/-- Reads the directives before a document; the result tells whether there are any. -/
def readDirectives : (fuel : Nat) → (hasVersion : Bool) → List (List Char) → Reading Bool
  | 0, _, _ => failure
  | fuel + 1, hasVersion, handles => do
    match ← peek with
    | some (.version major minor) =>
      if hasVersion || major ≠ 1 || (minor ≠ 1 && minor ≠ 2) then failure
      advance
      readDirectives fuel true handles
    | some (.tagHandle handle) =>
      if handles.contains handle then failure
      advance
      readDirectives fuel hasVersion (handle :: handles)
    | _ =>
      modify fun s => { s with handles := handles }
      return hasVersion || !handles.isEmpty

/-- Reads one document, from its first token to its end. -/
def readDocument (fuel : Nat) : Reading Node := do
  let hasDirectives ← readDirectives fuel false []
  let node ←
    if hasDirectives || (← peek) = some .documentStart then do
      expect .documentStart
      if (← peek).isNone || (← isNext [.documentStart, .documentEnd]) || (← isDirectiveNext) then
        pure emptyScalar
      else readNode true false fuel
    else readNode true false fuel
  skipEnds fuel
  return node
where
  /-- Whether a directive comes next. -/
  isDirectiveNext : Reading Bool := do
    match ← peek with
    | some (.version ..) | some (.tagHandle _) => return true
    | _ => return false
  /-- Passes over lines that end a document. -/
  skipEnds : Nat → Reading Unit
    | 0 => return
    | fuel + 1 => do
      if (← peek) = some .documentEnd then
        advance
        skipEnds fuel

/-- The document in a text, if there is exactly one. -/
def document? (text : List Char) : Option Node := do
  let tokens ← scan text
  let (node, source) ← (readDocument (4 * tokens.length + 4)).run { tokens := tokens }
  if source.tokens.isEmpty then some node else none

end GoOutline.Yaml

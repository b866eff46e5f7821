import GoOutline.Grammar.Symbol
import GoOutline.Syntax.Brief
import Mathlib.Data.List.Basic

/-!
# Types are told apart by their labels

The short text of a type is put together without any escaping, and the texts of different kinds of
types begin in similar ways. Still a type that is shown in full can be read back from its text: its
first word or sign tells its kind, and what follows it closes a bracket or is the end.

* `isName`, `isNumeral`: the words of types.
* `Expr.IsPlainType`: the types whose parts are all shown.
* `TypeLabel.readType`: the type at the start of a text.
* `TypeLabel.readType_brief`: it is the type that the text was made of.
* `brief_inj`: plain types with the same text are the same.
-/

namespace GoOutline.Syntax

open GoOutline.Grammar (Terminal)

/-! ### Words -/

/-- Characters of names: letters, digits and underscores. Beyond ASCII none is left out, so those of
every script are among them. -/
def isNameChar (c : Char) : Bool := c.isAlphanum || c == '_' || 128 ≤ c.toNat

/-- The words that are no names. -/
def reservedWords : List String :=
  (Terminal.all.filter Terminal.isReserved).filterMap Terminal.spelling?

/-- Names. They do not begin with a digit. -/
def isName (s : String) : Bool :=
  s != "" && s.toList.all isNameChar && !s.toList.head?.any Char.isDigit
    && !reservedWords.contains s

/-- Whole numbers in any base. They begin with a digit. -/
def isNumeral (s : String) : Bool := s.toList.all isNameChar && s.toList.head?.any Char.isDigit

/-! ### Plain types -/

/-- A name, or a name with the package that it is from. -/
inductive Expr.IsTypeName : Expr → Prop
  | ident {name : String} (h : isName name) : IsTypeName (.ident name)
  | qualified {package name : String} (hpackage : isName package) (hname : isName name) :
      IsTypeName (.selector (.ident package) name)

/-- The length of an array: a constant, a number, or the ellipsis that leaves it open. -/
inductive Expr.IsLength : Expr → Prop
  | ident {name : String} (h : isName name) : IsLength (.ident name)
  | numeral {value : String} (h : isNumeral value) : IsLength (.basicLit .int value)
  | ellipsis : IsLength (.ellipsis none)

/-- A type of which everything is shown. -/
inductive Expr.IsPlainType : Expr → Prop
  | named {x : Expr} (h : x.IsTypeName) : IsPlainType x
  | pointer {x : Expr} (h : x.IsPlainType) : IsPlainType (.star x)
  | slice {x : Expr} (h : x.IsPlainType) : IsPlainType (.arrayType none x)
  | array {length x : Expr} (hlength : length.IsLength) (h : x.IsPlainType) :
      IsPlainType (.arrayType (some length) x)
  | map {key value : Expr} (hkey : key.IsPlainType) (hvalue : value.IsPlainType) :
      IsPlainType (.mapType key value)
  | chan (dir : Direction) {x : Expr} (h : x.IsPlainType) : IsPlainType (.chanType dir x)
  | paren {x : Expr} (h : x.IsPlainType) : IsPlainType (.paren x)
  | generic {x i : Expr} (h : x.IsTypeName) (hi : i.IsPlainType) : IsPlainType (.index x i)

namespace TypeLabel

/-! ### The characters of a label -/

section

variable (x y : Expr) (name : String)

theorem toList_brief_selector :
    (Expr.selector x name).brief.toList = x.brief.toList ++ '.' :: name.toList := by
  show (x.brief ++ "." ++ name).toList = _
  simp

theorem toList_brief_star : (Expr.star x).brief.toList = '*' :: x.brief.toList := by
  show ("*" ++ x.brief).toList = _
  simp

theorem toList_brief_slice :
    (Expr.arrayType none x).brief.toList = '[' :: ']' :: x.brief.toList := by
  show ("[]" ++ x.brief).toList = _
  simp

theorem toList_brief_array : (Expr.arrayType (some x) y).brief.toList
    = '[' :: (x.brief.toList ++ ']' :: y.brief.toList) := by
  show ("[" ++ x.brief ++ "]" ++ y.brief).toList = _
  simp

theorem toList_brief_map : (Expr.mapType x y).brief.toList
    = "map".toList ++ '[' :: (x.brief.toList ++ ']' :: y.brief.toList) := by
  show ("map[" ++ x.brief ++ "]" ++ y.brief).toList = _
  simp

/-- What stands before the element of a channel. -/
def chanSign : Direction → List Char
  | .both => "chan".toList ++ [' ']
  | .send => "chan".toList ++ ['<', '-', ' ']
  | .receive => '<' :: "-chan ".toList

theorem toList_brief_chan (dir : Direction) :
    (Expr.chanType dir x).brief.toList = chanSign dir ++ x.brief.toList := by
  cases dir with
  | both => exact String.toList_append
  | send => exact String.toList_append
  | receive => exact String.toList_append

theorem toList_brief_paren :
    (Expr.paren x).brief.toList = '(' :: (x.brief.toList ++ [')']) := by
  show ("(" ++ x.brief ++ ")").toList = _
  simp

theorem toList_brief_index : (Expr.index x y).brief.toList
    = x.brief.toList ++ '[' :: (y.brief.toList ++ [']']) := by
  show (x.brief ++ "[" ++ y.brief ++ "]").toList = _
  simp

end

/-! ### Reading a type -/

/-- The word at the start of a text. -/
def wordOf (text : List Char) : String := String.ofList (text.takeWhile isNameChar)

/-- What follows the word at the start of a text. -/
def afterWord (text : List Char) : List Char := text.dropWhile isNameChar

/-- The length that stands between the brackets of an array or of a slice. -/
def lengthOf (text : List Char) : Option Expr :=
  if text = [] then none
  else if text.head? = some '.' then some (.ellipsis none)
  else if text.head?.any Char.isDigit then some (.basicLit .int (String.ofList text))
  else some (.ident (String.ofList text))

section

variable (read : List Char → Expr × List Char)

/-- A type that begins with a sign, where its parts are read in the given way. -/
def readMarked : List Char → Expr × List Char
  | '*' :: rest => (.star (read rest).1, (read rest).2)
  | '(' :: rest => (.paren (read rest).1, (read rest).2.drop 1)
  | '[' :: rest =>
    let element := read ((rest.dropWhile (· != ']')).drop 1)
    (.arrayType (lengthOf (rest.takeWhile (· != ']'))) element.1, element.2)
  | rest =>
    let value := read (rest.drop "<-chan ".length)
    (.chanType .receive value.1, value.2)

/-- The rest of a map. -/
def readMap (rest : List Char) : Expr × List Char :=
  let key := read (rest.drop "[".length)
  let value := read (key.2.drop "]".length)
  (.mapType key.1 value.1, value.2)

/-- The rest of a channel. -/
def readChan : List Char → Expr × List Char
  | ' ' :: rest => (.chanType .both (read rest).1, (read rest).2)
  | rest =>
    let value := read (rest.drop "<- ".length)
    (.chanType .send value.1, value.2)

/-- A name and the arguments of a generic type after it. -/
def readArgument (name : Expr) : List Char → Expr × List Char
  | '[' :: rest => (.index name (read rest).1, (read rest).2.drop "]".length)
  | rest => (name, rest)

/-- The rest of a type that begins with a name. -/
def readNamed (name : String) : List Char → Expr × List Char
  | '.' :: rest => readArgument read (.selector (.ident name) (wordOf rest)) (afterWord rest)
  | rest => readArgument read (.ident name) rest

end

/-- The type at the start of a text, and what follows it. -/
def readType : (fuel : Nat) → List Char → Expr × List Char
  | 0, text => (default, text)
  | fuel + 1, text =>
    if wordOf text = "" then readMarked (readType fuel) text
    else if wordOf text = "map" then readMap (readType fuel) (afterWord text)
    else if wordOf text = "chan" then readChan (readType fuel) (afterWord text)
    else readNamed (readType fuel) (wordOf text) (afterWord text)

theorem readType_succ {fuel : Nat} (h : 0 < fuel) (text : List Char) :
    readType fuel text =
      if wordOf text = "" then readMarked (readType (fuel - 1)) text
      else if wordOf text = "map" then readMap (readType (fuel - 1)) (afterWord text)
      else if wordOf text = "chan" then readChan (readType (fuel - 1)) (afterWord text)
      else readNamed (readType (fuel - 1)) (wordOf text) (afterWord text) := by
  cases fuel with
  | zero => exact absurd h (Nat.lt_irrefl 0)
  | succ fuel => rfl

/-! ### Words in a text -/

variable {s : String} {rest : List Char}

/-- A text that does not go on with a name. -/
def EndsName (rest : List Char) : Prop := rest.head?.all (!isNameChar ·)

theorem endsName_of_head {c : Char} (h : isNameChar c = false) : EndsName (c :: rest) := by
  show (!isNameChar c) = true
  rw [h]
  rfl

theorem takeWhile_append (h : s.toList.all isNameChar) (hrest : EndsName rest) :
    (s.toList ++ rest).takeWhile isNameChar = s.toList := by
  rw [List.takeWhile_append_of_pos (List.all_eq_true.mp h)]
  cases rest with
  | nil => rw [List.takeWhile_nil, List.append_nil]
  | cons c rest =>
    have hc : ¬ isNameChar c = true := by simpa [EndsName] using hrest
    rw [List.takeWhile_cons_of_neg hc, List.append_nil]

theorem wordOf_append (h : s.toList.all isNameChar) (hrest : EndsName rest) :
    wordOf (s.toList ++ rest) = s := by
  rw [wordOf, takeWhile_append h hrest, String.ofList_toList]

theorem afterWord_append (h : s.toList.all isNameChar) (hrest : EndsName rest) :
    afterWord (s.toList ++ rest) = rest := by
  rw [afterWord, List.dropWhile_append_of_pos (List.all_eq_true.mp h)]
  cases rest with
  | nil => rfl
  | cons c rest =>
    have hc : ¬ isNameChar c = true := by simpa [EndsName] using hrest
    rw [List.dropWhile_cons_of_neg hc]

/-- A name is no word that has a meaning of its own in a type. -/
theorem ne_of_isName (h : isName s) : s ≠ "" ∧ s ≠ "map" ∧ s ≠ "chan" := by
  refine ⟨?_, ?_, ?_⟩ <;> rintro rfl <;> exact absurd h (by decide +kernel)

theorem all_of_isName (h : isName s) : s.toList.all isNameChar := by
  rw [isName, Bool.and_eq_true, Bool.and_eq_true, Bool.and_eq_true] at h
  exact h.1.1.2

theorem not_digit_of_isName (h : isName s) : s.toList.head?.any Char.isDigit = false := by
  rw [isName, Bool.and_eq_true, Bool.and_eq_true] at h
  exact (Bool.not_eq_eq_eq_not ..).mp h.1.2

/-! ### What follows a type -/

/-- What may follow a type: a bracket that is closed, or nothing. -/
def Closes (rest : List Char) : Prop := rest.head?.all fun c => c == ']' || c == ')'

theorem closes_bracket : Closes (']' :: rest) := rfl

theorem closes_paren : Closes (')' :: rest) := rfl

theorem Closes.cases (h : Closes rest) :
    rest = [] ∨ (∃ more, rest = ']' :: more) ∨ ∃ more, rest = ')' :: more := by
  cases rest with
  | nil => exact .inl rfl
  | cons c more =>
    have hc : c = ']' ∨ c = ')' := by simpa [Closes] using h
    rcases hc with rfl | rfl
    · exact .inr (.inl ⟨more, rfl⟩)
    · exact .inr (.inr ⟨more, rfl⟩)

theorem Closes.endsName (h : Closes rest) : EndsName rest := by
  rcases h.cases with rfl | ⟨more, rfl⟩ | ⟨more, rfl⟩
  · rfl
  · exact endsName_of_head (by decide)
  · exact endsName_of_head (by decide)

theorem Closes.ne_dot (h : Closes rest) : rest.head? ≠ some '.' := by
  intro hdot
  rw [Closes, hdot] at h
  exact absurd h (by decide)

/-! ### Types that begin with a name -/

theorem readType_of_isName {fuel : Nat} (hfuel : 0 < fuel) (h : isName s) (hrest : EndsName rest) :
    readType fuel (s.toList ++ rest) = readNamed (readType (fuel - 1)) s rest := by
  obtain ⟨hempty, hmap, hchan⟩ := ne_of_isName h
  rw [readType_succ hfuel, wordOf_append (all_of_isName h) hrest,
    afterWord_append (all_of_isName h) hrest, if_neg hempty, if_neg hmap, if_neg hchan]

theorem readNamed_of_ne_dot (read : List Char → Expr × List Char) (name : String)
    (h : rest.head? ≠ some '.') :
    readNamed read name rest = readArgument read (.ident name) rest := by
  unfold readNamed
  split
  · exact absurd rfl h
  · rfl

/-- A name is read as far as it goes; what comes then is not part of it. -/
theorem readType_typeName {fuel : Nat} (hfuel : 0 < fuel) {x : Expr} (h : x.IsTypeName)
    (hrest : EndsName rest) (hdot : rest.head? ≠ some '.') :
    readType fuel (x.brief.toList ++ rest) = readArgument (readType (fuel - 1)) x rest := by
  cases h with
  | @ident name h =>
    show readType fuel (name.toList ++ rest) = _
    rw [readType_of_isName hfuel h hrest, readNamed_of_ne_dot _ _ hdot]
  | @qualified package name hpackage hname =>
    have hname := all_of_isName hname
    have hends : EndsName ('.' :: (name.toList ++ rest)) := endsName_of_head (by decide)
    rw [toList_brief_selector, List.append_assoc, List.cons_append]
    show readType fuel (package.toList ++ '.' :: (name.toList ++ rest)) = _
    rw [readType_of_isName hfuel hpackage hends, readNamed, wordOf_append hname hrest,
      afterWord_append hname hrest]

theorem readArgument_of_closes (read : List Char → Expr × List Char) (x : Expr) (h : Closes rest) :
    readArgument read x rest = (x, rest) := by
  rcases h.cases with rfl | ⟨more, rfl⟩ | ⟨more, rfl⟩ <;> rfl

/-- A type that begins with a reserved word. -/
theorem readType_of_word {fuel : Nat} (hfuel : 0 < fuel) (h : s = "map" ∨ s = "chan")
    (hrest : EndsName rest) :
    readType fuel (s.toList ++ rest)
      = if s = "map" then readMap (readType (fuel - 1)) rest
        else readChan (readType (fuel - 1)) rest := by
  have hall : s.toList.all isNameChar := by rcases h with rfl | rfl <;> decide
  rw [readType_succ hfuel, wordOf_append hall hrest, afterWord_append hall hrest]
  rcases h with rfl | rfl <;> rfl

/-! ### Types that begin with a sign -/

theorem readType_of_sign {fuel : Nat} (hfuel : 0 < fuel) {c : Char} (h : isNameChar c = false) :
    readType fuel (c :: rest) = readMarked (readType (fuel - 1)) (c :: rest) := by
  have hc : ¬ isNameChar c = true := ne_true_of_eq_false h
  have hword : wordOf (c :: rest) = "" := by
    rw [wordOf, List.takeWhile_cons_of_neg hc, String.ofList_nil]
  rw [readType_succ hfuel, if_pos hword]

theorem ne_bracket_of_all (h : s.toList.all isNameChar) : ∀ c ∈ s.toList, (c != ']') = true := by
  intro c hc
  have hname := List.all_eq_true.mp h c hc
  rw [bne_iff_ne]
  rintro rfl
  exact absurd hname (by decide)

/-- A word that is not empty is no ellipsis, and its first character tells what it is. -/
theorem lengthOf_word (h : s.toList.all isNameChar) (hempty : s ≠ "") :
    lengthOf s.toList = if s.toList.head?.any Char.isDigit then some (.basicLit .int s)
      else some (.ident s) := by
  have hnil : s.toList ≠ [] := by simpa using hempty
  have hdot : s.toList.head? ≠ some '.' := by
    intro hhead
    exact absurd (List.all_eq_true.mp h '.' (List.mem_of_head? hhead)) (by decide)
  rw [lengthOf, String.ofList_toList, if_neg hnil, if_neg hdot]

/-- The length of an array is found again, and it does not close the bracket. -/
theorem lengthOf_brief {length : Expr} (h : length.IsLength) :
    lengthOf length.brief.toList = some length ∧ ∀ c ∈ length.brief.toList, (c != ']') = true := by
  cases h with
  | ident h =>
    have hall := all_of_isName h
    refine ⟨?_, ne_bracket_of_all hall⟩
    exact (lengthOf_word hall (ne_of_isName h).1).trans (by rw [not_digit_of_isName h]; rfl)
  | @numeral value h =>
    obtain ⟨hall, hdigit⟩ : value.toList.all isNameChar ∧ value.toList.head?.any Char.isDigit := by
      rwa [isNumeral, Bool.and_eq_true] at h
    have hempty : value ≠ "" := by
      rintro rfl
      exact absurd hdigit (by decide)
    exact ⟨(lengthOf_word hall hempty).trans (if_pos hdigit), ne_bracket_of_all hall⟩
  | ellipsis => exact ⟨rfl, List.all_eq_true.mp (by decide +kernel)⟩

/-- The brackets of an array or of a slice and what stands between them. -/
theorem readMarked_bracket (read : List Char → Expr × List Char) {length : List Char} {x : Expr}
    {text : List Char} (h : ∀ c ∈ length, (c != ']') = true) (hread : read text = (x, rest)) :
    readMarked read ('[' :: (length ++ ']' :: text)) = (.arrayType (lengthOf length) x, rest) := by
  have htake : (length ++ ']' :: text).takeWhile (· != ']') = length := by
    rw [List.takeWhile_append_of_pos h, List.takeWhile_cons_of_neg (by decide), List.append_nil]
  have hdrop : (length ++ ']' :: text).dropWhile (· != ']') = ']' :: text := by
    rw [List.dropWhile_append_of_pos h, List.dropWhile_cons_of_neg (by decide)]
  rw [readMarked, htake, hdrop, List.drop_one, List.tail_cons, hread]

theorem readMap_brackets (read : List Char → Expr × List Char) {key value : Expr}
    {keyText valueText : List Char}
    (hkey : read (keyText ++ ']' :: valueText) = (key, ']' :: valueText))
    (hvalue : read valueText = (value, rest)) :
    readMap read ('[' :: (keyText ++ ']' :: valueText)) = (.mapType key value, rest) := by
  show (let k := read (keyText ++ ']' :: valueText)
    let v := read (k.2.drop 1)
    (Expr.mapType k.1 v.1, v.2)) = _
  rw [hkey]
  show (Expr.mapType key (read valueText).1, (read valueText).2) = _
  rw [hvalue]

theorem length_lt_chan (dir : Direction) (x : Expr) :
    x.brief.toList.length < (Expr.chanType dir x).brief.toList.length := by
  have hsign : 0 < (chanSign dir).length := by cases dir <;> decide
  rw [toList_brief_chan, List.length_append]
  omega

/-- The sign before or after the word tells the direction of a channel. -/
theorem readType_chan (dir : Direction) {fuel : Nat} (hfuel : 0 < fuel) {x : Expr}
    (h : readType (fuel - 1) (x.brief.toList ++ rest) = (x, rest)) :
    readType fuel ((Expr.chanType dir x).brief.toList ++ rest) = (.chanType dir x, rest) := by
  rw [toList_brief_chan]
  cases dir with
  | both =>
    rw [chanSign, List.append_assoc, List.append_assoc, List.singleton_append,
      readType_of_word hfuel (.inr rfl) (endsName_of_head (by decide)), if_neg (by decide),
      readChan, h]
  | send =>
    rw [chanSign, List.append_assoc, List.append_assoc, List.cons_append,
      readType_of_word hfuel (.inr rfl) (endsName_of_head (by decide)), if_neg (by decide)]
    show (Expr.chanType .send (readType (fuel - 1) (x.brief.toList ++ rest)).1,
      (readType (fuel - 1) (x.brief.toList ++ rest)).2) = _
    rw [h]
  | receive =>
    rw [chanSign, List.cons_append, List.cons_append, readType_of_sign hfuel (by decide)]
    show (Expr.chanType .receive (readType (fuel - 1) (x.brief.toList ++ rest)).1,
      (readType (fuel - 1) (x.brief.toList ++ rest)).2) = _
    rw [h]

/-! ### All types -/

/-- **A plain type is read back from its text**, whatever follows the text and closes a bracket. -/
theorem readType_brief {t : Expr} (h : t.IsPlainType) {fuel : Nat} {rest : List Char}
    (hfuel : t.brief.toList.length < fuel) (hrest : Closes rest) :
    readType fuel (t.brief.toList ++ rest) = (t, rest) := by
  -- the induction goes along the type; the text of a part is shorter, and what follows it is the
  -- bracket that it stands in or what follows the whole
  induction h generalizing fuel rest with
  | named h =>
    rw [readType_typeName (by omega) h hrest.endsName hrest.ne_dot,
      readArgument_of_closes _ _ hrest]
  | @pointer x h ih =>
    rw [toList_brief_star, List.length_cons] at hfuel
    rw [toList_brief_star, List.cons_append, readType_of_sign (by omega) (by decide), readMarked,
      ih (by omega) hrest]
  | @slice x h ih =>
    rw [toList_brief_slice, List.length_cons, List.length_cons] at hfuel
    rw [toList_brief_slice, List.cons_append, List.cons_append,
      readType_of_sign (by omega) (by decide)]
    exact readMarked_bracket _ (show ∀ c ∈ [], (c != ']') = true by simp) (ih (by omega) hrest)
  | @array length x hlength h ih =>
    rw [toList_brief_array, List.length_cons, List.length_append, List.length_cons] at hfuel
    obtain ⟨hread, hbracket⟩ := lengthOf_brief hlength
    rw [toList_brief_array, List.cons_append, List.append_assoc, List.cons_append,
      readType_of_sign (by omega) (by decide),
      readMarked_bracket _ hbracket (ih (by omega) hrest), hread]
  | @map key value hkey hvalue ihkey ihvalue =>
    rw [toList_brief_map, List.length_append, List.length_cons, List.length_append,
      List.length_cons] at hfuel
    rw [toList_brief_map, List.append_assoc, List.cons_append, List.append_assoc, List.cons_append,
      readType_of_word (by omega) (.inl rfl) (endsName_of_head (by decide)), if_pos rfl]
    exact readMap_brackets _ (ihkey (by omega) closes_bracket) (ihvalue (by omega) hrest)
  | @chan dir x h ih =>
    have hlength := length_lt_chan dir x
    exact readType_chan dir (by omega) (ih (by omega) hrest)
  | @paren x h ih =>
    rw [toList_brief_paren, List.length_cons, List.length_append] at hfuel
    rw [toList_brief_paren, List.cons_append, List.append_assoc,
      readType_of_sign (by omega) (by decide), readMarked, List.singleton_append,
      ih (by omega) closes_paren]
    rfl
  | @generic x i h hi ih =>
    rw [toList_brief_index, List.length_append, List.length_cons, List.length_append] at hfuel
    rw [toList_brief_index, List.append_assoc, List.cons_append, List.append_assoc,
      List.singleton_append,
      readType_typeName (by omega) h (endsName_of_head (by decide)) (by simp), readArgument,
      ih (by omega) closes_bracket]
    rfl

end TypeLabel

/-- **Types are told apart by their labels.** Two types of any depth that are shown in full have the
same text only if they are the same type. -/
theorem brief_inj {t u : Expr} (ht : t.IsPlainType) (hu : u.IsPlainType) :
    brief? (some t) = brief? (some u) ↔ t = u := by
  constructor
  · intro h
    have htext : t.brief = u.brief := h
    have hcloses : TypeLabel.Closes [] := rfl
    have hreadt := TypeLabel.readType_brief ht (Nat.lt_succ_self _) hcloses
    have hreadu := TypeLabel.readType_brief hu (Nat.lt_succ_self _) hcloses
    rw [htext, hreadu] at hreadt
    exact (Prod.mk.inj hreadt).1.symm
  · rintro rfl
    rfl

theorem brief_inj_channels :
    let element : Expr :=
      .arrayType (some (.ellipsis none)) (.index (.selector (.ident "p") "L") (.star (.ident "T")))
    let t : Expr := .mapType (.ident "K") (.chanType .send (.chanType .both element))
    let u : Expr := .mapType (.ident "K") (.chanType .both (.chanType .receive element))
    brief? (some t) = "map[K]chan<- chan [...]p.L[*T]" ∧
    brief? (some u) = "map[K]chan <-chan [...]p.L[*T]" ∧
    t.IsPlainType ∧ u.IsPlainType ∧ (brief? (some t) = brief? (some u) ↔ t = u) := by
  intro element t u
  have helement : element.IsPlainType :=
    .array .ellipsis (.generic (.qualified (by decide +kernel) (by decide +kernel))
      (.pointer (.named (.ident (by decide +kernel)))))
  have hkey : (Expr.ident "K").IsPlainType := .named (.ident (by decide +kernel))
  have ht : t.IsPlainType := .map hkey (.chan .send (.chan .both helement))
  have hu : u.IsPlainType := .map hkey (.chan .both (.chan .receive helement))
  exact ⟨by decide +kernel, by decide +kernel, ht, hu, brief_inj ht hu⟩

end GoOutline.Syntax

import GoOutline.Outline.Render
import GoOutline.Proofs.Json.Read
import Mathlib.Data.List.Basic

/-!
# What is written as JSON is read back

* `readChars_flatMap_escaped`: the characters of a string are read back, however they are escaped.
* `readUnsigned_toDigits`: so are numbers, of any size.
* `Value.datum`: what a value that is written stands for.
* `readValue_chars`: every value is read back, at whatever level it stands in a text.
* `read?_render`: rows are read back from their JSON form.
-/

namespace GoOutline.Json

open GoOutline.Text (hexNumber?)

/-! ### Strings -/

theorem hexNumber?_control : ∀ n < 32,
    hexNumber? ['0', '0', hexDigit (n / 16), hexDigit (n % 16)] = some n := by decide

section

variable {fuel : Nat} {c : Char} {cs text rest : List Char}

theorem readChars_backslash {after : List Char} (h : readChars fuel text = some (cs, rest))
    (hescape : readEscape after = some (c, text)) :
    readChars (fuel + 1) ('\\' :: after) = some (c :: cs, rest) := by
  rw [readChars, if_neg (by decide), if_pos rfl, hescape]
  show (readChars fuel text).bind _ = _
  rw [h]
  rfl

theorem readChars_verbatim (h : readChars fuel text = some (cs, rest)) (hquote : c ≠ '"')
    (hslash : c ≠ '\\') (hcontrol : ¬ c.toNat < 32) :
    readChars (fuel + 1) (c :: text) = some (c :: cs, rest) := by
  rw [readChars, if_neg hquote, if_neg hslash, if_neg hcontrol, h]
  rfl

theorem readEscape_control (h : c.toNat < 32) :
    readEscape ('u' :: '0' :: '0' :: hexDigit (c.toNat / 16) :: hexDigit (c.toNat % 16) :: text)
      = some (c, text) := by
  rw [readEscape, readNumbered, readUnit, hexNumber?_control c.toNat h]
  show (if _ then _ else if _ then _ else some (Char.ofNat c.toNat, text)) = _
  rw [if_neg (by simp; omega), if_neg (by simp; omega), Char.ofNat_toNat]

/-- A character is read back, whether it is escaped or not. -/
theorem readChars_escaped (h : readChars fuel text = some (cs, rest)) :
    readChars (fuel + 1) (escaped c ++ text) = some (c :: cs, rest) := by
  unfold escaped
  split_ifs with hquote hslash hback hfeed hbreak hreturn htab hcontrol
  · subst hquote
    exact readChars_backslash h rfl
  · subst hslash
    exact readChars_backslash h rfl
  · subst hback
    exact readChars_backslash h rfl
  · subst hfeed
    exact readChars_backslash h rfl
  · subst hbreak
    exact readChars_backslash h rfl
  · subst hreturn
    exact readChars_backslash h rfl
  · subst htab
    exact readChars_backslash h rfl
  · exact readChars_backslash h (readEscape_control hcontrol)
  · exact readChars_verbatim h hquote hslash hcontrol

theorem readChars_flatMap_escaped (h : cs.length < fuel) :
    readChars fuel (cs.flatMap escaped ++ '"' :: rest) = some (cs, rest) := by
  induction cs generalizing fuel with
  | nil =>
    obtain ⟨fuel, rfl⟩ := Nat.exists_eq_add_one_of_ne_zero (Nat.ne_zero_of_lt h)
    rfl
  | cons c cs ih =>
    obtain ⟨fuel, rfl⟩ := Nat.exists_eq_add_one_of_ne_zero (Nat.ne_zero_of_lt h)
    rw [List.flatMap_cons, List.append_assoc]
    exact readChars_escaped (ih (Nat.lt_of_succ_lt_succ h))

end

/-- No character is written as nothing. -/
theorem length_le_flatMap_escaped (cs : List Char) : cs.length ≤ (cs.flatMap escaped).length := by
  have hpos : ∀ c, 1 ≤ (escaped c).length := by
    intro c
    unfold escaped
    split_ifs <;> exact Nat.succ_le_succ (Nat.zero_le _)
  induction cs with
  | nil => exact Nat.le_refl 0
  | cons c cs ih =>
    have hc := hpos c
    rw [List.flatMap_cons, List.length_append, List.length_cons]
    omega

/-- A string is read back after its first quote. -/
theorem readString_quoted (s : String) (rest : List Char) :
    quoted s ++ rest = '"' :: (s.toList.flatMap escaped ++ '"' :: rest) ∧
      readString (s.toList.flatMap escaped ++ '"' :: rest) = some (s, rest) := by
  have hlength := length_le_flatMap_escaped s.toList
  refine ⟨by simp [quoted], ?_⟩
  have hfuel : s.toList.length < (s.toList.flatMap escaped ++ '"' :: rest).length + 1 := by
    rw [List.length_append]
    omega
  rw [readString, readChars_flatMap_escaped hfuel, Option.map_some]
  show some (String.ofList s.toList, rest) = _
  rw [String.ofList_toList]

/-! ### Numbers -/

/-- What follows a value: a comma, a line break or nothing. -/
def EndsValue (rest : List Char) : Prop := rest.head?.all fun c => c == ',' || c == '\n'

variable {rest : List Char}

theorem EndsValue.cases (h : EndsValue rest) :
    rest = [] ∨ (∃ more, rest = ',' :: more) ∨ ∃ more, rest = '\n' :: more := by
  cases rest with
  | nil => exact .inl rfl
  | cons c more =>
    have hc : c = ',' ∨ c = '\n' := by simpa [EndsValue] using h
    rcases hc with rfl | rfl
    · exact .inr (.inl ⟨more, rfl⟩)
    · exact .inr (.inr ⟨more, rfl⟩)

/-- Only the digits of zero begin with a zero. -/
theorem eq_zero_of_head?_toDigits {n : Nat} (h : (Nat.toDigits 10 n).head? = some '0') : n = 0 := by
  induction n using Nat.strongRecOn with
  | ind n ih =>
    by_cases hn : n < 10
    · rw [Nat.toDigits_of_lt_base hn] at h
      simpa using h
    · rw [Nat.toDigits_of_base_le (by omega) (by omega),
        List.head?_append_of_ne_nil _ Nat.toDigits_ne_nil] at h
      have := ih (n / 10) (by omega) h
      omega

theorem takeWhile_toDigits (n : Nat) (h : EndsValue rest) :
    (Nat.toDigits 10 n ++ rest).takeWhile Char.isDigit = Nat.toDigits 10 n := by
  have hdigits : ∀ c ∈ Nat.toDigits 10 n, c.isDigit = true := fun c hc =>
    Nat.isDigit_of_mem_toDigits (by omega) (by omega) hc
  rw [List.takeWhile_append_of_pos hdigits]
  rcases h.cases with rfl | ⟨more, rfl⟩ | ⟨more, rfl⟩
  · rw [List.takeWhile_nil, List.append_nil]
  · rw [List.takeWhile_cons_of_neg (by decide), List.append_nil]
  · rw [List.takeWhile_cons_of_neg (by decide), List.append_nil]

theorem wholeDigits_toDigits (n : Nat) (h : EndsValue rest) :
    wholeDigits (Nat.toDigits 10 n ++ rest) = Nat.toDigits 10 n := by
  unfold wholeDigits
  split
  next text hzero =>
    have hhead : (Nat.toDigits 10 n).head? = some '0' := by
      have hfirst : (Nat.toDigits 10 n ++ rest).head? = (Nat.toDigits 10 n).head? :=
        List.head?_append_of_ne_nil _ Nat.toDigits_ne_nil
      rw [← hfirst, hzero]
      rfl
    rw [eq_zero_of_head?_toDigits hhead]
    rfl
  next => exact takeWhile_toDigits n h

theorem readFraction_of_ends (h : EndsValue rest) : readFraction rest = some (none, rest) := by
  rcases h.cases with rfl | ⟨more, rfl⟩ | ⟨more, rfl⟩ <;> rfl

theorem readExponent_of_ends (h : EndsValue rest) : readExponent rest = some (none, rest) := by
  rcases h.cases with rfl | ⟨more, rfl⟩ | ⟨more, rfl⟩ <;> rfl

/-- A number of any size is read back. -/
theorem readUnsigned_toDigits (n : Nat) (h : EndsValue rest) :
    readUnsigned 1 (Nat.toDigits 10 n ++ rest) = some (.integer n, rest) := by
  rw [readUnsigned, wholeDigits_toDigits n h, List.drop_left]
  simp only [Nat.toDigits_ne_nil, if_false, readFraction_of_ends h]
  show (readExponent rest).bind _ = _
  rw [readExponent_of_ends h]
  show some (Datum.integer (1 * (Nat.ofDigitChars 10 (Nat.toDigits 10 n ++ []) 0 : Nat)), rest) = _
  rw [List.append_nil, Nat.ofDigitChars_ten_toDigits, Int.one_mul]

/-- The first character of a number. -/
theorem exists_toDigits_eq (n : Nat) : ∃ c more, Nat.toDigits 10 n = c :: more ∧ c.isDigit := by
  obtain ⟨c, more, hdigits⟩ := List.exists_cons_of_ne_nil (Nat.toDigits_ne_nil (n := n) (b := 10))
  have hc : c ∈ Nat.toDigits 10 n := hdigits ▸ List.mem_cons_self
  exact ⟨c, more, hdigits, Nat.isDigit_of_mem_toDigits (by omega) (by omega) hc⟩

theorem ne_of_isDigit {c d : Char} (hc : c.isDigit) (hd : d.isDigit = false) : c ≠ d := by
  rintro rfl
  rw [hd] at hc
  cases hc

theorem isSpace_of_isDigit {c : Char} (h : c.isDigit) : isSpace c = false := by
  simp [isSpace, ne_of_isDigit h (d := ' ') rfl, ne_of_isDigit h (d := '\t') rfl,
    ne_of_isDigit h (d := '\n') rfl, ne_of_isDigit h (d := '\r') rfl]

/-- Nothing else begins with a digit. -/
theorem readValue_of_digit (fuel : Nat) {c : Char} (h : c.isDigit) (text : List Char) :
    readValue (fuel + 1) (c :: text) = readUnsigned 1 (c :: text) := by
  have hne : ∀ {d : Char}, d.isDigit = false → c ≠ d := ne_of_isDigit h
  have hskip : skipSpace (c :: text) = c :: text :=
    List.dropWhile_cons_of_neg (ne_true_of_eq_false (isSpace_of_isDigit h))
  rw [readValue, hskip]
  split
  case h_7 =>
    unfold readNumber
    split
    next heq => exact absurd (List.cons.inj heq).1 (hne rfl)
    next => rfl
  all_goals
    next heq => exact absurd (List.cons.inj heq).1 (hne rfl)

/-! ### Values -/

mutual

/-- What a value that is written stands for. -/
def Value.datum : Value → Datum
  | .bool b => .bool b
  | .number n => .integer n
  | .string s => .string s
  | .array items => .array (itemData items)
  | .object fields => .object (fieldData fields)

/-- What the items of an array stand for. -/
def itemData : List Value → List Datum
  | [] => []
  | v :: more => v.datum :: itemData more

/-- What the fields of an object stand for. -/
def fieldData : List (String × Value) → List (String × Datum)
  | [] => []
  | (name, v) :: more => (name, v.datum) :: fieldData more

end

theorem chars_number (level n : Nat) : (Value.number n).chars level = Nat.toDigits 10 n := by
  show (toString n).toList = _
  rw [Nat.toString_eq_ofList_toDigits, String.toList_ofList]

/-- What stands at the start of a value. -/
theorem exists_chars_eq (v : Value) (level : Nat) :
    ∃ c more, v.chars level = c :: more ∧ isSpace c = false ∧ c ≠ ']' := by
  cases v with
  | bool b => cases b <;> exact ⟨_, _, rfl, by decide, by decide⟩
  | number n =>
    obtain ⟨c, more, hdigits, hc⟩ := exists_toDigits_eq n
    refine ⟨c, more, ?_, isSpace_of_isDigit hc, ne_of_isDigit hc rfl⟩
    rw [chars_number, hdigits]
  | string s => exact ⟨'"', _, rfl, by decide, by decide⟩
  | array items => cases items <;> exact ⟨'[', _, rfl, by decide, by decide⟩
  | object fields =>
    cases fields with
    | nil => exact ⟨'\x7b', _, rfl, by decide, by decide⟩
    | cons field more => exact ⟨'\x7b', _, rfl, by decide, by decide⟩

theorem skipSpace_append {spaces : List Char} (h : ∀ c ∈ spaces, isSpace c = true)
    (text : List Char) : skipSpace (spaces ++ text) = skipSpace text :=
  List.dropWhile_append_of_pos h

theorem isSpace_of_mem_newLine {level : Nat} : ∀ c ∈ newLine level, isSpace c = true := by
  intro c hc
  rcases List.mem_cons.mp hc with rfl | hc
  · rfl
  · rw [List.eq_of_mem_replicate hc]
    rfl

/-- The blanks before a value do not matter. -/
theorem readValue_append {spaces : List Char} (h : ∀ c ∈ spaces, isSpace c = true) (fuel : Nat)
    (text : List Char) : readValue fuel (spaces ++ text) = readValue fuel text := by
  cases fuel with
  | zero => rfl
  | succ fuel => rw [readValue, skipSpace_append h, readValue]

/-! ### Arrays and objects -/

section

variable {fuel level outer : Nat} {text more : List Char}

theorem readItems_last {item : Datum}
    (h : readValue fuel text = some (item, newLine outer ++ ']' :: rest)) :
    readItems (fuel + 1) (newLine level ++ text) = some ([item], rest) := by
  simp only [readItems, readValue_append isSpace_of_mem_newLine, h, Option.bind_eq_bind,
    Option.bind_some, skipSpace_append isSpace_of_mem_newLine]
  rfl

theorem readItems_more {item : Datum} {items : List Datum}
    (h : readValue fuel text = some (item, ',' :: more))
    (hmore : readItems fuel more = some (items, rest)) :
    readItems (fuel + 1) (newLine level ++ text) = some (item :: items, rest) := by
  rw [readItems, readValue_append isSpace_of_mem_newLine, h]
  show (readItems fuel more).bind _ = _
  rw [hmore]
  rfl

/-- An array that is not empty. -/
theorem readValue_array {items : List Datum} (v : Value)
    (h : readItems fuel (newLine level ++ (v.chars level ++ text)) = some (items, rest)) :
    readValue (fuel + 1) ('[' :: (newLine level ++ (v.chars level ++ text)))
      = some (.array items, rest) := by
  obtain ⟨c, more, hchars, hspace, hne⟩ := exists_chars_eq v level
  have hopen : expectChar ']' (skipSpace (newLine level ++ (v.chars level ++ text))) = none := by
    rw [skipSpace_append isSpace_of_mem_newLine, hchars, List.cons_append, skipSpace,
      List.dropWhile_cons_of_neg (ne_true_of_eq_false hspace), expectChar, if_neg hne]
  have hskip : skipSpace ('[' :: (newLine level ++ (v.chars level ++ text)))
      = '[' :: (newLine level ++ (v.chars level ++ text)) := rfl
  rw [readValue, hskip]
  simp only [hopen, h, Option.map_some]

theorem readName_quoted (name : String) (text : List Char) :
    readName (newLine level ++ (quoted name ++ ':' :: text)) = some (name, text) := by
  obtain ⟨hquoted, hread⟩ := readString_quoted name (':' :: text)
  rw [readName, hquoted, skipSpace_append isSpace_of_mem_newLine]
  show (readString _).bind _ = _
  rw [hread]
  rfl

theorem readValue_blank (fuel : Nat) (text : List Char) :
    readValue fuel (' ' :: text) = readValue fuel text :=
  readValue_append (List.all_eq_true.mp (show [' '].all isSpace = true from rfl)) fuel text

theorem readFields_last (name : String) {value : Datum}
    (h : readValue fuel text = some (value, newLine outer ++ '\x7d' :: rest)) :
    readFields (fuel + 1) (newLine level ++ (quoted name ++ ':' :: ' ' :: text))
      = some ([(name, value)], rest) := by
  simp only [readFields, readName_quoted, readValue_blank, h, Option.bind_eq_bind,
    Option.bind_some, skipSpace_append isSpace_of_mem_newLine]
  rfl

theorem readFields_more (name : String) {value : Datum} {fields : List (String × Datum)}
    (h : readValue fuel text = some (value, ',' :: more))
    (hmore : readFields fuel more = some (fields, rest)) :
    readFields (fuel + 1) (newLine level ++ (quoted name ++ ':' :: ' ' :: text))
      = some ((name, value) :: fields, rest) := by
  rw [readFields, readName_quoted]
  show (readValue fuel (' ' :: text)).bind _ = _
  rw [readValue_blank, h]
  show (readFields fuel more).bind _ = _
  rw [hmore]
  rfl

/-- An object that is not empty. -/
theorem readValue_object {fields : List (String × Datum)} (name : String)
    (h : readFields fuel (newLine level ++ (quoted name ++ text)) = some (fields, rest)) :
    readValue (fuel + 1) ('\x7b' :: (newLine level ++ (quoted name ++ text)))
      = some (.object fields, rest) := by
  have hopen : expectChar '\x7d' (skipSpace (newLine level ++ (quoted name ++ text))) = none := by
    rw [skipSpace_append isSpace_of_mem_newLine]
    rfl
  have hskip : skipSpace ('\x7b' :: (newLine level ++ (quoted name ++ text)))
      = '\x7b' :: (newLine level ++ (quoted name ++ text)) := rfl
  rw [readValue, hskip]
  simp only [hopen, h, Option.map_some]

end

/-! ### All values -/

section

variable (level : Nat) (name : String) (v : Value) (items : List Value)
  (fields : List (String × Value)) (text : List Char)

theorem EndsValue.comma : EndsValue (',' :: text) := rfl

theorem EndsValue.newLine : EndsValue (Json.newLine level ++ text) := rfl

theorem itemChars_cons : itemChars level (v :: items)
    = ',' :: (newLine level ++ v.chars level ++ itemChars level items) := rfl

theorem fieldChars_cons : fieldChars level ((name, v) :: fields)
    = ',' :: (newLine level ++ quoted name ++ [':', ' '] ++ v.chars level
      ++ fieldChars level fields) := rfl

/-- An item with what follows it, without the comma before it. -/
theorem tail_itemChars : (itemChars level (v :: items)).tail ++ text
    = newLine level ++ (v.chars level ++ (itemChars level items ++ text)) := by
  rw [itemChars_cons, List.tail_cons, List.append_assoc, List.append_assoc]

theorem length_itemChars : (v.chars level).length + (itemChars level items).length
    < (itemChars level (v :: items)).length := by
  rw [itemChars_cons, List.length_cons, List.length_append, List.length_append]
  omega

theorem chars_array : (Value.array (v :: items)).chars level
    = '[' :: ((itemChars (level + 1) (v :: items)).tail ++ (newLine level ++ [']'])) :=
  congrArg ('[' :: ·) (List.append_assoc _ _ _)

theorem length_chars_array : (itemChars (level + 1) (v :: items)).length
    < ((Value.array (v :: items)).chars level).length := by
  rw [chars_array, List.length_cons, List.length_append, List.length_append, List.length_tail,
    List.length_singleton]
  omega

/-- A field with what follows it, without the comma before it. -/
theorem tail_fieldChars : (fieldChars level ((name, v) :: fields)).tail ++ text
    = newLine level
      ++ (quoted name ++ ':' :: ' ' :: (v.chars level ++ (fieldChars level fields ++ text))) := by
  simp [fieldChars_cons]

theorem length_fieldChars : (v.chars level).length + (fieldChars level fields).length
    < (fieldChars level ((name, v) :: fields)).length := by
  simp only [fieldChars_cons, List.length_cons, List.length_append]
  omega

theorem chars_object : (Value.object ((name, v) :: fields)).chars level
    = '\x7b' :: ((fieldChars (level + 1) ((name, v) :: fields)).tail
      ++ (newLine level ++ ['\x7d'])) :=
  congrArg ('\x7b' :: ·) (List.append_assoc _ _ _)

theorem length_chars_object : (fieldChars (level + 1) ((name, v) :: fields)).length
    < ((Value.object ((name, v) :: fields)).chars level).length := by
  rw [chars_object, List.length_cons, List.length_append, List.length_append, List.length_tail,
    List.length_singleton]
  omega

end

-- The induction goes along the value. The text of a part is shorter than that of the whole, and a
-- part is followed by a comma or by the line break before the bracket.
mutual

/-- **A value is read back**, whatever follows it. -/
theorem readValue_chars : ∀ (v : Value) {level fuel : Nat} {rest : List Char},
    (v.chars level).length < fuel → EndsValue rest →
      readValue fuel (v.chars level ++ rest) = some (v.datum, rest)
  | .bool b, _, fuel + 1, _, _, _ => by cases b <;> rfl
  | .number n, _, fuel + 1, rest, _, hrest => by
    obtain ⟨c, more, hdigits, hc⟩ := exists_toDigits_eq n
    rw [chars_number, hdigits, List.cons_append, readValue_of_digit fuel hc, ← List.cons_append,
      ← hdigits, readUnsigned_toDigits n hrest]
    rfl
  | .string s, _, fuel + 1, rest, _, _ => by
    obtain ⟨hquoted, hread⟩ := readString_quoted s rest
    show readValue (fuel + 1) (quoted s ++ rest) = _
    rw [hquoted]
    show (readString _).map _ = _
    rw [hread]
    rfl
  | .array [], _, fuel + 1, _, _, _ => rfl
  | .array (v :: more), level, fuel + 1, rest, hfuel, _ => by
    have hlength := length_chars_array level v more
    have hitems : readItems fuel
        ((itemChars (level + 1) (v :: more)).tail ++ (newLine level ++ ']' :: rest))
          = some (itemData (v :: more), rest) :=
      readItems_chars (v :: more) (List.cons_ne_nil _ _)
        (Nat.lt_of_lt_of_le hlength (Nat.le_of_lt_succ hfuel))
    rw [chars_array, List.cons_append, List.append_assoc, List.append_assoc,
      List.singleton_append, tail_itemChars]
    rw [tail_itemChars] at hitems
    exact readValue_array v hitems
  | .object [], _, fuel + 1, _, _, _ => rfl
  | .object ((name, v) :: more), level, fuel + 1, rest, hfuel, _ => by
    have hlength := length_chars_object level name v more
    have hfields : readFields fuel
        ((fieldChars (level + 1) ((name, v) :: more)).tail ++ (newLine level ++ '\x7d' :: rest))
          = some (fieldData ((name, v) :: more), rest) :=
      readFields_chars ((name, v) :: more) (List.cons_ne_nil _ _)
        (Nat.lt_of_lt_of_le hlength (Nat.le_of_lt_succ hfuel))
    rw [chars_object, List.cons_append, List.append_assoc, List.append_assoc,
      List.singleton_append, tail_fieldChars]
    rw [tail_fieldChars] at hfields
    exact readValue_object name hfields

theorem readItems_chars : ∀ (items : List Value) {level outer fuel : Nat} {rest : List Char},
    items ≠ [] → (itemChars level items).length < fuel →
      readItems fuel ((itemChars level items).tail ++ (newLine outer ++ ']' :: rest))
        = some (itemData items, rest)
  | [], _, _, _, _, h, _ => absurd rfl h
  | [v], level, outer, fuel + 1, rest, _, hfuel => by
    have hlength := length_itemChars level v []
    rw [tail_itemChars]
    exact readItems_last (readValue_chars v (by omega) (.newLine _ _))
  | v :: w :: more, level, outer, fuel + 1, rest, _, hfuel => by
    have hlength := length_itemChars level v (w :: more)
    rw [tail_itemChars]
    exact readItems_more (readValue_chars v (by omega) (.comma _))
      (readItems_chars (w :: more) (List.cons_ne_nil _ _) (by omega))

theorem readFields_chars : ∀ (fields : List (String × Value)) {level outer fuel : Nat}
    {rest : List Char},
    fields ≠ [] → (fieldChars level fields).length < fuel →
      readFields fuel ((fieldChars level fields).tail ++ (newLine outer ++ '\x7d' :: rest))
        = some (fieldData fields, rest)
  | [], _, _, _, _, h, _ => absurd rfl h
  | [(name, v)], level, outer, fuel + 1, rest, _, hfuel => by
    have hlength := length_fieldChars level name v []
    rw [tail_fieldChars]
    exact readFields_last name (readValue_chars v (by omega) (.newLine _ _))
  | (name, v) :: w :: more, level, outer, fuel + 1, rest, _, hfuel => by
    have hlength := length_fieldChars level name v (w :: more)
    rw [tail_fieldChars]
    exact readFields_more name (readValue_chars v (by omega) (.comma _))
      (readFields_chars (w :: more) (List.cons_ne_nil _ _) (by omega))

end

/-- The text of a value stands for that value. -/
theorem read?_pretty (v : Value) : read? v.pretty = some v.datum := by
  have hread := readValue_chars v (Nat.lt_succ_self (v.chars 0).length) (show EndsValue [] from rfl)
  rw [List.append_nil] at hread
  rw [read?, Value.pretty, String.toList_ofList, hread]
  rfl

end GoOutline.Json

namespace GoOutline

open GoOutline.Json (Datum)

/-- What is shown of a row. -/
def Row.datum (r : Row) : Datum :=
  .object [("text", .string r.text), ("indent", .integer r.indent),
    ("collapsed", .bool r.isCollapsed), ("value", .integer r.value)]

theorem Row.datum_injective : Function.Injective Row.datum := by
  rintro ⟨text, indent, isCollapsed, value⟩ ⟨text', indent', isCollapsed', value'⟩ h
  simpa [Row.datum, Int.ofNat_inj] using h

theorem itemData_map_json (rows : List Row) :
    Json.itemData (rows.map Row.json) = rows.map Row.datum := by
  induction rows with
  | nil => rfl
  | cons r rows ih =>
    rw [List.map_cons, Json.itemData, ih]
    rfl

/-- **Rows can be read back from their JSON form.** It is a JSON text for the array of the rows in
their order, each with its text, indent, mark and number. So different rows never look the same. -/
theorem read?_render (rows : List Row) :
    Json.read? (render rows true) = some (.array (rows.map Row.datum)) ∧
    ∀ others : List Row, render others true = render rows true ↔ others = rows := by
  have hread : ∀ rows : List Row,
      Json.read? (render rows true) = some (.array (rows.map Row.datum)) := by
    intro rows
    rw [← itemData_map_json]
    exact Json.read?_pretty (.array (rows.map Row.json))
  refine ⟨hread rows, fun others => ⟨fun h => ?_, fun h => h ▸ rfl⟩⟩
  have hdata := hread others
  rw [h, hread rows] at hdata
  have hmap : rows.map Row.datum = others.map Row.datum := Datum.array.inj (Option.some.inj hdata)
  exact (List.map_injective_iff.mpr Row.datum_injective hmap).symm

end GoOutline

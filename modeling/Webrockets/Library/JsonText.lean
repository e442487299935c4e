import Mathlib.Data.List.Basic

/-! JSON texts (RFC 8259), read token by token.

`tokens` splits a text into its tokens. A string token holds what stands between its
quotes as it is written there, and a `Codec` is what turns a string into that and back:
any way of escaping that the grammar allows. `tokens_text` says that a text that was put
together from tokens is read as them.

`ignore` and `strings` are what a reader that looks for something in particular does with
the tokens: it goes past a value of any kind, and it reads an array of strings. -/
namespace JsonText

/-! ### Tokens -/

inductive Token where
  | beginObject
  | endObject
  | beginArray
  | endArray
  | colon
  | comma
  | null
  | bool (b : Bool)
  | number (literal : List Char)
  | string (contents : List Char)
  deriving DecidableEq, Repr

def Token.text : Token → List Char
  | .beginObject => ['\x7b']
  | .endObject => ['\x7d']
  | .beginArray => ['[']
  | .endArray => [']']
  | .colon => [':']
  | .comma => [',']
  | .null => ['n', 'u', 'l', 'l']
  | .bool true => ['t', 'r', 'u', 'e']
  | .bool false => ['f', 'a', 'l', 's', 'e']
  | .number literal => literal
  | .string contents => '"' :: (contents ++ ['"'])

def text (ts : List Token) : List Char := ts.flatMap Token.text

/-- The value of a hexadecimal digit. -/
def hexValue (c : Char) : Option Nat :=
  if '0' ≤ c ∧ c ≤ '9' then some (c.toNat - '0'.toNat)
  else if 'a' ≤ c ∧ c ≤ 'f' then some (c.toNat - 'a'.toNat + 10)
  else if 'A' ≤ c ∧ c ≤ 'F' then some (c.toNat - 'A'.toNat + 10)
  else none

/-- What a backslash and one more character stand for, `u` apart. -/
def shortEscape (c : Char) : Option Char :=
  if c = '"' ∨ c = '\\' ∨ c = '/' then some c
  else if c = 'b' then some '\x08'
  else if c = 'f' then some '\x0c'
  else if c = 'n' then some '\n'
  else if c = 'r' then some '\r'
  else if c = 't' then some '\t'
  else none

/-- Where a scan of a string is: `digits` counts the hexadecimal digits after the next one. -/
inductive InString where
  | plain
  | escape
  | hex (digits : Nat)

/-- What stands before the closing quote of a string, and what comes after it. -/
def contents : InString → List Char → Option (List Char × List Char)
  | _, [] => none
  | .plain, c :: rest =>
    if c = '"' then some ([], rest)
    else if c = '\\' then (contents .escape rest).map fun p => (c :: p.1, p.2)
    -- control characters have to be escaped
    else if c.toNat < 0x20 then none
    else (contents .plain rest).map fun p => (c :: p.1, p.2)
  | .escape, c :: rest =>
    if c = 'u' then (contents (.hex 3) rest).map fun p => (c :: p.1, p.2)
    else if (shortEscape c).isSome then (contents .plain rest).map fun p => (c :: p.1, p.2)
    else none
  | .hex digits, c :: rest =>
    if (hexValue c).isSome then
      (contents (match digits with | 0 => .plain | digits + 1 => .hex digits) rest).map
        fun p => (c :: p.1, p.2)
    else none

/-- Where a scan of a number is, by what it has just read. -/
inductive InNumber where
  | minus
  | zero
  | integer
  | point
  | fraction
  | e
  | sign
  | exponent

def InNumber.next : InNumber → Char → Option InNumber
  | .minus, c => if c = '0' then some .zero else if c.isDigit then some .integer else none
  | .zero, c => if c = '.' then some .point else if c = 'e' ∨ c = 'E' then some .e else none
  | .integer, c =>
    if c.isDigit then some .integer else if c = '.' then some .point
    else if c = 'e' ∨ c = 'E' then some .e else none
  | .point, c => if c.isDigit then some .fraction else none
  | .fraction, c =>
    if c.isDigit then some .fraction else if c = 'e' ∨ c = 'E' then some .e else none
  | .e, c => if c = '+' ∨ c = '-' then some .sign else if c.isDigit then some .exponent else none
  | .sign, c => if c.isDigit then some .exponent else none
  | .exponent, c => if c.isDigit then some .exponent else none

/-- A number can end here. -/
def InNumber.complete : InNumber → Bool
  | .zero | .integer | .fraction | .exponent => true
  | _ => false

/-- The rest of a number, as far as it goes. -/
def numberRest : InNumber → List Char → Option (List Char × List Char)
  | mode, [] => if mode.complete then some ([], []) else none
  | mode, c :: rest =>
    match mode.next c with
    | some next => (numberRest next rest).map fun p => (c :: p.1, p.2)
    | none => if mode.complete then some ([], c :: rest) else none

/-- The rest of `true`, `false` or `null`. -/
def literal (letters : List Char) (t : Token) (rest : List Char) : Option (Token × List Char) :=
  if letters <+: rest then some (t, rest.drop letters.length) else none

/-- The token that begins with the character. -/
def token (c : Char) (rest : List Char) : Option (Token × List Char) :=
  if c = '\x7b' then some (.beginObject, rest)
  else if c = '\x7d' then some (.endObject, rest)
  else if c = '[' then some (.beginArray, rest)
  else if c = ']' then some (.endArray, rest)
  else if c = ':' then some (.colon, rest)
  else if c = ',' then some (.comma, rest)
  else if c = '"' then (contents .plain rest).map fun p => (.string p.1, p.2)
  else if c = 'n' then literal ['u', 'l', 'l'] .null rest
  else if c = 't' then literal ['r', 'u', 'e'] (.bool true) rest
  else if c = 'f' then literal ['a', 'l', 's', 'e'] (.bool false) rest
  else if c = '-' then (numberRest .minus rest).map fun p => (.number (c :: p.1), p.2)
  else if c = '0' then (numberRest .zero rest).map fun p => (.number (c :: p.1), p.2)
  else if c.isDigit then (numberRest .integer rest).map fun p => (.number (c :: p.1), p.2)
  else none

def isSpace (c : Char) : Bool := c = ' ' ∨ c = '\n' ∨ c = '\r' ∨ c = '\t'

/-- Every turn reads a character at least, so the length of the text is enough `fuel`. -/
def lex : Nat → List Char → Option (List Token)
  | _, [] => some []
  | 0, _ :: _ => none
  | fuel + 1, c :: rest =>
    if isSpace c then lex fuel rest
    else
      match token c rest with
      | some (t, rest) => (lex fuel rest).map (t :: ·)
      | none => none

def tokens (text : List Char) : Option (List Token) := lex text.length text

/-! ### A text is read as the tokens it was made of -/

/-- The text of the token shows where it ends. -/
def Token.Delimited : Token → Prop
  | .number _ => False
  | .string raw => ∀ rest, contents .plain (raw ++ '"' :: rest) = some (raw, rest)
  | _ => True

theorem literal_append (letters : List Char) (t : Token) (rest : List Char) :
    literal letters t (letters ++ rest) = some (t, rest) := by
  rw [literal, if_pos (List.prefix_append _ _), List.drop_left]

/-- The text of the token, with the rest after it, is read as the token. -/
def Token.ReadsBefore (t : Token) (rest : List Char) : Prop :=
  ∃ c more, t.text = c :: more ∧ isSpace c = false ∧ token c (more ++ rest) = some (t, rest)

theorem Token.Delimited.readsBefore {t : Token} (ht : t.Delimited) (rest : List Char) :
    t.ReadsBefore rest := by
  cases t with
  | beginObject | endObject | beginArray | endArray | colon | comma =>
    exact ⟨_, [], rfl, by decide, rfl⟩
  | null => exact ⟨'n', _, rfl, by decide, literal_append ['u', 'l', 'l'] .null rest⟩
  | bool b =>
    cases b with
    | true => exact ⟨'t', _, rfl, by decide, literal_append ['r', 'u', 'e'] (.bool true) rest⟩
    | false => exact ⟨'f', _, rfl, by decide, literal_append ['a', 'l', 's', 'e'] (.bool false) rest⟩
  | number literal => exact ht.elim
  | string raw =>
    refine ⟨'"', _, rfl, by decide, ?_⟩
    show (contents .plain ((raw ++ ['"']) ++ rest)).map _ = _
    rw [List.append_assoc, List.singleton_append, ht rest, Option.map_some]

/-- Every token shows where it ends, or what comes after it does. -/
def Readable : List Token → Prop
  | [] => True
  | t :: rest => t.ReadsBefore (text rest) ∧ Readable rest

theorem Readable.of_delimited {ts : List Token} (hts : ∀ t ∈ ts, t.Delimited) : Readable ts := by
  induction ts with
  | nil => trivial
  | cons t rest ih =>
    exact ⟨(hts t List.mem_cons_self).readsBefore _, ih fun u hu => hts u (List.mem_cons_of_mem _ hu)⟩

theorem lex_text {ts : List Token} (hts : Readable ts) {fuel : Nat} (hfuel : ts.length ≤ fuel) :
    lex fuel (text ts) = some ts := by
  induction ts generalizing fuel with
  | nil => cases fuel <;> rfl
  | cons t rest ih =>
    cases fuel with
    | zero => cases hfuel
    | succ fuel =>
      obtain ⟨⟨c, more, htext, hspace, htoken⟩, hrest⟩ := hts
      show lex (fuel + 1) (t.text ++ text rest) = _
      rw [htext, List.cons_append, lex, hspace, htoken]
      simp only [ih hrest (Nat.le_of_succ_le_succ hfuel), Option.map_some, Bool.false_eq_true,
        if_false]

theorem length_le_text {ts : List Token} (hts : Readable ts) : ts.length ≤ (text ts).length := by
  induction ts with
  | nil => exact Nat.le_refl 0
  | cons t rest ih =>
    obtain ⟨⟨c, more, htext, _⟩, hrest⟩ := hts
    have hlength := ih hrest
    show _ ≤ (t.text ++ text rest).length
    rw [htext, List.length_append, List.length_cons, List.length_cons]
    omega

theorem Readable.tokens {ts : List Token} (hts : Readable ts) : tokens (text ts) = some ts :=
  lex_text hts (length_le_text hts)

/-- **A text is read as the tokens it was made of**, if each of them shows where it ends. -/
theorem tokens_text {ts : List Token} (hts : ∀ t ∈ ts, t.Delimited) : tokens (text ts) = some ts :=
  (Readable.of_delimited hts).tokens

/-! ### Strings -/

/-- A way of writing strings that the grammar allows, and that can be read back. -/
structure Codec where
  escape : String → List Char
  unescape : List Char → Option String
  closed : ∀ s rest, contents .plain (escape s ++ '"' :: rest) = some (escape s, rest)
  inverse : ∀ s, unescape (escape s) = some s

def Codec.token (codec : Codec) (s : String) : Token := .string (codec.escape s)

theorem Codec.delimited (codec : Codec) (s : String) : (codec.token s).Delimited := codec.closed s

/-- The elements of an array of strings that has begun. -/
def elements (codec : Codec) : List Token → Option (List String × List Token)
  | .string raw :: .comma :: rest =>
    match codec.unescape raw with
    | some s => (elements codec rest).map fun p => (s :: p.1, p.2)
    | none => none
  | .string raw :: .endArray :: rest => (codec.unescape raw).map fun s => ([s], rest)
  | _ => none

def strings (codec : Codec) : List Token → Option (List String × List Token)
  | .beginArray :: .endArray :: rest => some ([], rest)
  | .beginArray :: rest => elements codec rest
  | _ => none

/-- The tokens of an array of strings, without spaces. -/
def stringTokens (codec : Codec) (l : List String) : List Token :=
  .beginArray :: (l.map codec.token).intersperse .comma ++ [.endArray]

theorem stringTokens_delimited (codec : Codec) (l : List String) :
    ∀ t ∈ stringTokens codec l, t.Delimited := by
  have helements : ∀ t ∈ (l.map codec.token).intersperse .comma, t.Delimited := by
    induction l with
    | nil => exact fun _ ht => nomatch ht
    | cons s l ih =>
      cases l with
      | nil =>
        intro t ht
        rw [List.mem_singleton.mp ht]
        exact codec.delimited s
      | cons s' l =>
        intro t ht
        rcases List.mem_cons.mp ht with rfl | ht
        · exact codec.delimited s
        · rcases List.mem_cons.mp ht with rfl | ht
          · trivial
          · exact ih t ht
  intro t ht
  rcases List.mem_append.mp ht with ht | ht
  · rcases List.mem_cons.mp ht with rfl | ht
    · trivial
    · exact helements t ht
  · rw [List.mem_singleton.mp ht]
    trivial

theorem elements_stringTokens (codec : Codec) (s : String) (l : List String) (rest : List Token) :
    elements codec (((s :: l).map codec.token).intersperse .comma ++ .endArray :: rest) =
      some (s :: l, rest) := by
  induction l generalizing s with
  | nil =>
    show (codec.unescape (codec.escape s)).map _ = _
    rw [codec.inverse, Option.map_some]
  | cons s' l ih =>
    show elements codec (.string (codec.escape s) :: .comma ::
      (((s' :: l).map codec.token).intersperse .comma ++ .endArray :: rest)) = _
    rw [elements, codec.inverse, ih]
    rfl

/-- An array of strings is read back. -/
theorem strings_stringTokens (codec : Codec) (l : List String) (rest : List Token) :
    strings codec (stringTokens codec l ++ rest) = some (l, rest) := by
  cases l with
  | nil => rfl
  | cons s l =>
    have helements := elements_stringTokens codec s l rest
    show strings codec (.beginArray :: (((s :: l).map codec.token).intersperse .comma ++ [.endArray]) ++
      rest) = _
    rw [List.cons_append, List.append_assoc, List.singleton_append]
    cases l <;> exact helements

/-! ### The shortest escapes -/

def escapeChar (c : Char) : List Char :=
  if c = '"' ∨ c = '\\' then ['\\', c]
  else if c = '\x08' then ['\\', 'b']
  else if c = '\x0c' then ['\\', 'f']
  else if c = '\n' then ['\\', 'n']
  else if c = '\r' then ['\\', 'r']
  else if c = '\t' then ['\\', 't']
  else if c.toNat < 0x20 then
    ['\\', 'u', '0', '0', (c.toNat / 16).digitChar, (c.toNat % 16).digitChar]
  else [c]

/-- Where `unescape` is in a string. A character outside the basic plane is written as two
surrogates; `high` is the first of them. -/
inductive Unescaping where
  | plain
  | escape
  | hex (digits value : Nat) (high : Option Nat)
  | low (high : Nat)
  | lowEscape (high : Nat)

/-- What a `\u` escape with four digits stands for, and where it leaves the string. -/
def Unescaping.unit (value : Nat) : Option Nat → Option (Unescaping × List Char)
  | none =>
    if 0xd800 ≤ value ∧ value < 0xdc00 then some (.low value, [])
    else if 0xdc00 ≤ value ∧ value < 0xe000 then none
    else some (.plain, [Char.ofNat value])
  | some high =>
    if 0xdc00 ≤ value ∧ value < 0xe000 then
      some (.plain, [Char.ofNat (0x10000 + (high - 0xd800) * 0x400 + (value - 0xdc00))])
    else none

def Unescaping.next : Unescaping → Char → Option (Unescaping × List Char)
  | .plain, c => if c = '\\' then some (.escape, []) else some (.plain, [c])
  | .escape, c =>
    if c = 'u' then some (.hex 3 0 none, []) else (shortEscape c).map fun d => (.plain, [d])
  | .hex digits value high, c =>
    match hexValue c, digits with
    | none, _ => none
    | some d, digits + 1 => some (.hex digits (16 * value + d) high, [])
    | some d, 0 => unit (16 * value + d) high
  | .low high, c => if c = '\\' then some (.lowEscape high, []) else none
  | .lowEscape high, c => if c = 'u' then some (.hex 3 0 (some high), []) else none

def unescapeFrom : Unescaping → List Char → Option (List Char)
  | .plain, [] => some []
  | _, [] => none
  | mode, c :: rest =>
    match mode.next c with
    | some (next, out) => (unescapeFrom next rest).map (out ++ ·)
    | none => none

/-- The three ways a character is written: after a backslash, by its number, or as it is. -/
theorem escapeChar_cases (c : Char) :
    (∃ d, d ≠ 'u' ∧ shortEscape d = some c ∧ escapeChar c = ['\\', d]) ∨
    (c.toNat < 0x20 ∧ escapeChar c =
      ['\\', 'u', '0', '0', (c.toNat / 16).digitChar, (c.toNat % 16).digitChar]) ∨
    (c ≠ '"' ∧ c ≠ '\\' ∧ ¬ c.toNat < 0x20 ∧ escapeChar c = [c]) := by
  unfold escapeChar
  split_ifs with hquote hb hf hn hr ht hcontrol
  · rcases hquote with rfl | rfl <;> exact .inl ⟨_, by decide, by decide, rfl⟩
  · exact .inl ⟨'b', by decide, by rw [hb]; decide, rfl⟩
  · exact .inl ⟨'f', by decide, by rw [hf]; decide, rfl⟩
  · exact .inl ⟨'n', by decide, by rw [hn]; decide, rfl⟩
  · exact .inl ⟨'r', by decide, by rw [hr]; decide, rfl⟩
  · exact .inl ⟨'t', by decide, by rw [ht]; decide, rfl⟩
  · exact .inr (.inl ⟨hcontrol, rfl⟩)
  · obtain ⟨hq, hb⟩ := not_or.mp hquote
    exact .inr (.inr ⟨hq, hb, hcontrol, rfl⟩)

theorem hexValue_digitChar {n : Nat} (h : n < 16) : hexValue n.digitChar = some n := by
  have hall : ∀ n < 16, hexValue n.digitChar = some n := by decide
  exact hall n h

/-- The digits by which a control character is written. -/
theorem hexValue_control {c : Char} (h : c.toNat < 0x20) : hexValue '0' = some 0 ∧
    hexValue (c.toNat / 16).digitChar = some (c.toNat / 16) ∧
    hexValue (c.toNat % 16).digitChar = some (c.toNat % 16) :=
  ⟨by decide, hexValue_digitChar (by omega), hexValue_digitChar (by omega)⟩

/-- The scan of a string goes over a written character. -/
theorem contents_escapeChar (c : Char) (rest : List Char) :
    contents .plain (escapeChar c ++ rest) =
      (contents .plain rest).map fun p => (escapeChar c ++ p.1, p.2) := by
  rcases escapeChar_cases c with ⟨d, hu, hd, hc⟩ | ⟨hn, hc⟩ | ⟨hq, hb, hn, hc⟩
  · rw [hc]
    cases h : contents .plain rest <;> simp [contents, hu, hd, h]
  · obtain ⟨hzero, hhigh, hlow⟩ := hexValue_control hn
    rw [hc]
    cases h : contents .plain rest <;> simp [contents, hzero, hhigh, hlow, h]
  · rw [hc]
    cases h : contents .plain rest <;> simp [contents, hq, hb, hn, h]

/-- A written character is read back. -/
theorem unescapeFrom_escapeChar (c : Char) (rest : List Char) :
    unescapeFrom .plain (escapeChar c ++ rest) = (unescapeFrom .plain rest).map (c :: ·) := by
  rcases escapeChar_cases c with ⟨d, hu, hd, hc⟩ | ⟨hn, hc⟩ | ⟨hq, hb, hn, hc⟩
  · rw [hc]
    cases h : unescapeFrom .plain rest <;> simp [unescapeFrom, Unescaping.next, hu, hd, h]
  · obtain ⟨hzero, hhigh, hlow⟩ := hexValue_control hn
    have hsum : 16 * (c.toNat / 16) + c.toNat % 16 = c.toNat := Nat.div_add_mod _ _
    have hunit : Unescaping.unit c.toNat none = some (.plain, [c]) := by
      rw [Unescaping.unit, if_neg (by omega), if_neg (by omega), Char.ofNat_toNat]
    rw [hc]
    cases h : unescapeFrom .plain rest <;>
      simp [unescapeFrom, Unescaping.next, hzero, hhigh, hlow, hsum, hunit, h]
  · rw [hc]
    cases h : unescapeFrom .plain rest <;> simp [unescapeFrom, Unescaping.next, hb, h]

theorem contents_flatMap (l rest : List Char) :
    contents .plain (l.flatMap escapeChar ++ '"' :: rest) = some (l.flatMap escapeChar, rest) := by
  induction l with
  | nil => rfl
  | cons c l ih =>
    rw [List.flatMap_cons, List.append_assoc, contents_escapeChar, ih]
    rfl

theorem unescapeFrom_flatMap (l : List Char) :
    unescapeFrom .plain (l.flatMap escapeChar) = some l := by
  induction l with
  | nil => rfl
  | cons c l ih =>
    rw [List.flatMap_cons, unescapeFrom_escapeChar, ih]
    rfl

/-- Only what has to be escaped is, in the shortest way, and all escapes are read. -/
def Codec.shortest : Codec where
  escape s := s.toList.flatMap escapeChar
  unescape raw := (unescapeFrom .plain raw).map String.ofList
  closed s rest := contents_flatMap s.toList rest
  inverse s := by rw [unescapeFrom_flatMap, Option.map_some, String.ofList_toList]

/-! ### Values that are not looked at -/

inductive Bracket where
  | array
  | object
  deriving DecidableEq, Repr

/-- Goes past a value of any kind, and past the values around it that have begun. The flag
says that the next token is the first of a value. -/
def ignoreIn : Bool → List Bracket → List Token → Option (List Token)
  | true, stack, .beginArray :: .endArray :: rest => ignoreIn false stack rest
  | true, stack, .beginArray :: rest => ignoreIn true (.array :: stack) rest
  | true, stack, .beginObject :: .endObject :: rest => ignoreIn false stack rest
  | true, stack, .beginObject :: .string _ :: .colon :: rest => ignoreIn true (.object :: stack) rest
  | true, stack, .null :: rest => ignoreIn false stack rest
  | true, stack, .bool _ :: rest => ignoreIn false stack rest
  | true, stack, .number _ :: rest => ignoreIn false stack rest
  | true, stack, .string _ :: rest => ignoreIn false stack rest
  | false, [], rest => some rest
  | false, .array :: stack, .comma :: rest => ignoreIn true (.array :: stack) rest
  | false, .array :: stack, .endArray :: rest => ignoreIn false stack rest
  | false, .object :: stack, .comma :: .string _ :: .colon :: rest =>
    ignoreIn true (.object :: stack) rest
  | false, .object :: stack, .endObject :: rest => ignoreIn false stack rest
  | _, _, _ => none

def ignore (ts : List Token) : Option (List Token) := ignoreIn true [] ts

end JsonText

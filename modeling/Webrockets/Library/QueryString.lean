import Mathlib.Data.List.SplitBy
import Webrockets.Library.JsonText
import Webrockets.Library.TextFields

/-! Query strings, as forms send them and `urllib.parse` reads them.

A query string is made of fields with `&` between them, and a field of a name and a value with `=`
between them. In both a byte is written as a character of ASCII, as `+` where it is a space, or as
`%` and two hexadecimal digits. `Quoted` is every way to write a text so; reading gives the text
back (`unquotePlus_quoted`), and with the names the values (`parseQsl_fields`). -/
namespace QueryString
open JsonText (hexValue)

/-! ### Reading -/

def isAscii (c : Char) : Bool := c.toNat < 128

/-- `unquote_to_bytes`. A `%` without two digits after it stands for itself. -/
def unquoteToBytes : List Char → List UInt8
  | '%' :: a :: b :: rest =>
    match hexValue a, hexValue b with
    | some x, some y => UInt8.ofNat (16 * x + y) :: unquoteToBytes rest
    | _, _ => 0x25 :: unquoteToBytes (a :: b :: rest)
  | c :: rest => UInt8.ofNat c.toNat :: unquoteToBytes rest
  | [] => []

def plusToSpace (c : Char) : Char := if c = '+' then ' ' else c

section Reading
variable (decode : List UInt8 → List Char)

/-- `unquote`. What is not ASCII is left alone, and so parts what is decoded. -/
def unquote (text : List Char) : List Char :=
  (text.splitBy fun a b => isAscii a == isAscii b).flatMap fun run =>
    if run.all isAscii then decode (unquoteToBytes run) else run

def unquotePlus (text : List Char) : List Char := unquote decode (text.map plusToSpace)

/-- A field without `=`, or with nothing after it, is passed over. -/
def readField (field : List Char) : Option (List Char × List Char) :=
  match TextFields.splitOnce '=' field with
  | some (name, value) =>
    if value = [] then none else some (unquotePlus decode name, unquotePlus decode value)
  | none => none

/-- `parse_qsl` with its defaults. -/
def parseQsl (qs : List Char) : List (List Char × List Char) :=
  (qs.splitOn '&').filterMap (readField decode)

end Reading

/-! ### Writing -/

/-- The text is a way to write the bytes. -/
inductive Quoted : List Char → List UInt8 → Prop where
  | nil : Quoted [] []
  | plain (c : Char) {text : List Char} {bytes : List UInt8} (h : isAscii c = true)
      (hfree : c ≠ '%' ∧ c ≠ '+' ∧ c ≠ '&') (hrest : Quoted text bytes) :
      Quoted (c :: text) (UInt8.ofNat c.toNat :: bytes)
  | space {text : List Char} {bytes : List UInt8} (hrest : Quoted text bytes) :
      Quoted ('+' :: text) (0x20 :: bytes)
  | hex (a b : Char) {x y : Nat} {text : List Char} {bytes : List UInt8}
      (hx : hexValue a = some x) (hy : hexValue b = some y) (hrest : Quoted text bytes) :
      Quoted ('%' :: a :: b :: text) (UInt8.ofNat (16 * x + y) :: bytes)

/-- The digits that `quote` uses. -/
def hexDigit (n : Nat) : Char := Char.ofNat (if n < 10 then 48 + n else 55 + n)

/-- The characters that `quote` leaves as they are. -/
def isUnreserved (c : Char) : Bool :=
  ('0' ≤ c && c ≤ '9') || ('a' ≤ c && c ≤ 'z') || ('A' ≤ c && c ≤ 'Z') ||
    ['_', '.', '-', '~'].contains c

def quoteByte (b : UInt8) : List Char :=
  if isUnreserved (Char.ofNat b.toNat) then [Char.ofNat b.toNat]
  else if b = 0x20 then ['+']
  else ['%', hexDigit (b.toNat / 16), hexDigit (b.toNat % 16)]

/-- `quote_plus`. -/
def quotePlus (bytes : List UInt8) : List Char := bytes.flatMap quoteByte

/-! ### Digits -/

theorem hexValue_hexDigit : ∀ n < 16, hexValue (hexDigit n) = some n := by decide

/-- A digit is neither a sign of a query string nor beyond ASCII. -/
theorem hexValue_free {c : Char} {x : Nat} (h : hexValue c = some x) :
    isAscii c = true ∧ c ≠ '+' ∧ c ≠ '&' := by
  refine ⟨?_, ?_, ?_⟩
  · by_contra hascii
    have hsome : hexValue c ≠ none := by
      rw [h]
      exact Option.some_ne_none x
    refine hsome ?_
    have hlarge : 128 ≤ c.toNat := by simpa [isAscii] using hascii
    have hle (d : Char) (hd : d.toNat < 128) : ¬ c ≤ d := by
      intro hcd
      have : c.toNat ≤ d.toNat := hcd
      omega
    simp [hexValue, hle '9' (by decide), hle 'f' (by decide), hle 'F' (by decide)]
  · rintro rfl
    cases h
  · rintro rfl
    cases h

theorem unreserved_free {c : Char} (h : isUnreserved c = true) :
    isAscii c = true ∧ (c ≠ '%' ∧ c ≠ '+' ∧ c ≠ '&') ∧ c ≠ '=' := by
  refine ⟨?_, ⟨?_, ?_, ?_⟩, ?_⟩
  · have hle {d : Char} (hd : d.toNat < 128) (hcd : c ≤ d) : isAscii c = true := by
      have hnat : c.toNat ≤ d.toNat := hcd
      exact decide_eq_true (Nat.lt_of_le_of_lt hnat hd)
    simp only [isUnreserved, Bool.or_eq_true, Bool.and_eq_true, decide_eq_true_eq] at h
    rcases h with ((h | h) | h) | h
    · exact hle (by decide) h.2
    · exact hle (by decide) h.2
    · exact hle (by decide) h.2
    · simp only [List.contains_iff_mem, List.mem_cons, List.not_mem_nil, or_false] at h
      rcases h with rfl | rfl | rfl | rfl <;> decide
  · rintro rfl
    exact absurd h (by decide)
  · rintro rfl
    exact absurd h (by decide)
  · rintro rfl
    exact absurd h (by decide)
  · rintro rfl
    exact absurd h (by decide)

/-! ### A round trip -/

variable {decode : List UInt8 → List Char} {l : List Char} {bs : List UInt8}

theorem Quoted.ascii (h : Quoted l bs) : l.all isAscii = true := by
  induction h with
  | nil => rfl
  | plain c hc _ _ ih => rw [List.all_cons, hc, ih]; rfl
  | space _ ih => rw [List.all_cons, ih]; rfl
  | hex a b hx hy _ ih =>
    rw [List.all_cons, List.all_cons, List.all_cons, ih, (hexValue_free hx).1, (hexValue_free hy).1]
    rfl

theorem Quoted.free (h : Quoted l bs) : '&' ∉ l := by
  induction h with
  | nil => exact List.not_mem_nil
  | plain c _ hfree _ ih => simp [Ne.symm hfree.2.2, ih]
  | space _ ih => simp [ih]
  | hex a b hx hy _ ih =>
    have ha := (hexValue_free hx).2.2
    have hb := (hexValue_free hy).2.2
    simp [Ne.symm ha, Ne.symm hb, ih]

theorem unquoteToBytes_cons {c : Char} (h : c ≠ '%') (rest : List Char) :
    unquoteToBytes (c :: rest) = UInt8.ofNat c.toNat :: unquoteToBytes rest := by
  rw [unquoteToBytes]
  rintro a b rest' rfl
  exact absurd rfl h

theorem Quoted.bytes (h : Quoted l bs) : unquoteToBytes (l.map plusToSpace) = bs := by
  induction h with
  | nil => rfl
  | plain c _ hfree _ ih =>
    rw [List.map_cons, plusToSpace, if_neg hfree.2.1, unquoteToBytes_cons hfree.1, ih]
  | space _ ih =>
    rw [List.map_cons, plusToSpace, if_pos rfl, unquoteToBytes_cons (by decide), ih]
    rfl
  | hex a b hx hy _ ih =>
    have ha := (hexValue_free hx).2.1
    have hb := (hexValue_free hy).2.1
    have hpercent : plusToSpace '%' = '%' := rfl
    rw [List.map_cons, List.map_cons, List.map_cons, hpercent, plusToSpace, plusToSpace, if_neg ha,
      if_neg hb, unquoteToBytes, hx, hy, ih]

/-- ASCII is decoded as a whole. -/
theorem unquote_ascii (hnil : decode [] = []) (h : l.all isAscii = true) :
    unquote decode l = decode (unquoteToBytes l) := by
  by_cases hempty : l = []
  · subst hempty
    exact hnil.symm
  · have hchain : l.IsChain fun a b => (isAscii a == isAscii b) = true := by
      rw [List.all_eq_true] at h
      refine List.Pairwise.isChain (List.pairwise_iff_forall_sublist.mpr fun {a b} hab => ?_)
      have ha := h a (hab.subset (by simp))
      have hb := h b (hab.subset (by simp))
      rw [ha, hb]
      rfl
    rw [unquote, List.splitBy_of_isChain hempty hchain, List.flatMap_singleton, if_pos h]

/-- **Reading undoes writing.** -/
theorem unquotePlus_quoted (hnil : decode [] = []) (h : Quoted l bs) :
    unquotePlus decode l = decode bs := by
  have hascii : (l.map plusToSpace).all isAscii = true := by
    have := h.ascii
    rw [List.all_eq_true] at this ⊢
    intro c hc
    obtain ⟨d, hd, rfl⟩ := List.mem_map.mp hc
    rw [plusToSpace]
    split
    · rfl
    · exact this d hd
  rw [unquotePlus, unquote_ascii hnil hascii, h.bytes]

/-- Every text can be written so, and without `=`. -/
theorem quoted_quotePlus (bs : List UInt8) :
    Quoted (quotePlus bs) bs ∧ '=' ∉ quotePlus bs := by
  induction bs with
  | nil => exact ⟨.nil, List.not_mem_nil⟩
  | cons b rest ih =>
    obtain ⟨hrest, hfree⟩ := ih
    have hcons : quotePlus (b :: rest) = quoteByte b ++ quotePlus rest := rfl
    rw [hcons]
    have hb : b.toNat < 256 := b.toNat_lt
    by_cases hplain : isUnreserved (Char.ofNat b.toNat) = true
    · obtain ⟨hascii, hsigns, hequals⟩ := unreserved_free hplain
      have hchar : (Char.ofNat b.toNat).toNat = b.toNat := by
        have hvalid : b.toNat.isValidChar := .inl (Nat.lt_trans hb (by decide))
        rw [Char.ofNat, dif_pos hvalid]
        rfl
      have hbyte : UInt8.ofNat (Char.ofNat b.toNat).toNat = b := by rw [hchar, UInt8.ofNat_toNat]
      have hquoted := Quoted.plain _ hascii hsigns hrest
      rw [hbyte] at hquoted
      rw [quoteByte, if_pos hplain]
      exact ⟨hquoted, by simpa using ⟨Ne.symm hequals, hfree⟩⟩
    · by_cases hspace : b = 0x20
      · rw [quoteByte, if_neg hplain, if_pos hspace, hspace]
        exact ⟨.space hrest, by simpa using hfree⟩
      · have hhigh := hexValue_hexDigit (b.toNat / 16) (by omega)
        have hlow := hexValue_hexDigit (b.toNat % 16) (by omega)
        have hbyte : UInt8.ofNat (16 * (b.toNat / 16) + b.toNat % 16) = b := by
          rw [Nat.div_add_mod, UInt8.ofNat_toNat]
        have hquoted := Quoted.hex _ _ hhigh hlow hrest
        rw [hbyte] at hquoted
        have hdigit : ∀ n < 16, hexDigit n ≠ '=' := by decide
        rw [quoteByte, if_neg hplain, if_neg hspace]
        refine ⟨hquoted, ?_⟩
        simpa [Ne.symm (hdigit (b.toNat / 16) (by omega)),
          Ne.symm (hdigit (b.toNat % 16) (by omega))] using hfree

/-! ### Fields -/

/-- A field: a name and a value, or something that is passed over. -/
inductive Field where
  | pair (name value : List Char) (nameBytes valueBytes : List UInt8) (hname : Quoted name nameBytes)
      (hfree : '=' ∉ name) (hvalue : Quoted value valueBytes) (hnonempty : value ≠ [])
  | junk (text : List Char) (hfree : '&' ∉ text ∧ '=' ∉ text)
  | blank (name : List Char) (hfree : '&' ∉ name ∧ '=' ∉ name)

namespace Field

def text : Field → List Char
  | .pair name value _ _ _ _ _ _ => name ++ '=' :: value
  | .junk text _ => text
  | .blank name _ => name ++ ['=']

/-- The name and the value, as bytes. -/
def bytes : Field → Option (List UInt8 × List UInt8)
  | .pair _ _ nameBytes valueBytes _ _ _ _ => some (nameBytes, valueBytes)
  | .junk _ _ => none
  | .blank _ _ => none

theorem free (f : Field) : '&' ∉ f.text := by
  cases f with
  | pair name value nameBytes valueBytes hname hfree hvalue hnonempty =>
    simp [text, hname.free, hvalue.free]
  | junk text hfree => exact hfree.1
  | blank name hfree => simp [text, hfree.1]

theorem readField_text (hnil : decode [] = []) (f : Field) :
    readField decode f.text = f.bytes.map fun p => (decode p.1, decode p.2) := by
  cases f with
  | pair name value nameBytes valueBytes hname hfree hvalue hnonempty =>
    rw [readField, text, TextFields.splitOnce_append hfree]
    simp only [hnonempty, if_false, unquotePlus_quoted hnil hname, unquotePlus_quoted hnil hvalue]
    rfl
  | junk text hfree =>
    rw [readField, Field.text, TextFields.splitOnce_eq_none.mpr hfree.2]
    rfl
  | blank name hfree =>
    rw [readField, text, TextFields.splitOnce_append hfree.2]
    rfl

end Field

/-- The fields, joined. -/
def queryOf (fields : List Field) : List Char := ['&'].intercalate (fields.map Field.text)

/-- **Names and values come back** in their order, and nothing else does. -/
theorem parseQsl_fields (hnil : decode [] = []) (fields : List Field) :
    parseQsl decode (queryOf fields) =
      (fields.filterMap Field.bytes).map fun p => (decode p.1, decode p.2) := by
  by_cases hempty : fields = []
  · subst hempty
    rfl
  · have hsplit : (queryOf fields).splitOn '&' = fields.map Field.text := by
      apply List.splitOn_intercalate
      · intro l hl
        obtain ⟨f, _, rfl⟩ := List.mem_map.mp hl
        exact f.free
      · simpa using hempty
    rw [parseQsl, hsplit, List.filterMap_map, List.map_filterMap]
    congr 1
    funext f
    exact Field.readField_text hnil f

end QueryString

import Webrockets.Library.TextFields

/-! Header values as text.

What may stand in a header value, and what is trimmed off it. Of the libraries it is known what
they take, carry and read: `HeaderValues.Lawful`. Whatever can be read has no whitespace but
blanks, so that both ends trim alike. -/
namespace Webrockets

/-- `HeaderValue::from_str`, what a value is when it has been sent, and `HeaderValue::to_str`. -/
structure HeaderValues where
  fromStr : String → Option (List UInt8)
  carried : List UInt8 → List UInt8
  toStr : List UInt8 → Option String

def bytesOf (s : String) : List UInt8 := s.toUTF8.data.toList

/-- Tabs are none. -/
def isControl (c : Char) : Bool := (c.toNat < 32 && c != '\t') || c.toNat = 127

def isVisible (c : Char) : Bool := (32 ≤ c.toNat && c.toNat < 127) || c = '\t'

/-- The whitespace that HTTP allows around a value. -/
def isBlank (c : Char) : Bool := c = ' ' || c = '\t'

/-- `char::is_whitespace`. -/
def isWhitespace (c : Char) : Bool :=
  (9 ≤ c.toNat && c.toNat ≤ 13) || c.toNat = 0x20 || c.toNat = 0x85 || c.toNat = 0xA0 ||
    c.toNat = 0x1680 || (0x2000 ≤ c.toNat && c.toNat ≤ 0x200A) || c.toNat = 0x2028 ||
    c.toNat = 0x2029 || c.toNat = 0x202F || c.toNat = 0x205F || c.toNat = 0x3000

def trimWith (p : Char → Bool) (s : String) : String :=
  .ofList ((s.toList.dropWhile p).rdropWhile p)

/-- `str::trim`. -/
def trim (s : String) : String := trimWith isWhitespace s

/-- A value must have no control characters, is sent without the blanks around it, and is read
if it is printable. -/
structure HeaderValues.Lawful (h : HeaderValues) : Prop where
  fromStr : ∀ s, h.fromStr s = if s.toList.any isControl then none else some (bytesOf s)
  carried : ∀ s, h.carried (bytesOf s) = bytesOf (trimWith isBlank s)
  toStr : ∀ s, h.toStr (bytesOf s) = if s.toList.all isVisible then some s else none

/-- A name that both ends see alike. -/
structure Plain (s : String) : Prop where
  visible : s.toList.all isVisible = true
  first : ∀ c, s.toList.head? = some c → isBlank c = false
  last : ∀ c, s.toList.getLast? = some c → isBlank c = false

/-! ### Trimming -/

theorem trimWith_eq_self {p : Char → Bool} {s : String} : trimWith p s = s ↔
    (∀ c, s.toList.head? = some c → p c = false) ∧ ∀ c, s.toList.getLast? = some c → p c = false := by
  rw [← String.toList_inj, trimWith, String.toList_ofList]
  exact TextFields.trim_eq_self

theorem trim_ofList (l : List Char) : trim (.ofList l) = .ofList (TextFields.trim isWhitespace l) := by
  rw [trim, trimWith, String.toList_ofList]
  rfl

theorem visible_of_blank (c : Char) (h : isBlank c = true) : isVisible c = true := by
  simp only [isBlank, Bool.or_eq_true, decide_eq_true_eq] at h
  rcases h with rfl | rfl <;> decide

/-- What is trimmed off is visible. -/
theorem all_visible_trimWith (s : String) :
    (trimWith isBlank s).toList.all isVisible = s.toList.all isVisible := by
  rw [trimWith, String.toList_ofList]
  exact TextFields.all_trim visible_of_blank s.toList

/-- Among the characters that can be read, only the blanks are whitespace. -/
theorem whitespace_of_visible {c : Char} (hvisible : isVisible c = true) :
    isWhitespace c = isBlank c := by
  by_cases hblank : isBlank c = true
  · rw [hblank]
    simp only [isBlank, Bool.or_eq_true, decide_eq_true_eq] at hblank
    rcases hblank with rfl | rfl <;> decide
  · rw [Bool.not_eq_true] at hblank
    rw [hblank]
    simp only [isBlank, Bool.or_eq_false_iff, decide_eq_false_iff_not] at hblank
    simp only [isVisible, Bool.or_eq_true, Bool.and_eq_true, decide_eq_true_eq, hblank.2,
      or_false] at hvisible
    have hspace : c.toNat ≠ 32 := fun h => hblank.1 (Char.toNat_inj.mp h)
    simp [isWhitespace]
    omega

/-- What can be read is trimmed of its blanks. -/
theorem trim_visible {s : String} (h : s.toList.all isVisible = true) :
    trim s = trimWith isBlank s := by
  rw [trim, trimWith, trimWith]
  exact congrArg String.ofList <| TextFields.trim_congr fun c hc =>
    whitespace_of_visible (List.all_eq_true.mp h c hc)

/-- On what can be read, a client trims what is sent without blanks no further. -/
theorem trim_of_visible {s : String} (h : s.toList.all isVisible = true) :
    trim (trimWith isBlank s) = trimWith isBlank s := by
  rw [trim_visible ((all_visible_trimWith s).trans h), trimWith_eq_self, trimWith,
    String.toList_ofList]
  exact TextFields.trimmed_trim isBlank s.toList

/-! ### Bytes -/

/-- The character that a byte is in ASCII. -/
def charOfByte (b : UInt8) : Char := Char.ofNat b.toNat

def isVisibleByte (b : UInt8) : Bool := isVisible (charOfByte b)

def isBlankByte (b : UInt8) : Bool := isBlank (charOfByte b)

/-- `HeaderValue::to_str` reads a value if all its bytes are visible, blanks included. -/
def ReadsVisible (toStr : List UInt8 → Option String) : Prop := ∀ value,
  toStr value = if value.all isVisibleByte then some (.ofList (value.map charOfByte)) else none

/-- As the library has it. -/
def readVisible (value : List UInt8) : Option String :=
  if value.all isVisibleByte then some (.ofList (value.map charOfByte)) else none

theorem readsVisible_readVisible : ReadsVisible readVisible := fun _ => rfl

theorem toNat_charOfByte (b : UInt8) : (charOfByte b).toNat = b.toNat := by
  have hvalid : b.toNat.isValidChar := .inl (Nat.lt_trans b.toNat_lt (by decide))
  rw [charOfByte, Char.ofNat, dif_pos hvalid]
  rfl

theorem charOfByte_injective : Function.Injective charOfByte := by
  intro b c h
  rw [← UInt8.toNat_inj, ← toNat_charOfByte, ← toNat_charOfByte, h]

theorem lt_of_visible {c : Char} (h : isVisible c = true) : c.toNat < 128 := by
  simp only [isVisible, Bool.or_eq_true, Bool.and_eq_true, decide_eq_true_eq] at h
  rcases h with h | rfl
  · omega
  · decide

/-- What is visible is ASCII: a byte for each character. -/
theorem utf8Encode_visible {l : List Char} (h : l.all isVisible = true) :
    l.utf8Encode.data.toList.map charOfByte = l := by
  induction l with
  | nil => rfl
  | cons c rest ih =>
    rw [List.all_cons, Bool.and_eq_true] at h
    have hlt : c.val.toNat < 128 := lt_of_visible h.1
    have hsize : c.utf8Size = 1 := by
      rw [Char.utf8Size_eq_one_iff, UInt32.le_iff_toNat_le]
      exact Nat.le_of_lt_succ hlt
    have hfirst : charOfByte c.val.toUInt8 = c := by
      rw [← Char.toNat_inj, toNat_charOfByte, UInt32.toNat_toUInt8]
      exact Nat.mod_eq_of_lt (by omega)
    rw [List.utf8Encode_cons, ByteArray.toList_data_append, List.map_append, ih h.2,
      List.utf8Encode_singleton, String.utf8EncodeChar_eq_singleton hsize, List.data_toByteArray,
      List.map_singleton, hfirst]
    rfl

theorem map_bytesOf {s : String} (h : s.toList.all isVisible = true) :
    (bytesOf s).map charOfByte = s.toList := by
  have hencode := utf8Encode_visible h
  rw [String.utf8Encode_toList] at hencode
  exact hencode

section Reads
variable {toStr : List UInt8 → Option String} {value : List UInt8} {v : String}

theorem ReadsVisible.eq_some (h : ReadsVisible toStr) : toStr value = some v ↔
    value.all isVisibleByte = true ∧ .ofList (value.map charOfByte) = v := by
  rw [h value]
  by_cases hvisible : value.all isVisibleByte = true
  · simp [hvisible]
  · rw [if_neg hvisible]
    simp [hvisible]

/-- What is visible is read. -/
theorem ReadsVisible.read (h : ReadsVisible toStr) (hv : v.toList.all isVisible = true) :
    toStr (bytesOf v) = some v := by
  have hmap := map_bytesOf hv
  refine h.eq_some.mpr ⟨?_, by rw [hmap, String.ofList_toList]⟩
  rw [← hmap, List.all_map] at hv
  exact hv

end Reads

end Webrockets

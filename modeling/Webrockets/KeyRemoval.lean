import Webrockets.History
import Webrockets.Floats

/-! What a handler with `remove_key` gets (`receive_listener` in `server.rs`).

The message is parsed, the matched key is taken out, and what is left is printed. `serde_json`
with its default features keeps a number as a 64-bit integer or as a float (`serdeJson`), and
the last is where values change: `key_removal` says for which messages the members that stay
have the values they came with. Integers of 64 bits and decimals of 15 digits do, and nothing
else of more than 17. -/
namespace Webrockets
open JsonText BinaryFloat

/-! ### Values as `serde_json` reads and prints them -/

namespace Number

/-- An integer literal that is kept as an integer: `u64`, or `i64` after a minus. -/
def machineInteger : List Char → Option Number
  | '-' :: digits =>
    -- `-0` is a float
    if digits.all Char.isDigit ∧ 0 < natValue digits ∧ Int64.minValue.toInt ≤ -natValue digits then
      some (.negInt (Int64.ofInt (-natValue digits)))
    else none
  | digits =>
    if digits.all Char.isDigit ∧ natValue digits < UInt64.size then
      some (.posInt (UInt64.ofNat (natValue digits)))
    else none

/-- Every other number is a float; one that is too large is none. -/
def ofLiteral (floats : FloatFormat) (literal : List Char) : Option Number :=
  match machineInteger literal with
  | some n => some n
  | none => (floats.parse literal).map .float

def literal (floats : FloatFormat) : Number → List Char
  | .posInt n => natLiteral n.toNat
  | .negInt n => intLiteral n.toInt
  | .float bits => floats.print bits

end Number

namespace Json

/-- A member whose value could be read. -/
def ofMember (member : String × Option Json) : Option (String × Json) :=
  member.2.map fun json => (member.1, json)

/-- An object is a `BTreeMap`: a member replaces the one with its name. -/
def ofTree (floats : FloatFormat) : JsonTree (List Char) → Option Json :=
  JsonTree.fold ⟨some .null, fun b => some (.bool b),
    fun literal => (Number.ofLiteral floats literal).map .number, fun s => some (.string s),
    fun elems => (elems.mapM id).map .array,
    fun members => (members.mapM ofMember).map fun members => .object (SortedMap.ofList members)⟩

mutual

def tree (floats : FloatFormat) : Json → JsonTree (List Char)
  | .null => .null
  | .bool b => .bool b
  | .number n => .number (n.literal floats)
  | .string s => .string s
  | .array elems => .array (trees floats elems)
  | .object members => .object (memberTrees floats members)

def trees (floats : FloatFormat) : List Json → List (JsonTree (List Char))
  | [] => []
  | json :: rest => tree floats json :: trees floats rest

def memberTrees (floats : FloatFormat) : List (String × Json) → List (String × JsonTree (List Char))
  | [] => []
  | (key, json) :: rest => (key, tree floats json) :: memberTrees floats rest

end

theorem trees_eq (floats : FloatFormat) (elems : List Json) :
    trees floats elems = elems.map (tree floats) := by
  induction elems with
  | nil => rfl
  | cons json rest ih => rw [trees, ih, List.map_cons]

theorem memberTrees_eq (floats : FloatFormat) (members : List (String × Json)) :
    memberTrees floats members = members.map fun e => (e.1, e.2.tree floats) := by
  induction members with
  | nil => rfl
  | cons e rest ih => rw [memberTrees, ih, List.map_cons]

end Json

/-- How deep a text may be nested: `remaining_depth` is 128, and it may not come to 0. -/
def recursionLimit : Nat := 127

/-- `serde_json` with its default features. How strings are escaped, and how floats are read and
printed, is left open. -/
def serdeJson (codec : Codec) (floats : FloatFormat) : Serde where
  fromStr text := (JsonTree.ofText codec text).bind fun t =>
    if t.depth ≤ recursionLimit then Json.ofTree floats t else none
  toString json := some ((json.tree floats).text codec)

/-! ### Numbers -/

variable {floats : FloatFormat} {literal : List Char}

/-- What is printed for a literal that has been read. -/
def FloatFormat.reprint (floats : FloatFormat) (literal : List Char) : List Char :=
  ((Number.ofLiteral floats literal).map (Number.literal floats)).getD []

/-- The literal is that of a 64-bit integer. -/
def IsInteger (literal : List Char) : Prop := (Number.machineInteger literal).isSome = true

instance (literal : List Char) : Decidable (IsInteger literal) := inferInstanceAs (Decidable (_ = _))

/-- The literal is that of a 64-bit integer, or of a float that is printed with the same value. -/
def FloatFormat.Keeps (floats : FloatFormat) (literal : List Char) : Prop :=
  IsInteger literal ∨
    ∃ bits, floats.parse literal = some bits ∧ literalValue (floats.print bits) = literalValue literal

namespace FloatFormat

/-- A literal that keeps its value is printed for something. -/
theorem Lawful.printed (h : floats.Lawful) (hkeeps : floats.Keeps literal) :
    IsInteger literal ∨ Printed (literalValue literal) := by
  refine hkeeps.imp_right ?_
  rintro ⟨bits, hparse, hvalue⟩
  exact ⟨f64Value bits, hvalue ▸ h.prints hparse⟩

/-- A literal that is read exactly keeps its value if that is printed for something, and nothing
else is. -/
theorem Lawful.keeps (h : floats.Lawful) (hread : (Number.ofLiteral floats literal).isSome = true)
    (hliteral : IsInteger literal ∨ ReadExactly literal ∧ PrintedOnly (literalValue literal)) :
    floats.Keeps literal := by
  refine or_iff_not_imp_left.mpr fun hinteger => ?_
  obtain ⟨hexact, x, hx, honly⟩ := hliteral.resolve_left hinteger
  have hnone : Number.machineInteger literal = none := Option.not_isSome_iff_eq_none.mp hinteger
  rw [Number.ofLiteral, hnone] at hread
  cases hparse : floats.parse literal with
  | none =>
    rw [hparse] at hread
    cases hread
  | some bits =>
    obtain rfl := hx.rounds.unique (h.parses hexact hparse)
    exact ⟨bits, rfl, honly _ (h.prints hparse)⟩

end FloatFormat

namespace Number

/-- A 64-bit integer has the value of its literal. -/
theorem literalValue_machineInteger {n : Number} (h : machineInteger literal = some n) :
    literalValue (n.literal floats) = literalValue literal ∧ IsNumber (n.literal floats) := by
  unfold machineInteger at h
  split at h
  · split at h
    · next digits hif =>
      obtain ⟨hdigits, hpos, hmin⟩ := hif
      cases h
      refine ⟨?_, isNumber_intLiteral _⟩
      have hround : (Int64.ofInt (-(natValue digits : Int))).toInt = -(natValue digits : Int) :=
        Int64.toInt_ofInt_of_le hmin (by omega)
      show literalValue (intLiteral _) = -magnitude digits
      rw [hround, literalValue_intLiteral, magnitude_digits hdigits]
      simp
    · cases h
  · split at h
    · next hif =>
      obtain ⟨hdigits, hsize⟩ := hif
      cases h
      refine ⟨?_, isNumber_natLiteral _⟩
      show literalValue (natLiteral (UInt64.ofNat _).toNat) = _
      rw [literalValue_natLiteral, literalValue_digits hdigits, UInt64.toNat_ofNat_of_lt' hsize]
    · cases h

theorem isNumber_reprint (h : (ofLiteral floats literal).isSome = true) :
    IsNumber (floats.reprint literal) := by
  unfold FloatFormat.reprint ofLiteral at *
  cases hm : machineInteger literal with
  | some n => exact (literalValue_machineInteger hm).2
  | none =>
    rw [hm] at h
    cases hp : floats.parse literal with
    | none => rw [hp] at h; cases h
    | some bits => exact floats.number hp

/-- The value stays exactly if the format keeps the literal. -/
theorem literalValue_reprint (h : (ofLiteral floats literal).isSome = true) :
    literalValue (floats.reprint literal) = literalValue literal ↔ floats.Keeps literal := by
  unfold FloatFormat.reprint FloatFormat.Keeps IsInteger ofLiteral at *
  cases hm : machineInteger literal with
  | some n => exact iff_of_true (literalValue_machineInteger hm).1 (.inl rfl)
  | none =>
    rw [hm] at h
    cases hp : floats.parse literal with
    | none => rw [hp] at h; cases h
    | some bits => simp [Number.literal]

end Number

/-! ### Reading and printing -/

section
variable {α β γ : Type} {f : α → Option β} {l : List α} {r : List β}

theorem exists_of_mapM (h : l.mapM f = some r) : ∀ a ∈ l, ∃ b, f a = some b := by
  induction l generalizing r with
  | nil => exact nofun
  | cons a l ih =>
    rw [List.mapM_cons] at h
    obtain ⟨b, hb, h⟩ := Option.bind_eq_some_iff.mp h
    obtain ⟨bs, hbs, _⟩ := Option.bind_eq_some_iff.mp h
    exact List.forall_mem_cons.mpr ⟨⟨b, hb⟩, ih hbs⟩

theorem map_of_mapM {g : β → γ} {k : α → γ} (h : l.mapM f = some r)
    (hg : ∀ a ∈ l, ∀ b, f a = some b → g b = k a) : r.map g = l.map k := by
  induction l generalizing r with
  | nil =>
    cases h
    rfl
  | cons a l ih =>
    rw [List.mapM_cons] at h
    obtain ⟨b, hb, h⟩ := Option.bind_eq_some_iff.mp h
    obtain ⟨bs, hbs, h⟩ := Option.bind_eq_some_iff.mp h
    cases h
    rw [List.map_cons, List.map_cons, hg a List.mem_cons_self b hb,
      ih hbs fun a ha => hg a (List.mem_cons_of_mem _ ha)]

end

namespace Json

theorem tree_array (elems : List Json) :
    (Json.array elems).tree floats = .array (elems.map (tree floats)) := by
  rw [tree, trees_eq]

theorem tree_object (members : List (String × Json)) : (Json.object members).tree floats =
    .object (members.map fun e => (e.1, e.2.tree floats)) := by
  rw [tree, memberTrees_eq]

theorem ofTree_array {elems : List (JsonTree (List Char))} {json : Json}
    (h : ofTree floats (.array elems) = some json) :
    ∃ jsons, elems.mapM (ofTree floats) = some jsons ∧ json = .array jsons := by
  obtain ⟨jsons, hjsons, rfl⟩ :=
    Option.map_eq_some_iff.mp ((JsonTree.fold_array _ elems).symm.trans h)
  rw [List.mapM_map] at hjsons
  exact ⟨jsons, hjsons, rfl⟩

theorem ofTree_object {members : List (String × JsonTree (List Char))} {json : Json}
    (h : ofTree floats (.object members) = some json) :
    ∃ jsons, members.mapM (fun e => (ofTree floats e.2).map (e.1, ·)) = some jsons ∧
      json = .object (SortedMap.ofList jsons) := by
  obtain ⟨jsons, hjsons, rfl⟩ :=
    Option.map_eq_some_iff.mp ((JsonTree.fold_object _ members).symm.trans h)
  rw [List.mapM_map] at hjsons
  exact ⟨jsons, hjsons, rfl⟩

/-- What has been read is printed as the normal form of the text, with every number printed anew. -/
theorem tree_ofTree {t : JsonTree (List Char)} {json : Json} (h : ofTree floats t = some json) :
    json.tree floats = t.normal.map floats.reprint ∧
      ∀ literal ∈ t.numbers, (Number.ofLiteral floats literal).isSome = true := by
  induction t using JsonTree.induct generalizing json with
  | null | bool b | string s =>
    cases h
    exact ⟨rfl, nofun⟩
  | number literal =>
    obtain ⟨n, hn, rfl⟩ := Option.map_eq_some_iff.mp h
    refine ⟨?_, fun l hl => ?_⟩
    · show JsonTree.number (n.literal floats) = .number (floats.reprint literal)
      rw [FloatFormat.reprint, hn]
      rfl
    · rw [List.mem_singleton.mp hl, hn]
      rfl
  | array elems ih =>
    obtain ⟨jsons, hjsons, rfl⟩ := ofTree_array h
    constructor
    · rw [tree_array, JsonTree.normal_array, JsonTree.map_array, List.map_map]
      exact congrArg _ (map_of_mapM hjsons fun t ht json hjson => (ih t ht hjson).1)
    · intro literal hl
      obtain ⟨t, ht, hl⟩ := JsonTree.mem_numbers_array.mp hl
      obtain ⟨json, hjson⟩ := exists_of_mapM hjsons t ht
      exact (ih t ht hjson).2 literal hl
  | object members ih =>
    obtain ⟨jsons, hjsons, rfl⟩ := ofTree_object h
    constructor
    · rw [tree_object, JsonTree.normal_object, JsonTree.map_object, ← SortedMap.ofList_map,
        ← SortedMap.ofList_map, List.map_map]
      refine congrArg (fun l => JsonTree.object (SortedMap.ofList l)) (map_of_mapM hjsons ?_)
      intro e he member hmember
      obtain ⟨json, hjson, rfl⟩ := Option.map_eq_some_iff.mp hmember
      exact Prod.ext rfl (ih e he hjson).1
    · intro literal hl
      obtain ⟨e, he, hl⟩ := JsonTree.mem_numbers_object.mp hl
      obtain ⟨member, hmember⟩ := exists_of_mapM hjsons e he
      obtain ⟨json, hjson, _⟩ := Option.map_eq_some_iff.mp hmember
      exact (ih e he hjson).2 literal hl

theorem tree_remove (members : List (String × Json)) (key : String) :
    ((Json.object members).remove key).tree floats =
      .object ((members.map fun e => (e.1, e.2.tree floats)).filter fun e => e.1 ≠ key) := by
  rw [remove, tree_object, List.filter_map]
  rfl

end Json

/-! ### What the handler gets -/

/-- What a text says, with the literals of its numbers. -/
def document (codec : Codec) (text : String) : Option (JsonTree (List Char)) :=
  (JsonTree.ofText codec text).map JsonTree.normal

/-- What a text says, with what its numbers stand for. -/
def meaning (codec : Codec) (text : String) : Option (JsonTree ℚ) :=
  (document codec text).map (JsonTree.map literalValue)

/-- The members of the object are those of the payload's, the matched one excepted. -/
def LosesOnly (codec : Codec) (key payload passed : String) : Prop :=
  ∃ received left, meaning codec payload = some (.object received) ∧
    meaning codec passed = some (.object left) ∧
    ∀ name, SortedMap.find name left = if name = key then none else SortedMap.find name received

variable {codec : Codec}

theorem findHandler_get {handlers : Handlers} {json : Json} {handler : ReceiveHandler} {key : String}
    (h : findHandler handlers json = some (handler, key)) : ∃ x, json.get key = some x := by
  obtain ⟨e, _, he⟩ := List.exists_of_findSome?_eq_some h
  split at he
  · cases he
  · next x hx =>
    obtain ⟨v, _, hv⟩ := List.exists_of_findSome?_eq_some he
    split at hv
    · cases hv
      exact ⟨x, hx⟩
    · cases hv

/-- An object that was read is printed as its document, with every number printed anew. -/
theorem fromStr_object {payload : String} {members : List (String × Json)}
    (h : (serdeJson codec floats).fromStr payload = some (.object members)) :
    ∃ doc, document codec payload = some (.object doc) ∧
      members.map (fun e => (e.1, e.2.tree floats)) =
        doc.map (fun e => (e.1, e.2.map floats.reprint)) ∧
      (JsonTree.object doc).normal = .object doc ∧
      ∀ literal ∈ (JsonTree.object doc).numbers, (Number.ofLiteral floats literal).isSome = true := by
  obtain ⟨t, ht, h⟩ := Option.bind_eq_some_iff.mp h
  split at h
  · obtain ⟨htree, hnumbers⟩ := Json.tree_ofTree h
    have hnormal := JsonTree.normal_normal t
    have hsub := fun literal hl => hnumbers literal (JsonTree.numbers_normal (t := t) hl)
    rw [Json.tree_object] at htree
    cases hdoc : t.normal with
    | object doc =>
      rw [hdoc, JsonTree.map_object] at htree
      rw [hdoc] at hnormal hsub
      refine ⟨doc, ?_, JsonTree.object.inj htree, hnormal, hsub⟩
      rw [document, ht, Option.map_some, hdoc]
    | _ =>
      rw [hdoc] at htree
      cases htree
  · cases h

/-- A text that was printed from a normal document says what the document does. -/
theorem meaning_text {t : JsonTree (List Char)} (ht : t.normal = t)
    (h : ∀ literal ∈ t.numbers, IsNumber literal) :
    meaning codec (t.text codec) = some (t.map literalValue) := by
  rw [meaning, document, JsonTree.ofText_text codec h, Option.map_some, Option.map_some, ht]

/-- What the printed rest of an object says. -/
theorem meaning_rest {kept : List (String × JsonTree (List Char))}
    (hkept : (JsonTree.object kept).normal = .object kept)
    (h : ∀ literal ∈ (JsonTree.object kept).numbers, IsNumber (floats.reprint literal)) :
    meaning codec (((JsonTree.object kept).map floats.reprint).text codec) =
      some ((JsonTree.object kept).map (literalValue ∘ floats.reprint)) := by
  rw [← JsonTree.map_map]
  apply meaning_text
  · rw [JsonTree.normal_map, hkept]
  · intro literal hl
    rw [JsonTree.numbers_map] at hl
    obtain ⟨l, hmem, rfl⟩ := List.mem_map.mp hl
    exact h l hmem

/-- The rest of an object, as it says it, against the members it was taken from. -/
theorem losesOnly_iff {key payload passed : String} {doc : List (String × JsonTree (List Char))}
    (hdoc : SortedMap.Sorted doc) (hpayload : meaning codec payload =
      some ((JsonTree.object doc).map literalValue))
    (hpassed : meaning codec passed =
      some ((JsonTree.object (doc.filter fun e => e.1 ≠ key)).map (literalValue ∘ floats.reprint))) :
    LosesOnly codec key payload passed ↔
      ∀ literal ∈ (JsonTree.object (doc.filter fun e => e.1 ≠ key)).numbers,
        literalValue (floats.reprint literal) = literalValue literal := by
  refine Iff.trans ?_ (@JsonTree.map_eq_map _ _ (literalValue ∘ floats.reprint) literalValue _)
  rw [JsonTree.map_object] at hpayload hpassed
  rw [JsonTree.map_object, JsonTree.map_object, JsonTree.object.injEq]
  have hkept := hdoc.filter fun e => e.1 ≠ key
  have hfilter : (doc.filter fun e => e.1 ≠ key).map (fun e => (e.1, e.2.map literalValue)) =
      (doc.map fun e => (e.1, e.2.map literalValue)).filter fun e => e.1 ≠ key := by
    rw [List.filter_map]
    rfl
  constructor
  · rintro ⟨received, left, hreceived, hleft, hfind⟩
    cases hpayload.symm.trans hreceived
    cases hpassed.symm.trans hleft
    refine (hkept.map _).ext (hkept.map _) fun name => ?_
    rw [hfind, hfilter, SortedMap.find_filter]
  · intro heq
    refine ⟨_, _, hpayload, hpassed, fun name => ?_⟩
    rw [heq, hfilter, SortedMap.find_filter]

/-- A number that stands in one of the other members. -/
def Stays (key : String) (doc : List (String × JsonTree (List Char))) (literal : List Char) : Prop :=
  ∃ e ∈ doc, e.1 ≠ key ∧ literal ∈ e.2.numbers

theorem stays_iff {key : String} {doc : List (String × JsonTree (List Char))} :
    Stays key doc literal ↔
      literal ∈ (JsonTree.object (doc.filter fun e => e.1 ≠ key)).numbers := by
  simp only [Stays, JsonTree.mem_numbers_object, List.mem_filter, decide_eq_true_eq, and_assoc]

theorem Stays.mem {key : String} {doc : List (String × JsonTree (List Char))}
    (h : Stays key doc literal) : literal ∈ (JsonTree.object doc).numbers := by
  obtain ⟨e, he, _, hl⟩ := h
  exact JsonTree.mem_numbers_object.mpr ⟨e, he, hl⟩

/-- What is printed of a document that has been read loses only the key if its numbers are kept. -/
theorem losesOnly_rest {key payload : String} {doc : List (String × JsonTree (List Char))}
    (hdoc : document codec payload = some (.object doc))
    (hnormal : (JsonTree.object doc).normal = .object doc)
    (hread : ∀ literal ∈ (JsonTree.object doc).numbers,
      (Number.ofLiteral floats literal).isSome = true) :
    LosesOnly codec key payload
        (((JsonTree.object (doc.filter fun e => e.1 ≠ key)).map floats.reprint).text codec) ↔
      ∀ literal, Stays key doc literal → floats.Keeps literal := by
  obtain ⟨hsorted, hvalues⟩ := JsonTree.normal_object_self hnormal
  have hkept : (JsonTree.object (doc.filter fun e => e.1 ≠ key)).normal = .object _ :=
    JsonTree.normal_object_of_sorted (hsorted.filter _) fun e he =>
      hvalues e (List.mem_of_mem_filter he)
  have hrest : ∀ literal ∈ (JsonTree.object (doc.filter fun e => e.1 ≠ key)).numbers,
      (Number.ofLiteral floats literal).isSome = true := by
    intro literal hl
    exact hread literal (stays_iff.mpr hl).mem
  rw [losesOnly_iff hsorted (by rw [meaning, hdoc, Option.map_some])
    (meaning_rest hkept fun l hl => Number.isNumber_reprint (hrest l hl))]
  refine forall_congr' fun literal => ?_
  rw [stays_iff]
  exact forall_congr' fun hl => Number.literalValue_reprint (hrest literal hl)

/-- **Which messages a handler with `remove_key` gets as they are.** The payload that is passed
on is the text of an object that has the members of the message, the matched one excepted, where
every number in them is a 64-bit integer or a decimal of at most 15 digits, or a decimal that is
read exactly and that alone is printed for a float. It is not where another number stands in them
that is printed for no float, as none of more than 17 digits is. -/
theorem key_removal (codec : Codec) (floats : FloatFormat) (hfloats : floats.Lawful) (py : Python)
    (rc : ReceiveCallback) (disconnectCallback : Option Callback) (bytes : List UInt8)
    (payload : String) (handler : ReceiveHandler) (key : String)
    (hpayload : fromUtf8 bytes = some payload)
    (hmatch : rc.matchResult (serdeJson codec floats) payload = some (handler, key))
    (hremove : handler.removeKey = true) :
    ∃ json doc, (serdeJson codec floats).fromStr payload = some json ∧
      document codec payload = some (.object doc) ∧
      let passed := handler.payload (serdeJson codec floats) json key payload
      (turn py (serdeJson codec floats) rc disconnectCallback (some ⟨.text, bytes⟩)).1 =
        handler.callback.invokeText py handler.schema passed ∧
      ((∀ literal, Stays key doc literal → IsInteger literal ∨ Short literal) →
        LosesOnly codec key payload passed) ∧
      ((∀ literal, Stays key doc literal →
          IsInteger literal ∨ ReadExactly literal ∧ PrintedOnly (literalValue literal)) →
        LosesOnly codec key payload passed) ∧
      (LosesOnly codec key payload passed → ∀ literal, Stays key doc literal →
        IsInteger literal ∨ Printed (literalValue literal) ∧ Decimal 17 (literalValue literal)) := by
  obtain ⟨json, hjson, honText⟩ := rc.onText_selected hmatch py
  obtain ⟨_, hget⟩ : ∃ x, json.get key = some x := by
    rw [rc.matchResult_eq, hjson] at hmatch
    exact findHandler_get hmatch
  obtain ⟨members, rfl, _⟩ := Json.get_some hget
  obtain ⟨doc, hdoc, htree, hnormal, hread⟩ := fromStr_object hjson
  have hpassed : handler.payload (serdeJson codec floats) (.object members) key payload =
      ((JsonTree.object (doc.filter fun e => e.1 ≠ key)).map floats.reprint).text codec := by
    rw [ReceiveHandler.payload, if_pos hremove]
    show (((Json.object members).remove key).tree floats).text codec = _
    rw [Json.tree_remove, htree, JsonTree.map_object, List.filter_map]
    rfl
  have hcall : (turn py (serdeJson codec floats) rc disconnectCallback (some ⟨.text, bytes⟩)).1 =
      handler.callback.invokeText py handler.schema
        (handler.payload (serdeJson codec floats) (.object members) key payload) := by
    simp only [turn, hpayload]
    exact honText
  have hkeeps : LosesOnly codec key payload
      (handler.payload (serdeJson codec floats) (.object members) key payload) ↔
      ∀ literal, Stays key doc literal → floats.Keeps literal :=
    hpassed ▸ losesOnly_rest hdoc hnormal hread
  have hexact : (∀ literal, Stays key doc literal →
      IsInteger literal ∨ ReadExactly literal ∧ PrintedOnly (literalValue literal)) →
      LosesOnly codec key payload
        (handler.payload (serdeJson codec floats) (.object members) key payload) := fun h =>
    hkeeps.mpr fun literal hl => hfloats.keeps (hread literal hl.mem) (h literal hl)
  refine ⟨.object members, doc, hjson, hdoc, hcall, fun h => ?_, hexact, fun h literal hl => ?_⟩
  · exact hexact fun literal hl =>
      (h literal hl).imp_right fun hshort => ⟨hshort.readExactly, hshort.printedOnly⟩
  · exact (hfloats.printed (hkeeps.mp h literal hl)).imp_right fun hv => ⟨hv, hv.decimal⟩

/-- `Match("type", "message", remove_key=True)`. -/
def strippedMatch : Match :=
  { chatMatch with
    values := [.string "message"]
    removeKey := true
    values_ne := List.cons_ne_nil _ _ }

def strippedCallback : ReceiveCallback :=
  connected plainPython [.decorated (some strippedMatch) none 3] [] (.new "/ws" none [])

theorem key_removal_small :
    let payload := "\x7b\"id\":7,\"price\":[0.1,-2.50],\"type\":\"message\"\x7d"
    let passed := "\x7b\"id\":7,\"price\":[0.1,-2.5]\x7d"
    (turn plainPython (serdeJson .shortest nearestFloats) strippedCallback none
        (some (Message.text payload).frame)).1 = [⟨⟨3, false⟩, .receive (.text passed)⟩] ∧
      LosesOnly .shortest "type" payload passed := by
  intro payload passed
  have hcall : (turn plainPython (serdeJson .shortest nearestFloats) strippedCallback none
      (some (Message.text payload).frame)).1 = [⟨⟨3, false⟩, .receive (.text passed)⟩] := by
    rw [turn_text]
    decide +kernel
  obtain ⟨json, doc, _, hdoc, hinvoke, hshort, _⟩ := key_removal .shortest nearestFloats
    nearestFloats_lawful plainPython strippedCallback none payload.toUTF8.data.toList payload
    ⟨0, ⟨3, false⟩, none, true⟩ "type" (fromUtf8_toUTF8 payload) (by decide +kernel) rfl
  have hpassed := (List.cons.inj (hinvoke.symm.trans hcall)).1
  rw [Data.text.inj (Args.receive.inj (Invocation.mk.inj hpassed).2)] at hshort
  have hnumbers : (document .shortest payload).map JsonTree.numbers =
      some [['7'], "0.1".toList, "-2.50".toList] := by decide +kernel
  have hall : ∀ literal ∈ [['7'], "0.1".toList, "-2.50".toList],
      IsInteger literal ∨ Short literal := by decide +kernel
  rw [hdoc, Option.map_some, Option.some.injEq] at hnumbers
  exact ⟨hcall, hshort fun literal hl => hall literal (hnumbers ▸ hl.mem)⟩

/-- The message has an integer in it that fits into no `i64` or `u64`, and another one is
passed on. -/
theorem key_removal_inexact :
    let payload := "\x7b\"id\":18446744073709551616,\"type\":\"message\"\x7d"
    let passed := "\x7b\"id\":1.8446744073709552e19\x7d"
    strippedCallback.matchResult (serdeJson .shortest nearestFloats) payload =
        some (⟨0, ⟨3, false⟩, none, true⟩, "type") ∧
      (turn plainPython (serdeJson .shortest nearestFloats) strippedCallback none
        (some (Message.text payload).frame)).1 = [⟨⟨3, false⟩, .receive (.text passed)⟩] ∧
      ¬ LosesOnly .shortest "type" payload passed := by
  intro payload passed
  refine ⟨by decide +kernel, ?_, ?_⟩
  · rw [turn_text]
    decide +kernel
  · have hpayload : payload = (JsonTree.object [("id", .number "18446744073709551616".toList),
        ("type", .string "message")]).text .shortest := by decide +kernel
    have hpassed : passed =
        (JsonTree.object [("id", .number "1.8446744073709552e19".toList)]).text .shortest := by
      decide +kernel
    have hinput : IsNumber "18446744073709551616".toList := isNumber_natLiteral 18446744073709551616
    have houtput : IsNumber "1.8446744073709552e19".toList := by
      have hwritten : "1.8446744073709552e19".toList =
          decimalLiteral ['1'] "8446744073709552".toList (some 19) := by decide +kernel
      rw [hwritten]
      exact (isNumber_decimalLiteral (.inr ⟨rfl, '1', [], rfl, by decide⟩) (by decide) (some 19)).1
    rintro ⟨received, left, hreceived, hleft, hfind⟩
    rw [hpayload] at hreceived
    rw [hpassed] at hleft
    cases hreceived.symm.trans (meaning_text rfl (List.forall_mem_singleton.mpr hinput))
    cases hleft.symm.trans (meaning_text rfl (List.forall_mem_singleton.mpr houtput))
    have hid : some (JsonTree.number (literalValue "1.8446744073709552e19".toList)) =
        some (.number (literalValue "18446744073709551616".toList)) := hfind "id"
    have hne : literalValue "1.8446744073709552e19".toList ≠
        literalValue "18446744073709551616".toList := by decide +kernel
    exact hne (JsonTree.number.inj (Option.some.inj hid))

end Webrockets

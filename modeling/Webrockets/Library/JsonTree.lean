import Mathlib.Data.String.Basic
import Webrockets.Library.JsonText
import Webrockets.Library.SortedMap

/-! What a JSON text says, as a tree.

`JsonTree` is what stands in the text; its numbers are of any kind, first of all the literals.
`ofText` reads one, and `ofText_text` says that what was printed from a tree is read as that
tree. In `normal` form the members of an object are a map: sorted, and of those with one name
the last. -/
namespace JsonText

inductive JsonTree (N : Type) where
  | null
  | bool (b : Bool)
  | number (n : N)
  | string (s : String)
  | array (elems : List (JsonTree N))
  | object (members : List (String × JsonTree N))

/-! ### Folds -/

/-- What to make of each kind of tree, when the parts have been dealt with. -/
structure Fold (N T : Type) where
  null : T
  bool : Bool → T
  number : N → T
  string : String → T
  array : List T → T
  object : List (String × T) → T

namespace JsonTree
variable {N M T : Type}

mutual

def fold (f : Fold N T) : JsonTree N → T
  | .null => f.null
  | .bool b => f.bool b
  | .number n => f.number n
  | .string s => f.string s
  | .array elems => f.array (foldElems f elems)
  | .object members => f.object (foldMembers f members)

def foldElems (f : Fold N T) : List (JsonTree N) → List T
  | [] => []
  | t :: rest => fold f t :: foldElems f rest

def foldMembers (f : Fold N T) : List (String × JsonTree N) → List (String × T)
  | [] => []
  | (key, t) :: rest => (key, fold f t) :: foldMembers f rest

end

theorem foldElems_eq (f : Fold N T) (elems : List (JsonTree N)) :
    foldElems f elems = elems.map (fold f) := by
  induction elems with
  | nil => rfl
  | cons t rest ih => rw [foldElems, ih, List.map_cons]

theorem foldMembers_eq (f : Fold N T) (members : List (String × JsonTree N)) :
    foldMembers f members = members.map fun e => (e.1, fold f e.2) := by
  induction members with
  | nil => rfl
  | cons e rest ih => rw [foldMembers, ih, List.map_cons]

theorem fold_array (f : Fold N T) (elems : List (JsonTree N)) :
    fold f (.array elems) = f.array (elems.map (fold f)) := by
  rw [fold, foldElems_eq]

theorem fold_object (f : Fold N T) (members : List (String × JsonTree N)) :
    fold f (.object members) = f.object (members.map fun e => (e.1, fold f e.2)) := by
  rw [fold, foldMembers_eq]

/-- What holds of a tree if it holds of its parts holds of all trees. -/
theorem induct {P : JsonTree N → Prop} (null : P .null) (bool : ∀ b, P (.bool b))
    (number : ∀ n, P (.number n)) (string : ∀ s, P (.string s))
    (array : ∀ elems, (∀ t ∈ elems, P t) → P (.array elems))
    (object : ∀ members, (∀ e ∈ members, P e.2) → P (.object members)) (t : JsonTree N) : P t := by
  refine @JsonTree.rec N P (fun elems => ∀ t ∈ elems, P t) (fun members => ∀ e ∈ members, P e.2)
    (fun e => P e.2) null bool number string array object ?_ ?_ ?_ ?_ (fun _ _ h => h) t
  · exact fun _ h => absurd h List.not_mem_nil
  · exact fun _ _ hhead hrest => List.forall_mem_cons.mpr ⟨hhead, hrest⟩
  · exact fun _ h => absurd h List.not_mem_nil
  · exact fun _ _ hhead hrest => List.forall_mem_cons.mpr ⟨hhead, hrest⟩

/-! ### Numbers -/

def map (f : N → M) : JsonTree N → JsonTree M :=
  fold ⟨.null, .bool, fun n => .number (f n), .string, .array, .object⟩

/-- The numbers in a tree, as they stand. -/
def numbers : JsonTree N → List N :=
  fold ⟨[], fun _ => [], fun n => [n], fun _ => [], List.flatten, fun l => (l.map Prod.snd).flatten⟩

/-- How deep the arrays and objects of a tree are nested. -/
def depth : JsonTree N → Nat :=
  fold ⟨0, fun _ => 0, fun _ => 0, fun _ => 0, fun l => l.foldr max 0 + 1,
    fun l => (l.map Prod.snd).foldr max 0 + 1⟩

theorem map_array (f : N → M) (elems : List (JsonTree N)) :
    (JsonTree.array elems).map f = .array (elems.map (map f)) := fold_array _ elems

theorem map_object (f : N → M) (members : List (String × JsonTree N)) :
    (JsonTree.object members).map f = .object (members.map fun e => (e.1, e.2.map f)) :=
  fold_object _ members

theorem mem_numbers_array {elems : List (JsonTree N)} {n : N} :
    n ∈ (JsonTree.array elems).numbers ↔ ∃ t ∈ elems, n ∈ t.numbers := by
  rw [numbers, fold_array, List.mem_flatten]
  simp

theorem mem_numbers_object {members : List (String × JsonTree N)} {n : N} :
    n ∈ (JsonTree.object members).numbers ↔ ∃ e ∈ members, n ∈ e.2.numbers := by
  rw [numbers, fold_object, List.mem_flatten]
  simp

theorem map_map {K : Type} (f : N → M) (g : M → K) (t : JsonTree N) :
    (t.map f).map g = t.map (g ∘ f) := by
  induction t using induct with
  | null | bool b | number n | string s => rfl
  | array elems ih =>
    rw [map_array, map_array, map_array, List.map_map]
    exact congrArg _ (List.map_congr_left ih)
  | object members ih =>
    rw [map_object, map_object, map_object, List.map_map]
    exact congrArg _ (List.map_congr_left fun e he => Prod.ext rfl (ih e he))

theorem numbers_map (f : N → M) (t : JsonTree N) : (t.map f).numbers = t.numbers.map f := by
  induction t using induct with
  | null | bool b | number n | string s => rfl
  | array elems ih =>
    rw [map_array, numbers, numbers, fold_array, fold_array, List.map_map, List.map_flatten,
      List.map_map]
    exact congrArg List.flatten (List.map_congr_left ih)
  | object members ih =>
    rw [map_object, numbers, numbers, fold_object, fold_object]
    simp only [List.map_map, List.map_flatten]
    exact congrArg List.flatten (List.map_congr_left ih)

/-- Two ways of reading numbers make the same of a tree exactly if they do of its numbers. -/
theorem map_eq_map {f g : N → M} (t : JsonTree N) :
    t.map f = t.map g ↔ ∀ n ∈ t.numbers, f n = g n := by
  induction t using induct with
  | null => exact ⟨fun _ _ h => absurd h List.not_mem_nil, fun _ => rfl⟩
  | bool b => exact ⟨fun _ _ h => absurd h List.not_mem_nil, fun _ => rfl⟩
  | string s => exact ⟨fun _ _ h => absurd h List.not_mem_nil, fun _ => rfl⟩
  | number n =>
    show JsonTree.number (f n) = .number (g n) ↔ ∀ m ∈ [n], f m = g m
    simp
  | array elems ih =>
    rw [map_array, map_array, JsonTree.array.injEq, List.map_inj_left]
    simp only [mem_numbers_array]
    constructor
    · rintro h n ⟨t, ht, hn⟩
      exact (ih t ht).mp (h t ht) n hn
    · exact fun h t ht => (ih t ht).mpr fun n hn => h n ⟨t, ht, hn⟩
  | object members ih =>
    rw [map_object, map_object, JsonTree.object.injEq, List.map_inj_left]
    simp only [mem_numbers_object, Prod.mk.injEq, true_and]
    constructor
    · rintro h n ⟨e, he, hn⟩
      exact (ih e he).mp (h e he) n hn
    · exact fun h e he => (ih e he).mpr fun n hn => h n ⟨e, he, hn⟩

/-! ### Normal form -/

def normal : JsonTree N → JsonTree N :=
  fold ⟨.null, .bool, .number, .string, .array, fun members => .object (SortedMap.ofList members)⟩

theorem normal_array (elems : List (JsonTree N)) :
    (JsonTree.array elems).normal = .array (elems.map normal) := fold_array _ elems

theorem normal_object (members : List (String × JsonTree N)) : (JsonTree.object members).normal =
    .object (SortedMap.ofList (members.map fun e => (e.1, e.2.normal))) := fold_object _ members

theorem normal_object_of_sorted {members : List (String × JsonTree N)}
    (hm : SortedMap.Sorted members) (h : ∀ e ∈ members, e.2.normal = e.2) :
    (JsonTree.object members).normal = .object members := by
  have hmap : members.map (fun e => (e.1, e.2.normal)) = members := by
    conv_rhs => rw [← List.map_id members]
    exact List.map_congr_left fun e he => Prod.ext rfl (h e he)
  rw [normal_object, hmap, SortedMap.ofList_of_sorted hm]

theorem normal_normal (t : JsonTree N) : t.normal.normal = t.normal := by
  induction t using induct with
  | null => rfl
  | bool b => rfl
  | number n => rfl
  | string s => rfl
  | array elems ih =>
    rw [normal_array, normal_array, List.map_map]
    exact congrArg _ (List.map_congr_left ih)
  | object members ih =>
    rw [normal_object]
    refine normal_object_of_sorted (SortedMap.sorted_ofList _) fun e he => ?_
    obtain ⟨d, hd, rfl⟩ := List.mem_map.mp (SortedMap.mem_ofList he)
    exact ih d hd

theorem normal_map (f : N → M) (t : JsonTree N) : (t.map f).normal = t.normal.map f := by
  induction t using induct with
  | null => rfl
  | bool b => rfl
  | number n => rfl
  | string s => rfl
  | array elems ih =>
    rw [map_array, normal_array, normal_array, map_array, List.map_map, List.map_map]
    exact congrArg _ (List.map_congr_left ih)
  | object members ih =>
    rw [map_object, normal_object, normal_object, map_object, ← SortedMap.ofList_map, List.map_map,
      List.map_map]
    exact congrArg (fun l => JsonTree.object (SortedMap.ofList l))
      (List.map_congr_left fun e he => Prod.ext rfl (ih e he))

/-- A normal object is a map with normal values. -/
theorem normal_object_self {members : List (String × JsonTree N)}
    (h : (JsonTree.object members).normal = .object members) :
    SortedMap.Sorted members ∧ ∀ e ∈ members, e.2.normal = e.2 := by
  rw [normal_object] at h
  have hmembers := JsonTree.object.inj h
  rw [← hmembers]
  refine ⟨SortedMap.sorted_ofList _, fun e he => ?_⟩
  obtain ⟨d, _, rfl⟩ := List.mem_map.mp (SortedMap.mem_ofList he)
  exact normal_normal d.2

/-- Every number of the normal form stands in the tree. -/
theorem numbers_normal {t : JsonTree N} {n : N} (h : n ∈ t.normal.numbers) : n ∈ t.numbers := by
  induction t using induct with
  | null | bool b | number m | string s => exact h
  | array elems ih =>
    rw [normal_array, mem_numbers_array] at h
    obtain ⟨u, hu, hn⟩ := h
    obtain ⟨t, ht, rfl⟩ := List.mem_map.mp hu
    exact mem_numbers_array.mpr ⟨t, ht, ih t ht hn⟩
  | object members ih =>
    rw [normal_object, mem_numbers_object] at h
    obtain ⟨d, hd, hn⟩ := h
    obtain ⟨e, he, rfl⟩ := List.mem_map.mp (SortedMap.mem_ofList hd)
    exact mem_numbers_object.mpr ⟨e, he, ih e he hn⟩

/-! ### Printing -/

/-- The parts of an array or an object after the first, and the bracket that closes it. -/
def tailTokens (close : Token) : List (List Token) → List Token
  | [] => [close]
  | ts :: rest => .comma :: (ts ++ tailTokens close rest)

def partTokens (close : Token) : List (List Token) → List Token
  | [] => [close]
  | ts :: rest => ts ++ tailTokens close rest

/-- The tokens of a text without spaces. -/
def tokens (codec : Codec) : JsonTree (List Char) → List Token :=
  fold ⟨[.null], fun b => [.bool b], fun literal => [.number literal], fun s => [codec.token s],
    fun elems => .beginArray :: partTokens .endArray elems,
    fun members => .beginObject ::
      partTokens .endObject (members.map fun e => codec.token e.1 :: .colon :: e.2)⟩

def text (codec : Codec) (t : JsonTree (List Char)) : String :=
  String.ofList (JsonText.text (t.tokens codec))

/-! ### Reading -/

mutual

/-- The value that comes first, and what comes after it. An array or an object goes on after
its bracket as it does after a comma. -/
def value (codec : Codec) : Nat → List Token → Option (JsonTree (List Char) × List Token)
  | 0, _ => none
  | fuel + 1, ts =>
    match ts with
    | .null :: rest => some (.null, rest)
    | .bool b :: rest => some (.bool b, rest)
    | .number literal :: rest => some (.number literal, rest)
    | .string raw :: rest => (codec.unescape raw).map fun s => (.string s, rest)
    | .beginArray :: .endArray :: rest => some (.array [], rest)
    | .beginArray :: rest => (elemTail codec fuel (.comma :: rest)).map fun p => (.array p.1, p.2)
    | .beginObject :: .endObject :: rest => some (.object [], rest)
    | .beginObject :: rest =>
      (memberTail codec fuel (.comma :: rest)).map fun p => (.object p.1, p.2)
    | _ => none

def elemTail (codec : Codec) : Nat → List Token → Option (List (JsonTree (List Char)) × List Token)
  | 0, _ => none
  | fuel + 1, ts =>
    match ts with
    | .endArray :: rest => some ([], rest)
    | .comma :: rest =>
      match value codec fuel rest with
      | some (t, rest) => (elemTail codec fuel rest).map fun p => (t :: p.1, p.2)
      | none => none
    | _ => none

def memberTail (codec : Codec) :
    Nat → List Token → Option (List (String × JsonTree (List Char)) × List Token)
  | 0, _ => none
  | fuel + 1, ts =>
    match ts with
    | .endObject :: rest => some ([], rest)
    | .comma :: .string raw :: .colon :: rest =>
      match codec.unescape raw, value codec fuel rest with
      | some key, some (t, rest) => (memberTail codec fuel rest).map fun p => ((key, t) :: p.1, p.2)
      | _, _ => none
    | _ => none

end

/-- A token is gone over twice at most, so `value` has fuel enough. -/
def ofTokens (codec : Codec) (ts : List Token) : Option (JsonTree (List Char)) :=
  match value codec (2 * ts.length) ts with
  | some (t, []) => some t
  | _ => none

def ofText (codec : Codec) (text : String) : Option (JsonTree (List Char)) :=
  (JsonText.tokens text.toList).bind (ofTokens codec)

/-! ### What is printed is read back -/

variable (codec : Codec)

theorem tokens_array (elems : List (JsonTree (List Char))) : (JsonTree.array elems).tokens codec =
    .beginArray :: partTokens .endArray (elems.map (tokens codec)) := fold_array _ elems

theorem tokens_object (members : List (String × JsonTree (List Char))) :
    (JsonTree.object members).tokens codec = .beginObject :: partTokens .endObject
      (members.map fun e => codec.token e.1 :: .colon :: e.2.tokens codec) := by
  simp only [tokens, fold_object, List.map_map]
  rfl

/-- No value begins with a closing bracket. -/
theorem tokens_begin (t : JsonTree (List Char)) :
    ∃ token rest, t.tokens codec = token :: rest ∧ token ≠ .endArray := by
  cases t with
  | array elems => exact ⟨_, _, tokens_array codec elems, nofun⟩
  | object members => exact ⟨_, _, tokens_object codec members, nofun⟩
  | _ => exact ⟨_, _, rfl, nofun⟩

theorem elemTail_tokens {elems : List (JsonTree (List Char))} (h : ∀ t ∈ elems, ∀ fuel rest,
      2 * (t.tokens codec).length ≤ fuel → value codec fuel (t.tokens codec ++ rest) = some (t, rest))
    (fuel : Nat) (rest : List Token)
    (hfuel : 2 * (tailTokens .endArray (elems.map (tokens codec))).length ≤ fuel + 1) :
    elemTail codec fuel (tailTokens .endArray (elems.map (tokens codec)) ++ rest) =
      some (elems, rest) := by
  induction elems generalizing fuel with
  | nil =>
    cases fuel with
    | zero => cases Nat.not_succ_le_self 1 hfuel
    | succ fuel => rfl
  | cons t elems ih =>
    obtain ⟨ht, helems⟩ := List.forall_mem_cons.mp h
    simp only [List.map_cons, tailTokens, List.length_cons, List.length_append] at hfuel
    cases fuel with
    | zero => omega
    | succ fuel =>
      have hvalue := ht fuel (tailTokens .endArray (elems.map (tokens codec)) ++ rest) (by omega)
      simp only [List.map_cons, tailTokens, List.cons_append, List.append_assoc, elemTail, hvalue,
        ih helems fuel (by omega), Option.map_some]

theorem memberTail_tokens {members : List (String × JsonTree (List Char))}
    (h : ∀ e ∈ members, ∀ fuel rest, 2 * (e.2.tokens codec).length ≤ fuel →
      value codec fuel (e.2.tokens codec ++ rest) = some (e.2, rest))
    (fuel : Nat) (rest : List Token)
    (hfuel : 2 * (tailTokens .endObject
      (members.map fun e => codec.token e.1 :: .colon :: e.2.tokens codec)).length ≤ fuel + 1) :
    memberTail codec fuel (tailTokens .endObject
      (members.map fun e => codec.token e.1 :: .colon :: e.2.tokens codec) ++ rest) =
      some (members, rest) := by
  induction members generalizing fuel with
  | nil =>
    cases fuel with
    | zero => cases Nat.not_succ_le_self 1 hfuel
    | succ fuel => rfl
  | cons e members ih =>
    obtain ⟨he, hmembers⟩ := List.forall_mem_cons.mp h
    simp only [List.map_cons, tailTokens, List.length_cons, List.length_append] at hfuel
    cases fuel with
    | zero => omega
    | succ fuel =>
      have hvalue := he fuel (tailTokens .endObject
        (members.map fun e => codec.token e.1 :: .colon :: e.2.tokens codec) ++ rest) (by omega)
      have hmember : memberTail codec (fuel + 1) (.comma :: .string (codec.escape e.1) :: .colon ::
          (e.2.tokens codec ++ (tailTokens .endObject
            (members.map fun e => codec.token e.1 :: .colon :: e.2.tokens codec) ++ rest))) =
          some (e :: members, rest) := by
        rw [memberTail, codec.inverse, hvalue]
        simp only [ih hmembers fuel (by omega), Option.map_some]
      simp only [List.map_cons, tailTokens, List.cons_append, List.append_assoc]
      exact hmember

/-- With fuel enough the tokens of a tree are read as the tree. -/
theorem value_tokens (t : JsonTree (List Char)) (fuel : Nat) (rest : List Token)
    (hfuel : 2 * (t.tokens codec).length ≤ fuel) :
    value codec fuel (t.tokens codec ++ rest) = some (t, rest) := by
  induction t using induct generalizing fuel rest with
  | null | bool b | number n =>
    obtain ⟨fuel, rfl⟩ := Nat.exists_eq_add_of_le' (Nat.lt_of_lt_of_le (by decide : 0 < 2) hfuel)
    rfl
  | string s =>
    obtain ⟨fuel, rfl⟩ := Nat.exists_eq_add_of_le' (Nat.lt_of_lt_of_le (by decide : 0 < 2) hfuel)
    show (codec.unescape (codec.escape s)).map _ = _
    rw [codec.inverse, Option.map_some]
    rfl
  | array elems ih =>
    rw [tokens_array, List.length_cons] at hfuel
    obtain ⟨fuel, rfl⟩ := Nat.exists_eq_add_of_le' (show 0 < fuel by omega)
    rw [tokens_array]
    cases elems with
    | nil => rfl
    | cons t elems =>
      have htail := elemTail_tokens codec ih fuel rest (by
        simp only [List.map_cons, tailTokens, partTokens, List.length_cons] at hfuel ⊢
        omega)
      obtain ⟨token, more, htoken, hclose⟩ := tokens_begin codec t
      simp only [List.map_cons, tailTokens, partTokens, List.cons_append, htoken] at htail ⊢
      rw [value, htail, Option.map_some]
      exact fun _ h => hclose (List.cons.inj h).1
  | object members ih =>
    rw [tokens_object, List.length_cons] at hfuel
    obtain ⟨fuel, rfl⟩ := Nat.exists_eq_add_of_le' (show 0 < fuel by omega)
    rw [tokens_object]
    cases members with
    | nil => rfl
    | cons e members =>
      have htail := memberTail_tokens codec ih fuel rest (by
        simp only [List.map_cons, tailTokens, partTokens, List.length_cons] at hfuel ⊢
        omega)
      simp only [List.map_cons, tailTokens, partTokens, List.cons_append, Codec.token] at htail ⊢
      rw [value, htail, Option.map_some]
      exact nofun

theorem ofTokens_tokens (t : JsonTree (List Char)) : ofTokens codec (t.tokens codec) = some t := by
  have hvalue := value_tokens codec t (2 * (t.tokens codec).length) [] (Nat.le_refl _)
  rw [List.append_nil] at hvalue
  rw [ofTokens, hvalue]

/-! ### The text of a tree -/

end JsonTree

/-- What comes next in a text ends a value. -/
def Stops (rest : List Char) : Prop := ∀ c ∈ rest.head?, c = ',' ∨ c = ']' ∨ c = '\x7d'

/-- Read as a number, wherever one can stand. -/
def IsNumber (literal : List Char) : Prop :=
  ∀ rest, Stops rest → (Token.number literal).ReadsBefore rest

namespace JsonTree
variable (codec : Codec)

theorem stops_tailTokens {close : Token} (hclose : close = .endArray ∨ close = .endObject)
    (parts : List (List Token)) (ts : List Token) :
    Stops (JsonText.text (tailTokens close parts ++ ts)) := by
  intro c hc
  cases parts with
  | nil => rcases hclose with rfl | rfl <;> cases hc <;> simp
  | cons part parts =>
    cases hc
    exact .inl rfl

theorem readable_tailTokens {close : Token} (hclose : close = .endArray ∨ close = .endObject)
    {parts : List (List Token)} (h : ∀ part ∈ parts, ∀ ts, Readable ts →
      Stops (JsonText.text ts) → Readable (part ++ ts)) {ts : List Token} (hts : Readable ts) :
    Readable (tailTokens close parts ++ ts) := by
  induction parts with
  | nil =>
    refine ⟨Token.Delimited.readsBefore ?_ _, hts⟩
    rcases hclose with rfl | rfl <;> trivial
  | cons part parts ih =>
    obtain ⟨hpart, hparts⟩ := List.forall_mem_cons.mp h
    show Readable (.comma :: (part ++ tailTokens close parts ++ ts))
    rw [List.append_assoc]
    exact ⟨Token.Delimited.readsBefore (by trivial) _,
      hpart _ (ih hparts) (stops_tailTokens hclose parts ts)⟩

theorem readable_partTokens {close : Token} (hclose : close = .endArray ∨ close = .endObject)
    {parts : List (List Token)} (h : ∀ part ∈ parts, ∀ ts, Readable ts →
      Stops (JsonText.text ts) → Readable (part ++ ts)) {ts : List Token} (hts : Readable ts) :
    Readable (partTokens close parts ++ ts) := by
  cases parts with
  | nil => exact readable_tailTokens hclose h hts
  | cons part parts => exact (readable_tailTokens hclose h hts).2

/-- The tokens of a tree show where they end, if its numbers do. -/
theorem readable_tokens {t : JsonTree (List Char)} (ht : ∀ literal ∈ t.numbers, IsNumber literal)
    {ts : List Token} (hts : Readable ts) (hstops : Stops (JsonText.text ts)) :
    Readable (t.tokens codec ++ ts) := by
  induction t using induct generalizing ts with
  | null | bool b => exact ⟨Token.Delimited.readsBefore (by trivial) _, hts⟩
  | number literal => exact ⟨ht literal (List.mem_singleton_self _) _ hstops, hts⟩
  | string s => exact ⟨(codec.delimited s).readsBefore _, hts⟩
  | array elems ih =>
    rw [tokens_array]
    refine ⟨Token.Delimited.readsBefore (by trivial) _, readable_partTokens (.inl rfl) ?_ hts⟩
    intro part hpart ts
    obtain ⟨t, htmem, rfl⟩ := List.mem_map.mp hpart
    exact ih t htmem fun literal h => ht literal (mem_numbers_array.mpr ⟨t, htmem, h⟩)
  | object members ih =>
    rw [tokens_object]
    refine ⟨Token.Delimited.readsBefore (by trivial) _, readable_partTokens (.inr rfl) ?_ hts⟩
    intro part hpart ts hts hstops
    obtain ⟨e, hemem, rfl⟩ := List.mem_map.mp hpart
    exact ⟨(codec.delimited e.1).readsBefore _, Token.Delimited.readsBefore (by trivial) _,
      ih e hemem (fun literal h => ht literal (mem_numbers_object.mpr ⟨e, hemem, h⟩)) hts hstops⟩

/-- **What is printed is read back.** -/
theorem ofText_text {t : JsonTree (List Char)} (ht : ∀ literal ∈ t.numbers, IsNumber literal) :
    ofText codec (t.text codec) = some t := by
  have hreadable := readable_tokens codec ht (show Readable [] from trivial) nofun
  rw [List.append_nil] at hreadable
  rw [ofText, text, String.toList_ofList, hreadable.tokens, Option.bind_some, ofTokens_tokens]

end JsonTree
end JsonText

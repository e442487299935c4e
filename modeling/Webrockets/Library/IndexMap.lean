import Mathlib.Data.List.Nodup
import Mathlib.Data.List.Induction

/-! Maps and sets that are iterated in order.

An `IndexMap` keeps its entries in the order in which their keys first came in,
and writing to a key that is there leaves the key where it is. An `IndexSet` is
the same without values. Both carry the fact that no key comes twice, so a
lookup and an iteration cannot disagree.

A hash map without an order of its own is the same structure with the order read
as whichever one its iterator happens to follow: what is proved for every
`IndexMap` holds for every such order. -/

structure IndexMap (K V : Type) where
  entries : List (K × V)
  nodup : (entries.map Prod.fst).Nodup

structure IndexSet (K : Type) where
  elems : List K
  nodup : elems.Nodup

namespace IndexSet
variable {K : Type}

def empty : IndexSet K := ⟨[], .nil⟩

instance : Inhabited (IndexSet K) := ⟨empty⟩

instance : Membership K (IndexSet K) := ⟨fun s k => k ∈ s.elems⟩

@[simp] theorem not_mem_default (k : K) : ¬ k ∈ (default : IndexSet K) := List.not_mem_nil

def size (s : IndexSet K) : Nat := s.elems.length

variable [DecidableEq K]

instance (k : K) (s : IndexSet K) : Decidable (k ∈ s) := inferInstanceAs (Decidable (k ∈ s.elems))

/-- A new element goes to the end. -/
def insert (s : IndexSet K) (k : K) : IndexSet K :=
  if h : k ∈ s.elems then s
  else ⟨s.elems ++ [k], by
    rw [List.nodup_append]
    refine ⟨s.nodup, by simp, ?_⟩
    intro a ha b hb
    rw [List.mem_singleton] at hb
    subst hb
    exact fun he => h (he ▸ ha)⟩

def remove (s : IndexSet K) (k : K) : IndexSet K :=
  ⟨s.elems.filter (· ≠ k), s.nodup.filter _⟩

@[simp] theorem mem_insert {s : IndexSet K} {k j : K} : j ∈ s.insert k ↔ j = k ∨ j ∈ s := by
  unfold insert
  split
  · next h =>
    constructor
    · exact Or.inr
    · rintro (rfl | hj)
      · exact h
      · exact hj
  · show j ∈ s.elems ++ [k] ↔ _
    rw [List.mem_append, List.mem_singleton, or_comm]
    exact Iff.rfl

@[simp] theorem mem_remove {s : IndexSet K} {k j : K} : j ∈ s.remove k ↔ j ∈ s ∧ j ≠ k := by
  show j ∈ s.elems.filter (· ≠ k) ↔ _
  simp only [List.mem_filter, decide_eq_true_eq]
  exact Iff.rfl

end IndexSet

namespace IndexMap
variable {K V : Type}

def empty : IndexMap K V := ⟨[], .nil⟩

instance : Inhabited (IndexMap K V) := ⟨empty⟩

def keys (m : IndexMap K V) : List K := m.entries.map Prod.fst

def isEmpty (m : IndexMap K V) : Bool := m.entries.isEmpty

variable [DecidableEq K]

def get? (m : IndexMap K V) (k : K) : Option V := (m.entries.find? (·.1 = k)).map Prod.snd

def contains (m : IndexMap K V) (k : K) : Bool := (m.get? k).isSome

/-- The entries with the value under `k`, if any, put through `f`. -/
def mapAt (k : K) (f : V → V) (entries : List (K × V)) : List (K × V) :=
  entries.map fun e => if e.1 = k then (e.1, f e.2) else e

theorem mapAt_keys (k : K) (f : V → V) (entries : List (K × V)) :
    (mapAt k f entries).map Prod.fst = entries.map Prod.fst := by
  simp only [mapAt, List.map_map]
  apply List.map_congr_left
  intro e _
  simp only [Function.comp_apply]
  split <;> rfl

/-- Writes to the value under `k` where there is one. -/
def modify (m : IndexMap K V) (k : K) (f : V → V) : IndexMap K V :=
  ⟨mapAt k f m.entries, by rw [mapAt_keys]; exact m.nodup⟩

/-- The entry under `k`, made with `d` at the end of the map if there is none,
and then put through `f`. -/
def upsert (m : IndexMap K V) (k : K) (d : V) (f : V → V) : IndexMap K V :=
  if h : k ∈ m.keys then m.modify k f
  else ⟨m.entries ++ [(k, f d)], by
    rw [List.map_append, List.nodup_append]
    refine ⟨m.nodup, by simp, ?_⟩
    intro a ha b hb
    rw [List.map_singleton, List.mem_singleton] at hb
    subst hb
    exact fun he => h (he ▸ ha)⟩

/-- A key that is there keeps its place and gets the new value. -/
def insert (m : IndexMap K V) (k : K) (v : V) : IndexMap K V := m.upsert k v fun _ => v

def remove (m : IndexMap K V) (k : K) : IndexMap K V :=
  ⟨m.entries.filter (·.1 ≠ k), (m.nodup).sublist (List.filter_sublist.map _)⟩

/-! ### Lookups -/

theorem get?_mem {m : IndexMap K V} {k : K} {v : V} (h : m.get? k = some v) : (k, v) ∈ m.entries := by
  unfold get? at h
  rw [Option.map_eq_some_iff] at h
  obtain ⟨e, he, rfl⟩ := h
  have hk : e.1 = k := by simpa using List.find?_some he
  subst hk
  exact List.mem_of_find?_eq_some he

theorem get?_eq_none {m : IndexMap K V} {k : K} : m.get? k = none ↔ k ∉ m.keys := by
  unfold get? keys
  rw [Option.map_eq_none_iff, List.find?_eq_none, List.mem_map]
  constructor
  · rintro h ⟨e, he, rfl⟩
    exact h e he (by simp)
  · intro h e he hk
    exact h ⟨e, he, by simpa using hk⟩

/-- A key comes once, so what is among the entries is what a lookup finds. -/
theorem get?_eq_some {m : IndexMap K V} {k : K} {v : V} : m.get? k = some v ↔ (k, v) ∈ m.entries := by
  refine ⟨get?_mem, fun h => ?_⟩
  cases hg : m.get? k with
  | none => exact absurd (List.mem_map_of_mem h) (get?_eq_none.mp hg)
  | some w =>
    have hw := get?_mem hg
    have := List.inj_on_of_nodup_map m.nodup h hw rfl
    rw [(Prod.mk.inj this).2]

theorem mem_keys {m : IndexMap K V} {k : K} : k ∈ m.keys ↔ ∃ v, m.get? k = some v := by
  cases hg : m.get? k with
  | none => simp [get?_eq_none.mp hg]
  | some v =>
    have : k ∈ m.keys := List.mem_map_of_mem (get?_mem hg)
    simp [this]

@[simp] theorem contains_iff {m : IndexMap K V} {k : K} : m.contains k = true ↔ k ∈ m.keys := by
  rw [contains, Option.isSome_iff_exists, mem_keys]

@[simp] theorem get?_empty (k : K) : (empty : IndexMap K V).get? k = none := rfl

/-! ### Updates, one lemma for the key written to and one for the others -/

@[simp] theorem keys_modify (m : IndexMap K V) (k : K) (f : V → V) : (m.modify k f).keys = m.keys :=
  mapAt_keys k f m.entries

theorem get?_modify (m : IndexMap K V) (k j : K) (f : V → V) :
    (m.modify k f).get? j = if j = k then (m.get? j).map f else m.get? j := by
  have hfind : (mapAt k f m.entries).find? (·.1 = j) =
      (m.entries.find? (·.1 = j)).map fun e => if e.1 = k then (e.1, f e.2) else e := by
    rw [mapAt, List.find?_map]
    congr 2
    funext e
    simp only [Function.comp_apply]
    split <;> rfl
  show ((mapAt k f m.entries).find? (·.1 = j)).map Prod.snd = _
  rw [hfind]
  unfold get?
  cases hj : m.entries.find? (·.1 = j) with
  | none => simp
  | some e =>
    have he : e.1 = j := by simpa using List.find?_some hj
    subst he
    by_cases hk : e.1 = k <;> simp [hk]

@[simp] theorem get?_modify_self (m : IndexMap K V) (k : K) (f : V → V) :
    (m.modify k f).get? k = (m.get? k).map f := by
  rw [get?_modify, if_pos rfl]

theorem get?_modify_of_ne (m : IndexMap K V) {k j : K} (h : j ≠ k) (f : V → V) :
    (m.modify k f).get? j = m.get? j := by
  rw [get?_modify, if_neg h]

theorem upsert_of_mem {m : IndexMap K V} {k : K} (h : k ∈ m.keys) (d : V) (f : V → V) :
    m.upsert k d f = m.modify k f := by
  unfold upsert
  rw [dif_pos h]

theorem upsert_entries_of_not_mem {m : IndexMap K V} {k : K} (h : k ∉ m.keys) (d : V) (f : V → V) :
    (m.upsert k d f).entries = m.entries ++ [(k, f d)] := by
  unfold upsert
  rw [dif_neg h]

@[simp] theorem get?_upsert_self (m : IndexMap K V) (k : K) (d : V) (f : V → V) :
    (m.upsert k d f).get? k = some (f ((m.get? k).getD d)) := by
  by_cases h : k ∈ m.keys
  · obtain ⟨v, hv⟩ := mem_keys.mp h
    rw [upsert_of_mem h, get?_modify_self, hv]
    rfl
  · rw [get?_eq_none.mpr h, get?_eq_some, upsert_entries_of_not_mem h]
    simp

theorem get?_upsert_of_ne (m : IndexMap K V) {k j : K} (h : j ≠ k) (d : V) (f : V → V) :
    (m.upsert k d f).get? j = m.get? j := by
  by_cases hk : k ∈ m.keys
  · rw [upsert_of_mem hk, get?_modify_of_ne m h]
  · unfold get?
    rw [upsert_entries_of_not_mem hk, List.find?_append]
    have hlast : List.find? (fun e : K × V => decide (e.1 = j)) [(k, f d)] = none := by
      simp [Ne.symm h]
    rw [hlast, Option.or_none]

theorem keys_upsert_of_not_mem {m : IndexMap K V} {k : K} (h : k ∉ m.keys) (d : V) (f : V → V) :
    (m.upsert k d f).keys = m.keys ++ [k] := by
  rw [keys, upsert_entries_of_not_mem h, List.map_append]
  rfl

theorem mem_keys_upsert {m : IndexMap K V} {k j : K} {d : V} {f : V → V} :
    j ∈ (m.upsert k d f).keys ↔ j = k ∨ j ∈ m.keys := by
  by_cases h : k ∈ m.keys
  · rw [upsert_of_mem h, keys_modify]
    constructor
    · exact Or.inr
    · rintro (rfl | hj)
      · exact h
      · exact hj
  · rw [keys_upsert_of_not_mem h, List.mem_append, List.mem_singleton, or_comm]

@[simp] theorem get?_insert_self (m : IndexMap K V) (k : K) (v : V) :
    (m.insert k v).get? k = some v := get?_upsert_self m k v _

theorem get?_insert_of_ne (m : IndexMap K V) {k j : K} (h : j ≠ k) (v : V) :
    (m.insert k v).get? j = m.get? j := get?_upsert_of_ne m h v _

theorem mem_keys_insert {m : IndexMap K V} {k j : K} {v : V} :
    j ∈ (m.insert k v).keys ↔ j = k ∨ j ∈ m.keys := mem_keys_upsert

theorem mem_keys_remove {m : IndexMap K V} {k j : K} : j ∈ (m.remove k).keys ↔ j ∈ m.keys ∧ j ≠ k := by
  simp only [keys, remove, List.mem_map, List.mem_filter, decide_eq_true_eq]
  constructor
  · rintro ⟨e, ⟨he, hk⟩, rfl⟩
    exact ⟨⟨e, he, rfl⟩, hk⟩
  · rintro ⟨⟨e, he, rfl⟩, hk⟩
    exact ⟨e, ⟨he, hk⟩, rfl⟩

@[simp] theorem get?_remove_self (m : IndexMap K V) (k : K) : (m.remove k).get? k = none := by
  rw [get?_eq_none, mem_keys_remove]
  exact fun h => h.2 rfl

theorem get?_remove_of_ne (m : IndexMap K V) {k j : K} (h : j ≠ k) :
    (m.remove k).get? j = m.get? j := by
  ext v
  rw [get?_eq_some, get?_eq_some]
  simp only [remove, List.mem_filter, decide_eq_true_eq]
  exact and_iff_left h

/-! ### Maps filled from a list -/

theorem insert_of_get? {m : IndexMap K V} {k : K} {v : V} (h : m.get? k = some v) :
    m.insert k v = m := by
  have hk : k ∈ m.keys := mem_keys.mpr ⟨v, h⟩
  have hentries : mapAt k (fun _ => v) m.entries = m.entries := by
    refine (List.map_congr_left fun e he => ?_).trans (List.map_id m.entries)
    split
    · next hek =>
      subst hek
      have hev : m.get? e.1 = some e.2 := get?_eq_some.mpr he
      rw [Option.some.inj (h.symm.trans hev)]
      rfl
    · rfl
  rw [insert, upsert_of_mem hk]
  cases m
  simp only [modify, hentries]

theorem entries_insert_of_not_mem {m : IndexMap K V} {k : K} (h : k ∉ m.keys) (v : V) :
    (m.insert k v).entries = m.entries ++ [(k, v)] := upsert_entries_of_not_mem h v _

def ofList (l : List (K × V)) : IndexMap K V := l.foldl (fun m e => m.insert e.1 e.2) empty

theorem ofList_concat (l : List (K × V)) (e : K × V) :
    ofList (l ++ [e]) = (ofList l).insert e.1 e.2 := by
  simp only [ofList, List.foldl_append, List.foldl_cons, List.foldl_nil]

theorem mem_keys_ofList {l : List (K × V)} {k : K} : k ∈ (ofList l).keys ↔ k ∈ l.map Prod.fst := by
  induction l using List.reverseRecOn with
  | nil => exact Iff.rfl
  | append_singleton l e ih =>
    rw [ofList_concat, mem_keys_insert, ih, List.map_append, List.mem_append, or_comm]
    simp

/-- Of several values for a key, the last one stays. -/
theorem get?_ofList_last (l : List (K × V)) (k : K) :
    (ofList l).get? k = (l.reverse.find? (·.1 = k)).map Prod.snd := by
  induction l using List.reverseRecOn with
  | nil => rfl
  | append_singleton l e ih =>
    rw [ofList_concat, List.reverse_append, List.reverse_singleton, List.singleton_append,
      List.find?_cons]
    by_cases hk : e.1 = k
    · subst hk
      rw [get?_insert_self]
      simp
    · rw [get?_insert_of_ne _ (Ne.symm hk), ih]
      simp [hk]

/-- The list gives no key two values. -/
def Functional (l : List (K × V)) : Prop := ∀ e ∈ l, ∀ e' ∈ l, e.1 = e'.1 → e.2 = e'.2

omit [DecidableEq K] in
theorem Functional.left {l : List (K × V)} {e : K × V} (h : Functional (l ++ [e])) : Functional l :=
  fun a ha b hb => h a (List.mem_append_left _ ha) b (List.mem_append_left _ hb)

theorem get?_ofList {l : List (K × V)} (hl : Functional l) {k : K} {v : V} :
    (ofList l).get? k = some v ↔ (k, v) ∈ l := by
  induction l using List.reverseRecOn with
  | nil => simp [ofList]
  | append_singleton l e ih =>
    rw [ofList_concat, List.mem_append, List.mem_singleton]
    by_cases hk : k = e.1
    · subst hk
      rw [get?_insert_self]
      refine ⟨fun h => .inr (by rw [← Option.some.inj h]), fun h => ?_⟩
      rcases h with h | h
      · have := hl (e.1, v) (List.mem_append_left _ h) e (List.mem_append_right _ List.mem_cons_self) rfl
        exact congrArg some this.symm
      · rw [← h]
    · rw [get?_insert_of_ne _ hk, ih hl.left]
      refine ⟨.inl, fun h => ?_⟩
      rcases h with h | h
      · exact h
      · exact absurd (congrArg Prod.fst h) hk

/-- The map lists what the list does, later repetitions left out: the first hit is the same. -/
theorem findSome?_ofList {l : List (K × V)} (hl : Functional l) {β : Type} (f : K × V → Option β) :
    (ofList l).entries.findSome? f = l.findSome? f := by
  induction l using List.reverseRecOn with
  | nil => rfl
  | append_singleton l e ih =>
    rw [ofList_concat, List.findSome?_append, ← ih hl.left]
    by_cases hk : e.1 ∈ (ofList l).keys
    · obtain ⟨v, hv⟩ := mem_keys.mp hk
      have he : v = e.2 := hl (e.1, v) (List.mem_append_left _ ((get?_ofList hl.left).mp hv)) e
        (List.mem_append_right _ List.mem_cons_self) rfl
      subst he
      rw [insert_of_get? hv, ih hl.left]
      cases hf : l.findSome? f with
      | some b => rfl
      | none =>
        have hnone : f e = none := List.findSome?_eq_none_iff.mp hf e ((get?_ofList hl.left).mp hv)
        simp [hnone]
    · rw [entries_insert_of_not_mem hk, List.findSome?_append]

theorem findSome?_keys_upsert {m : IndexMap K V} {k : K} {d : V} {f : V → V} {β : Type}
    (g : K → Option β) : (m.upsert k d f).keys.findSome? g = (m.keys.findSome? g).or (g k) := by
  by_cases hk : k ∈ m.keys
  · rw [upsert_of_mem hk, keys_modify]
    cases hf : m.keys.findSome? g with
    | some b => rfl
    | none =>
      rw [List.findSome?_eq_none_iff.mp hf k hk]
      rfl
  · rw [keys_upsert_of_not_mem hk, List.findSome?_append]
    simp

section Table
variable {L : Type} [DecidableEq L]

/-- A map of maps filled from a list of triples. -/
def table (l : List (K × L × V)) : IndexMap K (IndexMap L V) :=
  l.foldl (fun m e => m.upsert e.1 empty (·.insert e.2.1 e.2.2)) empty

/-- The pairs listed with a key. -/
def under (k : K) (l : List (K × L × V)) : List (L × V) := (l.filter (·.1 = k)).map Prod.snd

theorem table_concat (l : List (K × L × V)) (e : K × L × V) :
    table (l ++ [e]) = (table l).upsert e.1 empty (·.insert e.2.1 e.2.2) := by
  simp only [table, List.foldl_append, List.foldl_cons, List.foldl_nil]

omit [DecidableEq L] in
theorem under_concat_self (l : List (K × L × V)) (e : K × L × V) :
    under e.1 (l ++ [e]) = under e.1 l ++ [e.2] := by
  simp [under]

omit [DecidableEq L] in
theorem under_concat_of_ne {k : K} (l : List (K × L × V)) {e : K × L × V} (h : k ≠ e.1) :
    under k (l ++ [e]) = under k l := by
  simp [under, Ne.symm h]

omit [DecidableEq L] in
theorem mem_under {l : List (K × L × V)} {k : K} {e : L × V} : e ∈ under k l ↔ (k, e) ∈ l := by
  simp only [under, List.mem_map, List.mem_filter, decide_eq_true_eq]
  refine ⟨fun h => ?_, fun h => ⟨(k, e), ⟨h, rfl⟩, rfl⟩⟩
  obtain ⟨t, ⟨ht, hk⟩, rfl⟩ := h
  subst hk
  exact ht

omit [DecidableEq L] in
theorem findSome?_under (l : List (K × L × V)) (k : K) {β : Type} (f : L × V → Option β) :
    (under k l).findSome? f = l.findSome? fun e => if e.1 = k then f e.2 else none := by
  induction l with
  | nil => rfl
  | cons e rest ih =>
    rw [List.findSome?_cons, ← ih]
    by_cases hk : e.1 = k
    · simp [under, hk, List.findSome?_cons]
    · simp [under, hk]

theorem table_append (l l' : List (K × L × V)) :
    table (l ++ l') = l'.foldl (fun m e => m.upsert e.1 empty (·.insert e.2.1 e.2.2)) (table l) :=
  List.foldl_append

/-- Under each key stands what the list gives with it. -/
theorem get?_table (l : List (K × L × V)) (k : K) :
    ((table l).get? k).getD empty = ofList (under k l) := by
  induction l using List.reverseRecOn with
  | nil => rfl
  | append_singleton l e ih =>
    rw [table_concat]
    by_cases hk : k = e.1
    · subst hk
      rw [get?_upsert_self, under_concat_self, ofList_concat, ← ih]
      rfl
    · rw [get?_upsert_of_ne _ hk, under_concat_of_ne l hk, ih]

theorem findSome?_keys_table (l : List (K × L × V)) {β : Type} (g : K → Option β) :
    (table l).keys.findSome? g = (l.map Prod.fst).findSome? g := by
  induction l using List.reverseRecOn with
  | nil => rfl
  | append_singleton l e ih =>
    rw [table_concat, findSome?_keys_upsert, ih, List.map_append, List.findSome?_append]
    simp

omit [DecidableEq K] [DecidableEq L] in
theorem findSome?_congr {α β : Type} {l : List α} {f g : α → Option β} (h : ∀ a ∈ l, f a = g a) :
    l.findSome? f = l.findSome? g := by
  induction l with
  | nil => rfl
  | cons a rest ih =>
    rw [List.findSome?_cons, List.findSome?_cons, h a List.mem_cons_self,
      ih fun b hb => h b (List.mem_cons_of_mem _ hb)]

/-- A search through all keys and under each through all that stands there. -/
theorem findSome?_table {l : List (K × L × V)} (hl : ∀ k, Functional (under k l)) {β : Type}
    (f : K → L × V → Option β) :
    ((table l).entries.findSome? fun e => e.2.entries.findSome? (f e.1)) =
      (l.map Prod.fst).findSome? fun k => (under k l).findSome? (f k) := by
  rw [← findSome?_keys_table, keys, List.findSome?_map]
  apply findSome?_congr
  intro e he
  have hget : (table l).get? e.1 = some e.2 := get?_eq_some.mpr he
  have hmap : e.2 = ofList (under e.1 l) := by
    rw [← get?_table, hget]
    rfl
  rw [Function.comp_apply, hmap, findSome?_ofList (hl e.1)]

end Table

end IndexMap

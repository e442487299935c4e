import Mathlib.Data.List.Induction
import Mathlib.Order.Lattice

/-! Maps that are kept in the order of their keys, as lists of entries.

There is one list for a map: two sorted lists that find the same under every key are equal
(`Sorted.ext`), so that equality of lists is equality of maps. -/
namespace SortedMap
variable {K V W : Type} [LinearOrder K]

/-- An entry with the key that is there already is replaced. -/
def insert (k : K) (v : V) : List (K × V) → List (K × V)
  | [] => [(k, v)]
  | e :: rest =>
    if k < e.1 then (k, v) :: e :: rest
    else if k = e.1 then (k, v) :: rest
    else e :: insert k v rest

/-- Of the entries with one key the last one stays. -/
def ofList (l : List (K × V)) : List (K × V) := l.foldl (fun m e => insert e.1 e.2 m) []

def Sorted (m : List (K × V)) : Prop := m.Pairwise fun d e => d.1 < e.1

theorem mem_insert {k : K} {v : V} {m : List (K × V)} {e : K × V} (h : e ∈ insert k v m) :
    e = (k, v) ∨ e ∈ m := by
  induction m with
  | nil => exact .inl (List.mem_singleton.mp h)
  | cons d rest ih =>
    unfold insert at h
    split_ifs at h with hlt heq
    · exact List.mem_cons.mp h
    · exact (List.mem_cons.mp h).imp_right (List.mem_cons_of_mem _)
    · rcases List.mem_cons.mp h with rfl | h
      · exact .inr List.mem_cons_self
      · exact (ih h).imp_right (List.mem_cons_of_mem _)

theorem sorted_insert (k : K) (v : V) {m : List (K × V)} (hm : Sorted m) : Sorted (insert k v m) := by
  induction m with
  | nil => exact List.pairwise_singleton _ _
  | cons d rest ih =>
    obtain ⟨hd, hrest⟩ := List.pairwise_cons.mp hm
    unfold insert
    split_ifs with hlt heq
    · refine List.pairwise_cons.mpr ⟨fun e he => ?_, hm⟩
      rcases List.mem_cons.mp he with rfl | he
      · exact hlt
      · exact lt_trans hlt (hd e he)
    · exact List.pairwise_cons.mpr ⟨fun e he => heq ▸ hd e he, hrest⟩
    · refine List.pairwise_cons.mpr ⟨fun e he => ?_, ih hrest⟩
      rcases mem_insert he with rfl | he
      · exact lt_of_le_of_ne (not_lt.mp hlt) (Ne.symm heq)
      · exact hd e he

theorem mem_ofList {l : List (K × V)} {e : K × V} (h : e ∈ ofList l) : e ∈ l := by
  induction l using List.reverseRecOn with
  | nil => exact h
  | append_singleton l d ih =>
    rw [ofList, List.foldl_append] at h
    rcases mem_insert h with rfl | h
    · exact List.mem_append_right l (List.mem_singleton_self d)
    · exact List.mem_append_left [d] (ih h)

theorem sorted_foldl (l m : List (K × V)) (hm : Sorted m) :
    Sorted (l.foldl (fun m e => insert e.1 e.2 m) m) := by
  induction l generalizing m with
  | nil => exact hm
  | cons e rest ih => exact ih _ (sorted_insert e.1 e.2 hm)

theorem sorted_ofList (l : List (K × V)) : Sorted (ofList l) := sorted_foldl l [] .nil

theorem Sorted.filter {m : List (K × V)} (hm : Sorted m) (p : K × V → Bool) : Sorted (m.filter p) :=
  List.Pairwise.filter p hm

/-- What is past all entries goes to the end. -/
theorem insert_last {k : K} (v : V) {m : List (K × V)} (h : ∀ e ∈ m, e.1 < k) :
    insert k v m = m ++ [(k, v)] := by
  induction m with
  | nil => rfl
  | cons d rest ih =>
    have hd := h d List.mem_cons_self
    rw [insert, if_neg (lt_asymm hd), if_neg (ne_of_gt hd),
      ih fun e he => h e (List.mem_cons_of_mem _ he), List.cons_append]

theorem foldl_of_sorted (l m : List (K × V)) (h : Sorted (m ++ l)) :
    l.foldl (fun m e => insert e.1 e.2 m) m = m ++ l := by
  induction l generalizing m with
  | nil => exact (List.append_nil m).symm
  | cons e rest ih =>
    have hlast : insert e.1 e.2 m = m ++ [e] :=
      insert_last e.2 fun d hd => (List.pairwise_append.mp h).2.2 d hd e List.mem_cons_self
    rw [List.foldl_cons, hlast, ih _ (by rwa [List.append_assoc]), List.append_assoc]
    rfl

/-- A sorted list is the map it lists. -/
theorem ofList_of_sorted {m : List (K × V)} (hm : Sorted m) : ofList m = m := foldl_of_sorted m [] hm

/-! ### Changing the values -/

theorem insert_map (f : V → W) (k : K) (v : V) (m : List (K × V)) :
    insert k (f v) (m.map fun e => (e.1, f e.2)) = (insert k v m).map fun e => (e.1, f e.2) := by
  induction m with
  | nil => rfl
  | cons d rest ih =>
    rw [List.map_cons, insert, insert]
    split_ifs with hlt heq
    · rfl
    · rfl
    · rw [ih]
      rfl

theorem ofList_map (f : V → W) (l : List (K × V)) :
    ofList (l.map fun e => (e.1, f e.2)) = (ofList l).map fun e => (e.1, f e.2) := by
  have hfold : ∀ m : List (K × V), (l.map fun e => (e.1, f e.2)).foldl
      (fun m e => insert e.1 e.2 m) (m.map fun e => (e.1, f e.2)) =
      (l.foldl (fun m e => insert e.1 e.2 m) m).map fun e => (e.1, f e.2) := by
    induction l with
    | nil => exact fun _ => rfl
    | cons e rest ih =>
      intro m
      have hinsert := insert_map f e.1 e.2 m
      rw [List.map_cons, List.foldl_cons, List.foldl_cons, ← ih, ← hinsert]
  exact hfold []

theorem Sorted.map {m : List (K × V)} (hm : Sorted m) (f : V → W) :
    Sorted (m.map fun e => (e.1, f e.2)) :=
  List.pairwise_map.mpr hm

/-! ### Looking up -/

def find (k : K) (m : List (K × V)) : Option V := (m.find? fun e => e.1 = k).map Prod.snd

/-- What is found when one key is left out. -/
theorem find_filter (k j : K) (m : List (K × V)) :
    find j (m.filter fun e => e.1 ≠ k) = if j = k then none else find j m := by
  induction m with
  | nil => simp [find]
  | cons e rest ih =>
    unfold find at ih ⊢
    by_cases hk : e.1 = k
    · by_cases hj : j = k
      · simp [hj]
      · simpa [hk, hj, Ne.symm hj] using ih
    · by_cases he : e.1 = j
      · have hj : j ≠ k := he ▸ hk
        simp [he, hj]
      · simpa [hk, he] using ih

theorem Sorted.find_eq_some {m : List (K × V)} (hm : Sorted m) {k : K} {v : V} :
    find k m = some v ↔ (k, v) ∈ m := by
  induction m with
  | nil => simp [find]
  | cons d rest ih =>
    obtain ⟨hd, hrest⟩ := List.pairwise_cons.mp hm
    rw [find, List.find?_cons, List.mem_cons]
    by_cases hk : d.1 = k
    · subst hk
      have hnot : (d.1, v) ∉ rest := fun h => lt_irrefl d.1 (hd (d.1, v) h)
      simp [hnot, Prod.ext_iff, eq_comm]
    · have hne : (k, v) ≠ d := fun h => hk (h ▸ rfl)
      have hrest := ih hrest
      rw [find] at hrest
      simp [hk, hne, ← hrest]

theorem Sorted.nodup {m : List (K × V)} (hm : Sorted m) : m.Nodup := by
  apply List.Pairwise.imp _ hm
  intro d e hlt heq
  rw [heq] at hlt
  exact lt_irrefl e.1 hlt

/-- Sorted lists that find the same are equal. -/
theorem Sorted.ext {m n : List (K × V)} (hm : Sorted m) (hn : Sorted n)
    (h : ∀ k, find k m = find k n) : m = n := by
  refine List.Perm.eq_of_pairwise (fun d e _ _ hde hed => absurd hde (lt_asymm hed)) hm hn ?_
  refine (List.perm_ext_iff_of_nodup hm.nodup hn.nodup).mpr fun e => ?_
  rw [← hm.find_eq_some, ← hn.find_eq_some, h]

end SortedMap

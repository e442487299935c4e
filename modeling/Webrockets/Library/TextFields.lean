import Mathlib.Data.List.DropRight

/-! Texts that are made of fields.

`List.splitOn` takes a text apart at a separator, `splitOnce` at the first place only, and `trim`
takes off what stands around a field. Each undoes what puts a text together, if the separator is
not in the fields and the fields have nothing around them. All of them work alike on a text and
on its image under an injection. -/
namespace TextFields
variable {α β : Type}

/-! ### Trimming -/

def trim (p : α → Bool) (l : List α) : List α := (l.dropWhile p).rdropWhile p

/-- There is nothing to take off. -/
def Trimmed (p : α → Bool) (l : List α) : Prop :=
  (∀ a, l.head? = some a → p a = false) ∧ ∀ a, l.getLast? = some a → p a = false

section Trim
variable {p : α → Bool} {l : List α} {a : α}

theorem last_rdropWhile (h : (l.rdropWhile p).getLast? = some a) : p a = false := by
  have hne : l.rdropWhile p ≠ [] := by
    intro hnil
    rw [hnil] at h
    cases h
  have hnot := List.rdropWhile_last_not p l hne
  rw [List.getLast?_eq_some_getLast hne, Option.some.injEq] at h
  rw [h] at hnot
  exact Bool.eq_false_iff.mpr hnot

theorem trimmed_trim (p : α → Bool) (l : List α) : Trimmed p (trim p l) := by
  refine ⟨fun a h => ?_, fun a h => last_rdropWhile h⟩
  obtain ⟨rest, hrest⟩ := List.rdropWhile_prefix p (l := l.dropWhile p)
  have hhead : (l.dropWhile p).head? = some a := by
    rw [← hrest, List.head?_append]
    rw [trim] at h
    rw [h]
    rfl
  have hnot := List.head?_dropWhile_not p l
  rw [hhead] at hnot
  exact hnot

theorem trim_eq_self : trim p l = l ↔ Trimmed p l := by
  constructor
  · intro h
    rw [← h]
    exact trimmed_trim p l
  · rintro ⟨hfirst, hlast⟩
    have hdrop : l.dropWhile p = l := by
      rw [List.dropWhile_eq_self_iff]
      intro hl
      rw [hfirst l[0] (by rw [List.head?_eq_getElem?, List.getElem?_eq_getElem hl])]
      exact Bool.false_ne_true
    rw [trim, hdrop, List.rdropWhile_eq_self_iff]
    intro hl
    rw [hlast _ (List.getLast?_eq_some_getLast hl)]
    exact Bool.false_ne_true

theorem all_dropWhile {q : α → Bool} (h : ∀ a, p a = true → q a = true) (l : List α) :
    (l.dropWhile p).all q = l.all q := by
  induction l with
  | nil => rfl
  | cons a rest ih =>
    rw [List.dropWhile_cons]
    split
    · next ha => rw [ih, List.all_cons, h a ha, Bool.true_and]
    · rfl

theorem all_trim {q : α → Bool} (h : ∀ a, p a = true → q a = true) (l : List α) :
    (trim p l).all q = l.all q := by
  rw [trim, List.rdropWhile, List.all_reverse, all_dropWhile h, List.all_reverse, all_dropWhile h]

theorem dropWhile_append_cons (ha : p a = false) (before after : List α) :
    (before ++ a :: after).dropWhile p = before.dropWhile p ++ a :: after := by
  have hnot : ¬ p a = true := by simp [ha]
  rw [List.dropWhile_append, List.dropWhile_cons_of_neg hnot]
  split
  · next hnil => rw [List.isEmpty_iff.mp hnil, List.nil_append]
  · rfl

theorem rdropWhile_append_cons (ha : p a = false) (before after : List α) :
    (before ++ a :: after).rdropWhile p = before ++ a :: after.rdropWhile p := by
  have hreverse : (before ++ a :: after).reverse = after.reverse ++ a :: before.reverse := by simp
  rw [List.rdropWhile, hreverse, dropWhile_append_cons ha, List.rdropWhile]
  simp

theorem trim_append_left {before : List α} (h : ∀ a ∈ before, p a = true) (l : List α) :
    trim p (before ++ l) = trim p l := by
  rw [trim, List.dropWhile_append, List.dropWhile_eq_nil_iff.mpr h]
  rfl

theorem trim_append_right {after : List α} (h : ∀ a ∈ after, p a = true) (l : List α) :
    trim p (l ++ after) = trim p l := by
  rw [trim, trim, List.dropWhile_append]
  split
  · next hnil =>
    rw [List.isEmpty_iff.mp hnil, List.dropWhile_eq_nil_iff.mpr h]
  · rw [List.rdropWhile, List.reverse_append, List.dropWhile_append,
      List.dropWhile_eq_nil_iff.mpr fun a ha => h a (List.mem_reverse.mp ha)]
    rfl

/-- What stands around a field is taken off. -/
theorem trim_pad {before after : List α} (hbefore : ∀ a ∈ before, p a = true)
    (hafter : ∀ a ∈ after, p a = true) (h : Trimmed p l) : trim p (before ++ l ++ after) = l := by
  rw [trim_append_right hafter, trim_append_left hbefore, trim_eq_self.mpr h]

theorem trim_dropWhile (p : α → Bool) (l : List α) : trim p (l.dropWhile p) = trim p l := by
  rw [trim, trim, List.dropWhile_idempotent]

theorem trim_rdropWhile (p : α → Bool) (l : List α) : trim p (l.rdropWhile p) = trim p l := by
  have hend : ∀ a ∈ l.rtakeWhile p, p a = true := fun a ha => List.mem_rtakeWhile_imp ha
  rw [← trim_append_right hend, List.rdropWhile_append_rtakeWhile]

theorem mem_of_mem_trim (h : a ∈ trim p l) : a ∈ l :=
  (List.dropWhile_sublist p).subset ((List.rdropWhile_prefix p _).subset h)

theorem trim_congr {q : α → Bool} (h : ∀ a ∈ l, p a = q a) : trim p l = trim q l := by
  have hdrop : ∀ k : List α, (∀ a ∈ k, p a = q a) → k.dropWhile p = k.dropWhile q := by
    intro k hk
    induction k with
    | nil => rfl
    | cons a rest ih =>
      rw [List.dropWhile_cons, List.dropWhile_cons, hk a List.mem_cons_self,
        ih fun b hb => hk b (List.mem_cons_of_mem _ hb)]
  rw [trim, trim, hdrop l h, List.rdropWhile, List.rdropWhile, hdrop]
  intro a ha
  exact h a ((List.dropWhile_sublist q).subset (List.mem_reverse.mp ha))

theorem trim_map (f : β → α) (p : α → Bool) (l : List β) :
    trim p (l.map f) = (trim (fun b => p (f b)) l).map f := by
  simp only [trim, List.rdropWhile, List.dropWhile_map, ← List.map_reverse]
  rfl

end Trim

/-! ### Joining and splitting -/

theorem all_intercalate {q : α → Bool} {a : α} {fields : List (List α)} (ha : q a = true)
    (h : ∀ l ∈ fields, l.all q = true) : ([a].intercalate fields).all q = true := by
  induction fields with
  | nil => rfl
  | cons l rest ih =>
    have hl := h l List.mem_cons_self
    have hrest := ih fun l' hl' => h l' (List.mem_cons_of_mem _ hl')
    cases rest with
    | nil => rwa [List.intercalate_singleton]
    | cons l' rest =>
      rw [List.intercalate_cons_cons, List.all_append, List.all_append, hl, hrest]
      simp [ha]

variable [DecidableEq α] [DecidableEq β]

/-- What stands before and after the first `a`. -/
def splitOnce (a : α) : List α → Option (List α × List α)
  | [] => none
  | b :: rest =>
    if b = a then some ([], rest) else (splitOnce a rest).map fun p => (b :: p.1, p.2)

theorem splitOnce_append {a : α} {name : List α} (h : a ∉ name) (value : List α) :
    splitOnce a (name ++ a :: value) = some (name, value) := by
  induction name with
  | nil => simp [splitOnce]
  | cons b rest ih =>
    rw [List.mem_cons, not_or] at h
    rw [List.cons_append, splitOnce, if_neg (Ne.symm h.1), ih h.2]
    rfl

theorem splitOnce_eq_none {a : α} {l : List α} : splitOnce a l = none ↔ a ∉ l := by
  induction l with
  | nil => simp [splitOnce]
  | cons b rest ih =>
    rw [splitOnce, List.mem_cons, not_or]
    by_cases hb : b = a
    · simp [hb]
    · rw [if_neg hb, Option.map_eq_none_iff, ih]
      exact ⟨fun h => ⟨Ne.symm hb, h⟩, And.right⟩

theorem splitOnce_eq_some {a : α} {l name value : List α} :
    splitOnce a l = some (name, value) ↔ l = name ++ a :: value ∧ a ∉ name := by
  constructor
  · intro h
    induction l generalizing name with
    | nil => cases h
    | cons b rest ih =>
      rw [splitOnce] at h
      by_cases hb : b = a
      · rw [if_pos hb, Option.some.injEq, Prod.mk.injEq] at h
        obtain ⟨rfl, rfl⟩ := h
        exact ⟨by rw [hb]; rfl, List.not_mem_nil⟩
      · rw [if_neg hb] at h
        obtain ⟨⟨before, after⟩, hsplit, hpair⟩ := Option.map_eq_some_iff.mp h
        cases hpair
        obtain ⟨rfl, hbefore⟩ := ih hsplit
        exact ⟨rfl, by rw [List.mem_cons, not_or]; exact ⟨Ne.symm hb, hbefore⟩⟩
  · rintro ⟨rfl, h⟩
    exact splitOnce_append h value

theorem splitOnce_map {f : β → α} (hf : Function.Injective f) (b : β) (l : List β) :
    splitOnce (f b) (l.map f) = (splitOnce b l).map fun p => (p.1.map f, p.2.map f) := by
  induction l with
  | nil => rfl
  | cons c rest ih =>
    rw [List.map_cons, splitOnce, splitOnce]
    by_cases hc : c = b
    · rw [if_pos hc, if_pos (congrArg f hc)]
      rfl
    · rw [if_neg hc, if_neg fun h => hc (hf h), ih, Option.map_map, Option.map_map]
      rfl

/-- What is trimmed before it is split could be split before it is trimmed. -/
theorem splitOnce_trim {p : α → Bool} {a : α} (ha : p a = false) (l : List α) :
    splitOnce a (trim p l) =
      (splitOnce a l).map fun e => (e.1.dropWhile p, e.2.rdropWhile p) := by
  cases hsplit : splitOnce a l with
  | none => exact splitOnce_eq_none.mpr fun h => splitOnce_eq_none.mp hsplit (mem_of_mem_trim h)
  | some e =>
    obtain ⟨name, value⟩ := e
    obtain ⟨rfl, hname⟩ := splitOnce_eq_some.mp hsplit
    rw [trim, dropWhile_append_cons ha, rdropWhile_append_cons ha]
    exact splitOnce_append (fun h => hname ((List.dropWhile_sublist p).subset h)) _

theorem splitOn_map {f : β → α} (hf : Function.Injective f) (b : β) (l : List β) :
    (l.map f).splitOn (f b) = (l.splitOn b).map (List.map f) := by
  induction l with
  | nil => rfl
  | cons c rest ih =>
    rw [List.map_cons, List.splitOn_cons_eq_if_modifyHead, List.splitOn_cons_eq_if_modifyHead, ih]
    by_cases hc : c = b
    · rw [if_pos (beq_iff_eq.mpr (congrArg f hc)), if_pos (beq_iff_eq.mpr hc)]
      rfl
    · rw [if_neg fun h => hc (hf (beq_iff_eq.mp h)), if_neg fun h => hc (beq_iff_eq.mp h)]
      obtain ⟨first, others, hsplit⟩ := List.exists_cons_of_ne_nil (List.splitOn_ne_nil b rest)
      rw [hsplit]
      rfl

theorem mem_of_mem_splitOn {a b : α} {l field : List α} (h : field ∈ l.splitOn a) (hb : b ∈ field) :
    b ∈ l := by
  induction l generalizing field with
  | nil =>
    rw [List.splitOn_nil, List.mem_singleton] at h
    exact h ▸ hb
  | cons c rest ih =>
    rw [List.splitOn_cons_eq_if_modifyHead] at h
    split at h
    · rcases List.mem_cons.mp h with rfl | h
      · cases hb
      · exact List.mem_cons_of_mem _ (ih h hb)
    · obtain ⟨first, others, hsplit⟩ := List.exists_cons_of_ne_nil (List.splitOn_ne_nil a rest)
      rw [hsplit] at h ih
      rcases List.mem_cons.mp h with rfl | h
      · exact List.mem_cons.mpr ((List.mem_cons.mp hb).imp_right (ih List.mem_cons_self))
      · exact List.mem_cons_of_mem _ (ih (List.mem_cons_of_mem _ h) hb)

end TextFields

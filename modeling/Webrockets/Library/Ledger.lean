import Webrockets.Library.Outbox
import Mathlib.Data.List.Perm.Basic
import Mathlib.Data.List.Infix

/-! What every step keeps for a channel that is fed at once and by tasks.

`Ledger` says that each copy accepted is in exactly one place and that the queue
is first in, first out. `Ordered` says that of two values one of which has to come
before the other the channel gets them in that order. Every move keeps the first.
It keeps the second as long as what is accepted is `Timely`: all that has to come
before it has entered. -/
namespace Outbox
variable {capacity : Nat} {K R : Type}

/-! ### Nothing lost, nothing twice -/

/-- Every copy accepted is in exactly one place. -/
structure Ledger (a : Account R) : Prop where
  balance : a.accepted.Perm (a.entered ++ (a.pending ++ (a.refused ++ a.cancelled)))
  /-- While the channel is open, what entered has been taken or is queued, in order. -/
  flow : a.closed = false → a.entered = a.taken ++ a.queue
  taken : a.taken ++ a.queue <+: a.entered
  refused : a.closed = false → a.refused = []
  /-- Copies are accepted in the order of their serial numbers. -/
  numbered : a.accepted.Pairwise fun x y => x.serial < y.serial
  fresh : ∀ c ∈ a.accepted, c.serial < a.serials

/-- A copy that leaves the pending ones for a place behind them. -/
theorem perm_behind (pre post before after : List (Copy R)) (c : Copy R) :
    ((pre ++ c :: post) ++ (before ++ after)).Perm ((pre ++ post) ++ (before ++ [c] ++ after)) := by
  have hleft : ((pre ++ c :: post) ++ (before ++ after)).Perm
      (c :: ((pre ++ post) ++ (before ++ after))) :=
    List.perm_middle.append_right _
  have hright : (pre ++ post) ++ (before ++ [c] ++ after) = ((pre ++ post) ++ before) ++ c :: after := by
    simp only [List.append_assoc, List.singleton_append]
  rw [hright]
  apply hleft.trans
  apply List.Perm.symm
  rw [← List.append_assoc (pre ++ post)]
  exact List.perm_middle

/-- A copy that leaves the pending ones for the place before them. -/
theorem perm_before (pre post before after : List (Copy R)) (c : Copy R) :
    (before ++ ((pre ++ c :: post) ++ after)).Perm ((before ++ [c]) ++ ((pre ++ post) ++ after)) := by
  rw [List.append_assoc before [c]]
  exact List.Perm.append_left before (List.perm_middle.append_right after)

theorem Ledger.feed {G : R → Prop} {a b : Account R} (h : a.Feed G b) (ha : Ledger a) : Ledger b := by
  obtain ⟨hbalance, hflow, htaken, hrefused, hnumbered, hfresh⟩ := ha
  cases h with
  | stay n hn =>
    exact ⟨hbalance, hflow, htaken, hrefused, hnumbered, fun c hc => Nat.lt_of_lt_of_le (hfresh c hc) hn⟩
  | put r hr hc =>
    refine ⟨?_, ?_, ?_, hrefused, ?_, ?_⟩
    · show (a.accepted ++ [_]).Perm ((a.entered ++ [_]) ++ _)
      rw [List.append_assoc]
      refine (hbalance.append_right _).trans ?_
      rw [List.append_assoc]
      exact List.Perm.append_left _ List.perm_append_comm
    · intro _
      show a.entered ++ [_] = a.taken ++ (a.queue ++ [_])
      rw [hflow hc, List.append_assoc]
    · show a.taken ++ (a.queue ++ [_]) <+: a.entered ++ [_]
      rw [hflow hc, List.append_assoc]
    · exact List.pairwise_append.mpr ⟨hnumbered, List.pairwise_singleton _ _, fun x hx y hy => by
        rw [List.mem_singleton.mp hy]
        exact hfresh x hx⟩
    · intro c hc
      rcases List.mem_append.mp hc with hc | hc
      · exact Nat.lt_succ_of_lt (hfresh c hc)
      · rw [List.mem_singleton.mp hc]
        exact Nat.lt_succ_self _
  | defer r cs n hr hs hn hle =>
    refine ⟨?_, hflow, htaken, hrefused, ?_, ?_⟩
    · show (a.accepted ++ cs).Perm (a.entered ++ ((a.pending ++ cs) ++ _))
      refine (hbalance.append_right _).trans ?_
      simp only [List.append_assoc]
      apply List.Perm.append_left
      apply List.Perm.append_left
      rw [← List.append_assoc]
      exact List.perm_append_comm
    · exact List.pairwise_append.mpr ⟨hnumbered, hs, fun x hx y hy =>
        Nat.lt_of_lt_of_le (hfresh x hx) (hn y hy).1⟩
    · intro c hc
      rcases List.mem_append.mp hc with hc | hc
      · exact Nat.lt_of_lt_of_le (hfresh c hc) hle
      · exact (hn c hc).2
  | enter pre post c hp hc =>
    rw [hp] at hbalance
    refine ⟨hbalance.trans (perm_before pre post _ _ c), ?_, ?_, hrefused, hnumbered, hfresh⟩
    · intro _
      show a.entered ++ [c] = a.taken ++ (a.queue ++ [c])
      rw [hflow hc, List.append_assoc]
    · show a.taken ++ (a.queue ++ [c]) <+: a.entered ++ [c]
      rw [hflow hc, List.append_assoc]
  | refuse pre post c hp hc =>
    rw [hp] at hbalance
    refine ⟨hbalance.trans (List.Perm.append_left _ (perm_behind pre post _ _ c)), hflow, htaken, ?_,
      hnumbered, hfresh⟩
    intro hf
    rw [show a.closed = false from hf] at hc
    cases hc
  | cancel pre post c hp =>
    rw [hp] at hbalance
    refine ⟨hbalance.trans (List.Perm.append_left _ ?_), hflow, htaken, hrefused, hnumbered, hfresh⟩
    have := perm_behind pre post (a.refused ++ a.cancelled) [] c
    simpa only [List.append_nil, List.append_assoc] using this

theorem Ledger.move {G : R → Prop} {a b : Account R} (h : a.Move G b) (ha : Ledger a) : Ledger b := by
  cases h with
  | feed h => exact ha.feed h
  | take c rest hq =>
    obtain ⟨hbalance, hflow, htaken, hrefused, hnumbered, hfresh⟩ := ha
    have hsame : (a.taken ++ [c]) ++ rest = a.taken ++ a.queue := by
      rw [hq, List.append_assoc, List.singleton_append]
    refine ⟨hbalance, fun hc => ?_, ?_, hrefused, hnumbered, hfresh⟩
    · show a.entered = (a.taken ++ [c]) ++ rest
      rw [hsame]
      exact hflow hc
    · show (a.taken ++ [c]) ++ rest <+: a.entered
      rw [hsame]
      exact htaken
  | stop =>
    refine ⟨ha.balance, (fun hc => nomatch hc), ?_, (fun hc => nomatch hc), ha.numbered, ha.fresh⟩
    show a.taken ++ [] <+: a.entered
    rw [List.append_nil]
    exact (List.prefix_append _ _).trans ha.taken

variable [DecidableEq K]

theorem ledger_new (k : K) : Ledger (account (new : Outbox capacity K R) k) :=
  ⟨.nil, fun _ => rfl, List.prefix_refl _, fun _ => rfl, .nil, fun _ hc => nomatch hc⟩

namespace Ledger
variable {a : Account R} (h : Ledger a)
include h

theorem nodup : a.accepted.Nodup :=
  h.numbered.imp fun hlt he => by
    rw [he] at hlt
    exact Nat.lt_irrefl _ hlt

/-- Two places have no copy in common. -/
theorem apart : (a.entered ++ (a.pending ++ (a.refused ++ a.cancelled))).Nodup :=
  h.balance.nodup_iff.mp h.nodup

theorem entered_accepted {c : Copy R} (hc : c ∈ a.entered) : c ∈ a.accepted :=
  h.balance.mem_iff.mpr (List.mem_append_left _ hc)

theorem pending_accepted {c : Copy R} (hc : c ∈ a.pending) : c ∈ a.accepted :=
  h.balance.mem_iff.mpr (List.mem_append_right _ (List.mem_append_left _ hc))

theorem pending_not_entered {c : Copy R} (hc : c ∈ a.pending) : c ∉ a.entered := fun he =>
  (List.nodup_append.mp h.apart).2.2 c he c (List.mem_append_left _ hc) rfl

/-- On an open channel, what has not entered is pending or cancelled. -/
theorem outside_open {c : Copy R} (ho : a.closed = false) (hc : c ∈ a.accepted)
    (hne : c ∉ a.entered) : c ∈ a.pending ∨ c ∈ a.cancelled := by
  have hmem := h.balance.mem_iff.mp hc
  rw [h.refused ho] at hmem
  rcases List.mem_append.mp hmem with he | hrest
  · exact absurd he hne
  · exact List.mem_append.mp hrest

/-- On an open channel with nothing cancelled, every copy is taken, queued or
pending, and once. -/
theorem exactly_once (ho : a.closed = false) (hc : a.cancelled = []) :
    a.accepted.Perm (a.taken ++ (a.queue ++ a.pending)) ∧ a.accepted.Nodup := by
  refine ⟨?_, h.nodup⟩
  have hb := h.balance
  rw [h.flow ho, h.refused ho, hc, List.append_nil, List.append_nil, List.append_assoc] at hb
  exact hb

end Ledger

/-! ### One after the other -/

section Order
variable (before : R → R → Prop)

/-- Of two values one of which has to come before the other, the channel gets
them in that order: the entered ones are in order, and nothing accepted has to
come after a copy that has not entered. -/
structure Ordered (a : Account R) : Prop where
  entered : a.entered.Pairwise fun x y => ¬ before y.value x.value
  outside : ∀ x ∈ a.accepted, x ∉ a.entered → ∀ y ∈ a.accepted, ¬ before x.value y.value

/-- What has to come before the value has entered, and nothing that has to come
after it has been accepted. -/
structure Timely (a : Account R) (r : R) : Prop where
  entered : ∀ x ∈ a.accepted, before x.value r → x ∈ a.entered
  latest : ∀ y ∈ a.accepted, ¬ before r y.value

variable {before}

/-- Order is kept as long as what is accepted is timely. -/
theorem Ordered.feed {G : R → Prop} {a b : Account R} (hirr : ∀ r, ¬ before r r) (h : a.Feed G b)
    (hl : Ledger a) (ha : Ordered before a) (ht : ∀ r, G r → Timely before a r) : Ordered before b := by
  obtain ⟨hentered, houtside⟩ := ha
  cases h with
  | put r hr hc =>
    have htimely := ht r hr
    refine ⟨?_, ?_⟩
    · apply List.pairwise_append.mpr ⟨hentered, List.pairwise_singleton _ _, _⟩
      intro x hx y hy
      rw [List.mem_singleton.mp hy]
      exact htimely.latest x (hl.entered_accepted hx)
    · intro x hx hne y hy
      have hxe : x ∉ a.entered := fun he => hne (List.mem_append_left _ he)
      rcases List.mem_append.mp hx with hx | hx
      · rcases List.mem_append.mp hy with hy | hy
        · exact houtside x hx hxe y hy
        · rw [List.mem_singleton.mp hy]
          exact fun hb => hxe (htimely.entered x hx hb)
      · exact absurd (List.mem_append_right _ hx) hne
  | defer r cs n hr hs hn hle =>
    refine ⟨hentered, ?_⟩
    intro x hx hxe y hy
    rcases List.mem_append.mp hx with hx | hx
    · rcases List.mem_append.mp hy with hy | hy
      · exact houtside x hx hxe y hy
      · rw [(hr y hy).1]
        exact fun hb => hxe ((ht r (hr y hy).2).entered x hx hb)
    · rw [(hr x hx).1]
      rcases List.mem_append.mp hy with hy | hy
      · exact (ht r (hr x hx).2).latest y hy
      · rw [(hr y hy).1]
        exact hirr r
  | enter pre post c hp hc =>
    have hpending : c ∈ a.pending := by
      rw [hp]
      exact List.mem_append_right _ List.mem_cons_self
    refine ⟨?_, fun x hx hxe => houtside x hx fun he => hxe (List.mem_append_left _ he)⟩
    apply List.pairwise_append.mpr ⟨hentered, List.pairwise_singleton _ _, _⟩
    intro x hx y hy
    rw [List.mem_singleton.mp hy]
    exact houtside c (hl.pending_accepted hpending) (hl.pending_not_entered hpending) x
      (hl.entered_accepted hx)
  | _ => exact ⟨hentered, houtside⟩

theorem Ordered.move {G : R → Prop} {a b : Account R} (hirr : ∀ r, ¬ before r r) (h : a.Move G b)
    (hl : Ledger a) (ha : Ordered before a) (ht : ∀ r, G r → Timely before a r) : Ordered before b := by
  cases h with
  | feed h => exact ha.feed hirr h hl ht
  | take c rest hq => exact ⟨ha.entered, ha.outside⟩
  | stop => exact ⟨ha.entered, ha.outside⟩

/-- A value stays timely while what else is accepted has nothing to do with it. -/
theorem Timely.feed {G : R → Prop} {a b : Account R} {r : R} (h : a.Feed G b)
    (ht : Timely before a r) (hg : ∀ v, G v → ¬ before v r ∧ ¬ before r v) : Timely before b r := by
  have hgrow : ∀ x ∈ a.entered, x ∈ b.entered := by
    intro x hx
    cases h with
    | put _ _ _ => exact List.mem_append_left _ hx
    | enter _ _ _ _ _ => exact List.mem_append_left _ hx
    | _ => exact hx
  refine ⟨fun x hx hb => ?_, fun y hy => ?_⟩
  · rcases h.given hx with hxa | hxg
    · exact hgrow x (ht.entered x hxa hb)
    · exact absurd hb (hg _ hxg).1
  · rcases h.given hy with hya | hyg
    · exact ht.latest y hya
    · exact (hg _ hyg).2

theorem Timely.move {G : R → Prop} {a b : Account R} {r : R} (h : a.Move G b)
    (ht : Timely before a r) (hg : ∀ v, G v → ¬ before v r ∧ ¬ before r v) : Timely before b r := by
  cases h with
  | feed h => exact ht.feed h hg
  | take _ _ _ => exact ⟨ht.entered, ht.latest⟩
  | stop => exact ⟨ht.entered, ht.latest⟩

/-- Of two copies that have to be taken one after the other, the second is taken
only after the first. -/
theorem Ordered.taken [DecidableEq R] {a : Account R} (hirr : ∀ r, ¬ before r r)
    (ha : Ordered before a) (hl : Ledger a) {x y : Copy R} (hx : x ∈ a.accepted) (hy : y ∈ a.taken)
    (hb : before x.value y.value) : x ∈ a.taken ∧ a.taken.idxOf x < a.taken.idxOf y := by
  obtain ⟨rest, hrest⟩ := (List.prefix_append a.taken a.queue).trans hl.taken
  have hentered := ha.entered
  rw [← hrest] at hentered
  obtain ⟨htaken, _, hcross⟩ := List.pairwise_append.mp hentered
  have hye : y ∈ a.entered := by
    rw [← hrest]
    exact List.mem_append_left _ hy
  have hxt : x ∈ a.taken := by
    by_contra hxt
    have hxe : x ∈ a.entered := by
      by_contra hxe
      exact ha.outside x hx hxe y (hl.entered_accepted hye) hb
    rw [← hrest] at hxe
    rcases List.mem_append.mp hxe with h | h
    · exact hxt h
    · exact hcross y hy x h hb
  refine ⟨hxt, ?_⟩
  have hix := List.idxOf_lt_length_of_mem hxt
  have hiy := List.idxOf_lt_length_of_mem hy
  rcases Nat.lt_trichotomy (a.taken.idxOf x) (a.taken.idxOf y) with hlt | heq | hgt
  · exact hlt
  · have hxy : x = y := by
      rw [← List.getElem_idxOf hix, ← List.getElem_idxOf hiy]
      simp only [heq]
    rw [hxy] at hb
    exact absurd hb (hirr _)
  · have := List.pairwise_iff_getElem.mp htaken _ _ hiy hix hgt
    rw [List.getElem_idxOf, List.getElem_idxOf] at this
    exact absurd hb this

end Order

end Outbox

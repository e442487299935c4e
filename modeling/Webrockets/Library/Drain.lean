import Webrockets.Library.Outbox
import Mathlib.Data.List.Nodup
import Mathlib.Data.List.Perm.Subperm

/-! When the sends of an outbox come to an end.

The first part is about any machine: where every step that a guard allows lowers a
rank, a run of such steps is no longer than the rank and can be carried on until none
is left (`Settled`). The rest is the rank of an outbox. A send that is parked at a
channel or holds a permit there is the first of its task (`Ticketed`), so that a poll
which is not in vain brings one channel nearer to the end and leaves the others alone,
and where no such poll is left and every open queue is empty, nothing is pending. -/
namespace Transition
variable {A S : Type}

/-- No action that the guard allows is enabled. -/
def Settled (step : A → S → Option S) (G : A → S → Prop) (s : S) : Prop :=
  ∀ a, G a s → step a s = none

variable {step : A → S → Option S} {P : S → Prop} {G : A → S → Prop} {s t : S} {rank : S → Nat}

theorem meets_and {H : A → S → Prop} {actions : List A} (hg : Meets step G s actions)
    (hh : Meets step H s actions) : Meets step (fun a s => G a s ∧ H a s) s actions := by
  induction actions generalizing s with
  | nil => trivial
  | cons a rest ih => exact ⟨⟨hg.1, hh.1⟩, fun m hm => ih (hg.2 m hm) (hh.2 m hm)⟩

theorem length_add_rank_le
    (hstep : ∀ a s t, P s → G a s → step a s = some t → P t ∧ rank t < rank s) (actions : List A)
    (hs : P s) (hg : Meets step G s actions) (h : run step s actions = some t) :
    actions.length + rank t ≤ rank s := by
  induction actions generalizing s with
  | nil =>
    cases h
    exact Nat.le_of_eq (Nat.zero_add _)
  | cons a rest ih =>
    obtain ⟨m, hm, hrest⟩ := run_cons.mp h
    obtain ⟨hP, hlt⟩ := hstep a s m hs hg.1 hm
    have := ih hP (hg.2 m hm) hrest
    rw [List.length_cons]
    omega

theorem exists_settled
    (hstep : ∀ a s t, P s → G a s → step a s = some t → P t ∧ rank t < rank s) (hs : P s) :
    ∃ actions t, run step s actions = some t ∧ Meets step G s actions ∧ Settled step G t := by
  induction hr : rank s using Nat.strongRecOn generalizing s with
  | ind n ih =>
    by_cases hset : Settled step G s
    · exact ⟨[], s, rfl, trivial, hset⟩
    · simp only [Settled, not_forall] at hset
      obtain ⟨a, hg, hne⟩ := hset
      obtain ⟨m, hm⟩ := Option.ne_none_iff_exists'.mp hne
      obtain ⟨hP, hlt⟩ := hstep a s m hs hg hm
      obtain ⟨actions, t, hrun, hmeets, ht⟩ := ih (rank m) (hr ▸ hlt) hP rfl
      exact ⟨a :: actions, t, run_cons.mpr ⟨m, hm, hrun⟩, (meets_cons hm).mpr ⟨hg, hmeets⟩, ht⟩

end Transition

/-! ### Tickets -/

namespace Mpsc
variable {capacity : Nat} {T α : Type} {ch ch' : Mpsc capacity T α} {t : T} {a : α}

/-- The sends that wait or have a permit. -/
def tickets (ch : Mpsc capacity T α) : List T := ch.waiting ++ ch.granted

/-- No send has two tickets, and none has one for a closed channel. -/
structure Sound (ch : Mpsc capacity T α) : Prop where
  nodup : ch.tickets.Nodup
  shut : ch.closed = true → ch.tickets = []

theorem sound_new : Sound (new : Mpsc capacity T α) := ⟨.nil, fun h => nomatch h⟩

theorem sound_close (ch : Mpsc capacity T α) : Sound ch.close := ⟨.nil, fun _ => rfl⟩

theorem Sound.subset (h : ch.Sound) (hn : ch'.tickets.Nodup) (hsub : ch'.tickets ⊆ ch.tickets)
    (hc : ch'.closed = ch.closed) : ch'.Sound := by
  refine ⟨hn, fun hclosed => ?_⟩
  have hnil := h.shut (hc ▸ hclosed)
  rw [hnil] at hsub
  exact List.subset_nil.mp hsub

/-- Sending at once has nothing to do with the sends that wait. -/
theorem trySend_tickets (h : ch.trySend a = .ok ch') :
    ch'.waiting = ch.waiting ∧ ch'.tickets = ch.tickets := by
  unfold trySend at h
  split at h
  · cases h
  · split at h
    · cases h
      exact ⟨rfl, rfl⟩
    · cases h

theorem recv_of_cons {rest : List α} (hq : ch.queue = a :: rest) : ∃ ch', ch.recv = some (a, ch') := by
  obtain ⟨queue, permits, waiting, granted, closed, accounted, fair⟩ := ch
  subst hq
  cases waiting with
  | nil => exact ⟨_, rfl⟩
  | cons t parked => exact ⟨_, rfl⟩

/-- The first parked send gets the permit. -/
theorem recv_tickets (h : ch.recv = some (a, ch')) :
    ch'.tickets.Perm ch.tickets ∧ ch.waiting.length ≤ ch'.waiting.length + 1 := by
  unfold recv at h
  split at h
  · cases h
  · split at h
    · next hw =>
      cases h
      exact ⟨.refl _, Nat.le_succ _⟩
    · next u parked hw =>
      cases h
      refine ⟨?_, Nat.le_of_eq (congrArg List.length hw)⟩
      simp only [tickets, hw, ← List.append_assoc]
      exact List.perm_append_singleton u _

variable [DecidableEq T]

/-- A send that goes through gives up its ticket. -/
theorem poll_sent_tickets (hn : ch.tickets.Nodup) (h : ch.poll t a = (.sent, ch')) :
    ch'.waiting = ch.waiting ∧ ch'.tickets.Sublist ch.tickets ∧ t ∉ ch'.tickets := by
  obtain ⟨hw, hg, hapart⟩ := List.nodup_append.mp hn
  simp only [poll] at h
  split at h
  · cases h
  · split at h
    · next hgranted =>
      cases h
      refine ⟨rfl, (List.Sublist.refl _).append List.erase_sublist, fun ht => ?_⟩
      rcases List.mem_append.mp ht with ht | ht
      · exact hapart t ht t hgranted rfl
      · exact hg.not_mem_erase ht
    · next hgranted =>
      split at h
      · cases h
      · next hwaiting =>
        split at h
        · cases h
          refine ⟨rfl, List.Sublist.refl _, fun ht => ?_⟩
          exact (List.mem_append.mp ht).elim hwaiting hgranted
        · cases h

/-- A send that is not done was parked before, or is now. -/
theorem poll_pending_tickets (h : ch.poll t a = (.pending, ch')) :
    (t ∈ ch.waiting ∧ ch' = ch) ∨ (t ∉ ch.tickets ∧ ch.closed = false ∧
      ch'.waiting = ch.waiting ++ [t] ∧ ch'.tickets.Perm (t :: ch.tickets)) := by
  simp only [poll] at h
  split at h
  · cases h
  · next hc =>
    split at h
    · cases h
    · next hgranted =>
      split at h
      · next hwaiting =>
        cases h
        exact .inl ⟨hwaiting, rfl⟩
      · next hwaiting =>
        split at h
        · cases h
        · cases h
          refine .inr ⟨fun ht => (List.mem_append.mp ht).elim hwaiting hgranted, by simpa using hc,
            rfl, ?_⟩
          simp only [tickets, List.append_assoc]
          exact List.perm_middle

/-- A send that is dropped gives up its ticket. -/
theorem cancel_tickets (hn : ch.tickets.Nodup) : (ch.cancel t).tickets.Perm (ch.tickets.erase t) := by
  obtain ⟨hw, hg, hapart⟩ := List.nodup_append.mp hn
  unfold cancel
  split
  · next hgranted =>
    have hwaiting : t ∉ ch.waiting := fun ht => hapart t ht t hgranted rfl
    rw [tickets, tickets, List.erase_append_right _ hwaiting]
    split
    · next hempty => simp only [List.Perm.refl]
    · next u parked hparked =>
      simp only [hparked, ← List.append_assoc]
      exact List.perm_append_singleton u _
  · next hgranted =>
    by_cases hwaiting : t ∈ ch.waiting
    · rw [tickets, tickets, List.erase_append_left _ hwaiting]
    · rw [tickets, tickets, List.erase_append_right _ hwaiting, List.erase_of_not_mem hgranted]
      simp only [List.erase_of_not_mem hwaiting, List.Perm.refl]

end Mpsc

/-! ### An outbox on its way to the end -/

namespace Outbox
variable {capacity : Nat} {K R : Type}

/-- Each ticket at a channel belongs to the first send of a task. -/
structure Ticketed (o : Outbox capacity K R) : Prop where
  sound : ∀ k, (o.link k).queue.Sound
  heads : ∀ k, ∀ t ∈ (o.link k).queue.tickets, ∃ c, c.serial = t ∧ AtHead o k c

theorem ticketed_new : Ticketed (new : Outbox capacity K R) :=
  ⟨fun _ => Mpsc.sound_new, fun _ _ ht => nomatch ht⟩

/-- A task that goes on with its sends leaves the first ones of the others. -/
theorem AtHead.set {o o' : Outbox capacity K R} {i : Nat} {k j : K} {c d : Copy R}
    {rest : List (K × Copy R)} {future : Bool} {task : Task K R} (h : AtHead o j d)
    (ht : o.tasks[i]? = some ⟨(k, c) :: rest, future⟩) (ho' : o'.tasks = o.tasks.set i task)
    (hne : j ≠ k ∨ d ≠ c) : AtHead o' j d := by
  obtain ⟨other, hmem, rest', hsends⟩ := h
  obtain ⟨n, hn, hother⟩ := List.getElem_of_mem hmem
  have hin : i ≠ n := by
    rintro rfl
    obtain ⟨_, htask⟩ := List.getElem?_eq_some_iff.mp ht
    rw [← hother, htask] at hsends
    cases hsends
    exact hne.elim (fun h => h rfl) (fun h => h rfl)
  refine ⟨other, ?_, rest', hsends⟩
  rw [ho']
  exact List.mem_of_getElem? ((List.getElem?_set_ne hin).trans (List.getElem?_eq_some_iff.mpr ⟨hn, hother⟩))

variable [DecidableEq K]

/-- A step at one channel: its tickets are sound, and every ticket anywhere is still a first send's. -/
theorem Ticketed.at {o o' : Outbox capacity K R} {k : K} {l : Link capacity R} (h : Ticketed o)
    (hlink : o'.link = (o.setLink k l).link) (hsound : l.queue.Sound)
    (hself : ∀ t ∈ l.queue.tickets, ∃ c, c.serial = t ∧ AtHead o' k c)
    (hother : ∀ j c, j ≠ k → AtHead o j c → AtHead o' j c) : Ticketed o' := by
  refine ⟨fun j => ?_, fun j t ht => ?_⟩
  · rw [hlink]
    by_cases hj : j = k
    · subst hj
      rw [setLink_self]
      exact hsound
    · rw [setLink_of_ne o hj]
      exact h.sound j
  · rw [hlink] at ht
    by_cases hj : j = k
    · subst hj
      rw [setLink_self] at ht
      exact hself t ht
    · rw [setLink_of_ne o hj] at ht
      obtain ⟨c, hc, hhead⟩ := h.heads j t ht
      exact ⟨c, hc, hother j c hj hhead⟩

/-- A step that leaves the tasks. -/
theorem Ticketed.keep {o o' : Outbox capacity K R} {k : K} {l : Link capacity R} (h : Ticketed o)
    (hlink : o'.link = (o.setLink k l).link) (htasks : o'.tasks = o.tasks) (hsound : l.queue.Sound)
    (hsub : l.queue.tickets ⊆ (o.link k).queue.tickets) : Ticketed o' := by
  have hkept : ∀ j c, AtHead o j c → AtHead o' j c := fun j c ⟨task, hmem, hrest⟩ =>
    ⟨task, htasks ▸ hmem, hrest⟩
  refine h.at hlink hsound (fun t ht => ?_) (fun j c _ => hkept j c)
  obtain ⟨c, hc, hhead⟩ := h.heads k t (hsub ht)
  exact ⟨c, hc, hkept k c hhead⟩

/-- A step that ends the first send of a task, and the ticket of it. -/
theorem Ticketed.done {o o' : Outbox capacity K R} {i : Nat} {k : K} {c : Copy R}
    {rest : List (K × Copy R)} {future : Bool} {l : Link capacity R} (h : Ticketed o)
    (ht : o.tasks[i]? = some ⟨(k, c) :: rest, future⟩) (hlink : o'.link = (o.setLink k l).link)
    (htasks : o'.tasks = o.tasks.set i ⟨rest, future⟩) (hsound : l.queue.Sound)
    (hsub : l.queue.tickets ⊆ (o.link k).queue.tickets) (hgone : c.serial ∉ l.queue.tickets) :
    Ticketed o' := by
  refine h.at hlink hsound (fun t hmem => ?_) (fun j d hj hd => hd.set ht htasks (.inl hj))
  obtain ⟨d, rfl, hd⟩ := h.heads k t (hsub hmem)
  refine ⟨d, rfl, hd.set ht htasks (.inr ?_)⟩
  rintro rfl
  exact hgone hmem

theorem Ticketed.poll {o o' : Outbox capacity K R} {i : Nat} (h : Ticketed o)
    (hpoll : o.poll i = some o') : Ticketed o' := by
  simp only [Outbox.poll] at hpoll
  split at hpoll
  · next k c rest future ht =>
    split at hpoll
    · next queue hq =>
      cases hpoll
      obtain ⟨_, hsub, hgone⟩ := Mpsc.poll_sent_tickets (h.sound k).nodup hq
      have hsound := (h.sound k).subset (hsub.nodup (h.sound k).nodup) hsub.subset (Mpsc.poll_sent hq).2.1
      exact h.done ht rfl rfl hsound hsub.subset hgone
    · next queue hq =>
      cases hpoll
      rcases Mpsc.poll_pending_tickets hq with ⟨_, rfl⟩ | ⟨hnot, hopen, _, hperm⟩
      · exact h.keep rfl rfl (h.sound k) (List.Subset.refl _)
      · refine h.at rfl ⟨?_, fun hclosed => ?_⟩ (fun t hmem => ?_) (fun _ _ _ hd => hd)
        · exact hperm.nodup_iff.mpr (List.nodup_cons.mpr ⟨hnot, (h.sound k).nodup⟩)
        · rw [(Mpsc.poll_pending hq).2, hopen] at hclosed
          cases hclosed
        · rcases List.mem_cons.mp (hperm.mem_iff.mp hmem) with rfl | hold
          · exact ⟨c, rfl, _, List.mem_of_getElem? ht, rest, rfl⟩
          · exact h.heads k t hold
    · next queue hq =>
      cases hpoll
      obtain ⟨hclosed, rfl⟩ := Mpsc.poll_closed hq
      have hnil := (h.sound k).shut hclosed
      refine h.done ht rfl rfl (h.sound k) (List.Subset.refl _) ?_
      rw [hnil]
      exact List.not_mem_nil
  · cases hpoll

theorem Ticketed.step {e : Event K R} {o o' : Outbox capacity K R} (h : Ticketed o)
    (hstep : Outbox.step e o = some o') : Ticketed o' := by
  cases e with
  | put k r =>
    simp only [Outbox.step, put] at hstep
    split at hstep
    · next queue hq =>
      cases hstep
      have hsame := (Mpsc.trySend_tickets hq).2
      obtain ⟨hc, _, hc', _⟩ := Mpsc.trySend_ok hq
      have hsub : queue.tickets ⊆ (o.link k).queue.tickets := hsame ▸ List.Subset.refl _
      refine h.keep rfl rfl ((h.sound k).subset ?_ hsub (hc'.trans hc.symm)) hsub
      rw [hsame]
      exact (h.sound k).nodup
    · cases hstep
  | defer future r ks =>
    cases hstep
    refine ⟨h.sound, fun k t ht => ?_⟩
    obtain ⟨c, hc, task, hmem, hrest⟩ := h.heads k t ht
    exact ⟨c, hc, task, List.mem_append_left _ hmem, hrest⟩
  | poll i => exact h.poll hstep
  | cancel i =>
    simp only [Outbox.step, cancel] at hstep
    split at hstep
    · next k c ht =>
      cases hstep
      have hperm := Mpsc.cancel_tickets (t := c.serial) (h.sound k).nodup
      have hsub := List.Subset.trans hperm.subset List.erase_subset
      have hn := hperm.nodup_iff.mpr ((h.sound k).nodup.erase _)
      refine h.done ht rfl rfl ((h.sound k).subset hn hsub (Mpsc.cancel_queue _ _).2) hsub ?_
      rw [hperm.mem_iff]
      exact (h.sound k).nodup.not_mem_erase
    · cases hstep
  | take k =>
    simp only [Outbox.step, take] at hstep
    split at hstep
    · next c queue hq =>
      cases hstep
      have hperm := (Mpsc.recv_tickets hq).1
      have hn := hperm.nodup_iff.mpr (h.sound k).nodup
      exact h.keep rfl rfl ((h.sound k).subset hn hperm.subset (Mpsc.recv_some hq).2) hperm.subset
    · cases hstep
  | stop k =>
    cases hstep
    exact h.keep rfl rfl (Mpsc.sound_close (o.link k).queue) (List.nil_subset _)

/-! ### How much is left to do -/

/-- Polling the task would not find its send parked. -/
def ready (o : Outbox capacity K R) (i : Nat) : Bool :=
  match o.tasks[i]? with
  | some ⟨(k, c) :: _, _⟩ => c.serial ∉ (o.link k).queue.waiting
  | _ => false

/-- A send costs more while it is still to be parked, and a value more in its queue
than when it is out. -/
def load (o : Outbox capacity K R) (k : K) : Nat :=
  let queue := (o.link k).queue
  if queue.closed then (o.pending k).length
  else 3 * queue.queue.length + 3 * (o.pending k).length + ((o.pending k).length - queue.waiting.length)

theorem load_open {o : Outbox capacity K R} {k : K} (h : (o.link k).queue.closed = false) :
    o.load k = 3 * (o.link k).queue.queue.length + 3 * (o.pending k).length +
      ((o.pending k).length - (o.link k).queue.waiting.length) := by
  simp only [load, h, Bool.false_eq_true, if_false]

theorem load_closed {o : Outbox capacity K R} {k : K} (h : (o.link k).queue.closed = true) :
    o.load k = (o.pending k).length := if_pos h

theorem load_congr {o o' : Outbox capacity K R} {k : K} (hlink : o'.link k = o.link k)
    (hpending : o'.pending k = o.pending k) : o'.load k = o.load k := by
  simp only [load, hlink, hpending]

theorem Ticketed.waiting_le {o : Outbox capacity K R} (h : Ticketed o) (k : K) :
    (o.link k).queue.waiting.length ≤ (o.pending k).length := by
  have hn := (List.nodup_append.mp (h.sound k).nodup).1
  have hsub : (o.link k).queue.waiting ⊆ (o.pending k).map Copy.serial := by
    intro t ht
    obtain ⟨c, hc, task, htask, rest, hsends⟩ := h.heads k t (List.mem_append_left _ ht)
    refine List.mem_map.mpr ⟨c, mem_pending.mpr ⟨task, htask, ?_⟩, hc⟩
    rw [hsends]
    exact List.mem_cons_self
  simpa using (List.subperm_of_subset hn hsub).length_le

/-- A poll that is not in vain leaves one channel with less to do and the others with as much. -/
theorem Ticketed.poll_load {o o' : Outbox capacity K R} {i : Nat} (h : Ticketed o)
    (hready : o.ready i = true) (hpoll : o.poll i = some o') :
    ∃ k, o'.load k < o.load k ∧ ∀ j, j ≠ k → o'.load j = o.load j := by
  have hle := (h.poll hpoll).waiting_le
  simp only [Outbox.poll] at hpoll
  split at hpoll
  · next k c rest future ht =>
    refine ⟨k, ?_⟩
    split at hpoll
    · next queue hq =>
      obtain ⟨hqueue, hclosed, hopen⟩ := Mpsc.poll_sent hq
      obtain ⟨hwaiting, _⟩ := Mpsc.poll_sent_tickets (h.sound k).nodup hq
      obtain ⟨⟨pre, post, hp, hp'⟩, hother⟩ := pending_split o' ht (by cases hpoll; rfl)
      cases hpoll
      refine ⟨?_, fun j hj => load_congr (setLink_of_ne o hj _) (hother j hj)⟩
      have hk := hle k
      rw [load_open hopen, load_open (by simp only [setLink_self, hclosed, hopen])]
      simp only [setLink_self, hwaiting, hqueue, hp', hp, List.length_append, List.length_cons,
        List.length_nil] at hk ⊢
      omega
    · next queue hq =>
      rcases Mpsc.poll_pending_tickets hq with ⟨hparked, _⟩ | ⟨_, hopen, hwaiting, _⟩
      · simp [ready, ht, hparked] at hready
      · obtain ⟨hqueue, hclosed⟩ := Mpsc.poll_pending hq
        cases hpoll
        refine ⟨?_, fun j hj => load_congr (setLink_of_ne o hj _) rfl⟩
        have hk := hle k
        rw [load_open hopen, load_open (by simp only [setLink_self, hclosed, hopen])]
        simp only [setLink_self, hwaiting, hqueue, List.length_append, List.length_singleton] at hk ⊢
        simp only [pending, setLink] at hk ⊢
        omega
    · next queue hq =>
      obtain ⟨hclosed, rfl⟩ := Mpsc.poll_closed hq
      obtain ⟨⟨pre, post, hp, hp'⟩, hother⟩ := pending_split o' ht (by cases hpoll; rfl)
      cases hpoll
      refine ⟨?_, fun j hj => load_congr (setLink_of_ne o hj _) (hother j hj)⟩
      rw [load_closed hclosed, load_closed (by simp only [setLink_self, hclosed]), hp', hp]
      simp only [List.length_append, List.length_cons]
      omega
  · cases hpoll

theorem take_of_cons {o : Outbox capacity K R} {k : K} {c : Copy R} {rest : List (Copy R)}
    (hq : (o.link k).queue.queue = c :: rest) : ∃ o', o.take k = some (c, o') := by
  obtain ⟨queue, hrecv⟩ := Mpsc.recv_of_cons hq
  simp only [take, hrecv]
  exact ⟨_, rfl⟩

/-- A value taken out of the queue leaves less to do even when it lets a parked send go on. -/
theorem take_load {o o' : Outbox capacity K R} {k : K} {c : Copy R} (htake : o.take k = some (c, o'))
    (hopen : (o.link k).queue.closed = false) :
    o'.load k + 2 ≤ o.load k ∧ ∀ j, j ≠ k → o'.load j = o.load j := by
  simp only [take] at htake
  split at htake
  · next d queue hq =>
    cases htake
    obtain ⟨hqueue, hclosed⟩ := Mpsc.recv_some hq
    have hwaiting := (Mpsc.recv_tickets hq).2
    refine ⟨?_, fun j hj => load_congr (setLink_of_ne o hj _) rfl⟩
    rw [load_open hopen, load_open (by simp only [setLink_self, hclosed, hopen])]
    have hp : (o.setLink k { o.link k with queue := queue, taken := (o.link k).taken ++ [c] }).pending k =
      o.pending k := rfl
    rw [hp, setLink_self, hqueue, List.length_cons]
    dsimp only
    omega
  · cases htake

theorem stop_load (o : Outbox capacity K R) (k : K) :
    (o.stop k).load k ≤ o.load k ∧ ∀ j, j ≠ k → (o.stop k).load j = o.load j := by
  refine ⟨?_, fun j hj => load_congr (setLink_of_ne o hj _) rfl⟩
  rw [load_closed (by simp only [stop, setLink_self, Mpsc.close])]
  show (o.pending k).length ≤ o.load k
  unfold load
  dsimp only
  split
  · exact Nat.le_refl _
  · omega

omit [DecidableEq K] in
/-- **No poll is left, and no open queue has anything in it: then every task is done.** A parked
send would wait for a permit that only a send with nothing to wait for can hold. -/
theorem Ticketed.done_of_unready {o : Outbox capacity K R} (h : Ticketed o) (hcap : 0 < capacity)
    (hready : ∀ i, o.ready i = false)
    (hempty : ∀ k, (o.link k).queue.closed = false → (o.link k).queue.queue = []) :
    ∀ task ∈ o.tasks, task.sends = [] := by
  have hparked : ∀ k c, AtHead o k c → c.serial ∈ (o.link k).queue.waiting := by
    intro k c ⟨⟨sends, future⟩, hmem, rest, hsends⟩
    obtain ⟨i, hi, htask⟩ := List.getElem_of_mem hmem
    have hnot := hready i
    simp only [ready, List.getElem?_eq_some_iff.mpr ⟨hi, htask⟩] at hnot
    obtain rfl : sends = (k, c) :: rest := hsends
    simpa using hnot
  intro task htask
  cases hsends : task.sends with
  | nil => rfl
  | cons send rest =>
    have hwaiting := hparked send.1 send.2 ⟨task, htask, rest, hsends⟩
    have hopen : (o.link send.1).queue.closed = false := by
      by_contra hc
      have hnil := (h.sound send.1).shut (by simpa using hc)
      rw [Mpsc.tickets, List.append_eq_nil_iff] at hnil
      rw [hnil.1] at hwaiting
      exact List.not_mem_nil hwaiting
    have hpermits := (o.link send.1).queue.fair (List.ne_nil_of_mem hwaiting)
    have hsum := (o.link send.1).queue.accounted hopen
    rw [hempty send.1 hopen, hpermits, List.length_nil] at hsum
    obtain ⟨t, ht⟩ := List.exists_mem_of_length_pos (by omega : 0 < (o.link send.1).queue.granted.length)
    obtain ⟨c, rfl, hhead⟩ := h.heads send.1 t (List.mem_append_right _ ht)
    exact absurd rfl ((List.nodup_append.mp (h.sound send.1).nodup).2.2 _ (hparked _ c hhead) _ ht)

end Outbox

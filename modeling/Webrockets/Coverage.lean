import Webrockets.Broadcast
import Webrockets.Order

/-! Whom a broadcast comes to while connections come and go.

The two loops of `broadcast` run while other threads register, join, leave and remove. A
connection that is in a group of the list all the while gets a copy for it, one that is never in
it gets none, and for a group that it joins or leaves meanwhile it gets one at most:
`broadcast_covers`. -/
namespace Webrockets.Server
open Transition Outbox Registry

/-- The broadcast of call `k`, while it is under way. -/
def underWay (s : Server) (caller k : Nat) : Option Loop :=
  (s.loop caller).filter fun l => l.request.call == k

/-- How many copies of what call `k` sends have been accepted for the connection. -/
def copiesOf (s : Server) (k : Nat) (tx : Sender) : Nat :=
  (s.outgoing.account tx).accepted.countP fun c => c.value.call == k

def Open (s : Server) (tx : Sender) : Prop := (s.outgoing.link tx).queue.closed = false

instance (s : Server) (tx : Sender) : Decidable (s.Open tx) := inferInstanceAs (Decidable (_ = _))

variable {s t : Server} {caller k : Nat} {tx : Sender} {l : Loop}

theorem underWay_iff : s.underWay caller k = some l ↔ s.loop caller = some l ∧ l.request.call = k := by
  rw [underWay, Option.filter_eq_some_iff, beq_iff_eq]

theorem underWay_eq_none (h : ∀ l, s.loop caller = some l → l.request.call ≠ k) :
    s.underWay caller k = none :=
  Option.eq_none_iff_forall_ne_some.mpr fun l hl => h l (underWay_iff.mp hl).1 (underWay_iff.mp hl).2

/-! ### What a broadcast still comes to -/

/-- The groups of the list that it comes to the connection in, if these are those in which the
connection stays. -/
def ahead (l : Loop) (stays : String → Bool) (id : ConnectionID) : Nat :=
  l.groups.countP stays +
    l.inside.elim 0 fun i => if stays i.group = true ∧ id ∈ i.ahead then 1 else 0

/-- The groups of the list that it may come to the connection in. -/
def possible (l : Loop) (comes : String → Bool) (id : ConnectionID) : Nat :=
  l.groups.countP comes +
    l.inside.elim 0 fun i => if comes i.group = true ∧ id ∉ i.visited then 1 else 0

/-- What a step is to the broadcast, and to the copies that the connection has of it. -/
inductive Goes (caller k : Nat) (tx : Sender) (s t : Server) : Prop where
  | stays (loop : t.underWay caller k = s.underWay caller k)
      (copies : t.copiesOf k tx = s.copiesOf k tx)
  | enters (l : Loop) (group : String) (groups : List String) (hl : s.underWay caller k = some l)
      (hgroups : l.groups = group :: groups) (hinside : l.inside = none)
      (loop : t.underWay caller k = some { l with
        groups := groups
        inside := (s.store.groups.get? group).map fun members => ⟨group, members.elems, []⟩ })
      (copies : t.copiesOf k tx = s.copiesOf k tx)
  | visits (l : Loop) (i : Inside) (id : ConnectionID) (blocked : List Sender)
      (hl : s.underWay caller k = some l) (hinside : l.inside = some i)
      (member : id ∈ s.store.members i.group) (fresh : id ∉ i.visited)
      (loop : t.underWay caller k = some { l with
        inside := some ⟨i.group, i.ahead.filter (· ≠ id), id :: i.visited⟩
        blocked := blocked })
      (copies : t.copiesOf k tx + blocked.count tx = s.copiesOf k tx + l.blocked.count tx +
        if s.store.recipient l.exclude id = some tx ∧ s.Open tx then 1 else 0)
  | leaves (l : Loop) (i : Inside) (hl : s.underWay caller k = some l) (hinside : l.inside = some i)
      (gone : ∀ id ∈ i.ahead, id ∉ s.store.members i.group)
      (loop : t.underWay caller k = some { l with inside := none })
      (copies : t.copiesOf k tx = s.copiesOf k tx)
  | finishes (l : Loop) (hl : s.underWay caller k = some l) (hgroups : l.groups = [])
      (hinside : l.inside = none) (loop : t.underWay caller k = none)
      (copies : t.copiesOf k tx = s.copiesOf k tx +
        if l.ctx.hasRuntime = true then l.blocked.count tx else 0)

/-- A request that is not of the call adds no copy of it. -/
theorem copies_of_others {a : Action} (h : step a s = some t)
    (hothers : ∀ r, Gives a s tx r → r.call ≠ k) : t.copiesOf k tx = s.copiesOf k tx := by
  obtain ⟨new, hnew, hgiven⟩ := (step_account h tx).grows
  have hnone : new.countP (fun c => c.value.call == k) = 0 :=
    List.countP_eq_zero.mpr fun c hc => by
      rw [beq_iff_eq]
      exact hothers _ (hgiven c hc)
  rw [copiesOf, hnew, List.countP_append, hnone]
  rfl

theorem tryAt_copies (r : Request) (o : Outgoing) (blocked : List Sender) (tx' : Sender) :
    ((tryAt r (o, blocked) tx').1.account tx).accepted.countP (fun c => c.value.call == r.call) +
        (tryAt r (o, blocked) tx').2.count tx =
      (o.account tx).accepted.countP (fun c => c.value.call == r.call) + blocked.count tx +
        if tx' = tx ∧ (o.link tx).queue.closed = false then 1 else 0 := by
  unfold tryAt
  cases hput : o.put tx' r with
  | ok o' =>
    obtain ⟨hopen, _, hself, hother⟩ := put_ok hput
    by_cases htx : tx' = tx
    · subst htx
      have hclosed : (o.link tx').queue.closed = false := hopen
      simp only [hself, List.countP_append, List.countP_singleton, beq_self_eq_true, if_true, hclosed,
        and_self]
      omega
    · simp only [hother tx (Ne.symm htx), htx, false_and, if_false, Nat.add_zero]
  | error e =>
    cases e with
    | full =>
      obtain ⟨hopen, _⟩ := put_full.mp hput
      by_cases htx : tx' = tx
      · subst htx
        simp only [hopen, and_self, if_true, List.count_append, List.count_singleton_self]
        omega
      · simp [htx, List.count_append]
    | closed =>
      have hclosed := put_closed.mp hput
      by_cases htx : tx' = tx
      · subst htx
        simp [hclosed]
      · simp [htx]

theorem visit_copies (store : ChannelStore) (exclude : Option ConnectionID) (r : Request)
    (id : ConnectionID) (o : Outgoing) (blocked : List Sender) :
    ((store.visit exclude r id (o, blocked)).1.account tx).accepted.countP
          (fun c => c.value.call == r.call) + (store.visit exclude r id (o, blocked)).2.count tx =
      (o.account tx).accepted.countP (fun c => c.value.call == r.call) + blocked.count tx +
        if store.recipient exclude id = some tx ∧ (o.link tx).queue.closed = false then 1 else 0 := by
  rw [visit_eq]
  cases store.recipient exclude id with
  | none => simp
  | some tx' =>
    rw [Option.elim_some, tryAt_copies]
    simp only [Option.some.injEq]

/-- The task for the blocked senders takes a copy for each of them. -/
theorem spawnBlocked_copies (ctx : Context) (r : Request) (o : Outgoing) (blocked : List Sender) :
    ((spawnBlocked ctx r (o, blocked)).2.account tx).accepted.countP
        (fun c => c.value.call == r.call) =
      (o.account tx).accepted.countP (fun c => c.value.call == r.call) +
        if ctx.hasRuntime = true then blocked.count tx else 0 := by
  unfold spawnBlocked
  split
  · next hnone =>
    have hblocked : blocked = [] := List.isEmpty_iff.mp hnone
    rw [hblocked, List.count_nil, ite_self, Nat.add_zero]
  · split
    · have haccepted : ((o.defer false r blocked).account tx).accepted =
          (o.account tx).accepted ++ on tx (o.copies r blocked) := rfl
      have hall : (on tx (o.copies r blocked)).countP (fun c => c.value.call == r.call) =
          blocked.count tx := by
        rw [← length_on_copies o r blocked tx]
        refine List.countP_eq_length.mpr fun c hc => ?_
        rw [(copies_numbered o r blocked tx).1 c hc]
        exact beq_self_eq_true _
      show ((o.defer false r blocked).account tx).accepted.countP _ = _
      rw [haccepted, List.countP_append, hall]
    · rfl

/-- The call is the caller's. -/
structure Owned (caller k : Nat) (s : Server) : Prop where
  own : ∀ c l, s.loop c = some l → l.request.call = k → c = caller
  called : k < s.calls

theorem step_owned {a : Action} (hs : Owned caller k s) (h : step a s = some t) : Owned caller k t := by
  refine ⟨fun c l' hl' hk => ?_, Nat.lt_of_lt_of_le hs.called (step_calls h).1⟩
  rcases step_loop h hl' with ⟨l, hl, hrequest, _⟩ | ⟨_, _, _, hcall, _, _⟩
  · exact hs.own c l hl (hrequest ▸ hk)
  · exact absurd (hcall.symm.trans hk) (Nat.ne_of_gt hs.called)

/-- Where the broadcast that moves on is another one. -/
theorem underWay_other {c : Nat} {m : Option Loop} (hl : s.loop c = some l)
    (ht : t.loop = set s.loop c m) (hm : ∀ l', m = some l' → l'.request = l.request)
    (hne : ¬ (c = caller ∧ l.request.call = k)) : t.underWay caller k = s.underWay caller k := by
  by_cases hc : c = caller
  · subst hc
    have hcall : l.request.call ≠ k := fun hk => hne ⟨rfl, hk⟩
    rw [underWay_eq_none (s := t) fun l' hl' => ?_, underWay_eq_none fun l' hl' => ?_]
    · rw [hl] at hl'
      exact Option.some.inj hl' ▸ hcall
    · rw [ht, set_self] at hl'
      rw [hm l' hl']
      exact hcall
  · rw [underWay, underWay, ht, set_of_ne _ (Ne.symm hc)]

theorem underWay_set {m : Loop} (ht : t.loop = set s.loop caller (some m)) (hm : m.request.call = k) :
    t.underWay caller k = some m :=
  underWay_iff.mpr ⟨by rw [ht, set_self], hm⟩

/-- What is given of a call, its broadcast gives. -/
theorem Gives.of_call {a : Action} {r : Request} (hs : Owned caller k s) (hg : Gives a s tx r)
    (hr : r.call = k) : ∃ l, s.underWay caller k = some l ∧ r = l.request ∧
      ((∃ id, a = .visit caller id) ∨ a = .finish caller) := by
  cases a with
  | call c ctx conn m => exact absurd (hg.2.1.symm.trans hr) (Nat.ne_of_gt hs.called)
  | visit c id =>
    obtain ⟨l, hl, _, rfl, _⟩ := hg
    obtain rfl := hs.own c l hl hr
    exact ⟨l, underWay_iff.mpr ⟨hl, hr⟩, rfl, .inl ⟨id, rfl⟩⟩
  | finish c =>
    obtain ⟨l, hl, _, rfl⟩ := hg
    obtain rfl := hs.own c l hl hr
    exact ⟨l, underWay_iff.mpr ⟨hl, hr⟩, rfl, .inr rfl⟩
  | _ => exact hg.elim

theorem step_goes {a : Action} (hs : Owned caller k s) (h : step a s = some t) (tx : Sender) :
    Goes caller k tx s t := by
  cases a with
  | broadcast c ctx b =>
    have hcopies : t.copiesOf k tx = s.copiesOf k tx := copies_of_others h fun _ hg => hg.elim
    obtain ⟨hnone, rfl | ⟨message, exclude, _, rfl⟩⟩ := broadcast_some h
    · exact .stays rfl hcopies
    · refine .stays ?_ hcopies
      by_cases hc : c = caller
      · subst hc
        rw [underWay_eq_none (s := s) fun l hl => ?_]
        · refine underWay_eq_none fun l hl => ?_
          obtain rfl := Option.some.inj ((set_self s.loop c _).symm.trans hl)
          exact Nat.ne_of_gt hs.called
        · rw [hnone] at hl
          cases hl
      · exact congrArg (Option.filter _) (set_of_ne s.loop (Ne.symm hc) _)
  | enterGroup c =>
    have hcopies : t.copiesOf k tx = s.copiesOf k tx := copies_of_others h fun _ hg => hg.elim
    simp only [step] at h
    split at h
    · next r ctx exclude group groups blocked hl =>
      obtain rfl := Option.some.inj h
      by_cases hk : c = caller ∧ r.call = k
      · obtain ⟨rfl, hk⟩ := hk
        exact .enters _ group groups (underWay_iff.mpr ⟨hl, hk⟩) rfl rfl (underWay_set rfl hk) hcopies
      · refine .stays (underWay_other hl rfl (fun l' hl' => ?_) hk) hcopies
        rw [← Option.some.inj hl']
    · cases h
  | visit c id =>
    have h' := h
    simp only [step] at h
    split at h
    · next r ctx exclude groups group members visited blocked hl =>
      split at h
      · next hmember =>
        obtain rfl := Option.some.inj h
        by_cases hk : c = caller ∧ r.call = k
        · obtain ⟨rfl, rfl⟩ := hk
          exact .visits _ ⟨group, members, visited⟩ id _ (underWay_iff.mpr ⟨hl, rfl⟩) rfl hmember.1
            hmember.2 (underWay_set rfl rfl) (visit_copies s.store exclude r id s.outgoing blocked)
        · refine .stays (underWay_other hl rfl (fun l' hl' => ?_) hk) (copies_of_others h' ?_)
          · rw [← Option.some.inj hl']
          · intro v hg hv
            obtain ⟨l', hl', _, ⟨id', ha⟩ | ha⟩ := hg.of_call hs hv
            · obtain ⟨hloop, hcall⟩ := underWay_iff.mp hl'
              obtain ⟨rfl, rfl⟩ := Action.visit.inj ha
              obtain rfl := Option.some.inj (hl.symm.trans hloop)
              exact hk ⟨rfl, hcall⟩
            · cases ha
      · cases h
    · cases h
  | leaveGroup c =>
    have hcopies : t.copiesOf k tx = s.copiesOf k tx := copies_of_others h fun _ hg => hg.elim
    obtain ⟨l, i, hl, hinside, hgone, rfl⟩ := leaveGroup_some h
    by_cases hk : c = caller ∧ l.request.call = k
    · obtain ⟨rfl, hk⟩ := hk
      exact .leaves l i (underWay_iff.mpr ⟨hl, hk⟩) hinside hgone (underWay_set rfl hk) hcopies
    · refine .stays (underWay_other hl rfl (fun l' hl' => ?_) hk) hcopies
      rw [← Option.some.inj hl']
  | finish c =>
    have h' := h
    obtain ⟨l, hl, hgroups, hinside, rfl⟩ := finish_some h
    by_cases hk : c = caller ∧ l.request.call = k
    · obtain ⟨rfl, rfl⟩ := hk
      refine .finishes l (underWay_iff.mpr ⟨hl, rfl⟩) hgroups hinside (underWay_eq_none fun l' hl' => ?_)
        (spawnBlocked_copies l.ctx l.request s.outgoing l.blocked)
      have hnone := (set_self s.loop c none).symm.trans hl'
      cases hnone
    · refine .stays (underWay_other hl rfl (fun l' hl' => by cases hl') hk) (copies_of_others h' ?_)
      intro v hg hv
      obtain ⟨l', hl', _, ⟨id, ha⟩ | ha⟩ := hg.of_call hs hv
      · cases ha
      · obtain ⟨hloop, hcall⟩ := underWay_iff.mp hl'
        obtain rfl := Action.finish.inj ha
        obtain rfl := Option.some.inj (hl.symm.trans hloop)
        exact hk ⟨rfl, hcall⟩
  | call c ctx conn m =>
    refine .stays (congrArg (Option.filter _) (congrFun ((step_untouched h).loop rfl) caller))
      (copies_of_others h ?_)
    rintro v ⟨_, hcall, _⟩ hv
    exact Nat.ne_of_gt hs.called (hcall.symm.trans hv)
  | _ =>
    exact .stays (congrArg (Option.filter _) (congrFun ((step_untouched h).loop rfl) caller))
      (copies_of_others h fun _ hg => hg.elim)

/-! ### What it has come to, and what is left -/

/-- The connection is where it stays, and nowhere else than it comes to. -/
structure Steady (exclude : Option ConnectionID) (stays comes : String → Bool) (tx : Sender)
    (s : Server) : Prop where
  stays : ∀ group, stays group = true → idOf tx ∈ s.store.members group ∧
    Sendable s.store exclude tx ∧ s.Open tx
  comes : ∀ group, comes group = false → idOf tx ∉ s.store.members group

section Turns
variable {exclude : Option ConnectionID} {stays comes : String → Bool} {i : Inside}

theorem ahead_enter {group : String} {groups : List String} (hs : Steady exclude stays comes tx s)
    (hgroups : l.groups = group :: groups) (hinside : l.inside = none) :
    ahead l stays (idOf tx) ≤ ahead { l with
      groups := groups
      inside := (s.store.groups.get? group).map fun members => ⟨group, members.elems, []⟩ }
      stays (idOf tx) := by
  simp only [ahead, hgroups, hinside, List.countP_cons, Option.elim_none, Nat.add_zero]
  refine Nat.add_le_add_left ?_ _
  cases hstays : stays group with
  | false => exact Nat.zero_le _
  | true =>
    have hmember := (hs.stays group hstays).1
    unfold ChannelStore.members at hmember
    cases hget : s.store.groups.get? group with
    | none =>
      rw [hget] at hmember
      exact absurd hmember (IndexSet.not_mem_default _)
    | some members =>
      rw [hget] at hmember
      have hin : idOf tx ∈ members.elems := hmember
      simp only [Option.map_some, Option.elim_some, hstays, hin, and_self, if_true, le_refl]

theorem possible_enter (s : Server) (comes : String → Bool) (tx : Sender) {group : String}
    {groups : List String} (hgroups : l.groups = group :: groups) (hinside : l.inside = none) : possible { l with
      groups := groups
      inside := (s.store.groups.get? group).map fun members => ⟨group, members.elems, []⟩ }
      comes (idOf tx) ≤ possible l comes (idOf tx) := by
  simp only [possible, hgroups, hinside, List.countP_cons, Option.elim_none, Nat.add_zero]
  refine Nat.add_le_add_left ?_ _
  cases s.store.groups.get? group with
  | none => exact Nat.zero_le _
  | some members =>
    simp only [Option.map_some, Option.elim_some, List.not_mem_nil, not_false_eq_true, and_true, le_refl]

theorem ahead_visit (id : ConnectionID) (blocked : List Sender) (hnumbered : Numbered s.registry)
    (hs : Steady l.exclude stays comes tx s) (hinside : l.inside = some i) :
    ahead l stays (idOf tx) ≤ ahead { l with
      inside := some ⟨i.group, i.ahead.filter (· ≠ id), id :: i.visited⟩
      blocked := blocked } stays (idOf tx) +
        if s.store.recipient l.exclude id = some tx ∧ s.Open tx then 1 else 0 := by
  simp only [ahead, hinside, Option.elim_some, Nat.add_assoc]
  refine Nat.add_le_add_left ?_ _
  by_cases hin : stays i.group = true ∧ idOf tx ∈ i.ahead
  · by_cases hid : id = idOf tx
    · obtain ⟨_, hsendable, hopen⟩ := hs.stays i.group hin.1
      have hsent : s.store.recipient l.exclude id = some tx ∧ s.Open tx :=
        ⟨(recipient_eq_some hnumbered).mpr ⟨hid, hsendable⟩, hopen⟩
      rw [if_pos hin, if_pos hsent]
      exact Nat.le_add_left _ _
    · have hkept : idOf tx ∈ i.ahead.filter (· ≠ id) :=
        List.mem_filter.mpr ⟨hin.2, decide_eq_true (Ne.symm hid)⟩
      rw [if_pos hin, if_pos ⟨hin.1, hkept⟩]
      exact Nat.le_add_right _ _
  · rw [if_neg hin]
    exact Nat.zero_le _

theorem possible_visit {id : ConnectionID} (blocked : List Sender) (hnumbered : Numbered s.registry)
    (hs : Steady l.exclude stays comes tx s) (hinside : l.inside = some i)
    (member : id ∈ s.store.members i.group) (fresh : id ∉ i.visited) :
    possible { l with
      inside := some ⟨i.group, i.ahead.filter (· ≠ id), id :: i.visited⟩
      blocked := blocked } comes (idOf tx) +
        (if s.store.recipient l.exclude id = some tx ∧ s.Open tx then 1 else 0) ≤
      possible l comes (idOf tx) := by
  simp only [possible, hinside, Option.elim_some, Nat.add_assoc]
  refine Nat.add_le_add_left ?_ _
  by_cases hsent : s.store.recipient l.exclude id = some tx ∧ s.Open tx
  · obtain ⟨rfl, _⟩ := (recipient_eq_some hnumbered).mp hsent.1
    have hcomes : comes i.group = true := by
      by_contra hnot
      exact hs.comes i.group (Bool.eq_false_iff.mpr hnot) member
    have hbefore : comes i.group = true ∧ idOf tx ∉ i.visited := ⟨hcomes, fresh⟩
    have hafter : ¬ (comes i.group = true ∧ idOf tx ∉ idOf tx :: i.visited) :=
      fun h => h.2 List.mem_cons_self
    rw [if_pos hsent, if_pos hbefore, if_neg hafter]
  · rw [if_neg hsent, Nat.add_zero]
    by_cases hnew : comes i.group = true ∧ idOf tx ∉ id :: i.visited
    · rw [if_pos hnew, if_pos ⟨hnew.1, fun h => hnew.2 (List.mem_cons_of_mem _ h)⟩]
    · rw [if_neg hnew]
      exact Nat.zero_le _

theorem ahead_leave (hs : Steady exclude stays comes tx s) (hinside : l.inside = some i)
    (gone : ∀ id ∈ i.ahead, id ∉ s.store.members i.group) :
    ahead l stays (idOf tx) ≤ ahead { l with inside := none } stays (idOf tx) := by
  simp only [ahead, hinside, Option.elim_some, Option.elim_none]
  rw [if_neg fun h => gone _ h.2 (hs.stays _ h.1).1]

theorem possible_leave (comes : String → Bool) (tx : Sender) (hinside : l.inside = some i) :
    possible { l with inside := none } comes (idOf tx) ≤ possible l comes (idOf tx) := by
  simp only [possible, hinside, Option.elim_some, Option.elim_none]
  exact Nat.add_le_add_left (Nat.zero_le _) _

end Turns

/-- What the broadcast of `r` has come to the connection with and still can, against its groups. -/
structure Covering (r : Request) (ctx : Context) (exclude : Option ConnectionID) (groups : List String)
    (stays comes : String → Bool) (tx : Sender) (s : Server) : Prop where
  numbered : Numbered s.registry
  owned : Owned r.caller r.call s
  args : ∀ l, s.underWay r.caller r.call = some l → l.request = r ∧ l.exclude = exclude ∧ l.ctx = ctx
  value : ∀ c ∈ (s.outgoing.account tx).accepted, c.value.call = r.call → c.value = r
  lower : ctx.hasRuntime = true → groups.countP stays ≤ s.copiesOf r.call tx +
    (s.underWay r.caller r.call).elim 0 fun l => l.blocked.count tx + ahead l stays (idOf tx)
  upper : (s.copiesOf r.call tx + (s.underWay r.caller r.call).elim 0 fun l =>
    l.blocked.count tx + possible l comes (idOf tx)) ≤ groups.countP comes

theorem step_covering {r : Request} {ctx : Context} {exclude : Option ConnectionID}
    {groups : List String} {stays comes : String → Bool} (a : Action) (s t : Server)
    (hs : Covering r ctx exclude groups stays comes tx s)
    (hsteady : Steady exclude stays comes tx s) (h : step a s = some t) :
    Covering r ctx exclude groups stays comes tx t := by
  have hnumbered := step_numbered a s t hs.numbered h
  have howned := step_owned hs.owned h
  have hvalue : ∀ c ∈ (t.outgoing.account tx).accepted, c.value.call = r.call → c.value = r := by
    intro c hc hcall
    rcases (step_account h tx).given hc with hold | hgives
    · exact hs.value c hold hcall
    · obtain ⟨l, hl, hrequest, _⟩ := hgives.of_call hs.owned hcall
      exact hrequest.trans (hs.args l hl).1
  have hlower := hs.lower
  have hupper := hs.upper
  cases step_goes hs.owned h tx with
  | stays loop copies =>
    exact ⟨hnumbered, howned, loop ▸ hs.args, hvalue, by rwa [loop, copies], by rwa [loop, copies]⟩
  | enters l group rest hl hgroups hinside loop copies =>
    have hahead := ahead_enter hsteady hgroups hinside
    have hpossible := possible_enter s comes tx hgroups hinside
    rw [hl, Option.elim_some] at hlower hupper
    refine ⟨hnumbered, howned, fun l' hl' => ?_, hvalue, fun hctx => ?_, ?_⟩
    · obtain rfl := Option.some.inj (loop.symm.trans hl')
      exact hs.args l hl
    · have hbefore := hlower hctx
      rw [loop, copies, Option.elim_some]
      dsimp only
      omega
    · rw [loop, copies, Option.elim_some]
      dsimp only
      omega
  | visits l i id blocked hl hinside member fresh loop copies =>
    have hargs := hs.args l hl
    rw [← hargs.2.1] at hsteady
    have hahead := ahead_visit id blocked hs.numbered hsteady hinside
    have hpossible := possible_visit blocked hs.numbered hsteady hinside member fresh
    rw [hl, Option.elim_some] at hlower hupper
    refine ⟨hnumbered, howned, fun l' hl' => ?_, hvalue, fun hctx => ?_, ?_⟩
    · obtain rfl := Option.some.inj (loop.symm.trans hl')
      exact hargs
    · have hbefore := hlower hctx
      rw [loop, Option.elim_some]
      dsimp only
      omega
    · rw [loop, Option.elim_some]
      dsimp only
      omega
  | leaves l i hl hinside gone loop copies =>
    have hahead := ahead_leave hsteady hinside gone
    have hpossible := possible_leave comes tx hinside
    rw [hl, Option.elim_some] at hlower hupper
    refine ⟨hnumbered, howned, fun l' hl' => ?_, hvalue, fun hctx => ?_, ?_⟩
    · obtain rfl := Option.some.inj (loop.symm.trans hl')
      exact hs.args l hl
    · have hbefore := hlower hctx
      rw [loop, copies, Option.elim_some]
      dsimp only
      omega
    · rw [loop, copies, Option.elim_some]
      dsimp only
      omega
  | finishes l hl hgroups hinside loop copies =>
    rw [(hs.args l hl).2.2] at copies
    rw [hl, Option.elim_some] at hlower hupper
    have hahead : ahead l stays (idOf tx) = 0 := by
      rw [ahead, hgroups, hinside]
      rfl
    refine ⟨hnumbered, howned, fun l' hl' => ?_, hvalue, fun hctx => ?_, ?_⟩
    · rw [loop] at hl'
      cases hl'
    · have hbefore := hlower hctx
      rw [if_pos hctx] at copies
      rw [loop, copies, Option.elim_none]
      omega
    · rw [loop, copies, Option.elim_none]
      split <;> omega

/-- A broadcast begins. -/
theorem broadcast_covering {ctx : Context} {b : Broadcast} {message : Message}
    {exclude : Option ConnectionID} {stays comes : String → Bool} (hnumbered : Numbered s.registry)
    (hs : Sequential s) (hb : step (.broadcast caller ctx b) s = some t)
    (hargs : b.args s.handle = .ok (message, exclude)) (tx : Sender) :
    Covering ⟨s.calls, caller, false, message⟩ ctx exclude b.groups stays comes tx t := by
  simp only [step, hargs] at hb
  split at hb
  · next hnone =>
    obtain rfl := Option.some.inj hb
    generalize hr : (⟨s.calls, caller, false, message⟩ : Request) = r at *
    have hcall : r.call = s.calls := by rw [← hr]
    have hcaller : r.caller = caller := by rw [← hr]
    have hloop : Server.underWay { s with
        loop := set s.loop caller (some ⟨r, ctx, exclude, b.groups, none, []⟩)
        calls := s.calls + 1 } r.caller r.call = some ⟨r, ctx, exclude, b.groups, none, []⟩ :=
      underWay_iff.mpr ⟨by rw [hcaller]; exact set_self _ _ _, rfl⟩
    have hfew (P : String → Bool) (id : ConnectionID) :
        ahead ⟨r, ctx, exclude, b.groups, none, []⟩ P id = b.groups.countP P ∧
          possible ⟨r, ctx, exclude, b.groups, none, []⟩ P id = b.groups.countP P := ⟨rfl, rfl⟩
    have hcopies : (s.outgoing.account tx).accepted.countP (fun c => c.value.call == r.call) = 0 :=
      List.countP_eq_zero.mpr fun c hc => by
        rw [beq_iff_eq, hcall]
        exact Nat.ne_of_lt (hs.called tx c hc)
    refine ⟨hnumbered, ⟨fun c l hl hk => ?_, ?_⟩, fun l hl => ?_, fun c hc hk => ?_, fun _ => ?_, ?_⟩
    · by_contra hne
      rw [hcaller] at hne
      have hold := (set_of_ne s.loop hne _).symm.trans hl
      have hlt := (hs.loops c l hold).2
      rw [hk, hcall] at hlt
      exact Nat.lt_irrefl _ hlt
    · rw [hcall]
      exact Nat.lt_succ_self _
    · obtain rfl := Option.some.inj (hloop.symm.trans hl)
      exact ⟨rfl, rfl, rfl⟩
    · have hlt := hs.called tx c hc
      rw [hk, hcall] at hlt
      exact absurd hlt (Nat.lt_irrefl _)
    · rw [hloop, Option.elim_some, (hfew _ _).1]
      exact Nat.le_trans (Nat.le_add_left _ _) (Nat.le_add_left _ _)
    · rw [hloop, Option.elim_some, (hfew _ _).2]
      show (s.outgoing.account tx).accepted.countP _ + _ ≤ _
      rw [hcopies, List.count_nil, Nat.zero_add, Nat.zero_add]
  · cases hb

/-- What a broadcast has come to when it is over. -/
theorem covers {before during : List Action} {s t u : Server} {caller : Nat} {ctx : Context}
    {b : Broadcast} {message : Message} {exclude : Option ConnectionID}
    (hs : run step init before = some s) (hb : step (.broadcast caller ctx b) s = some t)
    (hargs : b.args s.handle = .ok (message, exclude)) (h : run step t during = some u)
    (hdone : ∀ l, u.loop caller = some l → l.request.call ≠ s.calls) (tx : Sender) :
    (∀ c ∈ (u.outgoing.link tx).accepted, c.value.call = s.calls →
      c.value = ⟨s.calls, caller, false, message⟩) ∧
    u.copiesOf s.calls tx ≤ b.groups.countP (fun group =>
      ¬ Always step (fun v => idOf tx ∉ v.store.members group) t during) ∧
    (ctx.hasRuntime = true →
      Always step (fun v => Sendable v.store exclude tx ∧ v.Open tx) t during →
      b.groups.countP (fun group =>
        Always step (fun v => idOf tx ∈ v.store.members group) t during) ≤ u.copiesOf s.calls tx) := by
  have hsequential := run_invariant step_sequential before hs init_sequential
  have hall {stays comes : String → Bool}
      (hsteady : Always step (Steady exclude stays comes tx) t during) :
      Covering ⟨s.calls, caller, false, message⟩ ctx exclude b.groups stays comes tx u := by
    have hguard : Meets step (fun _ v => Steady exclude stays comes tx v) t during :=
      meets_of_always (fun _ _ _ hv _ _ => hv) during h hsteady
    exact always_last (always_of_meets (fun a v w hv hg hstep => step_covering a v w hv hg hstep)
      during hguard (broadcast_covering (run_numbered hs) hsequential hb hargs tx)) h
  have hcomes : Always step (Steady exclude (fun _ => false) (fun group =>
      ¬ Always step (fun v => idOf tx ∉ v.store.members group) t during) tx) t during := by
    refine always_mono (fun v hv => ⟨fun _ hnot => absurd hnot Bool.false_ne_true, hv⟩)
      (always_forall fun group => always_forall fun hnot => ?_)
    simpa using hnot
  have hover : u.underWay caller s.calls = none := underWay_eq_none hdone
  have hcover := hall hcomes
  refine ⟨hcover.value, ?_, fun hctx hthere => ?_⟩
  · have hupper := hcover.upper
    rwa [hover] at hupper
  · have hstays : Always step (fun v => ∀ group,
        decide (Always step (fun v => idOf tx ∈ v.store.members group) t during) = true →
          idOf tx ∈ v.store.members group) t during :=
      always_forall fun group => always_forall fun hin => of_decide_eq_true hin
    have hsteady : Always step (Steady exclude (fun group =>
        Always step (fun v => idOf tx ∈ v.store.members group) t during) (fun _ => true) tx) t
        during :=
      always_mono (fun v hv => ⟨fun group hin => ⟨hv.2 group hin, hv.1⟩,
        fun _ hnot => absurd hnot.symm Bool.false_ne_true⟩) (always_and hthere hstays)
    have hlower := (hall hsteady).lower hctx
    rwa [hover] at hlower

theorem run_calls_le {actions : List Action} (h : run step s actions = some t) : s.calls ≤ t.calls :=
  run_invariant (P := fun v => s.calls ≤ v.calls)
    (fun _ _ _ hle hstep => Nat.le_trans hle (step_calls hstep).1) actions h (Nat.le_refl _)

/-- **Whoever stays gets it, whoever is not there does not.** A broadcast that is over, whatever
went on meanwhile, has given a connection its message and nothing else; a copy at most for each
group of its list in which the connection was at some time, and, where it had the runtime for what
it found blocked and the connection was registered and open all the while, a copy at least for
each group in which the connection was all the while. -/
theorem broadcast_covers (before during : List Action) (s t u : Server) (caller : Nat) (ctx : Context)
    (b : Broadcast) (message : Message) (exclude : Option ConnectionID)
    (hs : run step init before = some s) (hb : step (.broadcast caller ctx b) s = some t)
    (hargs : b.args s.handle = .ok (message, exclude)) (h : run step t during = some u)
    (hdone : ∀ l, u.loop caller = some l → l.request.call ≠ s.calls) (tx : Sender) :
    (∀ c ∈ (u.outgoing.link tx).accepted, c.value.call = s.calls → c.value.message = message) ∧
    u.copiesOf s.calls tx ≤ b.groups.countP (fun group =>
      ¬ Always step (fun v => idOf tx ∉ v.store.members group) t during) ∧
    (ctx.hasRuntime = true →
      Always step (fun v => Sendable v.store exclude tx ∧ v.Open tx) t during →
      b.groups.countP (fun group =>
        Always step (fun v => idOf tx ∈ v.store.members group) t during) ≤ u.copiesOf s.calls tx) := by
  obtain ⟨hvalue, hupper, hlower⟩ := covers hs hb hargs h hdone tx
  exact ⟨fun c hc hcall => congrArg Request.message (hvalue c hc hcall), hupper, hlower⟩

/-- Two connections, one of them in the room. -/
def twoConnections : List Action :=
  [.registry .register, .establish 0, .registry .register, .establish 1, .registry (.join 1 "room")]

/-- The other one joins while the broadcast goes through the room, and is not found. -/
def joinsMeanwhile : List Action :=
  [.enterGroup 7, .registry (.join 2 "room"), .visit 7 1, .leaveGroup 7, .finish 7]

theorem broadcast_covers_room :
    ∃ s t u, run step init twoConnections = some s ∧
      step (.broadcast 7 .worker (.dispatch ["room"] "hi")) s = some t ∧
      run step t joinsMeanwhile = some u ∧ u.copiesOf s.calls 0 = 1 ∧ u.copiesOf s.calls 1 ≤ 1 := by
  refine ⟨_, _, _, rfl, rfl, rfl, ?_, ?_⟩
  · have hcovers := broadcast_covers twoConnections joinsMeanwhile _ _ _ 7 .worker
      (.dispatch ["room"] "hi") (.text "hi") none rfl rfl rfl rfl (fun _ hl => nomatch hl) 0
    exact Nat.le_antisymm hcovers.2.1 (hcovers.2.2 rfl (by decide))
  · exact (broadcast_covers twoConnections joinsMeanwhile _ _ _ 7 .worker
      (.dispatch ["room"] "hi") (.text "hi") none rfl rfl rfl rfl (fun _ hl => nomatch hl) 1).2.1

end Webrockets.Server

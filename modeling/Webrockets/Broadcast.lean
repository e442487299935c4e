import Webrockets.Server
import Mathlib.Data.List.Nodup

/-! Whom a broadcast comes to, and how often.

`broadcast` calls `try_send` once for every listed group and every member of it
with a sender that is not excluded. So a connection gets a copy exactly if it is
such a member of some listed group and its receiver is there
(`broadcast_addressed`), and it gets one for every position of the list under
which it is a member: more than one when groups overlap or repeat
(`broadcast_once`). `broadcast_run` makes the function one schedule of the
machine's steps. -/
namespace Webrockets
open Transition Registry

/-! ### The two loops as one -/

/-- One `try_send` of a broadcast. -/
def tryAt (r : Request) (s : Outgoing × List Sender) (tx : Sender) : Outgoing × List Sender :=
  match s.1.put tx r with
  | .ok o => (o, s.2)
  | .error .full => (s.1, s.2 ++ [tx])
  | .error .closed => s

theorem visit_eq (store : ChannelStore) (exclude : Option ConnectionID) (r : Request)
    (id : ConnectionID) (s : Outgoing × List Sender) :
    store.visit exclude r id s = ((store.recipient exclude id).elim s (tryAt r s)) := by
  simp only [ChannelStore.visit]
  cases store.recipient exclude id <;> rfl

/-- The inner loop tries those of the members that can be sent to. -/
theorem visits_eq (store : ChannelStore) (exclude : Option ConnectionID) (r : Request)
    (ids : List ConnectionID) (s : Outgoing × List Sender) :
    ids.foldl (fun s id => store.visit exclude r id s) s =
      (ids.filterMap (store.recipient exclude)).foldl (tryAt r) s := by
  rw [List.foldl_filterMap]
  congr 1
  funext s id
  rw [visit_eq]
  cases store.recipient exclude id <;> rfl

theorem broadcast_eq (store : ChannelStore) (ctx : Context) (groups : List String) (r : Request)
    (exclude : Option ConnectionID) (o : Outgoing) :
    store.broadcast ctx groups r exclude o =
      spawnBlocked ctx r ((store.recipients groups exclude).foldl (tryAt r) (o, [])) := by
  apply congrArg (spawnBlocked ctx r)
  rw [ChannelStore.recipients, List.foldl_flatMap]
  congr 1
  funext s group
  simp only [ChannelStore.members]
  cases store.groups.get? group with
  | none => rfl
  | some members => exact visits_eq store exclude r members.elems s

/-! ### What the loop leaves behind -/

/-- The state of a broadcast that began at `o` and has tried `txs`: every channel
that is open was given a copy, or noted as blocked, each time it was tried. -/
structure Tried (r : Request) (o : Outgoing) (txs : List Sender) (s : Outgoing × List Sender) : Prop where
  pending : s.1.pending = o.pending
  share : ∀ tx, ∃ queued : List (Outbox.Copy Request), (∀ c ∈ queued, c.value = r) ∧
    (s.1.link tx).queue.queue = (o.link tx).queue.queue ++ queued ∧
    queued.length + s.2.count tx = if (o.link tx).queue.closed then 0 else txs.count tx
  closed : ∀ tx, (s.1.link tx).queue.closed = (o.link tx).queue.closed
  full : ∀ tx ∈ s.2, (s.1.link tx).queue.permits = 0

theorem tried_nil (r : Request) (o : Outgoing) : Tried r o [] (o, []) := by
  refine ⟨rfl, fun tx => ⟨[], by simp, by simp, by simp⟩, fun _ => rfl, fun tx h => nomatch h⟩

theorem tried_tryAt {r : Request} {o : Outgoing} {txs : List Sender} {s : Outgoing × List Sender}
    (h : Tried r o txs s) (tx : Sender) : Tried r o (txs ++ [tx]) (tryAt r s tx) := by
  obtain ⟨hpending, hshare, hclosed, hfull⟩ := h
  cases hput : s.1.put tx r with
  | ok o' =>
    obtain ⟨hpermits, hpending', hqueue, hclosed', hother⟩ := Outbox.put_queue hput
    have hopen : (o.link tx).queue.closed = false := by
      rw [← hclosed tx]
      exact (Outbox.put_ok hput).1
    simp only [tryAt, hput]
    refine ⟨hpending'.trans hpending, fun j => ?_, fun j => (hclosed' j).trans (hclosed j), fun j hj => ?_⟩
    · obtain ⟨queued, hvalue, hq, hcount⟩ := hshare j
      by_cases hj : j = tx
      · subst hj
        refine ⟨queued ++ [⟨s.1.serials, r⟩], ?_, ?_, ?_⟩
        · intro c hc
          rcases List.mem_append.mp hc with hc | hc
          · exact hvalue c hc
          · rw [List.mem_singleton.mp hc]
        · rw [hqueue, hq, List.append_assoc]
        · rw [hopen] at hcount ⊢
          simp only [List.length_append, List.length_singleton, List.count_append, List.count_singleton_self]
          simp only [Bool.false_eq_true, if_false] at hcount ⊢
          omega
      · refine ⟨queued, hvalue, ?_, ?_⟩
        · rw [hother j hj, hq]
        · rw [hcount, List.count_append, List.count_singleton]
          simp [Ne.symm hj]
    · have hne : j ≠ tx := by
        intro he
        subst he
        have := hfull j hj
        omega
      rw [hother j hne]
      exact hfull j hj
  | error e =>
    cases e with
    | full =>
      obtain ⟨hopen, hpermits⟩ := Outbox.put_full.mp hput
      rw [hclosed tx] at hopen
      simp only [tryAt, hput]
      refine ⟨hpending, fun j => ?_, hclosed, fun j hj => ?_⟩
      · obtain ⟨queued, hvalue, hq, hcount⟩ := hshare j
        refine ⟨queued, hvalue, hq, ?_⟩
        by_cases hj : j = tx
        · subst hj
          rw [hopen] at hcount ⊢
          simp only [List.count_append, List.count_singleton_self]
          simp only [Bool.false_eq_true, if_false] at hcount ⊢
          omega
        · rw [List.count_append, List.count_append, List.count_singleton]
          simpa [Ne.symm hj] using hcount
      · rcases List.mem_append.mp hj with hj | hj
        · exact hfull j hj
        · rw [List.mem_singleton.mp hj]
          exact hpermits
    | closed =>
      have hc := Outbox.put_closed.mp hput
      rw [hclosed tx] at hc
      simp only [tryAt, hput]
      refine ⟨hpending, fun j => ?_, hclosed, hfull⟩
      obtain ⟨queued, hvalue, hq, hcount⟩ := hshare j
      refine ⟨queued, hvalue, hq, ?_⟩
      by_cases hj : j = tx
      · subst hj
        rw [hc] at hcount ⊢
        exact hcount
      · rw [hcount, List.count_append, List.count_singleton]
        simp [Ne.symm hj]

theorem tried_foldl {r : Request} {o : Outgoing} (rest : List Sender) {txs : List Sender}
    {s : Outgoing × List Sender} (h : Tried r o txs s) :
    Tried r o (txs ++ rest) (rest.foldl (tryAt r) s) := by
  induction rest generalizing txs s with
  | nil => simpa using h
  | cons tx rest ih =>
    rw [List.foldl_cons, List.append_cons]
    exact ih (tried_tryAt h tx)

/-- The copies a broadcast gives to a connection: some go into its queue, the rest
to the deferred task, and then its queue is full. -/
structure Share (r : Request) (o o' : Outgoing) (tx : Sender) (n : Nat)
    (queued deferred : List (Outbox.Copy Request)) : Prop where
  value : ∀ c ∈ queued ++ deferred, c.value = r
  queue : (o'.link tx).queue.queue = (o.link tx).queue.queue ++ queued
  pending : o'.pending tx = o.pending tx ++ deferred
  full : deferred ≠ [] → (o'.link tx).queue.permits = 0
  count : queued.length + deferred.length = n

theorem spawnBlocked_share {ctx : Context} {r : Request} {txs : List Sender} {o o' : Outgoing}
    (h : spawnBlocked ctx r (txs.foldl (tryAt r) (o, [])) = (.returned, o')) (tx : Sender) :
    ∃ queued deferred, Share r o o' tx (if (o.link tx).queue.closed then 0 else txs.count tx)
      queued deferred := by
  have htried := tried_foldl txs (tried_nil r o)
  rw [List.nil_append] at htried
  generalize txs.foldl (tryAt r) (o, []) = s at h htried
  obtain ⟨hpending, hshare, _, hfull⟩ := htried
  obtain ⟨queued, hvalue, hqueue, hcount⟩ := hshare tx
  simp only [spawnBlocked] at h
  split at h
  · next hnone =>
    cases h
    rw [List.isEmpty_iff.mp hnone, List.count_nil] at hcount
    refine ⟨queued, [], ?_, hqueue, ?_, fun hd => absurd rfl hd, hcount⟩
    · rwa [List.append_nil]
    · rw [hpending, List.append_nil]
  · split at h
    · cases h
      obtain ⟨hr, _, _⟩ := Outbox.copies_numbered s.1 r s.2 tx
      refine ⟨queued, Outbox.on tx (s.1.copies r s.2), ?_, hqueue, ?_, ?_, ?_⟩
      · intro c hc
        rcases List.mem_append.mp hc with hc | hc
        · exact hvalue c hc
        · exact hr c hc
      · rw [← hpending]
        exact congrArg Outbox.Account.pending (Outbox.defer_account s.1 false r s.2 tx)
      · intro hd
        apply hfull tx
        apply List.count_pos_iff.mp
        rw [← Outbox.length_on_copies s.1 r s.2 tx]
        exact List.length_pos_iff.mpr hd
      · rw [Outbox.length_on_copies]
        exact hcount
    · cases h

theorem broadcast_share {store : ChannelStore} {ctx : Context} {groups : List String} {r : Request}
    {exclude : Option ConnectionID} {o o' : Outgoing}
    (h : store.broadcast ctx groups r exclude o = (.returned, o')) (tx : Sender) :
    ∃ queued deferred, Share r o o' tx
      (if (o.link tx).queue.closed then 0 else (store.recipients groups exclude).count tx)
      queued deferred := by
  rw [broadcast_eq] at h
  exact spawnBlocked_share h tx

/-! ### How often a connection is listed -/

/-- The connection can be sent to: it is registered, under its own id, and not excluded. -/
def Sendable (store : ChannelStore) (exclude : Option ConnectionID) (tx : Sender) : Prop :=
  store.senders.get? (idOf tx) = some tx ∧ exclude ≠ some (idOf tx)

instance (store : ChannelStore) (exclude : Option ConnectionID) (tx : Sender) :
    Decidable (Sendable store exclude tx) := inferInstanceAs (Decidable (_ ∧ _))

/-- The id and the sender determine each other. -/
theorem recipient_eq_some {s : Registry.State} (hs : Numbered s) {exclude : Option ConnectionID}
    {id : ConnectionID} {tx : Sender} :
    s.store.recipient exclude id = some tx ↔ id = idOf tx ∧ Sendable s.store exclude tx := by
  simp only [ChannelStore.recipient, Sendable]
  split
  · next he =>
    simp only [reduceCtorEq, false_iff]
    intro h
    exact h.2.2 (h.1 ▸ he)
  · next he =>
    refine ⟨fun hg => ?_, fun h => h.1 ▸ h.2.1⟩
    have hid := (hs.sender id tx hg).2
    subst hid
    exact ⟨rfl, hg, he⟩

theorem count_group {s : Registry.State} (hs : Numbered s) (exclude : Option ConnectionID)
    (group : String) (tx : Sender) :
    ((s.store.members group).elems.filterMap (s.store.recipient exclude)).count tx =
      if Sendable s.store exclude tx ∧ idOf tx ∈ s.store.members group then 1 else 0 := by
  have hnodup : ((s.store.members group).elems.filterMap (s.store.recipient exclude)).Nodup := by
    apply (s.store.members group).nodup.filterMap
    intro a b c ha hb
    rw [(recipient_eq_some hs).mp ha |>.1, (recipient_eq_some hs).mp hb |>.1]
  have hmem : tx ∈ (s.store.members group).elems.filterMap (s.store.recipient exclude) ↔
      Sendable s.store exclude tx ∧ idOf tx ∈ s.store.members group := by
    rw [List.mem_filterMap]
    refine ⟨fun h => ?_, fun h => ⟨idOf tx, h.2, (recipient_eq_some hs).mpr ⟨rfl, h.1⟩⟩⟩
    obtain ⟨id, hid, hr⟩ := h
    obtain ⟨rfl, hsend⟩ := (recipient_eq_some hs).mp hr
    exact ⟨hsend, hid⟩
  rw [hnodup.count]
  simp only [hmem]

/-- A broadcast tries a connection once for every position of the list at which it is a member. -/
theorem count_recipients {s : Registry.State} (hs : Numbered s) (exclude : Option ConnectionID)
    (groups : List String) (tx : Sender) :
    (s.store.recipients groups exclude).count tx =
      if Sendable s.store exclude tx then groups.countP fun g => idOf tx ∈ s.store.members g else 0 := by
  induction groups with
  | nil =>
    simp [ChannelStore.recipients]
  | cons group rest ih =>
    simp only [ChannelStore.recipients, List.flatMap_cons, List.count_append] at ih ⊢
    rw [ih, count_group hs, List.countP_cons]
    by_cases hsend : Sendable s.store exclude tx
    · simp only [hsend, true_and, if_true, decide_eq_true_eq]
      exact Nat.add_comm _ _
    · simp only [hsend, false_and, if_false]

/-! ### Whom a broadcast comes to -/

namespace Server

/-- A call of the store's `broadcast` with nothing running in between. -/
def storeBroadcast (s : Server) (ctx : Context) (groups : List String) (r : Request)
    (exclude : Option ConnectionID) : Outcome × Server :=
  let (outcome, outgoing) := s.store.broadcast ctx groups r exclude s.outgoing
  (outcome, { s with outgoing := outgoing })

/-- The state in which the caller's broadcast has come to `l` and the queues to `o`. -/
def inLoop (s : Server) (caller : Nat) (l : Loop) (o : Outgoing) : Server :=
  { s with outgoing := o, loop := set s.loop caller (some l) }

theorem step_enterGroup (s : Server) (caller : Nat) (l : Loop) (o : Outgoing) (group : String)
    (groups : List String) :
    step (.enterGroup caller) (s.inLoop caller { l with groups := group :: groups, inside := none } o) =
      some (s.inLoop caller { l with
        groups := groups
        inside := (s.store.groups.get? group).map fun members => ⟨group, members.elems, []⟩ } o) := by
  simp only [step, inLoop, set_self, set_set]
  rfl

/-- The visits of one inner loop. -/
theorem run_visits (s : Server) (caller : Nat) (l : Loop) (group : String) (ids visited : List ConnectionID)
    (o : Outgoing) (hmem : ∀ id ∈ ids, id ∈ s.store.members group) (hnodup : ids.Nodup)
    (hfresh : ∀ id ∈ ids, id ∉ visited) :
    ∃ visited', run step (s.inLoop caller { l with inside := some ⟨group, ids, visited⟩ } o)
        (ids.map (.visit caller)) =
      some (s.inLoop caller { l with
        inside := some ⟨group, [], visited'⟩
        blocked := (ids.foldl (fun p id => s.store.visit l.exclude l.request id p) (o, l.blocked)).2 }
        (ids.foldl (fun p id => s.store.visit l.exclude l.request id p) (o, l.blocked)).1) := by
  induction ids generalizing l visited o with
  | nil => exact ⟨visited, rfl⟩
  | cons id rest ih =>
    obtain ⟨hid, hrest⟩ := List.nodup_cons.mp hnodup
    have hfilter : (id :: rest).filter (fun j => decide (j ≠ id)) = rest := by
      rw [List.filter_cons_of_neg (by simp), List.filter_eq_self]
      intro j hj
      have hne : j ≠ id := fun he => hid (he ▸ hj)
      simpa using hne
    have hstep : step (.visit caller id)
        (s.inLoop caller { l with inside := some ⟨group, id :: rest, visited⟩ } o) =
        some (s.inLoop caller { l with
          inside := some ⟨group, rest, id :: visited⟩
          blocked := (s.store.visit l.exclude l.request id (o, l.blocked)).2 }
          (s.store.visit l.exclude l.request id (o, l.blocked)).1) := by
      have hg : id ∈ s.store.members group ∧ id ∉ visited :=
        ⟨hmem id List.mem_cons_self, hfresh id List.mem_cons_self⟩
      simp only [step, inLoop, set_self, set_set, hfilter]
      exact if_pos hg
    obtain ⟨visited', hrun⟩ := ih
      { l with blocked := (s.store.visit l.exclude l.request id (o, l.blocked)).2 }
      (id :: visited) (s.store.visit l.exclude l.request id (o, l.blocked)).1
      (fun j hj => hmem j (List.mem_cons_of_mem _ hj)) hrest (fun j hj => by
        rw [List.mem_cons, not_or]
        exact ⟨fun he => hid (he ▸ hj), hfresh j (List.mem_cons_of_mem _ hj)⟩)
    exact ⟨visited', run_cons.mpr ⟨_, hstep, hrun⟩⟩

theorem step_leaveGroup (s : Server) (caller : Nat) (l : Loop) (o : Outgoing) (group : String)
    (visited : List ConnectionID) :
    step (.leaveGroup caller) (s.inLoop caller { l with inside := some ⟨group, [], visited⟩ } o) =
      some (s.inLoop caller { l with inside := none } o) := by
  simp only [step, inLoop, set_self, set_set]
  rfl

/-- The turns of the outer loop. -/
theorem run_groups (s : Server) (caller : Nat) (l : Loop) (groups : List String) (o : Outgoing) :
    ∃ actions, run step (s.inLoop caller { l with groups := groups, inside := none } o) actions =
      some (s.inLoop caller { l with
        groups := []
        inside := none
        blocked := ((s.store.recipients groups l.exclude).foldl (tryAt l.request) (o, l.blocked)).2 }
        ((s.store.recipients groups l.exclude).foldl (tryAt l.request) (o, l.blocked)).1) := by
  induction groups generalizing l o with
  | nil => exact ⟨[], rfl⟩
  | cons group rest ih =>
    have henter := step_enterGroup s caller l o group rest
    simp only [ChannelStore.recipients, List.flatMap_cons, List.foldl_append, ChannelStore.members] at ih ⊢
    cases hg : s.store.groups.get? group with
    | none =>
      rw [hg] at henter
      obtain ⟨actions, hrun⟩ := ih l o
      exact ⟨.enterGroup caller :: actions, run_cons.mpr ⟨_, henter, hrun⟩⟩
    | some members =>
      simp only [hg, Option.map_some] at henter
      have hmem : ∀ id ∈ members.elems, id ∈ s.store.members group := by
        intro id hid
        rw [ChannelStore.members, hg]
        exact hid
      obtain ⟨visited, hvisits⟩ := run_visits s caller { l with groups := rest } group members.elems []
        o hmem members.nodup fun id _ => List.not_mem_nil
      rw [visits_eq] at hvisits
      generalize hp : (members.elems.filterMap (s.store.recipient l.exclude)).foldl (tryAt l.request)
        (o, l.blocked) = p
      simp only [Option.getD_some, hp] at hvisits ⊢
      have hleave := step_leaveGroup s caller { l with groups := rest, blocked := p.2 } p.1 group visited
      obtain ⟨actions, hrun⟩ := ih { l with blocked := p.2 } p.1
      exact ⟨.enterGroup caller :: (members.elems.map (.visit caller) ++ (.leaveGroup caller :: actions)),
        run_cons.mpr ⟨_, henter, run_join hvisits (run_cons.mpr ⟨_, hleave, hrun⟩)⟩⟩

/-- **The function is a schedule of the machine.** For a caller that is not in a
broadcast, the machine has a run that does what `broadcast` does with nothing in
between. -/
theorem broadcast_run (s : Server) (caller : Nat) (ctx : Context) (b : Broadcast) (message : Message)
    (exclude : Option ConnectionID) (hl : s.loop caller = none)
    (hargs : b.args s.handle = .ok (message, exclude)) :
    ∃ actions, run step s (.broadcast caller ctx b :: actions) =
      some { (s.storeBroadcast ctx b.groups ⟨s.calls, caller, false, message⟩ exclude).2 with
        calls := s.calls + 1 } := by
  let l : Loop := ⟨⟨s.calls, caller, false, message⟩, ctx, exclude, b.groups, none, []⟩
  have hbegin : step (.broadcast caller ctx b) s =
      some ({ s with calls := s.calls + 1 }.inLoop caller l s.outgoing) := by
    simp only [step, hl, hargs, if_true]
    rfl
  obtain ⟨actions, hrun⟩ := run_groups { s with calls := s.calls + 1 } caller l b.groups s.outgoing
  refine ⟨actions ++ [.finish caller], run_cons.mpr ⟨_, hbegin, run_join hrun (run_cons.mpr ⟨_, ?_, rfl⟩)⟩⟩
  simp only [storeBroadcast, broadcast_eq, step, inLoop, set_self, set_set, set_eq hl]
  rfl

/-- Whom a broadcast is for. -/
structure Addressed (s : Server) (groups : List String) (exclude : Option ConnectionID)
    (tx : Sender) : Prop where
  member : ∃ group ∈ groups, idOf tx ∈ s.store.members group
  registered : s.store.senders.get? (idOf tx) = some tx
  opened : (s.outgoing.link tx).queue.closed = false
  others : exclude ≠ some (idOf tx)

theorem storeBroadcast_share {s t : Server} (hs : Numbered s.registry) {ctx : Context}
    {groups : List String} {r : Request} {exclude : Option ConnectionID}
    (h : s.storeBroadcast ctx groups r exclude = (.returned, t)) (tx : Sender) :
    t.store = s.store ∧ ∃ queued deferred, Share r s.outgoing t.outgoing tx
      (if (s.outgoing.link tx).queue.closed = false ∧ Sendable s.store exclude tx then
        groups.countP fun g => idOf tx ∈ s.store.members g else 0) queued deferred := by
  cases hb : s.store.broadcast ctx groups r exclude s.outgoing with
  | mk outcome outgoing =>
    simp only [storeBroadcast, hb, Prod.mk.injEq] at h
    obtain ⟨rfl, rfl⟩ := h
    refine ⟨rfl, ?_⟩
    obtain ⟨queued, deferred, hshare⟩ := broadcast_share hb tx
    refine ⟨queued, deferred, ?_⟩
    rw [show s.store = s.registry.store from rfl, count_recipients hs] at hshare
    have hn : ∀ n : Nat, (if (s.outgoing.link tx).queue.closed then 0
        else if Sendable s.store exclude tx then n else 0) =
        if (s.outgoing.link tx).queue.closed = false ∧ Sendable s.store exclude tx then n else 0 := by
      intro n
      cases (s.outgoing.link tx).queue.closed <;> simp
    rw [← hn]
    exact hshare

/-- **A broadcast comes to exactly the connections it is for.** In every reachable
state, when the store's `broadcast` has returned, a connection has gained a copy,
in its queue or, when that is full, with the deferred task, exactly if it is a
member of a listed group, registered, open and not excluded. Otherwise its queue
and what is pending for it are as before, and so is the store. -/
theorem broadcast_addressed (actions : List Action) (s t : Server)
    (hs : run step init actions = some s) (ctx : Context) (groups : List String) (r : Request)
    (exclude : Option ConnectionID) (h : s.storeBroadcast ctx groups r exclude = (.returned, t)) :
    t.store = s.store ∧ ∀ tx, ∃ queued deferred,
      (t.outgoing.link tx).queue.queue = (s.outgoing.link tx).queue.queue ++ queued ∧
      t.outgoing.pending tx = s.outgoing.pending tx ++ deferred ∧
      (∀ c ∈ queued ++ deferred, c.value = r) ∧
      (deferred ≠ [] → (t.outgoing.link tx).queue.permits = 0) ∧
      (queued ++ deferred ≠ [] ↔ s.Addressed groups exclude tx) := by
  refine ⟨(storeBroadcast_share (run_numbered hs) h 0).1, fun tx => ?_⟩
  obtain ⟨queued, deferred, hshare⟩ := (storeBroadcast_share (run_numbered hs) h tx).2
  refine ⟨queued, deferred, hshare.queue, hshare.pending, hshare.value, hshare.full, ?_⟩
  rw [← List.length_pos_iff, List.length_append, hshare.count]
  split
  · next hg =>
    rw [List.countP_pos_iff]
    refine ⟨fun hm => ⟨?_, hg.2.1, hg.1, hg.2.2⟩, fun ha => ?_⟩
    · simpa using hm
    · simpa using ha.member
  · next hg =>
    refine ⟨fun hlt => absurd hlt (Nat.lt_irrefl 0), fun ha => ?_⟩
    exact absurd ⟨ha.opened, ha.registered, ha.others⟩ hg

/-- Two members and a stranger: the broadcast comes to the member it does not exclude. -/
theorem broadcast_addressed_chat :
    ∃ s t, run step init [.registry .register, .registry .register, .registry .register,
        .registry (.join 1 "chat"), .registry (.join 2 "chat")] = some s ∧
      s.storeBroadcast .worker ["chat"] ⟨0, 0, false, .text "hi"⟩ (some 1) = (.returned, t) ∧
      t.store = s.store ∧ (t.outgoing.link 0).queue.queue = [] ∧
      (t.outgoing.link 1).queue.queue.length = 1 ∧ (t.outgoing.link 2).queue.queue = [] := by
  let s := (run step init [.registry .register, .registry .register, .registry .register,
    .registry (.join 1 "chat"), .registry (.join 2 "chat")]).get (by decide)
  have hrun : run step init _ = some s := (Option.some_get _).symm
  have hb : s.storeBroadcast .worker ["chat"] ⟨0, 0, false, .text "hi"⟩ (some 1) = (.returned, _) :=
    Prod.ext (by decide) rfl
  exact ⟨s, _, hrun, hb, (broadcast_addressed _ s _ hrun _ _ _ _ hb).1, by decide, by decide, by decide⟩

/-! ### How often it comes -/

/-- How many copies came to a connection, in its queue or with a task. -/
def gained (s t : Server) (tx : Sender) : Nat :=
  ((t.outgoing.link tx).queue.queue.length + (t.outgoing.pending tx).length) -
    ((s.outgoing.link tx).queue.queue.length + (s.outgoing.pending tx).length)

/-- **One copy each, exactly if nobody is listed twice.** A broadcast gives each
connection at most one copy if and only if no connection it can send to is a
member at two positions of the list of groups. The code does not remember whom it
has sent to. -/
theorem broadcast_once (actions : List Action) (s t : Server)
    (hs : run step init actions = some s) (ctx : Context) (groups : List String) (r : Request)
    (exclude : Option ConnectionID) (h : s.storeBroadcast ctx groups r exclude = (.returned, t)) :
    (∀ tx, s.gained t tx ≤ 1) ↔
      ∀ tx, (s.outgoing.link tx).queue.closed = false → Sendable s.store exclude tx →
        (groups.countP fun g => idOf tx ∈ s.store.members g) ≤ 1 := by
  have hgained : ∀ tx, s.gained t tx =
      if (s.outgoing.link tx).queue.closed = false ∧ Sendable s.store exclude tx then
        groups.countP fun g => idOf tx ∈ s.store.members g else 0 := by
    intro tx
    obtain ⟨queued, deferred, hshare⟩ := (storeBroadcast_share (run_numbered hs) h tx).2
    rw [← hshare.count]
    simp only [gained, hshare.queue, hshare.pending, List.length_append]
    omega
  apply forall_congr'
  intro tx
  rw [hgained]
  split
  · next hg => exact ⟨fun hle _ _ => hle, fun hle => hle hg.1 hg.2⟩
  · next hg => exact ⟨fun _ ho hsend => absurd ⟨ho, hsend⟩ hg, fun _ => Nat.zero_le 1⟩

/-- Nobody is a member of both groups. -/
theorem broadcast_once_chat :
    ∃ s t, run step init [.registry .register, .registry (.join 1 "chat")] = some s ∧
      s.storeBroadcast .worker ["chat", "news"] ⟨0, 0, false, .text "hi"⟩ none = (.returned, t) ∧
      ∀ tx, s.gained t tx ≤ 1 := by
  let s := (run step init [.registry .register, .registry (.join 1 "chat")]).get (by decide)
  have hrun : run step init _ = some s := (Option.some_get _).symm
  have hb : s.storeBroadcast .worker ["chat", "news"] ⟨0, 0, false, .text "hi"⟩ none = (.returned, _) :=
    Prod.ext (by decide) rfl
  refine ⟨s, _, hrun, hb, (broadcast_once _ s _ hrun _ _ _ _ hb).mpr ?_⟩
  intro tx _ _
  have hnews : ¬ idOf tx ∈ s.store.members "news" := List.not_mem_nil
  rw [List.countP_cons, List.countP_cons_of_neg (by simpa using hnews), List.countP_nil]
  split <;> decide

/-- A member of both listed groups gets the message twice. -/
theorem broadcast_twice :
    ∃ s t, run step init [.registry .register, .registry (.join 1 "a"), .registry (.join 1 "b")] = some s ∧
      s.storeBroadcast .worker ["a", "b"] ⟨0, 0, false, .text "hi"⟩ none = (.returned, t) ∧
      s.gained t 0 = 2 := by
  let s := (run step init [.registry .register, .registry (.join 1 "a"),
    .registry (.join 1 "b")]).get (by decide)
  have hrun : run step init _ = some s := (Option.some_get _).symm
  have hb : s.storeBroadcast .worker ["a", "b"] ⟨0, 0, false, .text "hi"⟩ none = (.returned, _) :=
    Prod.ext (by decide) rfl
  exact ⟨s, _, hrun, hb, by decide⟩

end Server

end Webrockets

import Webrockets.Order

/-! Who waits for whom in the deferred sends of a broadcast.

A broadcast tries every queue and goes on, but what finds no room is left to one task,
which sends to one connection after the other. `enters_at_head` says when a copy with a
place in its queue can take it: exactly when its task has come to it. -/
namespace Webrockets.Server
open Transition Outbox

/-- Some step puts the copy into the queue of its connection. -/
def Enters (s : Server) (tx : Sender) (c : Copy Request) : Prop :=
  ∃ a t, step a s = some t ∧ c ∈ (t.outgoing.link tx).queue.queue

variable {s t : Server} {tx : Sender} {c : Copy Request}

theorem enters_of_head (hopen : (s.outgoing.link tx).queue.closed = false)
    (hhead : AtHead s.outgoing tx c) (hplaced : Placed s.outgoing tx c) : Enters s tx c := by
  obtain ⟨i, o, hpoll, hqueue⟩ := poll_enters hopen hhead hplaced
  refine ⟨.poll i, { s with outgoing := o }, ?_, ?_⟩
  · simp only [step, hpoll, Option.map_some]
  · show c ∈ (o.link tx).queue.queue
    rw [hqueue]
    exact List.mem_append_right _ List.mem_cons_self

/-- **Only the task can put a copy into the queue**, when it has come to it and there is a
place. -/
theorem enters_iff (hd : Delivered s) (hpending : c ∈ s.outgoing.pending tx)
    (hopen : (s.outgoing.link tx).queue.closed = false) :
    Enters s tx c ↔ AtHead s.outgoing tx c ∧ Placed s.outgoing tx c := by
  refine ⟨fun ⟨a, t, hstep, hmem⟩ => ?_, fun h => enters_of_head hopen h.1 h.2⟩
  have hledger := hd.ledger tx
  have hnot : c ∉ (s.outgoing.link tx).queue.queue := by
    intro hqueue
    refine hledger.pending_not_entered hpending (hledger.taken.subset ?_)
    exact List.mem_append_right _ hqueue
  have hold : c.serial < s.outgoing.serials := hledger.fresh c (hledger.pending_accepted hpending)
  rcases step_event hstep with ho | ⟨e, he, _⟩
  · rw [ho] at hmem
    exact absurd hmem hnot
  · exact step_entered he hold hnot hmem

/-! ### Tasks of one send -/

/-- Every task has one send to do at most. -/
def Single (o : Outgoing) : Prop := ∀ task ∈ o.tasks, task.sends.length ≤ 1

/-- No broadcast leaves more than one connection to its task. -/
def LeavesOne (a : Action) (s : Server) : Prop :=
  ∀ caller l, a = .finish caller → s.loop caller = some l → l.blocked.length ≤ 1

/-- No copy with a place in its queue is held back by another connection. -/
def NotHeldBack (s : Server) : Prop :=
  ∀ tx c, c ∈ s.outgoing.pending tx → (s.outgoing.link tx).queue.closed = false →
    Placed s.outgoing tx c → Enters s tx c

theorem Single.notHeldBack (h : Single s.outgoing) : NotHeldBack s := by
  intro tx c hpending hopen hplaced
  obtain ⟨task, htask, hmem⟩ := mem_pending.mp hpending
  refine enters_of_head hopen ⟨task, htask, [], ?_⟩ hplaced
  have hone := h task htask
  cases hsends : task.sends with
  | nil => simp [hsends] at hmem
  | cons e rest =>
    rw [hsends, List.length_cons] at hone
    obtain rfl : rest = [] := List.length_eq_zero_iff.mp (by omega)
    rw [hsends] at hmem
    rw [List.mem_singleton.mp hmem]

theorem Single.of_eq {o o' : Outgoing} (h : Single o) (ht : o'.tasks = o.tasks) : Single o' :=
  fun task htask => h task (ht ▸ htask)

theorem Single.defer {o : Outgoing} (h : Single o) (future : Bool) (r : Request) {txs : List Sender}
    (htxs : txs.length ≤ 1) : Single (o.defer future r txs) := by
  intro task htask
  rcases List.mem_append.mp htask with htask | htask
  · exact h task htask
  · rw [List.mem_singleton.mp htask]
    simpa [copies] using htxs

theorem Single.set {o : Outgoing} (h : Single o) (i : Nat) {task : Task Sender Request}
    (htask : task.sends.length ≤ 1) : ∀ task' ∈ o.tasks.set i task, task'.sends.length ≤ 1 := by
  intro task' hmem
  rcases List.mem_or_eq_of_mem_set hmem with hmem | rfl
  · exact h task' hmem
  · exact htask

theorem Single.poll {o o' : Outgoing} (h : Single o) {i : Nat} (hpoll : o.poll i = some o') :
    Single o' := by
  simp only [Outbox.poll] at hpoll
  split at hpoll
  · next k c rest future ht =>
    have hone := h _ (List.mem_of_getElem? ht)
    have hrest : rest.length ≤ 1 := by
      rw [List.length_cons] at hone
      omega
    split at hpoll <;> cases hpoll
    · exact h.set i hrest
    · exact h
    · exact h.set i hrest
  · cases hpoll

theorem Single.enqueue {o : Outgoing} (h : Single o) (ctx : Context) (tx : Sender) (r : Request) :
    Single (enqueue ctx tx r o).2 := by
  simp only [Webrockets.enqueue]
  cases hput : o.put tx r with
  | ok o' => exact h.of_eq (put_ok hput).2.1
  | error e =>
    cases e with
    | closed => exact h
    | full =>
      dsimp only
      split
      · split
        · exact h.defer true r (Nat.le_refl 1)
        · exact h
      · split
        · exact h.defer false r (Nat.le_refl 1)
        · exact h

theorem Single.invoke {o : Outgoing} (h : Single o) (conn : Connection) (call : Call)
    (m : Connection.Method) : Single (conn.invoke call m o).2 := by
  cases m with
  | send msg | asend msg =>
    simp only [Connection.invoke, Connection.send, Connection.asend, Connection.sendVia]
    cases conn.sender with
    | none => exact h
    | some tx =>
      cases Message.tryFrom msg with
      | error e => exact h
      | ok message => exact h.enqueue _ _ _
  | close code reason | aclose code reason =>
    simp only [Connection.invoke, Connection.close, Connection.aclose, Connection.closeVia]
    cases conn.sender with
    | none => exact h
    | some tx => exact h.enqueue _ _ _

theorem step_single {a : Action} (h : Single s.outgoing) (hg : LeavesOne a s)
    (hstep : step a s = some t) : Single t.outgoing := by
  cases a with
  | call caller ctx conn m =>
    obtain ⟨_, rfl⟩ := call_some hstep
    exact h.invoke _ _ _
  | visit caller id =>
    obtain ⟨l, _, _, _, _, _, _, rfl⟩ := visit_some hstep
    rcases visit_put s.store l.exclude l.request id s.outgoing l.blocked with
      hv | ⟨tx, _, ⟨o', hput, hv⟩ | ⟨_, hv⟩⟩
    · exact h.of_eq (congrArg (fun v => v.1.tasks) hv)
    · exact h.of_eq ((congrArg (fun v => v.1.tasks) hv).trans (put_ok hput).2.1)
    · exact h.of_eq (congrArg (fun v => v.1.tasks) hv)
  | finish caller =>
    obtain ⟨l, hl, _, _, rfl⟩ := finish_some hstep
    simp only [spawnBlocked]
    split
    · exact h
    · split
      · exact h.defer false _ (hg caller l rfl hl)
      · exact h
  | poll i =>
    obtain ⟨_, hpoll, rfl⟩ := poll_some hstep
    exact h.poll hpoll
  | cancel i =>
    obtain ⟨_, hcancel, rfl⟩ := cancel_some hstep
    simp only [Outbox.cancel] at hcancel
    split at hcancel
    · cases hcancel
      exact h.set i (Nat.zero_le 1)
    · cases hcancel
  | receive tx =>
    obtain ⟨_, _, _, htake, rfl⟩ := receive_some hstep
    simp only [Outbox.take] at htake
    split at htake
    · cases htake
      exact h
    · cases htake
  | wrote tx ok =>
    obtain ⟨_, _, ⟨_, _, rfl⟩ | rfl⟩ := wrote_some hstep <;> exact h
  | abort tx =>
    obtain ⟨_, _, rfl⟩ := abort_some hstep
    exact h
  | broadcast caller ctx b =>
    obtain ⟨_, rfl | ⟨_, _, _, rfl⟩⟩ := broadcast_some hstep <;> exact h
  | registry ra =>
    obtain ⟨_, _, rfl⟩ := registry_some hstep
    exact h
  | establish tx =>
    obtain ⟨_, _, rfl⟩ := establish_some hstep
    exact h
  | spawn tx =>
    obtain ⟨_, _, rfl⟩ := spawn_some hstep
    exact h
  | enterGroup caller =>
    obtain ⟨_, _, _, _, _, _, _, rfl⟩ := enterGroup_some hstep
    exact h
  | leaveGroup caller =>
    obtain ⟨_, _, _, _, _, rfl⟩ := leaveGroup_some hstep
    exact h

/-! ### A broadcast that finds the queues full -/

/-- The inner loop comes to members without room. -/
theorem visits_blocked {r : Request} {group : String} {pairs : List (ConnectionID × Sender)}
    {visited : List ConnectionID} {blocked : List Sender}
    (hloop : s.loop 0 =
      some ⟨r, .worker, none, [], some ⟨group, pairs.map Prod.fst, visited⟩, blocked⟩)
    (hpairs : ∀ e ∈ pairs, e.1 ∈ s.store.members group ∧ s.store.recipient none e.1 = some e.2 ∧
      s.outgoing.put e.2 r = .error .full)
    (hnodup : (pairs.map Prod.fst).Nodup) (hvisited : ∀ e ∈ pairs, e.1 ∉ visited) :
    run step s (pairs.map fun e => .visit 0 e.1) = some { s with
      loop := set s.loop 0 (some ⟨r, .worker, none, [],
        some ⟨group, [], (pairs.map Prod.fst).reverse ++ visited⟩, blocked ++ pairs.map Prod.snd⟩) } := by
  induction pairs generalizing s visited blocked with
  | nil =>
    rw [List.map_nil] at hloop
    simp only [List.map_nil, List.append_nil, List.reverse_nil, List.nil_append, set_eq hloop]
    rfl
  | cons e rest ih =>
    obtain ⟨hmember, hrecipient, hput⟩ := hpairs e List.mem_cons_self
    rw [List.map_cons, List.nodup_cons] at hnodup
    have hahead : (e.1 :: rest.map Prod.fst).filter (· ≠ e.1) = rest.map Prod.fst := by
      rw [List.filter_cons_of_neg (by simp)]
      exact List.filter_eq_self.mpr fun id hid => decide_eq_true fun he => hnodup.1 (he ▸ hid)
    have hvisit : s.store.visit none r e.1 (s.outgoing, blocked) = (s.outgoing, blocked ++ [e.2]) := by
      simp only [ChannelStore.visit, hrecipient, hput]
    let t : Server := { s with
      loop := set s.loop 0 (some ⟨r, .worker, none, [],
        some ⟨group, rest.map Prod.fst, e.1 :: visited⟩, blocked ++ [e.2]⟩) }
    have hstep : step (.visit 0 e.1) s = some t := by
      rw [List.map_cons] at hloop
      simp only [step, hloop]
      rw [if_pos ⟨hmember, hvisited e List.mem_cons_self⟩, hvisit, hahead]
    have hahead' : t.loop 0 = some ⟨r, .worker, none, [],
        some ⟨group, rest.map Prod.fst, e.1 :: visited⟩, blocked ++ [e.2]⟩ := set_self s.loop 0 _
    have hrest := ih hahead' (fun d hd => hpairs d (List.mem_cons_of_mem _ hd)) hnodup.2
      fun d hd hmem => by
        rcases List.mem_cons.mp hmem with he | hmem
        · rw [← he] at hnodup
          exact hnodup.1 (List.mem_map_of_mem hd)
        · exact hvisited d (List.mem_cons_of_mem _ hd) hmem
    rw [List.map_cons]
    refine run_cons.mpr ⟨t, hstep, hrest.trans ?_⟩
    simp only [t, set_set, List.map_cons, List.reverse_cons, List.append_assoc, List.singleton_append]

/-- A broadcast comes to members whose queues are full, and leaves them to one task. -/
theorem broadcast_blocked {group : String} {members : IndexSet ConnectionID}
    {pairs : List (ConnectionID × Sender)} (hidle : s.loop 0 = none) (text : String)
    (hpairs : ∀ e ∈ pairs, s.store.recipient none e.1 = some e.2 ∧
      ∀ r, s.outgoing.put e.2 r = .error .full)
    (hgroup : s.store.groups.get? group = some members) (helems : members.elems = pairs.map Prod.fst)
    (hnonempty : pairs ≠ []) (hnodup : (pairs.map Prod.fst).Nodup) :
    let r : Request := ⟨s.calls, 0, false, .text text⟩
    ∃ u, run step s ([.broadcast 0 .worker (.dispatch [group] text), .enterGroup 0] ++
        (pairs.map fun e => .visit 0 e.1) ++ [.leaveGroup 0]) = some u ∧
      u.loop 0 = some ⟨r, .worker, none, [], none, pairs.map Prod.snd⟩ ∧
      step (.finish 0) u = some { s with
        outgoing := s.outgoing.defer false r (pairs.map Prod.snd), calls := s.calls + 1 } := by
  intro r
  let looping (l : Loop) : Server := { s with loop := set s.loop 0 (some l), calls := s.calls + 1 }
  let txs := pairs.map Prod.snd
  have hbegin : step (.broadcast 0 .worker (.dispatch [group] text)) s =
      some (looping ⟨r, .worker, none, [group], none, []⟩) := by
    simp only [step, hidle, Broadcast.args, if_true]
    rfl
  have henter : step (.enterGroup 0) (looping ⟨r, .worker, none, [group], none, []⟩) =
      some (looping ⟨r, .worker, none, [], some ⟨group, pairs.map Prod.fst, []⟩, []⟩) := by
    simp only [step, looping, set_self, set_set, store] at hgroup ⊢
    rw [hgroup, Option.map_some, helems]
  have hvisits : run step (looping ⟨r, .worker, none, [], some ⟨group, pairs.map Prod.fst, []⟩, []⟩)
      (pairs.map fun e => .visit 0 e.1) =
      some (looping ⟨r, .worker, none, [], some ⟨group, [], (pairs.map Prod.fst).reverse ++ []⟩, txs⟩) := by
    have hmember : ∀ e ∈ pairs, e.1 ∈ s.store.members group := by
      intro e he
      rw [ChannelStore.members, hgroup]
      show e.1 ∈ members.elems
      rw [helems]
      exact List.mem_map_of_mem he
    have hat : (looping ⟨r, .worker, none, [], some ⟨group, pairs.map Prod.fst, []⟩, []⟩).loop 0 =
        some ⟨r, .worker, none, [], some ⟨group, pairs.map Prod.fst, []⟩, []⟩ := set_self s.loop 0 _
    refine (visits_blocked hat
      (fun e he => ⟨hmember e he, (hpairs e he).1, (hpairs e he).2 r⟩) hnodup
      fun _ _ => List.not_mem_nil).trans ?_
    simp only [looping, set_set, List.nil_append, txs]
  have hleave (visited : List ConnectionID) :
      step (.leaveGroup 0) (looping ⟨r, .worker, none, [], some ⟨group, [], visited⟩, txs⟩) =
        some (looping ⟨r, .worker, none, [], none, txs⟩) := by
    simp only [step, looping, set_self, set_set, List.all_nil, if_true]
  have hfinish : step (.finish 0) (looping ⟨r, .worker, none, [], none, txs⟩) = some { s with
      outgoing := s.outgoing.defer false r txs, calls := s.calls + 1 } := by
    have hspawn : spawnBlocked .worker r (s.outgoing, txs) = (.returned, s.outgoing.defer false r txs) := by
      have hempty : txs.isEmpty = false := by simpa [txs] using hnonempty
      simp only [spawnBlocked, hempty]
      rfl
    simp only [step, looping, set_self, set_set, set_eq hidle, hspawn]
  exact ⟨_, run_join (run_join (run_cons.mpr ⟨_, hbegin, run_singleton henter⟩) hvisits)
    (run_singleton (hleave _)), set_self s.loop 0 _, hfinish⟩

theorem Serving.frame {caller : Nat} {queue : List (Copy Request)} {permits : Nat}
    (hs : Serving s tx caller queue permits) (hhandle : t.handle = s.handle) (hloop : t.loop = s.loop)
    (hsendTask : t.sendTask = s.sendTask)
    (hlink : (t.outgoing.link tx).queue = (s.outgoing.link tx).queue) :
    Serving t tx caller queue permits :=
  ⟨hhandle ▸ hs.sender, hloop ▸ hs.idle, hsendTask ▸ hs.listening, hlink ▸ hs.opened,
    hlink ▸ hs.queue, hlink ▸ hs.permits, hlink ▸ hs.waiting⟩

/-! ### Places -/

/-- **A copy is held back exactly until its task comes to it.** In every state that a run
reaches, for every copy that is pending for an open connection: some step puts it into the
queue if and only if it is the next one its task has to send and a place is set aside for
it or free, which there can only be if the queue is not full. In a run whose broadcasts
find at most one queue full each, no copy with a place is ever held back. -/
theorem enters_at_head (actions : List Action) :
    (∀ s, run step init actions = some s → ∀ tx, ∀ c ∈ s.outgoing.pending tx,
      (s.outgoing.link tx).queue.closed = false →
        (Enters s tx c ↔ AtHead s.outgoing tx c ∧ Placed s.outgoing tx c) ∧
        (Placed s.outgoing tx c → (s.outgoing.link tx).queue.queue.length < channelBufferSize)) ∧
    (Meets step LeavesOne init actions → Always step NotHeldBack init actions) := by
  refine ⟨fun s hrun tx c hpending hopen => ?_, fun hmeets => ?_⟩
  · exact ⟨enters_iff (run_delivered hrun) hpending hopen, Mpsc.length_lt_of_permit hopen⟩
  · refine always_mono (fun _ => Single.notHeldBack) (always_of_meets ?_ actions hmeets ?_)
    · exact fun _ _ _ hs hg hstep => step_single hs hg hstep
    · exact fun _ htask => nomatch htask

/-- A broadcast that found the queue of a member full, and a place for its copy once the listener
has written. -/
theorem enters_at_head_room : ∃ s c, c ∈ s.outgoing.pending 0 ∧ c.value.message = .text "news" ∧
    AtHead s.outgoing 0 c ∧ Enters s 0 c ∧
    (s.outgoing.link 0).queue.queue.length < channelBufferSize := by
  have hstart : ∃ s, run step init [.registry .register, .registry (.join 1 "chat"), .establish 0,
        .spawn 0] = some s ∧ Serving s 0 0 [] channelBufferSize ∧
      (∃ members, s.store.groups.get? "chat" = some members ∧ members.elems = [1]) ∧
      s.store.recipient none 1 = some 0 :=
    ⟨_, rfl, ⟨rfl, rfl, rfl, rfl, rfl, rfl, rfl⟩, ⟨_, rfl, by decide⟩, by decide⟩
  obtain ⟨s0, hrun0, hs0, ⟨members, hchat, helems⟩, hrecipient⟩ := hstart
  obtain ⟨s1, full, hrun1, hs1, hlength, hfull, _⟩ := hs0.fill "hi" _ fun _ hc => nomatch hc
  have hstore : s1.store = s0.store := congrArg Registry.State.store (run_calls_frame _ hrun1).1
  rw [← hstore] at hchat hrecipient
  have hpairs : ∀ e ∈ [((1 : ConnectionID), (0 : Sender))], s1.store.recipient none e.1 = some e.2 ∧
      ∀ r, s1.outgoing.put e.2 r = .error .full := by
    intro e he
    obtain rfl := List.mem_singleton.mp he
    exact ⟨hrecipient, fun r => put_full.mpr ⟨hs1.opened, hs1.permits⟩⟩
  obtain ⟨u, hrun2, hloop, hfinish⟩ := broadcast_blocked hs1.idle "news" hpairs hchat helems
    (List.cons_ne_nil _ _) (by decide)
  have hs2 := hs1.frame (t := { s1 with
    outgoing := s1.outgoing.defer false ⟨s1.calls, 0, false, .text "news"⟩ [0]
    calls := s1.calls + 1 }) rfl rfl rfl rfl
  cases full with
  | nil => cases hlength
  | cons d rest =>
    obtain ⟨s3, hrun3, hs3, htasks, _⟩ := hs2.write (hfull d List.mem_cons_self)
    have hrun := run_join (run_join (run_join hrun0 hrun1) hrun2) (run_cons.mpr ⟨_, hfinish, hrun3⟩)
    have hpending : (⟨s1.outgoing.serials, ⟨s1.calls, 0, false, .text "news"⟩⟩ : Copy Request) ∈
        s3.outgoing.pending 0 := by
      rw [mem_pending, htasks]
      exact ⟨_, List.mem_append_right _ List.mem_cons_self, List.mem_cons_self⟩
    have hplaced : Placed s3.outgoing 0 ⟨s1.outgoing.serials, ⟨s1.calls, 0, false, .text "news"⟩⟩ :=
      .inr (by rw [hs3.permits]; exact Nat.one_pos)
    have hleaves : LeavesOne (.finish 0) u := by
      intro caller l he hl
      cases he
      rw [hloop] at hl
      cases hl
      exact Nat.le_refl 1
    have hquiet : ∀ {a : Action}, (∀ caller, a ≠ .finish caller) → ∀ v, LeavesOne a v :=
      fun hne _ caller _ he => absurd he (hne caller)
    have hone := meets_join (G := LeavesOne) (b := [.finish 0, .receive 0, .wrote 0 true])
      (run_join (run_join hrun0 hrun1) hrun2)
      (meets_of_forall (fun a ha => hquiet fun caller he => by subst he; simp at ha) init)
      ((meets_cons hfinish).mpr ⟨hleaves,
        meets_of_forall (fun a ha => hquiet fun caller he => by subst he; simp at ha) _⟩)
    have henters := always_last ((enters_at_head _).2 hone) hrun 0 _ hpending hs3.opened hplaced
    have hiff := (enters_at_head _).1 s3 hrun 0 _ hpending hs3.opened
    exact ⟨s3, _, hpending, rfl, (hiff.1.mp henters).1, henters, hiff.2 hplaced⟩

/-! ### Two clients that are slow at the same time -/

theorem enqueue_other {j tx : Sender} (hj : j ≠ tx) (ctx : Context) (r : Request) (o : Outgoing) :
    ((enqueue ctx tx r o).2.link j).queue = (o.link j).queue := by
  simp only [enqueue]
  cases hput : o.put tx r with
  | ok o' => exact congrArg Link.queue ((put_queue hput).2.2.2.2 j hj)
  | error e =>
    cases e with
    | closed => rfl
    | full =>
      dsimp only
      split <;> split <;> rfl

/-- Sends on one connection leave another as it is. -/
theorem Serving.other {j caller : Nat} {queue : List (Copy Request)} {permits : Nat}
    (hs : Serving s j caller queue permits) (hsender : (s.handle tx).sender = some tx) (hj : j ≠ tx)
    (text : String) (n : Nat)
    (hrun : run step s (List.replicate n (.call caller .worker tx (.send (.str text)))) = some t) :
    Serving t j caller queue permits := by
  induction n generalizing s with
  | zero =>
    cases hrun
    exact hs
  | succ n ih =>
    obtain ⟨u, hu, hrest⟩ := run_cons.mp hrun
    obtain ⟨_, hu⟩ := call_some hu
    rw [sends_send text _ tx _ _ hsender] at hu
    have hnext : Serving u j caller queue permits := by
      subst hu
      exact hs.frame rfl rfl rfl (enqueue_other hj _ _ _)
    have hhandle : u.handle = s.handle := by rw [hu]
    exact ih hnext (hhandle ▸ hsender) hrest

/-- Two members of a chat do not read until their queues are full. One message more is
broadcast, then the second one reads again. There is room for its copy, and nothing can
put it there before the first one reads. -/
theorem slow_client_holds_back : ∃ actions s c, run step init actions = some s ∧
    c ∈ s.outgoing.pending 1 ∧ c.value.message = .text "news" ∧
    (s.outgoing.link 1).queue.closed = false ∧ Placed s.outgoing 1 c ∧
    (s.outgoing.link 1).queue.queue.length < channelBufferSize ∧ ¬ Enters s 1 c := by
  have hstart : ∃ s, run step init [.registry .register, .registry (.join 1 "chat"), .establish 0,
        .spawn 0, .registry .register, .registry (.join 2 "chat"), .establish 1, .spawn 1] = some s ∧
      Serving s 0 0 [] channelBufferSize ∧ Serving s 1 0 [] channelBufferSize ∧
      (∃ members, s.store.groups.get? "chat" = some members ∧ members.elems = [1, 2]) ∧
      s.store.recipient none 1 = some 0 ∧ s.store.recipient none 2 = some 1 ∧ s.outgoing.tasks = [] :=
    ⟨_, rfl, ⟨rfl, rfl, rfl, rfl, rfl, rfl, rfl⟩, ⟨rfl, rfl, rfl, rfl, rfl, rfl, rfl⟩,
      ⟨_, rfl, by decide⟩, by decide, by decide, rfl⟩
  obtain ⟨s0, hrun0, h0, h1, ⟨members, hchat, helems⟩, hr0, hr1, htasks0⟩ := hstart
  obtain ⟨s1, full0, hrun1, h0', _, _, htasks1, _⟩ := h0.fill "hi" _ fun _ hc => nomatch hc
  have h1 := h1.other h0.sender (by decide) "hi" _ hrun1
  obtain ⟨s2, full1, hrun2, h1', hlength, hfull, htasks2, _⟩ := h1.fill "hi" _ fun _ hc => nomatch hc
  have h0 := h0'.other h1.sender (by decide) "hi" _ hrun2
  have hstore : s2.store = s0.store := congrArg Registry.State.store
    ((run_calls_frame _ hrun2).1.trans (run_calls_frame _ hrun1).1)
  rw [← hstore] at hchat hr0 hr1
  have hpairs : ∀ e ∈ [((1 : ConnectionID), (0 : Sender)), (2, 1)],
      s2.store.recipient none e.1 = some e.2 ∧ ∀ r, s2.outgoing.put e.2 r = .error .full := by
    intro e he
    rcases List.mem_cons.mp he with rfl | he
    · exact ⟨hr0, fun r => put_full.mpr ⟨h0.opened, h0.permits⟩⟩
    · obtain rfl := List.mem_singleton.mp he
      exact ⟨hr1, fun r => put_full.mpr ⟨h1'.opened, h1'.permits⟩⟩
  obtain ⟨u, hrun3, _, hfinish⟩ := broadcast_blocked h0.idle "news" hpairs hchat helems
    (List.cons_ne_nil _ _) (by decide)
  generalize hr : (⟨s2.calls, 0, false, .text "news"⟩ : Request) = r at hfinish
  have h1 := h1'.frame (t := { s2 with
    outgoing := s2.outgoing.defer false r [0, 1], calls := s2.calls + 1 }) rfl rfl rfl rfl
  cases full1 with
  | nil => cases hlength
  | cons d rest =>
    obtain ⟨s4, hrun4, h1, htasks, _⟩ := h1.write (hfull d List.mem_cons_self)
    have hrun := run_join (run_join (run_join (run_join hrun0 hrun1) hrun2) hrun3)
      (run_cons.mpr ⟨_, hfinish, hrun4⟩)
    have htask : s4.outgoing.tasks =
        [⟨[(0, ⟨s2.outgoing.serials, r⟩), (1, ⟨s2.outgoing.serials + 1, r⟩)], false⟩] := by
      have hnone : s2.outgoing.tasks = [] := htasks2.trans (htasks1.trans htasks0)
      rw [htasks]
      exact congrArg (· ++ _) hnone
    have hmem : (⟨s2.outgoing.serials + 1, r⟩ : Copy Request) ∈ s4.outgoing.pending 1 := by
      rw [mem_pending, htask]
      exact ⟨_, List.mem_cons_self, List.mem_cons_of_mem _ List.mem_cons_self⟩
    have hplaced : Placed s4.outgoing 1 ⟨s2.outgoing.serials + 1, r⟩ :=
      .inr (by rw [h1.permits]; exact Nat.one_pos)
    refine ⟨_, s4, _, hrun, hmem, by rw [← hr], h1.opened, hplaced,
      Mpsc.length_lt_of_permit h1.opened hplaced, fun henters => ?_⟩
    -- the task is still at the first connection
    obtain ⟨task, hin, later, hsends⟩ := ((enters_iff (run_delivered hrun) hmem h1.opened).mp henters).1
    rw [htask] at hin
    rw [List.mem_singleton.mp hin] at hsends
    cases hsends

end Webrockets.Server

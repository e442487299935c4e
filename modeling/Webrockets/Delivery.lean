import Webrockets.Server
import Webrockets.Library.Ledger

/-! What becomes of the messages sent to a connection.

Seen from the queues, a step of the server is one of five things (`Effect`). So
the ledger of the queues holds in every state of every run, and with it what
`deliveries` says: while `send_listener` is there and nothing was cancelled, each
copy accepted is written, queued or with a task, and exactly once. -/
namespace Webrockets.Server
open Transition Outbox

/-! ### What a step is to the queues -/

/-- The requests a step may give to a channel. -/
def Gives : Action → Server → Sender → Request → Prop
  | .call caller _ conn m, s, tx, r =>
    (s.handle conn).sender = some tx ∧ r.call = s.calls ∧ r.caller = caller ∧ r.future = m.future ∧
      (s.outgoing.link tx).queue.closed = false
  | .visit caller id, s, tx, r =>
    ∃ l, s.loop caller = some l ∧ s.store.recipient l.exclude id = some tx ∧ r = l.request ∧
      (s.outgoing.link tx).queue.closed = false
  | .finish caller, s, tx, r => ∃ l, s.loop caller = some l ∧ tx ∈ l.blocked ∧ r = l.request
  | _, _, _, _ => False

inductive Effect (a : Action) (s t : Server) : Prop
  | quiet (ho : t.outgoing = s.outgoing) (ht : t.sendTask = s.sendTask)
  | feed (e : Event Sender Request) (hf : e.Feeds) (hs : Outbox.step e s.outgoing = some t.outgoing)
      (hc : e.Cancellable fun r => r.future = true) (hg : ∀ tx r, e.Gives tx r → Gives a s tx r)
      (ht : t.sendTask = s.sendTask)
  /-- The listener is spawned, or done with a message after which it goes on. -/
  | listen (tx : Sender)
      (h : s.sendTask tx = .unspawned ∨ ∃ m, s.sendTask tx = .writing m ∧ m.isClose = false)
      (ho : t.outgoing = s.outgoing) (ht : t.sendTask = set s.sendTask tx .receiving)
  | receive (tx : Sender) (c : Copy Request) (h : s.sendTask tx = .receiving)
      (hs : s.outgoing.take tx = some (c, t.outgoing))
      (ht : t.sendTask = set s.sendTask tx (.writing c.value.message))
  | stop (tx : Sender) (h : s.sendTask tx ≠ .unspawned) (ho : t.outgoing = s.outgoing.stop tx)
      (ht : t.sendTask = set s.sendTask tx .stopped)

/-- What a call does to the queues: nothing, or it gives one request of its own
to the channel of its connection, which is open. -/
def Enqueues (sender : Option Sender) (call : Call) (future : Bool) (o o' : Outgoing) : Prop :=
  o' = o ∨ ∃ (e : Event Sender Request) (tx : Sender) (r : Request), sender = some tx ∧
    r.call = call.number ∧ r.caller = call.caller ∧ r.future = future ∧
    e.Feeds ∧ Outbox.step e o = some o' ∧ (e.Cancellable fun r => r.future = true) ∧
    ∀ k v, e.Gives k v → k = tx ∧ v = r ∧ (o.link tx).queue.closed = false

theorem enqueue_enqueues (call : Call) (tx : Sender) (future : Bool) (message : Message) (o : Outgoing) :
    Enqueues (some tx) call future o
      (enqueue call.ctx tx ⟨call.number, call.caller, future, message⟩ o).2 := by
  generalize hr : (⟨call.number, call.caller, future, message⟩ : Request) = r
  have hown : r.call = call.number ∧ r.caller = call.caller ∧ r.future = future := by
    subst hr
    exact ⟨rfl, rfl, rfl⟩
  simp only [enqueue]
  cases hput : o.put tx r with
  | ok o' =>
    refine .inr ⟨.put tx r, tx, r, rfl, hown.1, hown.2.1, hown.2.2, trivial, ?_, trivial, ?_⟩
    · simp only [Outbox.step, hput]
      rfl
    · intro k v hg
      exact ⟨hg.1, hg.2, (put_ok hput).1⟩
  | error e =>
    cases e with
    | full =>
      have hopen := (put_full.mp hput).1
      have hgives : ∀ future k v, (Event.defer future r [tx]).Gives k v →
          k = tx ∧ v = r ∧ (o.link tx).queue.closed = false := by
        intro future k v hg
        exact ⟨List.mem_singleton.mp hg.1, hg.2, hopen⟩
      dsimp only
      split
      · next hf =>
        split
        · exact .inr ⟨.defer true r [tx], tx, r, rfl, hown.1, hown.2.1, hown.2.2, trivial, rfl,
            fun _ => hf, hgives true⟩
        · exact .inl rfl
      · split
        · exact .inr ⟨.defer false r [tx], tx, r, rfl, hown.1, hown.2.1, hown.2.2, trivial, rfl,
            fun h => absurd h Bool.false_ne_true, hgives false⟩
        · exact .inl rfl
    | closed => exact .inl rfl

theorem sendVia_enqueues (future : Bool) (conn : Connection) (call : Call) (msg : PyValue)
    (o : Outgoing) : Enqueues conn.sender call future o (conn.sendVia future call msg o).2 := by
  simp only [Connection.sendVia]
  cases conn.sender with
  | none => exact .inl rfl
  | some tx =>
    cases Message.tryFrom msg with
    | error e => exact .inl rfl
    | ok message => exact enqueue_enqueues call tx future message o

theorem closeVia_enqueues (future : Bool) (conn : Connection) (call : Call) (code : UInt16)
    (reason : String) (o : Outgoing) :
    Enqueues conn.sender call future o (conn.closeVia future call code reason o).2 := by
  simp only [Connection.closeVia]
  cases conn.sender with
  | none => exact .inl rfl
  | some tx => exact enqueue_enqueues call tx future _ o

theorem invoke_enqueues (conn : Connection) (call : Call) (m : Connection.Method) (o : Outgoing) :
    Enqueues conn.sender call m.future o (conn.invoke call m o).2 := by
  cases m with
  | send msg => exact sendVia_enqueues false conn call msg o
  | asend msg => exact sendVia_enqueues true conn call msg o
  | close code reason => exact closeVia_enqueues false conn call code reason o
  | aclose code reason => exact closeVia_enqueues true conn call code reason o

/-- A turn of the inner loop puts the request in one queue, or notes it as blocked, or does nothing. -/
theorem visit_put (store : ChannelStore) (exclude : Option ConnectionID) (r : Request)
    (id : ConnectionID) (o : Outgoing) (blocked : List Sender) :
    store.visit exclude r id (o, blocked) = (o, blocked) ∨
      ∃ tx, store.recipient exclude id = some tx ∧
        ((∃ o', o.put tx r = .ok o' ∧ store.visit exclude r id (o, blocked) = (o', blocked)) ∨
          (o.put tx r = .error .full ∧
            store.visit exclude r id (o, blocked) = (o, blocked ++ [tx]))) := by
  simp only [ChannelStore.visit]
  cases store.recipient exclude id with
  | none => exact .inl rfl
  | some tx =>
    dsimp only
    cases hput : o.put tx r with
    | ok o' => exact .inr ⟨tx, rfl, .inl ⟨o', hput, rfl⟩⟩
    | error e =>
      cases e with
      | full => exact .inr ⟨tx, rfl, .inr ⟨hput, rfl⟩⟩
      | closed => exact .inl rfl

theorem step_effect {a : Action} {s t : Server} (h : step a s = some t) : Effect a s t := by
  cases a with
  | registry ra =>
    obtain ⟨registry, _, rfl⟩ := registry_some h
    exact .quiet rfl rfl
  | establish tx =>
    obtain ⟨_, _, rfl⟩ := establish_some h
    exact .quiet rfl rfl
  | spawn tx =>
    obtain ⟨_, hu, rfl⟩ := spawn_some h
    exact .listen tx (.inl hu) rfl rfl
  | call caller ctx conn m =>
    obtain ⟨_, rfl⟩ := call_some h
    rcases invoke_enqueues (s.handle conn) ⟨s.calls, caller, ctx⟩ m s.outgoing with
      he | ⟨e, tx, r, hsender, hcall, hcaller, hfuture, hf, hs, hc, hg⟩
    · exact .quiet he rfl
    · refine .feed e hf hs hc (fun k v hkv => ?_) rfl
      obtain ⟨rfl, rfl, hopen⟩ := hg k v hkv
      exact ⟨hsender, hcall, hcaller, hfuture, hopen⟩
  | broadcast caller ctx b =>
    obtain ⟨_, rfl | ⟨_, _, _, rfl⟩⟩ := broadcast_some h <;> exact .quiet rfl rfl
  | enterGroup caller =>
    obtain ⟨_, _, _, _, _, _, _, rfl⟩ := enterGroup_some h
    exact .quiet rfl rfl
  | visit caller id =>
    obtain ⟨l, _, _, hl, _, _, _, rfl⟩ := visit_some h
    rcases visit_put s.store l.exclude l.request id s.outgoing l.blocked with
      hv | ⟨tx, hr, ⟨o', hput, hv⟩ | ⟨_, hv⟩⟩
    · exact .quiet (congrArg Prod.fst hv) rfl
    · refine .feed (.put tx l.request) trivial ?_ trivial (fun k v hkv => ?_) rfl
      · simp only [Outbox.step, hput, hv]
        rfl
      · obtain ⟨rfl, rfl⟩ := hkv
        exact ⟨l, hl, hr, rfl, (put_ok hput).1⟩
    · exact .quiet (congrArg Prod.fst hv) rfl
  | leaveGroup caller =>
    obtain ⟨_, _, _, _, _, rfl⟩ := leaveGroup_some h
    exact .quiet rfl rfl
  | finish caller =>
    obtain ⟨l, hl, _, _, rfl⟩ := finish_some h
    simp only [spawnBlocked]
    split
    · exact .quiet rfl rfl
    · split
      · refine .feed (.defer false l.request l.blocked) trivial rfl
          (fun h => absurd h Bool.false_ne_true) (fun k v hkv => ?_) rfl
        exact ⟨l, hl, hkv.1, hkv.2⟩
      · exact .quiet rfl rfl
  | poll i =>
    obtain ⟨_, ho, rfl⟩ := poll_some h
    exact .feed (.poll i) trivial ho trivial (fun _ _ hg => hg.elim) rfl
  | cancel i =>
    obtain ⟨_, ho, rfl⟩ := cancel_some h
    exact .feed (.cancel i) trivial ho trivial (fun _ _ hg => hg.elim) rfl
  | receive tx =>
    obtain ⟨c, _, hr, ht, rfl⟩ := receive_some h
    exact .receive tx c hr ht rfl
  | wrote tx ok =>
    obtain ⟨m, hm, ⟨_, hclose, rfl⟩ | rfl⟩ := wrote_some h
    · exact .listen tx (.inr ⟨m, hm, hclose⟩) rfl rfl
    · refine .stop tx ?_ rfl rfl
      rw [hm]
      intro he
      cases he
  | abort tx =>
    obtain ⟨hu, _, rfl⟩ := abort_some h
    exact .stop tx hu rfl rfl

/-- To the queues, a step of the server is a step of theirs, or none. -/
theorem step_event {a : Action} {s t : Server} (h : step a s = some t) :
    t.outgoing = s.outgoing ∨ ∃ e : Event Sender Request, Outbox.step e s.outgoing = some t.outgoing ∧
      (e.Cancellable fun r => r.future = true) ∧ ∀ tx r, e.Gives tx r → Gives a s tx r := by
  cases step_effect h with
  | quiet ho _ => exact .inl ho
  | feed e _ hs hc hg _ => exact .inr ⟨e, hs, hc, hg⟩
  | listen _ _ ho _ => exact .inl ho
  | receive tx c _ hs _ =>
    refine .inr ⟨.take tx, ?_, trivial, fun _ _ hg => hg.elim⟩
    simp only [Outbox.step, hs, Option.map_some]
  | stop tx _ ho _ =>
    refine .inr ⟨.stop tx, ?_, trivial, fun _ _ hg => hg.elim⟩
    rw [ho]
    rfl

/-- To one connection, it is a move that adds nothing but what the step gives. -/
theorem step_account {a : Action} {s t : Server} (h : step a s = some t) (tx : Sender) :
    (s.outgoing.account tx).Move (Gives a s tx) (t.outgoing.account tx) := by
  rcases step_event h with ho | ⟨e, hs, _, hg⟩
  · rw [ho]
    exact .feed (.same _ _)
  · exact (step_move hs tx).mono (hg tx)

/-! ### Frames -/

/-- The frames handed to the writer, the last one perhaps still on its way. -/
def written (s : Server) (tx : Sender) : List Frame :=
  (s.outgoing.link tx).taken.map fun c => c.value.message.frame

/-- What the listener has taken, by the state it is in: once it has taken a Close it takes nothing more. -/
def CloseLast (taken : List (Copy Request)) : SendTask → Prop
  | .unspawned => ∀ c ∈ taken, c.value.message.isClose = false
  | .receiving => ∀ c ∈ taken, c.value.message.isClose = false
  | .writing m => ∃ before c, taken = before ++ [c] ∧ c.value.message = m ∧
      ∀ d ∈ before, d.value.message.isClose = false
  | .stopped => ∀ c ∈ taken.dropLast, c.value.message.isClose = false

theorem CloseLast.dropLast {taken : List (Copy Request)} {task : SendTask} (h : CloseLast taken task) :
    ∀ c ∈ taken.dropLast, c.value.message.isClose = false := by
  cases task with
  | unspawned => exact fun c hc => h c (List.mem_of_mem_dropLast hc)
  | receiving => exact fun c hc => h c (List.mem_of_mem_dropLast hc)
  | writing m =>
    obtain ⟨before, c, rfl, _, hb⟩ := h
    rw [List.dropLast_concat]
    exact hb
  | stopped => exact h

/-- The queues and their listeners agree. -/
def Agrees (o : Outgoing) (sendTask : Sender → SendTask) : Prop :=
  (∀ tx, (o.account tx).closed = true ↔ sendTask tx = .stopped) ∧
    ∀ tx, CloseLast (o.account tx).taken (sendTask tx)

structure Delivered (s : Server) : Prop where
  ledger : ∀ tx, Ledger (s.outgoing.account tx)
  agrees : Agrees s.outgoing s.sendTask

theorem init_delivered : Delivered init := by
  refine ⟨fun tx => ledger_new tx, fun tx => ⟨fun h => (nomatch h), fun h => nomatch h⟩, fun tx => ?_⟩
  exact fun c hc => nomatch hc

theorem step_delivered (a : Action) (s t : Server) (hs : Delivered s) (h : step a s = some t) :
    Delivered t := by
  obtain ⟨hledger, hlistening, hclose⟩ := hs
  refine ⟨fun tx => (hledger tx).move (step_account h tx), ?_⟩
  cases step_effect h with
  | quiet ho ht =>
    rw [← ho, ← ht] at hlistening hclose
    exact ⟨hlistening, hclose⟩
  | feed e hf hstep hc hg ht =>
    have hkept : ∀ tx, (t.outgoing.account tx).taken = (s.outgoing.account tx).taken ∧
        (t.outgoing.account tx).closed = (s.outgoing.account tx).closed := fun tx =>
      (step_feed hf hstep tx).kept
    refine ⟨fun tx => ?_, fun tx => ?_⟩
    · rw [(hkept tx).2, ht]
      exact hlistening tx
    · rw [(hkept tx).1, ht]
      exact hclose tx
  | listen tx hu ho ht =>
    refine ⟨fun j => ?_, fun j => ?_⟩
    · rw [ho, ht, hlistening]
      by_cases hj : j = tx
      · subst hj
        rw [set_self]
        rcases hu with hu | ⟨m, hm, _⟩
        · simp [hu]
        · simp [hm]
      · rw [set_of_ne _ hj]
    · rw [ho, ht]
      by_cases hj : j = tx
      · subst hj
        rw [set_self]
        have hcl := hclose j
        rcases hu with hu | ⟨m, hm, hmc⟩
        · rw [hu] at hcl
          exact hcl
        · rw [hm] at hcl
          obtain ⟨before, c, htaken, hcm, hb⟩ := hcl
          rw [htaken]
          intro d hd
          rcases List.mem_append.mp hd with hd | hd
          · exact hb d hd
          · rw [List.mem_singleton.mp hd, hcm]
            exact hmc
      · rw [set_of_ne _ hj]
        exact hclose j
  | receive tx c hr htake ht =>
    obtain ⟨_, _, hself, hother⟩ := take_some htake
    have hclosed : ∀ j, (t.outgoing.account j).closed = (s.outgoing.account j).closed := by
      intro j
      by_cases hj : j = tx
      · subst hj
        rw [hself]
      · rw [hother j hj]
    refine ⟨fun j => ?_, fun j => ?_⟩
    · rw [hclosed, ht, hlistening]
      by_cases hj : j = tx
      · subst hj
        rw [set_self]
        simp [hr]
      · rw [set_of_ne _ hj]
    · rw [ht]
      by_cases hj : j = tx
      · subst hj
        have hcl := hclose j
        rw [hr] at hcl
        rw [set_self, hself]
        exact ⟨_, c, rfl, rfl, hcl⟩
      · rw [set_of_ne _ hj, hother j hj]
        exact hclose j
  | stop tx hu ho ht =>
    have hself : t.outgoing.account tx = { s.outgoing.account tx with queue := [], closed := true } := by
      rw [ho, stop_account]
    have hother : ∀ j, j ≠ tx → t.outgoing.account j = s.outgoing.account j := by
      intro j hj
      rw [ho]
      exact stop_account_of_ne s.outgoing hj
    refine ⟨fun j => ?_, fun j => ?_⟩
    · rw [ht]
      by_cases hj : j = tx
      · subst hj
        rw [hself, set_self]
        simp
      · rw [hother j hj, set_of_ne _ hj]
        exact hlistening j
    · rw [ht]
      by_cases hj : j = tx
      · subst hj
        rw [hself, set_self]
        exact (hclose j).dropLast
      · rw [hother j hj, set_of_ne _ hj]
        exact hclose j

theorem run_delivered {actions : List Action} {s : Server} (h : run step init actions = some s) :
    Delivered s :=
  run_invariant step_delivered actions h init_delivered

/-- Only the last of the frames written can be a Close frame. -/
theorem Delivered.close_last {s : Server} (hs : Delivered s) {tx : Sender} {before after : List Frame}
    {f : Frame} (h : s.written tx = before ++ f :: after) (hf : f.opcode = .close) : after = [] := by
  by_contra hne
  have hmem : f ∈ (s.written tx).dropLast := by
    rw [h, List.dropLast_append_of_ne_nil (List.cons_ne_nil f after), List.dropLast_cons_of_ne_nil hne]
    exact List.mem_append_right _ List.mem_cons_self
  rw [written, ← List.map_dropLast] at hmem
  obtain ⟨c, hc, rfl⟩ := List.mem_map.mp hmem
  have hopen := (hs.agrees.2 tx).dropLast c hc
  rw [(Message.frame_opcode c.value.message).mp hf] at hopen
  cases hopen

/-- **Every message once, in order, and nothing after a Close.** In every state of
every run, as long as the connection's listener has not stopped and no future of
the connection was cancelled, the copies accepted for it are, each once, written,
queued or pending in a task. Its listener writes in the order in which the copies
entered the queue, and no frame follows a Close frame. -/
theorem deliveries (actions : List Action) (s : Server) (h : run step init actions = some s)
    (tx : Sender) :
    (s.sendTask tx ≠ .stopped → (s.outgoing.link tx).cancelled = [] →
      (s.outgoing.link tx).accepted.Perm ((s.outgoing.link tx).taken ++
        ((s.outgoing.link tx).queue.queue ++ s.outgoing.pending tx)) ∧
      (s.outgoing.link tx).accepted.Nodup) ∧
    s.written tx <+: (s.outgoing.link tx).entered.map (fun c => c.value.message.frame) ∧
    ∀ before f after, s.written tx = before ++ f :: after → f.opcode = .close → after = [] := by
  have hs := run_delivered h
  refine ⟨fun hlistens hcancelled => ?_, ?_, fun before f after hw hf => hs.close_last hw hf⟩
  · apply (hs.ledger tx).exactly_once _ hcancelled
    simpa [hlistens] using hs.agrees.1 tx
  · exact ((List.prefix_append _ _).trans (hs.ledger tx).taken).map _

/-- A message on its way to the socket, and a Close behind it. -/
theorem deliveries_greeting :
    ∃ s, run step init [.registry .register, .establish 0, .spawn 0, .call 0 .worker 0 (.send (.str "hi")),
        .call 0 .worker 0 (.close 1000 ""), .receive 0] = some s ∧
      (s.outgoing.link 0).accepted.Perm ((s.outgoing.link 0).taken ++
        ((s.outgoing.link 0).queue.queue ++ s.outgoing.pending 0)) ∧
      s.written 0 = [⟨.text, [104, 105]⟩] := by
  let s := (run step init [.registry .register, .establish 0, .spawn 0,
    .call 0 .worker 0 (.send (.str "hi")), .call 0 .worker 0 (.close 1000 ""), .receive 0]).get (by decide)
  have hrun : run step init _ = some s := (Option.some_get _).symm
  exact ⟨s, hrun, ((deliveries _ s hrun 0).1 (by decide) (by decide)).1, by decide⟩

end Webrockets.Server

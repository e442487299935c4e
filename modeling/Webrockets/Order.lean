import Webrockets.Delivery

/-! In which order one caller's messages are written.

A message that finds its queue full waits in a task, and nothing makes a later
message of the same caller wait for that task. So the order of the calls is kept
exactly while callers do not call again too early: `calls_in_order` has every run
in which a caller's earlier messages for a connection are out of the tasks when it
calls on that connection again, and `close_overtakes` a run in which a `close` cuts
off the message sent before it. -/
namespace Webrockets.Server
open Transition Outbox

/-- One caller's first call returned before it made the second, and neither hands a future back. -/
def before (a b : Request) : Prop :=
  a.caller = b.caller ∧ a.future = false ∧ b.future = false ∧ a.call < b.call

theorem before_irrefl (r : Request) : ¬ before r r := fun h => Nat.lt_irrefl _ h.2.2.2

/-- Of two calls of one caller on one connection, the message of the second is
written only after the message of the first. -/
def InOrder (s : Server) : Prop :=
  ∀ tx, ∀ x ∈ (s.outgoing.link tx).accepted, ∀ y ∈ (s.outgoing.link tx).taken, before x.value y.value →
    x ∈ (s.outgoing.link tx).taken ∧
      (s.outgoing.link tx).taken.idxOf x < (s.outgoing.link tx).taken.idxOf y

/-- No task holds a message of the caller for the connection, futures aside. -/
def NonePending (s : Server) (caller : Nat) (tx : Sender) : Prop :=
  ∀ c ∈ s.outgoing.pending tx, c.value.caller = caller → c.value.future = true

/-- The caller's earlier messages for the connection are out of the tasks when a
`send`, a `close` or the turn of a broadcast comes to it. -/
def Clear : Action → Server → Prop
  | .call caller _ conn m, s => m.future = false → ∀ tx, (s.handle conn).sender = some tx →
      NonePending s caller tx
  | .visit caller id, s => ∀ l tx, s.loop caller = some l → s.store.recipient l.exclude id = some tx →
      NonePending s caller tx
  | _, _ => True

/-! ### Calls and their numbers -/

/-- The caller's broadcast goes on, with the same request and no blocked senders
but the ones it had and the one whose queue a visit has found full. -/
def Continues (caller : Nat) (a : Action) (s t : Server) (l l' : Loop) : Prop :=
  l'.request = l.request ∧ ∀ tx ∈ l'.blocked, tx ∈ l.blocked ∨
    ∃ id, a = .visit caller id ∧ t.outgoing = s.outgoing ∧
      s.store.recipient l.exclude id = some tx ∧ (s.outgoing.link tx).queue.closed = false

/-- A broadcast under way at the end of a step went on in it or has just begun. -/
theorem step_loop {a : Action} {s t : Server} (h : step a s = some t) {caller : Nat} {l' : Loop}
    (hl' : t.loop caller = some l') :
    (∃ l, s.loop caller = some l ∧ Continues caller a s t l l') ∨
    (s.loop caller = none ∧ t.outgoing = s.outgoing ∧ t.calls = s.calls + 1 ∧
      l'.request.call = s.calls ∧ l'.request.caller = caller ∧ l'.blocked = []) := by
  have hsame : s.loop caller = some l' → ∃ l, s.loop caller = some l ∧ Continues caller a s t l l' :=
    fun hl => ⟨l', hl, rfl, fun tx htx => .inl htx⟩
  have hkept : t.loop = s.loop → ∃ l, s.loop caller = some l ∧ Continues caller a s t l l' :=
    fun he => hsame (he ▸ hl')
  have hmoved : ∀ {j : Nat} {l m : Loop}, s.loop j = some l → t.loop = set s.loop j (some m) →
      (caller = j → Continues caller a s t l m) →
      ∃ l, s.loop caller = some l ∧ Continues caller a s t l l' := by
    intro j l m hl ht hc
    rw [ht] at hl'
    by_cases hj : caller = j
    · subst hj
      rw [set_self] at hl'
      cases hl'
      exact ⟨l, hl, hc rfl⟩
    · rw [set_of_ne _ hj] at hl'
      exact hsame hl'
  cases a with
  | broadcast caller' ctx b =>
    obtain ⟨hl, rfl | ⟨message, exclude, _, rfl⟩⟩ := broadcast_some h
    · exact .inl (hkept rfl)
    · by_cases hj : caller = caller'
      · subst hj
        have hnew := (set_self s.loop caller _).symm.trans hl'
        cases hnew
        exact .inr ⟨hl, rfl, rfl, rfl, rfl, rfl⟩
      · exact .inl (hsame ((set_of_ne s.loop hj _).symm.trans hl'))
  | enterGroup caller' =>
    obtain ⟨l, _, _, _, hl, _, _, rfl⟩ := enterGroup_some h
    exact .inl (hmoved hl rfl fun _ => ⟨rfl, fun tx htx => .inl htx⟩)
  | visit caller' id =>
    obtain ⟨l, _, _, hl, _, _, _, rfl⟩ := visit_some h
    refine .inl (hmoved hl rfl fun hj => ⟨rfl, fun tx htx => ?_⟩)
    subst hj
    rcases visit_put s.store l.exclude l.request id s.outgoing l.blocked with
      hv | ⟨tx', hr, ⟨o', _, hv⟩ | ⟨hfull, hv⟩⟩
    · rw [hv] at htx
      exact .inl htx
    · rw [hv] at htx
      exact .inl htx
    · rw [hv] at htx
      rcases List.mem_append.mp htx with htx | htx
      · exact .inl htx
      · obtain rfl := List.mem_singleton.mp htx
        exact .inr ⟨id, rfl, congrArg Prod.fst hv, hr, (put_full.mp hfull).1⟩
  | leaveGroup caller' =>
    obtain ⟨l, _, hl, _, _, rfl⟩ := leaveGroup_some h
    exact .inl (hmoved hl rfl fun _ => ⟨rfl, fun tx htx => .inl htx⟩)
  | finish caller' =>
    obtain ⟨l, hl, _, _, rfl⟩ := finish_some h
    by_cases hj : caller = caller'
    · subst hj
      have hnone := (set_self s.loop caller none).symm.trans hl'
      cases hnone
    · exact .inl (hsame ((set_of_ne s.loop hj none).symm.trans hl'))
  | _ => exact .inl (hkept ((step_untouched h).loop rfl))

/-- The calls of a caller are numbered in the order it makes them, and a broadcast
under way is the last one of its caller. -/
structure Sequential (s : Server) : Prop where
  called : ∀ tx, ∀ c ∈ (s.outgoing.account tx).accepted, c.value.call < s.calls
  loops : ∀ caller l, s.loop caller = some l → l.request.caller = caller ∧ l.request.call < s.calls
  latest : ∀ caller l, s.loop caller = some l → ∀ tx, ∀ c ∈ (s.outgoing.account tx).accepted,
    c.value.caller = caller → c.value.call ≤ l.request.call

theorem init_sequential : Sequential init :=
  ⟨fun _ _ hc => (nomatch hc), fun _ _ hl => (nomatch hl), fun _ _ hl => nomatch hl⟩

/-- Every call takes the next number, and its caller is not in a broadcast. -/
theorem step_calls {a : Action} {s t : Server} (h : step a s = some t) :
    s.calls ≤ t.calls ∧ ∀ caller ctx conn m, a = .call caller ctx conn m →
      t.calls = s.calls + 1 ∧ s.loop caller = none := by
  cases a with
  | call caller ctx conn m =>
    obtain ⟨hl, rfl⟩ := call_some h
    refine ⟨Nat.le_succ _, fun caller' ctx' conn' m' he => ?_⟩
    cases he
    exact ⟨rfl, hl⟩
  | broadcast caller ctx b =>
    refine ⟨?_, fun _ _ _ _ he => nomatch he⟩
    obtain ⟨_, rfl | ⟨_, _, _, rfl⟩⟩ := broadcast_some h <;> exact Nat.le_succ _
  | _ => exact ⟨Nat.le_of_eq ((step_untouched h).calls rfl).symm, fun _ _ _ _ he => nomatch he⟩

/-- Where a request comes from: a new call of a caller that is not in a broadcast,
or the broadcast under way of its caller. -/
theorem Gives.source {a : Action} {s t : Server} (h : step a s = some t) (hs : Sequential s)
    {tx : Sender} {r : Request} (hg : Gives a s tx r) :
    (r.call = s.calls ∧ t.calls = s.calls + 1 ∧ s.loop r.caller = none) ∨
      ∃ l, s.loop r.caller = some l ∧ r = l.request := by
  cases a with
  | call caller ctx conn m =>
    obtain ⟨_, hcall, hcaller, _, _⟩ := hg
    obtain ⟨hcalls, hl⟩ := (step_calls h).2 caller ctx conn m rfl
    rw [hcaller]
    exact .inl ⟨hcall, hcalls, hl⟩
  | visit caller id =>
    obtain ⟨l, hl, _, rfl, _⟩ := hg
    rw [(hs.loops caller l hl).1]
    exact .inr ⟨l, hl, rfl⟩
  | finish caller =>
    obtain ⟨l, hl, _, rfl⟩ := hg
    rw [(hs.loops caller l hl).1]
    exact .inr ⟨l, hl, rfl⟩
  | _ => exact hg.elim

theorem step_sequential (a : Action) (s t : Server) (hs : Sequential s) (h : step a s = some t) :
    Sequential t := by
  have hle := (step_calls h).1
  refine ⟨fun tx c hc => ?_, fun caller l' hl' => ?_, fun caller l' hl' tx c hc hcaller => ?_⟩
  · rcases (step_account h tx).given hc with hc | hg
    · exact Nat.lt_of_lt_of_le (hs.called tx c hc) hle
    · rcases hg.source h hs with ⟨hcall, hcalls, _⟩ | ⟨l, hl, hr⟩
      · omega
      · rw [hr]
        exact Nat.lt_of_lt_of_le (hs.loops _ l hl).2 hle
  · rcases step_loop h hl' with ⟨l, hl, hr, _⟩ | ⟨_, _, hcalls, hcall, hcaller, _⟩
    · rw [hr]
      exact ⟨(hs.loops caller l hl).1, Nat.lt_of_lt_of_le (hs.loops caller l hl).2 hle⟩
    · refine ⟨hcaller, ?_⟩
      omega
  · rcases step_loop h hl' with ⟨l, hl, hr, _⟩ | ⟨_, ho, _, hcall, _, _⟩
    · rw [hr]
      rcases (step_account h tx).given hc with hc | hg
      · exact hs.latest caller l hl tx c hc hcaller
      · rcases hg.source h hs with ⟨_, _, hnone⟩ | ⟨l2, hl2, hr2⟩
        · rw [hcaller, hl] at hnone
          cases hnone
        · rw [hcaller, hl] at hl2
          cases hl2
          rw [hr2]
    · rw [ho] at hc
      have := hs.called tx c hc
      omega

/-! ### A caller and a listener -/

/-- An established connection with its listener waiting, a caller that is not in a
broadcast, and no send parked. -/
structure Serving (s : Server) (tx : Sender) (caller : Nat) (queue : List (Copy Request))
    (permits : Nat) : Prop where
  sender : (s.handle tx).sender = some tx
  idle : s.loop caller = none
  listening : s.sendTask tx = .receiving
  opened : (s.outgoing.link tx).queue.closed = false
  queue : (s.outgoing.link tx).queue.queue = queue
  permits : (s.outgoing.link tx).queue.permits = permits
  waiting : (s.outgoing.link tx).queue.waiting = []

/-- The call enqueues the message. -/
def Sends (m : Connection.Method) (message : Message) : Prop :=
  ∀ (conn : Connection) (tx : Sender) (call : Call) (o : Outgoing), conn.sender = some tx →
    conn.invoke call m o = enqueue call.ctx tx ⟨call.number, call.caller, false, message⟩ o

theorem sends_send (text : String) : Sends (.send (.str text)) (.text text) := by
  intro conn tx call o h
  simp only [Connection.invoke, Connection.send, Connection.sendVia, h, Message.tryFrom]

theorem sends_close (code : UInt16) (reason : String) :
    Sends (.close code reason) (.close code reason.toUTF8.data.toList) := by
  intro conn tx call o h
  simp only [Connection.invoke, Connection.close, Connection.closeVia, h]

variable {s : Server} {tx : Sender} {caller : Nat} {queue : List (Copy Request)} {permits : Nat}
  {m : Connection.Method} {message : Message}

theorem Serving.step_call (hs : Serving s tx caller queue permits) (hm : Sends m message) :
    step (.call caller .worker tx m) s = some { s with
      outgoing := (enqueue .worker tx ⟨s.calls, caller, false, message⟩ s.outgoing).2
      calls := s.calls + 1 } := by
  simp only [step, hs.idle, hm _ tx _ _ hs.sender, if_true]

/-- With a free permit the message enters at once. -/
theorem Serving.room (hs : Serving s tx caller queue (permits + 1)) (hm : Sends m message) :
    ∃ t c, step (.call caller .worker tx m) s = some t ∧ Serving t tx caller (queue ++ [c]) permits ∧
      c.value = ⟨s.calls, caller, false, message⟩ ∧ t.outgoing.tasks = s.outgoing.tasks ∧
      t.calls = s.calls + 1 := by
  have hpos : 0 < (s.outgoing.link tx).queue.permits := by
    rw [hs.permits]
    exact Nat.succ_pos _
  refine ⟨_, ⟨s.outgoing.serials, ⟨s.calls, caller, false, message⟩⟩, hs.step_call hm, ?_, rfl, ?_, rfl⟩
  · refine ⟨hs.sender, hs.idle, hs.listening, ?_, ?_, ?_, ?_⟩ <;>
      simp only [enqueue, Outbox.put, Mpsc.trySend_open _ hs.opened hpos, setLink_self, Mpsc.push]
    · exact hs.opened
    · rw [hs.queue]
    · rw [hs.permits]
      rfl
    · exact hs.waiting
  · simp only [enqueue, Outbox.put, Mpsc.trySend_open _ hs.opened hpos]
    rfl

/-- Without one it is left to a task. -/
theorem Serving.full (hs : Serving s tx caller queue 0) (hm : Sends m message) :
    ∃ t c, step (.call caller .worker tx m) s = some t ∧ Serving t tx caller queue 0 ∧
      c.value = ⟨s.calls, caller, false, message⟩ ∧
      t.outgoing.tasks = s.outgoing.tasks ++ [⟨[(tx, c)], false⟩] ∧ t.calls = s.calls + 1 := by
  have hput : s.outgoing.put tx ⟨s.calls, caller, false, message⟩ = .error .full :=
    put_full.mpr ⟨hs.opened, hs.permits⟩
  refine ⟨_, ⟨s.outgoing.serials, ⟨s.calls, caller, false, message⟩⟩, hs.step_call hm, ?_, rfl, ?_, rfl⟩
  · simp only [enqueue, hput]
    exact ⟨hs.sender, hs.idle, hs.listening, hs.opened, hs.queue, hs.permits, hs.waiting⟩
  · simp only [enqueue, hput]
    rfl

/-- The listener takes a message and hands it to the writer. -/
theorem Serving.take {c : Copy Request} (hs : Serving s tx caller (c :: queue) permits) :
    ∃ o, step (.receive tx) s = some { s with
        outgoing := o, sendTask := set s.sendTask tx (.writing c.value.message) } ∧
      c ∈ (o.link tx).taken ∧ o.tasks = s.outgoing.tasks ∧
      (o.link tx).queue.closed = false ∧ (o.link tx).queue.queue = queue ∧
      (o.link tx).queue.permits = permits + 1 ∧ (o.link tx).queue.waiting = [] := by
  obtain ⟨ch, hrecv, hqueue, hpermits, hwaiting, hclosed⟩ := Mpsc.recv_free hs.queue hs.waiting
  refine ⟨s.outgoing.setLink tx { s.outgoing.link tx with
    queue := ch, taken := (s.outgoing.link tx).taken ++ [c] }, ?_, ?_, rfl, ?_⟩
  · simp only [step, hs.listening, Outbox.take, hrecv, if_true]
  · rw [setLink_self]
    exact List.mem_append_right _ List.mem_cons_self
  · rw [setLink_self]
    exact ⟨hclosed.trans hs.opened, hqueue, hpermits.trans (congrArg (· + 1) hs.permits), hwaiting⟩

/-- After a message that is not a Close it goes on. -/
theorem Serving.write {c : Copy Request} (hs : Serving s tx caller (c :: queue) permits)
    (hc : c.value.message.isClose = false) :
    ∃ t, run step s [.receive tx, .wrote tx true] = some t ∧
      Serving t tx caller queue (permits + 1) ∧ t.outgoing.tasks = s.outgoing.tasks ∧
      t.calls = s.calls := by
  obtain ⟨o, htake, _, htasks, hopened, hqueue, hpermits, hwaiting⟩ := hs.take
  refine ⟨{ s with outgoing := o, sendTask := set s.sendTask tx .receiving },
    run_cons.mpr ⟨_, htake, run_cons.mpr ⟨_, ?_, rfl⟩⟩, ?_, htasks, rfl⟩
  · simp only [step, set_self, set_set, hc, and_self, if_true]
  · exact ⟨hs.sender, hs.idle, set_self .., hopened, hqueue, hpermits, hwaiting⟩

/-- A send that is left to a task enters when the task gets its turn. -/
theorem Serving.resume {c : Copy Request} {future : Bool}
    (hs : Serving s tx caller queue (permits + 1)) (htasks : s.outgoing.tasks = [⟨[(tx, c)], future⟩]) :
    ∃ t left, step (.poll 0) s = some t ∧ Serving t tx caller (queue ++ [c]) left ∧
      t.outgoing.tasks = [⟨[], future⟩] ∧ t.calls = s.calls := by
  have hsent : ((s.outgoing.link tx).queue.poll c.serial c).1 = .sent :=
    Mpsc.poll_sent_iff.mpr ⟨hs.opened, .inr (by rw [hs.permits]; exact Nat.succ_pos _)⟩
  cases hq : (s.outgoing.link tx).queue.poll c.serial c with
  | mk outcome ch =>
    obtain rfl : outcome = .sent := by simpa [hq] using hsent
    obtain ⟨hqueue, hclosed, _⟩ := Mpsc.poll_sent hq
    have hpoll : s.outgoing.poll 0 = some { s.outgoing.setLink tx { s.outgoing.link tx with
        queue := ch, entered := (s.outgoing.link tx).entered ++ [c] } with
        tasks := [⟨[], future⟩] } := by
      simp only [Outbox.poll, htasks, List.getElem?_cons_zero, hq, List.set_cons_zero]
    refine ⟨_, ch.permits, congrArg (Option.map _) hpoll, ?_, rfl, rfl⟩
    refine ⟨hs.sender, hs.idle, hs.listening, ?_, ?_, ?_, ?_⟩ <;> simp only [setLink_self]
    · exact hclosed.trans hs.opened
    · rw [hqueue, hs.queue]
    · exact (Mpsc.poll_sent_waiting hq).trans hs.waiting

/-- Where no task has anything to send, the caller does not come too early. -/
theorem clear_of_done (hnone : ∀ task ∈ s.outgoing.tasks, task.sends = []) (caller : Nat)
    (ctx : Context) (conn : Sender) (m : Connection.Method) : Clear (.call caller ctx conn m) s := by
  intro _ tx' _ c hc
  obtain ⟨task, htask, hmem⟩ := mem_pending.mp hc
  rw [hnone task htask] at hmem
  cases hmem

/-- Nobody calls when the listener writes. -/
theorem clear_write (s : Server) (tx : Sender) : Meets step Clear s [.receive tx, .wrote tx true] :=
  ⟨trivial, fun _ _ => ⟨trivial, fun _ _ => trivial⟩⟩

/-- Sends of the caller take the free permits, one each. -/
theorem Serving.fill (text : String) (n : Nat) (hs : Serving s tx caller queue n)
    (hq : ∀ c ∈ queue, c.value.message.isClose = false) :
    let sends := List.replicate n (.call caller .worker tx (.send (.str text)))
    ∃ t full, run step s sends = some t ∧ Serving t tx caller full 0 ∧
      full.length = queue.length + n ∧ (∀ c ∈ full, c.value.message.isClose = false) ∧
      t.outgoing.tasks = s.outgoing.tasks ∧
      ((∀ task ∈ s.outgoing.tasks, task.sends = []) → Meets step Clear s sends) := by
  induction n generalizing s queue with
  | zero => exact ⟨s, queue, rfl, hs, rfl, hq, rfl, fun _ => trivial⟩
  | succ n ih =>
    obtain ⟨t, c, hstep, ht, hvalue, htasks, _⟩ := hs.room (sends_send text)
    have hqc : ∀ d ∈ queue ++ [c], d.value.message.isClose = false := by
      intro d hd
      rcases List.mem_append.mp hd with hd | hd
      · exact hq d hd
      · rw [List.mem_singleton.mp hd, hvalue]
        rfl
    obtain ⟨u, full, hrun, hu, hlength, hfull, htasks', hclear⟩ := ih ht hqc
    refine ⟨u, full, run_cons.mpr ⟨t, hstep, hrun⟩, hu, ?_, hfull, htasks'.trans htasks, fun hnone =>
      (meets_cons hstep).mpr ⟨clear_of_done hnone _ _ _ _, hclear (htasks ▸ hnone)⟩⟩
    rw [hlength, List.length_append, List.length_singleton]
    omega

/-- The listener writes what is queued before a Close, and the Close, and stops. -/
theorem Serving.drain {y : Copy Request} (hs : Serving s tx caller (queue ++ [y]) permits)
    (hq : ∀ c ∈ queue, c.value.message.isClose = false) (hy : y.value.message.isClose = true) :
    ∃ actions t, run step s actions = some t ∧ y ∈ (t.outgoing.link tx).taken ∧
      t.sendTask tx = .stopped ∧ t.outgoing.tasks = s.outgoing.tasks ∧
      Meets step Clear s actions := by
  induction queue generalizing s permits with
  | nil =>
    obtain ⟨o, htake, htaken, htasks, _⟩ := hs.take
    let u : Server := { s with
      outgoing := o, sendTask := set s.sendTask tx (.writing y.value.message) }
    have hwrote : step (.wrote tx true) u = some (u.stopListener tx) := by
      simp [step, u, hy]
    refine ⟨[.receive tx, .wrote tx true], u.stopListener tx,
      run_cons.mpr ⟨u, htake, run_cons.mpr ⟨_, hwrote, rfl⟩⟩, ?_⟩
    simp only [stopListener, Outbox.stop, setLink_self, set_self, u]
    exact ⟨htaken, trivial, htasks, clear_write s tx⟩
  | cons c rest ih =>
    obtain ⟨t, hrun, ht, htasks, _⟩ := hs.write (hq c List.mem_cons_self)
    obtain ⟨actions, u, hrun', hy', hstopped, htasks', hclear⟩ :=
      ih ht fun d hd => hq d (List.mem_cons_of_mem _ hd)
    exact ⟨_, u, run_join hrun hrun', hy', hstopped, htasks'.trans htasks,
      meets_join hrun (clear_write s tx) hclear⟩

/-! ### Order -/

/-- What holds in a run whose callers do not call again too early. -/
structure Orderly (s : Server) : Prop where
  delivered : Delivered s
  sequential : Sequential s
  cancellable : Cancellable (fun r => r.future = true) s.outgoing
  ordered : ∀ tx, Ordered before (s.outgoing.account tx)
  /-- The blocked senders of a broadcast wait for nothing of its caller. -/
  blocked : ∀ caller l, s.loop caller = some l → ∀ tx ∈ l.blocked,
    Timely before (s.outgoing.account tx) l.request

theorem init_orderly : Orderly init := by
  refine ⟨init_delivered, init_sequential, cancellable_new _, fun tx => ?_, fun _ _ hl => nomatch hl⟩
  exact ⟨.nil, fun x hx => nomatch hx⟩

/-- On an open connection for which no task holds anything of the caller, all that
the caller sent has entered. -/
theorem Orderly.timely {s : Server} (hs : Orderly s) {caller : Nat} {tx : Sender} {r : Request}
    (hopen : (s.outgoing.account tx).closed = false) (hr : r.caller = caller)
    (hclear : r.future = false → NonePending s caller tx)
    (hlatest : ∀ c ∈ (s.outgoing.account tx).accepted, c.value.caller = caller →
      c.value.call ≤ r.call) : Timely before (s.outgoing.account tx) r := by
  refine ⟨fun x hx hb => ?_, fun y hy hb => ?_⟩
  · obtain ⟨hcaller, hxf, hrf, _⟩ := hb
    by_contra hne
    rcases (hs.delivered.ledger tx).outside_open hopen hx hne with hp | hc
    · rw [hclear hrf x hp (hcaller.trans hr)] at hxf
      cases hxf
    · rw [hs.cancellable.cancelled tx x hc] at hxf
      cases hxf
  · obtain ⟨hcaller, _, _, hlt⟩ := hb
    have := hlatest y hy (hcaller.symm.trans hr)
    omega

/-- What a step gives to a connection is timely. -/
theorem Orderly.gives {a : Action} {s : Server} (hs : Orderly s) (hclear : Clear a s)
    {tx : Sender} {r : Request} (hg : Gives a s tx r) : Timely before (s.outgoing.account tx) r := by
  cases a with
  | call caller ctx conn m =>
    obtain ⟨hsender, hcall, hcaller, hfuture, hopen⟩ := hg
    refine hs.timely hopen hcaller (fun hf => hclear (hfuture ▸ hf) tx hsender) fun c hc _ => ?_
    have := hs.sequential.called tx c hc
    omega
  | visit caller id =>
    obtain ⟨l, hl, hrecipient, rfl, hopen⟩ := hg
    exact hs.timely hopen (hs.sequential.loops caller l hl).1
      (fun _ => hclear l tx hl hrecipient) (hs.sequential.latest caller l hl tx)
  | finish caller =>
    obtain ⟨l, hl, htx, rfl⟩ := hg
    exact hs.blocked caller l hl tx htx
  | _ => exact hg.elim

/-- What a step gives to a connection comes neither before nor after the request of
a broadcast under way, unless it is another caller's. -/
theorem Gives.apart {a : Action} {s t : Server} (h : step a s = some t) (hs : Sequential s)
    {caller : Nat} {l : Loop} (hl : s.loop caller = some l) {tx : Sender} {r : Request}
    (hg : Gives a s tx r) : ¬ before r l.request ∧ ¬ before l.request r := by
  by_cases hcaller : r.caller = caller
  · rcases hg.source h hs with ⟨_, _, hnone⟩ | ⟨l2, hl2, rfl⟩
    · rw [hcaller, hl] at hnone
      cases hnone
    · rw [hcaller, hl] at hl2
      cases hl2
      exact ⟨before_irrefl _, before_irrefl _⟩
  · have hother := (hs.loops caller l hl).1
    exact ⟨fun hb => hcaller (hb.1.trans hother), fun hb => hcaller (hb.1.symm.trans hother)⟩

theorem step_orderly (a : Action) (s t : Server) (hs : Orderly s) (hclear : Clear a s)
    (h : step a s = some t) : Orderly t := by
  refine ⟨step_delivered a s t hs.delivered h, step_sequential a s t hs.sequential h, ?_, fun tx => ?_, ?_⟩
  · rcases step_event h with ho | ⟨e, hstep, hc, _⟩
    · rw [ho]
      exact hs.cancellable
    · exact step_cancellable hs.cancellable hc hstep
  · exact (hs.ordered tx).move before_irrefl (step_account h tx) (hs.delivered.ledger tx)
      fun r hg => hs.gives hclear hg
  · intro caller l' hl' tx htx
    rcases step_loop h hl' with ⟨l, hl, hr, hblocked⟩ | ⟨_, _, _, _, _, hnone⟩
    · rw [hr]
      rcases hblocked tx htx with htx | ⟨id, rfl, ho, hrecipient, hopen⟩
      · exact (hs.blocked caller l hl tx htx).move (step_account h tx)
          fun v hg => hg.apart h hs.sequential hl
      · rw [ho]
        exact hs.timely hopen (hs.sequential.loops caller l hl).1
          (fun _ => hclear l tx hl hrecipient) (hs.sequential.latest caller l hl tx)
    · rw [hnone] at htx
      cases htx

theorem Orderly.inOrder {s : Server} (hs : Orderly s) : InOrder s := fun tx _ hx _ hy hb =>
  (hs.ordered tx).taken before_irrefl (hs.delivered.ledger tx) hx hy hb

/-- **Calls are written in order while nobody calls again too early.** In a run in
which, whenever a caller's `send`, `close` or broadcast comes to a connection, none
of its earlier messages for it is still in a task, each connection gets the
messages of each caller in the order of the calls, in every state on the way. -/
theorem calls_in_order (actions : List Action) (hclear : Meets step Clear init actions) :
    Always step InOrder init actions :=
  always_mono (fun _ => Orderly.inOrder) (always_of_meets step_orderly actions hclear init_orderly)

/-- A caller fills the queue and sends one message more, which is left to a task. The listener
writes one message, the task gets its turn, and when the listener has written another the caller
closes the connection: all is written, in this order. -/
theorem calls_in_order_greeting :
    ∃ actions s x y, run step init actions = some s ∧ Always step InOrder init actions ∧
      (∃ first rest m, actions = first ++ rest ∧ run step init first = some m ∧
        x ∈ m.outgoing.pending 0) ∧
      x.value.message = .text "last" ∧ x ∈ (s.outgoing.link 0).taken ∧
      y.value.message.isClose = true ∧ y ∈ (s.outgoing.link 0).taken ∧
      (s.outgoing.link 0).taken.idxOf x < (s.outgoing.link 0).taken.idxOf y := by
  have hstart : ∃ s, run step init [.registry .register, .establish 0, .spawn 0] = some s ∧
      Serving s 0 0 [] channelBufferSize ∧ s.outgoing.tasks = [] :=
    ⟨_, rfl, ⟨rfl, rfl, rfl, rfl, rfl, rfl, rfl⟩, rfl⟩
  obtain ⟨s0, hrun0, hs0, htasks0⟩ := hstart
  obtain ⟨s1, full, hrun1, hs1, hlength, hfull, htasks1, hclear1⟩ :=
    hs0.fill "hi" _ fun _ hc => nomatch hc
  rw [htasks0] at htasks1 hclear1
  obtain ⟨s2, x, hstep2, hs2, hx, htasks2, hcalls2⟩ := hs1.full (sends_send "last")
  rw [htasks1] at htasks2
  match full, hlength, hfull with
  | c :: d :: rest, _, hfull =>
    obtain ⟨s3, hrun3, hs3, htasks3, hcalls3⟩ := hs2.write (hfull c List.mem_cons_self)
    obtain ⟨s4, left, hstep4, hs4, htasks4, hcalls4⟩ := hs3.resume (htasks3.trans htasks2)
    have hd : d.value.message.isClose = false := hfull d (List.mem_cons_of_mem _ List.mem_cons_self)
    obtain ⟨s5, hrun5, hs5, htasks5, hcalls5⟩ := hs4.write hd
    obtain ⟨s6, y, hstep6, hs6, hy, htasks6, _⟩ := hs5.room (sends_close 1000 "")
    have hrest : ∀ e ∈ rest ++ [x], e.value.message.isClose = false := by
      intro e he
      rcases List.mem_append.mp he with he | he
      · exact hfull e (List.mem_cons_of_mem _ (List.mem_cons_of_mem _ he))
      · rw [List.mem_singleton.mp he, hx]
        rfl
    obtain ⟨drain, s7, hrun7, htaken, _, _, hclear7⟩ := hs6.drain hrest (by rw [hy]; rfl)
    -- nobody calls before the tasks have nothing to send
    have hnone : ∀ task ∈ ([] : List (Task Sender Request)), task.sends = [] := nofun
    have hnone5 : ∀ task ∈ s5.outgoing.tasks, task.sends = [] := by
      rw [htasks5, htasks4]
      exact fun task htask => by rw [List.mem_singleton.mp htask]
    have hrunA := run_join (run_join hrun0 hrun1) (run_singleton hstep2)
    have hrunB := run_join hrun3 (run_cons.mpr ⟨s4, hstep4, hrun5⟩)
    have hrunC := run_cons.mpr ⟨s6, hstep6, hrun7⟩
    have hclearA : Meets step Clear init _ :=
      meets_join (run_join hrun0 hrun1)
        (meets_join hrun0 ⟨trivial, fun _ _ => ⟨trivial, fun _ _ => ⟨trivial, fun _ _ => trivial⟩⟩⟩
          (hclear1 hnone))
        (meets_singleton (clear_of_done (htasks1 ▸ hnone) 0 .worker 0 (.send (.str "last"))))
    have hclearB : Meets step Clear s2 _ :=
      meets_join hrun3 (clear_write s2 0) ((meets_cons hstep4).mpr ⟨trivial, clear_write s4 0⟩)
    have hclearC : Meets step Clear s5 _ :=
      (meets_cons hstep6).mpr ⟨clear_of_done hnone5 0 .worker 0 (.close 1000 ""), hclear7⟩
    have hrun := run_join hrunA (run_join hrunB hrunC)
    have hordered := calls_in_order _ (meets_join hrunA hclearA (meets_join hrunB hclearB hclearC))
    have hpending : x ∈ s2.outgoing.pending 0 := by
      rw [mem_pending, htasks2]
      exact ⟨_, List.mem_cons_self, List.mem_cons_self⟩
    have haccepted : x ∈ (s7.outgoing.account 0).accepted :=
      run_invariant (P := fun v : Server => x ∈ (v.outgoing.account 0).accepted)
        (fun _ _ _ hv hstep => by
          obtain ⟨new, hnew, _⟩ := (step_account hstep 0).grows
          rw [hnew]
          exact List.mem_append_left _ hv) _ (run_join hrunB hrunC)
        (((run_delivered hrunA).ledger 0).pending_accepted hpending)
    have hbefore : before x.value y.value := by
      rw [hx, hy]
      refine ⟨rfl, rfl, rfl, ?_⟩
      show s1.calls < s5.calls
      omega
    obtain ⟨hx', hlt⟩ := always_last hordered hrun 0 x haccepted y htaken hbefore
    exact ⟨_, s7, x, y, hrun, hordered, ⟨_, _, s2, rfl, hrunA, hpending⟩, by rw [hx], hx',
      by rw [hy]; rfl, htaken, hlt⟩
  | [_], hlength, _ => cases hlength
  | [], hlength, _ => cases hlength

/-! ### Calls that come too early -/

/-- A caller fills the queue and sends one message more, which is left to a task.
The listener writes one message, and before the task gets its turn the caller
closes the connection: the Close enters, is written, and the listener stops. -/
theorem close_overtakes :
    ∃ actions s x y, run step init actions = some s ∧
      x ∈ (s.outgoing.link 0).accepted ∧ x.value.message = .text "last" ∧
      y ∈ (s.outgoing.link 0).taken ∧ y.value.message.isClose = true ∧ before x.value y.value ∧
      x ∉ (s.outgoing.link 0).taken ∧ s.sendTask 0 = .stopped ∧ ¬ InOrder s := by
  have hstart : ∃ s, run step init [.registry .register, .establish 0, .spawn 0] = some s ∧
      Serving s 0 0 [] channelBufferSize :=
    ⟨_, rfl, rfl, rfl, rfl, rfl, rfl, rfl, rfl⟩
  obtain ⟨s0, hrun0, hs0⟩ := hstart
  obtain ⟨s1, full, hrun1, hs1, hlength, hfull, _⟩ := hs0.fill "hi" _ fun _ hc => nomatch hc
  obtain ⟨s2, x, hstep2, hs2, hx, htasks2, hcalls2⟩ := hs1.full (sends_send "last")
  cases full with
  | nil => cases hlength
  | cons c rest =>
    obtain ⟨s3, hrun3, hs3, htasks3, hcalls3⟩ := hs2.write (hfull c List.mem_cons_self)
    obtain ⟨s4, y, hstep4, hs4, hy, htasks4, _⟩ := hs3.room (sends_close 1000 "")
    obtain ⟨drain, s5, hrun5, htaken, hstopped, htasks5, _⟩ :=
      hs4.drain (fun d hd => hfull d (List.mem_cons_of_mem _ hd)) (by rw [hy]; rfl)
    have hrun := run_join (run_join hrun0 hrun1) (run_join (run_cons.mpr ⟨s2, hstep2, hrun3⟩)
      (run_cons.mpr ⟨s4, hstep4, hrun5⟩))
    have hledger := (run_delivered hrun).ledger 0
    have hpending : x ∈ (s5.outgoing.account 0).pending := by
      show x ∈ s5.outgoing.pending 0
      rw [mem_pending, htasks5, htasks4, htasks3, htasks2]
      exact ⟨_, List.mem_append_right _ List.mem_cons_self, List.mem_cons_self⟩
    have hnot : x ∉ (s5.outgoing.link 0).taken := fun hm =>
      hledger.pending_not_entered hpending (((List.prefix_append _ _).trans hledger.taken).subset hm)
    have hbefore : before x.value y.value := by
      rw [hx, hy]
      refine ⟨rfl, rfl, rfl, ?_⟩
      show s1.calls < s3.calls
      omega
    refine ⟨_, s5, x, y, hrun, hledger.pending_accepted hpending, by rw [hx], htaken, by rw [hy]; rfl,
      hbefore, hnot, hstopped, fun hin => ?_⟩
    exact hnot (hin 0 x (hledger.pending_accepted hpending) y htaken hbefore).1

end Webrockets.Server

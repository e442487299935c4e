import Webrockets.Broadcast
import Webrockets.Order

/-! Which calls find a runtime to leave their messages to.

A message that finds its queue full is left to a task, and `send`, `close` and the
two broadcasts start that task with `tokio::spawn`, which panics on a thread that
has no runtime. A synchronous callback runs on a worker of the runtime; a coroutine
runs on the event loop's thread, which has none.

`sending_returns` says when a call returns and has every copy queued or scheduled:
exactly when it is made where a runtime is, or no queue it comes to is full. -/
namespace Webrockets
open Transition Outbox

/-- The arguments that make a message. -/
inductive MessageArg where
  | str (s : String)
  | bytes (b : List UInt8)
  deriving DecidableEq, Repr

def MessageArg.value : MessageArg → PyValue
  | .str s => .str s
  | .bytes b => .bytes b

def MessageArg.message : MessageArg → Message
  | .str s => .text s
  | .bytes b => .binary b

@[simp] theorem tryFrom_value (msg : MessageArg) : Message.tryFrom msg.value = .ok msg.message := by
  cases msg <;> rfl

/-- The calls that spawn a task for what finds no room. -/
inductive Sending where
  | send (msg : MessageArg)
  | close (code : UInt16) (reason : String)
  | broadcast (groups : List String) (msg : MessageArg) (excludeSelf : Bool)
  | abroadcast (groups : List String) (msg : MessageArg) (excludeSelf : Bool)
  deriving DecidableEq, Repr

namespace Sending

def message : Sending → Message
  | .send msg => msg.message
  | .close code reason => .close code reason.toUTF8.data.toList
  | .broadcast _ msg _ => msg.message
  | .abroadcast _ msg _ => msg.message

/-- Who is to get a copy, once for every time it is listed. -/
def recipients (store : ChannelStore) (conn : Connection) : Sending → List Sender
  | .send _ => conn.sender.toList
  | .close _ _ => conn.sender.toList
  | .broadcast groups _ excludeSelf => store.recipients groups (if excludeSelf then conn.id else none)
  | .abroadcast groups _ excludeSelf => store.recipients groups (if excludeSelf then conn.id else none)

end Sending

/-- `broadcast` and `abroadcast` of a connection. -/
def Connection.broadcastVia (conn : Connection) (store : ChannelStore) (call : Call)
    (groups : List String) (msg : PyValue) (excludeSelf : Bool) (o : Outgoing) : Outcome × Outgoing :=
  match conn.broadcastArgs msg excludeSelf with
  | .error e => (.raised e, o)
  | .ok (message, exclude) =>
    store.broadcast call.ctx groups ⟨call.number, call.caller, false, message⟩ exclude o

/-- The call, with nothing running in between. -/
def Sending.perform (store : ChannelStore) (conn : Connection) (call : Call) (o : Outgoing) :
    Sending → Outcome × Outgoing
  | .send msg => conn.send call msg.value o
  | .close code reason => conn.close call code reason o
  | .broadcast groups msg excludeSelf => conn.broadcastVia store call groups msg.value excludeSelf o
  | .abroadcast groups msg excludeSelf => conn.broadcastVia store call groups msg.value excludeSelf o

/-- Every open recipient has a place for each of its copies. -/
def HasRoom (o : Outgoing) (txs : List Sender) : Prop :=
  ∀ tx ∈ txs, (o.link tx).queue.closed = false → txs.count tx ≤ (o.link tx).queue.permits

instance (o : Outgoing) (txs : List Sender) : Decidable (HasRoom o txs) :=
  inferInstanceAs (Decidable (∀ _ ∈ _, _))

/-! ### All calls are broadcasts to their recipients -/

/-- Tries the recipients in turn and leaves the rest to a task. -/
def sendAll (ctx : Context) (r : Request) (txs : List Sender) (o : Outgoing) : Outcome × Outgoing :=
  spawnBlocked ctx r (txs.foldl (tryAt r) (o, []))

theorem enqueue_eq {r : Request} (hr : r.future = false) (ctx : Context) (tx : Sender) (o : Outgoing) :
    enqueue ctx tx r o = sendAll ctx r [tx] o := by
  simp only [enqueue, sendAll, List.foldl_cons, List.foldl_nil, tryAt, hr]
  cases o.put tx r with
  | ok o' => rfl
  | error e => cases e <;> rfl

theorem broadcastVia_eq (conn : Connection) (tx : Sender) (id : ConnectionID) (store : ChannelStore)
    (call : Call) (groups : List String) (msg : MessageArg) (excludeSelf : Bool) (o : Outgoing) :
    (conn.establish tx id).broadcastVia store call groups msg.value excludeSelf o =
      sendAll call.ctx ⟨call.number, call.caller, false, msg.message⟩
        (store.recipients groups (if excludeSelf then some id else none)) o := by
  simp only [Connection.broadcastVia, Connection.broadcastArgs, Connection.establish, tryFrom_value,
    if_true, broadcast_eq]
  rfl

/-- On an established connection a call sends its message to its recipients. -/
theorem perform_eq (store : ChannelStore) (conn : Connection) (tx : Sender) (id : ConnectionID)
    (call : Call) (c : Sending) (o : Outgoing) :
    c.perform store (conn.establish tx id) call o =
      sendAll call.ctx ⟨call.number, call.caller, false, c.message⟩
        (c.recipients store (conn.establish tx id)) o := by
  cases c with
  | send msg =>
    simp only [Sending.perform, Connection.send, Connection.sendVia, Connection.establish,
      tryFrom_value]
    exact enqueue_eq rfl _ _ _
  | close code reason => exact enqueue_eq rfl _ _ _
  | broadcast groups msg excludeSelf | abroadcast groups msg excludeSelf =>
    exact broadcastVia_eq conn tx id store call groups msg excludeSelf o

/-! ### Who is left over -/

/-- A copy that enters a queue takes a place of it. -/
theorem tryAt_room (r : Request) (s : Outgoing × List Sender) (tx j : Sender) :
    ((tryAt r s tx).1.link j).queue.permits + ((tryAt r s tx).1.link j).queue.queue.length =
      (s.1.link j).queue.permits + (s.1.link j).queue.queue.length := by
  cases hput : s.1.put tx r with
  | ok o =>
    simp only [tryAt, hput]
    obtain ⟨_, _, hqueue, _, hother⟩ := put_queue hput
    by_cases hj : j = tx
    · subst hj
      have hpermits := put_permits hput
      rw [hqueue, List.length_append, List.length_singleton]
      omega
    · rw [hother j hj]
  | error e =>
    simp only [tryAt, hput]
    cases e <;> rfl

theorem foldl_room (r : Request) (txs : List Sender) (s : Outgoing × List Sender) (j : Sender) :
    ((txs.foldl (tryAt r) s).1.link j).queue.permits +
        ((txs.foldl (tryAt r) s).1.link j).queue.queue.length =
      (s.1.link j).queue.permits + (s.1.link j).queue.queue.length := by
  induction txs generalizing s with
  | nil => rfl
  | cons tx rest ih => exact (ih (tryAt r s tx)).trans (tryAt_room r s tx j)

/-- Nobody is left to a task exactly if there was room for all the copies. -/
theorem blocked_nil (r : Request) (txs : List Sender) (o : Outgoing) :
    (txs.foldl (tryAt r) (o, [])).2 = [] ↔ HasRoom o txs := by
  have htried := tried_foldl txs (tried_nil r o)
  have hroom (j : Sender) : _ = (o.link j).queue.permits + (o.link j).queue.queue.length :=
    foldl_room r txs (o, []) j
  rw [List.nil_append] at htried
  generalize txs.foldl (tryAt r) (o, []) = s at htried hroom
  obtain ⟨_, hshare, _, hfull⟩ := htried
  refine ⟨fun hnil tx _ hopen => ?_, fun h => ?_⟩
  · obtain ⟨queued, _, hqueue, hcount⟩ := hshare tx
    have hplaces := hroom tx
    rw [hqueue, List.length_append] at hplaces
    rw [hopen, hnil, List.count_nil] at hcount
    simp only [Bool.false_eq_true, if_false] at hcount
    omega
  · by_contra hne
    obtain ⟨tx, htx⟩ := List.exists_mem_of_ne_nil _ hne
    obtain ⟨queued, _, hqueue, hcount⟩ := hshare tx
    have hpos : 0 < s.2.count tx := List.count_pos_iff.mpr htx
    have hplaces := hroom tx
    rw [hqueue, List.length_append, hfull tx htx] at hplaces
    cases hopen : (o.link tx).queue.closed with
    | true =>
      rw [hopen, if_pos rfl] at hcount
      omega
    | false =>
      rw [hopen] at hcount
      simp only [Bool.false_eq_true, if_false] at hcount
      have hle := h tx (List.count_pos_iff.mp (by omega)) hopen
      omega

/-- What can come of it. -/
theorem sendAll_outcome (ctx : Context) (r : Request) (txs : List Sender) (o : Outgoing) :
    ((ctx.hasRuntime = true ∨ HasRoom o txs) ∧ (sendAll ctx r txs o).1 = .returned) ∨
      (¬ (ctx.hasRuntime = true ∨ HasRoom o txs) ∧ (sendAll ctx r txs o).1 = .panicked) := by
  simp only [← blocked_nil r txs o, sendAll, spawnBlocked]
  split
  · next hnil => exact .inl ⟨.inr (List.isEmpty_iff.mp hnil), rfl⟩
  · next hne =>
    rw [List.isEmpty_iff] at hne
    split
    · next hctx => exact .inl ⟨.inl hctx, rfl⟩
    · next hctx => exact .inr ⟨not_or.mpr ⟨hctx, hne⟩, rfl⟩

/-! ### Calls of the machine -/

namespace Server

/-- A step in which a call panics: a `send` or a `close`, or a broadcast at its end. -/
def Panics : Action → Server → Prop
  | .call caller ctx conn m, s => ((s.handle conn).invoke ⟨s.calls, caller, ctx⟩ m s.outgoing).1 = .panicked
  | .finish caller, s => ∃ l, s.loop caller = some l ∧
      (spawnBlocked l.ctx l.request (s.outgoing, l.blocked)).1 = .panicked
  | _, _ => False

/-- A call that finds an open queue full is made where a runtime is. -/
def Spawns : Action → Server → Prop
  | .call _ ctx conn m, s => m.future = false → ∀ tx, (s.handle conn).sender = some tx →
      ctx.hasRuntime = true ∨ HasRoom s.outgoing [tx]
  | .visit caller id, s => ∀ l tx, s.loop caller = some l → s.store.recipient l.exclude id = some tx →
      l.ctx.hasRuntime = true ∨ HasRoom s.outgoing [tx]
  | _, _ => True

/-- Broadcasts that have somebody left over can spawn. -/
def LeftOver (s : Server) : Prop :=
  ∀ caller l, s.loop caller = some l → l.blocked = [] ∨ l.ctx.hasRuntime = true

theorem tryAt_blocked (r : Request) (s : Outgoing × List Sender) (tx : Sender) :
    (tryAt r s tx).2 = s.2 ∨ ¬ HasRoom s.1 [tx] := by
  cases hput : s.1.put tx r with
  | ok o => exact .inl (by simp only [tryAt, hput])
  | error e =>
    cases e with
    | closed => exact .inl (by simp only [tryAt, hput])
    | full =>
      obtain ⟨hopen, hpermits⟩ := put_full.mp hput
      refine .inr fun hroom => ?_
      have hle := hroom tx List.mem_cons_self hopen
      rw [List.count_singleton_self] at hle
      omega

/-- A step writes to a broadcast of the caller, or leaves it as it is. -/
theorem leftOver_set {s t : Server} (hs : LeftOver s) {caller : Nat} {l : Option Loop}
    (ht : t.loop = set s.loop caller l)
    (hl : ∀ l', l = some l' → l'.blocked = [] ∨ l'.ctx.hasRuntime = true) : LeftOver t := by
  intro j l' hj
  rw [ht] at hj
  by_cases he : j = caller
  · subst he
    rw [set_self] at hj
    exact hl l' hj
  · rw [set_of_ne _ he] at hj
    exact hs j l' hj

theorem step_leftOver (a : Action) (s t : Server) (hs : LeftOver s) (hg : Spawns a s)
    (h : step a s = some t) : LeftOver t := by
  have hsame (ht : t.loop = s.loop) : LeftOver t := fun caller l hl => hs caller l (ht ▸ hl)
  cases a with
  | broadcast caller ctx b =>
    obtain ⟨_, rfl | ⟨message, exclude, _, rfl⟩⟩ := broadcast_some h
    · exact hsame rfl
    · apply leftOver_set hs rfl
      rintro l' ⟨⟩
      exact .inl rfl
  | enterGroup caller =>
    obtain ⟨l, group, groups, inside, hl, _, _, rfl⟩ := enterGroup_some h
    apply leftOver_set hs rfl
    rintro l' ⟨⟩
    exact hs caller l hl
  | visit caller id =>
    obtain ⟨l, inside, inside', hl, _, _, _, rfl⟩ := visit_some h
    apply leftOver_set hs rfl
    rintro l' ⟨⟩
    simp only [visit_eq]
    cases hr : s.store.recipient l.exclude id with
    | none => exact hs caller l hl
    | some tx =>
      rcases tryAt_blocked l.request (s.outgoing, l.blocked) tx with hb | hnot
      · rw [Option.elim_some, hb]
        exact hs caller l hl
      · exact .inr ((hg l tx hl hr).resolve_right hnot)
  | leaveGroup caller =>
    obtain ⟨l, inside, hl, _, _, rfl⟩ := leaveGroup_some h
    apply leftOver_set hs rfl
    rintro l' ⟨⟩
    exact hs caller l hl
  | finish caller =>
    obtain ⟨l, _, _, _, rfl⟩ := finish_some h
    apply leftOver_set hs rfl
    rintro l' ⟨⟩
  | _ => exact hsame ((step_untouched h).loop rfl)

/-- Of a connection's calls only `send` and `close` can panic. -/
theorem invoke_outcome {conn : Connection} {call : Call} {m : Connection.Method} {o : Outgoing}
    (h : m.future = false → ∀ tx, conn.sender = some tx →
      call.ctx.hasRuntime = true ∨ HasRoom o [tx]) : (conn.invoke call m o).1 ≠ .panicked := by
  have henqueue (tx : Sender) (r : Request) (hr : r.future = m.future) (hs : conn.sender = some tx) :
      (enqueue call.ctx tx r o).1 ≠ .panicked := by
    cases hm : m.future with
    | false =>
      rw [enqueue_eq (hr.trans hm)]
      rcases sendAll_outcome call.ctx r [tx] o with ⟨_, hout⟩ | ⟨hnot, _⟩
      · rw [hout]
        exact Outcome.noConfusion
      · exact absurd (h hm tx hs) hnot
    | true =>
      simp only [enqueue, hr.trans hm, if_true]
      split
      · exact Outcome.noConfusion
      · split <;> exact Outcome.noConfusion
      · exact Outcome.noConfusion
  cases hs : conn.sender with
  | none =>
    cases m <;> simp [Connection.invoke, Connection.send, Connection.asend, Connection.close,
      Connection.aclose, Connection.sendVia, Connection.closeVia, hs]
  | some tx =>
    cases m with
    | send msg | asend msg =>
      simp only [Connection.invoke, Connection.send, Connection.asend, Connection.sendVia, hs]
      cases Message.tryFrom msg with
      | error e => exact Outcome.noConfusion
      | ok message => exact henqueue tx _ rfl hs
    | close code reason | aclose code reason =>
      simp only [Connection.invoke, Connection.close, Connection.aclose, Connection.closeVia, hs]
      exact henqueue tx _ rfl hs

theorem not_panics {a : Action} {s : Server} (hs : LeftOver s) (hg : Spawns a s) : ¬ Panics a s := by
  cases a with
  | call caller ctx conn m => exact invoke_outcome hg
  | finish caller =>
    rintro ⟨l, hl, hp⟩
    simp only [spawnBlocked] at hp
    rcases hs caller l hl with hnil | hctx
    · simp [hnil] at hp
    · simp only [hctx, if_true] at hp
      split at hp <;> cases hp
  | _ => exact id

end Server

/-- **A call returns, with every copy queued or scheduled, exactly if it is made where a
runtime is or no queue it comes to is full.** Otherwise it panics. And in a run in which
every `send`, `close` or turn of a broadcast that finds an open queue full belongs to a
call made where a runtime is, no call panics, whatever runs in between. -/
theorem sending_returns (actions : List Server.Action) :
    (∀ (store : ChannelStore) (o : Outgoing) (conn : Connection) (tx : Sender) (id : ConnectionID)
        (call : Call) (c : Sending),
      let txs := c.recipients store (conn.establish tx id)
      let r : Request := ⟨call.number, call.caller, false, c.message⟩
      let safe := call.ctx.hasRuntime = true ∨ HasRoom o txs
      ((∃ o', c.perform store (conn.establish tx id) call o = (.returned, o') ∧
          ∀ tx, ∃ queued deferred, Share r o o' tx
            (if (o.link tx).queue.closed then 0 else txs.count tx) queued deferred) ↔ safe) ∧
        (¬ safe → (c.perform store (conn.establish tx id) call o).1 = .panicked)) ∧
    (Meets Server.step Server.Spawns Server.init actions →
      Meets Server.step (fun a s => ¬ Server.Panics a s) Server.init actions) := by
  refine ⟨fun store o conn tx id call c => ?_, fun hmeets => ?_⟩
  · intro txs r safe
    rw [perform_eq]
    rcases sendAll_outcome call.ctx r txs o with ⟨hsafe, hout⟩ | ⟨hnot, hout⟩
    · refine ⟨⟨fun _ => hsafe, fun _ => ?_⟩, fun hnot => absurd hsafe hnot⟩
      have hreturned : sendAll call.ctx r txs o = (.returned, (sendAll call.ctx r txs o).2) :=
        Prod.ext hout rfl
      exact ⟨_, hreturned, spawnBlocked_share hreturned⟩
    · refine ⟨⟨fun h => ?_, fun hsafe => absurd hsafe hnot⟩, fun _ => hout⟩
      obtain ⟨o', hreturned, _⟩ := h
      rw [hreturned] at hout
      cases hout
  · exact meets_of_guarded Server.step_leftOver (fun _ _ => Server.not_panics) actions hmeets
      (fun _ _ hl => nomatch hl)

/-- A coroutine that sends to a queue with room. -/
theorem sending_returns_greeting :
    Meets Server.step (fun a s => ¬ Server.Panics a s) Server.init [.registry .register, .establish 0,
      .spawn 0, .call 0 .eventLoop 0 (.send (.str "hi")), .receive 0] := by
  apply (sending_returns _).2
  iterate 3
    refine ⟨trivial, ?_⟩
    intro s hs
    cases hs
  refine ⟨?_, ?_⟩
  · intro _ tx htx
    cases htx
    exact .inr (by decide)
  · intro s hs
    cases hs
    refine ⟨trivial, ?_⟩
    intro s hs
    trivial

/-- A queue is filled, and then a coroutine sends, closes and broadcasts. -/
theorem eventLoop_panics :
    ∃ actions s, run Server.step Server.init actions = some s ∧ (s.handle 0).sender = some 0 ∧
      ∀ c ∈ [Sending.send (.str "last"), .close 1000 "", .broadcast ["chat"] (.str "last") false,
          .abroadcast ["chat"] (.str "last") false],
        (c.perform s.store (s.handle 0) ⟨s.calls, 0, .eventLoop⟩ s.outgoing).1 = .panicked := by
  have hstart : ∃ s, run Server.step Server.init [.registry .register, .registry (.join 1 "chat"),
        .establish 0, .spawn 0] = some s ∧ Server.Serving s 0 0 [] channelBufferSize ∧
      s.handle 0 = (Connection.new default none).establish 0 1 ∧
      s.store.recipients ["chat"] none = [0] :=
    ⟨_, rfl, ⟨rfl, rfl, rfl, rfl, rfl, rfl, rfl⟩, rfl, by decide⟩
  obtain ⟨s, hrun, hs, hhandle, hchat⟩ := hstart
  obtain ⟨t, full, hfill, ht, _⟩ := hs.fill "hi" _ fun _ hc => nomatch hc
  obtain ⟨hregistry, hkept⟩ := Server.run_calls_frame _ hfill
  have hstore : t.store = s.store := congrArg Registry.State.store hregistry
  refine ⟨_, t, run_join hrun hfill, ht.sender, fun c hc => ?_⟩
  rw [hstore, hkept, hhandle]
  have hrecipients : c.recipients s.store ((Connection.new default none).establish 0 1) = [0] := by
    simp only [List.mem_cons, List.not_mem_nil, or_false] at hc
    rcases hc with rfl | rfl | rfl | rfl
    · rfl
    · rfl
    · exact hchat
    · exact hchat
  have hnone : ¬ HasRoom t.outgoing [0] := by
    intro hroom
    have hle := hroom 0 List.mem_cons_self ht.opened
    rw [ht.permits] at hle
    cases hle
  rw [perform_eq, hrecipients]
  rcases sendAll_outcome .eventLoop ⟨t.calls, 0, false, c.message⟩ [0] t.outgoing with
    ⟨hsafe, _⟩ | ⟨_, hout⟩
  · exact hsafe.elim (fun hctx => nomatch hctx) fun hroom => absurd hroom hnone
  · exact hout

end Webrockets

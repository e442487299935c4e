import Webrockets.Order
import Webrockets.Library.Drain
import Mathlib.Algebra.Order.BigOperators.Group.Finset

/-! What a server does by itself when nobody calls any more.

`handle_client` establishes its connection and spawns `send_listener`, the listener
receives and writes, and the runtime polls the deferred tasks. Each of these steps
leaves less to do, by a rank that is the sum over the connections of what is queued,
pending and being written. So they come to an end, and `drains` says what is so then:
no task holds a message, and every listener that is still there has written all that
was accepted for its connection. -/
namespace Webrockets.Server
open Transition Outbox

/-- The steps that carry messages on. A poll that finds its send parked changes
nothing and is none of them. -/
def Delivers : Action → Server → Prop
  | .establish _, _ => True
  | .spawn _, _ => True
  | .receive _, _ => True
  | .wrote _ _, _ => True
  | .poll i, s => s.outgoing.ready i = true
  | _, _ => False

/-! ### What goes by numbers that were issued -/

/-- Whatever a connection is concerned in, its number was issued. -/
structure Issued (s : Server) : Prop where
  handles : ∀ conn tx, (s.handle conn).sender = some tx → conn = tx ∧ tx < s.registry.issued
  blocked : ∀ caller l, s.loop caller = some l → ∀ tx ∈ l.blocked, tx < s.registry.issued
  accepted : ∀ tx, ∀ c ∈ (s.outgoing.account tx).accepted, tx < s.registry.issued

theorem init_issued : Issued init :=
  ⟨fun _ _ h => (nomatch h), fun _ _ h => (nomatch h), fun _ _ h => nomatch h⟩

theorem step_issued_le {a : Action} {s t : Server} (h : step a s = some t) :
    s.registry.issued ≤ t.registry.issued := by
  rcases step_registry h with he | ⟨ra, hr⟩
  · rw [he]
  · exact Registry.step_issued hr

theorem recipient_issued {s : Server} (hn : Registry.Numbered s.registry) {exclude : Option ConnectionID}
    {id : ConnectionID} {tx : Sender} (h : s.store.recipient exclude id = some tx) :
    tx < s.registry.issued := by
  unfold ChannelStore.recipient at h
  split at h
  · cases h
  · exact (hn.sender id tx h).1

/-- A connection gets its sender when it is established, and keeps it. -/
theorem step_sender {a : Action} {s t : Server} (h : step a s = some t) {conn tx : Sender}
    (ht : (t.handle conn).sender = some tx) :
    (s.handle conn).sender = some tx ∨ (conn = tx ∧ tx < s.registry.issued) := by
  cases a with
  | establish k =>
    obtain ⟨hk, _, rfl⟩ := establish_some h
    dsimp only at ht
    by_cases hconn : conn = k
    · subst hconn
      rw [set_self] at ht
      obtain rfl : conn = tx := Option.some.inj ht
      exact .inr ⟨rfl, hk⟩
    · rw [set_of_ne _ hconn] at ht
      exact .inl ht
  | registry ra =>
    obtain ⟨_, _, rfl⟩ := registry_some h
    exact .inl ht
  | spawn tx =>
    obtain ⟨_, _, rfl⟩ := spawn_some h
    exact .inl ht
  | call caller ctx conn m =>
    obtain ⟨_, rfl⟩ := call_some h
    exact .inl ht
  | broadcast caller ctx b =>
    obtain ⟨_, rfl | ⟨_, _, _, rfl⟩⟩ := broadcast_some h <;> exact .inl ht
  | enterGroup caller =>
    obtain ⟨_, _, _, _, _, _, _, rfl⟩ := enterGroup_some h
    exact .inl ht
  | visit caller id =>
    obtain ⟨_, _, _, _, _, _, _, rfl⟩ := visit_some h
    exact .inl ht
  | leaveGroup caller =>
    obtain ⟨_, _, _, _, _, rfl⟩ := leaveGroup_some h
    exact .inl ht
  | finish caller =>
    obtain ⟨_, _, _, _, rfl⟩ := finish_some h
    exact .inl ht
  | poll i =>
    obtain ⟨_, _, rfl⟩ := poll_some h
    exact .inl ht
  | cancel i =>
    obtain ⟨_, _, rfl⟩ := cancel_some h
    exact .inl ht
  | receive tx =>
    obtain ⟨_, _, _, _, rfl⟩ := receive_some h
    exact .inl ht
  | wrote tx ok =>
    obtain ⟨_, _, ⟨_, _, rfl⟩ | rfl⟩ := wrote_some h <;> exact .inl ht
  | abort tx =>
    obtain ⟨_, _, rfl⟩ := abort_some h
    exact .inl ht

theorem Issued.step {a : Action} {s t : Server} (hs : Issued s)
    (hn : Registry.Numbered s.registry) (h : Server.step a s = some t) : Issued t := by
  have hle := step_issued_le h
  refine ⟨fun conn tx hsender => ?_, fun caller l' hl' tx htx => ?_, fun tx c hc => ?_⟩
  · rcases step_sender h hsender with hold | ⟨rfl, hlt⟩
    · exact (hs.handles conn tx hold).imp_right fun hlt => Nat.lt_of_lt_of_le hlt hle
    · exact ⟨rfl, Nat.lt_of_lt_of_le hlt hle⟩
  · rcases step_loop h hl' with ⟨l, hl, _, hblocked⟩ | ⟨_, _, _, _, _, hnone⟩
    · rcases hblocked tx htx with htx | ⟨id, _, _, hrecipient, _⟩
      · exact Nat.lt_of_lt_of_le (hs.blocked caller l hl tx htx) hle
      · exact Nat.lt_of_lt_of_le (recipient_issued hn hrecipient) hle
    · rw [hnone] at htx
      cases htx
  · refine Nat.lt_of_lt_of_le ?_ hle
    rcases (step_account h tx).given hc with hold | hgives
    · exact hs.accepted tx c hold
    · cases a with
      | call caller ctx conn m => exact (hs.handles conn tx hgives.1).2
      | visit caller id =>
        obtain ⟨l, _, hrecipient, _⟩ := hgives
        exact recipient_issued hn hrecipient
      | finish caller =>
        obtain ⟨l, hl, htx, _⟩ := hgives
        exact hs.blocked caller l hl tx htx
      | _ => exact hgives.elim

/-- All that a run keeps and the drain of the queues rests on. -/
structure Running (s : Server) : Prop where
  numbered : Registry.Numbered s.registry
  issued : Issued s
  delivered : Delivered s
  ticketed : Ticketed s.outgoing

theorem init_running : Running init :=
  ⟨Registry.init_numbered, init_issued, init_delivered, ticketed_new⟩

theorem step_running (a : Action) (s t : Server) (hs : Running s) (h : step a s = some t) :
    Running t where
  numbered := step_numbered a s t hs.numbered h
  issued := hs.issued.step hs.numbered h
  delivered := step_delivered a s t hs.delivered h
  ticketed := by
    rcases step_event h with ho | ⟨e, he, _⟩
    · rw [ho]
      exact hs.ticketed
    · exact hs.ticketed.step he

theorem run_running {actions : List Action} {s : Server} (h : run step init actions = some s) :
    Running s :=
  run_invariant step_running actions h init_running

namespace Running
variable {s : Server} (h : Running s) {tx : Sender}
include h

theorem closed_iff : (s.outgoing.link tx).queue.closed = true ↔ s.sendTask tx = .stopped :=
  h.delivered.agrees.1 tx

theorem opened (hl : s.sendTask tx ≠ .stopped) : (s.outgoing.link tx).queue.closed = false := by
  simpa using mt h.closed_iff.mp hl

/-- What was taken or is queued was accepted, so its number was issued. -/
theorem issued_of_mem {c : Copy Request}
    (hc : c ∈ (s.outgoing.account tx).taken ++ (s.outgoing.account tx).queue) :
    tx < s.registry.issued :=
  h.issued.accepted tx c
    ((h.delivered.ledger tx).entered_accepted ((h.delivered.ledger tx).taken.subset hc))

/-- A number that was not issued has nothing in its queue and nothing pending. -/
theorem unissued (htx : ¬ tx < s.registry.issued) :
    (s.outgoing.link tx).queue.queue = [] ∧ s.outgoing.pending tx = [] := by
  refine ⟨List.eq_nil_iff_forall_not_mem.mpr fun c hc => htx ?_,
    List.eq_nil_iff_forall_not_mem.mpr fun c hc => htx ?_⟩
  · exact h.issued_of_mem (List.mem_append_right _ hc)
  · exact h.issued.accepted tx c ((h.delivered.ledger tx).pending_accepted hc)

end Running

/-! ### What is left to do -/

/-- What the listener is still to do besides what is queued. -/
def listening : SendTask → Nat
  | .unspawned => 1
  | .writing _ => 1
  | _ => 0

def leftAt (s : Server) (tx : Sender) : Nat :=
  (s.handle tx).sender.isNone.toNat + listening (s.sendTask tx) + s.outgoing.load tx

def left (s : Server) : Nat := ∑ tx ∈ Finset.range s.registry.issued, s.leftAt tx

/-- Less to do at one connection that was issued, and as much at the others. -/
theorem left_lt {s t : Server} (tx : Sender) (hr : t.registry = s.registry)
    (htx : tx < s.registry.issued) (hlt : t.leftAt tx < s.leftAt tx)
    (hother : ∀ j, j ≠ tx → t.leftAt j = s.leftAt j) : t.left < s.left := by
  rw [left, left, hr]
  refine Finset.sum_lt_sum (fun j _ => ?_) ⟨tx, Finset.mem_range.mpr htx, hlt⟩
  by_cases hj : j = tx
  · subst hj
    exact Nat.le_of_lt hlt
  · exact Nat.le_of_eq (hother j hj)

/-- Every step that carries messages on leaves less to do. -/
theorem step_left {a : Action} {s t : Server} (hs : Running s) (hd : Delivers a s)
    (h : step a s = some t) : t.left < s.left := by
  cases a with
  | establish tx =>
    obtain ⟨htx, hnone, rfl⟩ := establish_some h
    refine left_lt tx rfl htx ?_ fun j hj => ?_
    · simp [leftAt, hnone, Connection.establish]
    · simp only [leftAt, set_of_ne _ hj]
  | spawn tx =>
    obtain ⟨hsender, hu, rfl⟩ := spawn_some h
    refine left_lt tx rfl (hs.issued.handles tx tx hsender).2 ?_ fun j hj => ?_
    · simp [leftAt, hu, listening]
    · simp only [leftAt, set_of_ne _ hj]
  | receive tx =>
    obtain ⟨c, o, hr, htake, rfl⟩ := receive_some h
    obtain ⟨hload, hother⟩ := take_load htake (hs.opened (by simp [hr]))
    refine left_lt tx rfl ?_ ?_ fun j hj => ?_
    · refine hs.issued_of_mem (c := c) (List.mem_append_right _ ?_)
      rw [(take_some htake).1]
      exact List.mem_cons_self
    · simp only [leftAt, set_self, hr, listening]
      omega
    · simp only [leftAt, set_of_ne _ hj, hother j hj]
  | wrote tx ok =>
    obtain ⟨m, hm, hgoes⟩ := wrote_some h
    have htx : tx < s.registry.issued := by
      have hclose := hs.delivered.agrees.2 tx
      rw [hm] at hclose
      obtain ⟨before, c, htaken, _, _⟩ := hclose
      refine hs.issued_of_mem (c := c) (List.mem_append_left _ ?_)
      rw [htaken]
      exact List.mem_append_right _ List.mem_cons_self
    rcases hgoes with ⟨_, _, rfl⟩ | rfl
    · refine left_lt tx rfl htx ?_ fun j hj => ?_
      · simp [leftAt, hm, listening]
      · simp only [leftAt, set_of_ne _ hj]
    · obtain ⟨hload, hother⟩ := stop_load s.outgoing tx
      refine left_lt tx rfl htx ?_ fun j hj => ?_
      · simp only [leftAt, stopListener, set_self, hm, listening]
        omega
      · simp only [leftAt, stopListener, set_of_ne _ hj, hother j hj]
  | poll i =>
    obtain ⟨o, hpoll, rfl⟩ := poll_some h
    obtain ⟨tx, hlt, hother⟩ := hs.ticketed.poll_load hd hpoll
    refine left_lt tx rfl ?_ ?_ fun j hj => ?_
    · by_contra htx
      obtain ⟨hqueue, hpending⟩ := hs.unissued htx
      simp [load, hqueue, hpending] at hlt
    · exact Nat.add_lt_add_left hlt _
    · simp only [leftAt, hother j hj]
  | _ => exact hd.elim

/-! ### What it comes to -/

/-- Carrying messages on accepts none, drops none from a future, and registers nobody. -/
theorem delivers_kept {a : Action} {s t : Server} (hd : Delivers a s) (h : step a s = some t)
    (tx : Sender) : (t.outgoing.link tx).accepted = (s.outgoing.link tx).accepted ∧
      (t.outgoing.link tx).cancelled = (s.outgoing.link tx).cancelled := by
  have hset : ∀ {k : Sender} {l : Link channelBufferSize Request}, l.accepted = (s.outgoing.link k).accepted →
      l.cancelled = (s.outgoing.link k).cancelled →
      ((s.outgoing.setLink k l).link tx).accepted = (s.outgoing.link tx).accepted ∧
        ((s.outgoing.setLink k l).link tx).cancelled = (s.outgoing.link tx).cancelled := by
    intro k l ha hc
    by_cases htx : tx = k
    · subst htx
      rw [setLink_self]
      exact ⟨ha, hc⟩
    · rw [setLink_of_ne _ htx]
      exact ⟨rfl, rfl⟩
  cases a with
  | establish k =>
    obtain ⟨_, _, rfl⟩ := establish_some h
    exact ⟨rfl, rfl⟩
  | spawn k =>
    obtain ⟨_, _, rfl⟩ := spawn_some h
    exact ⟨rfl, rfl⟩
  | receive k =>
    obtain ⟨c, o, _, htake, rfl⟩ := receive_some h
    simp only [take] at htake
    split at htake
    · cases htake
      exact hset rfl rfl
    · cases htake
  | wrote k ok =>
    obtain ⟨_, _, ⟨_, _, rfl⟩ | rfl⟩ := wrote_some h
    · exact ⟨rfl, rfl⟩
    · exact hset rfl rfl
  | poll i =>
    obtain ⟨o, hpoll, rfl⟩ := poll_some h
    simp only [Outbox.poll] at hpoll
    split at hpoll
    · split at hpoll <;>
      · cases hpoll
        exact hset rfl rfl
    · cases hpoll
  | _ => exact hd.elim

/-- The listener has stopped because of a Close that it wrote. -/
def ClosedBy (s : Server) (tx : Sender) : Prop :=
  ∃ c, (s.outgoing.link tx).taken.getLast? = some c ∧ c.value.message.isClose = true

/-- A listener stops when its writer fails or has written a Close, and takes nothing after. -/
theorem delivers_stopped {a : Action} {s t : Server} (hs : Running s) (hd : Delivers a s)
    (h : step a s = some t) (tx : Sender) (hstopped : t.sendTask tx = .stopped) :
    (s.sendTask tx = .stopped ∧ (t.outgoing.link tx).taken = (s.outgoing.link tx).taken) ∨
      a = .wrote tx false ∨ ClosedBy t tx := by
  cases a with
  | establish k =>
    obtain ⟨_, _, rfl⟩ := establish_some h
    exact .inl ⟨hstopped, rfl⟩
  | spawn k =>
    obtain ⟨_, _, rfl⟩ := spawn_some h
    dsimp only at hstopped
    by_cases htx : tx = k
    · subst htx
      rw [set_self] at hstopped
      cases hstopped
    · rw [set_of_ne _ htx] at hstopped
      exact .inl ⟨hstopped, rfl⟩
  | receive k =>
    obtain ⟨c, o, _, htake, rfl⟩ := receive_some h
    dsimp only at hstopped
    by_cases htx : tx = k
    · subst htx
      rw [set_self] at hstopped
      cases hstopped
    · rw [set_of_ne _ htx] at hstopped
      exact .inl ⟨hstopped, congrArg Account.taken ((take_some htake).2.2.2 tx htx)⟩
  | wrote k ok =>
    obtain ⟨m, hm, ⟨_, _, rfl⟩ | rfl⟩ := wrote_some h
    · dsimp only at hstopped
      by_cases htx : tx = k
      · subst htx
        rw [set_self] at hstopped
        cases hstopped
      · rw [set_of_ne _ htx] at hstopped
        exact .inl ⟨hstopped, rfl⟩
    · by_cases htx : tx = k
      · subst htx
        cases ok with
        | false => exact .inr (.inl rfl)
        | true =>
          -- the writer was fine, so it was a Close
          have hclose : m.isClose = true := by
            by_contra hne
            have hgo : step (.wrote tx true) s =
                some { s with sendTask := set s.sendTask tx .receiving } := by
              simp only [step, hm, Bool.not_eq_true _ ▸ hne, and_self, if_true]
            have heq := congrArg (fun s : Server => s.sendTask tx) (Option.some.inj (hgo.symm.trans h))
            rw [hstopped] at heq
            simp at heq
          have hlast := hs.delivered.agrees.2 tx
          rw [hm] at hlast
          obtain ⟨before, c, htaken, hc, _⟩ := hlast
          refine .inr (.inr ⟨c, ?_, hc ▸ hclose⟩)
          show ((s.outgoing.stop tx).account tx).taken.getLast? = some c
          rw [stop_account, htaken]
          exact List.getLast?_concat
      · simp only [stopListener, set_of_ne _ htx] at hstopped
        exact .inl ⟨hstopped, congrArg Account.taken (stop_account_of_ne s.outgoing htx)⟩
  | poll i =>
    obtain ⟨o, hpoll, rfl⟩ := poll_some h
    exact .inl ⟨hstopped, (poll_feed hpoll tx).kept.1⟩
  | _ => exact hd.elim

/-- What is so of a state that a run of such steps has led to. -/
structure Carried (more : List Action) (s t : Server) : Prop where
  running : Running t
  accepted : ∀ tx, (t.outgoing.link tx).accepted = (s.outgoing.link tx).accepted
  cancelled : ∀ tx, (t.outgoing.link tx).cancelled = (s.outgoing.link tx).cancelled
  stopped : ∀ tx, t.sendTask tx = .stopped →
    s.sendTask tx = .stopped ∨ .wrote tx false ∈ more ∨ ClosedBy t tx

theorem Carried.step {more : List Action} {a : Action} {s t u : Server} (hs : Carried more s t)
    (hd : Delivers a t) (ha : a ∈ more) (h : Server.step a t = some u) : Carried more s u where
  running := step_running a t u hs.running h
  accepted := fun tx => (delivers_kept hd h tx).1.trans (hs.accepted tx)
  cancelled := fun tx => (delivers_kept hd h tx).2.trans (hs.cancelled tx)
  stopped := fun tx hstopped => by
    rcases delivers_stopped hs.running hd h tx hstopped with ⟨hearlier, htaken⟩ | rfl | hclosed
    · refine (hs.stopped tx hearlier).imp_right (Or.imp_right fun ⟨c, hc, hclose⟩ => ⟨c, ?_, hclose⟩)
      rw [htaken]
      exact hc
    · exact .inr (.inl ha)
    · exact .inr (.inr hclosed)

theorem carried {more : List Action} {s t : Server} (hs : Running s)
    (h : run Server.step s more = some t) (hd : Meets Server.step Delivers s more) :
    Carried more s t := by
  have hmeets := meets_and hd (meets_of_forall (G := fun a _ => a ∈ more) (fun _ ha _ => ha) s)
  refine always_last (always_of_meets (fun _ _ _ hu hg hstep => ?_) more hmeets ?_) h
  · exact hu.step hg.1 hg.2 hstep
  · exact ⟨hs, fun _ => rfl, fun _ => rfl, fun _ h => .inl h⟩

/-- Where none of these steps is left, every listener that is there has nothing to receive. -/
theorem Running.idle {s : Server} (hs : Running s) (hsettled : Settled step Delivers s) {tx : Sender}
    (hl : s.sendTask tx ≠ .stopped) : (s.outgoing.link tx).queue.queue = [] := by
  by_cases htx : tx < s.registry.issued
  · cases hsender : (s.handle tx).sender with
    | none =>
      have hestablish := hsettled (.establish tx) trivial
      simp [step, htx, hsender] at hestablish
    | some k =>
      obtain ⟨rfl, _⟩ := hs.issued.handles tx k hsender
      cases htask : s.sendTask tx with
      | unspawned =>
        have hspawn := hsettled (.spawn tx) trivial
        simp [step, hsender, htask] at hspawn
      | writing m =>
        have hwrote := hsettled (.wrote tx false) trivial
        simp [step, htask] at hwrote
      | stopped => exact absurd htask hl
      | receiving =>
        have hreceive := hsettled (.receive tx) trivial
        cases hqueue : (s.outgoing.link tx).queue.queue with
        | nil => rfl
        | cons c rest =>
          obtain ⟨o, htake⟩ := take_of_cons hqueue
          simp [step, htask, htake] at hreceive
  · exact (hs.unissued htx).1

theorem Running.tasks_done {s : Server} (hs : Running s) (hsettled : Settled step Delivers s) :
    ∀ task ∈ s.outgoing.tasks, task.sends = [] := by
  refine hs.ticketed.done_of_unready (by decide) (fun i => ?_) fun tx hopen => ?_
  · by_contra hready
    have hpoll := hsettled (.poll i) (by simpa [Delivers] using hready)
    simp only [ready] at hready
    split at hready
    · next k c rest future ht =>
      simp only [step, Outbox.poll, ht] at hpoll
      split at hpoll <;> cases hpoll
    · exact hready rfl
  · refine hs.idle hsettled fun hstopped => ?_
    rw [hs.closed_iff.mpr hstopped] at hopen
    cases hopen

/-- There a connection whose listener is there has nothing left to be taken. -/
theorem Running.finished {s : Server} (hs : Running s) (hsettled : Settled step Delivers s) {tx : Sender}
    (hl : s.sendTask tx ≠ .stopped) :
    (s.outgoing.link tx).accepted.Perm ((s.outgoing.link tx).taken ++ (s.outgoing.link tx).cancelled) ∧
      (s.outgoing.link tx).entered = (s.outgoing.link tx).taken := by
  have hqueue : (s.outgoing.account tx).queue = [] := hs.idle hsettled hl
  have hpending : (s.outgoing.account tx).pending = [] := by
    refine List.eq_nil_iff_forall_not_mem.mpr fun c hc => ?_
    obtain ⟨task, htask, hmem⟩ := mem_pending.mp hc
    rw [hs.tasks_done hsettled task htask] at hmem
    cases hmem
  have hledger := hs.delivered.ledger tx
  have hopen : (s.outgoing.account tx).closed = false := hs.opened hl
  have hflow := hledger.flow hopen
  have hbalance := hledger.balance
  rw [hqueue, List.append_nil] at hflow
  rw [hflow, hpending, hledger.refused hopen] at hbalance
  exact ⟨hbalance, hflow⟩

/-- **Whatever was accepted is delivered unless its connection ends.** From every state that a run
reaches, the steps that carry messages on come to an end by themselves, after at most as many as
are `left`, and can always be carried on to an end. There no task holds a message any more, and
for every connection whose listener is still there all that was accepted before has been written,
but for what was cancelled, in the order in which it entered. A listener that was there before is
gone only because its writer failed or because it has written a Close. -/
theorem drains (actions : List Action) (s : Server) (h : run step init actions = some s) :
    (∀ more t, run step s more = some t → Meets step Delivers s more → more.length + t.left ≤ s.left) ∧
    (∃ more t, run step s more = some t ∧ Meets step Delivers s more ∧ Settled step Delivers t) ∧
    ∀ more t, run step s more = some t → Meets step Delivers s more → Settled step Delivers t →
      (∀ task ∈ t.outgoing.tasks, task.sends = []) ∧
      (∀ tx, t.sendTask tx ≠ .stopped →
        (s.outgoing.link tx).accepted.Perm
          ((t.outgoing.link tx).taken ++ (s.outgoing.link tx).cancelled) ∧
        t.written tx = (t.outgoing.link tx).entered.map fun c => c.value.message.frame) ∧
      ∀ tx, t.sendTask tx = .stopped →
        s.sendTask tx = .stopped ∨ .wrote tx false ∈ more ∨ ClosedBy t tx := by
  have hs := run_running h
  have hstep : ∀ a s t, Running s → Delivers a s → step a s = some t → Running t ∧ t.left < s.left :=
    fun a s t hs hd hst => ⟨step_running a s t hs hst, step_left hs hd hst⟩
  refine ⟨fun more t hrun hmeets => length_add_rank_le hstep more hs hmeets hrun,
    exists_settled hstep hs, fun more t hrun hmeets hsettled => ?_⟩
  have hcarried := carried hs hrun hmeets
  have ht := hcarried.running
  refine ⟨ht.tasks_done hsettled, fun tx hl => ?_, hcarried.stopped⟩
  obtain ⟨hbalance, hflow⟩ := ht.finished hsettled hl
  refine ⟨?_, (congrArg (List.map _) hflow).symm⟩
  rw [← hcarried.accepted tx, ← hcarried.cancelled tx]
  exact hbalance

/-- A message sent before there is a listener. -/
theorem drains_greeting :
    ∃ s more t, run step init [.registry .register, .establish 0, .call 0 .worker 0 (.send (.str "hi"))] =
        some s ∧ s.written 0 = [] ∧ run step s more = some t ∧ more.length ≤ s.left ∧
      (t.sendTask 0 ≠ .stopped → t.written 0 = [⟨.text, [104, 105]⟩]) := by
  let s := (run step init [.registry .register, .establish 0,
    .call 0 .worker 0 (.send (.str "hi"))]).get (by decide)
  have hrun : run step init _ = some s := (Option.some_get _).symm
  obtain ⟨hbound, ⟨more, t, hmore, hmeets, hsettled⟩, hend⟩ := drains _ s hrun
  refine ⟨s, more, t, hrun, by decide, hmore, ?_, fun hl => ?_⟩
  · exact Nat.le_trans (Nat.le_add_right _ _) (hbound more t hmore hmeets)
  · have hperm := ((hend more t hmore hmeets hsettled).2.1 0 hl).1
    have haccepted : (s.outgoing.link 0).accepted = [⟨0, 0, 0, false, .text "hi"⟩] := by decide
    have hcancelled : (s.outgoing.link 0).cancelled = [] := by decide
    rw [haccepted, hcancelled, List.append_nil] at hperm
    rw [written, ← List.singleton_perm.mp hperm]
    decide

end Webrockets.Server

import Webrockets.Lifecycle

/-! The order of the callbacks of a request.

Authentication, `connect_before`, `connect_after`, the receive callbacks and the disconnect
callback are called by an HTTP handler, a blocking task, a coroutine and a spawned task
that another one can abort. `callback_order` says in which order the record of a run has
them, whatever the frames, the failures and the schedule. -/
namespace Webrockets
open Transition

/-! ### The order -/

def Entry.rank : Entry → Nat
  | .authenticated => 0
  | .before => 1
  | .beforeDone => 2
  | .after _ => 3
  | .receive _ _ => 4
  | .disconnect _ => 5

def Entry.frame : Entry → Nat
  | .receive n _ => n
  | _ => 0

/-- No entry precedes itself, so what is ordered by it has each callback once, and the
receive callbacks once for a frame. -/
def Entry.Precedes (a b : Entry) : Prop :=
  a.rank < b.rank ∨ a.rank = b.rank ∧ a.frame < b.frame

theorem Entry.rank_of_call {e : Entry} (h : e.call.isSome = true) : 3 ≤ e.rank := by
  cases e with
  | authenticated | before | beforeDone => cases h
  | after call | receive n call | disconnect call =>
    simp only [rank]
    omega

/-! ### The handshake -/

/-- What can be recorded of a handshake. -/
def openings : List Entry := [.authenticated, .before, .beforeDone]

theorem rank_of_opening {e : Entry} (h : e ∈ openings) : e.rank ≤ 2 := by
  simp only [openings, List.mem_cons, List.not_mem_nil, or_false] at h
  rcases h with rfl | rfl | rfl <;> decide

theorem openings_ordered : openings.Pairwise Entry.Precedes := by
  simp [openings, Entry.Precedes, Entry.rank]

/-- Authenticated, and `connect_before` has finished without an error where there is one. -/
structure Passed (r : Upgrade) (view : WebsocketRoute) (opening : List Entry) : Prop where
  handler : r.handler = some view
  authenticated : .authenticated ∈ opening
  finished : view.connectBeforeCallback.isSome = true → opening = openings

/-- Nothing is awaited any more. -/
def Handshake.Quiet (h : Handshake) : Prop := ∀ todo, h.coroutine ≠ some ⟨todo, none⟩

/-- What has been recorded at each stage. -/
def Reached (r : Upgrade) (h : Handshake) (opening : List Entry) : Prop :=
  match h.stage with
  | .arrived => opening = [] ∧ h.coroutine = none
  | .found view => r.handler = some view ∧ opening = [] ∧ h.coroutine = none
  | .authenticated view => r.handler = some view ∧ opening = [.authenticated] ∧ h.coroutine = none
  | .invoked | .copied _ =>
    -- passed, once the coroutine has returned
    ∃ view, r.handler = some view ∧ .authenticated ∈ opening ∧
      ((h.coroutine = none ∨ ∃ c, h.coroutine = some c ∧ c.ended = some .returned) →
        Passed r view opening)
  | .connected _ | .accepted _ _ => h.Quiet ∧ ∃ view, Passed r view opening
  | .rejected _ => True

/-- The record of a handshake. -/
structure Opened (r : Upgrade) (h : Handshake) (opening : List Entry) : Prop where
  begun : opening <+: openings
  pending : ∀ todo, h.coroutine = some ⟨todo, none⟩ → opening = [.authenticated, .before]
  reached : Reached r h opening

section Handshake

variable {r : Upgrade} {s t : Handshake} {opening : List Entry}

theorem start_opened (r : Upgrade) : Opened r (.start r) [] :=
  ⟨List.nil_prefix, fun _ hc => (by cases hc), rfl, rfl⟩

theorem Opened.reject (h : Opened r s opening) (response : Response) :
    Opened r (s.reject response) opening :=
  ⟨h.begun, h.pending, trivial⟩

theorem Opened.lookup (h : Opened r s opening) (hstage : s.stage = .arrived) :
    Opened r (s.lookup r) opening := by
  have hr := h.reached
  simp only [Reached, hstage] at hr
  simp only [Handshake.lookup]
  split
  · next view hview => exact ⟨h.begun, h.pending, hview, hr⟩
  · exact h.reject _

theorem Opened.authenticate {view : WebsocketRoute} (h : Opened r s opening)
    (hstage : s.stage = .found view) :
    Opened r (s.authenticate r view)
      (opening ++ handshakeEntries .authenticate s (s.authenticate r view)) := by
  have hr := h.reached
  simp only [Reached, hstage] at hr
  obtain ⟨hview, rfl, hnone⟩ := hr
  simp only [Handshake.authenticate]
  split
  · refine ⟨⟨[.before, .beforeDone], rfl⟩, fun todo hc => ?_, hview, rfl, hnone⟩
    cases hnone.symm.trans hc
  · exact h.reject _

theorem Opened.invoke {view : WebsocketRoute} (h : Opened r s opening)
    (hstage : s.stage = .authenticated view) :
    Opened r (s.invoke r view)
      (opening ++ handshakeEntries (.invoke false) s (s.invoke r view)) := by
  have hr := h.reached
  simp only [Reached, hstage] at hr
  obtain ⟨hview, rfl, hnone⟩ := hr
  simp only [handshakeEntries, hstage, Handshake.invoke, Bool.false_or]
  cases hcb : view.connectBeforeCallback with
  | none =>
    have hpassed : Passed r view [.authenticated] :=
      ⟨hview, List.mem_singleton.mpr rfl, fun hs => by rw [hcb] at hs; cases hs⟩
    exact ⟨h.begun, h.pending, view, hview, hpassed.authenticated, fun _ => hpassed⟩
  | some cb =>
    cases hasync : cb.isAsync with
    | true =>
      simp only [hasync, if_true]
      refine ⟨⟨[.beforeDone], rfl⟩, fun _ _ => rfl, view, hview, List.mem_cons_self, fun hc => ?_⟩
      -- the coroutine has not even begun
      rcases hc with hc | ⟨c, hc, hended⟩ <;> cases hc
      cases hended
    | false =>
      simp only [hasync, Bool.false_eq_true, if_false]
      refine ⟨List.prefix_rfl, fun todo hc => ?_, view, hview, List.mem_cons_self, fun _ => ?_⟩
      · cases hnone.symm.trans hc
      · exact ⟨hview, List.mem_cons_self, fun _ => rfl⟩

theorem Opened.raise {view : WebsocketRoute} (h : Opened r s opening)
    (hstage : s.stage = .authenticated view) (response : Response) :
    Opened r (s.reject response)
      (opening ++ handshakeEntries (.invoke true) s (s.reject response)) := by
  have hr := h.reached
  simp only [Reached, hstage] at hr
  obtain ⟨hview, rfl, hnone⟩ := hr
  simp only [handshakeEntries, hstage, Bool.true_or, if_true]
  cases view.connectBeforeCallback with
  | none => exact h.reject response
  | some cb =>
    refine ⟨⟨[.beforeDone], rfl⟩, fun todo hc => ?_, trivial⟩
    cases hnone.symm.trans hc

theorem Opened.await {conn : Connection} (h : Opened r s opening) (hstage : s.stage = .copied conn)
    (ht : s.await conn = some t) : Opened r t opening := by
  have hr := h.reached
  simp only [Reached, hstage] at hr
  obtain ⟨view, _, _, hpassed⟩ := hr
  rcases Handshake.await_some ht with ⟨rfl, hc⟩ | ⟨response, rfl⟩
  · refine ⟨h.begun, h.pending, fun todo hp => ?_, view, hpassed hc⟩
    rcases hc with hc | ⟨c, hc, hended⟩
    · cases hc.symm.trans hp
    · cases hc.symm.trans hp
      cases hended
  · exact h.reject response

theorem Opened.assign {a : Assignment} {rest : List Assignment} (h : Opened r s opening)
    (hc : s.coroutine = some ⟨a :: rest, none⟩) :
    Opened r { s with incoming := s.incoming.assign a, coroutine := some ⟨rest, none⟩ } opening := by
  have hr := h.reached
  refine ⟨h.begun, fun _ _ => h.pending _ hc, ?_⟩
  simp only [Reached] at hr ⊢
  cases hstage : s.stage with
  | arrived => simp [hstage, hc] at hr
  | found view | authenticated view => simp [hstage, hc] at hr
  | invoked | copied conn =>
    simp only [hstage] at hr
    obtain ⟨view, hview, hauth, _⟩ := hr
    refine ⟨view, hview, hauth, fun hdone => ?_⟩
    rcases hdone with hdone | ⟨c, hdone, hended⟩ <;> cases hdone
    cases hended
  | connected conn | accepted response conn =>
    simp only [hstage] at hr
    exact absurd hc (hr.1 _)
  | rejected response => trivial

/-- The coroutine ends: the last of what can be recorded, if it has returned. -/
theorem Opened.finish {todo : List Assignment} {how : CoroutineEnd} (h : Opened r s opening)
    (hc : s.coroutine = some ⟨todo, none⟩) :
    Opened r { s with coroutine := some ⟨todo, some how⟩ }
      (opening ++ handshakeEntries (.finish how) s { s with coroutine := some ⟨todo, some how⟩ }) := by
  have hr := h.reached
  obtain rfl := h.pending todo hc
  have hentries : handshakeEntries (.finish how) s { s with coroutine := some ⟨todo, some how⟩ } =
      if how = .returned then [.beforeDone] else [] := by
    cases how <;> rfl
  rw [hentries]
  refine ⟨?_, fun _ hp => (nomatch hp), ?_⟩
  · split
    · exact List.prefix_rfl
    · exact ⟨[.beforeDone], rfl⟩
  · simp only [Reached] at hr ⊢
    cases hstage : s.stage with
    | arrived => simp [hstage, hc] at hr
    | found view | authenticated view => simp [hstage, hc] at hr
    | invoked | copied conn =>
      simp only [hstage] at hr
      obtain ⟨view, hview, _, _⟩ := hr
      refine ⟨view, hview, List.mem_cons_self, fun hdone => ?_⟩
      rcases hdone with hdone | ⟨c, hdone, hended⟩ <;> cases hdone
      obtain rfl := Option.some.inj hended
      exact ⟨hview, List.mem_cons_self, fun _ => rfl⟩
    | connected conn | accepted response conn =>
      simp only [hstage] at hr
      exact absurd hc (hr.1 _)
    | rejected response => trivial

/-- What a step of the handshake records fits what has been recorded. -/
theorem step_opened {a : Handshake.Action} (h : Opened r s opening)
    (hstep : Handshake.step r a s = some t) : Opened r t (opening ++ handshakeEntries a s t) := by
  cases Handshake.step_moves hstep with
  | lookup hstage => exact (List.append_nil opening).symm ▸ h.lookup hstage
  | authenticate hstage => exact h.authenticate hstage
  | invoke hstage => exact h.invoke hstage
  | raise hstage => exact h.raise hstage _
  | copy hstage =>
    have hr := h.reached
    simp only [Reached, hstage] at hr
    exact (List.append_nil opening).symm ▸ ⟨h.begun, h.pending, hr⟩
  | copyFailed | blockingLost | upgradeFailed => exact (List.append_nil opening).symm ▸ h.reject _
  | await hstage hawait => exact (List.append_nil opening).symm ▸ h.await hstage hawait
  | upgrade hstage =>
    have hr := h.reached
    simp only [Reached, hstage] at hr
    exact (List.append_nil opening).symm ▸ ⟨h.begun, h.pending, hr⟩
  | assign hc => exact (List.append_nil opening).symm ▸ h.assign hc
  | finish hc _ => exact h.finish hc

/-- Once a request is accepted its handshake is over. -/
theorem accepted_final {response : Response} {conn : Connection} {a : Handshake.Action}
    (h : Opened r s opening) (hstage : s.stage = .accepted response conn) :
    Handshake.step r a s = none := by
  have hr := h.reached
  simp only [Reached, hstage] at hr
  cases a with
  | assign =>
    simp only [Handshake.step]
    split
    · next hc => exact absurd hc (hr.1 _)
    · rfl
  | finish how =>
    simp only [Handshake.step]
    split
    · next hc => exact absurd hc (hr.1 _)
    · rfl
  | _ => simp only [Handshake.step, hstage]

end Handshake

/-! ### The connection -/

/-- What one turn of the listener calls. -/
theorem turn_cases (svc : Service) (frame : Option Frame) :
    let t := turn svc.py svc.serde svc.receiveCallback svc.disconnectCallback frame
    t.1 = [] ∨
      (∃ cb data f, t.1 = [⟨cb, .receive data⟩] ∧ frame = some f ∧
        (f.opcode = .text ∨ f.opcode = .binary)) ∨
      ∃ cb code reason, t.1 = [⟨cb, .disconnect code reason⟩] ∧ t.2 = false := by
  intro t
  have hlength : t.1.length ≤ 1 := turn_calls svc.py svc.serde svc.receiveCallback
    svc.disconnectCallback frame
  cases frame with
  | none => exact .inl rfl
  | some f =>
    by_cases hclose : f.opcode = .close
    · obtain ⟨opcode, payload⟩ := f
      obtain rfl : opcode = .close := hclose
      cases hcb : svc.disconnectCallback with
      | none =>
        refine .inl ?_
        show onClose svc.disconnectCallback payload = []
        rw [hcb]
        rfl
      | some cb =>
        obtain ⟨code, reason, hturn⟩ := turn_close svc.py svc.serde svc.receiveCallback cb payload
        refine .inr (.inr ⟨cb, code, reason, ?_⟩)
        show (turn svc.py svc.serde svc.receiveCallback svc.disconnectCallback _).1 = _ ∧ _
        simp only [t, hcb, hturn, and_self]
    · cases hcalls : t.1 with
      | nil => exact .inl rfl
      | cons call rest =>
        obtain rfl : rest = [] := by
          rw [hcalls, List.length_cons] at hlength
          exact List.length_eq_zero_iff.mp (by omega)
        obtain ⟨cb, data, rfl⟩ := turn_receive hclose (hcalls ▸ List.mem_cons_self)
        refine .inr (.inl ⟨cb, data, f, rfl, rfl, ?_⟩)
        obtain ⟨opcode, payload⟩ := f
        cases opcode with
        | text => exact .inl rfl
        | binary => exact .inr rfl
        | close => exact absurd rfl hclose
        | continuation | ping | pong => cases hcalls

/-- The frame is there, with data for a callback. -/
def IsData (frames : List (Option Frame)) (n : Nat) : Prop :=
  ∃ f, frames[n]? = some (some f) ∧ (f.opcode = .text ∨ f.opcode = .binary)

/-- What has been recorded since the connection is served. -/
structure Served (frames : List (Option Frame)) (session : Session) (served : List Entry) : Prop where
  ordered : served.Pairwise Entry.Precedes
  calls : ∀ e ∈ served, e.call.isSome = true
  recorded : session.calls = served.filterMap Entry.call
  data : ∀ n call, .receive n call ∈ served → IsData frames n
  /-- Nothing comes after the disconnect callback. -/
  closed : ∀ call, .disconnect call ∈ served → session.receiveTask.ended = true

section Served

variable {frames : List (Option Frame)} {svc : Service} {session session' : Session}
  {served : List Entry}

theorem start_served (frames : List (Option Frame)) (svc : Service) :
    Served frames (Session.start svc) (Lifecycle.afterEntries svc) := by
  simp only [Lifecycle.afterEntries]
  cases hcb : svc.connectAfterCallback with
  | none =>
    refine ⟨.nil, fun _ h => (nomatch h), ?_, fun _ _ h => (nomatch h), fun _ h => (nomatch h)⟩
    simp only [Session.start, hcb]
    rfl
  | some cb =>
    refine ⟨List.pairwise_singleton _ _, fun e he => ?_, ?_, fun n call h => ?_, fun call h => ?_⟩
    · cases List.mem_singleton.mp he
      rfl
    · simp only [Session.start, hcb]
      rfl
    · cases List.mem_singleton.mp h
    · cases List.mem_singleton.mp h

theorem IsData.lt {n : Nat} (h : IsData frames n) : n < frames.length := by
  obtain ⟨f, hf, _⟩ := h
  exact (List.getElem?_eq_some_iff.mp hf).1

theorem IsData.append {n : Nat} (h : IsData frames n) (frame : Option Frame) :
    IsData (frames ++ [frame]) n := by
  obtain ⟨f, hf, hop⟩ := h
  exact ⟨f, by rw [List.getElem?_append_left (List.getElem?_eq_some_iff.mp hf).1, hf], hop⟩

/-- A step without a call. -/
theorem Served.quiet (h : Served frames session served) (frames' : List (Option Frame))
    (hframes : ∀ n, IsData frames n → IsData frames' n) (hcalls : session'.calls = session.calls)
    (hended : session.receiveTask.ended = true → session'.receiveTask.ended = true) :
    Served frames' session' served :=
  ⟨h.ordered, h.calls, hcalls.trans h.recorded, fun n call hc => hframes n (h.data n call hc),
    fun call hc => hended (h.closed call hc)⟩

/-- One more call, later than all there are. -/
theorem Served.snoc (h : Served frames session served) {e : Entry} {call : Invocation}
    (frame : Option Frame) (hcall : e.call = some call) (hlast : ∀ d ∈ served, d.Precedes e)
    (hdata : ∀ n c, e = .receive n c → IsData (frames ++ [frame]) n)
    (hcalls : session'.calls = session.calls ++ [call])
    (hclosed : ∀ c, .disconnect c ∉ served)
    (hended : ∀ c, e = .disconnect c → session'.receiveTask.ended = true) :
    Served (frames ++ [frame]) session' (served ++ [e]) := by
  refine ⟨?_, fun d hd => ?_, ?_, fun n c hc => ?_, fun c hc => ?_⟩
  · rw [List.pairwise_append]
    refine ⟨h.ordered, List.pairwise_singleton _ _, fun d hd e' he => ?_⟩
    cases List.mem_singleton.mp he
    exact hlast d hd
  · rcases List.mem_append.mp hd with hd | hd
    · exact h.calls d hd
    · cases List.mem_singleton.mp hd
      exact Option.isSome_of_eq_some hcall
  · rw [hcalls, h.recorded, List.filterMap_append]
    simp only [List.filterMap_cons, hcall, List.filterMap_nil]
  · rcases List.mem_append.mp hc with hc | hc
    · exact (h.data n c hc).append frame
    · exact hdata n c (List.mem_singleton.mp hc).symm
  · rcases List.mem_append.mp hc with hc | hc
    · exact absurd hc (hclosed c)
    · exact hended c (List.mem_singleton.mp hc).symm

/-- A turn records what it calls, with the number of the frame. -/
theorem Served.turn (h : Served frames session served) {frame : Option Frame}
    (hstep : Session.step svc (.turn frame) session = some session') :
    Served (frames ++ [frame]) session' (served ++ turnEntries frames.length
      (Webrockets.turn svc.py svc.serde svc.receiveCallback svc.disconnectCallback frame).1) := by
  obtain ⟨hpolled, hcalls, htask⟩ := Session.turn_some hstep
  have hnot : ∀ c, .disconnect c ∉ served := by
    intro c hc
    have := AbortableTask.not_polled_of_ended (h.closed c hc)
    cases hpolled.symm.trans this
  have hrank : ∀ d ∈ served, d.rank ≤ 4 := by
    intro d hd
    cases d with
    | disconnect c => exact absurd hd (hnot c)
    | _ => simp only [Entry.rank]; omega
  rcases turn_cases svc frame with hnone | ⟨cb, data, f, hcall, rfl, hop⟩ | ⟨cb, code, reason, hcall, hnext⟩
  · rw [hnone, List.append_nil] at hcalls
    rw [hnone]
    refine (List.append_nil served).symm ▸ h.quiet _ (fun n hn => hn.append frame) hcalls fun hended => ?_
    cases hpolled.symm.trans (AbortableTask.not_polled_of_ended hended)
  · rw [hcall] at hcalls ⊢
    refine h.snoc (some f) rfl (fun d hd => ?_) (fun n c he => ?_) hcalls hnot (fun c he => ?_)
    · rcases Nat.lt_or_eq_of_le (hrank d hd) with hlt | heq
      · exact .inl hlt
      · cases d with
        | receive n c => exact .inr ⟨rfl, (h.data n c hd).lt⟩
        | _ => cases heq
    · cases he
      exact ⟨f, by simp, hop⟩
    · cases he
  · rw [hcall] at hcalls ⊢
    refine h.snoc frame rfl (fun d hd => ?_) (fun n c he => ?_) hcalls hnot (fun c he => ?_)
    · exact .inl (Nat.lt_succ_of_le (hrank d hd))
    · cases he
    · rw [htask, hnext]
      rfl

end Served

/-! ### The request -/

/-- The record is that of the handshake and then that of the connection. -/
structure Disciplined (r : Arrival) (s : Lifecycle) (opening served : List Entry) : Prop where
  trace : s.trace = opening ++ served
  opened : Opened r.toUpgrade s.handshake opening
  accepted : s.client = .unspawned ∨ ∃ response conn, s.handshake.stage = .accepted response conn
  served : match s.client with
    | .serving _ _ session => Served s.frames session served
    | _ => served = []

namespace Disciplined

variable {r : Arrival} {s t : Lifecycle} {opening served : List Entry}

theorem start (r : Arrival) (registry : Registry.State) :
    Disciplined r (.start r registry) [] [] :=
  ⟨rfl, start_opened r.toUpgrade, .inl rfl, rfl⟩

/-- Nothing is served before `connect_after`. -/
theorem served_nil (h : Disciplined r s opening served)
    (hc : ∀ id svc session, s.client ≠ .serving id svc session) : served = [] := by
  have hs := h.served
  cases hclient : s.client with
  | serving id svc session => exact absurd hclient (hc id svc session)
  | _ =>
    rw [hclient] at hs
    exact hs

/-- A step that records nothing, and leaves what is served. -/
theorem quiet (h : Disciplined r s opening served) (htrace : t.trace = s.trace)
    (hframes : t.frames = s.frames) (hhandshake : t.handshake = s.handshake)
    (hclient : t.client = s.client) : Disciplined r t opening served :=
  ⟨htrace.trans h.trace, hhandshake ▸ h.opened, by rw [hclient, hhandshake]; exact h.accepted,
    by rw [hclient, hframes]; exact h.served⟩

/-- A step of `handle_client` on its way to `connect_after`. -/
theorem advance (h : Disciplined r s opening served) (hspawned : s.client ≠ .unspawned)
    (htrace : t.trace = s.trace) (hhandshake : t.handshake = s.handshake)
    (hbefore : ∀ id svc session, s.client ≠ .serving id svc session)
    (hafter : ∀ id svc session, t.client ≠ .serving id svc session) :
    Disciplined r t opening served := by
  refine ⟨htrace.trans h.trace, hhandshake ▸ h.opened, .inr ?_, ?_⟩
  · rw [hhandshake]
    exact h.accepted.resolve_left hspawned
  · have hnil := h.served_nil hbefore
    cases hclient : t.client with
    | serving id svc session => exact absurd hclient (hafter id svc session)
    | _ => exact hnil

/-- While the handshake goes on `handle_client` has not been spawned. -/
theorem unspawned {ha : Handshake.Action} {handshake : Handshake} (h : Disciplined r s opening served)
    (hstep : Handshake.step r.toUpgrade ha s.handshake = some handshake) : s.client = .unspawned := by
  refine h.accepted.resolve_right fun ⟨response, conn, hstage⟩ => ?_
  cases (accepted_final h.opened hstage).symm.trans hstep

theorem handshake {ha : Handshake.Action} {handshake : Handshake}
    (h : Disciplined r s opening served)
    (hstep : Handshake.step r.toUpgrade ha s.handshake = some handshake) :
    Disciplined r { s with
      handshake := handshake
      client := if ha = .upgrade true then .waiting else s.client
      trace := s.trace ++ handshakeEntries ha s.handshake handshake }
      (opening ++ handshakeEntries ha s.handshake handshake) served := by
  have hunspawned := h.unspawned hstep
  obtain rfl : served = [] := h.served_nil fun _ _ _ hc => by cases hunspawned.symm.trans hc
  refine ⟨?_, step_opened h.opened hstep, ?_, ?_⟩
  · show s.trace ++ _ = _
    rw [h.trace, List.append_nil, List.append_nil]
  · by_cases hupgrade : ha = .upgrade true
    · subst hupgrade
      cases Handshake.step_moves hstep
      exact .inr ⟨_, _, rfl⟩
    · exact .inl ((if_neg hupgrade).trans hunspawned)
  · show match (if ha = .upgrade true then Client.waiting else s.client) with
      | .serving _ _ session => Served s.frames session []
      | _ => ([] : List Entry) = []
    rw [hunspawned]
    split
    · next hs => split at hs <;> cases hs
    · rfl

theorem session {id : ConnectionID} {svc : Service} {session session' : Session} {sa : Session.Action}
    (h : Disciplined r s opening served) (hc : s.client = .serving id svc session)
    (hstep : Session.step svc sa session = some session') :
    ∃ served', Disciplined r (s.sessionStep svc id sa session') opening served' := by
  have hserved := h.served
  rw [hc] at hserved
  have haccepted := h.accepted.resolve_left fun hu => by cases hc.symm.trans hu
  by_cases hturn : ∃ frame, sa = .turn frame
  · obtain ⟨frame, rfl⟩ := hturn
    obtain ⟨hframes, htrace⟩ := s.sessionStep_turn svc id session' frame
    refine ⟨served ++ turnEntries s.frames.length (turn svc.py svc.serde svc.receiveCallback
      svc.disconnectCallback frame).1, ?_, ?_, .inr ?_, ?_⟩
    · rw [htrace, h.trace, List.append_assoc]
    · rw [Lifecycle.sessionStep_handshake]
      exact h.opened
    · rw [Lifecycle.sessionStep_handshake]
      exact haccepted
    · rw [Lifecycle.sessionStep_client, hframes]
      exact hserved.turn hstep
  · have hquiet : ∀ frame, sa ≠ .turn frame := fun frame he => hturn ⟨frame, he⟩
    rw [Lifecycle.sessionStep_quiet _ _ _ _ _ hquiet]
    obtain ⟨hcalls, hended⟩ := Session.step_quiet hquiet hstep
    exact ⟨served, h.trace, h.opened, .inr haccepted,
      hserved.quiet s.frames (fun _ hn => hn) hcalls hended⟩

/-- **Each step** keeps to the discipline. -/
theorem step {a : Lifecycle.Action} (h : Disciplined r s opening served)
    (hstep : Lifecycle.step r a s = some t) : ∃ opening' served', Disciplined r t opening' served' := by
  cases Lifecycle.step_moves hstep with
  | store | bodyBegins | bodyJoins | bodyLeaves | bodyEnds =>
    exact ⟨opening, served, h.quiet rfl rfl rfl rfl⟩
  | handshake hh => exact ⟨_, served, h.handshake hh⟩
  | @upgraded ok hc =>
    refine ⟨opening, served, h.advance ?_ rfl rfl ?_ ?_⟩
    · exact fun hu => by cases hc.symm.trans hu
    · exact fun _ _ _ hs => by cases hc.symm.trans hs
    · intro id svc session
      cases ok <;> exact Client.noConfusion
  | register hc | joinDefault hc =>
    refine ⟨opening, served, h.advance ?_ rfl rfl ?_ ?_⟩
    · exact fun hu => by cases hc.symm.trans hu
    · exact fun _ _ _ hs => by cases hc.symm.trans hs
    · exact fun _ _ _ => Client.noConfusion
  | @serve id view hc =>
    obtain rfl : served = [] := h.served_nil fun _ _ _ hs => by cases hc.symm.trans hs
    refine ⟨opening, _, ?_, h.opened, .inr ?_, start_served _ _⟩
    · show s.trace ++ _ = _
      rw [h.trace, List.append_nil]
    · exact h.accepted.resolve_left fun hu => by cases hc.symm.trans hu
  | session hc _ hs => exact ⟨opening, h.session hc hs⟩
  | @remove id svc session ra registry hc hremoving =>
    have hserved := h.served
    rw [hc] at hserved
    refine ⟨opening, served, h.trace, h.opened, .inr ?_, ?_⟩
    · exact h.accepted.resolve_left fun hu => by cases hc.symm.trans hu
    · show Served s.frames (if ra = .removed id then _ else session) served
      split
      · exact hserved.quiet s.frames (fun _ hn => hn) rfl fun hended => hended
      · exact hserved

/-- What is served is served to a connection. -/
theorem serving_of_mem (h : Disciplined r s opening served) {e : Entry} (he : e ∈ served) :
    ∃ id svc session, s.client = .serving id svc session ∧ Served s.frames session served := by
  have hserved := h.served
  cases hc : s.client with
  | serving id svc session =>
    rw [hc] at hserved
    exact ⟨id, svc, session, rfl, hserved⟩
  | _ =>
    rw [h.served_nil fun _ _ _ hs => by cases hc.symm.trans hs] at he
    cases he

/-- The two parts of the record do not mix. -/
theorem mem_trace (h : Disciplined r s opening served) {e : Entry} (he : e ∈ s.trace) :
    (e ∈ opening ∧ e.call = none) ∨ (e ∈ served ∧ e.call.isSome = true) := by
  rw [h.trace] at he
  rcases List.mem_append.mp he with he | he
  · refine .inl ⟨he, ?_⟩
    cases hcall : e.call with
    | none => rfl
    | some call =>
      have hle := rank_of_opening (h.opened.begun.subset he)
      have hge := Entry.rank_of_call (e := e) (Option.isSome_of_eq_some hcall)
      omega
  · obtain ⟨_, _, _, _, hserved⟩ := h.serving_of_mem he
    exact .inr ⟨he, hserved.calls e he⟩

theorem mem_served (h : Disciplined r s opening served) {e : Entry} (he : e ∈ s.trace)
    (hcall : e.call.isSome = true) : e ∈ served := by
  rcases h.mem_trace he with ⟨_, hnone⟩ | ⟨hserved, _⟩
  · cases hnone ▸ hcall
  · exact hserved

/-- All of it is in order. -/
theorem ordered (h : Disciplined r s opening served) : s.trace.Pairwise Entry.Precedes := by
  have hserved : served.Pairwise Entry.Precedes := by
    cases hs : served with
    | nil => exact .nil
    | cons e rest =>
      obtain ⟨_, _, _, _, hserved⟩ := h.serving_of_mem (hs ▸ List.mem_cons_self)
      exact hs ▸ hserved.ordered
  rw [h.trace]
  refine List.pairwise_append.mpr
    ⟨openings_ordered.sublist h.opened.begun.sublist, hserved, fun a ha b hb => .inl ?_⟩
  obtain ⟨_, _, _, _, hs⟩ := h.serving_of_mem hb
  have hle := rank_of_opening (h.opened.begun.subset ha)
  have hge := Entry.rank_of_call (hs.calls b hb)
  omega

/-- `connect_before` is called once authentication has succeeded. -/
theorem authenticated (h : Disciplined r s opening served) (hbefore : .before ∈ s.trace) :
    .authenticated ∈ s.trace := by
  rcases h.mem_trace hbefore with ⟨hopening, _⟩ | ⟨_, hcall⟩
  · obtain ⟨rest, hrest⟩ := h.opened.begun
    rw [h.trace]
    cases opening with
    | nil => cases hopening
    | cons e later =>
      obtain rfl : e = .authenticated := (List.cons.inj hrest).1
      exact List.mem_cons_self
  · cases hcall

/-- A callback of the connection is called for a request that has passed its handshake. -/
theorem passed (h : Disciplined r s opening served) {e : Entry} (he : e ∈ s.trace)
    (hcall : e.call.isSome = true) : ∃ view, Passed r.toUpgrade view opening := by
  obtain ⟨_, _, _, hc, _⟩ := h.serving_of_mem (h.mem_served he hcall)
  obtain ⟨response, conn, hstage⟩ := h.accepted.resolve_left fun hu => by cases hc.symm.trans hu
  have hr := h.opened.reached
  simp only [Reached, hstage] at hr
  exact hr.2

/-- The calls that are recorded are those of the connection. -/
theorem filterMap_call (h : Disciplined r s opening served) :
    s.trace.filterMap Entry.call = served.filterMap Entry.call := by
  rw [h.trace, List.filterMap_append, List.filterMap_eq_nil_iff.mpr, List.nil_append]
  intro e he
  rcases h.mem_trace (h.trace ▸ List.mem_append_left served he) with ⟨_, hnone⟩ | ⟨_, hcall⟩
  · exact hnone
  · have hle := rank_of_opening (h.opened.begun.subset he)
    have hge := Entry.rank_of_call hcall
    omega

end Disciplined

namespace Lifecycle

/-- The functions that the session has called. -/
def calls (s : Lifecycle) : List Invocation :=
  match s.client with
  | .serving _ _ session => session.calls
  | _ => []

variable {r : Arrival} {registry : Registry.State} {sched : List Action} {s : Lifecycle}

theorem run_disciplined (hrun : run (step r) (start r registry) sched = some s) :
    ∃ opening served, Disciplined r s opening served :=
  run_invariant (P := fun s => ∃ opening served, Disciplined r s opening served)
    (fun _ _ _ ⟨_, _, h⟩ hstep => h.step hstep) sched hrun ⟨[], [], .start r registry⟩

/-- **The callbacks of a request are called in order.** In the record of every run,
authentication comes first, then `connect_before` and its end, then `connect_after`, then
the receive callbacks in the order of their frames and once for a frame, and the disconnect
callback last and once. `connect_before` is called after authentication has succeeded; a
callback of the connection is called if `connect_before`, where the route has one, has
finished without an error; a receive callback is called for a frame with data; and the
record has all the calls that the session makes. -/
theorem callback_order (hrun : run (step r) (start r registry) sched = some s) :
    s.trace.Pairwise Entry.Precedes ∧
    (.before ∈ s.trace → .authenticated ∈ s.trace) ∧
    (∀ e ∈ s.trace, e.call.isSome = true → .authenticated ∈ s.trace ∧
      ∃ view, r.handler = some view ∧ (view.connectBeforeCallback.isSome = true →
        .before ∈ s.trace ∧ .beforeDone ∈ s.trace)) ∧
    (∀ n call, .receive n call ∈ s.trace → IsData s.frames n) ∧
    s.calls = s.trace.filterMap Entry.call := by
  obtain ⟨opening, served, h⟩ := run_disciplined hrun
  refine ⟨h.ordered, h.authenticated, fun e he hcall => ?_, fun n call hreceive => ?_, ?_⟩
  · obtain ⟨view, hpassed⟩ := h.passed he hcall
    rw [h.trace]
    refine ⟨List.mem_append_left _ hpassed.authenticated, view, hpassed.handler, fun hsome => ?_⟩
    rw [hpassed.finished hsome]
    exact ⟨List.mem_append_left _ (by decide), List.mem_append_left _ (by decide)⟩
  · have hmem := h.mem_served hreceive rfl
    obtain ⟨_, _, _, _, hserved⟩ := h.serving_of_mem hmem
    exact hserved.data n call hmem
  · rw [h.filterMap_call]
    have hserved := h.served
    simp only [calls]
    split
    · next hc =>
      rw [hc] at hserved
      exact hserved.recorded
    · next hc => rw [h.served_nil hc, List.filterMap_nil]

theorem callback_order_chat : ∃ s, run (step chatArrival) (start chatArrival Registry.init)
    (chatHandshake ++ chatServed ++ chatFrames) = some s ∧ s.trace.Pairwise Entry.Precedes ∧
      s.trace.map Entry.rank = [0, 1, 2, 3, 4, 5] ∧ s.calls = s.trace.filterMap Entry.call := by
  let s := (run (step chatArrival) (start chatArrival Registry.init)
    (chatHandshake ++ chatServed ++ chatFrames)).get (by decide)
  have hrun : run (step chatArrival) (start chatArrival Registry.init)
      (chatHandshake ++ chatServed ++ chatFrames) = some s := (Option.some_get _).symm
  obtain ⟨hordered, _, _, _, hcalls⟩ := callback_order hrun
  exact ⟨s, hrun, hordered, by decide, hcalls⟩

end Lifecycle

end Webrockets

import Webrockets.CallbackTrace

/-! Handshakes that fail.

A handshake can fail at eight places, in an HTTP handler, a blocking task, a coroutine and
the task of `handle_client`. `failure_leaves_no_trace` says that wherever it does, the
channel store is as the others made it, no callback of the connection is ever called, and
the answer, unless it was given before, is an error. -/
namespace Webrockets
open Transition

/-! ### Failures -/

/-- The response of a handshake that is refused. -/
def Response.IsError (response : Response) : Prop := 400 ≤ response.status ∧ response.protocol = none

theorem refused_isError {status : Nat} (h : 400 ≤ status) (body : String) :
    (Response.refused status body).IsError :=
  ⟨h, rfl⟩

/-- The coroutine of `connect_before` has raised or was lost. -/
def CoroutineEnd.bad : CoroutineEnd → Bool
  | .returned => false
  | _ => true

namespace Handshake

/-- The action is a failure: no handler for the path, no authenticator with a user,
`connect_before` that raises or whose coroutine does, the copy, the blocking task, or
`ws.upgrade`. -/
def Fails (r : Upgrade) : Action → Handshake → Prop
  | .lookup, _ => r.handler = none
  | .authenticate, s => ∃ view, s.stage = .found view ∧ view.authenticationClasses ≠ [] ∧
      ∀ a ∈ authClasses r view, a.returnsUser = false
  | .invoke raised, _ => raised = true
  | .copy ok, _ => ok = false
  | .blockingLost, _ => True
  | .finish how, _ => how.bad = true
  | .upgrade ok, _ => ok = false
  | _, _ => False

/-- Refused, or sure to be once the coroutine is awaited. -/
def Failed (s : Handshake) : Prop :=
  (∃ response, s.stage = .rejected response) ∨
    ((s.stage = .invoked ∨ ∃ conn, s.stage = .copied conn) ∧
      ∃ todo how, s.coroutine = some ⟨todo, some how⟩ ∧ how.bad = true)

/-- Who is refused gets an error. -/
def Refuses (s : Handshake) : Prop := ∀ response, s.stage = .rejected response → response.IsError

variable {r : Upgrade} {s t : Handshake}

theorem failed_not_accepted (h : Failed s) (response : Response) (conn : Connection) :
    s.stage ≠ .accepted response conn := by
  intro hstage
  rcases h with ⟨_, hr⟩ | ⟨hr | ⟨_, hr⟩, _⟩ <;> cases hstage.symm.trans hr

theorem reject_failed (s : Handshake) (response : Response) : Failed (s.reject response) :=
  .inl ⟨response, rfl⟩

theorem reject_refuses (s : Handshake) {response : Response} (h : response.IsError) :
    Refuses (s.reject response) := by
  intro response' hr
  cases hr
  exact h

/-- What awaiting a coroutine that went wrong comes to. -/
theorem await_failed (conn : Connection) {todo : List Assignment} {how : CoroutineEnd}
    (hc : s.coroutine = some ⟨todo, some how⟩) (hbad : how.bad = true) :
    ∃ response, s.await conn = some (s.reject response) ∧ response.IsError := by
  simp only [await, hc]
  cases how with
  | returned => cases hbad
  | raised text => exact ⟨_, rfl, refused_isError (by decide) text⟩
  | lost => exact ⟨_, rfl, refused_isError (by decide) _⟩

/-- **Every refusal is an error.** -/
theorem step_refuses {a : Action} (hs : Refuses s) (h : step r a s = some t) : Refuses t := by
  cases step_moves h with
  | lookup =>
    simp only [lookup]
    split
    · intro response hr
      cases hr
    · exact reject_refuses s (refused_isError (by decide) _)
  | authenticate =>
    simp only [authenticate]
    split
    · intro response hr
      cases hr
    · next response he =>
      refine reject_refuses s ?_
      simp only [Webrockets.authenticate] at he
      split at he
      · cases he
      · cases he
        exact refused_isError (by decide) _
  | invoke =>
    simp only [invoke]
    intro response hr
    split at hr
    · cases hr
    · split at hr <;> cases hr
  | raise | copyFailed | blockingLost | upgradeFailed =>
    exact reject_refuses s (refused_isError (by decide) _)
  | copy | upgrade =>
    intro response hr
    cases hr
  | assign | finish => exact hs
  | await hstage ht =>
    simp only [await] at ht
    split at ht
    · cases ht
      intro response hr
      cases hr
    · split at ht
      · cases ht
      · cases ht
        intro response hr
        cases hr
      · cases ht
        exact reject_refuses s (refused_isError (by decide) _)
      · cases ht
        exact reject_refuses s (refused_isError (by decide) _)

/-- **A failure is final.** -/
theorem step_failed {a : Action} (hs : Failed s) (h : step r a s = some t) :
    Failed t ∧ a ≠ .upgrade true := by
  cases step_moves h with
  | lookup hstage | authenticate hstage | invoke hstage | raise hstage | upgrade hstage =>
    rcases hs with ⟨_, hr⟩ | ⟨hr | ⟨_, hr⟩, _⟩ <;> cases hstage.symm.trans hr
  | copyFailed | blockingLost | upgradeFailed => exact ⟨reject_failed s _, by decide⟩
  | copy hstage =>
    rcases hs with ⟨_, hr⟩ | ⟨_, hbad⟩
    · cases hstage.symm.trans hr
    · exact ⟨.inr ⟨.inr ⟨_, rfl⟩, hbad⟩, Action.noConfusion⟩
  | await hstage ht =>
    rcases hs with ⟨_, hr⟩ | ⟨_, todo, how, hc, hbad⟩
    · cases hstage.symm.trans hr
    · obtain ⟨response, hawait, _⟩ := await_failed _ hc hbad
      cases hawait.symm.trans ht
      exact ⟨reject_failed s _, Action.noConfusion⟩
  | assign hc | finish hc =>
    rcases hs with hr | ⟨_, todo, how, hended, _⟩
    · exact ⟨.inl hr, Action.noConfusion⟩
    · cases hc.symm.trans hended

/-- A failing step fails. -/
theorem fails_failed {opening : List Entry} {a : Action} (ho : Opened r s opening)
    (hfails : Fails r a s) (h : step r a s = some t) : Failed t := by
  cases step_moves h with
  | lookup =>
    rw [lookup, show r.handler = none from hfails]
    exact reject_failed s _
  | @authenticate view hstage =>
    obtain ⟨_, hview, hclasses, hno⟩ := hfails
    cases hstage.symm.trans hview
    have hauth : Webrockets.authenticate (authClasses r view) s.incoming =
        .error authenticationFailed :=
      authenticate_none (fun hnil => hclasses (List.map_eq_nil_iff.mp hnil)) hno s.incoming
    rw [authenticate, hauth]
    exact reject_failed s _
  | raise | copyFailed | blockingLost | upgradeFailed => exact reject_failed s _
  | invoke | copy | upgrade => cases hfails
  | await | assign => exact hfails.elim
  | finish hc =>
    have hr := ho.reached
    simp only [Reached] at hr
    cases hstage : s.stage with
    | arrived => simp [hstage, hc] at hr
    | found view | authenticated view => simp [hstage, hc] at hr
    | invoked => exact .inr ⟨.inl rfl, _, _, rfl, hfails⟩
    | copied conn => exact .inr ⟨.inr ⟨conn, rfl⟩, _, _, rfl, hfails⟩
    | connected conn | accepted response conn =>
      simp only [hstage] at hr
      exact absurd hc (hr.1 _)
    | rejected response => exact .inl ⟨response, rfl⟩

/-- A handshake that has failed gets to its refusal, by the copy and the await if need be. -/
theorem failed_answers (hs : Failed s) (hrefuses : Refuses s) :
    ∃ more ∈ [[], [.await], [.copy true, .await]], ∃ t response,
      run (step r) s more = some t ∧ t.stage = .rejected response ∧ response.IsError := by
  rcases hs with ⟨response, hr⟩ | ⟨hstage, todo, how, hc, hbad⟩
  · exact ⟨[], by simp, s, response, rfl, hr, hrefuses response hr⟩
  · rcases hstage with hstage | ⟨conn, hstage⟩
    · let copied : Handshake := { s with stage := .copied s.incoming.upgrade }
      obtain ⟨response, hawait, herror⟩ := await_failed (s := copied) s.incoming.upgrade hc hbad
      have hcopy : step r (.copy true) s = some copied := by simp only [step, hstage, if_true, copied]
      exact ⟨[.copy true, .await], by simp, copied.reject response, response,
        run_cons.mpr ⟨copied, hcopy, run_cons.mpr ⟨_, hawait, rfl⟩⟩, rfl, herror⟩
    · obtain ⟨response, hawait, herror⟩ := await_failed conn hc hbad
      have hstep : step r .await s = some (s.reject response) := by simp only [step, hstage, hawait]
      exact ⟨[.await], by simp, s.reject response, response, run_cons.mpr ⟨_, hstep, rfl⟩, rfl, herror⟩

end Handshake

/-! ### The request -/

namespace Lifecycle

/-- What the others do at the channel store. -/
def others : List Action → List Registry.Action
  | [] => []
  | .store ra :: rest => ra :: others rest
  | _ :: rest => others rest

/-- A failure of the handshake, or of the upgrade future after it. -/
def Fails (r : Arrival) : Action → Lifecycle → Prop
  | .handshake ha, s => Handshake.Fails r.toUpgrade ha s.handshake
  | .upgraded ok, _ => ok = false
  | _, _ => False

/-- The request has come to nothing. -/
def Failed (s : Lifecycle) : Prop :=
  (s.client = .unspawned ∧ s.handshake.Failed) ∨ s.client = .failed

variable {r : Arrival} {s t : Lifecycle} {a : Action} {opening served : List Entry}

theorem failed_unregistered (h : Failed s) : s.client.id = none := by
  rcases h with ⟨hc, _⟩ | hc <;> rw [hc] <;> rfl

/-- **As long as the connection is not registered the channel store is the others'.** -/
theorem step_unregistered (hd : Disciplined r s opening served) (h : step r a s = some t)
    (hid : t.client.id = none) :
    s.client.id = none ∧ run Registry.step s.registry (others [a]) = some t.registry := by
  cases step_moves h with
  | store _ hr => exact ⟨hid, run_cons.mpr ⟨_, hr, rfl⟩⟩
  | handshake hh => exact ⟨by rw [hd.unspawned hh]; rfl, rfl⟩
  | upgraded hc => exact ⟨by rw [hc]; rfl, rfl⟩
  | register | joinDefault | serve | remove => cases hid
  | session =>
    rw [sessionStep_client] at hid
    cases hid
  | bodyBegins | bodyEnds => exact ⟨hid, rfl⟩
  | bodyJoins hc | bodyLeaves hc => cases hc.symm.trans hid

theorem others_cons (a : Action) (sched : List Action) :
    others (a :: sched) = others [a] ++ others sched := by
  cases a <;> rfl

theorem run_unregistered {sched : List Action} (hd : Disciplined r s opening served)
    (hrun : run (step r) s sched = some t) (hid : t.client.id = none) :
    s.client.id = none ∧ run Registry.step s.registry (others sched) = some t.registry := by
  induction sched generalizing s opening served with
  | nil =>
    cases hrun
    exact ⟨hid, rfl⟩
  | cons a rest ih =>
    obtain ⟨m, hm, hrest⟩ := run_cons.mp hrun
    obtain ⟨_, _, hd'⟩ := hd.step hm
    obtain ⟨hmid, hregistry⟩ := ih hd' hrest
    obtain ⟨hsid, hfirst⟩ := step_unregistered hd hm hmid
    rw [others_cons]
    exact ⟨hsid, run_join hfirst hregistry⟩

/-- **A failed request stays failed.** -/
theorem step_failed (hd : Disciplined r s opening served) (hs : Failed s) (h : step r a s = some t) :
    Failed t := by
  cases step_moves h with
  | store | bodyBegins | bodyEnds => exact hs
  | @handshake ha handshake hh =>
    have hunspawned := hd.unspawned hh
    rcases hs with ⟨_, hs⟩ | hfailed
    · obtain ⟨ht, hne⟩ := Handshake.step_failed hs hh
      exact .inl ⟨(if_neg hne).trans hunspawned, ht⟩
    · cases hunspawned.symm.trans hfailed
  | upgraded hc | register hc | joinDefault hc | serve hc | session hc | remove hc =>
    rcases hs with ⟨hs, _⟩ | hs <;> cases hc.symm.trans hs
  | bodyJoins hc | bodyLeaves hc => cases (failed_unregistered hs).symm.trans hc

/-- A failing step fails the request. -/
theorem fails_failed (hd : Disciplined r s opening served) (hfails : Fails r a s)
    (h : step r a s = some t) : Failed t := by
  cases step_moves h with
  | @handshake ha handshake hh =>
    have ht := Handshake.fails_failed hd.opened hfails hh
    obtain hne : ha ≠ .upgrade true := fun he => by
      subst he
      cases hfails
    exact .inl ⟨(if_neg hne).trans (hd.unspawned hh), ht⟩
  | upgraded =>
    obtain rfl := hfails
    exact .inr rfl
  | _ => exact hfails.elim

theorem step_handshakeFailed (hs : s.handshake.Failed) (h : step r a s = some t) :
    t.handshake.Failed := by
  cases step_moves h with
  | handshake hh => exact (Handshake.step_failed hs hh).1
  | session =>
    rw [sessionStep_handshake]
    exact hs
  | _ => exact hs

theorem step_refuses (hs : s.handshake.Refuses) (h : step r a s = some t) : t.handshake.Refuses := by
  cases step_moves h with
  | handshake hh => exact Handshake.step_refuses hs hh
  | session =>
    rw [sessionStep_handshake]
    exact hs
  | _ => exact hs

/-- The server can take the steps of a handshake. -/
theorem run_handshake {more : List Handshake.Action} {handshake : Handshake}
    (h : run (Handshake.step r.toUpgrade) s.handshake more = some handshake) :
    ∃ t, run (step r) s (more.map .handshake) = some t ∧ t.handshake = handshake := by
  induction more generalizing s with
  | nil =>
    cases h
    exact ⟨s, rfl, rfl⟩
  | cons ha rest ih =>
    obtain ⟨m, hm, hrest⟩ := run_cons.mp h
    obtain ⟨u, hu, rfl⟩ : ∃ u, step r (.handshake ha) s = some u ∧ u.handshake = m :=
      ⟨_, congrArg (Option.map _) hm, rfl⟩
    obtain ⟨t, ht, heq⟩ := ih hrest
    exact ⟨t, run_cons.mpr ⟨u, hu, ht⟩, heq⟩

/-- What the server still has to do for the answer. -/
def answering : List (List Handshake.Action) := [[], [.await], [.copy true, .await]]

/-- **A handshake that fails leaves no trace.** In every run with a step that fails, the
channel store is what the steps of the others make of it, and no callback of the
connection is called. If it failed before the request was accepted it never is, every
answer is an error, and the server gets to one by the copy and the await at most. -/
theorem failure_leaves_no_trace {registry : Registry.State} {before later : List Action}
    (hbefore : run (step r) (start r registry) before = some s) (hfails : Fails r a s)
    (hrun : run (step r) s (a :: later) = some t) :
    run Registry.step registry (others (before ++ a :: later)) = some t.registry ∧
    (t.calls = [] ∧ ∀ e ∈ t.trace, e.call = none) ∧
    ∀ ha, a = .handshake ha →
      (∀ response conn, t.handshake.stage ≠ .accepted response conn) ∧
      (∀ response, t.handshake.stage = .rejected response → response.IsError) ∧
      ∃ more ∈ answering, ∃ u response, run (step r) t (more.map .handshake) = some u ∧
        u.handshake.stage = .rejected response ∧ response.IsError := by
  have hwhole := run_join hbefore hrun
  obtain ⟨_, _, hs⟩ := run_disciplined hbefore
  obtain ⟨m, hm, hlater⟩ := run_cons.mp hrun
  obtain ⟨⟨_, _, ht⟩, hfailed⟩ : (∃ opening served, Disciplined r t opening served) ∧ Failed t :=
    run_invariant (P := fun s => (∃ opening served, Disciplined r s opening served) ∧ Failed s)
      (fun _ _ _ ⟨⟨_, _, hd⟩, hf⟩ hstep => ⟨hd.step hstep, step_failed hd hf hstep⟩) later hlater
      ⟨hs.step hm, fails_failed hs hfails hm⟩
  have hid := failed_unregistered hfailed
  have hserving : ∀ id svc session, t.client ≠ .serving id svc session := by
    intro id svc session hc
    cases hid.symm.trans (congrArg Client.id hc)
  obtain rfl := ht.served_nil hserving
  refine ⟨(run_unregistered (.start r registry) hwhole hid).2, ⟨?_, fun e he => ?_⟩, fun ha he => ?_⟩
  · rw [calls]
    split
    · next hc => exact absurd hc (hserving _ _ _)
    · rfl
  · rcases ht.mem_trace he with ⟨_, hnone⟩ | ⟨hnil, _⟩
    · exact hnone
    · cases hnil
  · subst he
    have hfail : t.handshake.Failed := by
      refine run_invariant (P := fun s => s.handshake.Failed) (fun _ _ _ => step_handshakeFailed) later
        hlater ?_
      cases step_moves hm with
      | handshake hh => exact Handshake.fails_failed hs.opened hfails hh
    have hrefuses : t.handshake.Refuses := by
      refine run_invariant (P := fun s => s.handshake.Refuses) (fun _ _ _ => step_refuses) _ hwhole
        fun response hr => ?_
      cases hr
    refine ⟨Handshake.failed_not_accepted hfail, hrefuses, ?_⟩
    obtain ⟨more, hmore, handshake, response, hanswer, hrejected, herror⟩ :=
      Handshake.failed_answers hfail hrefuses
    obtain ⟨u, hu, rfl⟩ := run_handshake hanswer
    exact ⟨more, hmore, u, response, hu, hrejected, herror⟩

/-- The coroutine of `connect("before")` raises while it is awaited, and another connection
registers. -/
theorem failure_leaves_no_trace_raised : ∃ s t,
    run (step chatArrival) (start chatArrival Registry.init) [.handshake .lookup,
      .handshake .authenticate, .handshake (.invoke false)] = some s ∧
    run (step chatArrival) s [.handshake (.finish (.raised "no")), .store .register,
      .handshake (.copy true)] = some t ∧
    run Registry.step Registry.init [.register] = some t.registry ∧ t.calls = [] ∧
    ∃ more ∈ answering, ∃ u response, run (step chatArrival) t (more.map .handshake) = some u ∧
      u.handshake.stage = .rejected response ∧ response.IsError := by
  let s := (run (step chatArrival) (start chatArrival Registry.init) [.handshake .lookup,
    .handshake .authenticate, .handshake (.invoke false)]).get (by decide)
  have hs : run (step chatArrival) (start chatArrival Registry.init) [.handshake .lookup,
    .handshake .authenticate, .handshake (.invoke false)] = some s := (Option.some_get _).symm
  let t := (run (step chatArrival) s [.handshake (.finish (.raised "no")), .store .register,
    .handshake (.copy true)]).get (by decide)
  have ht : run (step chatArrival) s [.handshake (.finish (.raised "no")), .store .register,
    .handshake (.copy true)] = some t := (Option.some_get _).symm
  have hfails : Fails chatArrival (.handshake (.finish (.raised "no"))) s := rfl
  obtain ⟨hregistry, ⟨hcalls, _⟩, hanswer⟩ := failure_leaves_no_trace hs hfails ht
  exact ⟨s, t, hs, ht, hregistry, hcalls, (hanswer _ rfl).2.2⟩

end Lifecycle

end Webrockets

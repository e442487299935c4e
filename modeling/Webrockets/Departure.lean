import Webrockets.CallbackTrace

/-! The groups that a disconnect callback sees.

The callback is called when the listener reads a Close frame, and applications announce a
departure with `conn.groups()` in it. `handle_client` removes the connection as soon as
one of its two tasks has ended. Nothing waits for the body of a coroutine, and a function
is not waited for either if it was the other task that ended.

`groups_seen` says in which runs the callback has the groups of the Close frame all the
time. -/
namespace Webrockets
open Transition

/-! ### The channel store under other connections' actions -/

namespace Registry

variable {a : Action} {s t : State} {id : ConnectionID}

/-- Who does not remove the connection leaves it registered and its removal alone. -/
theorem step_kept (h : step a s = some t) (ha : a.removes ≠ some id) :
    (id ∈ s.store.senders.keys → id ∈ t.store.senders.keys) ∧
      t.removing.get? id = s.removing.get? id := by
  cases a with
  | register =>
    cases h
    exact ⟨fun hid => IndexMap.mem_keys_insert.mpr (.inr hid), rfl⟩
  | join j group =>
    cases h
    exact ⟨fun hid => hid, rfl⟩
  | leave j group =>
    cases h
    refine ⟨fun hid => ?_, rfl⟩
    rw [ChannelStore.senders_leave]
    exact hid
  | groups j =>
    cases h
    exact ⟨fun hid => hid, rfl⟩
  | groupSize group =>
    cases h
    exact ⟨fun hid => hid, rfl⟩
  | removeSender j =>
    obtain ⟨_, rfl⟩ := removeSender_iff.mp h
    have hne : id ≠ j := fun he => ha (congrArg some he.symm)
    exact ⟨fun hid => IndexMap.mem_keys_remove.mpr ⟨hid, hne⟩, IndexMap.get?_insert_of_ne _ hne _⟩
  | beginSweep j =>
    obtain ⟨_, rfl⟩ := beginSweep_iff.mp h
    have hne : id ≠ j := fun he => ha (congrArg some he.symm)
    exact ⟨fun hid => hid, IndexMap.get?_insert_of_ne _ hne _⟩
  | sweep j group =>
    obtain ⟨_, _, _, _, _, rfl⟩ := sweep_some h
    have hne : id ≠ j := fun he => ha (congrArg some he.symm)
    exact ⟨fun hid => hid, IndexMap.get?_insert_of_ne _ hne _⟩
  | removed j =>
    obtain ⟨_, rfl⟩ := removed_some h
    have hne : id ≠ j := fun he => ha (congrArg some he.symm)
    exact ⟨fun hid => hid, IndexMap.get?_remove_of_ne _ hne⟩

/-- Taking part in no group it is not in, and leaving none it is in. -/
def Idle (id : ConnectionID) (s : State) : Action → Prop
  | .join j group => j = id → id ∈ s.store.members group
  | .leave j group => j = id → id ∉ s.store.members group
  | _ => True

instance (id : ConnectionID) (s : State) : ∀ a, Decidable (Idle id s a)
  | .join j group => inferInstanceAs (Decidable (j = id → id ∈ s.store.members group))
  | .leave j group => inferInstanceAs (Decidable (j = id → id ∉ s.store.members group))
  | .register | .groups _ | .groupSize _ | .removeSender _ | .beginSweep _ | .sweep _ _ | .removed _ =>
    inferInstanceAs (Decidable True)

/-- Nor are its groups changed. -/
theorem step_members (h : step a s = some t) (ha : a.removes ≠ some id) (hidle : Idle id s a)
    (group : String) : id ∈ t.store.members group ↔ id ∈ s.store.members group := by
  cases a with
  | register =>
    cases h
    exact Iff.rfl
  | join j g =>
    cases h
    refine ChannelStore.member_join.trans (or_iff_right_of_imp fun he => ?_)
    obtain ⟨rfl, rfl⟩ := he
    exact hidle rfl
  | leave j g =>
    cases h
    refine ChannelStore.member_leave.trans (and_iff_left_of_imp fun hm he => ?_)
    obtain ⟨rfl, rfl⟩ := he
    exact hidle rfl hm
  | groups j =>
    cases h
    exact Iff.rfl
  | groupSize g =>
    cases h
    exact Iff.rfl
  | removeSender j =>
    obtain ⟨_, rfl⟩ := removeSender_iff.mp h
    exact Iff.rfl
  | beginSweep j =>
    obtain ⟨_, rfl⟩ := beginSweep_iff.mp h
    exact Iff.rfl
  | sweep j g =>
    obtain ⟨_, _, _, _, _, rfl⟩ := sweep_some h
    refine ChannelStore.member_sweepGroup.trans (and_iff_left_of_imp fun _ he => ?_)
    exact ha (congrArg some he.1.symm)
  | removed j =>
    obtain ⟨_, rfl⟩ := removed_some h
    exact Iff.rfl

/-- A removal that has begun is there until `remove` returns. -/
theorem removal_under_way (h : step a s = some t) (ha : a.removes = some id) :
    (t.removing.get? id).isSome = true ∨ a = .removed id := by
  cases a with
  | register | join | leave | groups | groupSize => cases ha
  | removeSender j =>
    obtain rfl : j = id := Option.some.inj ha
    obtain ⟨_, rfl⟩ := removeSender_iff.mp h
    exact .inl (Option.isSome_of_eq_some (IndexMap.get?_insert_self _ _ _))
  | beginSweep j =>
    obtain rfl : j = id := Option.some.inj ha
    obtain ⟨_, rfl⟩ := beginSweep_iff.mp h
    exact .inl (Option.isSome_of_eq_some (IndexMap.get?_insert_self _ _ _))
  | sweep j group =>
    obtain rfl : j = id := Option.some.inj ha
    obtain ⟨_, _, _, _, _, rfl⟩ := sweep_some h
    exact .inl (Option.isSome_of_eq_some (IndexMap.get?_insert_self _ _ _))
  | removed j =>
    obtain rfl : j = id := Option.some.inj ha
    exact .inr rfl

end Registry

/-- Only the end of `remove` has `handle_client` return. -/
theorem Session.step_handler {svc : Service} {a : Session.Action} {s t : Session}
    (h : Session.step svc a s = some t) (ha : a ≠ .remove) :
    t.handler = .returned ↔ s.handler = .returned := by
  cases a with
  | put m =>
    simp only [step, Option.some.injEq] at h
    subst h
    split <;> rfl
  | wake side | suspend side =>
    obtain ⟨task, _, rfl⟩ := Option.map_eq_some_iff.mp h
    cases side <;> rfl
  | recv | wrote ok =>
    simp only [step] at h
    split at h
    · cases h
      rfl
    · cases h
  | turn frame =>
    simp only [step] at h
    split at h
    · cases h
      rfl
    · cases h
  | select side =>
    simp only [step] at h
    split at h
    · next hg =>
      cases h
      rw [hg.1]
      exact ⟨HandleClient.noConfusion, HandleClient.noConfusion⟩
    · cases h
  | remove => exact absurd rfl ha

/-! ### What the callback should see -/

/-- The callback has been called and is not through. -/
def Body.pending : Body → Bool
  | .none | .ended => false
  | _ => true

theorem Body.pending_of_running {body : Body} (h : body.running = true) : body.pending = true := by
  cases body <;> first | rfl | cases h

namespace Lifecycle

/-- **While the body of the disconnect callback runs** the connection is registered, and its
groups are those of the Close frame with the callback's own joins and leaves. -/
def SeesGroups (s : Lifecycle) : Prop :=
  ∀ id, s.client.id = some id → s.body.running = true →
    id ∈ s.registry.store.senders.keys ∧
      ∀ group, group ∈ s.registry.store.getGroups id ↔ group ∈ s.groups

/-- `remove` has begun for the connection. -/
def removalBegun (s : Lifecycle) : Bool :=
  match s.client with
  | .serving id _ session =>
    (s.registry.removing.get? id).isSome || decide (session.handler = .returned)
  | _ => false

/-- The action starts the body, as the call of a function or as the start of a coroutine. -/
def startsBody : Action → Lifecycle → Bool
  | .session sa, s =>
    match s.client with
    | .serving _ svc _ => (calledBack svc sa).any fun cb => !cb.isAsync
    | _ => false
  | .bodyBegins, _ => true
  | _, _ => false

/-- What another thread does at the store. -/
def Action.foreign : Action → Option Registry.Action
  | .store ra => some ra
  | _ => none

def Action.isRemove : Action → Bool
  | .remove _ => true
  | _ => false

/-- The body does not start once `remove` has begun, `remove` does not go on while it runs,
and until it is through no one else changes the groups of the connection. -/
structure Undisturbed (a : Action) (s : Lifecycle) : Prop where
  starts : startsBody a s = true → s.removalBegun = false
  remove : a.isRemove = true → s.body.running = false
  store : s.body.pending = true → ∀ ra ∈ a.foreign, ∀ id ∈ s.client.id, Registry.Idle id s.registry ra

instance (a : Action) (s : Lifecycle) : Decidable (Undisturbed a s) :=
  letI (ra : Registry.Action) : Decidable (∀ id ∈ s.client.id, Registry.Idle id s.registry ra) :=
    s.client.id.decidableForallMem
  decidable_of_iff ((startsBody a s = true → s.removalBegun = false) ∧
    (a.isRemove = true → s.body.running = false) ∧
    (s.body.pending = true → ∀ ra ∈ a.foreign, ∀ id ∈ s.client.id, Registry.Idle id s.registry ra))
    ⟨fun ⟨h, h', h''⟩ => ⟨h, h', h''⟩, fun ⟨h, h', h''⟩ => ⟨h, h', h''⟩⟩

/-! ### What is kept -/

/-- What the induction over undisturbed runs carries. -/
structure Kept (s : Lifecycle) : Prop where
  present : ∀ id, s.client.id = some id → s.removalBegun = false → id ∈ s.registry.store.senders.keys
  idle : (∀ id svc session, s.client ≠ .serving id svc session) → s.body = .none
  running : s.body.running = true → s.removalBegun = false
  groups : s.body.pending = true → s.removalBegun = false → ∀ id, s.client.id = some id →
    ∀ group, id ∈ s.registry.store.members group ↔ group ∈ s.groups

variable {r : Arrival} {s t : Lifecycle} {a : Action}

theorem Kept.sees (h : Kept s) : SeesGroups s := by
  intro id hid hrunning
  have hbegun := h.running hrunning
  refine ⟨h.present id hid hbegun, fun group => ?_⟩
  exact ChannelStore.mem_getGroups.trans
    (h.groups (Body.pending_of_running hrunning) hbegun id hid group)

theorem start_kept (r : Arrival) (registry : Registry.State) : Kept (start r registry) := by
  refine ⟨fun id hid => ?_, fun _ => rfl, fun hr => ?_, fun hp => ?_⟩
  · cases hid
  · cases hr
  · cases hp

theorem removalBegun_other (hc : ∀ id svc session, s.client ≠ .serving id svc session) :
    s.removalBegun = false := by
  rw [removalBegun]
  split
  · next h => exact absurd h (hc _ _ _)
  · rfl

/-- Steps that leave `handle_client` where it is and the connection in the store. -/
theorem Kept.frame (h : Kept s) (hclient : t.client = s.client)
    (hkeys : ∀ id, s.client.id = some id → id ∈ s.registry.store.senders.keys →
      id ∈ t.registry.store.senders.keys)
    (hremoving : ∀ id, s.client.id = some id →
      t.registry.removing.get? id = s.registry.removing.get? id)
    (hidle : s.body = .none → t.body = .none)
    (hrunning : t.body.running = true → s.removalBegun = false)
    (hgroups : t.body.pending = true → s.removalBegun = false → ∀ id, s.client.id = some id →
      ∀ group, id ∈ t.registry.store.members group ↔ group ∈ t.groups) : Kept t := by
  have hbegun : t.removalBegun = s.removalBegun := by
    cases hc : s.client with
    | serving id svc session =>
      rw [hc] at hremoving
      simp only [removalBegun, hclient, hc, hremoving id rfl]
    | _ => simp only [removalBegun, hclient, hc]
  refine ⟨fun id hid hb => ?_, fun hc => ?_, fun hr => ?_, fun hp hb id hid => ?_⟩
  · rw [hclient] at hid
    exact hkeys id hid (h.present id hid (hbegun ▸ hb))
  · exact hidle (h.idle fun id svc session => hclient ▸ hc id svc session)
  · exact hbegun.trans (hrunning hr)
  · rw [hclient] at hid
    exact hgroups hp (hbegun ▸ hb) id hid

/-- On the way to `serving` there is no body. -/
theorem Kept.advance (h : Kept s) (hbefore : ∀ id svc session, s.client ≠ .serving id svc session)
    (hbody : t.body = s.body)
    (hpresent : ∀ id, t.client.id = some id → t.removalBegun = false →
      id ∈ t.registry.store.senders.keys) : Kept t := by
  have hnone : t.body = .none := hbody.trans (h.idle hbefore)
  refine ⟨hpresent, fun _ => hnone, fun hr => ?_, fun hp => ?_⟩
  · rw [hnone] at hr
    cases hr
  · rw [hnone] at hp
    cases hp

/-- A Close frame that calls the callback starts from the groups of that moment; any other
step of the session leaves the body and the store as they are. -/
theorem Kept.session {id : ConnectionID} {svc : Service} {session session' : Session}
    {sa : Session.Action} (h : Kept s) (hc : s.client = .serving id svc session)
    (hallowed : allowed s.body sa = true) (hstep : Session.step svc sa session = some session')
    (hstarts : startsBody (.session sa) s = true → s.removalBegun = false) :
    Kept (s.sessionStep svc id sa session') := by
  have hne : sa ≠ .remove := by
    intro he
    subst he
    cases hallowed
  have hbegun : (s.sessionStep svc id sa session').removalBegun = s.removalBegun := by
    have hhandler := Session.step_handler hstep hne
    simp only [removalBegun, hc, sessionStep_client, sessionStep_registry, hhandler]
  have hid : ∀ j, (s.sessionStep svc id sa session').client.id = some j → s.client.id = some j := by
    intro j hj
    rw [sessionStep_client] at hj
    rw [hc]
    exact hj
  refine ⟨fun j hj hb => ?_, fun hno => ?_, fun hr => ?_, fun hp hb j hj group => ?_⟩
  · rw [sessionStep_registry]
    exact h.present j (hid j hj) (hbegun ▸ hb)
  · exact absurd (sessionStep_client ..) (hno id svc session')
  · rw [hbegun]
    cases hcalled : calledBack svc sa with
    | none =>
      rw [(sessionStep_uncalled id session' s hcalled).1] at hr
      exact h.running hr
    | some cb =>
      rw [(sessionStep_called id session' s hcalled).1] at hr
      cases hasync : cb.isAsync with
      | true =>
        rw [hasync] at hr
        cases hr
      | false =>
        apply hstarts
        simp [startsBody, hc, hcalled, hasync]
  · rw [sessionStep_registry]
    obtain rfl : id = j := by
      rw [sessionStep_client] at hj
      exact Option.some.inj hj
    cases hcalled : calledBack svc sa with
    | none =>
      obtain ⟨hbody, hgroups⟩ := sessionStep_uncalled id session' s hcalled
      rw [hgroups]
      exact h.groups (hbody ▸ hp) (hbegun ▸ hb) id (hid id hj) group
    | some cb =>
      rw [(sessionStep_called id session' s hcalled).2]
      exact ChannelStore.mem_getGroups.symm

theorem removal_begins (s : Lifecycle) {id : ConnectionID} (svc : Service) (session : Session)
    {ra : Registry.Action} {registry : Registry.State} (hown : ra.removes = some id)
    (h : Registry.step ra s.registry = some registry) :
    removalBegun { s with
      registry := registry
      client := .serving id svc
        (if ra = .removed id then { session with handler := .returned } else session) } = true := by
  simp only [removalBegun, Bool.or_eq_true, decide_eq_true_eq]
  rcases Registry.removal_under_way h hown with hsome | rfl
  · exact .inl hsome
  · exact .inr (by rw [if_pos rfl])

/-- **Each undisturbed step** keeps what the callback sees. -/
theorem Kept.step {opening served : List Entry} (h : Kept s) (hd : Disciplined r s opening served)
    (hguard : Undisturbed a s) (hstep : Lifecycle.step r a s = some t) : Kept t := by
  cases step_moves hstep with
  | @store ra registry hother hr =>
    have hremoves : ∀ id, s.client.id = some id → ra.removes ≠ some id := by
      intro id hid he
      exact hother ⟨Option.isSome_of_eq_some hid, he.trans hid.symm⟩
    refine h.frame rfl (fun id hid => ?_) (fun id hid => ?_) (fun hb => hb) h.running
      fun hp hb id hid group => ?_
    · exact (Registry.step_kept hr (hremoves id hid)).1
    · exact (Registry.step_kept hr (hremoves id hid)).2
    · have hidle := hguard.store hp ra rfl id hid
      exact (Registry.step_members hr (hremoves id hid) hidle group).trans
        (h.groups hp hb id hid group)
  | @handshake ha handshake hh =>
    have hunspawned := hd.unspawned hh
    refine h.advance (fun _ _ _ hc => by cases hunspawned.symm.trans hc) rfl fun id hid _ => ?_
    simp only [hunspawned] at hid
    split at hid <;> cases hid
  | @upgraded ok hc =>
    refine h.advance (fun _ _ _ hs => by cases hc.symm.trans hs) rfl fun id hid _ => ?_
    cases ok <;> cases hid
  | register hc hr =>
    refine h.advance (fun _ _ _ hs => by cases hc.symm.trans hs) rfl fun id hid _ => ?_
    cases hr
    obtain rfl : s.registry.store.nextId = id := Option.some.inj hid
    exact IndexMap.mem_keys_insert.mpr (.inl rfl)
  | @joinDefault id group registry hc hr =>
    have hbefore : ∀ id svc session, s.client ≠ .serving id svc session :=
      fun _ _ _ hs => by cases hc.symm.trans hs
    refine h.advance hbefore rfl fun j hj _ => ?_
    obtain rfl : id = j := Option.some.inj hj
    exact (Registry.step_kept hr (fun he => nomatch he)).1
      (h.present id (by rw [hc]; rfl) (removalBegun_other hbefore))
  | @serve id view hc =>
    have hbefore : ∀ id svc session, s.client ≠ .serving id svc session :=
      fun _ _ _ hs => by cases hc.symm.trans hs
    refine h.advance hbefore rfl fun j hj _ => ?_
    obtain rfl : id = j := Option.some.inj hj
    exact h.present id (by rw [hc]; rfl) (removalBegun_other hbefore)
  | session hc hallowed hs => exact h.session hc hallowed hs hguard.starts
  | bodyBegins hb =>
    refine h.frame rfl (fun _ _ hk => hk) (fun _ _ => rfl) (fun hn => ?_)
      (fun _ => hguard.starts rfl) fun _ => ?_
    · cases hb.symm.trans hn
    · exact h.groups (by rw [hb]; rfl)
  | @bodyJoins id group registry hc hb hr =>
    refine h.frame rfl (fun j _ => ?_) (fun j _ => ?_) (fun hn => hn) h.running
      fun hp hbegun j hj g => ?_
    · exact (Registry.step_kept hr (fun he => nomatch he)).1
    · exact (Registry.step_kept hr (fun he => nomatch he)).2
    · cases hr
      obtain rfl : id = j := Option.some.inj (hc.symm.trans hj)
      refine ChannelStore.member_join.trans ?_
      rw [h.groups hp hbegun id hj g, List.mem_cons, eq_self_iff_true, true_and]
  | @bodyLeaves id group registry hc hb hr =>
    refine h.frame rfl (fun j _ => ?_) (fun j _ => ?_) (fun hn => hn) h.running
      fun hp hbegun j hj g => ?_
    · exact (Registry.step_kept hr (fun he => nomatch he)).1
    · exact (Registry.step_kept hr (fun he => nomatch he)).2
    · cases hr
      obtain rfl : id = j := Option.some.inj (hc.symm.trans hj)
      refine ChannelStore.member_leave.trans ?_
      rw [h.groups hp hbegun id hj g, List.mem_filter, eq_self_iff_true, true_and, decide_eq_true_eq]
  | bodyEnds hb =>
    refine h.frame rfl (fun _ _ hk => hk) (fun _ _ => rfl) (fun hn => ?_) (fun hr => ?_) fun hp => ?_
    · rw [hn] at hb
      cases hb
    · cases hr
    · cases hp
  | @remove id svc session ra registry hc hremoving hown hr =>
    have hrunning := hguard.remove rfl
    have hbegun := removal_begins s svc session hown hr
    refine ⟨fun j hj hb => ?_, fun hno => ?_, fun hr' => ?_, fun hp hb j hj group => ?_⟩
    · cases hbegun.symm.trans hb
    · exact absurd rfl (hno _ _ _)
    · cases hrunning.symm.trans hr'
    · cases hbegun.symm.trans hb

/-- **The disconnect callback sees the groups of its connection in undisturbed runs.** If no
step of a run has the body start once `remove` has begun, `remove` go on while the body
runs, or someone else change the connection's groups in between, then in every state the
run passes through, while the body runs, the connection is registered and its groups are
those of the Close frame with the callback's own joins and leaves. -/
theorem groups_seen {registry : Registry.State} {sched : List Action}
    (h : Meets (step r) Undisturbed (start r registry) sched) :
    Always (step r) SeesGroups (start r registry) sched := by
  refine always_mono (P := fun s => (∃ opening served, Disciplined r s opening served) ∧ Kept s)
    (fun s hs => hs.2.sees)
    (always_of_meets ?_ sched h ⟨⟨_, _, .start r registry⟩, start_kept r registry⟩)
  rintro a s t ⟨⟨opening, served, hd⟩, hk⟩ hguard hstep
  exact ⟨hd.step hstep, hk.step hd hguard hstep⟩

/-- The coroutine announces the departure before the connection is removed. -/
def promptDeparture : List Action :=
  [.bodyBegins, .bodyLeaves "chat", .bodyEnds, .session (.select .receive), .remove (.removeSender 1)]

/-- `handle_client` is faster than the coroutine. -/
def lateDeparture : List Action :=
  [.session (.select .receive), .remove (.removeSender 1), .remove (.beginSweep 1),
    .remove (.sweep 1 "chat"), .remove (.removed 1), .bodyBegins]

theorem groups_seen_chat : Always (step chatArrival) SeesGroups (start chatArrival Registry.init)
    (chatHandshake ++ chatServed ++ chatFrames ++ promptDeparture) :=
  groups_seen (by decide)

/-- A route whose disconnect callback is a function. -/
def plainView : WebsocketRoute := { chatView with disconnectCallback := some ⟨6, false⟩ }

/-- The server closes while the listener has a Close frame to read. -/
def crossingClose : List Action :=
  [.session (.put (.close 1000 [])), .session (.wake .send), .session .recv, .session (.wrote true),
    .session (.wake .receive), .session (.turn (some ⟨.close, []⟩)), .session (.select .send),
    .remove (.removeSender 1), .remove (.beginSweep 1), .remove (.sweep 1 "chat")]

/-- The callback of a connection in the chat runs and has no groups, as a coroutine and as a
function. -/
theorem groups_lost :
    (∃ s, run (step chatArrival) (start chatArrival Registry.init)
        (chatHandshake ++ chatServed ++ chatFrames ++ lateDeparture) = some s ∧
      s.body = .onLoop ∧ s.groups = ["chat"] ∧ s.registry.store.getGroups 1 = [] ∧ ¬ SeesGroups s) ∧
    ∃ s, run (step chatArrival) (start chatArrival Registry.init)
        (chatHandshake ++ [.upgraded true, .register, .joinDefault, .serve plainView] ++
          crossingClose) = some s ∧
      s.body = .onTask ∧ s.groups = ["chat"] ∧ s.registry.store.getGroups 1 = [] ∧ ¬ SeesGroups s := by
  have hlost : ∀ s : Lifecycle, s.client.id = some 1 → s.body.running = true →
      1 ∉ s.registry.store.senders.keys → ¬ SeesGroups s :=
    fun s hid hrunning hnot h => hnot (h 1 hid hrunning).1
  refine ⟨⟨_, rfl, by decide, by decide, by decide, hlost _ (by decide) (by decide) (by decide)⟩,
    _, rfl, by decide, by decide, by decide, hlost _ (by decide) (by decide) (by decide)⟩

end Lifecycle

end Webrockets

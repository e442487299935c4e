import Webrockets.ChannelStore
import Webrockets.Library.Transition

/-! The channel store under threads that interleave.

`handle_client` registers its connection and removes it when it ends; user code
that holds the `Connection` joins, leaves and asks, at any time, before, during
and after the removal. A removal is not one step: `remove` first drops the
sender and then sweeps the groups one after the other. So the machine below
keeps the removals under way in its state.

`members_registered` says when a group has only registered members: exactly when
every `join` comes while the id is registered and every `remove` after the id has
left its groups. Neither is checked. Where a `join` may also come while the
removal still has that group ahead of it, every member is one for no longer than
its own `remove` runs. -/
namespace Webrockets.Registry
open Transition

/-- A `remove` under way: its sender dropped and its loop to come, or inside the
loop. `ahead` are the groups that were there when the loop began and that it has
not come to, `swept` the groups it has come to. -/
inductive Removal where
  | dropped
  | sweeping (ahead swept : List String)
  deriving DecidableEq, Repr

/-- The removal is sure to come to the group. -/
def Removal.comesTo : Removal → String → Prop
  | .dropped, _ => True
  | .sweeping ahead _, group => group ∈ ahead

structure State where
  store : ChannelStore
  removing : IndexMap ConnectionID Removal
  /-- How many ids have been handed out. -/
  issued : Nat

def init : State := ⟨.new, .empty, 0⟩

inductive Action where
  /-- `register`, with the channel that `handle_client` has just made. -/
  | register
  | join (id : ConnectionID) (group : String)
  | leave (id : ConnectionID) (group : String)
  | groups (id : ConnectionID)
  | groupSize (group : String)
  /-- `remove` begins: it drops the sender. -/
  | removeSender (id : ConnectionID)
  /-- The loop of `remove` begins. -/
  | beginSweep (id : ConnectionID)
  /-- The loop of `remove` comes to a group. -/
  | sweep (id : ConnectionID) (group : String)
  /-- `remove` returns. -/
  | removed (id : ConnectionID)
  deriving DecidableEq, Repr

/-- `register_with_group` is a `register` and a `join`; other threads can run in
between. A loop under way comes to each group at most once, and to a group made
since it began perhaps. `remove` is called by `handle_client` alone, once, for
the id it registered. -/
def step : Action → State → Option State
  | .register, s => some { s with store := (s.store.register s.issued).2, issued := s.issued + 1 }
  | .join id group, s => some { s with store := (s.store.join id group).2 }
  | .leave id group, s => some { s with store := (s.store.leave id group).2 }
  | .groups _, s => some s
  | .groupSize _, s => some s
  | .removeSender id, s =>
    if id ∈ s.store.senders.keys then
      some { s with store := s.store.removeSender id, removing := s.removing.insert id .dropped }
    else none
  | .beginSweep id, s =>
    match s.removing.get? id with
    | some .dropped => some { s with removing := s.removing.insert id (.sweeping s.store.groups.keys []) }
    | _ => none
  | .sweep id group, s =>
    match s.removing.get? id with
    | some (.sweeping ahead swept) =>
      if group ∈ s.store.groups.keys ∧ group ∉ swept then
        some { s with
          store := s.store.sweepGroup id group
          removing := s.removing.insert id (.sweeping (ahead.filter (· ≠ group)) (group :: swept)) }
      else none
    | _ => none
  | .removed id, s =>
    match s.removing.get? id with
    | some (.sweeping [] _) => some { s with removing := s.removing.remove id }
    | _ => none

/-! ### What the guarded steps require -/

theorem removeSender_iff {id : ConnectionID} {s t : State} :
    step (.removeSender id) s = some t ↔ id ∈ s.store.senders.keys ∧
      t = { s with store := s.store.removeSender id, removing := s.removing.insert id .dropped } := by
  simp only [step]
  split
  · next h => simp [h, eq_comm]
  · next h => simp [h]

theorem beginSweep_iff {id : ConnectionID} {s t : State} :
    step (.beginSweep id) s = some t ↔ s.removing.get? id = some .dropped ∧
      t = { s with removing := s.removing.insert id (.sweeping s.store.groups.keys []) } := by
  simp only [step]
  split
  · next h => simp [h, eq_comm]
  · next h => simpa using fun hr => absurd hr h

theorem sweep_some {id : ConnectionID} {group : String} {s t : State}
    (h : step (.sweep id group) s = some t) :
    ∃ ahead swept, s.removing.get? id = some (.sweeping ahead swept) ∧
      group ∈ s.store.groups.keys ∧ group ∉ swept ∧
      t = { s with
        store := s.store.sweepGroup id group
        removing := s.removing.insert id (.sweeping (ahead.filter (· ≠ group)) (group :: swept)) } := by
  simp only [step] at h
  split at h
  · next ahead swept hr =>
    split at h
    · next hg =>
      cases h
      exact ⟨ahead, swept, hr, hg.1, hg.2, rfl⟩
    · cases h
  · cases h

theorem removed_some {id : ConnectionID} {s t : State} (h : step (.removed id) s = some t) :
    (∃ swept, s.removing.get? id = some (.sweeping [] swept)) ∧
      t = { s with removing := s.removing.remove id } := by
  simp only [step] at h
  split at h
  · next swept hr =>
    cases h
    exact ⟨⟨swept, hr⟩, rfl⟩
  · cases h

/-! ### Members and senders -/

/-- Every member is registered. -/
def MembersRegistered (s : State) : Prop :=
  ∀ group id, id ∈ s.store.members group → id ∈ s.store.senders.keys

/-- What neither `join` nor `remove` checks. -/
def InTime : Action → State → Prop
  | .join id _, s => id ∈ s.store.senders.keys
  | .removeSender id, s => ∀ group, id ∉ s.store.members group
  | _, _ => True

theorem init_membersRegistered : MembersRegistered init := by
  intro group id h
  exact absurd h (IndexSet.not_mem_default id)

theorem step_membersRegistered (a : Action) (s t : State) (hs : MembersRegistered s)
    (hg : InTime a s) (h : step a s = some t) : MembersRegistered t := by
  intro g j hj
  cases a with
  | register =>
    cases h
    exact IndexMap.mem_keys_insert.mpr (.inr (hs g j hj))
  | join id group =>
    cases h
    rcases ChannelStore.member_join.mp hj with ⟨rfl, rfl⟩ | hj
    · exact hg
    · exact hs g j hj
  | leave id group =>
    cases h
    show j ∈ (s.store.leave id group).2.senders.keys
    rw [ChannelStore.senders_leave]
    exact hs g j (ChannelStore.member_leave.mp hj).1
  | groups id | groupSize group =>
    cases h
    exact hs g j hj
  | removeSender id =>
    obtain ⟨_, rfl⟩ := removeSender_iff.mp h
    have hne : j ≠ id := fun he => hg g (he ▸ hj)
    exact IndexMap.mem_keys_remove.mpr ⟨hs g j hj, hne⟩
  | beginSweep id =>
    obtain ⟨_, rfl⟩ := beginSweep_iff.mp h
    exact hs g j hj
  | sweep id group =>
    obtain ⟨_, _, _, _, _, rfl⟩ := sweep_some h
    exact hs g j (ChannelStore.member_sweepGroup.mp hj).1
  | removed id =>
    obtain ⟨_, rfl⟩ := removed_some h
    exact hs g j hj

/-- Who has joined is a member, and so is who is taken out of the senders before the groups. -/
theorem inTime_of_membersRegistered (a : Action) (s t : State) (_ : MembersRegistered s)
    (h : step a s = some t) (ht : MembersRegistered t) : InTime a s := by
  cases a with
  | join id group =>
    cases h
    exact ht group id (ChannelStore.member_join.mpr (.inl ⟨rfl, rfl⟩))
  | removeSender id =>
    obtain ⟨_, rfl⟩ := removeSender_iff.mp h
    intro group hm
    exact (IndexMap.mem_keys_remove.mp (ht group id hm)).2 rfl
  | _ => trivial

/-! ### Members that are being removed -/

/-- The id is registered, or its removal is sure to come to the group. -/
def Covered (s : State) (id : ConnectionID) (group : String) : Prop :=
  id ∈ s.store.senders.keys ∨ ∃ r, s.removing.get? id = some r ∧ r.comesTo group

/-- No group has a member that nothing will ever take out again. -/
def NoGhost (s : State) : Prop :=
  ∀ group id, id ∈ s.store.members group → Covered s id group

/-- What `join` does not check. -/
def JoinCovered : Action → State → Prop
  | .join id group, s => Covered s id group
  | _, _ => True

theorem MembersRegistered.noGhost {s : State} (h : MembersRegistered s) : NoGhost s :=
  fun group id hm => .inl (h group id hm)

theorem init_noGhost : NoGhost init := init_membersRegistered.noGhost

/-- A step other than a `join` adds no member, and takes the cover only from
members it takes out itself. -/
theorem step_noGhost (a : Action) (s t : State) (hs : NoGhost s) (hg : JoinCovered a s)
    (h : step a s = some t) : NoGhost t := by
  intro g j hj
  cases a with
  | register =>
    cases h
    rcases hs g j hj with hk | hr
    · exact .inl (IndexMap.mem_keys_insert.mpr (.inr hk))
    · exact .inr hr
  | join id group =>
    cases h
    rcases ChannelStore.member_join.mp hj with ⟨rfl, rfl⟩ | hj
    · exact hg
    · exact hs g j hj
  | leave id group =>
    cases h
    have hm : (s.store.leave id group).2.senders = s.store.senders := ChannelStore.senders_leave
    simp only [Covered, hm]
    exact hs g j (ChannelStore.member_leave.mp hj).1
  | groups id =>
    cases h
    exact hs g j hj
  | groupSize group =>
    cases h
    exact hs g j hj
  | removeSender id =>
    obtain ⟨_, rfl⟩ := removeSender_iff.mp h
    by_cases hjid : j = id
    · subst hjid
      exact .inr ⟨_, IndexMap.get?_insert_self _ _ _, trivial⟩
    · rcases hs g j hj with hk | ⟨r, hr, ha⟩
      · exact .inl (IndexMap.mem_keys_remove.mpr ⟨hk, hjid⟩)
      · exact .inr ⟨r, (IndexMap.get?_insert_of_ne _ hjid _).trans hr, ha⟩
  | beginSweep id =>
    obtain ⟨_, rfl⟩ := beginSweep_iff.mp h
    by_cases hjid : j = id
    · -- the loop begins with every group ahead of it
      subst hjid
      exact .inr ⟨_, IndexMap.get?_insert_self _ _ _, ChannelStore.mem_keys_of_member hj⟩
    · rcases hs g j hj with hk | ⟨r, hr, ha⟩
      · exact .inl hk
      · exact .inr ⟨r, (IndexMap.get?_insert_of_ne _ hjid _).trans hr, ha⟩
  | sweep id group =>
    obtain ⟨ahead, swept, hr, _, _, rfl⟩ := sweep_some h
    obtain ⟨hj, hne⟩ := ChannelStore.member_sweepGroup.mp hj
    rcases hs g j hj with hk | ⟨r, hr', ha⟩
    · exact .inl hk
    · by_cases hjid : j = id
      · subst hjid
        obtain rfl := Option.some.inj (hr.symm.trans hr')
        refine .inr ⟨_, IndexMap.get?_insert_self _ _ _, List.mem_filter.mpr ⟨ha, ?_⟩⟩
        simpa using hne
      · exact .inr ⟨r, (IndexMap.get?_insert_of_ne _ hjid _).trans hr', ha⟩
  | removed id =>
    obtain ⟨⟨swept, hr⟩, rfl⟩ := removed_some h
    rcases hs g j hj with hk | ⟨r, hr', ha⟩
    · exact .inl hk
    · have hjid : j ≠ id := by
        intro he
        subst he
        obtain rfl := Option.some.inj (hr.symm.trans hr')
        cases ha
      exact .inr ⟨r, (IndexMap.get?_remove_of_ne _ hjid).trans hr', ha⟩

/-- After a `join` the id is a member, and neither map that covers it has changed. -/
theorem joinCovered_of_noGhost (a : Action) (s t : State) (_ : NoGhost s) (h : step a s = some t)
    (ht : NoGhost t) : JoinCovered a s := by
  cases a with
  | join id group =>
    cases h
    exact ht group id (ChannelStore.member_join.mpr (.inl ⟨rfl, rfl⟩))
  | _ => trivial

/-! ### Ids -/

/-- The id of the connection whose channel is number `tx`. -/
def idOf (tx : Sender) : ConnectionID := UInt64.ofNat (tx + 1)

/-- Ids come back only when all of `u64` has been handed out. -/
theorem idOf_inj {k n : Nat} (hkn : k < n) (hn : n < UInt64.size) : idOf k ≠ idOf n := by
  intro h
  have := congrArg UInt64.toNat h
  simp only [idOf, UInt64.toNat_ofNat'] at this
  simp only [UInt64.size] at hn
  omega

structure Numbered (s : State) : Prop where
  next : s.store.nextId = idOf s.issued
  sender : ∀ id tx, s.store.senders.get? id = some tx → tx < s.issued ∧ id = idOf tx
  removal : ∀ id r, s.removing.get? id = some r → ∃ k, k < s.issued ∧ id = idOf k
  /-- What is being removed is not registered. -/
  apart : s.issued ≤ UInt64.size → ∀ id r, s.removing.get? id = some r → id ∉ s.store.senders.keys

theorem init_numbered : Numbered init := by
  refine ⟨rfl, ?_, ?_, ?_⟩
  · intro id tx h
    cases h
  · intro id r h
    cases h
  · intro _ id r h
    cases h

/-- A step that touches neither senders nor ids, and starts no removal. -/
theorem Numbered.same {s t : State} (h : Numbered s) (hn : t.store.nextId = s.store.nextId)
    (hs : t.store.senders = s.store.senders) (hi : t.issued = s.issued)
    (hr : ∀ id r, t.removing.get? id = some r → ∃ r', s.removing.get? id = some r') : Numbered t := by
  refine ⟨by rw [hn, hi]; exact h.next, by rw [hs, hi]; exact h.sender, ?_, ?_⟩
  · intro id r h'
    obtain ⟨r', hr'⟩ := hr id r h'
    rw [hi]
    exact h.removal id r' hr'
  · intro hb id r h'
    obtain ⟨r', hr'⟩ := hr id r h'
    rw [hs]
    exact h.apart (hi ▸ hb) id r' hr'

/-- Writing to a removal that is there starts none. -/
theorem removal_kept {m : IndexMap ConnectionID Removal} {id : ConnectionID} {r r' : Removal}
    (h : m.get? id = some r) (j : ConnectionID) (w : Removal)
    (hj : (m.insert id r').get? j = some w) : ∃ w', m.get? j = some w' := by
  by_cases he : j = id
  · exact ⟨r, by rw [he]; exact h⟩
  · exact ⟨w, by rw [← hj, IndexMap.get?_insert_of_ne _ he]⟩

/-- Nor does forgetting one. -/
theorem removal_rest {m : IndexMap ConnectionID Removal} {id : ConnectionID} (j : ConnectionID)
    (w : Removal) (hj : (m.remove id).get? j = some w) : ∃ w', m.get? j = some w' := by
  have hne : j ≠ id := by
    intro he
    subst he
    rw [IndexMap.get?_remove_self] at hj
    cases hj
  exact ⟨w, (IndexMap.get?_remove_of_ne _ hne).symm.trans hj⟩

theorem step_numbered (a : Action) (s t : State) (hs : Numbered s) (h : step a s = some t) :
    Numbered t := by
  cases a with
  | register =>
    cases h
    refine ⟨?_, ?_, ?_, ?_⟩
    · show s.store.nextId + 1 = idOf (s.issued + 1)
      rw [hs.next]
      simp only [idOf, UInt64.ofNat_add]
      rfl
    · intro id tx h
      show tx < s.issued + 1 ∧ _
      by_cases he : id = s.store.nextId
      · subst he
        rw [show (s.store.register s.issued).2.senders.get? s.store.nextId = some s.issued from
          IndexMap.get?_insert_self _ _ _] at h
        cases h
        exact ⟨Nat.lt_succ_self _, hs.next⟩
      · rw [show (s.store.register s.issued).2.senders.get? id = s.store.senders.get? id from
          IndexMap.get?_insert_of_ne _ he _] at h
        obtain ⟨hlt, hid⟩ := hs.sender id tx h
        exact ⟨Nat.lt_succ_of_lt hlt, hid⟩
    · intro id r h
      obtain ⟨k, hk, hid⟩ := hs.removal id r h
      exact ⟨k, Nat.lt_succ_of_lt hk, hid⟩
    · intro hb id r hr
      have hb' : s.issued + 1 ≤ UInt64.size := hb
      obtain ⟨k, hk, hid⟩ := hs.removal id r hr
      intro hkey
      rcases IndexMap.mem_keys_insert.mp hkey with he | hkey
      · rw [hid, hs.next] at he
        exact idOf_inj hk (by omega) he
      · exact hs.apart (by omega) id r hr hkey
  | join id group =>
    cases h
    exact hs.same rfl rfl rfl fun j r hr => ⟨r, hr⟩
  | leave id group =>
    cases h
    refine hs.same ?_ ChannelStore.senders_leave rfl fun j r hr => ⟨r, hr⟩
    simp only [ChannelStore.leave]
    split <;> rfl
  | groups id =>
    cases h
    exact hs
  | groupSize group =>
    cases h
    exact hs
  | removeSender id =>
    obtain ⟨hk, rfl⟩ := removeSender_iff.mp h
    obtain ⟨tx, htx⟩ := IndexMap.mem_keys.mp hk
    obtain ⟨hlt, hid⟩ := hs.sender id tx htx
    refine ⟨hs.next, ?_, ?_, ?_⟩
    · intro j tx' hj
      have hne : j ≠ id := by
        intro he
        subst he
        rw [show (s.store.removeSender j).senders.get? j = none from
          IndexMap.get?_remove_self _ _] at hj
        cases hj
      exact hs.sender j tx' ((IndexMap.get?_remove_of_ne _ hne).symm.trans hj)
    · intro j r hj
      by_cases he : j = id
      · exact ⟨tx, hlt, he.trans hid⟩
      · exact hs.removal j r ((IndexMap.get?_insert_of_ne _ he _).symm.trans hj)
    · intro hb j r hj hkey
      obtain ⟨hkey, hne⟩ := IndexMap.mem_keys_remove.mp hkey
      exact hs.apart hb j r ((IndexMap.get?_insert_of_ne _ hne _).symm.trans hj) hkey
  | beginSweep id =>
    obtain ⟨hr, rfl⟩ := beginSweep_iff.mp h
    exact hs.same rfl rfl rfl (removal_kept hr)
  | sweep id group =>
    obtain ⟨ahead, swept, hr, _, _, rfl⟩ := sweep_some h
    exact hs.same rfl rfl rfl (removal_kept hr)
  | removed id =>
    obtain ⟨_, rfl⟩ := removed_some h
    exact hs.same rfl rfl rfl removal_rest

/-- A connection that is removed: its id was handed out, it is not registered and
its `remove` has returned. -/
structure Gone (s : State) (id : ConnectionID) : Prop where
  issued : ∃ k, k < s.issued ∧ id = idOf k
  sender : id ∉ s.store.senders.keys
  removal : s.removing.get? id = none

theorem step_issued {a : Action} {s t : State} (h : step a s = some t) : s.issued ≤ t.issued := by
  cases a with
  | register =>
    cases h
    exact Nat.le_succ _
  | join id group =>
    cases h
    exact Nat.le_refl _
  | leave id group =>
    cases h
    exact Nat.le_refl _
  | groups id =>
    cases h
    exact Nat.le_refl _
  | groupSize group =>
    cases h
    exact Nat.le_refl _
  | removeSender id =>
    obtain ⟨_, rfl⟩ := removeSender_iff.mp h
    exact Nat.le_refl _
  | beginSweep id =>
    obtain ⟨_, rfl⟩ := beginSweep_iff.mp h
    exact Nat.le_refl _
  | sweep id group =>
    obtain ⟨_, _, _, _, _, rfl⟩ := sweep_some h
    exact Nat.le_refl _
  | removed id =>
    obtain ⟨_, rfl⟩ := removed_some h
    exact Nat.le_refl _

/-- A removed connection stays removed until ids come back. -/
theorem step_gone {id : ConnectionID} (a : Action) (s t : State) (hs : Gone s id)
    (hn : Numbered s) (hb : t.issued ≤ UInt64.size) (h : step a s = some t) : Gone t id := by
  obtain ⟨⟨k, hk, hid⟩, hsender, hremoval⟩ := hs
  have hle := step_issued h
  have hissued : ∃ k, k < t.issued ∧ id = idOf k := ⟨k, Nat.lt_of_lt_of_le hk hle, hid⟩
  cases a with
  | register =>
    cases h
    refine ⟨hissued, ?_, hremoval⟩
    intro hkey
    rcases IndexMap.mem_keys_insert.mp hkey with he | hkey
    · rw [hid, hn.next] at he
      have hb' : s.issued + 1 ≤ UInt64.size := hb
      exact idOf_inj hk (by omega) he
    · exact hsender hkey
  | join j group =>
    cases h
    exact ⟨hissued, hsender, hremoval⟩
  | leave j group =>
    cases h
    exact ⟨hissued, by rw [ChannelStore.senders_leave]; exact hsender, hremoval⟩
  | groups j =>
    cases h
    exact ⟨hissued, hsender, hremoval⟩
  | groupSize group =>
    cases h
    exact ⟨hissued, hsender, hremoval⟩
  | removeSender j =>
    obtain ⟨hkey, rfl⟩ := removeSender_iff.mp h
    have hne : id ≠ j := fun he => hsender (he ▸ hkey)
    exact ⟨hissued, fun h => hsender (IndexMap.mem_keys_remove.mp h).1,
      (IndexMap.get?_insert_of_ne _ hne _).trans hremoval⟩
  | beginSweep j =>
    obtain ⟨hr, rfl⟩ := beginSweep_iff.mp h
    have hne : id ≠ j := fun he => by simp [← he, hremoval] at hr
    exact ⟨hissued, hsender, (IndexMap.get?_insert_of_ne _ hne _).trans hremoval⟩
  | sweep j group =>
    obtain ⟨ahead, swept, hr, _, _, rfl⟩ := sweep_some h
    have hne : id ≠ j := fun he => by simp [← he, hremoval] at hr
    exact ⟨hissued, hsender, (IndexMap.get?_insert_of_ne _ hne _).trans hremoval⟩
  | removed j =>
    obtain ⟨⟨swept, hr⟩, rfl⟩ := removed_some h
    have hne : id ≠ j := fun he => by simp [← he, hremoval] at hr
    exact ⟨hissued, hsender, (IndexMap.get?_remove_of_ne _ hne).trans hremoval⟩

/-- Once `remove` has returned, the connection is gone. -/
theorem removed_gone {id : ConnectionID} {s t : State} (hn : Numbered s) (hb : s.issued ≤ UInt64.size)
    (h : step (.removed id) s = some t) : Gone t id := by
  obtain ⟨⟨swept, hr⟩, rfl⟩ := removed_some h
  exact ⟨hn.removal id _ hr, hn.apart hb id _ hr, IndexMap.get?_remove_self _ _⟩

theorem run_numbered {actions : List Action} {t : State} (h : run step init actions = some t) :
    Numbered t :=
  run_invariant step_numbered actions h init_numbered

theorem run_issued {actions : List Action} {s t : State} (h : run step s actions = some t) :
    s.issued ≤ t.issued :=
  run_invariant (P := fun u => s.issued ≤ u.issued)
    (fun _ _ _ hs h => Nat.le_trans hs (step_issued h)) actions h (Nat.le_refl _)

theorem run_gone {id : ConnectionID} {actions : List Action} {s t : State} (hs : Gone s id)
    (hn : Numbered s) (hb : t.issued ≤ UInt64.size) (h : run step s actions = some t) : Gone t id := by
  induction actions generalizing s with
  | nil =>
    obtain rfl : s = t := by simpa [run] using h
    exact hs
  | cons a rest ih =>
    obtain ⟨m, hm, hrest⟩ := run_cons.mp h
    have hle := run_issued hrest
    exact ih (step_gone a s m hs hn (by omega) hm) (step_numbered a s m hn hm) hrest

/-! ### Ghosts -/

/-- What groups are for: apart from connections whose own `remove` is running, a
member is registered, and the size of a group is the number of senders that a
broadcast to it comes to. -/
structure Settled (s : State) : Prop where
  registered : ∀ group id, id ∈ s.store.members group → s.removing.get? id = none →
    id ∈ s.store.senders.keys
  size : ∀ group, (∀ id, id ∈ s.store.members group → s.removing.get? id = none) →
    s.store.groupSize group = (s.store.recipients [group] none).length

/-- Registered members are those that a broadcast comes to. -/
theorem groupSize_recipients {s : State} {group : String}
    (h : ∀ id ∈ s.store.members group, id ∈ s.store.senders.keys) :
    s.store.groupSize group = (s.store.recipients [group] none).length := by
  rw [ChannelStore.groupSize_eq]
  simp only [ChannelStore.recipients, List.flatMap_cons, List.flatMap_nil, List.append_nil]
  refine (List.filterMap_length_eq_length.mpr fun id hid => ?_).symm
  obtain ⟨tx, htx⟩ := IndexMap.mem_keys.mp (h id hid)
  simp [ChannelStore.recipient, htx]

theorem NoGhost.settled {s : State} (h : NoGhost s) : Settled s := by
  have hreg : ∀ group id, id ∈ s.store.members group → s.removing.get? id = none →
      id ∈ s.store.senders.keys := by
    intro group id hm hr
    rcases h group id hm with hk | ⟨r, hr', _⟩
    · exact hk
    · rw [hr] at hr'
      cases hr'
  exact ⟨hreg, fun group hr => groupSize_recipients fun id hid => hreg group id hid (hr id hid)⟩

/-- Whoever is removed is a member no more. -/
theorem not_member_of_removed {before after : List Action} {id : ConnectionID} {t : State}
    (h : run step init (before ++ .removed id :: after) = some t) (ht : NoGhost t)
    (hb : t.issued ≤ UInt64.size) (group : String) : id ∉ t.store.members group := by
  intro hm
  obtain ⟨s, hs, hrest⟩ := run_split h
  obtain ⟨u, hu, hafter⟩ := run_cons.mp hrest
  have hn := run_numbered hs
  have hle := run_issued hafter
  have hsu := step_issued hu
  have hgone : Gone t id := run_gone (removed_gone hn (by omega) hu) (step_numbered _ s u hn hu) hb hafter
  rcases ht group id hm with hk | ⟨r, hr, _⟩
  · exact hgone.sender hk
  · rw [hgone.removal] at hr
    cases hr

/-- **No ghost members, exactly as long as no `join` comes too late and no `remove` too early.**
In a run every member of a group is registered in every state if and only if every `join` comes
while the id is registered and every `remove` begins when the id is in no group. Then the size of a
group is what a broadcast comes to, and a connection whose `remove` has returned is in no group
ever again. If a `remove` may begin earlier, a member is covered, by its sender or by its `remove`,
in every state if and only if every `join` was; that is enough for what comes after the `remove`,
and for all groups with none of whose members it is under way. -/
theorem members_registered (actions : List Action) (t : State)
    (h : run step init actions = some t) :
    (Always step MembersRegistered init actions ↔ Meets step InTime init actions) ∧
    (Always step NoGhost init actions ↔ Meets step JoinCovered init actions) ∧
    (Meets step InTime init actions → Meets step JoinCovered init actions ∧
      Always step (fun s => ∀ group,
        s.store.groupSize group = (s.store.recipients [group] none).length) init actions) ∧
    (Meets step JoinCovered init actions →
      Always step Settled init actions ∧
      ∀ before id after, actions = before ++ .removed id :: after → t.issued ≤ UInt64.size →
        ∀ group, id ∉ t.store.members group) := by
  have hregistered : Always step MembersRegistered init actions ↔ Meets step InTime init actions :=
    ⟨meets_of_always inTime_of_membersRegistered actions h,
      fun hg => always_of_meets step_membersRegistered actions hg init_membersRegistered⟩
  have hcovered : Always step NoGhost init actions ↔ Meets step JoinCovered init actions :=
    ⟨meets_of_always joinCovered_of_noGhost actions h,
      fun hg => always_of_meets step_noGhost actions hg init_noGhost⟩
  refine ⟨hregistered, hcovered, fun hg => ?_, fun hg => ?_⟩
  · have hall := hregistered.mpr hg
    exact ⟨hcovered.mp (always_mono (fun _ => MembersRegistered.noGhost) hall),
      always_mono (fun s hs group => groupSize_recipients (hs group)) hall⟩
  · have hall := hcovered.mpr hg
    refine ⟨always_mono (fun _ => NoGhost.settled) hall, ?_⟩
    rintro before id after rfl hb group
    exact not_member_of_removed h (always_last hall h) hb group

/-- A member that joins in time and leaves before it goes, and one that is swept when it goes. -/
theorem members_registered_visit :
    Always step MembersRegistered init [.register, .join 1 "chat", .leave 1 "chat", .removeSender 1,
      .beginSweep 1, .sweep 1 "chat", .removed 1] ∧
    Always step Settled init
      [.register, .join 1 "chat", .removeSender 1, .beginSweep 1, .sweep 1 "chat", .removed 1] := by
  constructor
  · refine (members_registered _ _ rfl).1.mpr ?_
    refine ⟨trivial, ?_⟩
    intro s hs
    cases hs
    refine ⟨show (1 : ConnectionID) ∈ _ by decide, ?_⟩
    intro s hs
    cases hs
    refine ⟨trivial, ?_⟩
    intro s hs
    cases hs
    refine ⟨fun group hm => ?_, ?_⟩
    · obtain rfl := List.mem_singleton.mp (ChannelStore.mem_keys_of_member hm)
      cases hm
    iterate 3
      intro s hs
      cases hs
      refine ⟨trivial, ?_⟩
    intro s hs
    trivial
  · refine ((members_registered _ _ rfl).2.2.2 ?_).1
    refine ⟨trivial, ?_⟩
    intro s hs
    cases hs
    refine ⟨.inl (by decide), ?_⟩
    iterate 4
      intro s hs
      cases hs
      refine ⟨trivial, ?_⟩
    intro s hs
    trivial

/-- The chat of one member and no sender: a callback that still holds the
connection joins after `remove` has returned. -/
theorem join_after_remove :
    ∃ t, run step init [.register, .removeSender 1, .beginSweep 1, .removed 1, .join 1 "chat"] = some t ∧
      t.removing.keys = [] ∧ 1 ∈ t.store.members "chat" ∧ 1 ∉ t.store.senders.keys ∧
      t.store.groupSize "chat" = 1 ∧ t.store.recipients ["chat"] none = [] :=
  ⟨_, rfl, by decide, by decide, by decide, by decide, by decide⟩

end Webrockets.Registry

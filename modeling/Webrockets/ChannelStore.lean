import Webrockets.Library.IndexMap

/-! The channel store of a server (`channel_store.rs`).

Connections are known by the ids `register` hands out, and a connection's sender
by the number of its channel. A `DashMap` is iterated in an order of its own,
so the two maps are read as insertion-ordered ones and nothing below depends on
which order that is. `removeSender` and `sweepGroup` are the two things `remove`
does, apart: other threads run in between. -/
namespace Webrockets

abbrev ConnectionID := UInt64

/-- The number of a connection's channel: what an `Arc<mpsc::Sender>` points to. -/
abbrev Sender := Nat

structure ChannelStore where
  nextId : ConnectionID
  senders : IndexMap ConnectionID Sender
  groups : IndexMap String (IndexSet ConnectionID)

namespace ChannelStore

def new : ChannelStore := ⟨1, .empty, .empty⟩

def register (s : ChannelStore) (tx : Sender) : ConnectionID × ChannelStore :=
  -- `fetch_add` wraps around
  (s.nextId, { s with nextId := s.nextId + 1, senders := s.senders.insert s.nextId tx })

def join (s : ChannelStore) (id : ConnectionID) (group : String) : Bool × ChannelStore :=
  let members := (s.groups.get? group).getD default
  (decide (id ∉ members), { s with groups := s.groups.upsert group default (·.insert id) })

def registerWithGroup (s : ChannelStore) (group : String) (tx : Sender) : ConnectionID × ChannelStore :=
  let (id, s) := s.register tx
  (id, (s.join id group).2)

def leave (s : ChannelStore) (id : ConnectionID) (group : String) : Bool × ChannelStore :=
  match s.groups.get? group with
  | none => (false, s)
  | some members => (decide (id ∈ members), { s with groups := s.groups.modify group (·.remove id) })

def getGroups (s : ChannelStore) (id : ConnectionID) : List String :=
  (s.groups.entries.filter fun e => id ∈ e.2).map Prod.fst

def groupSize (s : ChannelStore) (group : String) : Nat :=
  ((s.groups.get? group).map IndexSet.size).getD 0

/-- The first line of `remove`. -/
def removeSender (s : ChannelStore) (id : ConnectionID) : ChannelStore :=
  { s with senders := s.senders.remove id }

/-- One turn of the loop of `remove`. -/
def sweepGroup (s : ChannelStore) (id : ConnectionID) (group : String) : ChannelStore :=
  { s with groups := s.groups.modify group (·.remove id) }

/-- `remove` with nothing running in between. -/
def remove (s : ChannelStore) (id : ConnectionID) : ChannelStore :=
  s.groups.keys.foldl (fun s group => s.sweepGroup id group) (s.removeSender id)

/-- The members of a group; an unknown group has none. -/
def members (s : ChannelStore) (group : String) : IndexSet ConnectionID :=
  (s.groups.get? group).getD default

/-! ### Members -/

theorem groupSize_eq (s : ChannelStore) (group : String) :
    s.groupSize group = (s.members group).elems.length := by
  unfold groupSize members
  cases s.groups.get? group <;> rfl

/-- A group with a member is in the map. -/
theorem mem_keys_of_member {s : ChannelStore} {group : String} {id : ConnectionID}
    (h : id ∈ s.members group) : group ∈ s.groups.keys := by
  by_contra hk
  unfold members at h
  rw [IndexMap.get?_eq_none.mpr hk] at h
  exact IndexSet.not_mem_default id h

/-- The groups of a connection are those it is a member of. -/
theorem mem_getGroups {s : ChannelStore} {id : ConnectionID} {group : String} :
    group ∈ s.getGroups id ↔ id ∈ s.members group := by
  simp only [getGroups, List.mem_map, List.mem_filter, decide_eq_true_eq]
  constructor
  · rintro ⟨⟨_, members⟩, ⟨he, hid⟩, rfl⟩
    rw [ChannelStore.members, IndexMap.get?_eq_some.mpr he]
    exact hid
  · intro h
    obtain ⟨members, hm⟩ := IndexMap.mem_keys.mp (mem_keys_of_member h)
    rw [ChannelStore.members, hm] at h
    exact ⟨(group, members), ⟨IndexMap.get?_mem hm, h⟩, rfl⟩

@[simp] theorem member_register {s : ChannelStore} {tx : Sender} {group : String} :
    (s.register tx).2.members group = s.members group := rfl

@[simp] theorem member_removeSender {s : ChannelStore} {id : ConnectionID} {group : String} :
    (s.removeSender id).members group = s.members group := rfl

theorem member_join {s : ChannelStore} {id j : ConnectionID} {group g : String} :
    j ∈ (s.join id group).2.members g ↔ (j = id ∧ g = group) ∨ j ∈ s.members g := by
  unfold members
  show j ∈ ((s.groups.upsert group default (·.insert id)).get? g).getD default ↔ _
  by_cases hg : g = group
  · subst hg
    rw [IndexMap.get?_upsert_self]
    simp
  · rw [IndexMap.get?_upsert_of_ne _ hg]
    simp [hg]

theorem member_sweepGroup {s : ChannelStore} {id j : ConnectionID} {group g : String} :
    j ∈ (s.sweepGroup id group).members g ↔ j ∈ s.members g ∧ ¬ (j = id ∧ g = group) := by
  unfold members
  show j ∈ ((s.groups.modify group (·.remove id)).get? g).getD default ↔ _
  rw [IndexMap.get?_modify]
  by_cases hg : g = group
  · subst hg
    cases s.groups.get? g with
    | none => simp
    | some members => simp
  · simp [hg]

/-- `leave` takes the id out of the group, whether or not the group is there. -/
theorem member_leave {s : ChannelStore} {id j : ConnectionID} {group g : String} :
    j ∈ (s.leave id group).2.members g ↔ j ∈ s.members g ∧ ¬ (j = id ∧ g = group) := by
  cases hg : s.groups.get? group with
  | some members =>
    have hl : (s.leave id group).2 = s.sweepGroup id group := by
      unfold leave
      rw [hg]
      rfl
    rw [hl]
    exact member_sweepGroup
  | none =>
    have hl : (s.leave id group).2 = s := by
      unfold leave
      rw [hg]
    rw [hl]
    refine ⟨fun h => ⟨h, ?_⟩, And.left⟩
    rintro ⟨rfl, rfl⟩
    exact IndexMap.get?_eq_none.mp hg (mem_keys_of_member h)

@[simp] theorem senders_join {s : ChannelStore} {id : ConnectionID} {group : String} :
    (s.join id group).2.senders = s.senders := rfl

@[simp] theorem senders_leave {s : ChannelStore} {id : ConnectionID} {group : String} :
    (s.leave id group).2.senders = s.senders := by
  unfold leave
  cases s.groups.get? group <;> rfl

@[simp] theorem senders_sweepGroup {s : ChannelStore} {id : ConnectionID} {group : String} :
    (s.sweepGroup id group).senders = s.senders := rfl

/-! ### Who a broadcast comes to -/

/-- What one turn of the inner loop of `broadcast` sends to, if anything. -/
def recipient (s : ChannelStore) (exclude : Option ConnectionID) (id : ConnectionID) : Option Sender :=
  if exclude = some id then none else s.senders.get? id

/-- The senders `broadcast` calls `try_send` on, in the order of its two loops. -/
def recipients (s : ChannelStore) (groups : List String) (exclude : Option ConnectionID) : List Sender :=
  groups.flatMap fun group => (s.members group).elems.filterMap (s.recipient exclude)

end ChannelStore

end Webrockets

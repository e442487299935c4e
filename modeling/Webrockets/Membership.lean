import Mathlib.Data.Set.Card
import Webrockets.Connection
import Webrockets.Library.PairSet
import Webrockets.Registry

/-! The channel store as a relation between connections and groups (`channel_store.rs`).

The store is a map of groups to ids. What it is for is a relation that is asked from both
sides: which groups has a connection, and how many connections has a group. `store_membership`
says that it is one, over any sequence of operations, and that the operations of one
connection do not touch another. -/
namespace Webrockets
open PairSet

/-! ### The operations -/

inductive StoreOp where
  | register (tx : Sender)
  | registerWithGroup (group : String) (tx : Sender)
  | join (id : ConnectionID) (group : String)
  | leave (id : ConnectionID) (group : String)
  | remove (id : ConnectionID)
  | getGroups (id : ConnectionID)
  | groupSize (group : String)
  deriving DecidableEq, Repr

inductive StoreResult where
  | id (id : ConnectionID)
  | bool (b : Bool)
  | unit
  | groups (groups : List String)
  | size (n : Nat)
  deriving DecidableEq, Repr

namespace ChannelStore

def perform (s : ChannelStore) : StoreOp → StoreResult × ChannelStore
  | .register tx => (.id (s.register tx).1, (s.register tx).2)
  | .registerWithGroup group tx =>
    (.id (s.registerWithGroup group tx).1, (s.registerWithGroup group tx).2)
  | .join id group => (.bool (s.join id group).1, (s.join id group).2)
  | .leave id group => (.bool (s.leave id group).1, (s.leave id group).2)
  | .remove id => (.unit, s.remove id)
  | .getGroups id => (.groups (s.getGroups id), s)
  | .groupSize group => (.size (s.groupSize group), s)

/-- The operations of a sequence with what they return. -/
def history (s : ChannelStore) : List StoreOp → List (StoreOp × StoreResult)
  | [] => []
  | op :: rest => (op, (s.perform op).1) :: (s.perform op).2.history rest

def after (s : ChannelStore) (ops : List StoreOp) : ChannelStore :=
  ops.foldl (fun s op => (s.perform op).2) s

end ChannelStore

/-- What an operation that has returned says about the relation. -/
def change : StoreOp × StoreResult → Option (Change ConnectionID String)
  | (.registerWithGroup group _, .id id) => some (.join id group)
  | (.join id group, _) => some (.join id group)
  | (.leave id group, _) => some (.leave id group)
  | (.remove id, _) => some (.clear id)
  | _ => none

/-- The id that a registration returns. -/
def registered : StoreOp × StoreResult → Option ConnectionID
  | (.register _, .id id) => some id
  | (.registerWithGroup _ _, .id id) => some id
  | _ => none

def StoreOp.isRegistration : StoreOp → Bool
  | .register _ | .registerWithGroup _ _ => true
  | _ => false

/-- The connection that an operation is one of. -/
def StoreOp.subject (s : ChannelStore) : StoreOp → Option ConnectionID
  | .register _ | .registerWithGroup _ _ => some s.nextId
  | .join id _ | .leave id _ | .remove id => some id
  | .getGroups _ | .groupSize _ => none

/-! ### The relation -/

namespace ChannelStore

/-- Who is in which group. -/
def pairs (s : ChannelStore) : Set (ConnectionID × String) := {p | p.1 ∈ s.members p.2}

variable {s : ChannelStore} {id j : ConnectionID} {group g : String}

theorem mem_pairs : (id, group) ∈ s.pairs ↔ id ∈ s.members group := Iff.rfl

/-- The loop of `remove` takes the id out of the groups it comes to. -/
theorem member_sweeps (l : List String) (s : ChannelStore) :
    j ∈ (l.foldl (fun s group => s.sweepGroup id group) s).members g ↔
      j ∈ s.members g ∧ ¬ (j = id ∧ g ∈ l) := by
  induction l generalizing s with
  | nil => simp
  | cons group rest ih =>
    rw [List.foldl_cons, ih, member_sweepGroup, List.mem_cons]
    tauto

theorem member_remove : j ∈ (s.remove id).members g ↔ j ∈ s.members g ∧ j ≠ id := by
  rw [remove, member_sweeps, member_removeSender]
  refine and_congr_right fun hj => not_congr ⟨And.left, fun he => ⟨he, mem_keys_of_member hj⟩⟩

/-- Every operation does to the relation what it says. -/
theorem perform_pairs (s : ChannelStore) (op : StoreOp) :
    (s.perform op).2.pairs =
      match change (op, (s.perform op).1) with
      | some c => c.apply s.pairs
      | none => s.pairs := by
  ext ⟨j, g⟩
  cases op with
  | register tx => exact Iff.rfl
  | registerWithGroup group tx =>
    show j ∈ ((s.register tx).2.join (s.register tx).1 group).2.members g ↔ _
    rw [member_join, member_register]
    simp [change, Change.apply, perform, registerWithGroup, mem_pairs]
  | join id group =>
    show j ∈ (s.join id group).2.members g ↔ _
    rw [member_join]
    simp [change, Change.apply, mem_pairs]
  | leave id group =>
    show j ∈ (s.leave id group).2.members g ↔ _
    rw [member_leave]
    simp [change, Change.apply, mem_pairs]
  | remove id =>
    show j ∈ (s.remove id).members g ↔ _
    rw [member_remove]
    simp [change, Change.apply, mem_pairs]
  | getGroups id => exact Iff.rfl
  | groupSize group => exact Iff.rfl

theorem pairs_after (s : ChannelStore) (ops : List StoreOp) :
    (s.after ops).pairs =
      ((s.history ops).filterMap change).foldl (fun r c => c.apply r) s.pairs := by
  induction ops generalizing s with
  | nil => rfl
  | cons op rest ih =>
    have hrest := ih (s.perform op).2
    rw [perform_pairs] at hrest
    show ((s.perform op).2.after rest).pairs = (((op, (s.perform op).1) ::
      (s.perform op).2.history rest).filterMap change).foldl _ s.pairs
    rw [hrest, List.filterMap_cons]
    cases change (op, (s.perform op).1) <;> rfl

/-- The groups of a connection are those that its last operations left it in. -/
theorem mem_pairs_new (ops : List StoreOp) (id : ConnectionID) (group : String) :
    (id, group) ∈ (new.after ops).pairs ↔
      latest ((new.history ops).filterMap change) id group = true := by
  have hnew : new.pairs = ∅ := by
    ext ⟨j, g⟩
    exact ⟨fun h => absurd h (IndexSet.not_mem_default j), fun h => absurd h (Set.notMem_empty _)⟩
  rw [pairs_after, hnew]
  exact mem_after

/-! ### Ids -/

theorem nextId_sweeps (l : List String) (s : ChannelStore) (id : ConnectionID) :
    (l.foldl (fun s group => s.sweepGroup id group) s).nextId = s.nextId := by
  induction l generalizing s with
  | nil => rfl
  | cons group rest ih => exact ih _

theorem perform_nextId (s : ChannelStore) (op : StoreOp) :
    (s.perform op).2.nextId = if op.isRegistration then s.nextId + 1 else s.nextId := by
  cases op with
  | leave id group =>
    show (s.leave id group).2.nextId = s.nextId
    unfold leave
    split <;> rfl
  | remove id => exact nextId_sweeps _ _ _
  | _ => rfl

theorem perform_registered (s : ChannelStore) (op : StoreOp) :
    registered (op, (s.perform op).1) = if op.isRegistration then some s.nextId else none := by
  cases op <;> rfl

/-- Ids are handed out in their order. -/
theorem registered_history (ops : List StoreOp) (s : ChannelStore) (n : Nat)
    (hs : s.nextId = Registry.idOf n) : (s.history ops).filterMap registered =
      (List.range' n (ops.countP StoreOp.isRegistration)).map Registry.idOf := by
  induction ops generalizing s n with
  | nil => rfl
  | cons op rest ih =>
    have hnext := perform_nextId s op
    rw [history, List.filterMap_cons, perform_registered, List.countP_cons]
    cases hop : op.isRegistration with
    | false =>
      rw [hop] at hnext
      simpa using ih (s.perform op).2 n (hnext.trans hs)
    | true =>
      rw [hop, if_pos rfl, hs] at hnext
      have hsucc : (s.perform op).2.nextId = Registry.idOf (n + 1) := by
        rw [hnext]
        simp only [Registry.idOf, UInt64.ofNat_add]
        rfl
      simp only [if_true, ih _ (n + 1) hsucc, hs]
      rfl

/-- Fewer than 2⁶⁴ registrations return as many ids. -/
theorem registered_nodup {ops : List StoreOp}
    (h : ops.countP StoreOp.isRegistration < UInt64.size) :
    ((new.history ops).filterMap registered).Nodup := by
  rw [registered_history ops new 0 rfl]
  refine List.Nodup.map_on ?_ List.nodup_range'
  intro m hm n hn heq
  rw [List.mem_range'_1] at hm hn
  rcases Nat.lt_trichotomy m n with hlt | rfl | hlt
  · exact absurd heq (Registry.idOf_inj hlt (by omega))
  · rfl
  · exact absurd heq.symm (Registry.idOf_inj hlt (by omega))

/-! ### The questions -/

theorem leave_fst : (s.leave id group).1 = true ↔ id ∈ s.members group := by
  unfold leave members
  cases s.groups.get? group with
  | none => exact iff_of_false (by simp) (IndexSet.not_mem_default id)
  | some members => exact decide_eq_true_iff

theorem getGroups_nodup (s : ChannelStore) (id : ConnectionID) : (s.getGroups id).Nodup :=
  s.groups.nodup.sublist (List.filter_sublist.map _)

/-- A group is counted as it is listed. -/
theorem groupSize_ncard (s : ChannelStore) (group : String) :
    s.groupSize group = {id | group ∈ s.getGroups id}.ncard := by
  have hset : {id | group ∈ s.getGroups id} = ↑(s.members group).elems.toFinset := by
    ext id
    rw [Set.mem_ofPred_eq, mem_getGroups, Finset.mem_coe, List.mem_toFinset]
    rfl
  rw [hset, Set.ncard_coe_finset, List.toFinset_card_of_nodup (s.members group).nodup, groupSize_eq]

/-- A change is one of the operation's own connection. -/
theorem change_subject {op : StoreOp} {c : Change ConnectionID String}
    (h : change (op, (s.perform op).1) = some c) : op.subject s = some c.subject := by
  cases op <;> cases h <;> rfl

/-- The operations of one connection leave the groups of the others alone. -/
theorem getGroups_perform {op : StoreOp} (h : op.subject s ≠ some id) :
    ((s.perform op).2.getGroups id).Perm (s.getGroups id) := by
  rw [List.perm_ext_iff_of_nodup (getGroups_nodup _ _) (getGroups_nodup _ _)]
  intro group
  rw [mem_getGroups, mem_getGroups, ← mem_pairs, ← mem_pairs, perform_pairs]
  cases hc : change (op, (s.perform op).1) with
  | none => exact Iff.rfl
  | some c =>
    refine mem_apply_of_ne (fun he => h ?_) group
    rw [change_subject hc, he]

end ChannelStore

open ChannelStore in
/-- **The store is a relation.** After any sequence of operations, with fewer than 2⁶⁴
registrations, the ids that were returned are distinct; `join` and `leave` return whether they
change anything; the groups of a connection are listed once each, and they are those in which
its last own operation about the group has left it; a group is as large as the connections that
list it are many; and whatever comes next, the connections that it is not about keep their
groups. -/
theorem store_membership (ops : List StoreOp)
    (hops : ops.countP StoreOp.isRegistration < UInt64.size) :
    ((new.history ops).filterMap registered).Nodup ∧
    (∀ id group, ((new.after ops).join id group).1 = true ↔
      latest ((new.history ops).filterMap change) id group = false) ∧
    (∀ id group, ((new.after ops).leave id group).1 = true ↔
      latest ((new.history ops).filterMap change) id group = true) ∧
    (∀ id, ((new.after ops).getGroups id).Nodup ∧ ∀ group,
      group ∈ (new.after ops).getGroups id ↔
        latest ((new.history ops).filterMap change) id group = true) ∧
    (∀ group, (new.after ops).groupSize group = {id | group ∈ (new.after ops).getGroups id}.ncard) ∧
    ∀ op id, op.subject (new.after ops) ≠ some id →
      (((new.after ops).perform op).2.getGroups id).Perm ((new.after ops).getGroups id) := by
  refine ⟨registered_nodup hops, fun id group => ?_, fun id group => ?_,
    fun id => ⟨?_, fun group => ?_⟩, fun group => ?_, fun op id hop => ?_⟩
  · rw [← Bool.not_eq_true, ← mem_pairs_new, mem_pairs]
    exact decide_eq_true_iff
  · rw [← mem_pairs_new, mem_pairs, leave_fst]
  · exact getGroups_nodup _ id
  · rw [← mem_pairs_new, mem_getGroups, mem_pairs]
  · exact groupSize_ncard _ group
  · exact getGroups_perform hop

open ChannelStore in
theorem store_membership_chat :
    "chat" ∈ (new.after [.registerWithGroup "chat" 0, .registerWithGroup "chat" 1, .join 2 "test",
      .remove 1, .leave 2 "test"]).getGroups 2 :=
  (((store_membership _ (by decide)).2.2.2.1 2).2 "chat").mpr (by decide)

end Webrockets

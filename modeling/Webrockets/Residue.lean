import Webrockets.Membership

/-! What a channel store keeps (`channel_store.rs`).

`leave` and `remove` take members out of groups, and nothing takes a group out of the store. So a
group that has once been named stays, with or without members. Members and senders go with their
connections: `store_residue`. -/
namespace Webrockets
open PairSet

/-- The operation asks for the group to be there. -/
def StoreOp.names (group : String) : StoreOp → Bool
  | .registerWithGroup g _ => g = group
  | .join _ g => g = group
  | _ => false

namespace ChannelStore
variable {s : ChannelStore} {id : ConnectionID} {group : String}

/-! ### Groups -/

@[simp] theorem keys_sweepGroup (s : ChannelStore) (id : ConnectionID) (group : String) :
    (s.sweepGroup id group).groups.keys = s.groups.keys := IndexMap.keys_modify _ _ _

theorem keys_sweeps (l : List String) (s : ChannelStore) (id : ConnectionID) :
    (l.foldl (fun s group => s.sweepGroup id group) s).groups.keys = s.groups.keys := by
  induction l generalizing s with
  | nil => rfl
  | cons group rest ih => rw [List.foldl_cons, ih, keys_sweepGroup]

theorem keys_leave (s : ChannelStore) (id : ConnectionID) (group : String) :
    (s.leave id group).2.groups.keys = s.groups.keys := by
  unfold leave
  cases s.groups.get? group with
  | none => rfl
  | some members => exact IndexMap.keys_modify _ _ _

theorem mem_keys_join {g : String} :
    g ∈ (s.join id group).2.groups.keys ↔ g = group ∨ g ∈ s.groups.keys :=
  IndexMap.mem_keys_upsert

/-- A group is there as soon as it is named, and from then on. -/
theorem mem_keys_perform {op : StoreOp} :
    group ∈ (s.perform op).2.groups.keys ↔ group ∈ s.groups.keys ∨ op.names group = true := by
  cases op with
  | registerWithGroup g tx =>
    show group ∈ ((s.register tx).2.join (s.register tx).1 g).2.groups.keys ↔ _
    rw [mem_keys_join, StoreOp.names, decide_eq_true_eq, or_comm, eq_comm]
    exact Iff.rfl
  | join id g =>
    show group ∈ (s.join id g).2.groups.keys ↔ _
    rw [mem_keys_join, StoreOp.names, decide_eq_true_eq, or_comm, eq_comm]
  | leave id g =>
    show group ∈ (s.leave id g).2.groups.keys ↔ _
    simp [keys_leave, StoreOp.names]
  | remove id =>
    show group ∈ (s.remove id).groups.keys ↔ _
    rw [remove, keys_sweeps]
    simp [removeSender, StoreOp.names]
  | register tx => simp [perform, register, StoreOp.names]
  | getGroups id => simp [perform, StoreOp.names]
  | groupSize g => simp [perform, StoreOp.names]

theorem after_concat (s : ChannelStore) (ops : List StoreOp) (op : StoreOp) :
    s.after (ops ++ [op]) = ((s.after ops).perform op).2 := by
  simp only [after, List.foldl_append, List.foldl_cons, List.foldl_nil]

theorem mem_keys_after (ops : List StoreOp) :
    group ∈ (new.after ops).groups.keys ↔ ∃ op ∈ ops, op.names group = true := by
  induction ops using List.reverseRecOn with
  | nil => simp [after, new, IndexMap.keys, IndexMap.empty]
  | append_singleton ops op ih =>
    rw [after_concat, mem_keys_perform, ih]
    simp [or_and_right, exists_or]

/-- The map is as large as the names are many. -/
theorem groups_ncard (ops : List StoreOp) :
    (new.after ops).groups.entries.length = {group | ∃ op ∈ ops, op.names group = true}.ncard := by
  have hset : {group | ∃ op ∈ ops, op.names group = true} =
      ↑(new.after ops).groups.keys.toFinset := by
    ext group
    rw [Set.mem_ofPred_eq, Finset.mem_coe, List.mem_toFinset, mem_keys_after]
  have hnodup : (new.after ops).groups.keys.Nodup := (new.after ops).groups.nodup
  rw [hset, Set.ncard_coe_finset, List.toFinset_card_of_nodup hnodup, IndexMap.keys,
    List.length_map]

/-! ### Connections -/

/-- The store has its sender, or it is in a group. -/
def Present (s : ChannelStore) (id : ConnectionID) : Prop :=
  id ∈ s.senders.keys ∨ ∃ group, id ∈ s.members group

theorem senders_sweeps (l : List String) (s : ChannelStore) (id : ConnectionID) :
    (l.foldl (fun s group => s.sweepGroup id group) s).senders = s.senders := by
  induction l generalizing s with
  | nil => rfl
  | cons group rest ih => rw [List.foldl_cons, ih, senders_sweepGroup]

theorem senders_remove (s : ChannelStore) (id : ConnectionID) :
    (s.remove id).senders = s.senders.remove id := by
  rw [remove, senders_sweeps, removeSender]

theorem not_present_remove (s : ChannelStore) (id : ConnectionID) : ¬ (s.remove id).Present id := by
  rintro (h | ⟨group, h⟩)
  · rw [senders_remove] at h
    exact (IndexMap.mem_keys_remove.mp h).2 rfl
  · exact (member_remove.mp h).2 rfl

/-- An operation that is not about a connection does not make it present. -/
theorem present_of_perform {op : StoreOp} (hop : op.subject s ≠ some id)
    (h : (s.perform op).2.Present id) : s.Present id := by
  rcases h with h | ⟨group, h⟩
  · refine .inl ?_
    cases op with
    | register tx =>
      have hne : id ≠ s.nextId := fun he => hop (by rw [he]; rfl)
      exact (IndexMap.mem_keys_insert.mp h).resolve_left hne
    | registerWithGroup g tx =>
      have hne : id ≠ s.nextId := fun he => hop (by rw [he]; rfl)
      exact (IndexMap.mem_keys_insert.mp h).resolve_left hne
    | leave j g =>
      have hsame : (s.perform (.leave j g)).2.senders = s.senders := senders_leave
      exact hsame ▸ h
    | remove j =>
      have hsame : (s.perform (.remove j)).2.senders = s.senders.remove j := senders_remove s j
      rw [hsame] at h
      exact (IndexMap.mem_keys_remove.mp h).1
    | join j g => exact h
    | getGroups j => exact h
    | groupSize g => exact h
  · have hgroups := (getGroups_perform hop).mem_iff (a := group)
    rw [mem_getGroups, mem_getGroups] at hgroups
    exact .inr ⟨group, hgroups.mp h⟩

/-- Every operation about a connection is its removal, or is followed by it. -/
def AllRemoved (ops : List StoreOp) : Prop :=
  ∀ id before op rest, ops = before ++ op :: rest → op.subject (new.after before) = some id →
    .remove id ∈ op :: rest

/-- A connection that is present has done something that its removal does not follow. -/
theorem pending_of_present (ops : List StoreOp) (h : (new.after ops).Present id) :
    ∃ before op rest, ops = before ++ op :: rest ∧ op.subject (new.after before) = some id ∧
      .remove id ∉ op :: rest := by
  induction ops using List.reverseRecOn with
  | nil =>
    rcases h with h | ⟨group, h⟩
    · exact absurd h List.not_mem_nil
    · exact absurd h (IndexSet.not_mem_default id)
  | append_singleton ops op ih =>
    rw [after_concat] at h
    have hremove : op ≠ .remove id := by
      rintro rfl
      exact not_present_remove _ id h
    by_cases hop : op.subject (new.after ops) = some id
    · exact ⟨ops, op, [], rfl, hop, by simpa using Ne.symm hremove⟩
    · obtain ⟨before, op', rest, rfl, hop', hrest⟩ := ih (present_of_perform hop h)
      refine ⟨before, op', rest ++ [op], by simp, hop', ?_⟩
      simpa [not_or, Ne.symm hremove] using hrest

theorem not_present_of_allRemoved {ops : List StoreOp} (h : AllRemoved ops) (id : ConnectionID) :
    ¬ (new.after ops).Present id := by
  intro hpresent
  obtain ⟨before, op, rest, hsplit, hop, hrest⟩ := pending_of_present ops hpresent
  exact hrest (h id before op rest hsplit hop)

end ChannelStore

open ChannelStore in
/-- **Groups stay, and nothing else does.** After any sequence of operations the store has an entry
for each name that a registration or a join has given, and for no other, so that there are as many
entries as distinct names. A group has a member if and only if some connection's last own operation
about it has left it in. Once every connection has been removed, and has done nothing since, there
is no sender and no member. -/
theorem store_residue (ops : List StoreOp) :
    (∀ group, group ∈ (new.after ops).groups.keys ↔ ∃ op ∈ ops, op.names group = true) ∧
    (new.after ops).groups.entries.length =
      {group | ∃ op ∈ ops, op.names group = true}.ncard ∧
    (∀ group, (∃ id, id ∈ (new.after ops).members group) ↔
      ∃ id, latest ((new.history ops).filterMap change) id group = true) ∧
    (AllRemoved ops → (new.after ops).senders.keys = [] ∧
      ∀ group id, id ∉ (new.after ops).members group) := by
  refine ⟨fun group => mem_keys_after ops, groups_ncard ops, fun group => ?_, fun hremoved => ?_⟩
  · exact exists_congr fun id => mem_pairs_new ops id group
  · have hnot := not_present_of_allRemoved hremoved
    refine ⟨List.eq_nil_iff_forall_not_mem.mpr fun id hid => hnot id (.inl hid), ?_⟩
    exact fun group id hid => hnot id (.inr ⟨group, hid⟩)

open ChannelStore in
theorem store_residue_chat :
    (new.after [.registerWithGroup "chat" 0, .remove 1]).senders.keys = [] ∧
      ∀ group id, id ∉ (new.after [.registerWithGroup "chat" 0, .remove 1]).members group := by
  refine (store_residue _).2.2.2 fun id before op rest hsplit hop => ?_
  match before with
  | [] =>
    cases hsplit
    cases hop
    decide
  | [_] =>
    cases hsplit
    cases hop
    decide
  | _ :: _ :: before =>
    have hlength := congrArg List.length hsplit
    simp only [List.length_append, List.length_cons, List.length_nil] at hlength
    omega

/-- The only connection is removed, and its group is still there without members. -/
theorem group_left_behind :
    (ChannelStore.new.after [.registerWithGroup "chat" 0, .remove 1]).groups.keys = ["chat"] ∧
      ((ChannelStore.new.after [.registerWithGroup "chat" 0, .remove 1]).members "chat").elems = [] ∧
      (ChannelStore.new.after [.registerWithGroup "chat" 0, .remove 1]).senders.keys = [] := by
  decide

end Webrockets

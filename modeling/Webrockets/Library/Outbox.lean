import Webrockets.Library.Mpsc
import Webrockets.Library.Transition

/-! Bounded channels fed at once where there is room and by tasks where there is not.

A value meant for a channel is put into its queue at once, or, when the queue is
full, handed to a task that sends it later. One task can have values for several
channels and sends them one after the other. The consumer of a channel takes
values out until it stops.

`Account` is what there is to know about one channel, and `Move` what a step
means to it: `step_move` takes a step of the whole apart into moves, so that
what is kept for a channel is shown on moves alone. -/
namespace Outbox

/-- One value on its way to one channel; the serial number tells copies of a value apart. -/
structure Copy (R : Type) where
  serial : Nat
  value : R
  deriving DecidableEq, Repr

/-- A channel and what became of the copies accepted for it: `entered` came into
the queue, `taken` were taken out again, `refused` found the channel closed and
`cancelled` were dropped with their task. -/
structure Link (capacity : Nat) (R : Type) where
  queue : Mpsc capacity Nat (Copy R)
  accepted : List (Copy R)
  entered : List (Copy R)
  taken : List (Copy R)
  refused : List (Copy R)
  cancelled : List (Copy R)

/-- A task that sends its copies in turn. Only a task that is a `future` of
somebody's can be cancelled. -/
structure Task (K R : Type) where
  sends : List (K × Copy R)
  future : Bool
  deriving DecidableEq, Repr

end Outbox

structure Outbox (capacity : Nat) (K R : Type) where
  link : K → Outbox.Link capacity R
  tasks : List (Outbox.Task K R)
  serials : Nat

namespace Outbox
variable {capacity : Nat} {K R : Type}

def Link.new : Link capacity R := ⟨.new, [], [], [], [], []⟩

def new : Outbox capacity K R := ⟨fun _ => .new, [], 0⟩

variable [DecidableEq K]

/-- The copies for one channel. -/
def on (k : K) (sends : List (K × Copy R)) : List (Copy R) :=
  sends.filterMap fun e => if e.1 = k then some e.2 else none

/-- The copies for a channel that are still with a task. -/
def pending (o : Outbox capacity K R) (k : K) : List (Copy R) := on k (o.tasks.flatMap Task.sends)

/-! ### What happens to an outbox -/

def setLink (o : Outbox capacity K R) (k : K) (l : Link capacity R) : Outbox capacity K R :=
  { o with link := fun j => if j = k then l else o.link j }

/-- The value goes into the queue now or not at all. -/
def put (o : Outbox capacity K R) (k : K) (r : R) : Except Mpsc.TrySendError (Outbox capacity K R) :=
  let c : Copy R := ⟨o.serials, r⟩
  let l := o.link k
  match l.queue.trySend c with
  | .ok queue => .ok { o.setLink k
      { l with queue := queue, accepted := l.accepted ++ [c], entered := l.entered ++ [c] } with
      serials := o.serials + 1 }
  | .error e => .error e

/-- A copy of the value for each of the channels, in order. -/
def copies (o : Outbox capacity K R) (r : R) (ks : List K) : List (K × Copy R) :=
  (ks.zipIdx o.serials).map fun e => (e.1, ⟨e.2, r⟩)

/-- A new task takes the value over, one copy for each of the channels. -/
def defer (o : Outbox capacity K R) (future : Bool) (r : R) (ks : List K) : Outbox capacity K R :=
  { link := fun k => { o.link k with accepted := (o.link k).accepted ++ on k (o.copies r ks) }
    tasks := o.tasks ++ [⟨o.copies r ks, future⟩]
    serials := o.serials + ks.length }

/-- The task polls the send it is at. A send to a closed channel fails, and the
task goes on to the next one. -/
def poll (o : Outbox capacity K R) (i : Nat) : Option (Outbox capacity K R) :=
  match o.tasks[i]? with
  | some ⟨(k, c) :: rest, future⟩ =>
    let l := o.link k
    match l.queue.poll c.serial c with
    | (.sent, queue) => some { o.setLink k { l with queue := queue, entered := l.entered ++ [c] } with
        tasks := o.tasks.set i ⟨rest, future⟩ }
    | (.pending, queue) => some (o.setLink k { l with queue := queue })
    | (.closed, queue) => some { o.setLink k { l with queue := queue, refused := l.refused ++ [c] } with
        tasks := o.tasks.set i ⟨rest, future⟩ }
  | _ => none

/-- A future with one send left is dropped. -/
def cancel (o : Outbox capacity K R) (i : Nat) : Option (Outbox capacity K R) :=
  match o.tasks[i]? with
  | some ⟨[(k, c)], true⟩ =>
    let l := o.link k
    some { o.setLink k
      { l with queue := l.queue.cancel c.serial, cancelled := l.cancelled ++ [c] } with
      tasks := o.tasks.set i ⟨[], true⟩ }
  | _ => none

/-- The consumer takes the first value out of the queue. -/
def take (o : Outbox capacity K R) (k : K) : Option (Copy R × Outbox capacity K R) :=
  let l := o.link k
  match l.queue.recv with
  | some (c, queue) => some (c, o.setLink k { l with queue := queue, taken := l.taken ++ [c] })
  | none => none

/-- The consumer is gone and the channel closed. -/
def stop (o : Outbox capacity K R) (k : K) : Outbox capacity K R :=
  o.setLink k { o.link k with queue := (o.link k).queue.close }

inductive Event (K R : Type) where
  | put (k : K) (r : R)
  | defer (future : Bool) (r : R) (ks : List K)
  | poll (i : Nat)
  | cancel (i : Nat)
  | take (k : K)
  | stop (k : K)
  deriving DecidableEq, Repr

def step : Event K R → Outbox capacity K R → Option (Outbox capacity K R)
  | .put k r, o => (o.put k r).toOption
  | .defer future r ks, o => some (o.defer future r ks)
  | .poll i, o => o.poll i
  | .cancel i, o => o.cancel i
  | .take k, o => (o.take k).map Prod.snd
  | .stop k, o => some (o.stop k)

/-! ### The same, seen from one channel -/

/-- What is to be known about one channel. `serials` is the next serial number. -/
structure Account (R : Type) where
  accepted : List (Copy R)
  pending : List (Copy R)
  entered : List (Copy R)
  queue : List (Copy R)
  taken : List (Copy R)
  refused : List (Copy R)
  cancelled : List (Copy R)
  closed : Bool
  serials : Nat

def account (o : Outbox capacity K R) (k : K) : Account R :=
  let l := o.link k
  ⟨l.accepted, o.pending k, l.entered, l.queue.queue, l.taken, l.refused, l.cancelled, l.queue.closed,
    o.serials⟩

/-- The values a step gives to a channel. -/
def Event.Gives : Event K R → K → R → Prop
  | .put j r, k, v => k = j ∧ v = r
  | .defer _ r ks, k, v => k ∈ ks ∧ v = r
  | _, _, _ => False

/-- Feeding a channel, `G` being the values that may be accepted for it. -/
inductive Account.Feed (G : R → Prop) : Account R → Account R → Prop
  /-- Other channels may use up serial numbers. -/
  | stay {a} (n : Nat) (hn : a.serials ≤ n) : Feed G a { a with serials := n }
  | put {a} (r : R) (hr : G r) (hc : a.closed = false) :
      Feed G a { a with
        accepted := a.accepted ++ [⟨a.serials, r⟩]
        entered := a.entered ++ [⟨a.serials, r⟩]
        queue := a.queue ++ [⟨a.serials, r⟩]
        serials := a.serials + 1 }
  | defer {a} (r : R) (cs : List (Copy R)) (n : Nat) (hr : ∀ c ∈ cs, c.value = r ∧ G r)
      (hs : cs.Pairwise fun x y => x.serial < y.serial)
      (hn : ∀ c ∈ cs, a.serials ≤ c.serial ∧ c.serial < n) (hle : a.serials ≤ n) :
      Feed G a { a with accepted := a.accepted ++ cs, pending := a.pending ++ cs, serials := n }
  | enter {a} (pre post : List (Copy R)) (c : Copy R) (hp : a.pending = pre ++ c :: post)
      (hc : a.closed = false) :
      Feed G a { a with pending := pre ++ post, entered := a.entered ++ [c], queue := a.queue ++ [c] }
  | refuse {a} (pre post : List (Copy R)) (c : Copy R) (hp : a.pending = pre ++ c :: post)
      (hc : a.closed = true) :
      Feed G a { a with pending := pre ++ post, refused := a.refused ++ [c] }
  | cancel {a} (pre post : List (Copy R)) (c : Copy R) (hp : a.pending = pre ++ c :: post) :
      Feed G a { a with pending := pre ++ post, cancelled := a.cancelled ++ [c] }

inductive Account.Move (G : R → Prop) : Account R → Account R → Prop
  | feed {a b} (h : Feed G a b) : Move G a b
  | take {a} (c : Copy R) (rest : List (Copy R)) (hq : a.queue = c :: rest) :
      Move G a { a with queue := rest, taken := a.taken ++ [c] }
  | stop {a} : Move G a { a with queue := [], closed := true }

theorem Account.Feed.same (G : R → Prop) (a : Account R) : Feed G a a := .stay a.serials (Nat.le_refl _)

theorem Account.Feed.mono {G G' : R → Prop} {a b : Account R} (h : Feed G a b)
    (hg : ∀ r, G r → G' r) : Feed G' a b := by
  cases h with
  | stay n hn => exact .stay n hn
  | put r hr hc => exact .put r (hg r hr) hc
  | defer r cs n hr hs hn hle => exact .defer r cs n (fun c hc => (hr c hc).imp_right (hg r)) hs hn hle
  | enter pre post c hp hc => exact .enter pre post c hp hc
  | refuse pre post c hp hc => exact .refuse pre post c hp hc
  | cancel pre post c hp => exact .cancel pre post c hp

theorem Account.Move.mono {G G' : R → Prop} {a b : Account R} (h : Move G a b)
    (hg : ∀ r, G r → G' r) : Move G' a b := by
  cases h with
  | feed h => exact .feed (h.mono hg)
  | take c rest hq => exact .take c rest hq
  | stop => exact .stop

/-- Feeding takes nothing out and closes nothing. -/
theorem Account.Feed.kept {G : R → Prop} {a b : Account R} (h : Feed G a b) :
    b.taken = a.taken ∧ b.closed = a.closed := by
  cases h <;> exact ⟨rfl, rfl⟩

/-- What feeding adds to the accepted copies was given. -/
theorem Account.Feed.given {G : R → Prop} {a b : Account R} (h : Feed G a b) {c : Copy R}
    (hc : c ∈ b.accepted) : c ∈ a.accepted ∨ G c.value := by
  cases h with
  | put r hr hclosed =>
    rcases List.mem_append.mp hc with hc | hc
    · exact .inl hc
    · rw [List.mem_singleton.mp hc]
      exact .inr hr
  | defer r cs n hr hs hn hle =>
    rcases List.mem_append.mp hc with hc | hc
    · exact .inl hc
    · rw [(hr c hc).1]
      exact .inr (hr c hc).2
  | _ => exact .inl hc

/-- Accepted copies stay accepted, and the new ones were given. -/
theorem Account.Move.grows {G : R → Prop} {a b : Account R} (h : Move G a b) :
    ∃ new, b.accepted = a.accepted ++ new ∧ ∀ c ∈ new, G c.value := by
  cases h with
  | feed h =>
    cases h with
    | put r hr hc => exact ⟨[_], rfl, fun c hc => List.mem_singleton.mp hc ▸ hr⟩
    | defer r cs n hr hs hn hle => exact ⟨cs, rfl, fun c hc => (hr c hc).1 ▸ (hr c hc).2⟩
    | _ => exact ⟨[], (List.append_nil _).symm, fun _ hc => nomatch hc⟩
  | take c rest hq => exact ⟨[], (List.append_nil _).symm, fun _ hc => nomatch hc⟩
  | stop => exact ⟨[], (List.append_nil _).symm, fun _ hc => nomatch hc⟩

theorem Account.Move.given {G : R → Prop} {a b : Account R} (h : Move G a b) {c : Copy R}
    (hc : c ∈ b.accepted) : c ∈ a.accepted ∨ G c.value := by
  cases h with
  | feed h => exact h.given hc
  | take _ _ _ => exact .inl hc
  | stop => exact .inl hc

theorem on_append (k : K) (a b : List (K × Copy R)) : on k (a ++ b) = on k a ++ on k b :=
  List.filterMap_append

@[simp] theorem on_cons_self (k : K) (c : Copy R) (rest : List (K × Copy R)) :
    on k ((k, c) :: rest) = c :: on k rest :=
  List.filterMap_cons_some (by simp)

theorem on_cons_of_ne {k j : K} (h : j ≠ k) (c : Copy R) (rest : List (K × Copy R)) :
    on j ((k, c) :: rest) = on j rest :=
  List.filterMap_cons_none (by simp [Ne.symm h])

theorem mem_on {k : K} {c : Copy R} {sends : List (K × Copy R)} : c ∈ on k sends ↔ (k, c) ∈ sends := by
  simp only [on, List.mem_filterMap, Option.ite_none_right_eq_some, Option.some.injEq]
  refine ⟨?_, fun h => ⟨(k, c), h, rfl, rfl⟩⟩
  intro h
  obtain ⟨e, he, hk, hc⟩ := h
  subst hk hc
  exact he

theorem mem_pending {o : Outbox capacity K R} {k : K} {c : Copy R} :
    c ∈ o.pending k ↔ ∃ task ∈ o.tasks, (k, c) ∈ task.sends := by
  simp only [pending, mem_on, List.mem_flatMap]

omit [DecidableEq K] in
/-- A task and the ones around it. -/
theorem split_tasks {tasks : List (Task K R)} {i : Nat} {task : Task K R} (h : tasks[i]? = some task) :
    ∃ pre post, tasks = pre ++ task :: post ∧ ∀ task', tasks.set i task' = pre ++ task' :: post := by
  obtain ⟨hi, rfl⟩ := List.getElem?_eq_some_iff.mp h
  refine ⟨tasks.take i, tasks.drop (i + 1), ?_, fun task' => List.set_eq_take_append_cons_drop.trans (if_pos hi)⟩
  rw [← List.drop_eq_getElem_cons hi, List.take_append_drop]

/-- When the first send of a task is gone, one copy less is pending on its channel. -/
theorem pending_split {o : Outbox capacity K R} (o' : Outbox capacity K R) {i : Nat} {k : K}
    {c : Copy R} {rest : List (K × Copy R)} {future : Bool} (h : o.tasks[i]? = some ⟨(k, c) :: rest, future⟩)
    (ho' : o'.tasks = o.tasks.set i ⟨rest, future⟩) :
    (∃ pre post, o.pending k = pre ++ c :: post ∧ o'.pending k = pre ++ post) ∧
      ∀ j, j ≠ k → o'.pending j = o.pending j := by
  obtain ⟨pre, post, hs, hset⟩ := split_tasks h
  have hbefore (j : K) : o.pending j =
      on j (pre.flatMap Task.sends) ++ (on j ((k, c) :: rest) ++ on j (post.flatMap Task.sends)) := by
    simp only [pending, hs, List.flatMap_append, List.flatMap_cons, on_append]
  have hafter (j : K) : o'.pending j =
      on j (pre.flatMap Task.sends) ++ (on j rest ++ on j (post.flatMap Task.sends)) := by
    simp only [pending, ho', hset, List.flatMap_append, List.flatMap_cons, on_append]
  refine ⟨⟨_, _, ?_, hafter k⟩, ?_⟩
  · rw [hbefore, on_cons_self]
    rfl
  · intro j hj
    rw [hbefore, hafter, on_cons_of_ne hj]

@[simp] theorem setLink_self (o : Outbox capacity K R) (k : K) (l : Link capacity R) :
    (o.setLink k l).link k = l := if_pos rfl

theorem setLink_of_ne (o : Outbox capacity K R) {k j : K} (h : j ≠ k) (l : Link capacity R) :
    (o.setLink k l).link j = o.link j := if_neg h

@[simp] theorem setLink_serials (o : Outbox capacity K R) (k : K) (l : Link capacity R) :
    (o.setLink k l).serials = o.serials := rfl

/-- The account of another channel, when only the link of `k` is written to and
no send of the other one is done. -/
theorem account_of_ne {o o' : Outbox capacity K R} {k j : K} {l : Link capacity R} (h : j ≠ k)
    (hl : o'.link = (o.setLink k l).link) (hp : o'.pending j = o.pending j) :
    account o' j = { account o j with serials := o'.serials } := by
  simp only [account, hl, hp, setLink_of_ne o h]

theorem put_ok {o o' : Outbox capacity K R} {k : K} {r : R} (h : o.put k r = .ok o') :
    (account o k).closed = false ∧ o'.tasks = o.tasks ∧
      account o' k = { account o k with
        accepted := (account o k).accepted ++ [⟨o.serials, r⟩]
        entered := (account o k).entered ++ [⟨o.serials, r⟩]
        queue := (account o k).queue ++ [⟨o.serials, r⟩]
        serials := o.serials + 1 } ∧
      ∀ j, j ≠ k → account o' j = { account o j with serials := o.serials + 1 } := by
  simp only [put] at h
  split at h
  · next queue hq =>
    cases h
    obtain ⟨hc, _, hc', hqueue, _⟩ := Mpsc.trySend_ok hq
    refine ⟨hc, rfl, ?_, fun j hj => account_of_ne hj rfl rfl⟩
    simp only [account, setLink_self, hqueue, hc, hc', pending]
    rfl
  · cases h

/-- What `put` means for the queues. -/
theorem put_queue {o o' : Outbox capacity K R} {k : K} {r : R} (h : o.put k r = .ok o') :
    0 < (o.link k).queue.permits ∧ o'.pending = o.pending ∧
      (o'.link k).queue.queue = (o.link k).queue.queue ++ [⟨o.serials, r⟩] ∧
      (∀ j, (o'.link j).queue.closed = (o.link j).queue.closed) ∧
      ∀ j, j ≠ k → o'.link j = o.link j := by
  simp only [put] at h
  split at h
  · next queue hq =>
    cases h
    obtain ⟨hc, hp, hc', hqueue, _⟩ := Mpsc.trySend_ok hq
    refine ⟨hp, rfl, ?_, fun j => ?_, fun j hj => setLink_of_ne o hj _⟩
    · simp only [setLink_self, hqueue]
    · by_cases hj : j = k
      · subst hj
        simp only [setLink_self, hc, hc']
      · simp only [setLink_of_ne o hj]
  · cases h

/-- A value that is put in takes a place of the queue. -/
theorem put_permits {o o' : Outbox capacity K R} {k : K} {r : R} (h : o.put k r = .ok o') :
    (o'.link k).queue.permits + 1 = (o.link k).queue.permits := by
  simp only [put] at h
  split at h
  · next queue hq =>
    cases h
    rw [setLink_self]
    exact (Mpsc.trySend_ok hq).2.2.2.2
  · cases h

theorem put_error {o : Outbox capacity K R} {k : K} {r : R} {e : Mpsc.TrySendError} :
    o.put k r = .error e ↔ (o.link k).queue.trySend ⟨o.serials, r⟩ = .error e := by
  simp only [put]
  split
  · next queue hq => simp [hq]
  · next e' hq => simp [hq]

theorem put_full {o : Outbox capacity K R} {k : K} {r : R} :
    o.put k r = .error .full ↔ (o.link k).queue.closed = false ∧ (o.link k).queue.permits = 0 := by
  rw [put_error, Mpsc.trySend_full]

theorem put_closed {o : Outbox capacity K R} {k : K} {r : R} :
    o.put k r = .error .closed ↔ (o.link k).queue.closed = true := by
  rw [put_error, Mpsc.trySend_closed]

theorem put_feed {o o' : Outbox capacity K R} {k : K} {r : R} (h : o.put k r = .ok o') (j : K) :
    (account o j).Feed ((Event.put k r).Gives j) (account o' j) := by
  obtain ⟨hc, _, hself, hother⟩ := put_ok h
  by_cases hj : j = k
  · subst hj
    rw [hself]
    exact .put r ⟨rfl, rfl⟩ hc
  · rw [hother j hj]
    exact .stay _ (Nat.le_succ _)

omit [DecidableEq K] in
theorem mem_of_mem_copies {o : Outbox capacity K R} {r : R} {ks : List K} {k : K} {c : Copy R}
    (h : (k, c) ∈ o.copies r ks) : k ∈ ks := by
  obtain ⟨e, he, heq⟩ := List.mem_map.mp h
  cases heq
  exact List.fst_mem_of_mem_zipIdx he

/-- The copies of one call carry the next serial numbers, in order. -/
theorem copies_numbered (o : Outbox capacity K R) (r : R) (ks : List K) (k : K) :
    (∀ c ∈ on k (o.copies r ks), c.value = r) ∧
      (on k (o.copies r ks)).Pairwise (fun x y => x.serial < y.serial) ∧
      ∀ c ∈ on k (o.copies r ks), o.serials ≤ c.serial ∧ c.serial < o.serials + ks.length := by
  have hserial : ((o.copies r ks).map fun e => e.2.serial) = List.range' o.serials ks.length := by
    simp only [copies, List.map_map]
    exact List.zipIdx_map_snd _ _
  refine ⟨?_, ?_, ?_⟩
  · intro c hc
    obtain ⟨e, _, he⟩ := List.mem_map.mp (mem_on.mp hc)
    cases he
    rfl
  · have hpair : (o.copies r ks).Pairwise fun x y => x.2.serial < y.2.serial := by
      rw [← List.pairwise_map (f := fun e : K × Copy R => e.2.serial), hserial]
      exact List.pairwise_lt_range'
    refine hpair.filterMap _ fun x y hxy b hb b' hb' => ?_
    simp only [Option.ite_none_right_eq_some, Option.some.injEq] at hb hb'
    rw [← hb.2, ← hb'.2]
    exact hxy
  · intro c hc
    have hmem : c.serial ∈ List.range' o.serials ks.length := by
      rw [← hserial]
      exact List.mem_map_of_mem (f := fun e : K × Copy R => e.2.serial) (mem_on.mp hc)
    simpa using List.mem_range'_1.mp hmem

theorem length_on_copies (o : Outbox capacity K R) (r : R) (ks : List K) (k : K) :
    (on k (o.copies r ks)).length = ks.count k := by
  simp only [copies]
  generalize o.serials = n
  induction ks generalizing n with
  | nil => rfl
  | cons j rest ih =>
    rw [List.zipIdx_cons, List.map_cons]
    by_cases hj : j = k
    · subst hj
      rw [on_cons_self, List.length_cons, List.count_cons_self, ih]
    · rw [on_cons_of_ne (Ne.symm hj), List.count_cons_of_ne hj, ih]

theorem defer_account (o : Outbox capacity K R) (future : Bool) (r : R) (ks : List K) (k : K) :
    account (o.defer future r ks) k = { account o k with
      accepted := (account o k).accepted ++ on k (o.copies r ks)
      pending := (account o k).pending ++ on k (o.copies r ks)
      serials := o.serials + ks.length } := by
  simp only [account, defer, pending, List.flatMap_append, List.flatMap_cons, List.flatMap_nil,
    List.append_nil, on_append]

theorem defer_feed (o : Outbox capacity K R) (future : Bool) (r : R) (ks : List K) (k : K) :
    (account o k).Feed ((Event.defer future r ks).Gives k) (account (o.defer future r ks) k) := by
  obtain ⟨hr, hs, hn⟩ := copies_numbered o r ks k
  rw [defer_account]
  refine .defer r _ _ (fun c hc => ⟨hr c hc, ?_, rfl⟩) hs hn (Nat.le_add_right _ _)
  exact mem_of_mem_copies (mem_on.mp hc)

theorem poll_feed {o o' : Outbox capacity K R} {i : Nat} (h : o.poll i = some o') (j : K) :
    (account o j).Feed (fun _ => False) (account o' j) := by
  simp only [poll] at h
  split at h
  · next k c rest future ht =>
    split at h
    · next queue hq =>
      obtain ⟨hqueue, hclosed, hopen⟩ := Mpsc.poll_sent hq
      obtain ⟨⟨pre, post, hp, hp'⟩, hother⟩ := pending_split o' ht (by cases h; rfl)
      by_cases hj : j = k
      · subst hj
        have ha : account o' j = { account o j with
            pending := pre ++ post
            entered := (account o j).entered ++ [c]
            queue := (account o j).queue ++ [c] } := by
          simp only [account, hp', ← hqueue, ← hclosed]
          cases h
          simp only [setLink_self, setLink_serials]
        rw [ha]
        exact .enter pre post c hp hopen
      · have ha : account o' j = account o j := by
          rw [account_of_ne hj (by cases h; rfl) (hother j hj)]
          cases h
          rfl
        rw [ha]
        exact .same _ _
    · next queue hq =>
      obtain ⟨hqueue, hclosed⟩ := Mpsc.poll_pending hq
      by_cases hj : j = k
      · subst hj
        have ha : account o' j = account o j := by
          simp only [account, ← hqueue, ← hclosed]
          cases h
          simp only [setLink_self, pending]
          rfl
        rw [ha]
        exact .same _ _
      · cases h
        have ha : account (o.setLink k { o.link k with queue := queue }) j = account o j :=
          account_of_ne hj rfl rfl
        rw [ha]
        exact .same _ _
    · next queue hq =>
      obtain ⟨hc, rfl⟩ := Mpsc.poll_closed hq
      obtain ⟨⟨pre, post, hp, hp'⟩, hother⟩ := pending_split o' ht (by cases h; rfl)
      by_cases hj : j = k
      · subst hj
        have ha : account o' j = { account o j with
            pending := pre ++ post
            refused := (account o j).refused ++ [c] } := by
          simp only [account, hp']
          cases h
          simp only [setLink_self, setLink_serials]
        rw [ha]
        exact .refuse pre post c hp hc
      · have ha : account o' j = account o j := by
          rw [account_of_ne hj (by cases h; rfl) (hother j hj)]
          cases h
          rfl
        rw [ha]
        exact .same _ _
  · cases h

theorem cancel_feed {o o' : Outbox capacity K R} {i : Nat} (h : o.cancel i = some o') (j : K) :
    (account o j).Feed (fun _ => False) (account o' j) := by
  simp only [cancel] at h
  split at h
  · next k c ht =>
    obtain ⟨⟨pre, post, hp, hp'⟩, hother⟩ := pending_split o' ht (by cases h; rfl)
    by_cases hj : j = k
    · subst hj
      obtain ⟨hqueue, hclosed⟩ := (o.link j).queue.cancel_queue c.serial
      have ha : account o' j = { account o j with
          pending := pre ++ post
          cancelled := (account o j).cancelled ++ [c] } := by
        simp only [account, hp', ← hqueue, ← hclosed]
        cases h
        simp only [setLink_self, setLink_serials]
      rw [ha]
      exact .cancel pre post c hp
    · have ha : account o' j = account o j := by
        rw [account_of_ne hj (by cases h; rfl) (hother j hj)]
        cases h
        rfl
      rw [ha]
      exact .same _ _
  · cases h

theorem take_some {o o' : Outbox capacity K R} {k : K} {c : Copy R} (h : o.take k = some (c, o')) :
    (account o k).queue = c :: (account o' k).queue ∧ o'.tasks = o.tasks ∧
      account o' k = { account o k with
        queue := (account o' k).queue
        taken := (account o k).taken ++ [c] } ∧
      ∀ j, j ≠ k → account o' j = account o j := by
  simp only [take] at h
  split at h
  · next d queue hq =>
    cases h
    obtain ⟨hqueue, hclosed⟩ := Mpsc.recv_some hq
    refine ⟨?_, rfl, ?_, fun j hj => account_of_ne hj rfl rfl⟩
    · simp only [account, setLink_self]
      exact hqueue
    · simp only [account, setLink_self, hclosed, pending]
      rfl
  · cases h

theorem take_move {o o' : Outbox capacity K R} {k : K} {c : Copy R} (h : o.take k = some (c, o'))
    (j : K) : (account o j).Move (fun _ => False) (account o' j) := by
  obtain ⟨hq, _, hself, hother⟩ := take_some h
  by_cases hj : j = k
  · subst hj
    rw [hself]
    exact .take c _ hq
  · rw [hother j hj]
    exact .feed (.same _ _)

@[simp] theorem stop_account (o : Outbox capacity K R) (k : K) :
    account (o.stop k) k = { account o k with queue := [], closed := true } := by
  simp only [account, stop, setLink_self, Mpsc.close, pending]
  rfl

theorem stop_account_of_ne (o : Outbox capacity K R) {k j : K} (hj : j ≠ k) :
    account (o.stop k) j = account o j := account_of_ne hj rfl rfl

theorem stop_move (o : Outbox capacity K R) (k j : K) :
    (account o j).Move (fun _ => False) (account (o.stop k) j) := by
  by_cases hj : j = k
  · subst hj
    rw [stop_account]
    exact .stop
  · rw [stop_account_of_ne o hj]
    exact .feed (.same _ _)

/-- The steps that feed the channels. -/
def Event.Feeds : Event K R → Prop
  | .take _ => False
  | .stop _ => False
  | _ => True

theorem step_feed {e : Event K R} {o o' : Outbox capacity K R} (hf : e.Feeds)
    (h : step e o = some o') (k : K) : (account o k).Feed (e.Gives k) (account o' k) := by
  cases e with
  | put j r =>
    simp only [step] at h
    cases hp : o.put j r with
    | error e =>
      rw [hp] at h
      cases h
    | ok o'' =>
      rw [hp] at h
      cases h
      exact put_feed hp k
  | defer future r ks =>
    cases h
    exact defer_feed o future r ks k
  | poll i => exact poll_feed h k
  | cancel i => exact cancel_feed h k
  | take j => exact hf.elim
  | stop j => exact hf.elim

/-- A step is one move for every channel. -/
theorem step_move {e : Event K R} {o o' : Outbox capacity K R} (h : step e o = some o') (k : K) :
    (account o k).Move (e.Gives k) (account o' k) := by
  cases e with
  | take j =>
    obtain ⟨⟨c, o''⟩, ht, rfl⟩ := Option.map_eq_some_iff.mp h
    exact take_move ht k
  | stop j =>
    cases h
    exact stop_move o j k
  | _ =>
    refine .feed (step_feed ?_ h k)
    trivial

/-! ### What can be cancelled -/

/-- Only values of `fut` are with a future, or were. -/
structure Cancellable (fut : R → Prop) (o : Outbox capacity K R) : Prop where
  tasks : ∀ task ∈ o.tasks, task.future = true → ∀ e ∈ task.sends, fut e.2.value
  cancelled : ∀ k, ∀ c ∈ (account o k).cancelled, fut c.value

/-- Only values of `fut` are handed to a future. -/
def Event.Cancellable (fut : R → Prop) : Event K R → Prop
  | .defer future r _ => future = true → fut r
  | _ => True

theorem cancellable_new (fut : R → Prop) : Cancellable fut (new : Outbox capacity K R) :=
  ⟨fun _ h => (nomatch h), fun _ _ h => nomatch h⟩

/-- A send that is done leaves its task with some of the sends it had. -/
theorem Cancellable.set {fut : R → Prop} {o : Outbox capacity K R} (ho : Cancellable fut o) {i : Nat}
    {send : K × Copy R} {rest : List (K × Copy R)} {future : Bool}
    (ht : o.tasks[i]? = some ⟨send :: rest, future⟩) :
    ∀ task ∈ o.tasks.set i ⟨rest, future⟩, task.future = true → ∀ e ∈ task.sends, fut e.2.value := by
  intro task hm hf e he
  rcases List.mem_or_eq_of_mem_set hm with hm | rfl
  · exact ho.tasks task hm hf e he
  · exact ho.tasks _ (List.mem_of_getElem? ht) hf e (List.mem_cons_of_mem _ he)

theorem setLink_cancelled {fut : R → Prop} {o : Outbox capacity K R} {k : K} {l : Link capacity R}
    (ho : ∀ j, ∀ c ∈ (o.link j).cancelled, fut c.value) (hl : ∀ c ∈ l.cancelled, fut c.value) :
    ∀ j, ∀ c ∈ ((o.setLink k l).link j).cancelled, fut c.value := by
  intro j c hc
  by_cases hj : j = k
  · subst hj
    rw [setLink_self] at hc
    exact hl c hc
  · rw [setLink_of_ne o hj] at hc
    exact ho j c hc

theorem step_cancellable {fut : R → Prop} {e : Event K R} {o o' : Outbox capacity K R}
    (ho : Cancellable fut o) (he : e.Cancellable fut) (h : step e o = some o') : Cancellable fut o' := by
  have hsame : ∀ {k : K} {l : Link capacity R}, l.cancelled = (o.link k).cancelled →
      ∀ j, ∀ c ∈ ((o.setLink k l).link j).cancelled, fut c.value := fun hl =>
    setLink_cancelled ho.cancelled (by rw [hl]; exact ho.cancelled _)
  cases e with
  | put k r =>
    simp only [step, put] at h
    split at h
    · cases h
      exact ⟨ho.tasks, hsame rfl⟩
    · cases h
  | defer future r ks =>
    cases h
    refine ⟨fun task hm hf e hs => ?_, ho.cancelled⟩
    rcases List.mem_append.mp hm with hm | hm
    · exact ho.tasks task hm hf e hs
    · rw [List.mem_singleton.mp hm] at hf hs
      obtain ⟨_, _, rfl⟩ := List.mem_map.mp hs
      exact he hf
  | poll i =>
    simp only [step, poll] at h
    split at h
    · next ht =>
      split at h <;> cases h
      · exact ⟨ho.set ht, hsame rfl⟩
      · exact ⟨ho.tasks, hsame rfl⟩
      · exact ⟨ho.set ht, hsame rfl⟩
    · cases h
  | cancel i =>
    simp only [step, cancel] at h
    split at h
    · next k c ht =>
      cases h
      refine ⟨ho.set ht, setLink_cancelled ho.cancelled fun d hd => ?_⟩
      rcases List.mem_append.mp hd with hd | hd
      · exact ho.cancelled k d hd
      · rw [List.mem_singleton.mp hd]
        exact ho.tasks _ (List.mem_of_getElem? ht) rfl (k, c) List.mem_cons_self
    · cases h
  | take k =>
    simp only [step, take] at h
    split at h
    · cases h
      exact ⟨ho.tasks, hsame rfl⟩
    · cases h
  | stop k =>
    cases h
    exact ⟨ho.tasks, hsame rfl⟩

/-! ### When a copy enters -/

/-- The copy is the next one that its task has to send. -/
def AtHead (o : Outbox capacity K R) (k : K) (c : Copy R) : Prop :=
  ∃ task ∈ o.tasks, ∃ rest, task.sends = (k, c) :: rest

/-- A place in the queue is set aside for the copy, or free. -/
def Placed (o : Outbox capacity K R) (k : K) (c : Copy R) : Prop :=
  c.serial ∈ (o.link k).queue.granted ∨ 0 < (o.link k).queue.permits

theorem poll_enters {o : Outbox capacity K R} {k : K} {c : Copy R}
    (hopen : (o.link k).queue.closed = false) (hhead : AtHead o k c) (hplaced : Placed o k c) :
    ∃ i o', o.poll i = some o' ∧ (o'.link k).queue.queue = (o.link k).queue.queue ++ [c] := by
  obtain ⟨⟨sends, future⟩, htask, rest, rfl⟩ := hhead
  obtain ⟨i, hi, htask⟩ := List.getElem_of_mem htask
  have hsome : o.tasks[i]? = some ⟨(k, c) :: rest, future⟩ := List.getElem?_eq_some_iff.mpr ⟨hi, htask⟩
  have hsent : ((o.link k).queue.poll c.serial c).1 = .sent := Mpsc.poll_sent_iff.mpr ⟨hopen, hplaced⟩
  cases hq : (o.link k).queue.poll c.serial c with
  | mk outcome queue =>
    rw [hq] at hsent
    obtain rfl : outcome = .sent := hsent
    have hpoll : o.poll i = some { o.setLink k { o.link k with
        queue := queue, entered := (o.link k).entered ++ [c] } with
        tasks := o.tasks.set i ⟨rest, future⟩ } := by simp only [poll, hsome, hq]
    refine ⟨i, _, hpoll, ?_⟩
    simp only [setLink_self]
    exact (Mpsc.poll_sent hq).1

/-- A link whose queue has nothing new. -/
theorem not_mem_setLink {o : Outbox capacity K R} {j k : K} {l : Link capacity R} {c : Copy R}
    (hl : l.queue.queue ⊆ (o.link j).queue.queue) (hnot : c ∉ (o.link k).queue.queue) :
    c ∉ ((o.setLink j l).link k).queue.queue := by
  by_cases hj : k = j
  · subst hj
    rw [setLink_self]
    exact fun hc => hnot (hl hc)
  · rw [setLink_of_ne o hj]
    exact hnot

/-- What a poll puts in a queue is the first copy of its task, on a permit. -/
theorem poll_entered {o o' : Outbox capacity K R} {i : Nat} {k : K} {c : Copy R}
    (h : o.poll i = some o') (hnot : c ∉ (o.link k).queue.queue)
    (hmem : c ∈ (o'.link k).queue.queue) : AtHead o k c ∧ Placed o k c := by
  simp only [poll] at h
  split at h
  · next j d rest future ht =>
    split at h
    · next queue hq =>
      cases h
      by_cases hj : k = j
      · subst hj
        simp only [setLink_self, (Mpsc.poll_sent hq).1] at hmem
        obtain rfl : c = d := List.mem_singleton.mp ((List.mem_append.mp hmem).resolve_left hnot)
        exact ⟨⟨_, List.mem_of_getElem? ht, rest, rfl⟩,
          (Mpsc.poll_sent_iff.mp (congrArg Prod.fst hq)).2⟩
      · rw [setLink_of_ne o hj] at hmem
        exact absurd hmem hnot
    · next queue hq =>
      cases h
      refine absurd hmem (not_mem_setLink ?_ hnot)
      exact (Mpsc.poll_pending hq).1 ▸ List.Subset.refl _
    · next queue hq =>
      cases h
      refine absurd hmem (not_mem_setLink ?_ hnot)
      exact (Mpsc.poll_closed hq).2 ▸ List.Subset.refl _
  · cases h

/-- Of all steps only a poll can put an old copy in a queue. -/
theorem step_entered {e : Event K R} {o o' : Outbox capacity K R} {k : K} {c : Copy R}
    (h : step e o = some o') (hold : c.serial < o.serials) (hnot : c ∉ (o.link k).queue.queue)
    (hmem : c ∈ (o'.link k).queue.queue) : AtHead o k c ∧ Placed o k c := by
  cases e with
  | put j r =>
    simp only [step] at h
    cases hput : o.put j r with
    | error e => simp only [hput, Except.toOption, reduceCtorEq] at h
    | ok o'' =>
      simp only [hput, Except.toOption, Option.some.injEq] at h
      subst h
      obtain ⟨_, _, hqueue, _, hother⟩ := put_queue hput
      by_cases hj : k = j
      · subst hj
        rw [hqueue] at hmem
        obtain rfl := List.mem_singleton.mp ((List.mem_append.mp hmem).resolve_left hnot)
        exact absurd hold (Nat.lt_irrefl _)
      · rw [hother k hj] at hmem
        exact absurd hmem hnot
  | defer future r ks =>
    cases h
    exact absurd hmem hnot
  | poll i => exact poll_entered h hnot hmem
  | cancel i =>
    simp only [step, cancel] at h
    split at h
    · next j d ht =>
      cases h
      refine absurd hmem (not_mem_setLink ?_ hnot)
      exact ((o.link j).queue.cancel_queue d.serial).1 ▸ List.Subset.refl _
    · cases h
  | take j =>
    obtain ⟨⟨d, o''⟩, htake, rfl⟩ := Option.map_eq_some_iff.mp h
    simp only [take] at htake
    split at htake
    · next queue hrecv =>
      cases htake
      refine absurd hmem (not_mem_setLink ?_ hnot)
      rw [(Mpsc.recv_some hrecv).1]
      exact List.subset_cons_self _ _
    · cases htake
  | stop j =>
    cases h
    exact absurd hmem (not_mem_setLink (List.nil_subset _) hnot)

end Outbox

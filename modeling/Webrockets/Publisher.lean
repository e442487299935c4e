import Mathlib.Logic.Function.Basic
import Webrockets.Library.Transition

/-! Publishers and the connection they keep (`send` of `broker/redis.rs` and `broker/amqp.rs`).

A publisher keeps one connection behind a lock. A `send` takes the lock, finds the connection
there or opens one, lets the lock go and publishes on its own handle, so that sends overlap.
Connections get lost and brokers go away at any time.

`Amqp::send` asks its channel whether it is still connected and opens another one if not.
`Redis::send` takes what is there. Once the connection that it keeps is lost, nothing
replaces it: `redis_stale_forever`. -/
namespace Webrockets
open Transition

inductive Backend where
  | redis
  | amqp
  deriving DecidableEq, Repr

/-- How the broker, or the network, answers a message that is published. -/
inductive PublishReply where
  | confirmed
  | refused (error : String)
  /-- The message was sent, but its confirmation did not come. -/
  | unconfirmed (error : String)

/-- Connections are numbered in the order in which they are opened. What is raised is the text
alone; the connection it came from is kept for the sake of the proofs. -/
inductive Answer where
  | sent (conn : Nat)
  | connectFailed (text : String)
  | publishFailed (conn : Nat) (text : String)

inductive SendStage where
  | idle
  /-- It waits for a new connection and holds the lock. -/
  | connecting
  | publishing (conn : Nat)
  | answered (answer : Answer)
  /-- Its future was dropped before it had a connection. -/
  | cancelled

/-- The connection that a send has used. -/
def SendStage.conn : SendStage → Option Nat
  | .publishing c | .answered (.sent c) | .answered (.publishFailed c _) => some c
  | _ => none

/-! ### The two backends -/

/-- Up to where it waits: it has a connection, or it has to open one. `alive` is not asked. -/
def Redis.take (guard : Option Nat) : SendStage :=
  match guard with
  | some conn => .publishing conn
  | none => .connecting

def Amqp.needsNew (alive : Nat → Bool) (guard : Option Nat) : Bool :=
  match guard with
  | some ch => !alive ch
  | none => true

def Amqp.take (alive : Nat → Bool) (guard : Option Nat) : SendStage :=
  match Amqp.needsNew alive guard, guard with
  | false, some ch => .publishing ch
  | _, _ => .connecting

def Redis.connectError (e : String) : String := "Redis error: " ++ e

/-- For the connection, the channel and the exchange. -/
def Amqp.connectError (e : String) : String := "AMQP error: " ++ e

/-- Nothing is confirmed over a connection that is lost. -/
def Redis.published (conn : Nat) (alive : Bool) : PublishReply → Option Answer
  | .confirmed => if alive then some (.sent conn) else none
  | .refused e => some (.publishFailed conn ("Redis publish error: " ++ e))
  | .unconfirmed _ => none

def Amqp.published (conn : Nat) (alive : Bool) : PublishReply → Option Answer
  | .confirmed => if alive then some (.sent conn) else none
  | .refused e => some (.publishFailed conn ("AMQP publish error: " ++ e))
  | .unconfirmed e => some (.publishFailed conn ("AMQP confirm error: " ++ e))

namespace Backend

def take (b : Backend) (alive : Nat → Bool) (guard : Option Nat) : SendStage :=
  match b with
  | .redis => Redis.take guard
  | .amqp => Amqp.take alive guard

def connectError : Backend → String → String
  | .redis => Redis.connectError
  | .amqp => Amqp.connectError

def published : Backend → Nat → Bool → PublishReply → Option Answer
  | .redis => Redis.published
  | .amqp => Amqp.published

end Backend

/-! ### The machine -/

structure Publisher where
  /-- What is behind the lock. -/
  guard : Option Nat
  /-- The send that holds the lock while it waits. -/
  holder : Option Nat
  stage : Nat → SendStage
  alive : Nat → Bool
  opened : Nat
  reachable : Bool

namespace Publisher

def init : Publisher where
  guard := none
  holder := none
  stage := fun _ => .idle
  alive := fun _ => false
  opened := 0
  reachable := true

inductive Action where
  /-- It gets the lock. -/
  | send (k : Nat)
  | connect (k : Nat) (reply : Except String Unit)
  | publish (k : Nat) (reply : PublishReply)
  /-- The future of a send is dropped. What was sent is on its way all the same. -/
  | cancel (k : Nat)
  /-- A connection ends, for whatever reason. -/
  | lose (conn : Nat)
  | outage
  | restore

def setStage (s : Publisher) (k : Nat) (stage : SendStage) : Publisher :=
  { s with stage := Function.update s.stage k stage }

/-- The connection that `k` has been waiting for. -/
def connected (s : Publisher) (k : Nat) : Publisher :=
  { s.setStage k (.publishing s.opened) with
    guard := some s.opened
    holder := none
    alive := Function.update s.alive s.opened true
    opened := s.opened + 1 }

def step (b : Backend) : Action → Publisher → Option Publisher
  | .send k, s =>
    match s.holder, s.stage k, b.take s.alive s.guard with
    | none, .idle, .connecting => some { s.setStage k .connecting with holder := some k }
    | none, .idle, stage => some (s.setStage k stage)
    | _, _, _ => none
  | .connect k reply, s =>
    match s.stage k, reply with
    | .connecting, .ok () => if s.reachable then some (s.connected k) else none
    | .connecting, .error e =>
      some { s.setStage k (.answered (.connectFailed (b.connectError e))) with holder := none }
    | _, _ => none
  | .publish k reply, s =>
    match s.stage k with
    | .publishing conn =>
      (b.published conn (s.alive conn) reply).map fun answer => s.setStage k (.answered answer)
    | _ => none
  | .cancel k, s =>
    match s.stage k with
    | .idle => some (s.setStage k .cancelled)
    | .connecting => some { s.setStage k .cancelled with holder := none }
    | _ => some s
  | .lose conn, s =>
    if s.alive conn then some { s with alive := Function.update s.alive conn false } else none
  | .outage, s => some { s with reachable := false }
  | .restore, s => some { s with reachable := true }

/-- What is owed where the connection behind the lock is lost. The send that gets the lock next
opens another one; where the broker can be reached, this one is replaced; and whatever happens
then, it has no part in the answer. -/
structure Replaces (b : Backend) (s : Publisher) (conn k : Nat) (t : Publisher) : Prop where
  connects : t.stage k = .connecting
  discards : s.reachable = true → ∃ u fresh, step b (.connect k (.ok ())) t = some u ∧
    u.guard = some fresh ∧ fresh ≠ conn ∧ u.alive fresh = true
  unused : ∀ after u, run (step b) t after = some u → (u.stage k).conn ≠ some conn

def Recovers (b : Backend) (s : Publisher) : Prop :=
  ∀ conn, s.guard = some conn → s.alive conn = false →
    ∀ k t, step b (.send k) s = some t → Replaces b s conn k t

/-! ### What a step does -/

variable {b : Backend} {s t : Publisher} {k : Nat}

theorem stage_setStage (s : Publisher) (k : Nat) (stage : SendStage) :
    (s.setStage k stage).stage k = stage := by
  simp only [setStage, Function.update_self]

theorem stage_setStage_of_ne {j : Nat} (h : j ≠ k) (s : Publisher) (stage : SendStage) :
    (s.setStage k stage).stage j = s.stage j := by
  simp only [setStage, Function.update_of_ne h]

/-- What an action makes of a state. -/
inductive Effect (b : Backend) (s : Publisher) : Action → Publisher → Prop where
  | connecting {k : Nat} (idle : s.stage k = .idle) (free : s.holder = none)
      (take : b.take s.alive s.guard = .connecting) :
      Effect b s (.send k) { s.setStage k .connecting with holder := some k }
  | publishing {k conn : Nat} (idle : s.stage k = .idle) (free : s.holder = none)
      (take : b.take s.alive s.guard = .publishing conn) :
      Effect b s (.send k) (s.setStage k (.publishing conn))
  | connected {k : Nat} (stage : s.stage k = .connecting) (reachable : s.reachable = true) :
      Effect b s (.connect k (.ok ())) (s.connected k)
  | connectFailed {k : Nat} {e : String} (stage : s.stage k = .connecting) :
      Effect b s (.connect k (.error e))
        { s.setStage k (.answered (.connectFailed (b.connectError e))) with holder := none }
  | published {k conn : Nat} {reply : PublishReply} {answer : Answer}
      (stage : s.stage k = .publishing conn)
      (answers : b.published conn (s.alive conn) reply = some answer) :
      Effect b s (.publish k reply) (s.setStage k (.answered answer))
  | withdrawn {k : Nat} (idle : s.stage k = .idle) :
      Effect b s (.cancel k) (s.setStage k .cancelled)
  | interrupted {k : Nat} (stage : s.stage k = .connecting) :
      Effect b s (.cancel k) { s.setStage k .cancelled with holder := none }
  | abandoned (k : Nat) : Effect b s (.cancel k) s
  | lost {conn : Nat} (alive : s.alive conn = true) :
      Effect b s (.lose conn) { s with alive := Function.update s.alive conn false }
  | outage : Effect b s .outage { s with reachable := false }
  | restore : Effect b s .restore { s with reachable := true }

/-- A send that gets the lock publishes or connects. -/
theorem take_cases (b : Backend) (alive : Nat → Bool) (guard : Option Nat) :
    b.take alive guard = .connecting ∨
      ∃ conn, guard = some conn ∧ b.take alive guard = .publishing conn := by
  cases guard with
  | none => cases b <;> exact .inl rfl
  | some conn =>
    cases b with
    | redis => exact .inr ⟨conn, rfl, rfl⟩
    | amqp =>
      cases h : alive conn with
      | false => exact .inl (by simp [Backend.take, Amqp.take, Amqp.needsNew, h])
      | true => exact .inr ⟨conn, rfl, by simp [Backend.take, Amqp.take, Amqp.needsNew, h]⟩

theorem step_send (hfree : s.holder = none) (hidle : s.stage k = .idle) :
    step b (.send k) s = some (match b.take s.alive s.guard with
      | .connecting => { s.setStage k .connecting with holder := some k }
      | stage => s.setStage k stage) := by
  simp only [step, hfree, hidle]
  rcases take_cases b s.alive s.guard with h | ⟨conn, _, h⟩ <;> rw [h]

theorem step_effect {a : Action} (h : step b a s = some t) : Effect b s a t := by
  cases a with
  | send k =>
    cases hfree : s.holder with
    | some j => simp [step, hfree] at h
    | none =>
      cases hidle : s.stage k with
      | idle =>
        rw [step_send hfree hidle] at h
        rcases take_cases b s.alive s.guard with htake | ⟨conn, _, htake⟩ <;> rw [htake] at h
        · obtain rfl := Option.some.inj h
          exact .connecting hidle hfree htake
        · obtain rfl := Option.some.inj h
          exact .publishing hidle hfree htake
      | connecting | publishing conn | answered answer | cancelled => simp [step, hfree, hidle] at h
  | connect k reply =>
    cases hstage : s.stage k with
    | connecting =>
      cases reply with
      | ok u =>
        by_cases hreach : s.reachable = true
        · simp only [step, hstage, hreach, if_true, Option.some.injEq] at h
          obtain rfl := h
          exact .connected hstage hreach
        · simp [step, hstage, hreach] at h
      | error e =>
        simp only [step, hstage, Option.some.injEq] at h
        obtain rfl := h
        exact .connectFailed hstage
    | idle | publishing conn | answered answer | cancelled => simp [step, hstage] at h
  | publish k reply =>
    cases hstage : s.stage k with
    | publishing conn =>
      simp only [step, hstage, Option.map_eq_some_iff] at h
      obtain ⟨answer, hanswer, rfl⟩ := h
      exact .published hstage hanswer
    | idle | connecting | answered answer | cancelled => simp [step, hstage] at h
  | cancel k =>
    cases hstage : s.stage k with
    | idle =>
      simp only [step, hstage, Option.some.injEq] at h
      obtain rfl := h
      exact .withdrawn hstage
    | connecting =>
      simp only [step, hstage, Option.some.injEq] at h
      obtain rfl := h
      exact .interrupted hstage
    | publishing conn | answered answer | cancelled =>
      simp only [step, hstage, Option.some.injEq] at h
      obtain rfl := h
      exact .abandoned k
  | lose conn =>
    by_cases halive : s.alive conn = true
    · simp only [step, halive, if_true, Option.some.injEq] at h
      obtain rfl := h
      exact .lost halive
    · simp [step, halive] at h
  | outage =>
    obtain rfl := Option.some.inj h
    exact .outage
  | restore =>
    obtain rfl := Option.some.inj h
    exact .restore

theorem conn_published {alive : Bool} {conn : Nat} {reply : PublishReply} {answer : Answer}
    (h : b.published conn alive reply = some answer) :
    (SendStage.answered answer).conn = some conn := by
  cases b <;> cases reply <;> cases alive <;>
    simp [Backend.published, Redis.published, Amqp.published] at h <;> subst h <;> rfl

/-- A step without a publication brings a send nearer to it, or ends it before. -/
theorem stage_of_step {a : Action} (h : step b a s = some t) (hquiet : ∀ k reply, a ≠ .publish k reply)
    (j : Nat) : t.stage j = s.stage j ∨ (a = .send j ∨ (∃ reply, a = .connect j reply) ∨ a = .cancel j) ∧
      (∀ answer, s.stage j ≠ .answered answer) ∧ ∀ conn, t.stage j ≠ .answered (.sent conn) := by
  have hother {k : Nat} (hk : j ≠ k) (stage : SendStage) :
      (s.setStage k stage).stage j = s.stage j := stage_setStage_of_ne hk s stage
  cases step_effect h with
  | @connecting k idle free take =>
    by_cases hk : j = k
    · subst hk
      refine .inr ⟨.inl rfl, fun answer => by simp [idle], fun conn => ?_⟩
      show (s.setStage j .connecting).stage j ≠ _
      simp [stage_setStage]
    · exact .inl (hother hk _)
  | @publishing k conn idle free take =>
    by_cases hk : j = k
    · subst hk
      exact .inr ⟨.inl rfl, fun answer => by simp [idle], fun conn => by simp [stage_setStage]⟩
    · exact .inl (hother hk _)
  | @connected k stage reachable =>
    by_cases hk : j = k
    · subst hk
      refine .inr ⟨.inr (.inl ⟨_, rfl⟩), fun answer => by simp [stage], fun conn => ?_⟩
      show (s.setStage j _).stage j ≠ _
      simp [stage_setStage]
    · exact .inl (hother hk _)
  | @connectFailed k e stage =>
    by_cases hk : j = k
    · subst hk
      refine .inr ⟨.inr (.inl ⟨_, rfl⟩), fun answer => by simp [stage], fun conn => ?_⟩
      show (s.setStage j _).stage j ≠ _
      simp [stage_setStage]
    · exact .inl (hother hk _)
  | @published k conn reply answer stage answers => exact absurd rfl (hquiet k reply)
  | @withdrawn k idle =>
    by_cases hk : j = k
    · subst hk
      exact .inr ⟨.inr (.inr rfl), fun answer => by simp [idle], fun conn => by simp [stage_setStage]⟩
    · exact .inl (hother hk _)
  | @interrupted k stage =>
    by_cases hk : j = k
    · subst hk
      refine .inr ⟨.inr (.inr rfl), fun answer => by simp [stage], fun conn => ?_⟩
      show (s.setStage j _).stage j ≠ _
      simp [stage_setStage]
    · exact .inl (hother hk _)
  | abandoned k => exact .inl rfl
  | lost alive => exact .inl rfl
  | outage => exact .inl rfl
  | restore => exact .inl rfl

/-- A publication is answered, and nothing else happens. -/
theorem stage_of_publish {reply : PublishReply} (h : step b (.publish k reply) s = some t) :
    ∃ conn answer, s.stage k = .publishing conn ∧
      b.published conn (s.alive conn) reply = some answer ∧
      t.stage k = .answered answer ∧ ∀ j, j ≠ k → t.stage j = s.stage j := by
  cases step_effect h with
  | published stage answers =>
    exact ⟨_, _, stage, answers, stage_setStage _ _ _, fun j hj => stage_setStage_of_ne hj _ _⟩

/-! ### The invariant -/

structure Sound (b : Backend) (s : Publisher) : Prop where
  known : ∀ conn, s.guard = some conn → conn < s.opened
  /-- There are sends to come. -/
  fresh : ∃ n, ∀ k, n ≤ k → s.stage k = .idle
  held : ∀ k, s.stage k = .connecting → s.holder = some k
  /-- A publisher that has a connection does not wait for one. -/
  free : b = .redis → ∀ conn, s.guard = some conn → s.holder = none

theorem init_sound (b : Backend) : Sound b init where
  known := fun _ h => nomatch h
  fresh := ⟨0, fun _ _ => rfl⟩
  held := fun _ h => nomatch h
  free := fun _ _ h => nomatch h

theorem fresh_setStage (h : ∃ n, ∀ k, n ≤ k → s.stage k = .idle) (k : Nat) (stage : SendStage) :
    ∃ n, ∀ j, n ≤ j → (s.setStage k stage).stage j = .idle := by
  obtain ⟨n, hn⟩ := h
  refine ⟨max n (k + 1), fun j hj => ?_⟩
  rw [stage_setStage_of_ne (by omega), hn j (by omega)]

/-- Who waits after `k` has gone on is somebody else, and waited before. -/
theorem connecting_update {f : Nat → SendStage} {stage : SendStage} {j : Nat}
    (h : Function.update f k stage j = .connecting) (hstage : stage ≠ .connecting) :
    j ≠ k ∧ f j = .connecting := by
  by_cases hj : j = k
  · subst hj
    rw [Function.update_self] at h
    exact absurd h hstage
  · rw [Function.update_of_ne hj] at h
    exact ⟨hj, h⟩

theorem step_sound (a : Action) (s t : Publisher) (hs : Sound b s) (h : step b a s = some t) :
    Sound b t := by
  cases step_effect h with
  | @connecting k idle free take =>
    refine ⟨hs.known, fresh_setStage hs.fresh _ _, fun j hj => ?_, fun hb conn hconn => ?_⟩
    · by_cases hk : j = k
      · exact congrArg some hk.symm
      · have hwaits : s.stage j = .connecting := (stage_setStage_of_ne hk s _).symm.trans hj
        rw [hs.held j hwaits] at free
        cases free
    · -- `Redis::send` waits only where there is none
      subst hb
      have hguard : s.guard = some conn := hconn
      rw [hguard] at take
      cases take
  | publishing idle free take =>
    exact ⟨hs.known, fresh_setStage hs.fresh _ _,
      fun j hj => hs.held j (connecting_update hj (by simp)).2, hs.free⟩
  | connected stage reachable =>
    refine ⟨fun conn hconn => ?_, fresh_setStage hs.fresh _ _, fun j hj => ?_, fun _ _ _ => rfl⟩
    · have hlast : s.opened = conn := Option.some.inj hconn
      show conn < s.opened + 1
      omega
    · obtain ⟨hne, hwaits⟩ := connecting_update hj (by simp)
      exact absurd (Option.some.inj ((hs.held j hwaits).symm.trans (hs.held _ stage))) hne
  | connectFailed stage =>
    refine ⟨hs.known, fresh_setStage hs.fresh _ _, fun j hj => ?_, fun _ _ _ => rfl⟩
    obtain ⟨hne, hwaits⟩ := connecting_update hj (by simp)
    exact absurd (Option.some.inj ((hs.held j hwaits).symm.trans (hs.held _ stage))) hne
  | published stage answers =>
    exact ⟨hs.known, fresh_setStage hs.fresh _ _,
      fun j hj => hs.held j (connecting_update hj (by simp)).2, hs.free⟩
  | withdrawn idle =>
    exact ⟨hs.known, fresh_setStage hs.fresh _ _,
      fun j hj => hs.held j (connecting_update hj (by simp)).2, hs.free⟩
  | interrupted stage =>
    refine ⟨hs.known, fresh_setStage hs.fresh _ _, fun j hj => ?_, fun _ _ _ => rfl⟩
    obtain ⟨hne, hwaits⟩ := connecting_update hj (by simp)
    exact absurd (Option.some.inj ((hs.held j hwaits).symm.trans (hs.held _ stage))) hne
  | abandoned k => exact hs
  | lost alive => exact ⟨hs.known, hs.fresh, hs.held, hs.free⟩
  | outage => exact ⟨hs.known, hs.fresh, hs.held, hs.free⟩
  | restore => exact ⟨hs.known, hs.fresh, hs.held, hs.free⟩

/-! ### A send that opens a connection -/

/-- It has nothing to do with `conn`, which is an earlier one. -/
structure Apart (conn k : Nat) (s : Publisher) : Prop where
  earlier : conn < s.opened
  begun : s.stage k ≠ .idle
  unused : (s.stage k).conn ≠ some conn

theorem Apart.of_stage {conn : Nat} (hs : Apart conn k s) (hopened : s.opened ≤ t.opened)
    (hstage : t.stage k = s.stage k) : Apart conn k t :=
  ⟨Nat.lt_of_lt_of_le hs.earlier hopened, hstage ▸ hs.begun, hstage ▸ hs.unused⟩

theorem step_apart {conn : Nat} (a : Action) (s t : Publisher) (hs : Apart conn k s)
    (h : step b a s = some t) : Apart conn k t := by
  have hbegins {j : Nat} (idle : s.stage j = .idle) : k ≠ j := by
    rintro rfl
    exact hs.begun idle
  cases step_effect h with
  | connecting idle free take => exact hs.of_stage (Nat.le_refl _) (stage_setStage_of_ne (hbegins idle) _ _)
  | publishing idle free take => exact hs.of_stage (Nat.le_refl _) (stage_setStage_of_ne (hbegins idle) _ _)
  | @connected j stage reachable =>
    by_cases hj : k = j
    · subst hj
      have hk : (s.connected k).stage k = .publishing s.opened := stage_setStage _ _ _
      have hearlier := hs.earlier
      refine ⟨Nat.lt_succ_of_lt hs.earlier, by simp [hk], ?_⟩
      rw [hk]
      simp only [SendStage.conn, ne_eq, Option.some.injEq]
      omega
    · exact hs.of_stage (Nat.le_succ _) (stage_setStage_of_ne hj _ _)
  | @connectFailed j e stage =>
    by_cases hj : k = j
    · subst hj
      exact ⟨hs.earlier, by simp [stage_setStage], by simp [stage_setStage, SendStage.conn]⟩
    · exact hs.of_stage (Nat.le_refl _) (stage_setStage_of_ne hj _ _)
  | @published j other reply answer stage answers =>
    by_cases hj : k = j
    · subst hj
      refine ⟨hs.earlier, by simp [stage_setStage], ?_⟩
      have hunused := hs.unused
      rw [stage] at hunused
      rw [stage_setStage, conn_published answers]
      exact hunused
    · exact hs.of_stage (Nat.le_refl _) (stage_setStage_of_ne hj _ _)
  | withdrawn idle => exact hs.of_stage (Nat.le_refl _) (stage_setStage_of_ne (hbegins idle) _ _)
  | @interrupted j stage =>
    by_cases hj : k = j
    · subst hj
      exact ⟨hs.earlier, by simp [stage_setStage], by simp [stage_setStage, SendStage.conn]⟩
    · exact hs.of_stage (Nat.le_refl _) (stage_setStage_of_ne hj _ _)
  | abandoned j => exact hs
  | lost alive => exact hs.of_stage (Nat.le_refl _) rfl
  | outage => exact hs.of_stage (Nat.le_refl _) rfl
  | restore => exact hs.of_stage (Nat.le_refl _) rfl

/-- A send that waits for a connection does all that is owed. -/
theorem replaces_of_connecting {conn : Nat} (hs : Sound b s) (hguard : s.guard = some conn)
    (h : step b (.send k) s = some t) (hstage : t.stage k = .connecting) :
    Replaces b s conn k t := by
  have hkept : t.reachable = s.reachable ∧ t.opened = s.opened := by
    cases step_effect h with
    | connecting idle free take => exact ⟨rfl, rfl⟩
    | publishing idle free take => exact ⟨rfl, rfl⟩
  have hearlier : conn < t.opened := hkept.2 ▸ hs.known conn hguard
  refine ⟨hstage, fun hreach => ⟨t.connected k, t.opened, ?_, rfl, by omega, ?_⟩, ?_⟩
  · simp only [step, hstage, hkept.1, hreach, if_true]
  · simp only [connected, Function.update_self]
  · intro after u hrun
    have hapart : Apart conn k t := ⟨hearlier, by simp [hstage], by simp [hstage, SendStage.conn]⟩
    exact (run_invariant step_apart after hrun hapart).unused

/-! ### Which publishers recover -/

/-- A publisher recovers where it asks, or has nothing to ask for. -/
theorem recovers_iff_state (hs : Sound b s) :
    Recovers b s ↔ b = .amqp ∨ ∀ conn, s.guard = some conn → s.alive conn = true := by
  constructor
  · intro hrec
    by_contra hbroken
    push Not at hbroken
    obtain ⟨hb, conn, hguard, hlost⟩ := hbroken
    obtain rfl : b = .redis := by
      cases b with
      | redis => rfl
      | amqp => exact absurd rfl hb
    obtain ⟨k, hk⟩ := hs.fresh
    have hsend := step_send (b := .redis) (hs.free rfl conn hguard) (hk k (Nat.le_refl k))
    simp only [hguard, Backend.take, Redis.take] at hsend
    have hconnects := (hrec conn hguard (Bool.eq_false_iff.mpr hlost) k _ hsend).connects
    rw [stage_setStage] at hconnects
    cases hconnects
  · rintro hgood conn hguard hlost k t h
    refine replaces_of_connecting hs hguard h ?_
    cases step_effect h with
    | connecting idle free take => exact stage_setStage _ _ _
    | publishing idle free take =>
      rcases hgood with rfl | hgood
      · simp [hguard, hlost, Backend.take, Amqp.take, Amqp.needsNew] at take
      · rw [hgood conn hguard] at hlost
        cases hlost

/-- No connection is lost while it is the one that a `Redis` keeps. -/
def Spares (b : Backend) : Action → Publisher → Prop
  | .lose conn, s => b = .amqp ∨ s.guard ≠ some conn
  | _, _ => True

/-- A state that recovers and the next one that does: nothing was lost that matters. -/
theorem spares_of_recovers (a : Action) (s t : Publisher) (hs : Sound b s)
    (h : step b a s = some t) (hrec : Recovers b t) : Spares b a s := by
  have ht := step_sound a s t hs h
  cases step_effect h with
  | @lost conn alive =>
    refine ((recovers_iff_state ht).mp hrec).imp id fun hkept hguard => ?_
    have hlost := hkept conn hguard
    simp only [Function.update_self, Bool.false_eq_true] at hlost
  | _ => trivial

theorem recovers_of_spares (a : Action) (s t : Publisher) (hs : Sound b s ∧ Recovers b s)
    (hspares : Spares b a s) (h : step b a s = some t) : Sound b t ∧ Recovers b t := by
  have ht := step_sound a s t hs.1 h
  refine ⟨ht, (recovers_iff_state ht).mpr ?_⟩
  rcases (recovers_iff_state hs.1).mp hs.2 with hb | hkept
  · exact .inl hb
  · cases step_effect h with
    | connecting idle free take => exact .inr hkept
    | publishing idle free take => exact .inr hkept
    | connected stage reachable =>
      refine .inr fun conn hconn => ?_
      obtain rfl : s.opened = conn := Option.some.inj hconn
      exact Function.update_self _ _ _
    | connectFailed stage => exact .inr hkept
    | published stage answers => exact .inr hkept
    | withdrawn idle => exact .inr hkept
    | interrupted stage => exact .inr hkept
    | abandoned k => exact .inr hkept
    | @lost other alive =>
      refine hspares.imp id fun hother conn hconn => ?_
      have hne : conn ≠ other := by
        rintro rfl
        exact hother hconn
      exact (Function.update_of_ne hne _ _).trans (hkept conn hconn)
    | outage => exact .inr hkept
    | restore => exact .inr hkept

/-- **A publisher recovers from a connection that is lost.** All along a run it does, exactly
where no connection is lost while a `Redis` keeps it; an `Amqp` always does. -/
theorem always_recovers (b : Backend) (actions : List Action) (s : Publisher)
    (h : run (step b) init actions = some s) :
    Always (step b) (Recovers b) init actions ↔ Meets (step b) (Spares b) init actions := by
  have hinit : Recovers b init :=
    (recovers_iff_state (init_sound b)).mpr (.inr fun conn hconn => nomatch hconn)
  constructor
  · intro hrec
    have hsound : Always (step b) (Sound b) init actions :=
      always_of_invariant step_sound actions (init_sound b)
    exact meets_of_always (fun a s t hs ht hgood => spares_of_recovers a s t hs.1 ht hgood.2)
      actions h (always_and hsound hrec)
  · intro hspares
    exact always_mono (fun _ hs => hs.2)
      (always_of_meets recovers_of_spares actions hspares ⟨init_sound b, hinit⟩)

/-- A message is published, the connection is lost, and the next message is published. -/
def interrupted : List Action :=
  [.send 0, .connect 0 (.ok ()), .publish 0 .confirmed, .lose 0, .send 1]

theorem always_recovers_amqp :
    ∃ s, run (step .amqp) init (interrupted ++ [.connect 1 (.ok ()), .publish 1 .confirmed]) = some s ∧
      s.stage 1 = .answered (.sent 1) ∧
      Always (step .amqp) (Recovers .amqp) init
        (interrupted ++ [.connect 1 (.ok ()), .publish 1 .confirmed]) := by
  refine ⟨_, rfl, rfl, (always_recovers .amqp _ _ rfl).mpr (meets_of_forall (fun a _ s => ?_) init)⟩
  cases a with
  | lose conn => exact .inl rfl
  | _ => trivial

/-- A `Redis` answers with the error of the connection that it has lost, though the broker can
be reached. -/
theorem redis_not_recovered :
    (∃ s, run (step .redis) init (interrupted ++ [.publish 1 (.refused "broken pipe")]) = some s ∧
      s.reachable = true ∧
      s.stage 1 = .answered (.publishFailed 0 "Redis publish error: broken pipe")) ∧
    ¬ ∀ (b : Backend) (actions : List Action) (s : Publisher),
      run (step b) init actions = some s → Always (step b) (Recovers b) init actions := by
  refine ⟨⟨_, rfl, rfl, rfl⟩, fun hall => ?_⟩
  have hrun : ∃ s, run (step .redis) init interrupted.dropLast = some s ∧ s.guard = some 0 ∧
      s.alive 0 = false ∧ s.holder = none ∧ s.stage 1 = .idle := ⟨_, rfl, rfl, rfl, rfl, rfl⟩
  obtain ⟨s, hs, hguard, hlost, hfree, hidle⟩ := hrun
  have hsend := step_send (b := .redis) hfree hidle
  simp only [hguard, Backend.take, Redis.take] at hsend
  have hconnects := (always_last (hall .redis _ s hs) hs 0 hguard hlost 1 _ hsend).connects
  rw [stage_setStage] at hconnects
  cases hconnects

/-! ### What a publisher that does not recover does -/

/-- A `Redis` that keeps a connection that is lost, and a send that comes to that. -/
structure Stale (conn k : Nat) (s : Publisher) : Prop where
  sound : Sound .redis s
  guard : s.guard = some conn
  lost : s.alive conn = false
  stage : s.stage k = .idle ∨ s.stage k = .cancelled ∨ s.stage k = .publishing conn ∨
    ∃ text, s.stage k = .answered (.publishFailed conn text)

theorem Stale.not_connecting {conn k : Nat} (hs : Stale conn k s) (j : Nat) :
    s.stage j ≠ .connecting := by
  intro hj
  have hheld := hs.sound.held j hj
  rw [hs.sound.free rfl conn hs.guard] at hheld
  cases hheld

theorem step_stale {conn : Nat} (a : Action) (s t : Publisher) (hs : Stale conn k s)
    (h : step .redis a s = some t) : Stale conn k t := by
  have ht := step_sound a s t hs.sound h
  cases step_effect h with
  | connecting idle free take =>
    rw [hs.guard] at take
    cases take
  | @publishing j other idle free take =>
    refine ⟨ht, hs.guard, hs.lost, ?_⟩
    by_cases hj : k = j
    · subst hj
      rw [hs.guard] at take
      rw [stage_setStage, ← take]
      exact .inr (.inr (.inl rfl))
    · rw [stage_setStage_of_ne hj]
      exact hs.stage
  | connected stage reachable => exact absurd stage (hs.not_connecting _)
  | connectFailed stage => exact absurd stage (hs.not_connecting _)
  | @published j other reply answer stage answers =>
    refine ⟨ht, hs.guard, hs.lost, ?_⟩
    by_cases hj : k = j
    · subst hj
      have hother : other = conn := by
        rcases hs.stage with hk | hk | hk | ⟨text, hk⟩ <;> rw [stage] at hk
        · cases hk
        · cases hk
        · exact SendStage.publishing.inj hk
        · cases hk
      rw [hother, hs.lost] at answers
      refine .inr (.inr (.inr ?_))
      cases reply <;> simp [Backend.published, Redis.published] at answers
      exact ⟨_, (stage_setStage _ _ _).trans (congrArg _ answers.symm)⟩
    · rw [stage_setStage_of_ne hj]
      exact hs.stage
  | @withdrawn j idle =>
    refine ⟨ht, hs.guard, hs.lost, ?_⟩
    by_cases hj : k = j
    · subst hj
      exact .inr (.inl (stage_setStage _ _ _))
    · rw [stage_setStage_of_ne hj]
      exact hs.stage
  | interrupted stage => exact absurd stage (hs.not_connecting _)
  | abandoned j => exact hs
  | @lost other alive =>
    refine ⟨ht, hs.guard, ?_, hs.stage⟩
    by_cases hother : conn = other
    · subst hother
      exact Function.update_self _ _ _
    · exact (Function.update_of_ne hother _ _).trans hs.lost
  | outage => exact ⟨ht, hs.guard, hs.lost, hs.stage⟩
  | restore => exact ⟨ht, hs.guard, hs.lost, hs.stage⟩

/-- **A `Redis` whose connection is lost publishes nothing any more.** Whatever happens, and
whether or not the broker can be reached, every later send is answered with that connection's
error. -/
theorem redis_stale_forever {conn : Nat} {before after : List Action}
    (hs : run (step .redis) init before = some s) (hguard : s.guard = some conn)
    (hlost : s.alive conn = false) (hidle : s.stage k = .idle)
    (h : run (step .redis) s after = some t) {answer : Answer} (ha : t.stage k = .answered answer) :
    ∃ text, answer = .publishFailed conn text := by
  have hsound := run_invariant step_sound before hs (init_sound .redis)
  have hstale := run_invariant step_stale after h ⟨hsound, hguard, hlost, .inl hidle⟩
  rcases hstale.stage with hk | hk | hk | ⟨text, hk⟩ <;> rw [ha] at hk
  · cases hk
  · cases hk
  · cases hk
  · exact ⟨text, SendStage.answered.inj hk⟩

end Publisher
end Webrockets

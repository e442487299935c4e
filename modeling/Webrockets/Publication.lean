import Webrockets.Broadcaster

/-! What the brokers are given (`broadcaster.rs`, and `send` of `broker/redis.rs` and
`broker/amqp.rs`).

A call keeps the broadcaster that it has found in the slot, and its payload goes where that one
was set up to send, whatever is set up or reset before it has been sent: `published_once`. -/
namespace Webrockets.Broadcasting
open Transition JsonText

variable {codec : Codec} {castError : DictValue → PyErr} {s t : Broadcasting}

/-! ### What is published -/

/-- How often the brokers have been given the payload of a call. -/
def count (s : Broadcasting) (k : Nat) : Nat := s.posted.countP fun post => post.call == k

/-- What a step gives to a broker. -/
def gives (codec : Codec) : Action → Broadcasting → List Post
  | .publish k _ true, s =>
    match (s.call k).publication with
    | some p => [s.post codec k p]
    | none => []
  | _, _ => []

theorem gives_cases (codec : Codec) (a : Action) (s : Broadcasting) :
    gives codec a s = [] ∨ ∃ post, gives codec a s = [post] := by
  unfold gives
  split
  · split
    · exact .inr ⟨_, rfl⟩
    · exact .inl rfl
  · exact .inl rfl

theorem posted_step {a : Action} (h : step codec castError a s = some t) :
    t.posted = s.posted ++ gives codec a s := by
  cases step_effect h with
  | failed _ | stuck _ | refused _ | arefused _ => exact (List.append_nil _).symm
  | begun _ | abegun _ => exact (List.append_nil _).symm
  | finished _ _ | cancelled _ _ _ => exact (List.append_nil _).symm
  | @installed ctx dict runtime x lock new =>
    rw [(replace_kept (s.add x) ctx (some s.made)).2.2.2.2]
    exact (List.append_nil _).symm
  | @reset ctx lock =>
    rw [(replace_kept s ctx none).2.2.2.2]
    exact (List.append_nil _).symm
  | moved drives _ => cases drives <;> exact (List.append_nil _).symm
  | @published k reply taken p q call honest step =>
    cases taken with
    | false => exact (List.append_nil _).symm
    | true =>
      simp only [gives, call]
      rfl

structure Tracked (codec : Codec) (s : Broadcasting) : Prop where
  counted : Counted s
  idle : ∀ b k, s.called ≤ k → (s.publisher b).stage k = .idle
  made : ∀ k p, (s.call k).publication = some p → p.broadcaster < s.made
  posted : ∀ post ∈ s.posted, ∃ p, (s.call post.call).publication = some p ∧
    post = s.post codec post.call p
  once : ∀ k, s.count k ≤ 1
  unanswered : ∀ k p, (s.call k).publication = some p →
    (∀ a, (s.publisher p.broadcaster).stage k ≠ .answered a) → s.count k = 0
  sent : ∀ k p conn, s.call k = .sending p →
    (s.publisher p.broadcaster).stage k = .answered (.sent conn) →
    (s.config p.broadcaster).backend = .redis → s.count k = 1
  returned : ∀ k p, s.call k = .done p .returned →
    (s.config p.broadcaster).backend = .redis → s.count k = 1

theorem init_tracked (codec : Codec) : Tracked codec init where
  counted := init_counted
  idle := fun _ _ _ => rfl
  made := fun _ _ h => nomatch h
  posted := fun _ h => nomatch h
  once := fun _ => Nat.zero_le _
  unanswered := fun _ _ h => nomatch h
  sent := fun _ _ _ h => nomatch h
  returned := fun _ _ h => nomatch h

/-- A call without a broadcaster has nothing published. -/
theorem Tracked.count_eq_zero (hs : Tracked codec s) {k : Nat}
    (hk : (s.call k).publication = none) : s.count k = 0 := by
  refine List.countP_eq_zero.mpr fun post hpost hcall => ?_
  obtain ⟨p, hp, _⟩ := hs.posted post hpost
  rw [beq_iff_eq.mp hcall, hk] at hp
  cases hp

theorem Tracked.uncalled (hs : Tracked codec s) : (s.call s.called).publication = none := by
  rw [hs.counted.called _ (Nat.le_refl _)]
  rfl

/-- Nothing but the slot, the handles and the broadcasters that are made has changed. -/
theorem Tracked.of_slot (hs : Tracked codec s) (ht : Counted t) (hcalled : t.called = s.called)
    (hcall : t.call = s.call) (hposted : t.posted = s.posted) (hmade : s.made ≤ t.made)
    (hsame : ∀ b, b < s.made → t.publisher b = s.publisher b ∧ t.config b = s.config b)
    (hidle : ∀ b, t.publisher b = s.publisher b ∨ t.publisher b = .init) : Tracked codec t := by
  have hcount (k : Nat) : t.count k = s.count k := by rw [count, hposted, count]
  refine ⟨ht, fun b k hk => ?_, fun k p hk => ?_, fun post hpost => ?_, fun k => ?_,
    fun k p hk hstage => ?_, fun k p conn hk hstage hredis => ?_, fun k p hk hredis => ?_⟩
  · rcases hidle b with h | h <;> rw [h]
    · exact hs.idle b k (hcalled ▸ hk)
    · rfl
  · exact Nat.lt_of_lt_of_le (hs.made k p (hcall ▸ hk)) hmade
  · obtain ⟨p, hp, heq⟩ := hs.posted post (hposted ▸ hpost)
    refine ⟨p, hcall ▸ hp, heq.trans ?_⟩
    have hconfig := (hsame _ (hs.made _ p hp)).2
    show Post.mk _ (s.config p.broadcaster) _ = Post.mk _ (t.config p.broadcaster) _
    rw [hconfig]
  · exact hcount k ▸ hs.once k
  · rw [hcall] at hk
    rw [(hsame _ (hs.made k p hk)).1] at hstage
    exact hcount k ▸ hs.unanswered k p hk hstage
  · rw [hcall] at hk
    obtain ⟨hpublisher, hconfig⟩ := hsame _ (hs.counted.lent k p hk)
    rw [hpublisher] at hstage
    rw [hconfig] at hredis
    exact hcount k ▸ hs.sent k p conn hk hstage hredis
  · rw [hcall] at hk
    rw [(hsame _ (hs.made k p (by rw [hk]; rfl))).2] at hredis
    exact hcount k ▸ hs.returned k p hk hredis

/-- A call has come to another stage. -/
theorem Tracked.of_call (hs : Tracked codec s) {k : Nat} {stage : Publication.Stage}
    (ht : Counted t) (hcalled : s.called ≤ t.called) (hcall : t.call = Server.set s.call k stage)
    (hposted : t.posted = s.posted) (hmade : t.made = s.made)
    (hsame : ∀ b, t.publisher b = s.publisher b ∧ t.config b = s.config b)
    (hkept : ∀ p, (s.call k).publication = some p → stage.publication = some p)
    (hb : ∀ p, stage.publication = some p → p.broadcaster < s.made)
    (hsending : ∀ p, stage = .sending p → (s.publisher p.broadcaster).stage k = .idle)
    (hzero : ∀ p, stage.publication = some p →
      (∀ a, (s.publisher p.broadcaster).stage k ≠ .answered a) → s.count k = 0)
    (hreturned : ∀ p, stage = .done p .returned → (s.config p.broadcaster).backend = .redis →
      s.count k = 1) : Tracked codec t := by
  have hcount (j : Nat) : t.count j = s.count j := by rw [count, hposted, count]
  have hat : t.call k = stage := by rw [hcall, Server.set_self]
  have hne {j : Nat} (hj : j ≠ k) : t.call j = s.call j := by rw [hcall, Server.set_of_ne _ hj]
  refine ⟨ht, fun b j hj => ?_, fun j p hj => ?_, fun post hpost => ?_, fun j => ?_,
    fun j p hj hstage => ?_, fun j p conn hj hstage hredis => ?_, fun j p hj hredis => ?_⟩
  · rw [(hsame b).1]
    exact hs.idle b j (Nat.le_trans hcalled hj)
  · rw [hmade]
    by_cases hjk : j = k
    · subst hjk
      exact hb p (hat ▸ hj)
    · exact hs.made j p (hne hjk ▸ hj)
  · obtain ⟨p, hp, heq⟩ := hs.posted post (hposted ▸ hpost)
    refine ⟨p, ?_, heq.trans ?_⟩
    · by_cases hjk : post.call = k
      · rw [hjk, hat]
        exact hkept p (hjk ▸ hp)
      · rw [hne hjk]
        exact hp
    · show Post.mk _ (s.config p.broadcaster) _ = Post.mk _ (t.config p.broadcaster) _
      rw [(hsame _).2]
  · exact hcount j ▸ hs.once j
  · rw [hcount]
    rw [(hsame _).1] at hstage
    by_cases hjk : j = k
    · subst hjk
      exact hzero p (hat ▸ hj) hstage
    · exact hs.unanswered j p (hne hjk ▸ hj) hstage
  · rw [hcount]
    rw [(hsame _).1] at hstage
    rw [(hsame _).2] at hredis
    by_cases hjk : j = k
    · subst hjk
      rw [hsending p (hat ▸ hj)] at hstage
      cases hstage
    · exact hs.sent j p conn (hne hjk ▸ hj) hstage hredis
  · rw [hcount]
    rw [(hsame _).2] at hredis
    by_cases hjk : j = k
    · subst hjk
      exact hreturned p (hat ▸ hj) hredis
    · exact hs.returned j p (hne hjk ▸ hj) hredis

theorem Tracked.refuse (hs : Tracked codec s) (e : PyErr) : Tracked codec (s.refuse e) := by
  refine hs.of_call (hs.counted.refuse e) (Nat.le_succ _) rfl rfl rfl (fun _ => ⟨rfl, rfl⟩)
    (fun p hp => ?_) ?_ ?_ ?_ ?_
  · rw [hs.uncalled] at hp
    cases hp
  all_goals
    intro p hp
    cases hp

theorem Tracked.lend (hs : Tracked codec s) {p : Publication} (hslot : s.slot = some p.broadcaster) :
    Tracked codec (s.lend p) := by
  refine hs.of_call (hs.counted.lend hslot) (Nat.le_succ _) rfl rfl rfl
    (fun b => setStrong_same s p.broadcaster _ b) (fun q hq => ?_) (fun q hq => ?_) (fun q hq => ?_)
    (fun q _ _ => hs.count_eq_zero hs.uncalled) (fun q hq => by cases hq)
  · rw [hs.uncalled] at hq
    cases hq
  · cases hq
    exact hs.counted.slot _ hslot
  · exact hs.idle _ _ (Nat.le_refl _)

/-- A call ends, well only if its payload has been sent. -/
theorem Tracked.conclude (hs : Tracked codec s) {k : Nat} {p : Publication} {outcome : Outcome}
    (hk : s.call k = .sending p) (hreturned : outcome = .returned →
      ∃ conn, (s.publisher p.broadcaster).stage k = .answered (.sent conn)) :
    Tracked codec (s.conclude k p outcome) := by
  refine hs.of_call (hs.counted.conclude hk outcome) (Nat.le_refl _) rfl rfl rfl
    (fun b => setStrong_same s p.broadcaster _ b) (fun q hq => ?_) (fun q hq => ?_)
    (fun q hq => by cases hq) (fun q hq hstage => ?_) (fun q hq hredis => ?_)
  · rw [hk] at hq
    exact hq
  · cases hq
    exact hs.counted.lent k p hk
  · cases hq
    exact hs.unanswered k p (by rw [hk]; rfl) hstage
  · obtain ⟨rfl, houtcome⟩ := Publication.Stage.done.inj hq
    obtain ⟨conn, hanswer⟩ := hreturned houtcome
    exact hs.sent k p conn hk hanswer hredis

/-- Only what was sent returns. -/
theorem sent_of_returned {p : Publication} {answer : Answer}
    (h : s.outcomeOf p answer = .returned) : ∃ conn, answer = .sent conn := by
  unfold outcomeOf at h
  split at h
  · cases h
  · cases answer with
    | sent conn => exact ⟨conn, rfl⟩
    | connectFailed text | publishFailed conn text => cases h

/-- A broker has gone on with sends of calls that are under way, or with none. -/
theorem Tracked.setPublisher (hs : Tracked codec s) {b : Nat} {e : Publisher.Action} {q : Publisher}
    (hquiet : ∀ k reply, e ≠ .publish k reply)
    (hcalled : ∀ k, (e = .send k ∨ (∃ reply, e = .connect k reply) ∨ e = .cancel k) →
      ∃ p, s.call k = .sending p)
    (h : Publisher.step (s.config b).backend e (s.publisher b) = some q) :
    Tracked codec (s.setPublisher b q) := by
  have hstage (c k : Nat) : ((s.setPublisher b q).publisher c).stage k = (s.publisher c).stage k ∨
      (∃ p, s.call k = .sending p) ∧ (∀ answer, (s.publisher c).stage k ≠ .answered answer) ∧
        ∀ conn, ((s.setPublisher b q).publisher c).stage k ≠ .answered (.sent conn) := by
    by_cases hc : c = b
    · subst hc
      rw [setPublisher_self]
      exact (Publisher.stage_of_step h hquiet k).imp_right fun hmoved =>
        ⟨hcalled k hmoved.1, hmoved.2⟩
    · rw [setPublisher_of_ne s hc]
      exact .inl rfl
  refine ⟨hs.counted.setPublisher b q, fun c k hk => ?_, hs.made, fun post hpost => ?_, hs.once,
    fun k p hk hnone => ?_, fun k p conn hk hsent hredis => ?_, fun k p hk hredis => ?_⟩
  · rcases hstage c k with heq | ⟨⟨p, hp⟩, _⟩
    · rw [heq]
      exact hs.idle c k hk
    · rw [hs.counted.called k hk] at hp
      cases hp
  · obtain ⟨p, hp, heq⟩ := hs.posted post hpost
    refine ⟨p, hp, heq.trans ?_⟩
    show Post.mk _ (s.config p.broadcaster) _ = Post.mk _ ((s.setPublisher b q).config _) _
    rw [setPublisher_config]
  · refine hs.unanswered k p hk fun answer hanswer => ?_
    rcases hstage p.broadcaster k with heq | ⟨_, hfree, _⟩
    · exact hnone answer (heq.trans hanswer)
    · exact hfree answer hanswer
  · rw [setPublisher_config] at hredis
    rcases hstage p.broadcaster k with heq | ⟨_, _, hnot⟩
    · exact hs.sent k p conn hk (heq.symm.trans hsent) hredis
    · exact absurd hsent (hnot conn)
  · rw [setPublisher_config] at hredis
    exact hs.returned k p hk hredis

theorem Drives.quiet {a : Action} {b : Nat} {e : Publisher.Action} (h : Drives s a b e) (k : Nat)
    (reply : PublishReply) : e ≠ .publish k reply := by
  rintro rfl
  cases h

/-- A send that goes on is one of a call that is under way. -/
theorem Drives.called {a : Action} {b : Nat} {e : Publisher.Action} (h : Drives s a b e) {k : Nat}
    (he : e = .send k ∨ (∃ reply, e = .connect k reply) ∨ e = .cancel k) :
    ∃ p, s.call k = .sending p := by
  rcases he with rfl | ⟨reply, rfl⟩ | rfl
  · cases h with
    | send call => exact ⟨_, call⟩
  · cases h with
    | connect reply call => exact ⟨_, call⟩
  · cases h

/-- A `Redis` has sent what is confirmed. -/
theorem taken_of_sent {taken : Bool} {conn other : Nat} {alive : Bool} {reply : PublishReply}
    (honest : Backend.Honest taken .redis reply)
    (h : Backend.published .redis conn alive reply = some (.sent other)) : taken = true := by
  cases reply with
  | confirmed => exact honest
  | refused e | unconfirmed e => cases h

theorem count_give (s : Broadcasting) (taken : Bool) (post : Post) (k : Nat) :
    (s.give taken post).count k = s.count k + if taken = true ∧ post.call = k then 1 else 0 := by
  unfold count give
  cases taken with
  | false => simp
  | true => simp [List.countP_append, List.countP_singleton]

theorem Tracked.publish (hs : Tracked codec s) {k : Nat} {reply : PublishReply} {taken : Bool}
    {p : Publication} {q : Publisher} (hk : (s.call k).publication = some p)
    (honest : (s.config p.broadcaster).backend.Honest taken reply)
    (h : Publisher.step (s.config p.broadcaster).backend (.publish k reply)
      (s.publisher p.broadcaster) = some q) :
    Tracked codec ((s.setPublisher p.broadcaster q).give taken (s.post codec k p)) := by
  obtain ⟨conn, answer, hpublishing, hanswer, hanswered, hothers⟩ := Publisher.stage_of_publish h
  have hzero : s.count k = 0 := by
    refine hs.unanswered k p hk fun answer ha => ?_
    rw [hpublishing] at ha
    cases ha
  have hcount (j : Nat) := count_give (s.setPublisher p.broadcaster q) taken (s.post codec k p) j
  have hbefore (j : Nat) : (s.setPublisher p.broadcaster q).count j = s.count j := rfl
  have hfirst : (s.post codec k p).call = k := rfl
  have hat : ∀ {r : Publication}, (s.call k).publication = some r → r = p := fun hr =>
    Option.some.inj (hr.symm.trans hk)
  have hother {c j : Nat} (hj : j ≠ k) :
      ((s.setPublisher p.broadcaster q).publisher c).stage j = (s.publisher c).stage j := by
    by_cases hc : c = p.broadcaster
    · subst hc
      rw [setPublisher_self, hothers j hj]
    · rw [setPublisher_of_ne s hc]
  have hmoved := hs.counted.setPublisher p.broadcaster q
  refine ⟨⟨hmoved.slot, hmoved.lent, hmoved.called, hmoved.strong⟩, fun c j hj => ?_, hs.made,
    fun post hpost => ?_, fun j => ?_, fun j r hj hnone => ?_, fun j r other hj hsent hredis => ?_,
    fun j r hj hredis => ?_⟩
  · have hne : j ≠ k := by
      rintro rfl
      rw [hs.counted.called j hj] at hk
      cases hk
    exact (hother hne).trans (hs.idle c j hj)
  · have hcopy : ∃ r, (s.call post.call).publication = some r ∧ post = s.post codec post.call r := by
      cases taken with
      | false => exact hs.posted post hpost
      | true =>
        rcases List.mem_append.mp hpost with hpost | hpost
        · exact hs.posted post hpost
        · obtain rfl := List.mem_singleton.mp hpost
          exact ⟨p, hk, rfl⟩
    obtain ⟨r, hr, heq⟩ := hcopy
    refine ⟨r, hr, heq.trans ?_⟩
    show Post.mk _ (s.config r.broadcaster) _ = Post.mk _ ((s.setPublisher p.broadcaster q).config _) _
    rw [setPublisher_config]
  · rw [hcount, hbefore, hfirst]
    by_cases hj : k = j
    · subst hj
      rw [hzero]
      split <;> omega
    · rw [if_neg fun h => hj h.2]
      exact hs.once j
  · rw [hcount, hbefore, hfirst]
    by_cases hjk : j = k
    · subst hjk
      obtain rfl := hat hj
      have hself := hnone answer
      exact absurd ((congrArg (fun u : Publisher => u.stage j)
        (setPublisher_self s r.broadcaster q)).trans hanswered) hself
    · rw [if_neg fun h => hjk h.2.symm]
      exact hs.unanswered j r hj fun a ha => hnone a ((hother hjk).trans ha)
  · rw [hcount, hbefore, hfirst]
    have hconfig : (s.config r.broadcaster).backend = .redis :=
      (setPublisher_config s p.broadcaster q r.broadcaster) ▸ hredis
    by_cases hjk : j = k
    · subst hjk
      have hr : (s.call j).publication = some r := congrArg Publication.Stage.publication hj
      obtain rfl := hat hr
      have hsame : answer = .sent other := by
        have hself := hanswered.symm.trans ((congrArg (fun u : Publisher => u.stage j)
          (setPublisher_self s r.broadcaster q)).symm.trans hsent)
        exact SendStage.answered.inj hself
      rw [hsame, hconfig] at hanswer
      rw [hconfig] at honest
      rw [hzero, if_pos ⟨taken_of_sent honest hanswer, rfl⟩]
    · rw [if_neg fun h => hjk h.2.symm]
      exact hs.sent j r other hj ((hother hjk).symm.trans hsent) hconfig
  · rw [hcount, hbefore, hfirst]
    have honce := hs.returned j r hj ((setPublisher_config s p.broadcaster q r.broadcaster) ▸ hredis)
    have hne : ¬ (taken = true ∧ k = j) := by
      rintro ⟨_, rfl⟩
      -- it would have returned while its payload was on the way
      rw [hzero] at honce
      cases honce
    rw [if_neg hne]
    exact honce

theorem step_tracked (a : Action) (s t : Broadcasting) (hs : Tracked codec s)
    (h : step codec castError a s = some t) : Tracked codec t := by
  have ht := step_counted a s t hs.counted h
  cases step_effect h with
  | failed _ | stuck _ => exact hs
  | @installed ctx dict runtime x lock new =>
    obtain ⟨_, hcall, hcalled, hmade, hposted⟩ := replace_kept (s.add x) ctx (some s.made)
    have hadd (b : Nat) (hb : b ≠ s.made) :
        (s.add x).publisher b = s.publisher b ∧ (s.add x).config b = s.config b := by
      unfold publisher config add
      rw [setBroadcaster_of_ne s hb]
      exact ⟨rfl, rfl⟩
    refine hs.of_slot ht hcalled hcall hposted (hmade ▸ Nat.le_succ _) (fun b hb => ?_) fun b => ?_
    · obtain ⟨hpublisher, hconfig⟩ := replace_same (s.add x) ctx (some s.made) b
      rw [hpublisher, hconfig]
      exact hadd b (Nat.ne_of_lt hb)
    · rw [(replace_same (s.add x) ctx (some s.made) b).1]
      by_cases hb : b = s.made
      · subst hb
        rw [publisher, add, setBroadcaster_self]
        exact .inr (new_fresh new).2.2.1
      · exact .inl (hadd b hb).1
  | @reset ctx lock =>
    obtain ⟨_, hcall, hcalled, hmade, hposted⟩ := replace_kept s ctx none
    exact hs.of_slot ht hcalled hcall hposted (Nat.le_of_eq hmade.symm)
      (fun b _ => replace_same s ctx none b) fun b => .inl (replace_same s ctx none b).1
  | refused _ | arefused _ => exact hs.refuse _
  | begun has | abegun has => exact hs.lend (getBroadcaster_ok has).2
  | moved drives step => exact hs.setPublisher drives.quiet (fun _ => drives.called) step
  | published call honest step => exact hs.publish call honest step
  | finished call answered =>
    refine hs.conclude call fun hreturned => ?_
    obtain ⟨conn, rfl⟩ := sent_of_returned hreturned
    exact ⟨conn, answered⟩
  | @cancelled k p q call future step =>
    have hsent : Tracked codec (s.setPublisher p.broadcaster q) := by
      refine hs.setPublisher (fun _ _ h => by cases h) (fun j he => ?_) step
      rcases he with h | ⟨reply, h⟩ | h
      · cases h
      · cases h
      · obtain rfl := Publisher.Action.cancel.inj h
        exact ⟨p, call⟩
    exact hsent.conclude call fun h => by cases h

/-! ### The broadcaster of a call -/

/-- `b` was set up from `config`, and has been in the slot since. -/
def SetUp (codec : Codec) (castError : DictValue → PyErr) (actions : List Action) (b : Nat)
    (config : BrokerConfig) : Prop :=
  ∃ before ctx dict runtime after m u,
    actions = before ++ .setup ctx dict runtime :: after ∧
    run (step codec castError) init before = some m ∧
    BrokerConfig.fromPy castError dict = .ok config ∧
    step codec castError (.setup ctx dict runtime) m = some u ∧
    Always (step codec castError) (fun v => v.slot = some b) u after

/-- The call was made while `p.broadcaster` was in the slot. -/
def Called (codec : Codec) (castError : DictValue → PyErr) (actions : List Action) (k : Nat)
    (p : Publication) (config : BrokerConfig) : Prop :=
  ∃ before a after m, actions = before ++ a :: after ∧
    run (step codec castError) init before = some m ∧ m.called = k ∧ m.poisoned = false ∧
    (a = .broadcast p.ctx p.groups p.message ∨
      p.ctx = .worker ∧ ∃ ctx, a = .abroadcast ctx p.groups p.message) ∧
    SetUp codec castError before p.broadcaster config

theorem Called.later {actions : List Action} {k : Nat} {p : Publication} {config : BrokerConfig}
    (h : Called codec castError actions k p config) (a : Action) :
    Called codec castError (actions ++ [a]) k p config := by
  obtain ⟨before, b, after, m, rfl, hrest⟩ := h
  exact ⟨before, b, after ++ [a], m, by rw [List.append_assoc, List.cons_append], hrest⟩

theorem run_set_up {actions : List Action} (h : run (step codec castError) init actions = some s) :
    ∀ b, s.slot = some b → SetUp codec castError actions b (s.config b) := by
  refine run_history (P := fun actions s => ∀ b, s.slot = some b →
    SetUp codec castError actions b (s.config b)) (fun _ hb => by cases hb) ?_ actions h
  intro actions a m t hm ih hstep b hb
  have hcounted := run_invariant step_counted actions hm init_counted
  by_cases hold : m.slot = some b
  · obtain ⟨before, ctx, dict, runtime, after, v, u, rfl, hv, hconfig, hu, halways⟩ := ih b hold
    rw [← config_kept hstep (hcounted.slot b hold)] at hconfig
    refine ⟨before, ctx, dict, runtime, after ++ [a], v, u, by rw [List.append_assoc,
      List.cons_append], hv, hconfig, hu, always_concat halways fun w hw x hx => ?_⟩
    obtain ⟨v', hv', hrest⟩ := run_split hm
    obtain rfl := Option.some.inj (hv.symm.trans hv')
    obtain ⟨u', hu', hafter⟩ := run_cons.mp hrest
    obtain rfl := Option.some.inj (hu.symm.trans hu')
    obtain rfl := Option.some.inj (hw.symm.trans hafter)
    obtain rfl := Option.some.inj (hx.symm.trans hstep)
    exact hb
  · rcases slot_step hstep hb with hslot | ⟨ctx, dict, runtime, rfl, hconfig, _⟩
    · exact absurd hslot hold
    · exact ⟨actions, ctx, dict, runtime, [], m, t, rfl, hm, hconfig, hstep, hb⟩

theorem run_called {actions : List Action} (h : run (step codec castError) init actions = some s) :
    ∀ k p, (s.call k).publication = some p →
      Called codec castError actions k p (s.config p.broadcaster) := by
  refine run_history (P := fun actions s => ∀ k p, (s.call k).publication = some p →
    Called codec castError actions k p (s.config p.broadcaster)) (fun _ _ hp => by cases hp) ?_
    actions h
  intro actions a m t hm ih hstep k p hp
  have htracked := run_invariant step_tracked actions hm (init_tracked codec)
  have hlater (hold : (m.call k).publication = some p) :
      Called codec castError (actions ++ [a]) k p (t.config p.broadcaster) := by
    rw [config_kept hstep (htracked.made k p hold)]
    exact (ih k p hold).later a
  cases step_moves hstep k with
  | stays h => exact hlater (h ▸ hp)
  | refused e h =>
    rw [h] at hp
    cases hp
  | begins q h hk hget ha =>
    rw [h] at hp
    obtain rfl := Option.some.inj hp
    obtain ⟨hlock, hslot⟩ := getBroadcaster_ok hget
    rw [config_kept hstep (htracked.counted.slot _ hslot)]
    exact ⟨actions, a, [], m, rfl, hm, hk.symm, hlock, ha, run_set_up hm _ hslot⟩
  | ends q outcome hold h =>
    rw [h] at hp
    exact hlater (by rw [hold]; exact hp)

/-- What a broker has been given comes from a call, and is what that call has to say. -/
theorem run_posted {actions : List Action} (h : run (step codec castError) init actions = some s)
    {post : Post} (hpost : post ∈ s.posted) :
    ∃ p, (s.call post.call).publication = some p ∧
      Called codec castError actions post.call p post.config ∧
      post.config = s.config p.broadcaster ∧
      post.payload = makePayload codec p.groups p.message := by
  have htracked := run_invariant step_tracked actions h (init_tracked codec)
  obtain ⟨p, hp, heq⟩ := htracked.posted post hpost
  have hconfig : post.config = s.config p.broadcaster := by
    rw [heq]
    rfl
  refine ⟨p, hp, hconfig ▸ run_called h post.call p hp, hconfig, ?_⟩
  rw [heq]
  rfl

/-- **A call publishes once, over the broadcaster of its time.** Whatever is set up or reset
meanwhile: what the brokers are given comes from a call, goes where the broadcaster of that
call was set up to send and has its groups and its message; it is given once at most, and once
where a call over a Redis returns. -/
theorem published_once (codec : Codec) (castError : DictValue → PyErr) (actions : List Action)
    (s : Broadcasting) (h : run (step codec castError) init actions = some s) :
    (∀ post ∈ s.posted, ∃ p, Called codec castError actions post.call p post.config ∧
      post.payload = makePayload codec p.groups p.message) ∧
    (∀ k, s.count k ≤ 1) ∧
    ∀ k p, s.call k = .done p .returned →
      (s.config p.broadcaster).backend = .redis → s.count k = 1 := by
  have htracked := run_invariant step_tracked actions h (init_tracked codec)
  refine ⟨fun post hpost => ?_, htracked.once, htracked.returned⟩
  obtain ⟨p, _, hcalled, _, hpayload⟩ := run_posted h hpost
  exact ⟨p, hcalled, hpayload⟩

theorem published_once_replaced :
    ∃ s, run (step .shortest fun _ => .typeError "not a str") init
        (broadcasting (.broadcast .thread ["room"] "hi")
          [.setup .thread redisExample (.ok ())]) = some s ∧
      s.slot = some 1 ∧ s.call 0 = .done ⟨0, .thread, ["room"], "hi", false⟩ .returned ∧
      s.count 0 = 1 := by
  refine ⟨_, rfl, rfl, rfl, ?_⟩
  exact (published_once .shortest (fun _ => .typeError "not a str") (broadcasting
    (.broadcast .thread ["room"] "hi") [.setup .thread redisExample (.ok ())]) _ rfl).2.2 0
      ⟨0, .thread, ["room"], "hi", false⟩ rfl rfl

end Webrockets.Broadcasting

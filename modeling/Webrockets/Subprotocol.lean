import Webrockets.Dispatch
import Webrockets.Handshake
import Webrockets.HeaderValue

/-! The subprotocol at both ends (`handle_ws_upgrade`, `upgrade`, and `ws_connect` of the client).

The server copies what `connect("before")` has chosen to the `Connection`, and puts it in a
header of the response, if it can be put there. The client reads the header, if it can be read,
and trims it. What comes out is the same for names that are printable and have no space around
them: `subprotocol_agreed`. -/
namespace Webrockets
open Transition

/-! ### The client -/

/-- What `ws_connect` takes from the response. -/
def negotiatedProtocol (h : HeaderValues) (response : Response) : Option String :=
  ((response.protocol.map h.carried).bind h.toStr).map trim

/-! ### Both ends -/

variable {h : HeaderValues}

/-- What is visible has no control characters. -/
theorem not_control_of_visible {s : String} (hs : s.toList.all isVisible = true) :
    s.toList.any isControl = false := by
  rw [List.any_eq_false]
  intro c hc hcontrol
  have hvisible := List.all_eq_true.mp hs c hc
  simp only [isControl, isVisible, Bool.or_eq_true, Bool.and_eq_true, decide_eq_true_eq,
    bne_iff_ne] at hcontrol hvisible
  rcases hvisible with hvisible | rfl
  · omega
  · exact absurd hcontrol (by decide)

/-- What becomes of a name on its way. -/
theorem negotiated_name (hh : h.Lawful) (name body : String) (status : Nat) :
    negotiatedProtocol h ⟨status, body, h.fromStr name⟩ =
      if name.toList.all isVisible then some (trimWith isBlank name) else none := by
  simp only [negotiatedProtocol, hh.fromStr]
  by_cases hvisible : name.toList.all isVisible = true
  · rw [not_control_of_visible hvisible]
    simp only [Bool.false_eq_true, if_false, Option.map_some, Option.bind_some, hh.carried, hh.toStr,
      all_visible_trimWith, hvisible, if_true, trim_of_visible hvisible]
  · rw [if_neg hvisible]
    split
    · rfl
    · simp only [Option.map_some, Option.bind_some, hh.carried, hh.toStr, all_visible_trimWith,
        hvisible, Bool.false_eq_true, if_false, Option.map_none]

/-- A name comes out as it was exactly if it is plain. -/
theorem negotiated_iff (hh : h.Lawful) (name body : String) (status : Nat) :
    some name = negotiatedProtocol h ⟨status, body, h.fromStr name⟩ ↔ Plain name := by
  rw [negotiated_name hh]
  constructor
  · intro heq
    split at heq
    · next hvisible =>
      obtain ⟨hfirst, hlast⟩ := trimWith_eq_self.mp (Option.some.inj heq).symm
      exact ⟨hvisible, hfirst, hlast⟩
    · cases heq
  · intro hplain
    rw [if_pos hplain.visible, trimWith_eq_self.mpr ⟨hplain.first, hplain.last⟩]

namespace Handshake
variable {r : Upgrade} {m t : Handshake}

/-- The connection is the copy, and the response names what is in it. -/
theorem accepted_copy {after : List Action} {response : Response} {conn : Connection}
    (hsound : Sound r m) (h : run (step r) m (.copy true :: after) = some t)
    (hstage : t.stage = .accepted response conn) :
    conn = m.incoming.upgrade ∧ response.protocol = m.incoming.base.subprotocol.bind r.headerFromStr := by
  obtain ⟨n, hn, hrest⟩ := run_cons.mp h
  have hconn : t.conn = some conn := by rw [Handshake.conn, hstage]
  have hcopied : n.conn = some m.incoming.upgrade := by
    cases step_moves hn with
    | copy hinvoked => rfl
  obtain ⟨rfl, _⟩ := run_copied hrest hcopied hconn
  have hfollows := (run_invariant (fun _ _ _ hs hstep => step_sound hs hstep) _ h hsound).follows
  simp only [Follows, hstage] at hfollows
  exact ⟨rfl, hfollows.2.2⟩

/-- **Both ends agree on the subprotocol exactly if its name is plain.** What the `Connection`
of a handshake that succeeds reports is what the client reports, if and only if what
`connect("before")` had chosen when the connection was copied is nothing, or printable and
without blanks around it. Where `connect("before")` is a function, that is what it chose. -/
theorem subprotocol_agreed (h : HeaderValues) (hh : h.Lawful) (r : Upgrade)
    (hr : r.headerFromStr = h.fromStr) (before after : List Action) (m t : Handshake)
    (hbefore : run (step r) (start r) before = some m)
    (hafter : run (step r) m (.copy true :: after) = some t) (response : Response)
    (conn : Connection) (hstage : t.stage = .accepted response conn) :
    (conn.subprotocol = negotiatedProtocol h response ↔
      ∀ name, m.incoming.base.subprotocol = some name → Plain name) ∧
    ((∀ view cb, r.handler = some view → view.connectBeforeCallback = some cb → cb.isAsync = false) →
      m.incoming.base.subprotocol = r.held.base.subprotocol) := by
  have hsound : Sound r m :=
    run_invariant (fun _ _ _ hs hstep => step_sound hs hstep) before hbefore (start_sound r)
  obtain ⟨hconn, hprotocol⟩ := accepted_copy hsound hafter hstage
  refine ⟨?_, fun hsync => ?_⟩
  · obtain ⟨status, body, protocol⟩ := response
    have hreported : conn.subprotocol = m.incoming.base.subprotocol := by
      rw [hconn]
      rfl
    obtain rfl : protocol = m.incoming.base.subprotocol.bind h.fromStr := hr ▸ hprotocol
    rw [hreported]
    cases m.incoming.base.subprotocol with
    | none => simp [negotiatedProtocol]
    | some name =>
      rw [Option.bind_some, negotiated_iff hh]
      simp
  · obtain ⟨hsound, hnone⟩ := run_invariant (P := fun s => Sound r s ∧ s.coroutine = none)
      (fun _ _ _ hs hstep => step_sync hsync hs hstep) before hbefore ⟨start_sound r, rfl⟩
    obtain ⟨n, hn, _⟩ := run_cons.mp hafter
    have hfollows := hsound.follows
    cases step_moves hn with
    | copy hinvoked =>
      simp only [Follows, hinvoked, outstanding, hnone] at hfollows
      rw [← hfollows]
      rfl

end Handshake

/-! ### Names that are not plain -/

/-- As the libraries have it, as far as values are made of strings. -/
def stringHeaders : HeaderValues where
  fromStr := fun s => if s.toList.any isControl then none else some (bytesOf s)
  carried := fun value => ((fromUtf8 value).map fun s => bytesOf (trimWith isBlank s)).getD value
  toStr := fun value => (fromUtf8 value).bind fun s => if s.toList.all isVisible then some s else none

theorem stringHeaders_lawful : stringHeaders.Lawful where
  fromStr := fun _ => rfl
  carried := fun s => by simp only [stringHeaders, bytesOf, fromUtf8_toUTF8]; rfl
  toStr := fun s => by simp only [stringHeaders, bytesOf, fromUtf8_toUTF8]; rfl

namespace Handshake

/-- A route whose `connect("before")` is a function that chooses a name. -/
def naming (name : String) : Upgrade where
  handler := some { WebsocketRoute.new "/ws" none [] with
    connectBeforeCallback := some ⟨3, false⟩ }
  incoming := plainRequest
  authenticator := fun _ => .plain .none
  assignments := fun _ => [.subprotocol (some name)]
  headerFromStr := stringHeaders.fromStr

def copied : List Action := [.lookup, .authenticate, .invoke false]

theorem naming_run (name : String) : ∃ m t response conn,
    run (step (naming name)) (start (naming name)) copied = some m ∧
      run (step (naming name)) m [.copy true, .await, .upgrade true] = some t ∧
      t.stage = .accepted response conn ∧ conn.subprotocol = some name ∧
      response = ⟨101, "", stringHeaders.fromStr name⟩ :=
  ⟨_, _, _, _, rfl, rfl, rfl, rfl, rfl⟩

theorem subprotocol_agreed_chat : ∃ m t response conn,
    run (step (naming "chat")) (start (naming "chat")) copied = some m ∧
      run (step (naming "chat")) m [.copy true, .await, .upgrade true] = some t ∧
      t.stage = .accepted response conn ∧
      conn.subprotocol = negotiatedProtocol stringHeaders response := by
  obtain ⟨m, t, response, conn, hm, ht, hstage, _, _⟩ := naming_run "chat"
  have hagreed := subprotocol_agreed stringHeaders stringHeaders_lawful (naming "chat") rfl copied
    [.await, .upgrade true] m t hm ht response conn hstage
  refine ⟨m, t, response, conn, hm, ht, hstage, hagreed.1.mpr fun name hname => ?_⟩
  have hchat : m.incoming.base.subprotocol = some "chat" := by
    cases hm
    rfl
  obtain rfl : "chat" = name := Option.some.inj (hchat.symm.trans hname)
  refine ⟨by decide, fun c hc => ?_, fun c hc => ?_⟩
  · obtain rfl : 'c' = c := Option.some.inj hc
    decide
  · obtain rfl : 't' = c := Option.some.inj hc
    decide

/-- A run in which the name is chosen and accepted, and the client has another one or none. -/
def Disagrees (name : String) : Prop := ∃ m t response conn,
  run (step (naming name)) (start (naming name)) copied = some m ∧
    run (step (naming name)) m [.copy true, .await, .upgrade true] = some t ∧
    t.stage = .accepted response conn ∧ conn.subprotocol = some name ∧
    conn.subprotocol ≠ negotiatedProtocol stringHeaders response

theorem disagrees_of_ne {name : String} (h : some name ≠
    if name.toList.all isVisible then some (trimWith isBlank name) else none) : Disagrees name := by
  obtain ⟨m, t, response, conn, hm, ht, hstage, hname, rfl⟩ := naming_run name
  refine ⟨m, t, _, conn, hm, ht, hstage, hname, ?_⟩
  rw [hname, negotiated_name stringHeaders_lawful]
  exact h

/-- A name with a blank after it reaches the client without, and one with a line break in it does
not reach it. -/
theorem subprotocol_disagrees : Disagrees "chat " ∧ Disagrees "chat\n2" :=
  ⟨disagrees_of_ne (by decide), disagrees_of_ne (by decide)⟩

end Handshake
end Webrockets

import Webrockets.Connection
import Webrockets.Library.FirstMatch

/-! Authentication of a request (`authenticated`, and the step of
`authenticate_and_connect` that acts on it, in `server.rs`).

The authenticators of a route are tried in order, and the first user ends it.
`authenticated_documented` says for which lists of authenticators the decision is
the documented one. -/
namespace Webrockets

/-! ### Responses -/

/-- `protocol` is the value of the `sec-websocket-protocol` header. -/
structure Response where
  status : Nat
  body : String
  protocol : Option (List UInt8)
  deriving DecidableEq, Repr

def Response.refused (status : Nat) (body : String) : Response := ⟨status, body, none⟩

def authenticationFailed : Response := .refused 401 "Authentication failed"

def connectionFailed : Response := .refused 500 "Connection failed"

/-! ### Authentication -/

inductive AuthOutcome where
  | user (u : PyObj)
  | none
  | raised (detail : String)
  deriving DecidableEq, Repr

/-- What an authenticator does in a handshake: whether it has the method, how that leaves
the connection it is given, and how it ends. -/
structure Authenticator where
  hasAuthenticate : Bool
  assigns : IncomingConnection → IncomingConnection
  outcome : AuthOutcome

def IncomingConnection.setUser (conn : IncomingConnection) (user : Option PyObj) :
    IncomingConnection :=
  ⟨{ conn.base with user := user }⟩

/-- The loop over the authenticators. Only a user ends it: an error is dropped. -/
def tryAuthenticators : List Authenticator → IncomingConnection → Bool × IncomingConnection
  | [], conn => (false, conn)
  | authenticator :: rest, conn =>
    if authenticator.hasAuthenticate then
      match authenticator.outcome with
      | .user u => (true, (authenticator.assigns conn).setUser (some u))
      | .none => tryAuthenticators rest (authenticator.assigns conn)
      | .raised _ => tryAuthenticators rest (authenticator.assigns conn)
    else tryAuthenticators rest conn

def authenticated (authClasses : List Authenticator) (conn : IncomingConnection) :
    Bool × IncomingConnection :=
  if authClasses.isEmpty then (true, conn) else tryAuthenticators authClasses conn

/-- The authentication step of `authenticate_and_connect`. -/
def authenticate (authClasses : List Authenticator) (conn : IncomingConnection) :
    Except Response IncomingConnection :=
  match authenticated authClasses conn with
  | (true, conn) => .ok conn
  | (false, _) => .error authenticationFailed

namespace Authenticator

/-- An object without the method is passed over as one that returns `None`. -/
def result (a : Authenticator) : AuthOutcome := if a.hasAuthenticate then a.outcome else .none

def returnsUser (a : Authenticator) : Bool :=
  match a.result with
  | .user _ => true
  | _ => false

def raises (a : Authenticator) : Bool :=
  match a.result with
  | .raised _ => true
  | _ => false

/-- The authenticator does not leave the decision to the next one. -/
def decisive (a : Authenticator) : Bool := a.result ≠ .none

/-- The first outcome that is not `None`. -/
def firstOutcome (authClasses : List Authenticator) : AuthOutcome :=
  match authClasses.find? decisive with
  | some a => a.result
  | none => .none

/-- What the documentation says comes of it: the first decisive authenticator settles the
matter, and with none the connection goes on without a user. -/
def Documented (authClasses : List Authenticator) (answer : Except Response IncomingConnection) :
    Prop :=
  match firstOutcome authClasses with
  | .user u => ∃ conn, answer = .ok conn ∧ conn.base.user = some u
  | .raised _ => ∃ response, answer = .error response
  | .none => ∃ conn, answer = .ok conn ∧ conn.base.user = none

theorem returnsUser_iff {a : Authenticator} : a.returnsUser = true ↔ ∃ u, a.result = .user u := by
  rw [returnsUser]
  cases a.result <;> simp

theorem raises_iff {a : Authenticator} :
    a.raises = true ↔ ∃ detail, a.result = .raised detail := by
  rw [raises]
  cases a.result <;> simp

theorem decisive_of_user {a : Authenticator} (h : a.returnsUser = true) : a.decisive = true := by
  obtain ⟨u, hu⟩ := returnsUser_iff.mp h
  simp [decisive, hu]

end Authenticator

open Authenticator

/-- One turn of the loop. -/
theorem tryAuthenticators_cons (a : Authenticator) (rest : List Authenticator)
    (conn : IncomingConnection) : ∃ conn', tryAuthenticators (a :: rest) conn =
      match a.result with
      | .user u => (true, conn'.setUser (some u))
      | _ => tryAuthenticators rest conn' := by
  rw [tryAuthenticators, result]
  cases a.hasAuthenticate with
  | false => exact ⟨conn, rfl⟩
  | true =>
    refine ⟨a.assigns conn, ?_⟩
    cases a.outcome <;> rfl

/-- The first user wins, whatever was raised before. -/
theorem tryAuthenticators_user {l : List Authenticator} {a : Authenticator} {u : PyObj}
    (hfirst : l.find? returnsUser = some a) (hu : a.result = .user u) (conn : IncomingConnection) :
    ∃ conn', tryAuthenticators l conn = (true, conn') ∧ conn'.base.user = some u := by
  induction l generalizing conn with
  | nil => cases hfirst
  | cons b rest ih =>
    obtain ⟨conn', hturn⟩ := tryAuthenticators_cons b rest conn
    rw [hturn]
    cases hb : b.result with
    | user w =>
      rw [List.find?_cons_of_pos (returnsUser_iff.mpr ⟨w, hb⟩)] at hfirst
      obtain rfl : b = a := Option.some.inj hfirst
      cases hb.symm.trans hu
      exact ⟨_, rfl, rfl⟩
    | none | raised detail =>
      rw [List.find?_cons_of_neg (by simp [returnsUser, hb])] at hfirst
      exact ih hfirst conn'

theorem tryAuthenticators_none {l : List Authenticator} (hno : ∀ a ∈ l, a.returnsUser = false)
    (conn : IncomingConnection) : (tryAuthenticators l conn).1 = false := by
  induction l generalizing conn with
  | nil => rfl
  | cons b rest ih =>
    have hrest : ∀ a ∈ rest, a.returnsUser = false := fun a ha => hno a (List.mem_cons_of_mem _ ha)
    obtain ⟨conn', hturn⟩ := tryAuthenticators_cons b rest conn
    rw [hturn]
    cases hb : b.result with
    | user w =>
      have hnot := hno b List.mem_cons_self
      rw [returnsUser_iff.mpr ⟨w, hb⟩] at hnot
      cases hnot
    | none | raised detail => exact ih hrest conn'

theorem authenticate_user {l : List Authenticator} {a : Authenticator} {u : PyObj}
    (hfirst : l.find? returnsUser = some a) (hu : a.result = .user u) (conn : IncomingConnection) :
    ∃ conn', authenticate l conn = .ok conn' ∧ conn'.base.user = some u := by
  obtain ⟨conn', htry, huser⟩ := tryAuthenticators_user hfirst hu conn
  cases l with
  | nil => cases hfirst
  | cons b rest =>
    refine ⟨conn', ?_, huser⟩
    simp only [authenticate, authenticated, List.isEmpty_cons, Bool.false_eq_true, if_false, htry]

theorem authenticate_none {l : List Authenticator} (hl : l ≠ [])
    (hno : ∀ a ∈ l, a.returnsUser = false) (conn : IncomingConnection) :
    authenticate l conn = .error authenticationFailed := by
  have hempty : l.isEmpty = false := by simpa using hl
  have htry := tryAuthenticators_none hno conn
  simp only [authenticate, authenticated, hempty, Bool.false_eq_true, if_false]
  cases hr : tryAuthenticators l conn with
  | mk ok conn' =>
    rw [hr] at htry
    obtain rfl : ok = false := htry
    rfl

/-- **The documented decision is made exactly where some authenticator is decisive and, if
the first one raises, none returns a user.** With no decisive one the connection is
refused, and an error does not keep a later authenticator from accepting. -/
theorem authenticated_documented {l : List Authenticator} (hl : l ≠ []) (conn : IncomingConnection) :
    Documented l (authenticate l conn) ↔
      (∃ a ∈ l, a.decisive = true) ∧
        ∀ a, l.find? decisive = some a → a.raises = true → ∀ b ∈ l, b.returnsUser = false := by
  cases hfirst : l.find? decisive with
  | none =>
    have hno : ∀ a ∈ l, ¬ a.decisive = true := List.find?_eq_none.mp hfirst
    have huser : ∀ a ∈ l, a.returnsUser = false :=
      fun a ha => Bool.eq_false_iff.mpr fun h => hno a ha (decisive_of_user h)
    rw [Documented, firstOutcome, hfirst, authenticate_none hl huser]
    refine ⟨fun h => ?_, fun h => ?_⟩
    · obtain ⟨conn', h, _⟩ := h
      cases h
    · obtain ⟨⟨a, ha, hd⟩, _⟩ := h
      exact absurd hd (hno a ha)
  | some a =>
    have ha := List.mem_of_find?_eq_some hfirst
    have hd : a.decisive = true := List.find?_some hfirst
    have houtcome : firstOutcome l = a.result := by rw [firstOutcome, hfirst]
    rw [Documented, houtcome]
    cases ho : a.result with
    | none => simp [decisive, ho] at hd
    | user u =>
      have huser : l.find? returnsUser = some a :=
        FirstMatch.find?_of_imp (fun b => decisive_of_user) hfirst (returnsUser_iff.mpr ⟨u, ho⟩)
      refine ⟨fun _ => ⟨⟨a, ha, hd⟩, fun b hb hraises => ?_⟩,
        fun _ => authenticate_user huser ho conn⟩
      obtain rfl : a = b := Option.some.inj hb
      simp [raises, ho] at hraises
    | raised detail =>
      refine ⟨fun h => ⟨⟨a, ha, hd⟩, fun _ _ _ b hb => ?_⟩, fun h => ?_⟩
      · obtain ⟨response, hresponse⟩ := h
        apply Bool.eq_false_iff.mpr
        intro hreturns
        obtain ⟨c, hc⟩ := Option.isSome_iff_exists.mp (List.find?_isSome.mpr ⟨b, hb, hreturns⟩)
        obtain ⟨u, hu⟩ := returnsUser_iff.mp (List.find?_some hc)
        obtain ⟨conn', hok, _⟩ := authenticate_user hc hu conn
        rw [hok] at hresponse
        cases hresponse
      · have hraises : a.raises = true := raises_iff.mpr ⟨detail, ho⟩
        exact ⟨_, authenticate_none hl (h.2 a rfl hraises) conn⟩

/-- An authenticator that has the method and leaves the connection alone. -/
def Authenticator.plain (outcome : AuthOutcome) : Authenticator := ⟨true, id, outcome⟩

def plainRequest : IncomingConnection := ⟨.new "/ws" "" .empty .empty⟩

theorem authenticated_documented_second :
    Documented [.plain .none, .plain (.user 7)]
      (authenticate [.plain .none, .plain (.user 7)] plainRequest) := by
  apply (authenticated_documented (List.cons_ne_nil _ _) plainRequest).mpr
  refine ⟨⟨.plain (.user 7), List.mem_cons_of_mem _ List.mem_cons_self, rfl⟩, fun a ha hraises => ?_⟩
  cases ha
  cases hraises

/-- A route that only asks for a user and gets none refuses the connection, and a later
user outweighs an error. -/
theorem authentication_differs :
    ¬ Documented [.plain .none] (authenticate [.plain .none] plainRequest) ∧
      ¬ Documented [.plain (.raised "expired"), .plain (.user 7)]
        (authenticate [.plain (.raised "expired"), .plain (.user 7)] plainRequest) := by
  refine ⟨fun h => ?_, fun h => ?_⟩
  · obtain ⟨conn, hok, _⟩ := h
    cases hok
  · obtain ⟨response, herror⟩ := h
    cases herror

end Webrockets

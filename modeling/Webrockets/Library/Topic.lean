import Mathlib.Logic.Function.Basic
import Mathlib.Data.List.Infix
import Webrockets.Library.Follow

/-! Topics: a log, and how far each subscriber has read.

A subscriber begins at the end of the log, reads one entry after the other, and can leave at
any time; when it comes back it begins at the end again. So what it reads while it stays is
what is published meanwhile (`unread_append`), and nobody ever reads an entry again
(`run_behind`). -/
open Transition

structure Topic (L M : Type) where
  log : List M
  position : L → Option Nat

namespace Topic
variable {L M : Type}

def new : Topic L M := ⟨[], fun _ => none⟩

inductive Event (L M : Type) where
  | publish (m : M)
  | subscribe (l : L)
  | read (l : L)
  | leave (l : L)

/-- The entries that a subscriber has yet to read, with their places. -/
def unread (t : Topic L M) (l : L) : List (M × Nat) :=
  (t.position l).elim [] fun n => t.log.zipIdx.drop n

def published (events : List (Event L M)) : List M :=
  events.filterMap fun
    | .publish m => some m
    | _ => none

/-- `l` neither comes nor goes. -/
def Stays (l : L) (events : List (Event L M)) : Prop :=
  ∀ e ∈ events, e ≠ .subscribe l ∧ e ≠ .leave l

variable {t : Topic L M} {l : L}

theorem unread_of_position {n : Nat} (h : t.position l = some n) :
    t.unread l = t.log.zipIdx.drop n := by
  rw [unread, h, Option.elim_some]

theorem unread_of_none (h : t.position l = none) : t.unread l = [] := by
  rw [unread, h, Option.elim_none]

/-- Nobody is beyond the end of the log. -/
def Sound (t : Topic L M) : Prop := ∀ l n, t.position l = some n → n ≤ t.log.length

theorem new_sound : Sound (new : Topic L M) := fun _ _ h => nomatch h

theorem unread_cons {n : Nat} {m : M} (h : t.position l = some n) (hm : t.log[n]? = some m) :
    t.unread l = (m, n) :: t.log.zipIdx.drop (n + 1) := by
  obtain ⟨hn, rfl⟩ := List.getElem?_eq_some_iff.mp hm
  have hlt : n < t.log.zipIdx.length := by rwa [List.length_zipIdx]
  rw [unread_of_position h, List.drop_eq_getElem_cons hlt, List.getElem_zipIdx, Nat.zero_add]

theorem published_cons (e : Event L M) (events : List (Event L M)) :
    published (e :: events) = published [e] ++ published events := by
  rw [published, published, published, ← List.filterMap_append, List.singleton_append]

variable [DecidableEq L] {u : Topic L M} {k : L}

def setPosition (t : Topic L M) (l : L) (n : Option Nat) : Topic L M :=
  { t with position := Function.update t.position l n }

@[simp] theorem setPosition_self (t : Topic L M) (l : L) (n : Option Nat) :
    (t.setPosition l n).position l = n := Function.update_self _ _ _

theorem setPosition_of_ne (t : Topic L M) (h : k ≠ l) (n : Option Nat) :
    (t.setPosition l n).position k = t.position k := Function.update_of_ne h _ _

/-- Whoever begins at the end has nothing to read. -/
theorem unread_end (t : Topic L M) (l : L) : (t.setPosition l (some t.log.length)).unread l = [] := by
  rw [unread_of_position (setPosition_self _ _ _)]
  exact List.drop_eq_nil_of_le (Nat.le_of_eq List.length_zipIdx)

def step : Event L M → Topic L M → Option (Topic L M)
  | .publish m, t => some { t with log := t.log ++ [m] }
  | .subscribe l, t => some (t.setPosition l (some t.log.length))
  | .read l, t =>
    match t.position l with
    | some n =>
      if n < t.log.length then some (t.setPosition l (some (n + 1))) else none
    | none => none
  | .leave l, t => some (t.setPosition l none)

/-- What `l` reads. -/
def readBy (l : L) : Event L M → Topic L M → List (M × Nat)
  | .read k, t => if k = l then (t.unread l).take 1 else []
  | _, _ => []

def reads (l : L) (t : Topic L M) (events : List (Event L M)) : List (M × Nat) :=
  emitted step (readBy l) t events

/-! ### Events -/

/-- What an event makes of a subscriber. -/
inductive Moves (l : L) (t : Topic L M) (e : Event L M) (u : Topic L M) : Prop where
  | stays (hread : readBy l e t = []) (hlog : u.log = t.log) (h : u.position l = t.position l)
  | publish (m : M) (he : e = .publish m) (hread : readBy l e t = [])
      (hlog : u.log = t.log ++ [m]) (h : u.position l = t.position l)
  | subscribe (he : e = .subscribe l) (hread : readBy l e t = []) (hlog : u.log = t.log)
      (h : u.position l = some t.log.length)
  | read (n : Nat) (m : M) (hread : readBy l e t = [(m, n)]) (hlog : u.log = t.log)
      (hm : t.log[n]? = some m) (hold : t.position l = some n) (h : u.position l = some (n + 1))
  | leave (he : e = .leave l) (hread : readBy l e t = []) (hlog : u.log = t.log)
      (h : u.position l = none)

theorem step_moves {e : Event L M} (h : step e t = some u) (l : L) : Moves l t e u := by
  cases e with
  | publish m =>
    obtain rfl := Option.some.inj h
    exact .publish m rfl rfl rfl rfl
  | subscribe k =>
    obtain rfl := Option.some.inj h
    by_cases hk : k = l
    · subst hk
      exact .subscribe rfl rfl rfl (setPosition_self _ _ _)
    · exact .stays rfl rfl (setPosition_of_ne _ (Ne.symm hk) _)
  | read k =>
    simp only [step] at h
    split at h
    · next n hn =>
      split at h
      · next hlt =>
        obtain rfl := Option.some.inj h
        by_cases hk : k = l
        · subst hk
          have hm : t.log[n]? = some t.log[n] := List.getElem?_eq_getElem hlt
          refine .read n t.log[n] ?_ rfl hm hn (setPosition_self _ _ _)
          rw [readBy, if_pos rfl, unread_cons hn hm]
          rfl
        · exact .stays (if_neg hk) rfl (setPosition_of_ne _ (Ne.symm hk) _)
      · cases h
    · cases h
  | leave k =>
    obtain rfl := Option.some.inj h
    by_cases hk : k = l
    · subst hk
      exact .leave rfl rfl rfl (setPosition_self _ _ _)
    · exact .stays rfl rfl (setPosition_of_ne _ (Ne.symm hk) _)

theorem step_sound (e : Event L M) (t u : Topic L M) (ht : Sound t) (h : step e t = some u) :
    Sound u := by
  intro l n hn
  cases step_moves h l with
  | stays _ hlog hpos =>
    rw [hlog]
    exact ht l n (hpos ▸ hn)
  | publish m _ _ hlog hpos =>
    rw [hlog, List.length_append]
    exact Nat.le_trans (ht l n (hpos ▸ hn)) (Nat.le_add_right _ _)
  | subscribe _ _ hlog hpos =>
    rw [hpos] at hn
    rw [hlog, ← Option.some.inj hn]
  | read k m _ hlog hm _ hpos =>
    rw [hpos] at hn
    rw [hlog, ← Option.some.inj hn]
    exact (List.getElem?_eq_some_iff.mp hm).1
  | leave _ _ _ hpos =>
    rw [hpos] at hn
    cases hn

/-! ### What is read -/

theorem step_log {e : Event L M} (h : step e t = some u) : u.log = t.log ++ published [e] := by
  cases e with
  | publish m =>
    obtain rfl := Option.some.inj h
    rfl
  | subscribe k | leave k =>
    obtain rfl := Option.some.inj h
    exact (List.append_nil _).symm
  | read k =>
    simp only [step] at h
    split at h
    · split at h
      · obtain rfl := Option.some.inj h
        exact (List.append_nil _).symm
      · cases h
    · cases h

theorem run_log {events : List (Event L M)} (h : run step t events = some u) :
    u.log = t.log ++ published events := by
  induction events generalizing t with
  | nil =>
    cases h
    exact (List.append_nil _).symm
  | cons e rest ih =>
    obtain ⟨m, hm, hrest⟩ := run_cons.mp h
    rw [ih hrest, step_log hm, published_cons e rest, List.append_assoc]

/-- An event adds to what a subscriber that stays has yet to read, or takes from it. -/
theorem step_unread {e : Event L M} (ht : Sound t) (h : step e t = some u)
    (hstays : e ≠ .subscribe l ∧ e ≠ .leave l) (hl : t.position l ≠ none) :
    t.unread l ++ (published [e]).zipIdx t.log.length = readBy l e t ++ u.unread l ∧
      u.position l ≠ none := by
  obtain ⟨n, hn⟩ := Option.ne_none_iff_exists'.mp hl
  have hlog := step_log h
  cases step_moves h l with
  | stays hread hsame hpos =>
    have hnil : published [e] = [] := List.append_cancel_left
      ((hlog.symm.trans hsame).trans (List.append_nil _).symm)
    refine ⟨?_, hpos ▸ hl⟩
    rw [hread, hnil, List.zipIdx_nil, List.append_nil, List.nil_append, unread, unread, hpos, hsame]
  | publish m he hread _ hpos =>
    refine ⟨?_, hpos ▸ hl⟩
    have hle : n ≤ t.log.zipIdx.length := by
      rw [List.length_zipIdx]
      exact ht l n hn
    rw [hread, List.nil_append, unread_of_position hn, unread_of_position (hpos.trans hn), hlog,
      List.zipIdx_append, List.drop_append_of_le_length hle, Nat.zero_add]
  | subscribe he _ _ _ => exact absurd he hstays.1
  | read k m hread hsame hm hold hpos =>
    have hnil : published [e] = [] := List.append_cancel_left
      ((hlog.symm.trans hsame).trans (List.append_nil _).symm)
    refine ⟨?_, by rw [hpos]; exact Option.some_ne_none _⟩
    rw [hread, hnil, List.zipIdx_nil, List.append_nil, unread_cons hold hm,
      unread_of_position hpos, hsame, List.singleton_append]
  | leave he _ _ _ => exact absurd he hstays.2

/-- **A subscriber that stays reads what is published.** What it had yet to read and what is
published since is what it reads, in order, and what it has yet to read then. -/
theorem unread_append {events : List (Event L M)} (ht : Sound t) (h : run step t events = some u)
    (hstays : Stays l events) (hl : t.position l ≠ none) :
    t.unread l ++ (published events).zipIdx t.log.length = reads l t events ++ u.unread l := by
  induction events generalizing t with
  | nil =>
    cases h
    exact List.append_nil _
  | cons e rest ih =>
    obtain ⟨m, hm, hrest⟩ := run_cons.mp h
    have hfirst := hstays e List.mem_cons_self
    obtain ⟨hunread, hposition⟩ := step_unread ht hm hfirst hl
    have hlater := ih (step_sound e t m ht hm) hrest
      (fun e' he' => hstays e' (List.mem_cons_of_mem _ he')) hposition
    have hlength : m.log.length = t.log.length + (published [e]).length := by
      rw [step_log hm, List.length_append]
    have hreads : reads l t (e :: rest) = readBy l e t ++ reads l m rest := emitted_cons hm
    rw [published_cons, List.zipIdx_append, ← List.append_assoc, hunread, List.append_assoc,
      ← hlength, hlater, hreads, List.append_assoc]

/-- Only reading reads. -/
theorem reads_eq_nil {events : List (Event L M)} (h : ∀ e ∈ events, ∀ k, e ≠ .read k) (l : L)
    (t : Topic L M) : reads l t events = [] := by
  induction events generalizing t with
  | nil => rfl
  | cons e rest ih =>
    have hread : readBy l e t = [] := by
      cases e with
      | read k => exact absurd rfl (h _ List.mem_cons_self k)
      | publish m | subscribe k | leave k => rfl
    show readBy l e t ++ (step e t).elim [] (fun u => reads l u rest) = []
    rw [hread, List.nil_append]
    cases step e t with
    | none => rfl
    | some u => exact ih (fun e' he' => h e' (List.mem_cons_of_mem _ he')) u

/-- Where a subscriber reads next, or would begin. -/
def place (t : Topic L M) (l : L) : Nat := (t.position l).getD t.log.length

/-- What `l` has read is in the log, each entry once, and behind it. -/
structure Behind (l : L) (events : List (Event L M)) (t : Topic L M) : Prop where
  increasing : (reads l new events).Pairwise fun x y => x.2 < y.2
  behind : ∀ x ∈ reads l new events, t.log[x.2]? = some x.1 ∧ x.2 < t.place l

theorem run_behind {events : List (Event L M)} (h : run step new events = some t) (l : L) :
    Behind l events t := by
  refine run_history (P := Behind l) ⟨.nil, fun _ hx => nomatch hx⟩ ?_ events h
  intro events e t u ht ih he
  have hsound := run_invariant step_sound events ht new_sound
  have hreads : reads l new (events ++ [e]) = reads l new events ++ readBy l e t :=
    emitted_concat ht e
  have hkept {n : Nat} {m : M} (hm : t.log[n]? = some m) : u.log[n]? = some m := by
    rw [step_log he, List.getElem?_append_left (List.getElem?_eq_some_iff.mp hm).1]
    exact hm
  have hplace : t.place l ≤ t.log.length := by
    unfold place
    cases hpos : t.position l with
    | none => exact Nat.le_refl _
    | some n => exact hsound l n hpos
  have hquiet (hread : readBy l e t = []) (hle : t.place l ≤ u.place l) :
      Behind l (events ++ [e]) u := by
    rw [hread, List.append_nil] at hreads
    refine ⟨hreads ▸ ih.increasing, fun x hx => ?_⟩
    obtain ⟨hm, hlt⟩ := ih.behind x (hreads ▸ hx)
    exact ⟨hkept hm, Nat.lt_of_lt_of_le hlt hle⟩
  cases step_moves he l with
  | stays hread hlog hpos => exact hquiet hread (Nat.le_of_eq (by rw [place, place, hpos, hlog]))
  | publish m _ hread hlog hpos =>
    refine hquiet hread ?_
    unfold place
    rw [hpos, hlog, List.length_append]
    cases t.position l with
    | none => exact Nat.le_add_right _ _
    | some n => exact Nat.le_refl _
  | subscribe _ hread hlog hpos =>
    refine hquiet hread ?_
    rw [show u.place l = t.log.length by rw [place, hpos]; rfl]
    exact hplace
  | leave _ hread hlog hpos =>
    refine hquiet hread ?_
    rw [show u.place l = u.log.length by rw [place, hpos]; rfl, hlog]
    exact hplace
  | read n m hread hlog hm hold hpos =>
    have hat : t.place l = n := by rw [place, hold]; rfl
    have hnext : u.place l = n + 1 := by rw [place, hpos]; rfl
    rw [hread] at hreads
    refine ⟨?_, fun x hx => ?_⟩
    · rw [hreads]
      refine List.pairwise_append.mpr ⟨ih.increasing, List.pairwise_singleton _ _, ?_⟩
      intro x hx y hy
      rw [List.mem_singleton.mp hy]
      exact hat ▸ (ih.behind x hx).2
    · rw [hnext]
      rw [hreads] at hx
      rcases List.mem_append.mp hx with hx | hx
      · obtain ⟨hxm, hlt⟩ := ih.behind x hx
        exact ⟨hkept hxm, Nat.lt_succ_of_lt (hat ▸ hlt)⟩
      · rw [List.mem_singleton.mp hx]
        exact ⟨hkept hm, Nat.lt_succ_self n⟩

end Topic

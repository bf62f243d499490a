import WsClient.Lib.Transition
import Mathlib.Data.Int.Cast.Defs

/-!
# The callback protocol

What the callbacks of a managed connection are for, as an automaton: a connection is lost
before the next is announced, the attempts of an outage are numbered from 1, and giving up
comes after the last allowed attempt has failed and ends the protocol.
-/

namespace WsClient.Connection
open WsClient.Lib

/-- The callbacks, and the failures of attempts. -/
inductive Signal
  | connect
  | failed
  | lost
  | reconnect (attempt : ℤ)
  | gaveUp
  deriving DecidableEq, Repr

/-- `first` is the attempt of `start`; in an outage `calls` attempts have been announced and
`fails` of them have failed. -/
inductive Phase
  | first
  | down (calls fails : ℕ)
  | up
  | ended
  deriving DecidableEq, Repr

def protocol (maxTries : ℤ) : Automaton Phase Signal where
  next
    | .first, .connect => some .up
    | .first, .failed => some (.down 0 0)
    | .down calls fails, .reconnect attempt =>
      if calls = fails ∧ attempt = calls+1 then some (.down (calls+1) fails) else none
    | .down calls fails, .failed => if calls = fails+1 then some (.down calls (fails+1)) else none
    | .down calls fails, .connect => if calls = fails+1 then some .up else none
    | .down calls fails, .gaveUp =>
      if calls = fails ∧ maxTries = calls ∧ 0 < maxTries then some .ended else none
    | .up, .lost => some (.down 0 0)
    | _, _ => none

/-- Attempts 1 to `k`, each announced and failed. -/
def rounds (k : ℕ) : List Signal := (List.range k).flatMap fun i => [.reconnect (i+1),.failed]

theorem rounds_succ (k : ℕ) : rounds (k+1) = rounds k++[.reconnect (k+1),.failed] := by
  simp [rounds,List.range_succ]

/-- The signals up to the beginning of an outage: `start` has failed, or a connection is
lost. -/
def OutageStart (l : List Signal) : Prop := l = [.failed] ∨ ∃ p, l = p++[.connect,.lost]

/-- The signals that lead to a phase. -/
def Phase.Shape (maxTries : ℤ) (l : List Signal) : Phase → Prop
  | .first => l = []
  | .down calls fails => ∃ q, OutageStart q ∧
      ((calls = fails ∧ l = q++rounds fails) ∨
        (calls = fails+1 ∧ l = q++rounds fails++[.reconnect (fails+1)]))
  | .up => ∃ p, l = p++[.connect]
  | .ended => ∃ q k, OutageStart q ∧ maxTries = (k : ℕ) ∧ l = q++rounds k++[.gaveUp]

variable {maxTries : ℤ} {l : List Signal} {t u : Phase}

theorem run_reconnect (k : ℕ) :
    (protocol maxTries).run (.down k k) [.reconnect (k+1)] = some (.down (k+1) k) := by
  simp [protocol]

theorem run_connect (k : ℕ) :
    (protocol maxTries).run (.down (k+1) k) [.connect] = some .up := by
  simp [protocol]

theorem run_failed (k : ℕ) :
    (protocol maxTries).run (.down (k+1) k) [.failed] = some (.down (k+1) (k+1)) := by
  simp [protocol]

theorem run_gaveUp {k : ℕ} (hk : maxTries = k) (hN : 0 < maxTries) :
    (protocol maxTries).run (.down k k) [.gaveUp] = some .ended := by
  simp only [protocol,Automaton.run_cons,Automaton.run_nil]
  rw [if_pos ⟨trivial,hk,hN⟩]
  rfl

theorem Phase.Shape.step {e : Signal} (h : t.Shape maxTries l)
    (hs : (protocol maxTries).next t e = some u) : u.Shape maxTries (l++[e]) := by
  cases t with
  | first =>
    obtain rfl : l = [] := h
    cases e <;> cases hs
    · exact ⟨[],rfl⟩
    · exact ⟨[.failed],.inl rfl,.inl ⟨rfl,rfl⟩⟩
  | up =>
    obtain ⟨p,rfl⟩ := h
    cases e <;> cases hs
    refine ⟨p++[.connect,.lost],.inr ⟨p,rfl⟩,.inl ⟨rfl,?_⟩⟩
    simp [rounds]
  | ended => cases e <;> cases hs
  | down calls fails =>
    obtain ⟨q,hq,h⟩ := h
    cases e with
    | lost => cases hs
    | connect =>
      simp only [protocol] at hs
      split at hs <;> cases hs
      exact ⟨l,rfl⟩
    | failed =>
      simp only [protocol] at hs
      split at hs <;> cases hs
      next hc =>
        rcases h with ⟨hcf,_⟩ | ⟨_,rfl⟩
        · omega
        · refine ⟨q,hq,.inl ⟨hc,?_⟩⟩
          simp [rounds_succ]
    | reconnect attempt =>
      simp only [protocol] at hs
      split at hs <;> cases hs
      next hc =>
        obtain ⟨hc,rfl⟩ := hc
        rcases h with ⟨_,rfl⟩ | ⟨hcf,_⟩
        · exact ⟨q,hq,.inr ⟨by omega,by rw [hc]⟩⟩
        · omega
    | gaveUp =>
      simp only [protocol] at hs
      split at hs <;> cases hs
      next hc =>
        rcases h with ⟨hcf,rfl⟩ | ⟨hcf,_⟩
        · exact ⟨q,fails,hq,by rw [hc.2.1,hcf],rfl⟩
        · omega

/-- Every accepted list of signals has the shape of the phase it leads to. -/
theorem protocol_shape (h : (protocol maxTries).run .first l = some t) : t.Shape maxTries l :=
  (protocol maxTries).run_invariant (S := fun l t => t.Shape maxTries l) (t := .first) rfl
    (fun _ _ _ _ h hs => h.step hs) h

/-- An accepted list, cut before a signal. -/
theorem protocol_cut {pre post : List Signal} {e : Signal}
    (h : (protocol maxTries).run .first (pre++e :: post) = some t) :
    ∃ v w, v.Shape maxTries pre ∧ (protocol maxTries).next v e = some w ∧
      (protocol maxTries).run w post = some t := by
  obtain ⟨v,w,hv,hw,hpost⟩ := (protocol maxTries).run_cut h
  exact ⟨v,w,protocol_shape hv,hw,hpost⟩

/-- An announced attempt is the next of an outage whose earlier attempts have all failed. -/
theorem protocol_reconnect {pre post : List Signal} {attempt : ℤ}
    (h : (protocol maxTries).run .first (pre++.reconnect attempt :: post) = some t) :
    ∃ q k, OutageStart q ∧ attempt = (k : ℕ)+1 ∧ pre = q++rounds k := by
  obtain ⟨v,w,hv,hw,_⟩ := protocol_cut h
  cases v with
  | down calls fails =>
    simp only [protocol] at hw
    split at hw
    · next hc =>
      obtain ⟨q,hq,⟨_,rfl⟩ | ⟨hcf,_⟩⟩ := hv
      · exact ⟨q,fails,hq,by rw [hc.2,hc.1],rfl⟩
      · omega
    · cases hw
  | _ => cases hw

/-- Giving up follows the failure of attempts 1 to `maxTries`, and nothing follows it. -/
theorem protocol_gaveUp {pre post : List Signal}
    (h : (protocol maxTries).run .first (pre++.gaveUp :: post) = some t) :
    post = [] ∧ 0 < maxTries ∧ ∃ q k, OutageStart q ∧ maxTries = (k : ℕ) ∧ pre = q++rounds k := by
  obtain ⟨v,w,hv,hw,hpost⟩ := protocol_cut h
  cases v with
  | down calls fails =>
    simp only [protocol] at hw
    split at hw <;> cases hw
    next hc =>
      refine ⟨?_,hc.2.2,?_⟩
      · cases post with
        | nil => rfl
        | cons e post => cases e <;> cases hpost
      · obtain ⟨q,hq,⟨hcf,rfl⟩ | ⟨hcf,_⟩⟩ := hv
        · exact ⟨q,fails,hq,by rw [hc.2.1,hcf],rfl⟩
        · omega
  | _ => cases hw

/-- Within an outage nothing is lost again before a connection is announced. -/
theorem protocol_outage (ht : t ≠ .up ∧ t ≠ .first) (h : (protocol maxTries).run t l = some u)
    (hc : .connect ∉ l) : l.count .lost = 0 := by
  induction l generalizing t with
  | nil => rfl
  | cons e l ih =>
    obtain ⟨v,hv,h⟩ := Option.bind_eq_some_iff.mp h
    rw [List.mem_cons,not_or] at hc
    obtain ⟨hne,hv'⟩ : e ≠ .lost ∧ v ≠ .up ∧ v ≠ .first := by
      cases t with
      | first => exact absurd rfl ht.2
      | up => exact absurd rfl ht.1
      | ended => cases e <;> cases hv
      | down calls fails =>
        cases e with
        | connect => exact absurd rfl hc.1
        | lost => cases hv
        | _ =>
          simp only [protocol] at hv
          split at hv <;> cases hv
          simp
    rw [List.count_cons_of_ne hne]
    exact ih hv' h hc.2

/-- Between two announced connections exactly one is lost. -/
theorem protocol_between {pre mid post : List Signal}
    (h : (protocol maxTries).run .first (pre++.connect :: (mid++.connect :: post)) = some t)
    (hc : .connect ∉ mid) : mid.count .lost = 1 := by
  obtain ⟨v,w,_,hw,h⟩ := protocol_cut h
  have hup : w = .up := by
    cases v with
    | first =>
      cases hw
      rfl
    | down calls fails =>
      simp only [protocol] at hw
      split at hw <;> cases hw
      rfl
    | _ => cases hw
  subst hup
  obtain ⟨x,hx,h⟩ := (protocol maxTries).run_append_some h
  cases mid with
  | nil =>
    cases hx
    cases h
  | cons e mid =>
    obtain ⟨y,hy,hx⟩ := Option.bind_eq_some_iff.mp hx
    cases e <;> cases hy
    rw [List.mem_cons,not_or] at hc
    rw [List.count_cons_self,protocol_outage ⟨by simp,by simp⟩ hx hc.2]

end WsClient.Connection

import Household.Proofs.Ledger.Rows
import Household.Proofs.Reminder.Course

/-!
# What a fan-out does

A fan-out begins with the listing of its targets. Once they are listed it
comes to an end whatever happens at the single targets, and its key is
recorded.
-/

set_option autoImplicit false

namespace Household.Reminder

open Household.Calendar Plan

variable {ω α β : Type} (answer : Handler ω) (stamp : ω → Moment)

/-! Pushes -/

section

variable (logger : String)

theorem reportTo_succeeds {h : Handler (Scene ω)} {P : Ledger → List Exchange → Ledger → Prop}
    (hP : Adds P) (level : Log.Level) (text : String) :
    Succeeds h P (reportTo logger level text) := succeeds_note hP _

theorem removeTarget_succeeds (endpoint : String) :
    Succeeds (withLedger answer stamp) Aside (removeTarget logger endpoint) := by
  have hcall := follows_call answer stamp (q := .removeEndpoint endpoint) rfl (by simp)
  refine Succeeds.bind adds_aside (succeeds_attempt hcall) fun r => ?_
  cases r with
  | ok a => exact succeeds_pure adds_aside ()
  | error e => exact reportTo_succeeds logger adds_aside _ _

theorem push_succeeds (kind : Kind) (payload : Payload) (t : Target) :
    Succeeds (withLedger answer stamp) Aside (push logger kind payload t) := by
  have hcall := follows_call answer stamp (q := .send t payload) rfl (by simp)
  refine Succeeds.bind adds_aside (succeeds_attempt hcall) fun r => ?_
  have reported (level : Log.Level) (text : String) :
      Succeeds (withLedger answer stamp) Aside (reportTo logger level text >>= fun _ => pure false) :=
    Succeeds.bind adds_aside (reportTo_succeeds logger adds_aside _ _)
      fun _ => succeeds_pure adds_aside _
  cases r with
  | ok a => exact succeeds_pure adds_aside true
  | error e =>
    cases e with
    | expired reason =>
      refine Succeeds.bind adds_aside (reportTo_succeeds logger adds_aside _ _) fun _ => ?_
      refine Succeeds.bind adds_aside (removeTarget_succeeds answer stamp logger _) fun _ => ?_
      exact succeeds_pure adds_aside false
    | _ => exact reported _ _

theorem pushIfEnabled_succeeds (household : Int) (kind : Kind) (payload : Payload) (t : Target) :
    Succeeds (withLedger answer stamp) Aside (pushIfEnabled logger household kind payload t) := by
  have hcall := follows_call answer stamp (q := .isEnabled t.user household kind) rfl (by simp)
  refine Succeeds.bind adds_aside (succeeds_attempt hcall) fun r => ?_
  cases r with
  | ok enabled =>
    cases enabled with
    | true => exact push_succeeds answer stamp logger kind payload t
    | false => exact succeeds_pure adds_aside false
  | error e =>
    exact Succeeds.bind adds_aside (reportTo_succeeds logger adds_aside _ _)
      fun _ => succeeds_pure adds_aside false

theorem pushAll_succeeds (household : Int) (kind : Kind) (payload : Payload)
    (excluded? : Option Int) (ts : List Target) (sent : Nat) :
    Succeeds (withLedger answer stamp) Aside
      (pushAll logger household kind payload excluded? ts sent) := by
  induction ts generalizing sent with
  | nil => exact succeeds_pure adds_aside sent
  | cons t ts ih =>
    rw [pushAll]
    split
    · exact ih sent
    · exact Succeeds.bind adds_aside
        (pushIfEnabled_succeeds answer stamp logger household kind payload t) fun ok => ih _

theorem deliver_ensures (household : Int) (kind : Kind) (payload : Payload)
    (excluded? : Option Int) (x : Scene ω) :
    Ensures (withLedger answer stamp) (deliver logger household kind payload excluded?) x
      (fun r xs l => ∃ reply after, xs = ⟨.targets household, reply⟩ :: after ∧
        r.isOk = reply.isOk ∧ Aside x.ledger after l) := by
  apply (ensures_call answer stamp x (q := .targets household) (by simp)).bind
  · rintro targets xs y ⟨rfl, hl⟩
    refine (pushAll_succeeds answer stamp logger household kind payload excluded? targets 0 y).mono ?_
    rintro r ys l ⟨⟨n, rfl⟩, hys⟩
    rw [hl] at hys
    exact ⟨.ok targets, ys, rfl, rfl, hys⟩
  · rintro e xs l ⟨rfl, hl⟩
    exact ⟨.error e, [], rfl, rfl, by simp, hl⟩

theorem deliver_record_ensures (key : Ledger.Key) {kind : Kind} {payload : Payload}
    {g : Nat → Plan β} (hg : ∀ n, Follows (withLedger answer stamp) Aside (g n)) (x : Scene ω) :
    Ensures (withLedger answer stamp)
      (deliver logger key.household kind payload none >>= fun sent =>
        call (.recordSent key) >>= fun _ => g sent) x
      (fun _ xs l => ∃ reply after, xs = ⟨.targets key.household, reply⟩ :: after ∧
        (∀ x ∈ after, x.request.isAside = true) ∧
        ∀ k, l.wasSent k = true ↔ x.ledger.wasSent k = true ∨ k = key ∧ reply.isOk = true) := by
  apply (deliver_ensures answer stamp logger key.household kind payload none x).bind
  · rintro sent xs y ⟨reply, after, rfl, hreply, hafter, hl⟩
    have hok : reply.isOk = true := hreply.symm
    apply (ensures_recordSent answer stamp y key).bind
    · rintro u xs z ⟨-, rfl, now, hz⟩
      refine (hg sent z).mono ?_
      rintro r ys l ⟨hys, rfl⟩
      refine ⟨reply, after ++ ⟨.recordSent key, .ok u⟩ :: ys, by simp, ?_, fun k => ?_⟩
      · rw [List.forall_mem_append, List.forall_mem_cons]
        exact ⟨hafter, rfl, hys⟩
      · rw [hz, Ledger.wasSent_record, hl, hok]
        simp
    · rintro e xs l ⟨he, -⟩
      simp at he
  · rintro e xs l ⟨reply, after, rfl, hreply, hafter, rfl⟩
    have hfailed : reply.isOk = false := hreply.symm
    exact ⟨reply, after, rfl, hafter, fun k => by simp [hfailed]⟩

end

end Household.Reminder

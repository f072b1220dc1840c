import Mathlib.Tactic

/-!
# Transition systems

A system is a partial function from a state and an event to the next state: an
event that cannot happen has no next state.  `run` follows a list of events.
`Meets ok` says that every event of a run meets the condition `ok` in the state
it happens in, and `run_invariant` carries an invariant along such runs.
-/

namespace Pintos.Foundation

variable {σ ε : Type}

def run (step : σ → ε → Option σ) : σ → List ε → Option σ
  | s, [] => some s
  | s, event :: events => (step s event).bind fun t => run step t events

lemma run_append (step : σ → ε → Option σ) (s : σ) (first second : List ε) :
    run step s (first ++ second) = (run step s first).bind fun t => run step t second := by
  induction first generalizing s with
  | nil => rfl
  | cons event events ih =>
    simp only [List.cons_append, run, Option.bind_assoc]
    congr 1
    funext t
    exact ih t

def Meets (step : σ → ε → Option σ) (ok : σ → ε → Prop) : σ → List ε → Prop
  | _, [] => True
  | s, event :: events => ok s event ∧ ∀ t ∈ step s event, Meets step ok t events

lemma Meets.cons {step : σ → ε → Option σ} {ok : σ → ε → Prop} {s t : σ} {event : ε}
    {events : List ε} (hok : ok s event) (hstep : step s event = some t)
    (hrest : Meets step ok t events) : Meets step ok s (event :: events) := by
  refine ⟨hok, fun u hu => ?_⟩
  rw [hstep] at hu
  exact Option.some.inj hu ▸ hrest

lemma Meets.of_forall {step : σ → ε → Option σ} {ok : σ → ε → Prop} {events : List ε}
    (h : ∀ event ∈ events, ∀ s, ok s event) (s : σ) : Meets step ok s events := by
  induction events generalizing s with
  | nil => trivial
  | cons event events ih =>
    rw [List.forall_mem_cons] at h
    exact ⟨h.1 s, fun t _ => ih h.2 t⟩

lemma Meets.mono {step : σ → ε → Option σ} {ok ok' : σ → ε → Prop}
    (h : ∀ s event, ok s event → ok' s event) {events : List ε} {s : σ}
    (hmeets : Meets step ok s events) : Meets step ok' s events := by
  induction events generalizing s with
  | nil => trivial
  | cons event events ih => exact ⟨h s event hmeets.1, fun t ht => ih (hmeets.2 t ht)⟩

instance decidableMeets (step : σ → ε → Option σ) (ok : σ → ε → Prop)
    [∀ s event, Decidable (ok s event)] :
    ∀ (events : List ε) (s : σ), Decidable (Meets step ok s events)
  | [], _ => inferInstanceAs (Decidable True)
  | event :: events, s =>
    have := decidableMeets step ok events
    inferInstanceAs (Decidable (ok s event ∧ ∀ t ∈ step s event, Meets step ok t events))

lemma run_invariant {step : σ → ε → Option σ} {ok : σ → ε → Prop} {I : σ → Prop}
    (hstep : ∀ s event t, I s → ok s event → step s event = some t → I t) {events : List ε}
    {s t : σ} (h : I s) (hok : Meets step ok s events) (ht : run step s events = some t) : I t := by
  induction events generalizing s with
  | nil =>
    simp only [run, Option.some.injEq] at ht
    exact ht ▸ h
  | cons event events ih =>
    obtain ⟨mid, hmid, hrest⟩ := Option.bind_eq_some_iff.mp ht
    exact ih (hstep s event mid h hok.1 hmid) (hok.2 mid hmid) hrest

lemma run_total {step : σ → ε → Option σ} {ok : σ → ε → Prop} {I : σ → Prop}
    (hstep : ∀ s event, I s → ok s event → ∃ t, step s event = some t ∧ I t) {events : List ε}
    {s : σ} (h : I s) (hok : Meets step ok s events) : ∃ t, run step s events = some t ∧ I t := by
  induction events generalizing s with
  | nil => exact ⟨s, rfl, h⟩
  | cons event events ih =>
    obtain ⟨mid, hmid, hI⟩ := hstep s event h hok.1
    obtain ⟨t, ht, hIt⟩ := ih hI (hok.2 mid hmid)
    exact ⟨t, by simp [run, hmid, ht], hIt⟩

lemma run_keeps {step : σ → ε → Option σ} {I : σ → Prop}
    (hstep : ∀ s event t, I s → step s event = some t → I t)
    {events : List ε} {s t : σ} (h : I s) (ht : run step s events = some t) : I t := by
  have hok : Meets step (fun _ _ => True) s events := .of_forall (fun _ _ _ => trivial) s
  exact run_invariant (fun s event t hI _ => hstep s event t hI) h hok ht

end Pintos.Foundation

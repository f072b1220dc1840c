import Mathlib.Tactic

/-!
# Stateful actions that may stop

An `Action` reads and updates a state and either returns a value or stops with
an error.  `Action.wp` is its total-correctness weakest precondition: an action
that stops satisfies no postcondition.  The lemmas below are the rules by which
every sequential proof of the development goes; no client unfolds `bind`.
`Action.outcome` is the variant for an action that may legitimately stop.
-/

namespace Pintos.Foundation

variable {P p : Prop} {τ : Type}

def Action (σ ε α : Type) : Type := σ → Except ε (α × σ)

namespace Action

variable {σ ε α β : Type}

instance : Monad (Action σ ε) where
  pure a := fun s => .ok (a, s)
  bind x f := fun s =>
    match x s with
    | .ok (a, t) => f a t
    | .error e => .error e

def get : Action σ ε σ := fun s => .ok (s, s)

def modify (f : σ → σ) : Action σ ε Unit := fun s => .ok ((), f s)

def stop (e : ε) : Action σ ε α := fun _ => .error e

def ofExcept (x : Except ε α) : Action σ ε α := fun s => x.map (·, s)

def require (p : Prop) [Decidable p] (e : ε) : Action σ ε Unit :=
  fun s => if p then .ok ((), s) else .error e

def zoom {τ : Type} (get : τ → σ) (set : τ → σ → τ) (x : Action σ ε α) : Action τ ε α := fun t =>
  match x (get t) with
  | .ok (a, s) => .ok (a, set t s)
  | .error e => .error e

def wp (x : Action σ ε α) (Q : α → σ → Prop) (s : σ) : Prop :=
  match x s with
  | .ok (a, t) => Q a t
  | .error _ => False

lemma wp_iff {x : Action σ ε α} {Q : α → σ → Prop} {s : σ} :
    wp x Q s ↔ ∃ a t, x s = .ok (a, t) ∧ Q a t := by
  unfold wp
  cases hx : x s with
  | error e => simp
  | ok r =>
    obtain ⟨a, t⟩ := r
    simp only [Except.ok.injEq, Prod.mk.injEq]
    constructor
    · intro h
      exact ⟨a, t, ⟨rfl, rfl⟩, h⟩
    · rintro ⟨_, _, ⟨rfl, rfl⟩, h⟩
      exact h

instance decidableWp (x : Action σ ε α) (Q : α → σ → Prop) [∀ a t, Decidable (Q a t)]
    (s : σ) : Decidable (wp x Q s) :=
  match h : x s with
  | .ok (a, t) => decidable_of_iff (Q a t) (by simp [wp, h])
  | .error _ => isFalse (by simp [wp, h])

lemma wp_of_ok {x : Action σ ε α} {Q : α → σ → Prop} {s t : σ} {a : α}
    (hx : x s = .ok (a, t)) : wp x Q s ↔ Q a t := by
  simp [wp, hx]

lemma eq_ok_of_wp {x : Action σ ε α} {s t : σ} {a : α}
    (h : wp x (fun b u => b = a ∧ u = t) s) : x s = .ok (a, t) := by
  obtain ⟨_, _, hx, rfl, rfl⟩ := wp_iff.mp h
  exact hx

lemma wp_mono {x : Action σ ε α} {Q R : α → σ → Prop} {s : σ}
    (h : wp x Q s) (hQR : ∀ a t, Q a t → R a t) : wp x R s := by
  obtain ⟨a, t, hx, hq⟩ := wp_iff.mp h
  exact wp_iff.mpr ⟨a, t, hx, hQR a t hq⟩

lemma wp_const {x : Action σ ε α} {s : σ} :
    wp x (fun _ _ => P) s ↔ P ∧ wp x (fun _ _ => True) s := by
  constructor
  · intro h
    obtain ⟨a, t, hx, hp⟩ := wp_iff.mp h
    exact ⟨hp, wp_iff.mpr ⟨a, t, hx, trivial⟩⟩
  · rintro ⟨hp, h⟩
    exact wp_mono h fun _ _ _ => hp

lemma wp_and {x : Action σ ε α} {Q R : α → σ → Prop} {s : σ}
    (hQ : wp x Q s) (hR : wp x R s) : wp x (fun a t => Q a t ∧ R a t) s := by
  obtain ⟨a, t, hx, hq⟩ := wp_iff.mp hQ
  obtain ⟨_, _, hx', hr⟩ := wp_iff.mp hR
  rw [hx] at hx'
  cases hx'
  exact wp_iff.mpr ⟨a, t, hx, hq, hr⟩

@[simp] lemma wp_pure (a : α) (Q : α → σ → Prop) (s : σ) :
    wp (pure a : Action σ ε α) Q s ↔ Q a s := Iff.rfl

@[simp] lemma wp_bind (x : Action σ ε α) (f : α → Action σ ε β) (Q : β → σ → Prop) (s : σ) :
    wp (x >>= f) Q s ↔ wp x (fun a t => wp (f a) Q t) s := by
  simp only [wp, bind]
  cases x s <;> rfl

@[simp] lemma wp_get (Q : σ → σ → Prop) (s : σ) : wp (get : Action σ ε σ) Q s ↔ Q s s := Iff.rfl

@[simp] lemma wp_modify (f : σ → σ) (Q : Unit → σ → Prop) (s : σ) :
    wp (modify f : Action σ ε Unit) Q s ↔ Q () (f s) := Iff.rfl

@[simp] lemma wp_stop (e : ε) (Q : α → σ → Prop) (s : σ) :
    wp (stop e : Action σ ε α) Q s ↔ False := Iff.rfl

@[simp] lemma wp_require (p : Prop) [Decidable p] (e : ε) (Q : Unit → σ → Prop) (s : σ) :
    wp (require p e : Action σ ε Unit) Q s ↔ p ∧ Q () s := by
  by_cases h : p <;> simp [wp, require, h]

lemma bind_assoc {γ : Type} (x : Action σ ε α) (f : α → Action σ ε β) (g : β → Action σ ε γ) :
    (x >>= f) >>= g = x >>= fun a => f a >>= g := by
  funext s
  simp only [bind]
  cases x s <;> rfl

lemma require_bind [Decidable p] (h : p) (e : ε) (f : Unit → Action σ ε α) :
    (require p e >>= f) = f () := by
  funext s
  simp [bind, require, h]

@[simp] lemma wp_zoom (get : τ → σ) (set : τ → σ → τ) (x : Action σ ε α) (Q : α → τ → Prop)
    (t : τ) : wp (zoom get set x) Q t ↔ wp x (fun a s => Q a (set t s)) (get t) := by
  simp only [wp, zoom]
  cases x (get t) <;> rfl

lemma wp_ofExcept {x : Except ε α} {a : α} (h : x = .ok a) (Q : α → σ → Prop) (s : σ) :
    wp (ofExcept x : Action σ ε α) Q s ↔ Q a s := by
  subst h
  exact Iff.rfl

lemma wp_ofExcept_iff {x : Except ε α} {Q : α → σ → Prop} {s : σ} :
    wp (ofExcept x) Q s ↔ ∃ a, x = .ok a ∧ Q a s := by
  cases x with
  | error e => simp [wp, ofExcept, Except.map]
  | ok a => simp [wp, ofExcept, Except.map]

@[simp] lemma wp_ite (p : Prop) [Decidable p] (x y : Action σ ε α) (Q : α → σ → Prop) (s : σ) :
    wp (if p then x else y) Q s ↔ if p then wp x Q s else wp y Q s := by
  by_cases h : p <;> simp [h]

/-! ## Actions that do not see a part of the state -/

def Commutes (f : σ → σ) (x : Action σ ε α) : Prop :=
  ∀ s Q, wp x Q (f s) ↔ wp x (fun a t => Q a (f t)) s

section Commutes

variable {f : σ → σ} {x y : Action σ ε α}

lemma commutes_pure (a : α) : Commutes f (pure a : Action σ ε α) := fun _ _ => Iff.rfl

lemma Commutes.bind {g : α → Action σ ε β} (hx : Commutes f x) (hg : ∀ a, Commutes f (g a)) :
    Commutes f (x >>= g) := by
  intro s Q
  simp only [wp_bind]
  rw [hx]
  exact iff_of_eq (congrArg (fun R => wp x R s) (by funext a t; exact propext (hg a t Q)))

lemma Commutes.ite [Decidable p] (hx : Commutes f x) (hy : Commutes f y) :
    Commutes f (if p then x else y) := by
  split
  · exact hx
  · exact hy

end Commutes

/-! ## Actions that may stop for a known reason -/

def outcome (x : Action σ ε α) (Q : α → σ → Prop) (E : ε → Prop) (s : σ) : Prop :=
  match x s with
  | .ok (a, t) => Q a t
  | .error e => E e

section Outcome

variable {Q R : α → σ → Prop} {E F : ε → Prop} {s : σ}

lemma outcome_of_wp {x : Action σ ε α} (h : wp x Q s) : outcome x Q E s := by
  obtain ⟨a, t, hx, hq⟩ := wp_iff.mp h
  simpa [outcome, hx] using hq

lemma wp_of_never {x : Action σ ε α} (h : outcome x Q (fun _ => False) s) : wp x Q s := h

lemma wp_of_outcome {x : Action σ ε α} (hwp : wp x Q s) (h : outcome x R E s) :
    wp x (fun a t => Q a t ∧ R a t) s := by
  obtain ⟨a, t, hx, hq⟩ := wp_iff.mp hwp
  rw [outcome, hx] at h
  exact wp_iff.mpr ⟨a, t, hx, hq, h⟩

lemma outcome_mono {x : Action σ ε α} (h : outcome x Q E s)
    (hQR : ∀ a t, Q a t → R a t) (hEF : ∀ e, E e → F e) : outcome x R F s := by
  unfold outcome at h ⊢
  cases hx : x s with
  | error e => simpa [hx] using hEF e (by simpa [hx] using h)
  | ok r => exact hQR _ _ (by simpa [hx] using h)

lemma outcome_of_stops (x : Action σ ε α) (s : σ) (h : P) :
    outcome x (fun _ _ => P) (fun _ => P) s := by
  unfold outcome
  cases x s <;> exact h

lemma eq_error_of_outcome {x : Action σ ε α} {e : ε}
    (h : outcome x (fun _ _ => False) (· = e) s) : x s = .error e := by
  unfold outcome at h
  cases hx : x s with
  | error e' => simpa [hx] using h
  | ok r => simp [hx] at h

lemma outcome_require [Decidable p] {e : ε} {Q : Unit → σ → Prop}
    (hQ : p → Q () s) (hE : ¬ p → E e) : outcome (require p e : Action σ ε Unit) Q E s := by
  by_cases h : p
  · simpa [outcome, require, h] using hQ h
  · simpa [outcome, require, h] using hE h

lemma outcome_ofExcept {x : Except ε α} {a : α} (h : x = .ok a) (Q : α → σ → Prop)
    (E : ε → Prop) (s : σ) : outcome (ofExcept x : Action σ ε α) Q E s ↔ Q a s := by
  subst h
  exact Iff.rfl

lemma outcome_and {x : Action σ ε α} (hQ : outcome x Q E s) (hR : outcome x R F s) :
    outcome x (fun a t => Q a t ∧ R a t) (fun e => E e ∧ F e) s := by
  unfold outcome at *
  cases hx : x s with
  | error e => simpa [hx] using ⟨by simpa [hx] using hQ, by simpa [hx] using hR⟩
  | ok r => exact ⟨by simpa [hx] using hQ, by simpa [hx] using hR⟩

@[simp] lemma outcome_pure (a : α) (Q : α → σ → Prop) (E : ε → Prop) (s : σ) :
    outcome (pure a : Action σ ε α) Q E s ↔ Q a s := Iff.rfl

@[simp] lemma outcome_bind (x : Action σ ε α) (f : α → Action σ ε β)
    (Q : β → σ → Prop) (E : ε → Prop) (s : σ) :
    outcome (x >>= f) Q E s ↔ outcome x (fun a t => outcome (f a) Q E t) E s := by
  simp only [outcome, bind]
  cases x s <;> rfl

@[simp] lemma outcome_zoom (get : τ → σ) (set : τ → σ → τ) (x : Action σ ε α)
    (Q : α → τ → Prop) (E : ε → Prop) (t : τ) :
    outcome (zoom get set x) Q E t ↔ outcome x (fun a s => Q a (set t s)) E (get t) := by
  simp only [outcome, zoom]
  cases x (get t) <;> rfl

@[simp] lemma outcome_get (Q : σ → σ → Prop) (E : ε → Prop) (s : σ) :
    outcome (get : Action σ ε σ) Q E s ↔ Q s s := Iff.rfl

@[simp] lemma outcome_modify (f : σ → σ) (Q : Unit → σ → Prop) (E : ε → Prop)
    (s : σ) : outcome (modify f : Action σ ε Unit) Q E s ↔ Q () (f s) := Iff.rfl

@[simp] lemma outcome_stop (e : ε) (Q : α → σ → Prop) (E : ε → Prop) (s : σ) :
    outcome (stop e : Action σ ε α) Q E s ↔ E e := Iff.rfl

end Outcome

end Action

export Action (eq_ok_of_wp outcome outcome_bind outcome_get outcome_modify outcome_mono
  outcome_ofExcept outcome_of_stops outcome_of_wp outcome_pure outcome_require outcome_stop
  outcome_zoom require stop wp wp_bind wp_get wp_iff wp_ite wp_modify wp_mono wp_ofExcept wp_of_ok
  wp_of_outcome wp_pure wp_require wp_zoom zoom)

/-! The facts of the library that every module uses. -/

export Function (update update_apply update_of_ne update_self)

export Option (isSome_iff_exists ite_none_right_eq_some some.inj some.injEq)

export List (append_assoc append_nil cons_append countP_cons count_append eq_of_mem_replicate
  filter_append filter_cons find?_cons_of_neg find?_cons_of_pos find?_some flatten_cons
  foldl_append foldl_cons forall_mem_cons getElem?_append_left getElem?_append_right
  getElem?_eq_getElem length_append length_cons length_eq_zero_iff length_flatten length_map
  length_nil length_replicate length_reverse length_singleton length_take map_append
  map_congr_left map_cons map_map map_nil mem_append mem_append_left mem_append_right mem_cons
  mem_cons_of_mem mem_cons_self mem_filter mem_map mem_map_of_mem mem_of_find?_eq_some
  mem_of_getElem? mem_of_mem_erase mem_range mem_singleton mem_singleton_self nil_append
  nodup_append nodup_cons nodup_nil not_mem_nil perm_middle range_succ replicate replicate_succ
  reverse_append reverse_cons)

end Pintos.Foundation

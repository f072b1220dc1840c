import Pintos.Foundation.Action
import Pintos.Foundation.Transition

/-!
# Sequences of operations

`runAll` performs a list of operations one after the other.  Two rules lift what
is known of one operation to every sequence: an invariant that each operation
keeps, and a simulation by an abstract model that answers as the operations do.
-/

namespace Pintos.Foundation

variable {σ ε α ι μ : Type}

def runAll (f : ι → Action σ ε α) : List ι → Action σ ε (List α)
  | [] => pure []
  | op :: ops => do
    let result ← f op
    let results ← runAll f ops
    return result :: results

lemma runAll_invariant {f : ι → Action σ ε α} {I : σ → Prop} {E : ε → Prop}
    (hstep : ∀ op s, I s → outcome (f op) (fun _ t => I t) E s) (ops : List ι)
    {s : σ} (h : I s) : outcome (runAll f ops) (fun _ t => I t) E s := by
  induction ops generalizing s with
  | nil => exact h
  | cons op ops ih =>
    simp only [runAll, outcome_bind, outcome_pure]
    exact outcome_mono (hstep op s h) (fun _ _ ht => ih ht) fun _ => id

/-- The model, started in `a`, answers `ops` with `results` and ends in the last state. -/
inductive Steps (step : μ → ι → α → μ → Prop) : μ → List ι → List α → μ → Prop
  | nil (a : μ) : Steps step a [] [] a
  | cons {a b c : μ} {op : ι} {ops : List ι} {result : α} {results : List α}
      (head : step a op result b) (tail : Steps step b ops results c) :
      Steps step a (op :: ops) (result :: results) c

/-- The run came to an operation for which `bad` holds, after all before it had been answered. -/
inductive StopsAt (step : μ → ι → α → μ → Prop) (bad : μ → ι → Prop) : μ → List ι → Prop
  | here {a : μ} {op : ι} (ops : List ι) (h : bad a op) : StopsAt step bad a (op :: ops)
  | later {a b : μ} {op : ι} {ops : List ι} {result : α} (head : step a op result b)
      (tail : StopsAt step bad b ops) : StopsAt step bad a (op :: ops)

lemma runAll_simulates {f : ι → Action σ ε α} {R : σ → μ → Prop}
    {step : μ → ι → α → μ → Prop} {bad : μ → ι → Prop} (hstep : ∀ op s a, R s a →
      outcome (f op) (fun r t => ∃ b, step a op r b ∧ R t b) (fun _ => bad a op) s)
    (ops : List ι) {s : σ} {a : μ} (h : R s a) :
    outcome (runAll f ops) (fun rs t => ∃ b, Steps step a ops rs b ∧ R t b)
      (fun _ => StopsAt step bad a ops) s := by
  induction ops generalizing s a with
  | nil => exact ⟨a, .nil a, h⟩
  | cons op ops ih =>
    simp only [runAll, outcome_bind, outcome_pure]
    refine outcome_mono (hstep op s a h) ?_ fun _ hbad => .here ops hbad
    rintro r t ⟨b, hhead, ht⟩
    refine outcome_mono (ih ht) ?_ fun _ htail => .later hhead htail
    rintro rs u ⟨c, htail, hu⟩
    exact ⟨c, .cons hhead htail, hu⟩

lemma runAll_refines {f : ι → Action σ ε α} {R : σ → μ → Prop} {step : μ → ι → α → μ → Prop}
    (hstep : ∀ op s a, R s a → wp (f op) (fun r t => ∃ b, step a op r b ∧ R t b) s)
    (ops : List ι) {s : σ} {a : μ} (h : R s a) :
    wp (runAll f ops) (fun rs t => ∃ b, Steps step a ops rs b ∧ R t b) s := by
  induction ops generalizing s a with
  | nil => exact ⟨a, .nil a, h⟩
  | cons op ops ih =>
    simp only [runAll, wp_bind, wp_pure]
    refine wp_mono (hstep op s a h) ?_
    rintro r t ⟨b, hhead, ht⟩
    refine wp_mono (ih ht) ?_
    rintro rs u ⟨c, htail, hu⟩
    exact ⟨c, .cons hhead htail, hu⟩

lemma runAll_follows {f : ι → Action σ ε α} {R : σ → μ → Prop} {next : μ → ι → μ}
    {ok : μ → ι → Prop} {answers : μ → ι → α → Prop} (hstep : ∀ op s a, R s a → ok a op →
      wp (f op) (fun r t => answers a op r ∧ R t (next a op)) s)
    (ops : List ι) {s : σ} {a : μ} (h : R s a)
    (hok : Meets (fun a op => some (next a op)) ok a ops) : wp (runAll f ops) (fun rs t =>
      Steps (fun a op r b => answers a op r ∧ b = next a op) a ops rs (ops.foldl next a) ∧
        R t (ops.foldl next a)) s := by
  induction ops generalizing s a with
  | nil => exact ⟨.nil a, h⟩
  | cons op ops ih =>
    simp only [runAll, wp_bind, wp_pure]
    refine wp_mono (hstep op s a h hok.1) ?_
    rintro r t ⟨hanswer, ht⟩
    refine wp_mono (ih ht (hok.2 _ rfl)) ?_
    rintro rs u ⟨htail, hu⟩
    exact ⟨.cons ⟨hanswer, rfl⟩ htail, hu⟩

end Pintos.Foundation

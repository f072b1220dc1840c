import Mathlib.Tactic

/-!
# Exclusive ownership of resources

`Owned live occupies used` says that the live owners hold pairwise disjoint
sets of resources and that everything they hold is marked used.  An allocator
is safe when each of its moves is one of the three below.
-/

namespace Pintos.Foundation

structure Owned {ι α : Type} (live : ι → Prop) (occupies : ι → α → Prop)
    (used : α → Prop) : Prop where
  used_of_occupies : ∀ {i a}, live i → occupies i a → used a
  owner_unique : ∀ {i j a}, live i → live j → occupies i a → occupies j a → i = j

namespace Owned

variable {ι α : Type} {live live' : ι → Prop} {occupies occupies' : ι → α → Prop}
variable {used used' : α → Prop}

section

variable (h : Owned live occupies used)

include h

lemma not_occupied_of_unused {i : ι} {a : α}
    (hlive : live i) (hfree : ¬ used a) : ¬ occupies i a := fun ho =>
  hfree (h.used_of_occupies hlive ho)

lemma restrict (hlive : ∀ i, live' i → live i)
    (hocc : ∀ i a, live' i → occupies' i a → occupies i a)
    (hused : ∀ a, used a → used' a) : Owned live' occupies' used' where
  used_of_occupies hi ho := hused _ (h.used_of_occupies (hlive _ hi) (hocc _ _ hi ho))
  owner_unique hi hj ho ho' :=
    h.owner_unique (hlive _ hi) (hlive _ hj) (hocc _ _ hi ho) (hocc _ _ hj ho')

lemma claim (owner : ι) (hlive : ∀ i, live' i → i = owner ∨ live i)
    (hocc : ∀ i a, live' i → i ≠ owner → occupies' i a → occupies i a)
    (hfree : ∀ i a, live i → occupies' owner a → ¬ occupies i a)
    (hown : ∀ a, occupies' owner a → used' a)
    (hused : ∀ a, used a → used' a) : Owned live' occupies' used' where
  used_of_occupies {i a} hi ho := by
    by_cases hnew : i = owner
    · exact hown a (hnew ▸ ho)
    have hold := (hlive i hi).resolve_left hnew
    exact hused a (h.used_of_occupies hold (hocc i a hi hnew ho))
  owner_unique {i j a} hi hj ho ho' := by
    -- a resource of the new owner is held by no old one
    have clash : ∀ k, live' k → k ≠ owner → occupies' k a → ¬ occupies' owner a := by
      intro k hk hne hka hoa
      exact hfree k a ((hlive k hk).resolve_left hne) hoa (hocc k a hk hne hka)
    by_cases hi' : i = owner <;> by_cases hj' : j = owner
    · rw [hi', hj']
    · exact absurd (hi' ▸ ho) (clash j hj hj' ho')
    · exact absurd (hj' ▸ ho') (clash i hi hi' ho)
    exact h.owner_unique ((hlive i hi).resolve_left hi')
      ((hlive j hj).resolve_left hj') (hocc i a hi hi' ho) (hocc j a hj hj' ho')

end

end Owned

end Pintos.Foundation

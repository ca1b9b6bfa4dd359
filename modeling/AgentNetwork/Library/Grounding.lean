import Mathlib.Data.Set.Card
import Mathlib.Logic.Relation

/-! The well-founded part of a dependency relation. -/

namespace Grounding

open Relation

variable {α : Type} {P Q : α → Prop} {dep dep' : α → α → Prop} {a b : α}

/-- Grounded elements are present and depend on grounded elements only. -/
inductive Grounded (P : α → Prop) (dep : α → α → Prop) : α → Prop
  | intro {a : α} : P a → (∀ b, dep a b → Grounded P dep b) → Grounded P dep a

theorem Grounded.present (h : Grounded P dep a) : P a := by
  cases h with
  | intro hp _ => exact hp

theorem Grounded.next (h : Grounded P dep a) (hdep : dep a b) : Grounded P dep b := by
  cases h with
  | intro _ hdeps => exact hdeps b hdep

theorem Grounded.trans (h : Grounded P dep a) (hdep : TransGen dep a b) : Grounded P dep b := by
  induction hdep with
  | single hd => exact h.next hd
  | tail _ hd ih => exact ih.next hd

/-- More elements may become present; those that are keep their dependencies. -/
theorem Grounded.mono (h : Grounded P dep a) (hPQ : ∀ x, P x → Q x) (hdep : ∀ x b, P x → dep' x b → dep x b) :
    Grounded Q dep' a := by
  induction h with
  | intro hp _ ih => exact .intro (hPQ _ hp) fun b hb => ih b (hdep _ b hp hb)

/-- It is enough that what `a` reaches stays present. -/
theorem Grounded.restrict (h : Grounded P dep a) (hQ : ∀ b, ReflTransGen dep a b → Q b)
    (hdep : ∀ x b, Q x → dep' x b → dep x b) : Grounded Q dep' a := by
  induction h with
  | @intro a _ _ ih =>
    have ha : Q a := hQ a .refl
    refine .intro ha ?_
    intro b hb
    have hab := hdep a b ha hb
    exact ih b hab fun x hx => hQ x (.head hab hx)

theorem Grounded.acyclic (h : Grounded P dep a) : ¬TransGen dep a a := by
  induction h with
  | @intro a _ _ ih =>
    intro hcycle
    obtain ⟨c, hac, hca⟩ := TransGen.head'_iff.mp hcycle
    exact ih c hac (TransGen.tail' hca hac)

/-- Among finitely many present elements the grounded ones are those whose
dependencies are all present and that reach no cycle. -/
theorem grounded_iff (hfinite : {x | P x}.Finite) : Grounded P dep a ↔
    P a ∧ (∀ b, TransGen dep a b → P b) ∧ ∀ b, ReflTransGen dep a b → ¬TransGen dep b b := by
  constructor
  · intro h
    refine ⟨h.present, fun b hb => (h.trans hb).present, ?_⟩
    intro b hb
    obtain rfl | hb := reflTransGen_iff_eq_or_transGen.mp hb
    · exact h.acyclic
    · exact (h.trans hb).acyclic
  · intro h
    -- each dependency has strictly fewer dependencies
    induction hn : {x | TransGen dep a x}.ncard using Nat.strongRecOn generalizing a with
    | _ n ih =>
      obtain ⟨hp, hall, hacyclic⟩ := h
      refine .intro hp ?_
      intro c hac
      have hsub : {x | TransGen dep c x} ⊆ {x | TransGen dep a x} := fun x hx => TransGen.head hac hx
      have hstrict : {x | TransGen dep c x} ⊂ {x | TransGen dep a x} := by
        refine ⟨hsub, ?_⟩
        intro hback
        exact hacyclic c (.single hac) (hback (TransGen.single hac))
      have hfin : {x | TransGen dep a x}.Finite := hfinite.subset hall
      have hless := Set.ncard_lt_ncard hstrict hfin
      refine ih _ (hn ▸ hless) ⟨hall c (.single hac), fun b hb => hall b (.head hac hb), ?_⟩ rfl
      intro b hb
      exact hacyclic b (.head hac hb)

end Grounding

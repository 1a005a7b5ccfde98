import SqlTree.Pass.Basic
import SqlTree.Proofs.Lists

/-! # Steps of a pass

A step succeeds or fails, and leaves a state in either case. A sequence of steps stops at the first
failure. -/

namespace SqlTree

namespace Run

/-! ## Success and failure -/

variable {σ α β : Type}

theorem bind_apply (x : Run σ α) (f : α → Run σ β) (s : σ) :
    (x >>= f) s = ExceptT.bindCont f (x s).1 (x s).2 := rfl

theorem bind_ok {x : Run σ α} {f : α → Run σ β} {s t : σ} {a : α} (h : x s = (.ok a, t)) :
    (x >>= f) s = f a t := by
  rw [bind_apply, h]
  rfl

theorem bind_error {x : Run σ α} {f : α → Run σ β} {s t : σ} {e : Error}
    (h : x s = (.error e, t)) : (x >>= f) s = (.error e, t) := by
  rw [bind_apply, h]
  rfl

theorem map_ok {x : Run σ α} {f : α → β} {s t : σ} {a : α} (h : x s = (.ok a, t)) :
    (f <$> x) s = (.ok (f a), t) := by
  rw [map_eq_pure_bind]
  exact bind_ok h

theorem map_error {x : Run σ α} {f : α → β} {s t : σ} {e : Error} (h : x s = (.error e, t)) :
    (f <$> x) s = (.error e, t) := by
  rw [map_eq_pure_bind]
  exact bind_error h

theorem bind_eq_ok {x : Run σ α} {f : α → Run σ β} {s u : σ} {b : β}
    (h : (x >>= f) s = (.ok b, u)) : ∃ a t, x s = (.ok a, t) ∧ f a t = (.ok b, u) := by
  cases hx : x s with
  | mk r t =>
      cases r with
      | error e =>
          rw [bind_error hx] at h
          cases h
      | ok a =>
          rw [bind_ok hx] at h
          exact ⟨a, t, rfl, h⟩

/-! ## Results of successful steps -/

/-- Whenever a step succeeds, its result has a property. -/
def Ensures (P : α → Prop) (x : Run σ α) : Prop := ∀ s a t, x s = (.ok a, t) → P a

variable {P : α → Prop} {Q : β → Prop} {x : Run σ α}

theorem ensures_true (x : Run σ α) : Ensures (fun _ => True) x := fun _ _ _ _ => trivial

theorem Ensures.bind {f : α → Run σ β} (hx : Ensures P x) (hf : ∀ a, P a → Ensures Q (f a)) :
    Ensures Q (x >>= f) := by
  intro s b u h
  obtain ⟨a, t, ha, hb⟩ := bind_eq_ok h
  exact hf a (hx s a t ha) t b u hb

theorem ensures_pure {a : α} (h : P a) : Ensures P (pure a : Run σ α) := by
  intro s b t hb
  cases hb
  exact h

theorem Ensures.map {f : α → β} (hx : Ensures P x) (hf : ∀ a, P a → Q (f a)) :
    Ensures Q (f <$> x) := by
  rw [map_eq_pure_bind]
  exact hx.bind fun a ha => ensures_pure (hf a ha)

theorem ensures_mapM {R : α → β → Prop} {f : α → Run σ β} {as : List α}
    (h : ∀ a ∈ as, Ensures (R a) (f a)) : Ensures (List.Forall₂ R as) (as.mapM f) := by
  induction as with
  | nil => exact ensures_pure .nil
  | cons a as ih =>
      obtain ⟨ha, has⟩ := List.forall_mem_cons.mp h
      rw [List.mapM_cons]
      refine ha.bind fun b hb => (ih has).bind fun bs hbs => ?_
      exact ensures_pure (.cons hb hbs)

/-- Functions that agree on all results of a step do the same to it. -/
theorem Ensures.map_congr {f g : α → β} (hx : Ensures P x) (h : ∀ a, P a → f a = g a) :
    f <$> x = g <$> x := by
  funext s
  cases hr : x s with
  | mk r t =>
      cases r with
      | error e => rw [map_error hr, map_error hr]
      | ok a => rw [map_ok hr, map_ok hr, h a (hx s a t hr)]

end Run

end SqlTree

import Mathlib.Data.List.Forall2
import Mathlib.Data.List.SplitLengths

/-! # Lists

A field of a statement may hold a list or none. A loop over a list stops at the first failure, and
a loop over several lists is one over all of their items. -/

namespace SqlTree

theorem map_intersperse {α β : Type} (f : α → β) (s : α) (xs : List α) :
    (xs.intersperse s).map f = (xs.map f).intersperse (f s) := by
  induction xs with
  | nil => rfl
  | cons x xs ih =>
      cases xs with
      | nil => rfl
      | cons y ys =>
          rw [List.intersperse_cons_cons, List.map_cons, List.map_cons, ih]
          rfl

theorem lookup_map {α β γ : Type} [BEq α] (f : β → γ) (k : α) (xs : List (α × β)) :
    (xs.map fun x => (x.1, f x.2)).lookup k = (xs.lookup k).map f := by
  induction xs with
  | nil => rfl
  | cons x xs ih =>
      rw [List.map_cons, List.lookup_cons, List.lookup_cons, ih]
      cases k == x.1 <;> rfl

/-! ## Lists that may be missing -/

theorem getD_map {α β : Type} (g : α → β) (xs : Option (List α)) :
    (xs.map (·.map g)).getD [] = (xs.getD []).map g := by
  cases xs <;> rfl

theorem sizeOf_lt_of_mem_getD {α : Type} [SizeOf α] {x : α} {xs : Option (List α)}
    (h : x ∈ xs.getD []) : sizeOf x + 1 < sizeOf xs := by
  cases xs with
  | none => simp at h
  | some xs =>
      have hx : sizeOf x < sizeOf xs := List.sizeOf_lt_of_mem h
      simp only [Option.some.sizeOf_spec]
      omega

/-- A list is there again, once it is known whether one is. -/
theorem map_const_getD {α : Type} {x y : Option (List α)} (h : y.isSome = x.isSome) :
    (x.map fun _ => y.getD []) = y := by
  cases x <;> cases y <;> first | rfl | cases h

theorem isSome_eq_of_lengths {α : Type} {x y : Option (List α)}
    (h : y.map List.length = x.map List.length) : y.isSome = x.isSome := by
  simpa using congrArg Option.isSome h

/-! ## Lists cut into pieces -/

theorem splitLengths_flatten {α : Type} (xss : List (List α)) :
    (xss.map List.length).splitLengths xss.flatten = xss := by
  induction xss with
  | nil => rfl
  | cons xs xss ih => simp [ih]

theorem forall₂_splitLengths {α β : Type} {R : α → β → Prop} {xss : List (List α)}
    {ys : List β} (h : List.Forall₂ R xss.flatten ys) :
    List.Forall₂ (List.Forall₂ R) xss ((xss.map List.length).splitLengths ys) := by
  induction xss generalizing ys with
  | nil => exact .nil
  | cons xs xss ih =>
      have ht := List.forall₂_take xs.length h
      have hd := List.forall₂_drop xs.length h
      simp only [List.flatten_cons, List.take_left', List.drop_left'] at ht hd
      simpa using ⟨ht, ih hd⟩

/-! ## Going over a list -/

section

variable {m : Type → Type} [Monad m] [LawfulMonad m] {α β γ : Type}

theorem mapM_congr {f g : α → m β} {xs : List α} (h : ∀ x ∈ xs, f x = g x) :
    xs.mapM f = xs.mapM g := by
  induction xs with
  | nil => rfl
  | cons x xs ih =>
      obtain ⟨hx, hxs⟩ := List.forall_mem_cons.mp h
      rw [List.mapM_cons, List.mapM_cons, hx, ih hxs]

theorem map_mapM (g : β → γ) (f : α → m β) (xs : List α) :
    List.map g <$> xs.mapM f = xs.mapM fun x => g <$> f x := by
  induction xs with
  | nil => simp
  | cons x xs ih => simp [← ih]

theorem mapM_attach (xs : List α) (f : α → m β) : (xs.attach.mapM fun x => f x.1) = xs.mapM f := by
  have h := List.mapM_map (l := xs.attach) (f := Subtype.val) (g := f)
  rw [List.attach_map_subtype_val] at h
  exact h.symm

/-- Going over lists one after the other is going over all of their items. -/
theorem mapM_mapM (f : α → m β) (xss : List (List α)) :
    xss.mapM (·.mapM f) = (xss.map List.length).splitLengths <$> xss.flatten.mapM f := by
  induction xss with
  | nil => simp
  | cons xs xss ih =>
      induction xs with
      | nil =>
          have h0 (ys : List β) : (0 :: xss.map List.length).splitLengths ys =
              [] :: (xss.map List.length).splitLengths ys := by simp
          simp [ih, funext h0]
      | cons x xs ihx =>
          calc ((x :: xs) :: xss).mapM (·.mapM f)
            _ = f x >>= fun y => List.modifyHead (y :: ·) <$> (xs :: xss).mapM (·.mapM f) := by
              simp
            _ = _ := by
              rw [ihx]
              simp

end

theorem mapM_eq_ok {α β ε : Type} {f : α → Except ε β} {xs : List α} {ys : List β} :
    xs.mapM f = .ok ys ↔ List.Forall₂ (fun x y => f x = .ok y) xs ys := by
  induction xs generalizing ys with
  | nil => simp [pure, Except.pure, eq_comm]
  | cons x xs ih =>
      rw [List.mapM_cons, List.forall₂_cons_left_iff]
      cases hx : f x with
      | error e => simp [bind, Except.bind]
      | ok y =>
          cases hxs : xs.mapM f with
          | error e =>
              simp only [hxs, reduceCtorEq, false_iff] at ih
              simp [bind, Except.bind, ih]
          | ok zs =>
              simp only [hxs, Except.ok.injEq] at ih
              simp [bind, Except.bind, pure, Except.pure, ← ih, eq_comm]

end SqlTree

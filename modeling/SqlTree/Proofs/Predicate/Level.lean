import Mathlib.Tactic.Tauto
import SqlTree.Proofs.Predicate.Reader

/-! # What parts spell

Parts spell an expression at a level if they may stand wherever an operand of that level may, and
are read as the expression there. -/

namespace SqlTree

/-- How tightly an expression is bound, the loosest level first. -/
inductive Level where
  | or | and | not | binary | operand
deriving DecidableEq, Repr

def Level.rank : Level → Nat
  | .or => 0
  | .and => 1
  | .not => 2
  | .binary => 3
  | .operand => 4

namespace Part

variable {d : Dialect} {vs : List Value}

/-! ## Runs of a connective -/

theorem readRun_append {c : Connective} {read : List Part → Option Expr} {is js : List Part}
    {i : Part} {e f : Expr} (hi : isConnective c i = true) (he : readRun c read is = some e)
    (hf : readRun c read js = some f) :
    readRun c read (is ++ i :: js) = some (.combine c e f) := by
  obtain ⟨es, hes, he⟩ := Option.bind_eq_some_iff.mp he
  obtain ⟨fs, hfs, hf⟩ := Option.bind_eq_some_iff.mp hf
  rw [readRun, List.splitOnP_append_cons is js hi, List.mapM_append, hes, hfs]
  exact Expr.joined_append he hf

theorem readRun_of_whole {c : Connective} {read : List Part → Option Expr} {is : List Part}
    (h : ∀ i ∈ is, isConnective c i = false) : readRun c read is = read is := by
  rw [readRun, List.splitOnP_eq_singleton h]
  cases hr : read is with
  | none => simp [hr]
  | some e => simp [hr, Expr.joined]

/-! ## Levels -/

/-- Whether a part ends an operand of a level. -/
def isBreak : Level → Part → Bool
  | .or, i => i.isComma
  | .and, i => i.isComma || i.isConnective .or
  | _, i => i.isComma || i.isConnective .or || i.isConnective .and

/-- Whether parts begin with a part of a kind. -/
def begins (p : Part → Bool) (is : List Part) : Bool := is.head?.any p

/-- Parts that are read as an expression at a level. An operand is read as such whatever follows,
except for a point, which may continue the name of a column. -/
def Spells (d : Dialect) (vs : List Value) (l : Level) (is : List Part) (e : Expr) : Prop :=
  (∀ i ∈ is, i.isBreak l = false) ∧
    match l with
    | .or => readOr d vs is = some e
    | .and => readAnd d vs is = some e
    | .not => readNot d vs is = some e
    | .binary => begins isNot is = false ∧ readBinary d vs is = some e
    | .operand => begins isNot is = false ∧ is ≠ [] ∧
      ∀ js, begins (any (· = .symbol ".")) js = false → operand? vs (is ++ js) = some (e, js)

variable {is js : List Part} {e f : Expr}

theorem Spells.binary_of_operand (h : Spells d vs .operand is e) : Spells d vs .binary is e := by
  obtain ⟨hw, hn, -, hr⟩ := h
  refine ⟨hw, hn, ?_⟩
  have ho := hr [] rfl
  rw [List.append_nil] at ho
  rw [readBinary, ho]
  rfl

theorem Spells.not_of_binary (h : Spells d vs .binary is e) : Spells d vs .not is e := by
  obtain ⟨hw, hn, hr⟩ := h
  refine ⟨hw, ?_⟩
  cases is with
  | nil => cases hr
  | cons i is =>
      have hi : i.isNot = false := hn
      rw [readNot, hi]
      exact hr

theorem Spells.and_of_not (h : Spells d vs .not is e) : Spells d vs .and is e := by
  obtain ⟨hw, hr⟩ := h
  simp only [isBreak, Bool.or_eq_false_iff] at hw
  refine ⟨fun i hi => ?_, (readRun_of_whole fun i hi => (hw i hi).2).trans hr⟩
  rw [isBreak, (hw i hi).1.1, (hw i hi).1.2]
  rfl

theorem Spells.or_of_and (h : Spells d vs .and is e) : Spells d vs .or is e := by
  obtain ⟨hw, hr⟩ := h
  simp only [isBreak, Bool.or_eq_false_iff] at hw
  exact ⟨fun i hi => (hw i hi).1, (readRun_of_whole fun i hi => (hw i hi).2).trans hr⟩

/-- What may stand as an operand of a level may stand as one of any looser level. -/
theorem Spells.mono {l m : Level} (hl : l.rank ≤ m.rank) (h : Spells d vs m is e) :
    Spells d vs l is e := by
  have hb := @Spells.binary_of_operand d vs is e
  have hn := @Spells.not_of_binary d vs is e
  have ha := @Spells.and_of_not d vs is e
  have ho := @Spells.or_of_and d vs is e
  cases l <;> cases m <;> first | exact absurd hl (by decide) | tauto

/-! ## Expressions put together -/

theorem forall_append_cons {p : Part → Prop} {i : Part} (hi : ∀ j ∈ is, p j) (h : p i)
    (hj : ∀ j ∈ js, p j) : ∀ j ∈ is ++ i :: js, p j :=
  List.forall_mem_append.mpr ⟨hi, List.forall_mem_cons.mpr ⟨h, hj⟩⟩

theorem Spells.or (h : Spells d vs .or is e) (h' : Spells d vs .or js f) :
    Spells d vs .or (is ++ .token (.word "OR") :: js) (.combine .or e f) :=
  ⟨forall_append_cons h.1 rfl h'.1, readRun_append (by decide) h.2 h'.2⟩

theorem Spells.and (h : Spells d vs .and is e) (h' : Spells d vs .and js f) :
    Spells d vs .and (is ++ .token (.word "AND") :: js) (.combine .and e f) :=
  ⟨forall_append_cons h.1 (by decide) h'.1, readRun_append (by decide) h.2 h'.2⟩

theorem Spells.not (h : Spells d vs .not is e) :
    Spells d vs .not (.token (.word "NOT") :: is) (.not e) := by
  refine ⟨List.forall_mem_cons.mpr ⟨by decide, h.1⟩, ?_⟩
  have hn : isNot (.token (.word "NOT")) = true := by decide
  have hr : readNot d vs is = some e := h.2
  rw [readNot, if_pos hn, hr]
  rfl

theorem Spells.neg (h : Spells d vs .operand is e) :
    Spells d vs .operand (.token (.symbol "-") :: is) (.neg e) := by
  refine ⟨List.forall_mem_cons.mpr ⟨by decide, h.1⟩, rfl, List.cons_ne_nil _ _, fun js hj => ?_⟩
  rw [List.cons_append, operand?, h.2.2.2 js hj]
  rfl

theorem Spells.ne_nil {l : Level} (h : Spells d vs l is e) : is ≠ [] := by
  have hr := (h.mono (Nat.zero_le _) : Spells d vs .or is e).2
  rintro rfl
  cases hr

/-! ## Parentheses -/

theorem spells_group (e : Expr) : Spells d vs .operand [.group [e]] e :=
  ⟨by simp [isBreak, isComma, isConnective, any], rfl, by simp, fun _ _ => rfl⟩

theorem Spells.readAll (h : Spells d vs .or is e) : readAll d vs is = some [e] := by
  have hc : ∀ i ∈ is, isComma i = false := h.1
  have hr : readOr d vs is = some e := h.2
  rw [Part.readAll, if_neg (by simpa using h.ne_nil), List.splitOnP_eq_singleton hc]
  simp [hr]

theorem Spells.readAll_cons {es : List Expr} (h : Spells d vs .or is e) (hn : es ≠ [])
    (hj : Part.readAll d vs js = some es) :
    Part.readAll d vs (is ++ .token (.symbol ",") :: js) = some (e :: es) := by
  have hc : ∀ i ∈ is, isComma i = false := h.1
  have hr : readOr d vs is = some e := h.2
  have hjs : js ≠ [] := by
    rintro rfl
    cases hj
    exact hn rfl
  rw [Part.readAll, if_neg (by simpa using hjs)] at hj
  rw [Part.readAll, if_neg (by simp), List.splitOnP_append_cons is js (by decide),
    List.splitOnP_eq_singleton hc, List.singleton_append, List.mapM_cons, hr, hj]
  rfl

end Part

end SqlTree

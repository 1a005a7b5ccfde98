import Mathlib.Data.List.TakeWhile
import SqlTree.Proofs.Building.Built

/-! # Dotted names

A name is read by cutting it at its last dot. The reference that is read still spells the name, so
that no two names are read as the same reference. -/

namespace SqlTree

namespace Node

/-! ## Cutting a text at its last dot -/

theorem splitLastDot_append {p q : List Char} (hq : '.' ∉ q) :
    splitLastDot (p ++ '.' :: q) = some (p, q) := by
  have hall : ∀ c ∈ q.reverse, (c != '.') = true := by
    intro c hc
    rw [bne_iff_ne]
    rintro rfl
    exact hq (List.mem_reverse.mp hc)
  have hlast : ((p ++ '.' :: q).reverse.takeWhile (· != '.')).reverse = q := by
    rw [List.reverse_append, List.reverse_cons, List.append_assoc,
      List.takeWhile_append_of_pos hall]
    simp
  have hlen : (p ++ '.' :: q).length = p.length + (q.length + 1) := by simp
  rw [splitLastDot, hlast, if_neg (by omega),
    show (p ++ '.' :: q).length - q.length - 1 = p.length by omega, List.take_left]

theorem splitLastDot_of_not_mem {cs : List Char} (h : '.' ∉ cs) : splitLastDot cs = none := by
  have hall : ∀ c ∈ cs.reverse, (c != '.') = true := by
    intro c hc
    rw [bne_iff_ne]
    rintro rfl
    exact h (List.mem_reverse.mp hc)
  rw [splitLastDot, List.takeWhile_eq_self_iff.mpr hall, List.reverse_reverse]
  exact if_pos rfl

/-- A text without a dot, or what stands before and behind its last one. -/
theorem dotted_induction {P : String → Prop} (plain : ∀ s : String, '.' ∉ s.toList → P s)
    (cut : ∀ t c : String, '.' ∉ c.toList → P (t ++ "." ++ c)) (s : String) : P s := by
  by_cases h : '.' ∈ s.toList
  · obtain ⟨q, p, hs, hq⟩ := List.eq_append_cons_of_mem (List.mem_reverse.mpr h)
    have hsplit : s = String.ofList p.reverse ++ "." ++ String.ofList q.reverse := by
      rw [← String.toList_inj]
      simpa using congrArg List.reverse hs
    rw [hsplit]
    exact cut _ _ (by simpa using hq)
  · exact plain s h

theorem cut_inj {t u c d : String} (hc : '.' ∉ c.toList) (hd : '.' ∉ d.toList)
    (h : t ++ "." ++ c = u ++ "." ++ d) : t = u ∧ c = d := by
  have hl : t.toList ++ '.' :: c.toList = u.toList ++ '.' :: d.toList := by
    simpa using congrArg String.toList h
  have hs := congrArg splitLastDot hl
  rw [splitLastDot_append hc, splitLastDot_append hd, Option.some.injEq, Prod.mk.injEq,
    String.toList_inj, String.toList_inj] at hs
  exact hs

/-! ## Reading a name -/

/-- A name that lacks a part: it is empty, or there is nothing before or behind its last dot. -/
def LacksPart (s : String) : Prop :=
  s = "" ∨ ∃ t c : String, s = t ++ "." ++ c ∧ '.' ∉ c.toList ∧ (t = "" ∨ c = "")

theorem lacksPart_plain {s : String} (h : '.' ∉ s.toList) : LacksPart s ↔ s = "" := by
  refine ⟨?_, .inl⟩
  rintro (hs | ⟨t, c, rfl, -⟩)
  · exact hs
  · simp at h

theorem lacksPart_cut {t c : String} (h : '.' ∉ c.toList) :
    LacksPart (t ++ "." ++ c) ↔ t = "" ∨ c = "" := by
  refine ⟨?_, fun hp => .inr ⟨t, c, rfl, h, hp⟩⟩
  rintro (hs | ⟨u, d, hs, hd, hp⟩)
  · simpa using congrArg String.toList hs
  · obtain ⟨rfl, rfl⟩ := cut_inj h hd hs
    exact hp

theorem dotted_plain {s : String} (h : '.' ∉ s.toList) :
    dotted s = if s = "" then .error (.invalid .identifier .emptyName)
      else .ok (columnRef ⟨⟨s⟩⟩ none) := by
  rw [dotted, splitLastDot_of_not_mem h]
  by_cases hs : s = ""
  · subst hs
    rfl
  · rw [if_neg hs]
    simp [Column.ofString_eq_ok.mpr ⟨hs, rfl⟩, bind, Except.bind, pure, Except.pure]

/-- What stands behind the last dot is read first, and is not a column if it is a star. -/
theorem dotted_cut {t c : String} (h : '.' ∉ c.toList) :
    dotted (t ++ "." ++ c) = if t = "" ∨ c = "" then .error (.invalid .identifier .emptyName)
      else if c = "*" then .ok (allOf ⟨none, ⟨t⟩⟩)
      else .ok (columnRef ⟨⟨c⟩⟩ (some ⟨none, ⟨t⟩⟩)) := by
  have hcut : (t ++ "." ++ c).toList = t.toList ++ '.' :: c.toList := by simp
  have hstar : c.toList = ['*'] ↔ c = "*" := by
    rw [← String.toList_inj]
    rfl
  have hname (s : String) : Identifier.ofString s
      = if s = "" then .error (.invalid .identifier .emptyName) else .ok ⟨s⟩ := by
    simp [Identifier.ofString]
  rw [dotted, hcut, splitLastDot_append h]
  simp only [String.ofList_toList, hstar, Table.ofString, Column.ofString, hname]
  by_cases hc : c = "*"
  · subst hc
    by_cases ht : t = "" <;> simp [ht, bind, Except.bind, pure, Except.pure]
  · by_cases ht : t = "" <;> by_cases he : c = "" <;>
      simp [hc, ht, he, bind, Except.bind, pure, Except.pure]

/-! ## What a reference spells -/

/-- The dotted name of a reference: a column alone, or a table without a schema before a column or
a star. -/
def dottedText? : Node → Option String
  | .reference none (.column c) => some c.column.name
  | .reference (some ⟨none, t⟩) (.column c) => some (t.name ++ "." ++ c.column.name)
  | .reference (some ⟨none, t⟩) .selectAll => some (t.name ++ "." ++ "*")
  | _ => none

theorem dotted_eq_error {s : String} {e : Error} :
    dotted s = .error e ↔ LacksPart s ∧ e = .invalid .identifier .emptyName := by
  induction s using dotted_induction with
  | plain s h =>
      rw [dotted_plain h, lacksPart_plain h]
      by_cases hs : s = "" <;> simp [hs, eq_comm]
  | cut t c h =>
      rw [dotted_cut h, lacksPart_cut h]
      by_cases hp : t = "" ∨ c = ""
      · simp [hp, eq_comm]
      · rw [if_neg hp, iff_false_intro hp]
        by_cases hc : c = "*" <;> simp [hc]

/-- The three kinds of reference that a name is read as, each of which spells the name. -/
theorem dotted_eq_ok {s : String} {n : Node} (h : dotted s = .ok n) :
    ('.' ∉ s.toList ∧ n = columnRef ⟨⟨s⟩⟩ none) ∨
      (∃ t, s = t ++ "." ++ "*" ∧ n = allOf ⟨none, ⟨t⟩⟩) ∨
      ∃ t c, s = t ++ "." ++ c ∧ '.' ∉ c.toList ∧ c ≠ "*" ∧
        n = columnRef ⟨⟨c⟩⟩ (some ⟨none, ⟨t⟩⟩) := by
  induction s using dotted_induction with
  | plain s hs =>
      rw [dotted_plain hs] at h
      split at h
      · cases h
      · cases h
        exact .inl ⟨hs, rfl⟩
  | cut t c hc =>
      rw [dotted_cut hc] at h
      split_ifs at h with hp hstar
      · cases h
        exact .inr (.inl ⟨t, by rw [hstar], rfl⟩)
      · cases h
        exact .inr (.inr ⟨t, c, rfl, hc, hstar, rfl⟩)

theorem dottedText?_of_dotted {s : String} {n : Node} (h : dotted s = .ok n) :
    n.dottedText? = some s := by
  obtain ⟨-, rfl⟩ | ⟨t, rfl, rfl⟩ | ⟨t, c, rfl, -, -, rfl⟩ := dotted_eq_ok h <;> rfl

theorem dotted_table {s : String} {n : Node} (h : dotted s = .ok n) :
    (∃ c, n = columnRef c none) ↔ '.' ∉ s.toList := by
  obtain ⟨hs, rfl⟩ | ⟨t, rfl, rfl⟩ | ⟨t, c, rfl, -, -, rfl⟩ := dotted_eq_ok h
  · exact ⟨fun _ => hs, fun _ => ⟨_, rfl⟩⟩
  · simp [columnRef, allOf]
  · simp [columnRef]

theorem dotted_star {s : String} {n : Node} (h : dotted s = .ok n) :
    (∃ t, n = allOf t) ↔ ∃ t, s = t ++ "." ++ "*" := by
  have hcolumn (c : Column) (t : Option Table) : ¬ ∃ u, columnRef c t = allOf u := by
    simp [columnRef, allOf]
  obtain ⟨hs, rfl⟩ | ⟨t, rfl, rfl⟩ | ⟨t, c, rfl, hc, hstar, rfl⟩ := dotted_eq_ok h
  · refine iff_of_false (hcolumn _ _) ?_
    rintro ⟨t, rfl⟩
    simp at hs
  · exact iff_of_true ⟨_, rfl⟩ ⟨t, rfl⟩
  · refine iff_of_false (hcolumn _ _) ?_
    rintro ⟨u, hu⟩
    exact hstar (cut_inj hc (by decide) hu).2

/-- No part of a name is lost when it is read. It is refused exactly when a part is missing; what
it is read as still spells it, with the table and the star told apart by its dots, and is read from
no other name; and a table name keeps its own dots before a column name that has none. -/
theorem dotted_faithful :
    (∀ s e, dotted s = .error e ↔ LacksPart s ∧ e = .invalid .identifier .emptyName) ∧
    (∀ s n, dotted s = .ok n → n.dottedText? = some s ∧
      ((∃ c, n = columnRef c none) ↔ '.' ∉ s.toList) ∧
      ((∃ t, n = allOf t) ↔ ∃ t, s = t ++ "." ++ "*")) ∧
    (∀ s s' n, dotted s = .ok n → dotted s' = .ok n → s = s') ∧
    ∀ t c, t ≠ "" → c ≠ "" → c ≠ "*" → '.' ∉ c.toList → ∃ table column,
      Table.ofString t = .ok table ∧ Column.ofString c = .ok column ∧
        dotted (t ++ "." ++ c) = .ok (columnRef column (some table)) := by
  refine ⟨fun s e => dotted_eq_error, fun s n h => ?_, fun s s' n h h' => ?_, ?_⟩
  · exact ⟨dottedText?_of_dotted h, dotted_table h, dotted_star h⟩
  · exact Option.some.inj ((dottedText?_of_dotted h).symm.trans (dottedText?_of_dotted h'))
  · intro t c ht hc hstar hdot
    refine ⟨_, _, Table.ofString_eq_ok.mpr ⟨ht, rfl⟩, Column.ofString_eq_ok.mpr ⟨hc, rfl⟩, ?_⟩
    rw [dotted_cut hdot, if_neg (by simp [ht, hc]), if_neg hstar]

theorem dotted_faithful_dottedTable :
    dotted "a..b.c" = .ok (columnRef ⟨⟨"c"⟩⟩ (some ⟨none, ⟨"a..b"⟩⟩)) ∧
      (∀ s, dotted s = dotted "a..b.c" → s = "a..b.c") ∧
      (∃ n t, dotted "a.b.*" = .ok n ∧ n.dottedText? = some "a.b.*" ∧ n = allOf t) ∧
      dotted ".*" = .error (.invalid .identifier .emptyName) := by
  obtain ⟨herror, hok, hinj, hjoin⟩ := dotted_faithful
  have hcut : dotted "a..b.c" = .ok (columnRef ⟨⟨"c"⟩⟩ (some ⟨none, ⟨"a..b"⟩⟩)) := by
    obtain ⟨table, column, ht, hc, h⟩ := hjoin "a..b" "c" (by decide) (by decide) (by decide)
      (by decide)
    cases ht
    cases hc
    exact h
  have hstar : dotted "a.b.*" = .ok (allOf ⟨none, ⟨"a.b"⟩⟩) := by rfl
  obtain ⟨htext, -, hall⟩ := hok _ _ hstar
  obtain ⟨t, ht⟩ := hall.mpr ⟨"a.b", rfl⟩
  refine ⟨hcut, fun s hs => hinj _ _ _ (hs.trans hcut) hcut, ⟨_, t, hstar, htext, ht⟩, ?_⟩
  exact (herror ".*" _).mpr ⟨.inr ⟨"", "*", rfl, by decide, .inl rfl⟩, rfl⟩

end Node
end SqlTree

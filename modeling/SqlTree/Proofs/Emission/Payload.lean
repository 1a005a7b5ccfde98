import SqlTree.Dialect.Engine
import SqlTree.Proofs.Emission.Alignment
import SqlTree.Proofs.Emission.MapValues

/-! # Text does not depend on bound values

Trees that agree once their bound values are blanked compile alike: to the same error, or to the
same text with parameters that stand at the same places of the walk. -/

namespace SqlTree

/-! ## Blanked trees -/

/-- Null in the place of a value that is bound. -/
def Value.blank (v : Value) (immediate : Bool) : Value × Bool :=
  (if immediate then v else .null, immediate)

/-- The tree with null in the place of each bound value. -/
def Node.blanked (n : Node) : Node := n.mapValues Value.blank

theorem Node.keepsAtom_blank (n : Node) : n.KeepsAtom Value.blank := by
  rintro m -
  cases m <;> rfl

theorem Node.render_blanked (d : Dialect) (n : Node) (nested : Bool) :
    n.blanked.render d nested = (n.render d nested).map (·.map (Piece.mapValues Value.blank)) :=
  render_mapValues Value.blank (fun m _ => m.keepsAtom_blank) nested

theorem Node.walk_blanked (d : Dialect) (n : Node) : n.blanked.walk d = (n.walk d).map blanked :=
  walk_mapValues Value.blank d n

/-- Blanking bound values leaves the text as it is. -/
theorem Piece.write_blank (d : Dialect) (k : Nat) (ps : List Piece) :
    write d k (ps.map (mapValues Value.blank)) = write d k ps := by
  induction ps generalizing k with
  | nil => rfl
  | cons p ps ih => cases p <;> simp [mapValues, Value.blank, write, ih]

/-! ## Places of parameters -/

theorem Node.bound?_blanked (n : Node) : n.blanked.bound? = n.bound?.map fun _ => .null := by
  cases n
  case value v immediate => cases immediate <;> rfl
  all_goals rfl

theorem Node.bound?_eq_some {n : Node} {v : Value} (h : n.bound? = some v) :
    n = .value v false := by
  cases n
  case value w immediate => cases immediate <;> simp_all [bound?]
  all_goals cases h

/-- The bound values of two lists of nodes that agree once blanked stand at the same places. -/
theorem Node.exists_place {ns ms : List Node} (h : ns.map blanked = ms.map blanked) :
    (ns.filterMap bound?).length = (ms.filterMap bound?).length ∧
      ∀ (k : Nat) (v w : Value), (ns.filterMap bound?)[k]? = some v →
        (ms.filterMap bound?)[k]? = some w →
        ∃ i : Nat, ns[i]? = some (.value v false) ∧ ms[i]? = some (.value w false) := by
  induction ns generalizing ms with
  | nil =>
      obtain rfl : ms = [] := List.map_eq_nil_iff.mp h.symm
      exact ⟨rfl, fun k v w hv => by simp at hv⟩
  | cons n ns ih =>
      cases ms with
      | nil => cases h
      | cons m ms =>
          rw [List.map_cons, List.map_cons, List.cons.injEq] at h
          obtain ⟨hl, hp⟩ := ih h.2
          have hb : n.bound?.map (fun _ => Value.null) = m.bound?.map fun _ => Value.null := by
            rw [← bound?_blanked, ← bound?_blanked, h.1]
          have later {k : Nat} {v w : Value} (hv : (ns.filterMap bound?)[k]? = some v)
              (hw : (ms.filterMap bound?)[k]? = some w) : ∃ i : Nat,
                (n :: ns)[i]? = some (.value v false) ∧ (m :: ms)[i]? = some (.value w false) := by
            obtain ⟨i, hi⟩ := hp k v w hv hw
            exact ⟨i + 1, hi⟩
          cases hn : n.bound? with
          | none =>
              have hm : m.bound? = none := by simpa [hn] using hb.symm
              rw [List.filterMap_cons_none hn, List.filterMap_cons_none hm]
              exact ⟨hl, fun k v w => later⟩
          | some x =>
              obtain ⟨y, hm⟩ : ∃ y, m.bound? = some y := by
                cases hm : m.bound? with
                | none => simp [hn, hm] at hb
                | some y => exact ⟨y, rfl⟩
              rw [List.filterMap_cons_some hn, List.filterMap_cons_some hm]
              refine ⟨congrArg (· + 1) hl, fun k v w hv hw => ?_⟩
              cases k with
              | zero =>
                  cases hv
                  cases hw
                  exact ⟨0, congrArg some (bound?_eq_some hn), congrArg some (bound?_eq_some hm)⟩
              | succ k => exact later hv hw

/-! ## Compiled trees -/

/-- Trees that agree once blanked are refused with the same error, or compile to the same text
and to as many parameters, each pair of which is a pair of bound values at one place of the two
walks. -/
theorem Node.compile_of_blanked_eq {m n : Node} (h : m.blanked = n.blanked) (d : Dialect) :
    (∃ e, m.compile d = .error e ∧ n.compile d = .error e) ∨
      ∃ sql vs ws, m.compile d = .ok ⟨sql, vs⟩ ∧ n.compile d = .ok ⟨sql, ws⟩ ∧
        vs.length = ws.length ∧
        ∀ (k : Nat) (v w : Value), vs[k]? = some v → ws[k]? = some w →
          ∃ i : Nat, (m.walk d)[i]? = some (.value v false) ∧
            (n.walk d)[i]? = some (.value w false) := by
  have hr : (m.render d false).map (·.map (Piece.mapValues Value.blank)) =
      (n.render d false).map (·.map (Piece.mapValues Value.blank)) := by
    rw [← render_blanked, ← render_blanked, h]
  have hw : (m.walk d).map blanked = (n.walk d).map blanked := by
    rw [← walk_blanked, ← walk_blanked, h]
  rw [compile, compile]
  cases hm : m.render d false with
  | error e =>
      cases hn : n.render d false with
      | error e' =>
          rw [hm, hn] at hr
          cases hr
          exact .inl ⟨e, rfl, rfl⟩
      | ok qs => simp [hm, hn, Except.map] at hr
  | ok ps =>
      cases hn : n.render d false with
      | error e => simp [hm, hn, Except.map] at hr
      | ok qs =>
          rw [hm, hn] at hr
          have hpq : ps.map (Piece.mapValues Value.blank) = qs.map (Piece.mapValues Value.blank) :=
            Except.ok.inj hr
          have hsql : Piece.write d 1 qs = Piece.write d 1 ps := by
            rw [← Piece.write_blank, ← hpq, Piece.write_blank]
          refine .inr ⟨Piece.write d 1 ps, m.boundValues d, n.boundValues d, ?_, ?_,
            exists_place hw⟩
          · rw [← boundValues_render hm]
            rfl
          · rw [← boundValues_render hn, ← hsql]
            rfl

/-- A deletion of the rows whose column has a bound value, or a literal null. -/
def Node.deleteSample (v : Value) : Node :=
  .delete
    { fromItems := [.table ⟨none, ⟨"t"⟩⟩]
      whereClause := some (.or (.binary (.column ⟨⟨"a"⟩⟩) .eq (.value v false))
        (.binary (.column ⟨⟨"a"⟩⟩) .is (.value .null true))) }

/-- A text full of quotes and a number are bound by the same statement, each as its parameter. -/
theorem Node.compile_of_blanked_eq_deleteSample :
    (deleteSample (.text "\x27; --")).blanked = (deleteSample (.int 1)).blanked ∧
    (deleteSample (.text "\x27; --")).compile Engine.postgres.dialect =
      .ok ⟨"DELETE FROM \"t\" WHERE \"a\" = $1 OR \"a\" IS NULL", [.text "\x27; --"]⟩ ∧
    (deleteSample (.int 1)).compile Engine.postgres.dialect =
      .ok ⟨"DELETE FROM \"t\" WHERE \"a\" = $1 OR \"a\" IS NULL", [.int 1]⟩ ∧
    ∃ i : Nat,
      ((deleteSample (.text "\x27; --")).walk Engine.postgres.dialect)[i]? =
        some (.value (.text "\x27; --") false) ∧
      ((deleteSample (.int 1)).walk Engine.postgres.dialect)[i]? =
        some (.value (.int 1) false) := by
  have h : (deleteSample (.text "\x27; --")).blanked = (deleteSample (.int 1)).blanked := rfl
  have htext : (deleteSample (.text "\x27; --")).compile Engine.postgres.dialect =
      .ok ⟨"DELETE FROM \"t\" WHERE \"a\" = $1 OR \"a\" IS NULL", [.text "\x27; --"]⟩ := by cbv
  have hint : (deleteSample (.int 1)).compile Engine.postgres.dialect =
      .ok ⟨"DELETE FROM \"t\" WHERE \"a\" = $1 OR \"a\" IS NULL", [.int 1]⟩ := by cbv
  obtain ⟨e, he, -⟩ | ⟨sql, vs, ws, hm, hn, -, hplace⟩ :=
    compile_of_blanked_eq h Engine.postgres.dialect
  · rw [htext] at he
    cases he
  · rw [htext] at hm
    rw [hint] at hn
    cases hm
    cases hn
    exact ⟨h, htext, hint, hplace 0 _ _ rfl rfl⟩

end SqlTree

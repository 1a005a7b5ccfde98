import SqlTree.Proofs.Building.Completeness

/-! # Agreement of dialects

The dialects put the clauses of a statement into different orders. A dialect that compiles a tree
has a place for each clause in it and no clause twice, so two dialects that compile the same tree
walk over the same nodes. -/

namespace SqlTree

open List

namespace Node

variable {d e : Dialect} {n : Node}

/-- Only statements are written in the order of a dialect. -/
theorem parts_eq_parts (d e : Dialect) (h : n.kind.isStatement = false) :
    n.parts d = n.parts e := by
  cases n
  case select | insert | update | delete => cases h
  all_goals rfl

/-- Dialects that find nothing wrong with a node write the same parts of it. -/
theorem parts_perm (hd : ∀ k, (d.clauseOrder k).Nodup) (he : ∀ k, (e.clauseOrder k).Nodup)
    (hfd : n.faults d = []) (hfe : n.faults e = []) : n.parts d ~ n.parts e := by
  cases hn : n.kind.isStatement
  case false => rw [parts_eq_parts d e hn]
  cases n
  case select q =>
    exact (d.perm_flatMap (hd .select) hfd fun _ => q.clauseParts_eq_nil).symm.trans
      (e.perm_flatMap (he .select) hfe fun _ => q.clauseParts_eq_nil)
  case insert q =>
    exact (d.perm_flatMap (hd .insert) (append_eq_nil_iff.mp hfd).2
      fun _ => q.clauseParts_eq_nil).symm.trans
      (e.perm_flatMap (he .insert) (append_eq_nil_iff.mp hfe).2 fun _ => q.clauseParts_eq_nil)
  case update q =>
    exact (d.perm_flatMap (hd .update) (append_eq_nil_iff.mp hfd).2
      fun _ => q.clauseParts_eq_nil).symm.trans
      (e.perm_flatMap (he .update) (append_eq_nil_iff.mp hfe).2 fun _ => q.clauseParts_eq_nil)
  case delete q =>
    exact (d.perm_flatMap (hd .delete) hfd fun _ => q.clauseParts_eq_nil).symm.trans
      (e.perm_flatMap (he .delete) hfe fun _ => q.clauseParts_eq_nil)
  all_goals cases hn

/-- Dialects that find nothing wrong with a tree walk over the same nodes. -/
theorem walk_perm (hd : ∀ k, (d.clauseOrder k).Nodup) (he : ∀ k, (e.clauseOrder k).Nodup)
    (hfd : ∀ m ∈ n.walk d, m.faults d = []) (hfe : ∀ m ∈ n.walk e, m.faults e = []) :
    n.walk d ~ n.walk e := by
  induction n using Node.induction_parts d with
  | step n ih =>
      have hp := parts_perm hd he (hfd n (mem_walk_self d n)) (hfe n (mem_walk_self e n))
      rw [walk_eq, forall_mem_cons] at hfd hfe
      have hw : ∀ m ∈ n.parts d, m.walk d ~ m.walk e := fun m hm =>
        ih m hm (fun k hk => hfd.2 k (mem_flatMap.mpr ⟨m, hm, hk⟩))
          (fun k hk => hfe.2 k (mem_flatMap.mpr ⟨m, hp.mem_iff.mp hm, hk⟩))
      rw [walk_eq, walk_eq]
      refine Perm.cons n ?_
      calc (n.parts d).flatMap (walk d)
        _ ~ (n.parts d).flatMap (walk e) := Perm.flatMap_left _ hw
        _ ~ (n.parts e).flatMap (walk e) := hp.flatMap_right _

/-- Dialects with the same orders of clauses walk over a tree in the same order. -/
theorem walk_congr (h : d.clauseOrder = e.clauseOrder) (n : Node) : n.walk d = n.walk e := by
  induction n using Node.induction_parts d with
  | step n ih =>
      have hp : n.parts d = n.parts e := by
        cases n
        case select | insert | update | delete => rw [parts, parts, h]
        all_goals rfl
      rw [walk_eq, walk_eq, ← hp, flatMap_congr ih]

theorem faults_eq_nil {c : Compiled} (h : n.compile d = .ok c) :
    ∀ m ∈ n.walk d, m.faults d = [] :=
  fun m hm => (exists_compile_eq_ok.mp ⟨c, h⟩ m hm).2

end Node

theorem Engine.clauseOrder_eq_usualOrder {e : Engine} (h : e ≠ .sqlserver) :
    e.dialect.clauseOrder = StatementKind.usualOrder := by
  cases e
  case sqlserver => exact absurd rfl h
  all_goals rfl

/-- The parameters of a tree under two engines are the same up to their order, and in the same
order unless SQL Server, which has orders of clauses of its own, is one of the two. -/
theorem Node.parameters_perm {x y : Engine} {n : Node} {a b : Compiled}
    (ha : n.compile x.dialect = .ok a) (hb : n.compile y.dialect = .ok b) :
    a.parameters ~ b.parameters ∧
    (x ≠ .sqlserver → y ≠ .sqlserver → a.parameters = b.parameters) := by
  rw [parameters_eq ha, parameters_eq hb]
  refine ⟨?_, fun hx hy => ?_⟩
  · exact (walk_perm x.nodup_clauseOrder y.nodup_clauseOrder (faults_eq_nil ha)
      (faults_eq_nil hb)).filterMap bound?
  · rw [boundValues, boundValues, walk_congr]
    rw [Engine.clauseOrder_eq_usualOrder hx, Engine.clauseOrder_eq_usualOrder hy]

/-- An update of rows that a subquery picks. -/
def Node.pickedSample : Node :=
  .update
    { table := .table ⟨none, ⟨"t"⟩⟩
      assignments := some [⟨⟨⟨"a"⟩⟩, .value (.int 1) false⟩]
      whereClause := some (.binary (.column ⟨⟨"b"⟩⟩) .isIn (.select
        { fromItems := some [.table ⟨none, ⟨"u"⟩⟩]
          whereClause := some (.binary (.column ⟨⟨"c"⟩⟩) .gt (.value (.int 2) false)) })) }

theorem Node.parameters_perm_pickedSample :
    ∃ a b c, pickedSample.compile Engine.mysql.dialect = .ok a ∧
      pickedSample.compile Engine.sqlite.dialect = .ok b ∧
      pickedSample.compile Engine.sqlserver.dialect = .ok c ∧
      a.parameters = [.int 1, .int 2] ∧ a.parameters = b.parameters ∧
      a.parameters ~ c.parameters := by
  have hm : pickedSample.compile Engine.mysql.dialect = .ok
      ⟨"UPDATE `t` SET `a` = ? WHERE `b` IN (SELECT * FROM `u` WHERE `c` > ?)",
        [.int 1, .int 2]⟩ := by cbv
  have hl : pickedSample.compile Engine.sqlite.dialect = .ok
      ⟨"UPDATE \x22t\x22 SET \x22a\x22 = ? WHERE \x22b\x22 IN " ++
          "(SELECT * FROM \x22u\x22 WHERE \x22c\x22 > ?)",
        [.int 1, .int 2]⟩ := by cbv
  have hs : pickedSample.compile Engine.sqlserver.dialect = .ok
      ⟨"UPDATE [t] SET [a] = @p1 WHERE [b] IN (SELECT * FROM [u] WHERE [c] > @p2)",
        [.int 1, .int 2]⟩ := by cbv
  obtain ⟨-, hsame⟩ := parameters_perm hm hl
  obtain ⟨hperm, -⟩ := parameters_perm hm hs
  exact ⟨_, _, _, hm, hl, hs, rfl, hsame (by decide) (by decide), hperm⟩

end SqlTree

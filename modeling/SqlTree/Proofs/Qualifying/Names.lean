import Mathlib
import SqlTree.Proofs.Editing.Parts
import SqlTree.Proofs.Qualifying.Places
import SqlTree.Sql.Compile

/-! # What names mean to the pass that qualifies tables

A name stands for a common table expression wherever a statement around it has one of that name,
also in the expressions of its own WITH clause, before and after it, recursive or not. Every other
name stands for a table, also one that is the alias of an item. -/

namespace SqlTree

namespace Node

/-! ## The items and the WITH clause of a statement -/

/-- The items of FROM and USING and the joined ones. -/
def sources : Node → List Node
  | .select q => q.fromItems.getD [] ++ (q.joins.getD []).map (·.table)
  | .update q => q.fromItems.getD [] ++ (q.joins.getD []).map (·.table)
  | .delete q => q.fromItems ++ q.usingItems.getD [] ++ (q.joins.getD []).map (·.table)
  | _ => []

/-- What a statement changes. -/
def target? : Node → Option Node
  | .insert q => some (.table q.into)
  | .update q => some q.table
  | _ => none

/-- The names of the tables that a statement lists or changes. -/
def tableNames (n : Node) : List String :=
  (n.target?.toList ++ n.sources).filterMap fun
    | .table t => some t.name
    | _ => none

/-- The WITH clause of a statement. -/
def withClause? : Node → Option (With Node)
  | .select q => q.withClause
  | .insert q => q.withClause
  | .update q => q.withClause
  | .delete q => q.withClause
  | _ => none

theorem bindings_eq_names {n : Node} {w : With Node} (h : n.withClause? = some w) :
    n.bindings = w.names := by
  cases n
  case select q | insert q | update q | delete q =>
    rw [withClause?] at h
    rw [bindings, h]
    rfl
  all_goals cases h

theorem sources_edit_qualifying (schema : Identifier) (n : Node) (bound : List String) :
    (n.edit (.qualifying schema) bound).sources =
      n.sources.map (edit (.qualifying schema) (n.bindings ++ bound)) := by
  cases n
  case select q =>
    cases q
    simp [Select.edit, sources, bindings, getD_map, Join.edit_eq, Function.comp_def]
  case update q =>
    cases q
    simp [Update.edit, sources, bindings, getD_map, Join.edit_eq, Function.comp_def]
  case delete q =>
    cases q
    simp [Delete.edit, sources, bindings, getD_map, Join.edit_eq, Function.comp_def]
  all_goals rfl

/-- The place of the WITH clause is the first slot of a statement. -/
theorem head?_contents {n : Node} {w : With Node} (h : n.withClause? = some w) :
    n.contents[0]? = some (.with w) := by
  cases n
  case select q | insert q | update q | delete q =>
    rw [withClause?] at h
    simp [contents, slots, fields, h, Port.slots, Port.only, KindOf.with]
  all_goals cases h

theorem contents_with {w : With Node} {c : Cte Node} {k : Nat} (hk : w.ctes[k]? = some c) :
    (Node.with w).contents[k]? = some (.cte c) := by
  simp [contents, slots, fields, hk, Port.slots, Port.only, KindOf.cte]

theorem at?_cteBody {n : Node} {w : With Node} {c : Cte Node} {k : Nat}
    (hw : n.withClause? = some w) (hk : w.ctes[k]? = some c) : n.at? [0, k, 1] = some c.body := by
  rw [at?, head?_contents hw, Option.bind_some, at?, contents_with hk]
  rfl

theorem boundAt_cteBody {n : Node} {w : With Node} {c : Cte Node} {k : Nat}
    (hw : n.withClause? = some w) (hk : w.ctes[k]? = some c) : n.boundAt [0, k, 1] = w.names := by
  rw [boundAt, head?_contents hw, Option.elim_some, boundAt, contents_with hk,
    bindings_eq_names hw]
  rfl

/-- The pass changes a node of a tree by the names that are bound around it. -/
theorem at?_qualify (schema : Identifier) {t n : Node} {p : List Nat} (h : t.at? p = some n)
    (hn : n.kind ≠ .identifier) :
    ∃ t', t.qualify schema = .ok t' ∧
      t'.at? p = some (n.edit (.qualifying schema) (t.boundAt p)) := by
  refine ⟨_, qualify_eq schema t, ?_⟩
  rw [at?_edit_qualifying schema [] h hn, List.append_nil]

/-! ## Aliases -/

/-- The alias of an item of a statement stays as it is, and a reference to it is taken for one to
a table: unless a statement below has a common table expression of that name around the reference,
it gets the schema, and does not name the alias any more. -/
theorem qualify_reference (schema : Identifier) {t n item : Node} {r : List Nat} {a : String}
    (hn : t.at? r = some n) (hi : .alias item ⟨a⟩ ∈ n.sources)
    (ha : a ∉ n.bindings ++ t.boundAt r) :
    ∃ t' n', t.qualify schema = .ok t' ∧ t'.at? r = some n' ∧
      .alias (item.edit (.qualifying schema) (n.bindings ++ t.boundAt r)) ⟨a⟩ ∈ n'.sources ∧
      ∀ p c, n.at? p = some (.reference (some ⟨none, ⟨a⟩⟩) c) →
        n'.at? p = some (.reference
          (some ⟨if a ∈ n.boundAt p then none else some schema, ⟨a⟩⟩)
          (c.edit (.qualifying schema) (n.boundAt p ++ t.boundAt r))) := by
  have hk : n.kind ≠ .identifier := by
    intro hk
    cases n
    case identifier => cases hi
    all_goals cases hk
  obtain ⟨t', ht, hr⟩ := at?_qualify schema hn hk
  refine ⟨t', _, ht, hr, ?_, ?_⟩
  · rw [sources_edit_qualifying]
    exact List.mem_map_of_mem hi
  · intro p c hp
    have hout : a ∉ t.boundAt r := fun hb => ha (List.mem_append_right _ hb)
    rw [at?_edit_qualifying schema _ hp nofun, edit, Option.map_some, Edit.table_qualifying]
    by_cases hb : a ∈ n.boundAt p
    · simp [Table.name, hb]
    · simp [Table.name, hb, hout, Table.withSchema]

/-- The column of the alias of a table, in the rows that a predicate picks. -/
def aliasSample (predicate : Option Node) : Node :=
  .select
    { fromItems := some [.alias (.table ⟨none, ⟨"users"⟩⟩) ⟨"u"⟩]
      selections := some [.reference (some ⟨none, ⟨"u"⟩⟩) (.column ⟨⟨"id"⟩⟩)]
      whereClause := predicate }

/-- A subquery with a common table expression of the name of the alias. -/
def shadowingSample : Node :=
  .unary .exists (.select
    { withClause := some ⟨false, [⟨⟨⟨"u"⟩, none⟩, none, aliasSample none⟩]⟩
      fromItems := some [.table ⟨none, ⟨"u"⟩⟩]
      selections := some [.reference (some ⟨none, ⟨"u"⟩⟩) (.column ⟨⟨"id"⟩⟩)] })

theorem qualify_reference_shadowingSample :
    let n := aliasSample (some shadowingSample)
    (Node.parens n).at? [0] = some n ∧
    .alias (.table ⟨none, ⟨"users"⟩⟩) ⟨"u"⟩ ∈ n.sources ∧
    "u" ∉ n.bindings ++ (Node.parens n).boundAt [0] ∧
    n.at? [0, 0] = some (.reference (some ⟨none, ⟨"u"⟩⟩) (.column ⟨⟨"id"⟩⟩)) ∧
    n.at? [2, 0, 1, 1, 0] = some (.reference (some ⟨none, ⟨"u"⟩⟩) (.column ⟨⟨"id"⟩⟩)) ∧
    ∃ t' n', (Node.parens n).qualify ⟨"app"⟩ = .ok t' ∧ t'.at? [0] = some n' ∧
      .alias (.table ⟨some ⟨"app"⟩, ⟨"users"⟩⟩) ⟨"u"⟩ ∈ n'.sources ∧
      n'.at? [0, 0] =
        some (.reference (some ⟨some ⟨"app"⟩, ⟨"u"⟩⟩) (.column ⟨⟨"id"⟩⟩)) ∧
      n'.at? [2, 0, 1, 1, 0] = some (.reference (some ⟨none, ⟨"u"⟩⟩) (.column ⟨⟨"id"⟩⟩)) := by
  intro n
  have hi : .alias (.table ⟨none, ⟨"users"⟩⟩) ⟨"u"⟩ ∈ n.sources := List.mem_cons_self
  have hb : "u" ∉ n.bindings ++ (Node.parens n).boundAt [0] := List.not_mem_nil
  obtain ⟨t', n', ht, hn, ha, hr⟩ :=
    qualify_reference (t := .parens n) (r := [0]) ⟨"app"⟩ rfl hi hb
  exact ⟨rfl, hi, hb, rfl, rfl, t', n', ht, hn, ha, hr [0, 0] _ rfl, hr [2, 0, 1, 1, 0] _ rfl⟩

/-- After qualifying, a reference to an alias does not name it any more. -/
theorem qualify_reference_aliasSample :
    (aliasSample none).sources = [.alias (.table ⟨none, ⟨"users"⟩⟩) ⟨"u"⟩] ∧
    (aliasSample none).tableNames = [] ∧ (aliasSample none).bindings = [] ∧
    (aliasSample none).at? [0, 0] =
      some (.reference (some ⟨none, ⟨"u"⟩⟩) (.column ⟨⟨"id"⟩⟩)) ∧
    ∃ m, (aliasSample none).qualify ⟨"app"⟩ = .ok m ∧
      m.at? [0, 0] = some (.reference (some ⟨some ⟨"app"⟩, ⟨"u"⟩⟩) (.column ⟨⟨"id"⟩⟩)) ∧
      m.at? [0, 0] ≠ (aliasSample none).at? [0, 0] ∧
      m.sources = [.alias (.table ⟨some ⟨"app"⟩, ⟨"users"⟩⟩) ⟨"u"⟩] ∧
      m.compile Engine.postgres.dialect =
        .ok ⟨"SELECT \"app\".\"u\".\"id\" FROM \"app\".\"users\" AS \"u\"", []⟩ :=
  ⟨rfl, rfl, rfl, rfl, _, rfl, rfl, nofun, rfl, by cbv⟩

/-! ## Common table expressions -/

/-- In the body of a common table expression a table without a schema gets one if no statement
around it has a common table expression of its name. All those of the same WITH clause count, also
the one of the body itself and later ones, whether or not the clause is recursive. -/
theorem qualify_cteBody (schema : Identifier) {t n : Node} {w : With Node} {c : Cte Node}
    {r p : List Nat} {k : Nat} {i : Identifier} (hn : t.at? r = some n)
    (hw : n.withClause? = some w) (hk : w.ctes[k]? = some c)
    (hp : c.body.at? p = some (.table ⟨none, i⟩)) :
    ∃ t', t.qualify schema = .ok t' ∧
      t'.at? (r ++ ([0, k, 1] ++ p)) = some (.table
        ⟨if i.name ∈ c.body.boundAt p ++ (w.names ++ t.boundAt r) then none else some schema,
          i⟩) := by
  have hb := at?_cteBody hw hk
  have hat : t.at? (r ++ ([0, k, 1] ++ p)) = some (.table ⟨none, i⟩) := by
    rw [at?_append, hn, Option.bind_some, at?_append, hb, Option.bind_some, hp]
  have hbound : t.boundAt (r ++ ([0, k, 1] ++ p)) =
      c.body.boundAt p ++ (w.names ++ t.boundAt r) := by
    rw [boundAt_append hn, boundAt_append hb, boundAt_cteBody hw hk, List.append_assoc]
  obtain ⟨t', ht, hr⟩ := at?_qualify schema hat nofun
  refine ⟨t', ht, ?_⟩
  rw [hr, hbound, edit, Edit.table_qualifying]
  by_cases hm : i.name ∈ c.body.boundAt p ++ (w.names ++ t.boundAt r)
  · rw [if_pos hm, if_neg fun h => h.2 hm]
  · rw [if_neg hm, if_pos ⟨rfl, hm⟩]
    rfl

/-- A statement whose first common table expression reads from the name of the second one, and the
second one from its own name and from another one. -/
def chainSample : Node :=
  .select
    { withClause := some ⟨false,
        [⟨⟨⟨"recent"⟩, none⟩, none, .select { fromItems := some [.table ⟨none, ⟨"users"⟩⟩] }⟩,
         ⟨⟨⟨"users"⟩, none⟩, none, .select
           { fromItems := some [.table ⟨none, ⟨"users"⟩⟩, .table ⟨none, ⟨"logs"⟩⟩] }⟩]⟩
      fromItems := some [.table ⟨none, ⟨"recent"⟩⟩] }

theorem qualify_cteBody_chainSample :
    (Node.parens chainSample).at? [0] = some chainSample ∧
    ∃ w c₀ c₁, chainSample.withClause? = some w ∧ w.isRecursive = false ∧
      w.names = ["recent", "users"] ∧ w.ctes[0]? = some c₀ ∧ w.ctes[1]? = some c₁ ∧
      c₀.body.at? [0, 0] = some (.table ⟨none, ⟨"users"⟩⟩) ∧
      c₁.body.at? [0, 1] = some (.table ⟨none, ⟨"logs"⟩⟩) ∧
      (∃ m, (Node.parens chainSample).qualify ⟨"app"⟩ = .ok m ∧
        m.at? [0, 0, 0, 1, 0, 0] = some (.table ⟨none, ⟨"users"⟩⟩)) ∧
      ∃ m, (Node.parens chainSample).qualify ⟨"app"⟩ = .ok m ∧
        m.at? [0, 0, 1, 1, 0, 1] = some (.table ⟨some ⟨"app"⟩, ⟨"logs"⟩⟩) :=
  ⟨rfl, _, _, _, rfl, rfl, rfl, rfl, rfl, rfl, rfl,
    qualify_cteBody (t := .parens chainSample) (r := [0]) (p := [0, 0]) (k := 0) (i := ⟨"users"⟩)
      ⟨"app"⟩ rfl rfl rfl rfl,
    qualify_cteBody (t := .parens chainSample) (r := [0]) (p := [0, 1]) (k := 1) (i := ⟨"logs"⟩)
      ⟨"app"⟩ rfl rfl rfl rfl⟩

/-- A table in the body of a common table expression of the same name. -/
def shadowedSample : Node :=
  .select
    { withClause := some ⟨false,
        [⟨⟨⟨"users"⟩, none⟩, none, .select { fromItems := some [.table ⟨none, ⟨"users"⟩⟩] }⟩]⟩
      fromItems := some [.table ⟨none, ⟨"users"⟩⟩] }

/-- The name of a common table expression hides the table of that name also from its own body. -/
theorem qualify_shadowedSample :
    ∃ w c, shadowedSample.withClause? = some w ∧ w.isRecursive = false ∧
      w.names = ["users"] ∧ w.ctes[0]? = some c ∧
      c.body.at? [0, 0] = some (.table ⟨none, ⟨"users"⟩⟩) ∧ c.body.boundAt [0, 0] = [] ∧
      shadowedSample.at? [0, 0, 1, 0, 0] = c.body.at? [0, 0] ∧
      ∃ m, shadowedSample.qualify ⟨"app"⟩ = .ok m ∧
        m.at? [0, 0, 1, 0, 0] = some (.table ⟨none, ⟨"users"⟩⟩) ∧
        m.at? [0, 0, 1, 0, 0] ≠ some (.table ⟨some ⟨"app"⟩, ⟨"users"⟩⟩) ∧
        m.compile Engine.postgres.dialect = .ok
          ⟨"WITH \"users\" AS (SELECT * FROM \"users\") SELECT * FROM \"users\"", []⟩ :=
  ⟨_, _, rfl, rfl, rfl, rfl, rfl, rfl, rfl, _, rfl, rfl, nofun, by cbv⟩

end Node

end SqlTree

import SqlTree.Proofs.Lexical.Grammar
import SqlTree.Proofs.Nesting.Phrases

/-! # Lists that are left out

A clause or a list that is missing from a tree leaves nothing behind, neither a keyword without
items nor a pair of parentheses around nothing. The one exception is a common table expression that
names an empty list of columns. -/

namespace SqlTree

/-! ## The text outside of quotes -/

mutual

/-- A value whose literal is the same but for what stands between quotes. -/
def Value.emptied : Value → Value
  | .text _ | .uuid _ | .instant _ | .json _ => .text ""
  | .bytes _ => .bytes []
  | .array items => .array (Value.allEmptied items)
  | v => v
termination_by structural v => v

def Value.allEmptied : List Value → List Value
  | [] => []
  | v :: vs => v.emptied :: Value.allEmptied vs
termination_by structural vs => vs

end

/-- A piece whose text is the same but for what stands between quotes. -/
def Piece.emptied : Piece → Piece
  | .name _ => .name ""
  | .literal v => .literal v.emptied
  | p => p

/-- The text of some pieces with nothing between its quotes. -/
def Piece.outline (d : Dialect) (ps : List Piece) : String := write d 1 (ps.map emptied)

namespace Text

/-- Texts that parentheses can stand around. -/
def IsEnclosable (s : String) : Prop := Enclosable '(' ')' s.toList

theorem isEnclosable_of_isFlat {s : String} (hne : s ≠ "") (h : isFlat s = true) :
    IsEnclosable s :=
  .of_forall (fun he => hne (String.toList_eq_nil_iff.mp he)) (by simpa [isFlat] using h)

theorem isEnclosable_of_isNumeral {s : String} (hne : s ≠ "") (h : IsNumeral s) :
    IsEnclosable s := by
  refine isEnclosable_of_isFlat hne ?_
  obtain ⟨sign, cs, hs, hsign, hcs⟩ := h
  have hc : ∀ c ∈ cs, c ≠ '(' ∧ c ≠ ')' := by
    refine fun c hc => ⟨?_, ?_⟩ <;>
    · rintro rfl
      exact absurd (hcs _ hc) (by decide)
  rw [isFlat, hs]
  rcases hsign with rfl | rfl <;> simpa using hc

theorem IsEnclosable.append {s t : String} (hs : IsEnclosable s) (ht : IsEnclosable t) :
    IsEnclosable (s ++ t) := by
  rw [IsEnclosable, String.toList_append]
  exact Enclosable.append hs ht

/-- A text without parentheses can be added at the beginning. -/
theorem IsEnclosable.behind {s t : String} (ht : IsEnclosable t) (hs : isFlat s = true) :
    IsEnclosable (s ++ t) := by
  by_cases hne : s = ""
  · rwa [hne, String.empty_append]
  · exact (isEnclosable_of_isFlat hne hs).append ht

/-- A text in parentheses, with a text without parentheses before it. -/
theorem IsEnclosable.enclosed {s t : String} (ht : IsEnclosable t) (hs : isFlat s = true) :
    IsEnclosable (s ++ "(" ++ t ++ ")") := by
  have he : IsEnclosable ("(" ++ t ++ ")") := by
    simpa [IsEnclosable] using Enclosable.enclosed ht (by decide)
  have hb := he.behind hs
  rwa [← String.append_assoc, ← String.append_assoc] at hb

/-- A text without parentheses can be added at the end. -/
theorem IsEnclosable.before {s t : String} (hs : IsEnclosable s) (ht : isFlat t = true) :
    IsEnclosable (s ++ t) := by
  by_cases hne : t = ""
  · rwa [hne, String.append_empty]
  · exact hs.append (isEnclosable_of_isFlat hne ht)

end Text

open Text

theorem Text.isEnclosable_commas {s : String} {ss : List String}
    (h : ∀ t ∈ s :: ss, IsEnclosable t) : IsEnclosable (", ".intercalate (s :: ss)) := by
  induction ss generalizing s with
  | nil => simpa using h
  | cons t ss ih =>
      rw [List.forall_mem_cons] at h
      rw [String.intercalate_cons_cons]
      exact (h.1.before (by decide)).append (ih h.2)

/-! ## Literals -/

namespace Dialect

variable {d : Dialect}

theorem stringLiteral_empty (d : Dialect) : d.stringLiteral "" = "''" := by
  cases h : d.backslashEscapes <;> simp [stringLiteral, h] <;> decide

theorem isEnclosable_stringLiteral (d : Dialect) : IsEnclosable (d.stringLiteral "") := by
  rw [stringLiteral_empty]
  exact isEnclosable_of_isFlat (by decide) (by decide)

theorem isEnclosable_int (n : Int) : IsEnclosable (toString n) :=
  isEnclosable_of_isNumeral (toString_int_ne_empty n) (isNumeral_int n)

theorem isEnclosable_placeholder (hd : d.IsFlat) (k : Nat) :
    IsEnclosable (d.placeholder.text k) := by
  cases hp : d.placeholder with
  | question => exact isEnclosable_of_isFlat (s := "?") (by decide) (by decide)
  | numbered sign =>
      have hk := isEnclosable_of_isNumeral (toString_ne_empty k) (isNumeral_nat k)
      exact hk.behind (hd.placeholder sign hp)

mutual

theorem isEnclosable_literal (hd : d.IsFlat) :
    ∀ v : Value, v.isFilled = true → IsEnclosable (d.literal v.emptied)
  | .null, _ => isEnclosable_of_isFlat (s := "NULL") (by decide) (by decide)
  | .bool b, _ => isEnclosable_of_isFlat (hd.bool b).1 (hd.bool b).2
  | .int n, _ => isEnclosable_int n.toInt
  | .float x, _ =>
    isEnclosable_of_isNumeral (Decimal.bitsText_ne_empty x.toBits) (isNumeral_float x)
  | .text _, _ | .uuid _, _ | .instant _, _ | .json _, _ => d.isEnclosable_stringLiteral
  | .bytes _, _ => isEnclosable_of_isFlat (s := bytesLiteral []) (by decide) (by decide)
  | .array items, h => by
    rw [Value.isFilled, Bool.and_eq_true, Bool.not_eq_true'] at h
    have hi := isEnclosable_literals hd items h.2
    rw [Value.emptied, literal]
    cases items with
    | nil => cases h.1
    | cons v vs => exact (isEnclosable_commas hi).enclosed (s := "") (by decide)
termination_by structural v => v

theorem isEnclosable_literals (hd : d.IsFlat) :
    ∀ vs, Value.allFilled vs = true → ∀ s ∈ d.literals (Value.allEmptied vs), IsEnclosable s
  | [], _ => List.forall_mem_nil _
  | v :: vs, h => by
    rw [Value.allFilled, Bool.and_eq_true] at h
    exact List.forall_mem_cons.mpr
      ⟨isEnclosable_literal hd v h.1, isEnclosable_literals hd vs h.2⟩
termination_by structural vs => vs

end

end Dialect

/-! ## Phrases -/

namespace Piece

variable {d : Dialect}

theorem write_emptied_text (k : Nat) (s : String) (ps : List Piece) :
    write d k ((.text s :: ps).map emptied) = s ++ write d k (ps.map emptied) := rfl

theorem write_emptied_append (k : Nat) (ps qs : List Piece) :
    write d k ((ps ++ qs).map emptied) =
      write d k (ps.map emptied) ++
        write d (k + (boundValues (ps.map emptied)).length) (qs.map emptied) := by
  rw [List.map_append, write_append]

theorem write_emptied_enclosed (k : Nat) (s : String) (ps : List Piece) :
    write d k ((.text s :: (ps ++ [.text ")"])).map emptied) =
      s ++ write d k (ps.map emptied) ++ ")" := by
  rw [write_emptied_text, write_emptied_append, String.append_assoc]
  rfl

theorem IsAtom.isEnclosable (hd : d.IsFlat) {p : Piece} (h : p.IsAtom) (k : Nat) :
    IsEnclosable (write d k [p.emptied]) := by
  cases p with
  | text s => exact h.elim
  | name s =>
      show IsEnclosable (d.identifier "" ++ "")
      rw [String.append_empty]
      exact isEnclosable_of_isFlat (d.identifier_ne_empty "") hd.quotes
  | literal v =>
      show IsEnclosable (d.literal v.emptied ++ "")
      rw [String.append_empty]
      exact Dialect.isEnclosable_literal hd v h
  | bound v =>
      show IsEnclosable (d.placeholder.text k ++ "")
      rw [String.append_empty]
      exact Dialect.isEnclosable_placeholder hd k

/-- No parenthesis closes right behind the one that opens in the text of a phrase outside of
quotes. -/
theorem IsPhrase.isEnclosable (hd : d.IsFlat) {isName : String → Prop}
    (hn : ∀ s, isName s → Text.isFlat s = true) {ps : List Piece} (h : IsPhrase isName ps)
    (k : Nat) : IsEnclosable (write d k (ps.map emptied)) := by
  unfold IsPhrase at h
  induction h generalizing k with
  | atom h => exact h.isEnclosable hd k
  | word h =>
      have hl := (Bool.and_eq_true_iff.mp h).1
      rw [write_emptied_text, List.map_nil, write, String.append_empty]
      exact isEnclosable_of_isFlat (ne_empty_of_isLead hl) (isFlat_of_isLead hl)
  | count n =>
      have hn := isEnclosable_of_isNumeral (toString_ne_empty n) (isNumeral_nat n)
      rw [write_emptied_text, List.map_nil, write, String.append_empty]
      exact hn.enclosed (s := "TOP") (by decide)
  | lead h _ ih => exact (ih k).behind (isFlat_of_isLead h)
  | tail _ h ih =>
      rw [write_emptied_append, write_emptied_text, List.map_nil, write, String.append_empty]
      exact (ih k).before (Bool.and_eq_true_iff.mp h).1
  | link _ h _ ihx ihy =>
      rw [write_emptied_append]
      exact (ihx k).append ((ihy _).behind h)
  | append _ _ ihx ihy =>
      rw [write_emptied_append]
      exact (ihx k).append (ihy _)
  | enclosed h _ ih =>
      rw [write_emptied_enclosed]
      obtain rfl | rfl := h
      · exact (ih k).enclosed (s := "") (by decide)
      · exact (ih k).enclosed (s := "EXPLAIN ") (by decide)
  | @call s xs h _ ih =>
      rw [write_emptied_text, write_emptied_enclosed, ← String.append_assoc, ← String.append_assoc]
      exact (ih k).enclosed (hn s h)

end Piece

/-! ## Compiled trees -/

namespace Node

/-- A tree calls a function of the given name. -/
def Calls (d : Dialect) (n : Node) (s : String) : Prop := ∃ ns, .function s ns ∈ n.walk d

/-- The name of the function that a call names. -/
def callee? : Node → Option String
  | .function s _ => some s
  | _ => none

theorem Calls.mem_callees {d : Dialect} {n : Node} {s : String} (h : n.Calls d s) :
    s ∈ (n.walk d).filterMap callee? := by
  obtain ⟨ns, hs⟩ := h
  exact List.mem_filterMap.mpr ⟨_, hs, rfl⟩

/-- The name of a common table expression with an empty list of columns is written with
parentheses around nothing. -/
theorem isInfix_outline {d : Dialect} {n : Node} {x : CteName} {ps : List Piece}
    (h : n.render d false = .ok ps) (hx : .cteName x ∈ n.walk d) (hc : x.columns = some []) :
    ['(', ')'] <:+: (Piece.outline d ps).toList := by
  have hown {qs : List Piece} (hq : (Node.cteName x).renderOwn d = .ok qs) :
      qs = [.name x.table.name, .text "(", .text ")"] := by
    rw [renderOwn, layout, hc] at hq
    obtain ⟨is, rs, hi, ⟨⟩, rfl⟩ := Item.renderAll_cons_eq_ok.mp hq
    rw [Item.render_part, render] at hi
    rw [Dialect.renderIdentifier_eq_ok hi]
    rfl
  obtain ⟨o, us, vs, hs⟩ := exists_stands h hx fun qs hq => by
    rw [hown hq]
    rfl
  obtain ⟨_, hr, rfl⟩ := exists_renderOwn h
  obtain ⟨qs, hq, rfl⟩ := hs.renderOwn hr
  rw [hown hq, Piece.outline, Piece.write_emptied_append, List.cons_append, List.map_cons,
    Piece.emptied, Piece.write]
  simp only [List.cons_append, List.nil_append, Piece.write_emptied_text, String.toList_append]
  rw [← List.append_assoc]
  exact ⟨_, _, List.append_assoc ..⟩

theorem isPhrasal_of_mem_walk {d : Dialect} {n m : Node} (hb : n.Built)
    (hf : ∀ m ∈ n.nodes, m.isFilled = true)
    (hc : ∀ x, .cteName x ∈ n.walk d → x.columns ≠ some []) (hm : m ∈ n.walk d) :
    m.IsPhrasal (n.Calls d) where
  regular := hb.orderly m (walk_subset_nodes d n hm)
  filled := hf m (walk_subset_nodes d n hm)
  columns x hx := hc x (hx ▸ hm)
  name _ ns hs := ⟨ns, hs ▸ hm⟩

/-- The text of a built tree is a phrase, unless the name of a common table expression in it has an
empty list of columns: behind each text that announces something there stands a phrase, and
outside of quotes there are no parentheses around nothing, as long as none stand in the name of a
function. Each clause of each statement in it leaves nothing or a phrase, and the selections of a
SELECT never leave nothing. -/
theorem isPhrase_compile {d : Dialect} (hd : d.IsFlat) {n : Node} (hb : n.Built)
    (hf : ∀ m ∈ n.nodes, m.isFilled = true)
    (hc : ∀ x, .cteName x ∈ n.walk d → x.columns ≠ some []) {c : Compiled}
    (h : n.compile d = .ok c) :
    ∃ ps, n.render d false = .ok ps ∧ c = .ofPieces d ps ∧
      Piece.IsPhrase (n.Calls d) ps ∧ Piece.Announced (n.Calls d) ps ∧
      ((∀ s, n.Calls d s → Text.isFlat s = true) →
        ¬ ['(', ')'] <:+: (Piece.outline d ps).toList) ∧
      ∀ m ∈ n.walk d, ∀ k, m.statement? = some k → ∀ x, ∃ qs, m.renderClause d x = .ok qs ∧
        (qs ≠ [] → Piece.IsPhrase (n.Calls d) qs) ∧ (k = .select → x = .selections → qs ≠ []) := by
  obtain ⟨ps, hps, rfl⟩ := compile_eq_ok.mp h
  have hphrasal : ∀ m ∈ n.walk d, m.IsPhrasal (n.Calls d) :=
    fun m hm => isPhrasal_of_mem_walk hb hf hc hm
  have hp := phrase_render hd hphrasal hps
  refine ⟨ps, hps, rfl, hp, hp.announced, fun hn => (hp.isEnclosable hd hn 1).not_isInfix_pair,
    fun m hm k hk x => ?_⟩
  obtain ⟨o, us, vs, hs⟩ := exists_stands hps hm fun _ =>
    all_isEmpty_renderOwn (isStatement_of_statement? hk)
  obtain ⟨_, hown, -⟩ := exists_renderOwn hps
  obtain ⟨qs, hq, -⟩ := hs.renderOwn hown
  obtain ⟨clauses, hclauses, -, -⟩ := exists_renderClause hk hq
  have hparts : ∀ l ∈ m.parts d, ∀ b rs, l.render d b = .ok rs →
      Piece.IsPhrase (n.Calls d) rs := by
    intro l hl b rs hr
    refine phrase_render hd (fun j hj => hphrasal j ?_) hr
    exact walk_subset_walk hm (walk_subset_of_mem_parts hl hj)
  have hphrase (hi : m.clauseItems d x ≠ []) : Piece.IsPhrase (n.Calls d) (clauses x) :=
    phrase_renderClause hd hk hq hparts (hclauses x) hi
  refine ⟨clauses x, hclauses x, fun hne => hphrase (clauseItems_ne_nil (hclauses x) hne), ?_⟩
  rintro rfl rfl
  exact (hphrase (clauseItems_selections_ne_nil hk)).ne_nil

/-- A query from a function of an array and from a named list of columns, with a list of selections
that is empty. -/
def omissionSample : Node :=
  .select
    { withClause := some ⟨false, [⟨⟨⟨"x"⟩, some [⟨⟨"a"⟩⟩]⟩, none, .select {}⟩]⟩
      fromItems := some [.function "f" [.value (.array [.int 1, .text "()"]) true]]
      selections := some [] }

theorem isPhrase_compile_omissionSample :
    omissionSample.Built ∧ (∀ m ∈ omissionSample.nodes, m.isFilled = true) ∧
    (∀ x, .cteName x ∈ omissionSample.walk Engine.postgres.dialect → x.columns ≠ some []) ∧
    omissionSample.compile Engine.postgres.dialect =
      .ok ⟨"WITH \x22x\x22(\x22a\x22) AS (SELECT *) SELECT * FROM f((1, '()'))", []⟩ ∧
    (∀ s, omissionSample.Calls Engine.postgres.dialect s → Text.isFlat s = true) ∧
    ∃ ps, omissionSample.render Engine.postgres.dialect false = .ok ps ∧
      Piece.Announced (omissionSample.Calls Engine.postgres.dialect) ps ∧
      ¬ ['(', ')'] <:+: (Piece.outline Engine.postgres.dialect ps).toList := by
  have hcte : (Node.cte ⟨⟨⟨"x"⟩, some [⟨⟨"a"⟩⟩]⟩, none, .select {}⟩).Built :=
    .cte (@Built.cteName "x" (some ["a"]) _ rfl) .select none
  have hcall : (Node.function "f" [.value (.array [.int 1, .text "()"]) true]).Built :=
    @Built.call "f" _ _ (List.forall_mem_singleton.mpr (.value _ true)) rfl
  have hb : omissionSample.Built :=
    .selectCall (.addSelections [])
      (.selectFrom (w := some ⟨false, [⟨⟨⟨"x"⟩, some [⟨⟨"a"⟩⟩]⟩, none, .select {}⟩]⟩)
        (List.forall_mem_singleton.mpr hcall) (by rintro _ ⟨⟩; exact .with hcte false) rfl)
      (List.forall_mem_nil _) rfl
  have hf : omissionSample.nodes.all isFilled = true := by cbv
  have hnames : (omissionSample.walk Engine.postgres.dialect).filterMap KindOf.cteName.get? =
      [⟨⟨"x"⟩, some [⟨⟨"a"⟩⟩]⟩] := by cbv
  have hcallees : (omissionSample.walk Engine.postgres.dialect).filterMap callee? = ["f"] := by cbv
  have ht : omissionSample.compile Engine.postgres.dialect =
      .ok ⟨"WITH \x22x\x22(\x22a\x22) AS (SELECT *) SELECT * FROM f((1, '()'))", []⟩ := by cbv
  rw [List.all_eq_true] at hf
  have hc : ∀ x, .cteName x ∈ omissionSample.walk Engine.postgres.dialect →
      x.columns ≠ some [] := by
    intro x hx
    have hmem : x ∈ (omissionSample.walk Engine.postgres.dialect).filterMap KindOf.cteName.get? :=
      List.mem_filterMap.mpr ⟨_, hx, rfl⟩
    rw [hnames, List.mem_singleton] at hmem
    rw [hmem]
    intro he
    cases he
  have hn : ∀ s, omissionSample.Calls Engine.postgres.dialect s → Text.isFlat s = true := by
    intro s hs
    have hmem := hs.mem_callees
    rw [hcallees, List.mem_singleton] at hmem
    rw [hmem]
    rfl
  obtain ⟨ps, hps, -, -, ha, ho, -⟩ := isPhrase_compile Engine.postgres.isFlat hb hf hc ht
  exact ⟨hb, hf, hc, ht, hn, ps, hps, ha, ho hn⟩

/-- The name of a common table expression with an empty list of columns. -/
def columnlessSample : Node :=
  .select { withClause := some ⟨false, [⟨⟨⟨"x"⟩, some []⟩, none, .select {}⟩]⟩ }

/-- An empty list of columns is written, and a name with parentheses in it as it is. -/
theorem isInfix_outline_columnlessSample :
    (columnlessSample.Built ∧ (∀ m ∈ columnlessSample.nodes, m.isFilled = true) ∧
      columnlessSample.compile Engine.postgres.dialect =
        .ok ⟨"WITH \x22x\x22() AS (SELECT *) SELECT *", []⟩ ∧
      ∃ ps, columnlessSample.render Engine.postgres.dialect false = .ok ps ∧
        ['(', ')'] <:+: (Piece.outline Engine.postgres.dialect ps).toList) ∧
    ∃ n : Node, n.Built ∧ (∀ m ∈ n.nodes, m.isFilled = true) ∧
      n.compile Engine.postgres.dialect = .ok ⟨"f()($1)", [.null]⟩ := by
  have hcte : (Node.cte ⟨⟨⟨"x"⟩, some []⟩, none, .select {}⟩).Built :=
    .cte (@Built.cteName "x" (some []) _ rfl) .select none
  have hb : columnlessSample.Built :=
    .selectCall (.common (.addWith ⟨false, [⟨⟨⟨"x"⟩, some []⟩, none, .select {}⟩]⟩)) .select
      (List.forall_mem_singleton.mpr (.with hcte false)) rfl
  have hf : columnlessSample.nodes.all isFilled = true := by cbv
  have ht : columnlessSample.compile Engine.postgres.dialect =
      .ok ⟨"WITH \x22x\x22() AS (SELECT *) SELECT *", []⟩ := by cbv
  have hx : Node.cteName ⟨⟨"x"⟩, some []⟩ ∈ columnlessSample.walk Engine.postgres.dialect :=
    List.mem_of_getElem? (i := 3) (by cbv)
  have hcall : (Node.function "f()" [.value .null false]).Built :=
    @Built.call "f()" _ _ (List.forall_mem_singleton.mpr (.value .null false)) rfl
  have hcf : (Node.function "f()" [.value .null false]).nodes.all isFilled = true := by cbv
  rw [List.all_eq_true] at hf hcf
  refine ⟨⟨hb, hf, ht, ?_⟩, _, hcall, hcf, by cbv⟩
  obtain ⟨ps, hps, -⟩ := compile_eq_ok.mp ht
  exact ⟨ps, hps, isInfix_outline hps hx rfl⟩

end Node

end SqlTree

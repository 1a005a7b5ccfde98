import SqlTree.Proofs.Lexical.Layout

/-! # The tokens of a compiled tree

Under the built-in dialects the text of a compiled tree scans to its end. Its parentheses close in
order, and its quoted identifiers, strings and placeholders are the names, literals and parameters
of the tree in the order of the walk. -/

namespace SqlTree

open Item Layout

/-! ## Layouts -/

theorem Select.fits_layout (q : Select Node) : Each Fits q.layout := by
  obtain ⟨fromItems, selections, distinct, joins, whereClause, groupBy, having, orderBy, limit,
    offset, withClause, explain, top, endModifiers⟩ := q
  have hk : Fits [text (if distinct then "SELECT DISTINCT" else "SELECT")] := by
    cases distinct <;> exact ⟨rfl, fun _ => rfl⟩
  have hs : Fits [text "*"] := ⟨rfl, fun _ => rfl⟩
  rcases selections with _ | _ | ⟨n, ns⟩
  all_goals simp [layout, hk, hs, fits_part, fits_spaces, fits_commas]

theorem Insert.fits_layout (q : Insert Node) {keyword : String} (hk : Fits [text keyword]) :
    Each Fits (q.layout keyword) := by
  obtain ⟨into, columns, source, defaultValues, ignore, onConflict, returning, output, withClause,
    explain, top, endModifiers⟩ := q
  have hi : Fits [text "INTO ", .part (.table into)] := ⟨rfl, fun _ => rfl⟩
  have hs : Fits [text "DEFAULT VALUES"] := ⟨rfl, fun _ => rfl⟩
  have hc (cs : List Column) : Fits (if cs = [] then [] else tuple (cs.map .column)) := by
    split
    · exact fits_nil
    · exact fits_tuple _
  cases source <;> simp [layout, hk, hs, hi, hc, fits_part, fits_spaces]

theorem Update.fits_layout (q : Update Node) (as : List (Assignment Node)) :
    Each Fits (q.layout as) := by
  have hk : Fits [text "UPDATE"] := ⟨rfl, fun _ => rfl⟩
  have hs : Fits (listed "SET " (as.map .assignment)) := fits_listed rfl (fun _ => rfl) _
  simp [layout, hk, hs, fits_part, fits_spaces]

theorem Delete.fits_layout (q : Delete Node) : Each Fits q.layout := by
  have hk : Fits [text "DELETE"] := ⟨rfl, fun _ => rfl⟩
  simp [layout, hk, fits_part, fits_spaces]

theorem Explain.fits_layout (g : Engine) (e : Explain Node) : Fits (e.layout g.dialect) := by
  obtain ⟨format, options⟩ := e
  cases g <;> rcases format with _ | format <;> rcases options with _ | n
  all_goals try cases format
  all_goals
    simp only [layout, Engine.dialect, ExplainSyntax.parenthesized, ExplainSyntax.bare,
      ExplainFormat.sql, Option.isNone_none, Option.isNone_some, Option.isSome_none,
      Option.isSome_some, Bool.and_true, Bool.and_false, Bool.false_eq_true, if_true, if_false,
      Option.toList_none, Option.toList_some, List.map_cons, List.map_nil, List.cons_append,
      List.nil_append, String.reduceAppend]
    exact ⟨rfl, fun _ => rfl⟩

theorem OnConflict.fits_layout (c : OnConflict Node) : Fits c.layout := by
  obtain ⟨columns, constraint, doNothing, updates, updateWhere⟩ := c
  refine Trails.text rfl (fun _ => rfl) (Trails.append (Trails.append ?_ ?_) ?_)
  · exact trails_getD_map (fun cs => ⟨(fits_tuple _).text rfl fun _ => rfl, rfl⟩) columns
  · exact trails_getD_map (fun i => ⟨⟨rfl, fun _ => rfl⟩, rfl⟩) constraint
  · dsimp only
    split
    · exact ⟨⟨rfl, fun _ => rfl⟩, rfl⟩
    · split
      · exact ⟨⟨rfl, fun _ => rfl⟩, rfl⟩
      · exact ⟨⟨rfl, fun _ => rfl⟩, rfl⟩
      · have hw := trails_getD_map (f := fun p => [text " ", .part (.where p)])
          (fun p => ⟨⟨rfl, fun _ => rfl⟩, rfl⟩) updateWhere
        exact ⟨(fits_listed rfl (fun _ => rfl) _).append hw.1 hw.2, rfl⟩

/-- What a tree must not hold for its text to be made of known tokens: verbatim text, and names of
functions of other characters. A reference to a column or to all columns is what the builders
make. -/
def Node.isLexical : Node → Bool
  | .raw .. => false
  | .function name _ => name.toList.all isNumeralChar
  | .reference _ c =>
    match c with
    | .column _ | .selectAll => true
    | _ => false
  | _ => true

/-- A unary minus right before its operand. -/
def Node.isTight : Node → Bool
  | .unary .neg n => OperandPosition.isAtom n
  | _ => false

theorem Node.isTight_iff {n : Node} :
    n.isTight = true ↔ ∃ m, n = .unary .neg m ∧ OperandPosition.isAtom m = true := by
  unfold isTight
  split <;> simp_all

theorem Node.column_of_isLexical {t : Option Table} {c : Node}
    (h : (Node.reference t c).isLexical = true) : (∃ k, c = .column k) ∨ c = .selectAll := by
  cases c <;> simp_all [isLexical]

theorem Dialect.fits_operator (d : Dialect) (op : Operator) : Fits [text (d.operator op)] := by
  cases op
  case iLike | notILike =>
    simp only [operator, iLike]
    cases d.hasILike <;> exact ⟨rfl, fun _ => rfl⟩
  all_goals
    simp only [operator, Operator.sql]
    exact ⟨rfl, fun _ => rfl⟩

theorem Engine.fits_insertKeyword {g : Engine} {keyword : String}
    (h : keyword = "INSERT" ∨ g.dialect.insertIgnore = some keyword) : Fits [text keyword] := by
  rcases h with rfl | h
  · exact ⟨rfl, fun _ => rfl⟩
  · cases g <;> cases h
    all_goals exact ⟨rfl, fun _ => rfl⟩

theorem Node.fits_layout {g : Engine} {n : Node} (hn : n.isLexical = true) (hl : n.leaf? = none)
    (ht : n.isTight = false) : ∀ is ∈ (n.layout g.dialect).lists, Fits is := by
  have refused (e : Error) : Fits [.refuse e] := ⟨rfl, fun _ => rfl⟩
  cases n
  case select | insert | update | delete =>
    exact forall_lists_of_isStatement rfl fits_nil refused Select.fits_layout
      (fun q keyword hk => q.fits_layout (Engine.fits_insertKeyword hk))
      (fun q as _ => q.fits_layout as) Delete.fits_layout
  case identifier | value => cases hl
  case raw => cases hn
  all_goals simp only [layout, lists, List.mem_singleton, forall_eq]
  case column | selectAll | «alias» | or | selection | assignment =>
    exact ⟨rfl, fun _ => rfl⟩
  case table t => cases t.schema <;> exact ⟨rfl, fun _ => rfl⟩
  case reference t c => cases t <;> exact ⟨rfl, fun _ => rfl⟩
  case valueList ns => exact fits_tuple ns
  case operator op => exact Dialect.fits_operator _ op
  case binary l op r =>
    have hr : Fits (text " " :: grouped (OperandPosition.binary.parenthesizes r) r) :=
      (fits_grouped _ r).text rfl fun _ => rfl
    exact (fits_grouped _ l).append ((hr.part rfl).text rfl fun _ => rfl) rfl
  case unary op n =>
    by_cases hop : op = .neg
    · subst hop
      have hp : OperandPosition.negated.parenthesizes n = true := by
        rw [OperandPosition.parenthesizes_negated, show OperandPosition.isAtom n = false from ht]
        rfl
      rw [if_pos rfl, hp]
      exact (fits_grouped true n).part rfl
    · rw [if_neg hop]
      exact ((fits_grouped _ n).text rfl fun _ => rfl).part rfl
  case and l r =>
    exact (fits_grouped _ l).append ((fits_grouped _ r).text rfl fun _ => rfl) rfl
  case parens n => exact fits_grouped true n
  case function name ns =>
    have hname : Text.IsNumeral name := ⟨[], name.toList, rfl, .inl rfl, List.all_eq_true.mp hn⟩
    exact Trails.text (Text.isPlain_of_isNumeral hname)
      (Token.isBalanced_of_isInert fun _ => Text.isInert_of_mem_tokens hname)
      ⟨fits_tuple ns, rfl⟩
  case «from» ns | «using» ns | output ns | groupBy ns | «on» n | «where» n | having n | limit n =>
    exact fits_listed rfl (fun _ => rfl) _
  case returning | orderBy | values => exact fits_listed rfl (fun _ => rfl) _
  case join j =>
    obtain ⟨type, table, condition⟩ := j
    have hc := trails_getD_map (f := fun n => [text " ", .part (.on n)])
      (fun n => ⟨⟨rfl, fun _ => rfl⟩, rfl⟩) condition
    have htable := Fits.part (n := table) hc.1 hc.2
    cases type
    all_goals
      simp only [JoinType.sql, String.reduceAppend]
      exact htable.text rfl fun _ => rfl
  case orderByItem i =>
    obtain ⟨expr, _ | direction⟩ := i
    · exact ⟨rfl, fun _ => rfl⟩
    · cases direction <;> exact ⟨rfl, fun _ => rfl⟩
  case offset n => cases g <;> exact ⟨rfl, fun _ => rfl⟩
  case top t =>
    obtain ⟨count, modifier⟩ := t
    have hk : Text.plainScan "TOP(" = some ([.word "TOP", Token.opening], .start) := rfl
    obtain ⟨us, hu, hi⟩ := Text.plainScan_enclosed (Text.isNumeral_nat count.toNat) hk
    have hm : Fits (modifier.toList.map fun m => text (" " ++ m.sql)) := by
      rcases modifier with _ | m
      · exact fits_nil
      · cases m <;> exact ⟨rfl, fun _ => rfl⟩
    refine hm.text ?_ ?_
    · rw [Text.isComplete, hu]
    · rw [Text.tokens, hu]
      have hw := (Token.isBalanced_of_isInert hi).wrap
      simpa [Mode.pending?] using hw.cons (t := .word "TOP") (by decide) (by decide)
  case explain e => exact e.fits_layout g
  case «with» w =>
    obtain ⟨isRecursive, ctes⟩ := w
    cases isRecursive with
    | false => exact fits_listed (k := "WITH ") rfl (fun _ => rfl) _
    | true => exact fits_listed (k := "WITH RECURSIVE ") rfl (fun _ => rfl) _
  case cte c =>
    obtain ⟨name, materialized, body⟩ := c
    rcases materialized with _ | _ | _
    all_goals
      simp only [Dialect.materializedText, String.reduceAppend]
      exact ⟨rfl, fun _ => rfl⟩
  case cteName n =>
    have hc := trails_getD_map (f := fun cs : List Column => tuple (cs.map .column))
      (fun cs => ⟨fits_tuple _, rfl⟩) n.columns
    exact hc.1.part hc.2
  case onConflict c => exact c.fits_layout
  case modifier m => cases m <;> exact ⟨rfl, fun _ => rfl⟩

/-! ## Marks of bound values and minus signs -/

namespace Dialect

variable {d : Dialect}

theorem reads_mark {c : Char} {cs : List Char} (hc : d.beginToken c = ([], .mark [c]))
    (h : ∀ x ∈ cs, isWordChar x = true) :
    d.Reads (c :: cs) [.placeholder (String.ofList (c :: cs))] := by
  have hm (read : List Char) :
      Scan.through d.scanStep (.mark read) cs = some ([], .mark (cs.reverse ++ read)) := by
    induction cs generalizing read with
    | nil => rfl
    | cons x xs ih =>
        rw [List.forall_mem_cons] at h
        have hx : d.scanStep (.mark read) x = some ([], .mark (x :: read)) := by
          rw [scanStep, if_pos h.1]
        rw [through_silent hx, ih h.2, List.reverse_cons, List.append_assoc,
          List.singleton_append]
  have hs : d.scanStep .start c = some ([], .mark [c]) := congrArg some hc
  refine ⟨[], .mark (cs.reverse ++ [c]), _, by rw [through_silent hs, hm], rfl, ?_⟩
  simp

/-- A minus is read as one, unless another one follows. -/
theorem Reads.minus (hd : d.IsLexical) {cs : List Char} {ts : List Token} (h : d.Reads cs ts)
    (hc : cs.head? ≠ some '-') : d.Reads ('-' :: cs) (.symbol "-" :: ts) := by
  obtain ⟨us, m, vs, hs, hm, rfl⟩ := h
  have ho : d.scanStep .start '-' = some ([], .operator '-') :=
    congrArg some (beginToken_of_plain hd rfl)
  cases cs with
  | nil =>
      cases hs
      cases hm
      exact ⟨[], .operator '-', _, through_silent ho [], rfl, rfl⟩
  | cons c cs =>
      have hne : c ≠ '-' := fun h => hc (congrArg some h)
      have hb : d.scanStep .start c = some (d.beginToken c) := rfl
      have hn : d.scanStep (.operator '-') c = some (d.nextToken (.symbol "-") c) := by
        simp only [scanStep, isCommentStart, isOperatorPair, hne]
        rfl
      refine ⟨.symbol "-" :: us, m, vs, ?_, hm, rfl⟩
      rw [Scan.through_cons, hb, Option.bind_some] at hs
      rw [through_silent ho, Scan.through_cons, hn, Option.bind_some, nextToken]
      obtain ⟨t, ht, hus⟩ := Option.map_eq_some_iff.mp hs
      cases hus
      rw [ht]
      rfl

end Dialect

namespace Engine

theorem isNumeral_boolLiteral (e : Engine) (b : Bool) :
    Text.IsNumeral (e.dialect.boolLiteral b) := by
  cases e <;> cases b <;> exact ⟨[], _, rfl, .inl rfl, List.all_eq_true.mp rfl⟩

theorem isWordChar_of_mem_toDigits {n : Nat} {c : Char} (h : c ∈ Nat.toDigits 10 n) :
    isWordChar c = true := by
  have hd := Nat.isDigit_of_mem_toDigits (by decide) (by decide) h
  simp [isWordChar, Char.isAlphanum, hd]

theorem reads_placeholder (e : Engine) (k : Nat) :
    e.dialect.Reads (e.dialect.placeholder.text k).toList
      [.placeholder (e.dialect.placeholder.text k)] := by
  have hk : (toString k).toList = Nat.toDigits 10 k := Nat.toList_repr
  cases e
  case mysql | sqlite =>
    show Dialect.Reads _ "?".toList [.placeholder "?"]
    rw [show "?" = String.ofList ['?'] from rfl, String.toList_ofList]
    exact Dialect.reads_mark rfl (List.forall_mem_nil _)
  case postgres =>
    have hm := Dialect.reads_mark (d := postgres.dialect) (c := '$') rfl
      (fun x => isWordChar_of_mem_toDigits (n := k))
    have ht : (postgres.dialect.placeholder.text k).toList = '$' :: Nat.toDigits 10 k := by
      show ("$" ++ toString k).toList = _
      rw [String.toList_append, hk]
      rfl
    rw [← ht, String.ofList_toList] at hm
    exact hm
  case sqlserver =>
    have hm := Dialect.reads_mark (d := sqlserver.dialect) (c := '@') rfl
      (List.forall_mem_cons.mpr ⟨(by decide : isWordChar 'p' = true),
        fun x => isWordChar_of_mem_toDigits (n := k)⟩)
    have ht : (sqlserver.dialect.placeholder.text k).toList =
        '@' :: 'p' :: Nat.toDigits 10 k := by
      show ("@p" ++ toString k).toList = _
      rw [String.toList_append, hk]
      rfl
    rw [← ht, String.ofList_toList] at hm
    exact hm

end Engine

/-! ## Operands of a minus -/

/-- Pieces whose text does not begin with a minus. -/
def Piece.Unsigned (d : Dialect) (ps : List Piece) : Prop :=
  ∀ k, (write d k ps).toList.head? ≠ some '-'

namespace Piece

variable {d : Dialect}

theorem unsigned_text {s : String} {c : Char} {cs : List Char} (hs : s.toList = c :: cs)
    (hc : c ≠ '-') (ps : List Piece) : Unsigned d (.text s :: ps) := fun k => by
  rw [write, String.toList_append, hs]
  exact fun h => hc (Option.some.inj h)

theorem unsigned_name (hd : d.IsLexical) (s : String) (ps : List Piece) :
    Unsigned d (.name s :: ps) := fun k h => by
  rw [write, String.toList_append] at h
  have hc : d.quotes.opening = '-' := by simpa [Dialect.identifier, Text.quoted] using h
  have ho := hd.opening
  rw [hc] at ho
  cases ho

theorem Read.minus (hd : d.IsLexical) {ps : List Piece} (hr : Read d ps) (hu : Unsigned d ps) :
    Read d (.text "-" :: ps) := fun k => by
  rw [write, tokens, String.toList_append]
  exact (hr k).minus hd (hu k)

end Piece

theorem Engine.unsigned_bound (e : Engine) (v : Value) (ps : List Piece) :
    Piece.Unsigned e.dialect (.bound v :: ps) := fun k => by
  rw [Piece.write, String.toList_append]
  cases e <;> simp [dialect, Placeholder.text]

theorem Dialect.renderIdentifier_eq_ok {d : Dialect} {i : Identifier} {ps : List Piece}
    (h : d.renderIdentifier i = .ok ps) : ps = [.name i.name] := by
  obtain ⟨-, h⟩ := gate_eq_ok.mp h
  exact (Except.ok.inj h).symm

theorem Dialect.renderColumn_eq_ok {d : Dialect} {c : Column} {ps : List Piece}
    (h : d.renderColumn c = .ok ps) : ps = [.name c.column.name] :=
  renderIdentifier_eq_ok (gate_eq_ok.mp h).2

theorem Dialect.renderTable_eq_ok {d : Dialect} {t : Table} {ps : List Piece}
    (h : d.renderTable t = .ok ps) : ∃ s qs, ps = .name s :: qs := by
  obtain ⟨-, h⟩ := gate_eq_ok.mp h
  obtain ⟨schema, table⟩ := t
  obtain ⟨qs, rs, hq, hr, rfl⟩ := Rendering.append_eq_ok.mp h
  cases schema with
  | none =>
      cases hq
      obtain ⟨_, _, hi, ⟨⟩, rfl⟩ := Rendering.append_eq_ok.mp hr
      rw [renderIdentifier_eq_ok hi]
      exact ⟨_, _, rfl⟩
  | some s =>
      obtain ⟨_, _, hi, -, rfl⟩ := Rendering.append_eq_ok.mp hq
      rw [renderIdentifier_eq_ok hi]
      exact ⟨_, _, rfl⟩

/-- An operand that a minus takes without parentheses does not begin with a minus. -/
theorem Node.unsigned_render {e : Engine} {n : Node} {ps : List Piece}
    (ha : OperandPosition.isAtom n = true) (hn : n.isLexical = true)
    (h : n.render e.dialect true = .ok ps) : Piece.Unsigned e.dialect ps := by
  have hd := e.isLexical
  cases n <;> try cases ha
  all_goals
    rw [render] at h
  case column c =>
    rw [Dialect.renderColumn_eq_ok h]
    exact Piece.unsigned_name hd _ _
  case reference t c =>
    obtain ⟨qs, rs, hq, hr, rfl⟩ := Rendering.append_eq_ok.mp (Dialect.gate_eq_ok.mp h).2
    cases t with
    | some t =>
        obtain ⟨_, _, ht, -, rfl⟩ := Rendering.append_eq_ok.mp hq
        obtain ⟨s, ss, rfl⟩ := Dialect.renderTable_eq_ok ht
        exact Piece.unsigned_name hd _ _
    | none =>
        cases hq
        obtain ⟨_, _, hc, ⟨⟩, rfl⟩ := Rendering.append_eq_ok.mp hr
        obtain ⟨c, rfl⟩ | rfl := column_of_isLexical hn
        · rw [render] at hc
          rw [Dialect.renderColumn_eq_ok hc]
          exact Piece.unsigned_name hd _ _
        · rw [render, Dialect.gate_eq_ok] at hc
          cases hc.2
          exact Piece.unsigned_text (c := '*') rfl (by decide) _
  case value v immediate =>
    rw [Dialect.gate_eq_ok] at h
    cases immediate with
    | true => cases ha
    | false =>
        cases h.2
        exact e.unsigned_bound v []
  case function name ns =>
    obtain ⟨qs, rs, hq, hr, rfl⟩ := Rendering.append_eq_ok.mp (Dialect.gate_eq_ok.mp h).2
    cases hq
    cases hname : name.toList with
    | nil =>
        obtain ⟨us, -, hu, ⟨⟩, rfl⟩ := Rendering.append_eq_ok.mp hr
        obtain ⟨vs, -, rfl⟩ := Rendering.parenthesized_eq_ok.mp hu
        intro k
        rw [String.toList_eq_nil_iff.mp hname, List.singleton_append, Piece.write,
          String.empty_append]
        exact Piece.unsigned_text (c := '(') rfl (by decide) _ k
    | cons c cs =>
        have hc : isNumeralChar c = true := List.all_eq_true.mp hn c (by simp [hname])
        refine Piece.unsigned_text hname (fun h => ?_) _
        rw [h] at hc
        cases hc
  case valueList | parens | select =>
    obtain ⟨qs, -, rfl⟩ := Rendering.parenthesized_eq_ok.mp (Dialect.gate_eq_ok.mp h).2
    exact Piece.unsigned_text (c := '(') rfl (by decide) _

/-! ## Renderings -/

/-- An identifier or a value is read as one token, or as those of a literal. -/
theorem Node.read_leaf {e : Engine} {n : Node} {b : Bool} {ps : List Piece} (hl : n.leaf? ≠ none)
    (h : (n.layout e.dialect).render e.dialect b = .ok ps) :
    Piece.Read e.dialect ps ∧ Piece.Balanced e.dialect ps := by
  cases n
  case identifier i =>
    cases h
    refine ⟨fun k => ?_, fun _ => Token.isBalanced_of_isPlain_eq_false rfl⟩
    show e.dialect.Reads (e.dialect.identifier i.name ++ "").toList [.name i.name]
    rw [String.append_empty]
    exact Dialect.reads_identifier e.dialect i.name
  case value v immediate =>
    cases h
    cases immediate with
    | true =>
        refine ⟨fun k => ?_, fun k => ?_⟩
        · simp only [Piece.write, Piece.tokens, if_true, String.append_empty, List.append_nil]
          exact Dialect.reads_literal e.isLexical e.isNumeral_boolLiteral v
        · simp only [Piece.tokens, if_true, List.append_nil]
          exact Dialect.isBalanced_literalTokens e.isNumeral_boolLiteral v
    | false =>
        refine ⟨fun k => ?_, fun _ => Token.isBalanced_of_isPlain_eq_false rfl⟩
        show e.dialect.Reads (e.dialect.placeholder.text k ++ "").toList
          [.placeholder (e.dialect.placeholder.text k)]
        rw [String.append_empty]
        exact e.reads_placeholder k
  all_goals exact absurd rfl hl

/-- A unary minus right before its operand is read as a minus. -/
theorem Node.read_tight {e : Engine} {n : Node} {ps : List Piece} (ht : n.isTight = true)
    (hn : ∀ m ∈ n.parts e.dialect, m.isLexical = true)
    (h : (n.layout e.dialect).render e.dialect n.kind.delimits = .ok ps)
    (hparts : ∀ m ∈ n.parts e.dialect, ∀ b qs, m.render e.dialect b = .ok qs →
      Piece.Read e.dialect qs ∧ Piece.Balanced e.dialect qs) :
    Piece.Read e.dialect ps ∧ Piece.Balanced e.dialect ps := by
  obtain ⟨m, rfl, hm⟩ := isTight_iff.mp ht
  have hmem : m ∈ (Node.unary .neg m).parts e.dialect := by simp [parts]
  rw [layout, if_pos rfl, OperandPosition.parenthesizes_negated, hm] at h
  obtain ⟨os, rs, ho, hrs, rfl⟩ := Item.renderAll_cons_eq_ok.mp h
  obtain ⟨us, vs, hu, ⟨⟩, rfl⟩ := Item.renderAll_cons_eq_ok.mp hrs
  rw [Item.render_part, render, Dialect.renderOperator, Dialect.gate_eq_ok] at ho
  cases ho.2
  obtain ⟨hread, hbal⟩ := hparts m hmem _ us hu
  rw [List.append_nil]
  refine ⟨hread.minus e.isLexical (unsigned_render hm (hn m hmem) hu), fun k => ?_⟩
  rw [show e.dialect.operator .neg = "-" from rfl]
  exact (hbal k).cons (t := .symbol "-") (by decide) (by decide)

/-- A node is read if its parts are, wherever they stand. -/
theorem Node.read_of_parts {e : Engine} {n : Node} {nested : Bool} {ps : List Piece}
    (hn : n.isLexical = true) (hl : ∀ m ∈ n.parts e.dialect, m.isLexical = true)
    (hparts : ∀ m ∈ n.parts e.dialect, ∀ b qs, m.render e.dialect b = .ok qs →
      Piece.Read e.dialect qs ∧ Piece.Balanced e.dialect qs)
    (h : n.render e.dialect nested = .ok ps) :
    Piece.Read e.dialect ps ∧ Piece.Balanced e.dialect ps := by
  obtain ⟨-, hp, qs, hq, rfl⟩ := Node.render_eq_ok h
  suffices hr : Piece.Read e.dialect qs ∧ Piece.Balanced e.dialect qs from
    ⟨hr.1.wrapped e.isLexical _, hr.2.wrapped _⟩
  by_cases hleaf : n.leaf? = none
  · by_cases ht : n.isTight = true
    · exact read_tight ht hl hq hparts
    · rw [Bool.not_eq_true] at ht
      exact Layout.read_render e.isLexical hq (fits_layout hn hleaf ht) fun m hm rs hr =>
        hparts m (hp ▸ hm) _ rs hr
  · exact read_leaf hleaf hq

/-- The pieces of a rendering are read one by one, and their parentheses close in order. -/
theorem Node.read_render {e : Engine} {n : Node} {nested : Bool} {ps : List Piece}
    (hn : ∀ m ∈ n.walk e.dialect, m.isLexical = true)
    (h : n.render e.dialect nested = .ok ps) :
    Piece.Read e.dialect ps ∧ Piece.Balanced e.dialect ps := by
  induction n using Node.induction_parts e.dialect generalizing nested ps with
  | step n ih =>
      rw [walk_eq, List.forall_mem_cons] at hn
      refine read_of_parts hn.1 (fun m hm => ?_) (fun m hm b qs hq => ?_) h
      · exact hn.2 m (List.mem_flatMap.mpr ⟨m, hm, mem_walk_self _ m⟩)
      · exact ih m hm (fun k hk => hn.2 k (List.mem_flatMap.mpr ⟨m, hm, hk⟩)) hq

/-! ## What the tokens of a rendering tell -/

namespace Piece

/-- The name a piece quotes. -/
def name? : Piece → Option String
  | .name s => some s
  | _ => none

/-- The strings a piece quotes. -/
def strings : Piece → List String
  | .literal v => v.strings
  | _ => []

variable {d : Dialect}

/-- The quoted names, the strings and the marks that pieces are written with. -/
def quoted (d : Dialect) : Nat → List Piece → List Token
  | _, [] => []
  | k, .text _ :: ps => quoted d k ps
  | k, .name s :: ps => .name s :: quoted d k ps
  | k, .literal v :: ps => v.strings.map .string ++ quoted d k ps
  | k, .bound _ :: ps => .placeholder (d.placeholder.text k) :: quoted d (k + 1) ps

/-- What is read from quoted tokens only is read from those of the pieces. -/
theorem filterMap_tokens {f : Token → Option String} (hf : Dialect.IsQuotedReading f) (k : Nat)
    (ps : List Piece) :
    (tokens d k ps).filterMap f = (quoted d k ps).filterMap f := by
  induction ps generalizing k with
  | nil => rfl
  | cons p ps ih =>
      cases p with
      | text s =>
          rw [tokens, List.filterMap_append, Dialect.filterMap_plain hf, ih, quoted]
          rfl
      | name s => rw [tokens, quoted, List.filterMap_cons, List.filterMap_cons, ih]
      | literal v =>
          rw [tokens, quoted, List.filterMap_append, List.filterMap_append,
            Dialect.filterMap_literalTokens hf, List.filterMap_map, ih]
          rfl
      | bound v => rw [tokens, quoted, List.filterMap_cons, List.filterMap_cons, ih]

theorem filterMap_name?_tokens (k : Nat) (ps : List Piece) :
    (tokens d k ps).filterMap Token.name? = ps.filterMap name? := by
  rw [filterMap_tokens ⟨fun t ht => (by cases t <;> first | rfl | cases ht), fun _ => rfl⟩]
  induction ps generalizing k with
  | nil => rfl
  | cons p ps ih =>
      cases p with
      | text s => exact ih k
      | name s => exact congrArg (s :: ·) (ih k)
      | literal v =>
          rw [quoted, List.filterMap_append, ih, List.filterMap_map]
          exact congrArg (· ++ _) (List.filterMap_eq_nil_iff.mpr fun _ _ => rfl)
      | bound v => exact ih (k + 1)

theorem filterMap_string?_tokens (k : Nat) (ps : List Piece) :
    (tokens d k ps).filterMap Token.string? = ps.flatMap strings := by
  rw [filterMap_tokens ⟨fun t ht => (by cases t <;> first | rfl | cases ht), fun _ => rfl⟩]
  induction ps generalizing k with
  | nil => rfl
  | cons p ps ih =>
      cases p with
      | text s => exact ih k
      | name s => exact ih k
      | literal v =>
          rw [quoted, List.filterMap_append, ih, List.filterMap_map]
          exact congrArg (· ++ _) List.filterMap_some
      | bound v => exact ih (k + 1)

theorem filterMap_placeholder?_tokens (k : Nat) (ps : List Piece) :
    (tokens d k ps).filterMap Token.placeholder? =
      (List.range' k (boundValues ps).length).map d.placeholder.text := by
  rw [filterMap_tokens ⟨fun t ht => (by cases t <;> first | rfl | cases ht), fun _ => rfl⟩]
  induction ps generalizing k with
  | nil => rfl
  | cons p ps ih =>
      cases p with
      | text s => exact ih k
      | name s => exact ih k
      | literal v =>
          rw [quoted, List.filterMap_append, ih, List.filterMap_map]
          exact congrArg (· ++ _) (List.filterMap_eq_nil_iff.mpr fun _ _ => rfl)
      | bound v => exact congrArg (d.placeholder.text k :: ·) (ih (k + 1))

theorem filterMap_name?_leaves (ps : List Piece) :
    (leaves ps).filterMap name? = ps.filterMap name? := by
  rw [leaves, List.filterMap_filter]
  congr 1
  funext p
  cases p <;> rfl

theorem flatMap_strings_leaves (ps : List Piece) :
    (leaves ps).flatMap strings = ps.flatMap strings := by
  induction ps with
  | nil => rfl
  | cons p ps ih =>
      cases p with
      | text s => exact ih
      | name | literal | bound => exact congrArg (_ ++ ·) ih

end Piece

/-! ## Compiled trees -/

namespace Node

/-- The name of an identifier. -/
def name? : Node → Option String
  | .identifier i => some i.name
  | _ => none

/-- The strings that a value quotes if it is written as a literal. -/
def strings : Node → List String
  | .value v true => v.strings
  | _ => []

theorem filterMap_name?_leaves (d : Dialect) (n : Node) :
    (n.leaves d).filterMap Piece.name? = (n.walk d).filterMap name? := by
  rw [leaves, List.filterMap_filterMap]
  congr 1
  funext m
  cases m
  case value v immediate => cases immediate <;> rfl
  all_goals rfl

theorem flatMap_strings_leaves (d : Dialect) (n : Node) :
    (n.leaves d).flatMap Piece.strings = (n.walk d).flatMap strings := by
  rw [leaves, List.filterMap_eq_flatMap_toList, List.flatMap_assoc]
  congr 1
  funext m
  cases m
  case value v immediate => cases immediate <;> simp [leaf?, strings, Piece.strings]
  all_goals rfl

/-- The text of a compiled tree without verbatim text is read to its end by the scanner of the
dialect. Its parentheses close in order, its quoted names are the identifiers of the walk, its
strings those of the literals of the walk, and its marks the placeholders of the parameters, each
in their order. -/
theorem scan_compile {e : Engine} {n : Node} {c : Compiled}
    (hn : ∀ m ∈ n.walk e.dialect, m.isLexical = true) (h : n.compile e.dialect = .ok c) :
    ∃ ts, e.dialect.scan? c.sql = some ts ∧ Token.depth 0 ts = some 0 ∧
      ts.filterMap Token.name? = (n.walk e.dialect).filterMap name? ∧
      ts.filterMap Token.string? = (n.walk e.dialect).flatMap strings ∧
      ts.filterMap Token.placeholder? =
        (List.range' 1 c.parameters.length).map e.dialect.placeholder.text := by
  obtain ⟨ps, hps, rfl⟩ := compile_eq_ok.mp h
  obtain ⟨hr, hb⟩ := read_render hn hps
  have hl := leaves_render hps
  refine ⟨Piece.tokens e.dialect 1 ps, (hr 1).scan?_eq, hb 1 0, ?_, ?_, ?_⟩
  · rw [Piece.filterMap_name?_tokens, ← Piece.filterMap_name?_leaves, hl, filterMap_name?_leaves]
  · rw [Piece.filterMap_string?_tokens, ← Piece.flatMap_strings_leaves, hl,
      flatMap_strings_leaves]
  · exact Piece.filterMap_placeholder?_tokens 1 ps

/-- A query whose names and literals hold quotes, backslashes and starts of comments. -/
def lexicalSample : Node :=
  .select
    { fromItems := some [.table ⟨some ⟨"s\x60"⟩, ⟨"t--"⟩⟩]
      selections := some
        [.alias (.value (.text "it\x27s \\ /*") true) ⟨"x"⟩,
         .unary .neg (.value (.int (-1)) true), .value (.bytes [255]) true]
      whereClause := some
        (.binary (.unary .neg (.column ⟨⟨"a"⟩⟩)) .lt
          (.function "abs" [.value (.int 1) false, .value (.text "?") false])) }

def lexicalText : String :=
  "SELECT \x27it\x27\x27s \\\\ /*\x27 AS \x60x\x60, -(-1), X\x27FF\x27 " ++
  "FROM \x60s\x60\x60\x60.\x60t--\x60 WHERE -\x60a\x60 < abs(?, ?)"

theorem scan_compile_lexicalSample :
    (∀ m ∈ lexicalSample.walk Engine.mysql.dialect, m.isLexical = true) ∧
    lexicalSample.compile Engine.mysql.dialect = .ok ⟨lexicalText, [.int 1, .text "?"]⟩ ∧
    ∃ ts, Engine.mysql.dialect.scan? lexicalText = some ts ∧ Token.depth 0 ts = some 0 ∧
      ts.filterMap Token.name? =
        (lexicalSample.walk Engine.mysql.dialect).filterMap name? ∧
      ts.filterMap Token.string? =
        (lexicalSample.walk Engine.mysql.dialect).flatMap strings ∧
      ts.filterMap Token.placeholder? =
        (List.range' 1 2).map Engine.mysql.dialect.placeholder.text := by
  have hn : (lexicalSample.walk Engine.mysql.dialect).all isLexical = true := by cbv
  have hs : lexicalSample.compile Engine.mysql.dialect =
      .ok ⟨lexicalText, [.int 1, .text "?"]⟩ := by cbv
  rw [List.all_eq_true] at hn
  have h := scan_compile hn hs
  exact ⟨hn, hs, h⟩

end Node

end SqlTree

import SqlTree.Proofs.Nesting.Omission

/-! # Single spaces

Outside of quotes, the text of a tree neither begins nor ends with a space, and no two spaces in it
stand next to each other. A text is read from the left to the right with one bit of memory: whether
a space would be too much. Every part of a node leaves something between the spaces around it. -/

namespace SqlTree

/-! ## Reading texts for spaces -/

namespace Text

/-- Reads characters with single spaces, at a place where a space is too much or not, and tells
whether it is too much behind them. -/
def scanSpaces : Bool → List Char → Option Bool
  | b, [] => some b
  | b, c :: cs => if c = ' ' then if b then none else scanSpaces true cs else scanSpaces false cs

/-- Whether a space is too much behind a text, if there is none in it that is too much. -/
def spacing (b : Bool) (s : String) : Option Bool := scanSpaces b s.toList

/-- No space at the beginning or at the end, and no two spaces next to each other. -/
def HasSingleSpaces (s : String) : Prop :=
  s.toList.head? ≠ some ' ' ∧ s.toList.getLast? ≠ some ' ' ∧ ¬ [' ', ' '] <:+: s.toList

theorem scanSpaces_append (b : Bool) (cs ds : List Char) :
    scanSpaces b (cs ++ ds) = (scanSpaces b cs).bind fun c => scanSpaces c ds := by
  induction cs generalizing b with
  | nil => rfl
  | cons c cs ih =>
      rw [List.cons_append, scanSpaces, scanSpaces]
      split
      · cases b with
        | false => exact ih true
        | true => rfl
      · exact ih false

theorem spacing_append (b : Bool) (s t : String) :
    spacing b (s ++ t) = (spacing b s).bind fun c => spacing c t := by
  rw [spacing, String.toList_append, scanSpaces_append]
  rfl

/-- A text that can stand where a space is too much can stand anywhere. -/
theorem spacing_of_true {s : String} (h : spacing true s = some false) (b : Bool) :
    spacing b s = some false := by
  rw [spacing] at h ⊢
  cases hs : s.toList with
  | nil =>
      rw [hs] at h
      cases h
  | cons c cs =>
      rw [hs, scanSpaces] at h
      rw [scanSpaces]
      split at h
      · cases h
      · rename_i hc
        rw [if_neg hc]
        exact h

theorem scanSpaces_of_not_mem {cs : List Char} (h : ' ' ∉ cs) (b : Bool) :
    scanSpaces b cs = some (b && cs.isEmpty) := by
  induction cs generalizing b with
  | nil => cases b <;> rfl
  | cons c cs ih =>
      rw [List.mem_cons, not_or] at h
      rw [scanSpaces, if_neg (Ne.symm h.1), ih h.2]
      cases b <;> rfl

theorem spacing_of_not_mem {s : String} (h : ' ' ∉ s.toList) (b : Bool) :
    spacing b s = some (b && s.toList.isEmpty) := scanSpaces_of_not_mem h b

theorem hasSingleSpaces_of_spacing {s : String} (h : spacing true s = some false) :
    HasSingleSpaces s := by
  rw [spacing] at h
  refine ⟨fun hs => ?_, fun hs => ?_, ?_⟩
  · obtain ⟨cs, hcs⟩ := List.head?_eq_some_iff.mp hs
    rw [hcs] at h
    cases h
  · obtain ⟨cs, hcs⟩ := List.getLast?_eq_some_iff.mp hs
    rw [hcs, scanSpaces_append] at h
    cases hb : scanSpaces true cs with
    | none => simp [hb] at h
    | some b => cases b <;> simp [hb, scanSpaces] at h
  · rintro ⟨cs, ds, hcs⟩
    rw [← hcs, scanSpaces_append, scanSpaces_append] at h
    cases hb : scanSpaces true cs with
    | none => simp [hb] at h
    | some b => cases b <;> simp [hb, scanSpaces] at h

theorem spacing_of_isNumeral {s : String} (hne : s ≠ "") (h : IsNumeral s) :
    spacing true s = some false := by
  have hspace : ' ' ∉ s.toList := by
    obtain ⟨sign, cs, hs, hsign, hcs⟩ := h
    rw [hs, List.mem_append, not_or]
    refine ⟨?_, fun hc => absurd (hcs _ hc) (by decide)⟩
    rcases hsign with rfl | rfl <;> decide
  have he : s.toList.isEmpty = false := by simpa using hne
  rw [spacing_of_not_mem hspace, he]
  rfl

theorem spacing_nat (n : Nat) : spacing true (toString n) = some false :=
  spacing_of_isNumeral (toString_ne_empty n) (isNumeral_nat n)

theorem spacing_int (n : Int) : spacing true (toString n) = some false :=
  spacing_of_isNumeral (toString_int_ne_empty n) (isNumeral_int n)

theorem spacing_commas {s : String} {ss : List String}
    (h : ∀ t ∈ s :: ss, spacing true t = some false) :
    spacing true (", ".intercalate (s :: ss)) = some false := by
  induction ss generalizing s with
  | nil => simpa using h
  | cons t ss ih =>
      rw [List.forall_mem_cons] at h
      rw [String.intercalate_cons_cons, spacing_append, spacing_append, h.1]
      exact ih h.2

/-- A text in parentheses, or nothing in parentheses. -/
theorem spacing_enclosed {s : String} (h : spacing false s = some false) :
    spacing true ("(" ++ s ++ ")") = some false := by
  have hopen : spacing true "(" = some false := rfl
  rw [spacing_append, spacing_append, hopen, Option.bind_some, h]
  rfl

end Text

open Text

/-! ## Dialects -/

/-- Options of EXPLAIN with single spaces around them. -/
structure ExplainSyntax.HasSingleSpaces (x : ExplainSyntax) : Prop where
  opening : ∃ b, spacing true ("EXPLAIN " ++ x.opening) = some b
  delimiter : ∃ b, spacing false x.delimiter = some b
  assignment : ∃ b, spacing false x.assignment = some b
  closing : spacing false x.closing = some false

/-- A dialect whose own texts have single spaces. -/
structure Dialect.HasSingleSpaces (d : Dialect) : Prop where
  quotes : spacing true (d.identifier "") = some false
  bool : ∀ b, spacing true (d.boolLiteral b) = some false
  placeholder : ∀ sign, d.placeholder = .numbered sign → ' ' ∉ sign.toList
  explainSyntax : ∀ x ∈ d.explainSyntax, x.HasSingleSpaces
  offsetSuffix : spacing false d.offsetSuffix = some false
  insertIgnore : ∀ s ∈ d.insertIgnore, spacing true s = some false

theorem Engine.hasSingleSpaces (e : Engine) : e.dialect.HasSingleSpaces where
  quotes := by cases e <;> decide
  bool b := by cases e <;> cases b <;> decide
  placeholder sign hs := by cases e <;> cases hs <;> decide
  explainSyntax x hx := by
    cases e <;> cases hx <;> exact ⟨⟨_, rfl⟩, ⟨_, rfl⟩, ⟨_, rfl⟩, rfl⟩
  offsetSuffix := by cases e <;> decide
  insertIgnore := by cases e <;> decide

namespace Dialect

variable {d : Dialect}

theorem spacing_operator (d : Dialect) (op : Operator) :
    spacing true (d.operator op) = some false := by
  cases op
  case iLike | notILike =>
    simp only [operator, iLike]
    cases d.hasILike <;> decide
  all_goals
    simp only [operator, Operator.sql]
    decide

theorem spacing_placeholder (hd : d.HasSingleSpaces) (k : Nat) :
    spacing true (d.placeholder.text k) = some false := by
  cases hp : d.placeholder with
  | question => exact (by decide : spacing true "?" = some false)
  | numbered sign =>
      rw [Placeholder.text, spacing_append, spacing_of_not_mem (hd.placeholder sign hp)]
      exact spacing_of_true (spacing_nat k) _

theorem spacing_stringLiteral (d : Dialect) : spacing true (d.stringLiteral "") = some false := by
  rw [stringLiteral_empty]
  decide

mutual

theorem spacing_literal (hd : d.HasSingleSpaces) :
    ∀ v : Value, spacing true (d.literal v.emptied) = some false
  | .null => (by decide : spacing true "NULL" = some false)
  | .bool b => hd.bool b
  | .int n => spacing_int n.toInt
  | .float x => spacing_of_isNumeral (Decimal.bitsText_ne_empty x.toBits) (isNumeral_float x)
  | .text _ | .uuid _ | .instant _ | .json _ => d.spacing_stringLiteral
  | .bytes _ => (by decide : spacing true (bytesLiteral []) = some false)
  | .array items => by
    have hi := spacing_literals hd items
    rw [Value.emptied, literal]
    refine spacing_enclosed ?_
    cases items with
    | nil => rfl
    | cons v vs => exact spacing_of_true (spacing_commas hi) false
termination_by structural v => v

theorem spacing_literals (hd : d.HasSingleSpaces) :
    ∀ vs, ∀ s ∈ d.literals (Value.allEmptied vs), spacing true s = some false
  | [] => List.forall_mem_nil _
  | v :: vs => List.forall_mem_cons.mpr ⟨spacing_literal hd v, spacing_literals hd vs⟩
termination_by structural vs => vs

end

end Dialect

/-! ## Pieces -/

namespace Piece

variable {d : Dialect} {ps qs : List Piece}

/-- Pieces whose text outside of quotes is one between spaces, wherever it begins. -/
def HasSingleSpaces (d : Dialect) (ps : List Piece) : Prop :=
  ∀ k, spacing true (write d k (ps.map emptied)) = some false

theorem spacing_emptied (hd : d.HasSingleSpaces) {p : Piece} (hp : ∀ s, p ≠ .text s) (k : Nat) :
    spacing true (write d k [p.emptied]) = some false := by
  cases p with
  | text s => exact absurd rfl (hp s)
  | name s =>
      show spacing true (d.identifier "" ++ "") = some false
      rw [String.append_empty]
      exact hd.quotes
  | literal v =>
      show spacing true (d.literal v.emptied ++ "") = some false
      rw [String.append_empty]
      exact Dialect.spacing_literal hd v
  | bound v =>
      show spacing true (d.placeholder.text k ++ "") = some false
      rw [String.append_empty]
      exact Dialect.spacing_placeholder hd k

theorem HasSingleSpaces.link (hp : HasSingleSpaces d ps) (hq : HasSingleSpaces d qs) :
    HasSingleSpaces d (ps ++ .text " " :: qs) := fun k => by
  rw [write_emptied_append, write_emptied_text, spacing_append, hp k, Option.bind_some,
    spacing_append]
  exact hq _

theorem HasSingleSpaces.wrapped (hp : HasSingleSpaces d ps) (w : Bool) :
    HasSingleSpaces d (wrapped w ps) := by
  cases w with
  | false => exact hp
  | true =>
      intro k
      rw [Piece.wrapped, if_pos rfl, List.cons_append, write_emptied_enclosed]
      exact spacing_enclosed (spacing_of_true (hp k) false)

end Piece

/-! ## Items -/

namespace Item

variable {d : Dialect} {b c : Bool} {is js : List Item}

/-- Items that end the text before them without a space, and have single spaces, where a space is
too much before them or not. Parts stand for a text between spaces. -/
def spacing : Bool → List Item → Option Bool
  | b, [] => some b
  | b, .piece (.text s) :: is => (Text.spacing b s).bind fun c => spacing c is
  | _, .piece _ :: is => spacing false is
  | _, .part _ :: is => spacing false is
  | _, .refuse _ :: _ => some false

/-- The text of items has the spaces that are told from the items. -/
theorem spacing_renderAll (hd : d.HasSingleSpaces) {nested : Bool} {ps : List Piece}
    (h : renderAll d nested is = .ok ps) (hs : spacing b is = some c)
    (hm : ∀ m ∈ parts is, ∀ qs, m.render d nested = .ok qs → Piece.HasSingleSpaces d qs) (k : Nat) :
    Text.spacing b (Piece.write d k (ps.map Piece.emptied)) = some c := by
  induction is generalizing b ps k with
  | nil =>
      cases h
      exact hs
  | cons i is ih =>
      obtain ⟨qs, rs, hi, his, rfl⟩ := renderAll_cons_eq_ok.mp h
      rw [Piece.write_emptied_append, Text.spacing_append]
      cases i with
      | piece p =>
          cases hi
          cases p with
          | text s =>
              rw [spacing] at hs
              obtain ⟨e, he, hs⟩ := Option.bind_eq_some_iff.mp hs
              rw [Piece.write_emptied_text, List.map_nil, Piece.write, String.append_empty, he]
              exact ih his hs hm _
          | name | literal | bound =>
              rw [List.map_singleton, Text.spacing_of_true (Piece.spacing_emptied hd ?_ k)]
              · exact ih his hs hm _
              · intro s hs
                cases hs
      | part n =>
          rw [parts_part, List.forall_mem_cons] at hm
          rw [Text.spacing_of_true (hm.1 qs hi k)]
          exact ih his hs hm.2 _
      | refuse e => cases hi

/-- Items with single spaces that do not end in one. -/
def Closes (b : Bool) (is : List Item) : Prop := spacing b is = some false

theorem closes_nil : Closes false [] := rfl

theorem closes_part (n : Node) : Closes b [.part n] := rfl

theorem Closes.text {s : String} (hs : Text.spacing b s = some c) (h : Closes c is) :
    Closes b (text s :: is) := by
  rw [Closes, Item.text, spacing, hs]
  exact h

theorem closes_text {s : String} (hs : Text.spacing b s = some false) : Closes b [text s] :=
  closes_nil.text hs

theorem Closes.append (hi : Closes b is) (hj : Closes false js) : Closes b (is ++ js) := by
  induction is generalizing b with
  | nil =>
      cases hi
      exact hj
  | cons i is ih =>
      cases i with
      | piece p =>
          cases p with
          | text s =>
              obtain ⟨c, hc, h⟩ := Option.bind_eq_some_iff.mp hi
              exact (ih h).text hc
          | name | literal | bound => exact ih hi
      | part n => exact ih hi
      | refuse e => rfl

theorem closes_separated {s : String} (hs : ∃ c, Text.spacing false s = some c) {ns : List Node}
    (h : ns ≠ []) : Closes b (separated s ns) := by
  obtain ⟨c, hs⟩ := hs
  induction ns generalizing b with
  | nil => exact absurd rfl h
  | cons n ns ih =>
      cases ns with
      | nil => exact closes_part n
      | cons m ms => exact Closes.append (closes_part n) ((ih (List.cons_ne_nil m ms)).text hs)

theorem closes_commas {ns : List Node} (h : ns ≠ []) : Closes b (separated ", " ns) :=
  closes_separated ⟨_, rfl⟩ h

theorem closes_listed {k : String} (hk : ∃ c, Text.spacing b k = some c) {ns : List Node}
    (h : ns ≠ []) : Closes b (listed k ns) := by
  obtain ⟨c, hk⟩ := hk
  exact (closes_commas h).text hk

/-- A list in parentheses may be empty. -/
theorem closes_tuple (ns : List Node) : Closes b (tuple ns) := by
  have hopen : Text.spacing b "(" = some false := Text.spacing_of_true rfl b
  have hbody : Closes false (separated ", " ns) := by
    cases ns with
    | nil => exact closes_nil
    | cons n ns => exact closes_commas (List.cons_ne_nil n ns)
  exact Closes.text hopen (hbody.append (closes_text rfl))

theorem closes_grouped (w : Bool) (n : Node) : Closes b (grouped w n) := by
  cases w with
  | false => exact closes_part n
  | true => exact closes_tuple [n]

theorem closes_getD_map {α : Type} {f : α → List Item} (h : ∀ a, Closes false (f a))
    (x : Option α) : Closes false ((x.map f).getD []) := by
  cases x with
  | none => exact closes_nil
  | some a => exact h a

theorem closes_toList_map {α : Type} {f : α → String}
    (h : ∀ a, Text.spacing false (f a) = some false) (x : Option α) :
    Closes false (x.toList.map fun a => text (f a)) := by
  cases x with
  | none => exact closes_nil
  | some a => exact closes_text (h a)

/-- The items of a clause, which may be none. -/
def IsSpaced (is : List Item) : Prop := is = [] ∨ Closes true is

theorem isSpaced_nil : IsSpaced [] := .inl rfl

theorem isSpaced_part (n : Node) : IsSpaced [.part n] := .inr (closes_part n)

theorem isSpaced_spaces (ns : List Node) : IsSpaced (separated " " ns) := by
  cases ns with
  | nil => exact isSpaced_nil
  | cons n ns => exact .inr (closes_separated ⟨_, rfl⟩ (List.cons_ne_nil n ns))

end Item

/-! ## Layouts -/

open Item Layout

section Statements

theorem Select.isSpaced_layout (q : Select Node) : Each IsSpaced q.layout := by
  obtain ⟨fromItems, selections, distinct, joins, whereClause, groupBy, having, orderBy, limit,
    offset, withClause, explain, top, endModifiers⟩ := q
  have hk : IsSpaced [text (if distinct then "SELECT DISTINCT" else "SELECT")] := by
    cases distinct <;> exact .inr (closes_text rfl)
  have hs : IsSpaced [text "*"] := .inr (closes_text rfl)
  have hc (n : Node) (ns : List Node) : IsSpaced (separated ", " (n :: ns)) :=
    .inr (closes_commas (List.cons_ne_nil n ns))
  rcases selections with _ | _ | ⟨n, ns⟩
  all_goals simp [layout, hk, hs, hc, isSpaced_part, isSpaced_spaces]

theorem Insert.isSpaced_layout (q : Insert Node) {keyword : String}
    (hk : Text.spacing true keyword = some false) : Each IsSpaced (q.layout keyword) := by
  obtain ⟨into, columns, source, defaultValues, ignore, onConflict, returning, output, withClause,
    explain, top, endModifiers⟩ := q
  have hw : IsSpaced [text keyword] := .inr (closes_text hk)
  have hi : IsSpaced [text "INTO ", .part (.table into)] :=
    .inr (Closes.text rfl (closes_part _))
  have hs : IsSpaced [text "DEFAULT VALUES"] := .inr (closes_text rfl)
  have hc (cs : List Column) : IsSpaced (if cs = [] then [] else tuple (cs.map .column)) := by
    split
    · exact isSpaced_nil
    · exact .inr (closes_tuple _)
  cases source <;> simp [layout, hw, hi, hs, hc, isSpaced_part, isSpaced_spaces]

theorem Update.isSpaced_layout (q : Update Node) {as : List (Assignment Node)} (h : as ≠ []) :
    Each IsSpaced (q.layout as) := by
  have hk : IsSpaced [text "UPDATE"] := .inr (closes_text rfl)
  have hs : IsSpaced (listed "SET " (as.map .assignment)) :=
    .inr (closes_listed ⟨_, rfl⟩ (by simpa))
  simp [layout, hk, hs, isSpaced_part, isSpaced_spaces]

theorem Delete.isSpaced_layout (q : Delete Node) : Each IsSpaced q.layout := by
  have hk : IsSpaced [text "DELETE"] := .inr (closes_text rfl)
  simp [layout, hk, isSpaced_part, isSpaced_spaces]

end Statements

section Nodes

variable {d : Dialect}

theorem ExplainFormat.spacing_sql (f : ExplainFormat) : Text.spacing true f.sql = some false := by
  cases f <;> decide

theorem Explain.closes_layout (hd : d.HasSingleSpaces) (e : Explain Node) :
    Closes true (e.layout d) := by
  obtain ⟨format, options⟩ := e
  cases hx : d.explainSyntax with
  | none =>
      rw [layout, hx]
      split
      · exact closes_text rfl
      · rfl
  | some x =>
      obtain ⟨⟨o, ho⟩, ⟨s, hs⟩, ⟨a, ha⟩, hc⟩ := hd.explainSyntax x hx
      have hclose : Closes false [text x.closing] := closes_text hc
      have hformat (f : ExplainFormat) {b c : Bool} {t : String} (ht : Text.spacing b t = some c) :
          Text.spacing b (t ++ "FORMAT" ++ x.assignment ++ f.sql) = some false := by
        rw [Text.spacing_append, Text.spacing_append, Text.spacing_append, ht, Option.bind_some,
          Text.spacing_of_true rfl c, Option.bind_some, ha]
        exact Text.spacing_of_true f.spacing_sql a
      rcases format with _ | f <;> rcases options with _ | n <;> simp only [layout, hx]
      · exact closes_text rfl
      · exact Closes.text ho ((closes_part n).append hclose)
      · exact Closes.text ho (Closes.text (hformat f rfl) hclose)
      · exact Closes.text ho ((closes_part n).append (Closes.text (hformat f hs) hclose))

theorem OnConflict.closes_layout (c : OnConflict Node) : Closes true c.layout := by
  have hcolumns : Closes false ((c.columns.map fun cs =>
      text " " :: tuple (cs.map .column)).getD []) :=
    closes_getD_map (fun cs => Closes.text rfl (closes_tuple _)) c.columns
  have hconstraint : Closes false ((c.constraint.map fun i =>
      [text " ON CONSTRAINT ", .part (.identifier i)]).getD []) :=
    closes_getD_map (fun i => Closes.text rfl (closes_part _)) c.constraint
  have hwhere : Closes false ((c.updateWhere.map fun p =>
      [text " ", .part (.where p)]).getD []) :=
    closes_getD_map (fun p => Closes.text rfl (closes_part _)) c.updateWhere
  rw [layout]
  refine Closes.text (by rfl) ((hcolumns.append hconstraint).append ?_)
  split
  · exact closes_text rfl
  · split
    · rfl
    · rfl
    · rename_i us hus _
      exact Closes.append (closes_listed ⟨_, rfl⟩ (by simpa using hus)) hwhere

/-- What is asked of a node for the spaces in its text to be those of its layout: its lists have
items, and no text in it is written as it is but the name of a function without spaces. -/
structure Node.IsTidy (n : Node) : Prop where
  regular : n.Regular
  fixed : n.kind ≠ .raw
  name : ∀ s ns, n = .function s ns → ' ' ∉ s.toList

/-- The layout of a node other than a statement has single spaces around its parts. -/
theorem Node.closes_layout (hd : d.HasSingleSpaces) {n : Node} {is : List Item}
    (hl : n.layout d = .items is) (hs : n.kind.isStatement = false) (hn : n.IsTidy) :
    Closes true is := by
  obtain ⟨hr, hraw, hname⟩ := hn
  cases n
  case select | insert | update | delete => cases hs
  case raw => exact absurd rfl hraw
  all_goals cases hl
  case identifier | column | selectAll | «alias» | or | selection | assignment => rfl
  case table t => cases t.schema <;> rfl
  case reference t c => cases t <;> rfl
  case value v immediate => cases immediate <;> rfl
  case valueList ns => exact closes_tuple ns
  case operator op => exact closes_text (d.spacing_operator op)
  case binary l op r =>
    exact (closes_grouped _ l).append (Closes.text rfl (closes_grouped _ r))
  case unary op n =>
    split
    · exact Closes.append (closes_part _) (closes_grouped _ n)
    · exact Closes.append (closes_part _) (Closes.text rfl (closes_grouped _ n))
  case and l r => exact (closes_grouped _ l).append (Closes.text rfl (closes_grouped _ r))
  case parens n => exact closes_grouped true n
  case function name ns =>
    exact Closes.text (Text.spacing_of_not_mem (hname name ns rfl) true) (closes_tuple ns)
  case «from» ns | «using» ns | output ns | groupBy ns => exact closes_listed ⟨_, rfl⟩ hr
  case «on» n | «where» n | having n | limit n =>
    exact closes_listed ⟨_, rfl⟩ (List.cons_ne_nil n [])
  case returning ns => exact closes_listed ⟨_, rfl⟩ (by simpa using hr)
  case orderBy os => exact closes_listed ⟨_, rfl⟩ (by simpa using hr)
  case values rows => exact closes_listed ⟨_, rfl⟩ (by simpa using hr)
  case «with» w =>
    refine closes_listed ?_ (by simpa using hr)
    cases w.isRecursive <;> exact ⟨_, rfl⟩
  case join j =>
    have hcondition : Closes false ((j.condition.map fun n =>
        [text " ", .part (.on n)]).getD []) :=
      closes_getD_map (fun n => Closes.text rfl (closes_part _)) j.condition
    have htype : Text.spacing true (j.type.sql ++ " ") = some true := by
      cases j.type <;> decide
    exact Closes.text htype (Closes.append (closes_part _) hcondition)
  case orderByItem i =>
    refine Closes.append (closes_part _) (closes_toList_map (fun x => ?_) i.direction)
    cases x <;> decide
  case offset n =>
    exact Closes.text rfl (Closes.append (closes_part n) (closes_text hd.offsetSuffix))
  case top t =>
    have hcount : Text.spacing true ("TOP(" ++ toString t.count.toNat ++ ")") = some false := by
      have hopen : Text.spacing true "TOP(" = some false := rfl
      rw [Text.spacing_append, Text.spacing_append, hopen, Option.bind_some,
        Text.spacing_of_true (Text.spacing_nat _)]
      rfl
    refine Closes.text hcount (closes_toList_map (fun x => ?_) t.modifier)
    cases x <;> decide
  case explain e => exact e.closes_layout hd
  case cte c =>
    have hbody : Text.spacing false (" AS " ++ Dialect.materializedText c.materialized) =
        some true := by
      rcases c.materialized with _ | _ | _ <;> decide
    exact Closes.append (closes_part _) (Closes.text hbody (closes_part _))
  case cteName c =>
    exact Closes.append (closes_part _) (closes_getD_map (fun cs => closes_tuple _) c.columns)
  case onConflict c => exact c.closes_layout
  case modifier m =>
    refine closes_text ?_
    cases m <;> decide

/-- Each clause in the layout of a statement has single spaces around its parts, or there is nothing
of it. -/
theorem Node.isSpaced_layout (hd : d.HasSingleSpaces) {n : Node} (hs : n.kind.isStatement = true) :
    ∀ is ∈ (n.layout d).lists, IsSpaced is := by
  refine forall_lists_of_isStatement hs isSpaced_nil (fun _ => .inr rfl) Select.isSpaced_layout
    (fun q keyword hk => q.isSpaced_layout ?_) (fun q as hne => q.isSpaced_layout hne)
    Delete.isSpaced_layout
  rcases hk with rfl | hk
  · decide
  · exact hd.insertIgnore keyword hk

/-! ## Rendered trees -/

/-- Clauses with single spaces are joined with single spaces. -/
theorem Layout.hasSingleSpaces_render (hd : d.HasSingleSpaces) {b : Bool} {l : Layout}
    {ps : List Piece} (h : l.render d b = .ok ps) (hl : ∀ is ∈ l.lists, IsSpaced is)
    (hm : ∀ m ∈ Item.parts l.all, ∀ qs, m.render d b = .ok qs → Piece.HasSingleSpaces d qs) :
    ps = [] ∨ Piece.HasSingleSpaces d ps := by
  have hitems {is : List Item} {qs : List Piece} (hr : Item.renderAll d b is = .ok qs)
      (his : IsSpaced is) (hp : ∀ m ∈ Item.parts is, m ∈ Item.parts l.all) :
      qs = [] ∨ Piece.HasSingleSpaces d qs := by
    rcases his with rfl | hc
    · cases hr
      exact .inl rfl
    · exact .inr (spacing_renderAll hd hr hc fun m hmem => hm m (hp m hmem))
  cases l with
  | items is => exact hitems h (hl is (List.mem_singleton_self is)) fun m hmem => hmem
  | clauses cs =>
      obtain ⟨pss, hpss, rfl⟩ := render_clauses_eq_ok.mp h
      refine Piece.spaced_eq_nil_or (fun hp hq => hp.link hq) fun qs hq hne => ?_
      obtain ⟨c, hc, hr⟩ := exists_clause hpss hq
      have hclause := hitems hr (hl c.2 (List.mem_map_of_mem hc)) fun m hm =>
        parts_subset_of_mem hc hm
      refine hclause.resolve_left fun he => ?_
      rw [he] at hne
      cases hne

theorem Node.hasSingleSpaces_render (hd : d.HasSingleSpaces) {n : Node} {nested : Bool}
    {ps : List Piece} (hn : ∀ m ∈ n.walk d, m.IsTidy) (h : n.render d nested = .ok ps) :
    Piece.HasSingleSpaces d ps := by
  -- On the tree: the parts of a node stand between the spaces that its layout has around them.
  induction n using Node.induction_parts d generalizing nested ps with
  | step n ih =>
      rw [forall_mem_walk] at hn
      obtain ⟨-, hparts, qs, hq, rfl⟩ := render_eq_ok h
      have hm : ∀ m ∈ Item.parts (n.layout d).all, ∀ rs, m.render d n.kind.delimits = .ok rs →
          Piece.HasSingleSpaces d rs := by
        rw [hparts]
        exact fun m hm rs hr => ih m hm (hn.2 m hm) hr
      refine Piece.HasSingleSpaces.wrapped ?_ _
      cases hk : n.statement? with
      | some k =>
          have hs := isStatement_of_statement? hk
          obtain rfl | hp := Layout.hasSingleSpaces_render hd hq (isSpaced_layout hd hs) hm
          · -- A statement leaves some text.
            cases all_isEmpty_renderOwn hs hq
          · exact hp
      | none =>
          obtain ⟨hs, is, hl⟩ := exists_items d hk
          rw [hl] at hq hm
          exact spacing_renderAll hd hq (closes_layout hd hl hs hn.1) hm

/-- The text of a built tree has single spaces outside of quotes: none at its beginning or at its
end, and no two next to each other, as long as no verbatim text and no spaces in the names of
functions are written in it. -/
theorem Node.hasSingleSpaces_compile (e : Engine) {n : Node} (hb : n.Built)
    (hraw : ∀ m ∈ n.nodes, m.kind ≠ .raw)
    (hname : ∀ s ns, .function s ns ∈ n.nodes → ' ' ∉ s.toList) {c : Compiled}
    (h : n.compile e.dialect = .ok c) :
    ∃ ps, n.render e.dialect false = .ok ps ∧ c = .ofPieces e.dialect ps ∧
      Text.HasSingleSpaces (Piece.outline e.dialect ps) := by
  obtain ⟨ps, hps, rfl⟩ := compile_eq_ok.mp h
  have htidy : ∀ m ∈ n.walk e.dialect, m.IsTidy := by
    intro m hm
    have hmem := walk_subset_nodes e.dialect n hm
    exact ⟨hb.orderly m hmem, hraw m hmem, fun s ns hs => hname s ns (hs ▸ hmem)⟩
  have hp := hasSingleSpaces_render e.hasSingleSpaces htidy hps
  exact ⟨ps, hps, rfl, Text.hasSingleSpaces_of_spacing (hp 1)⟩

end Nodes

namespace Node

/-- Rows from a function without arguments, put into a table whose name has spaces, with an empty
list of columns. -/
def spacingSample : Node :=
  .insert
    { into := ⟨none, ⟨"a  b"⟩⟩
      columns := some []
      source := some (.select { fromItems := some [.function "now" []] })
      returning := some [.value (.text "  ") true] }

theorem hasSingleSpaces_compile_spacingSample :
    spacingSample.Built ∧ (∀ m ∈ spacingSample.nodes, m.kind ≠ .raw) ∧
    (∀ s ns, .function s ns ∈ spacingSample.nodes → ' ' ∉ s.toList) ∧
    spacingSample.compile Engine.postgres.dialect =
      .ok ⟨"INSERT INTO \x22a  b\x22 SELECT * FROM now() RETURNING '  '", []⟩ ∧
    ∃ ps, spacingSample.render Engine.postgres.dialect false = .ok ps ∧
      Piece.outline Engine.postgres.dialect ps =
        "INSERT INTO \x22\x22 SELECT * FROM now() RETURNING ''" ∧
      Text.HasSingleSpaces (Piece.outline Engine.postgres.dialect ps) := by
  have hcall : (Node.function "now" []).Built := @Built.call "now" [] _ (List.forall_mem_nil _) rfl
  have hquery : (Node.select { fromItems := some [.function "now" []] }).Built :=
    .selectFrom (w := none) (List.forall_mem_singleton.mpr hcall) nofun rfl
  have htable : (Node.insert { into := ⟨none, ⟨"a  b"⟩⟩ }).Built :=
    .insert (w := none) (@Built.table "a  b" _ rfl) nofun
  have hcolumns := Built.insertCall (.addColumns []) htable (List.forall_mem_nil _) rfl
  have hsource :=
    Built.insertCall (.setSource _) hcolumns (List.forall_mem_singleton.mpr hquery) rfl
  have hb : spacingSample.Built :=
    .insertCall (.report (.addReturning [.value (.text "  ") true])) hsource
      (List.forall_mem_singleton.mpr (.selection (.value _ true))) rfl
  have hkinds : spacingSample.nodes.all (fun m => m.kind != .raw) = true := by cbv
  have hcallees : spacingSample.nodes.filterMap callee? = ["now"] := by cbv
  have hraw : ∀ m ∈ spacingSample.nodes, m.kind ≠ .raw := by
    simpa [List.all_eq_true] using hkinds
  have hname : ∀ s ns, .function s ns ∈ spacingSample.nodes → ' ' ∉ s.toList := by
    intro s ns hs
    have hmem : s ∈ spacingSample.nodes.filterMap callee? := List.mem_filterMap.mpr ⟨_, hs, rfl⟩
    rw [hcallees, List.mem_singleton] at hmem
    rw [hmem]
    decide
  have ht : spacingSample.compile Engine.postgres.dialect =
      .ok ⟨"INSERT INTO \x22a  b\x22 SELECT * FROM now() RETURNING '  '", []⟩ := by cbv
  obtain ⟨ps, hps, -, ho⟩ := hasSingleSpaces_compile .postgres hb hraw hname ht
  refine ⟨hb, hraw, hname, ht, ps, hps, ?_, ho⟩
  cases hps
  cbv

end Node

end SqlTree

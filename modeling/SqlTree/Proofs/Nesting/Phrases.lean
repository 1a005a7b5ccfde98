import SqlTree.Proofs.Nesting.Clauses

/-! # Phrases

What stands where SQL wants an item: an atom, a word, or phrases put together by keywords,
separators and parentheses. No phrase is empty, so that a keyword, a separator or a parenthesis that
asks for an item has one behind it. The layout of a node is a phrase around its parts, whatever
they are, and so is what an orderly tree renders to. -/

namespace SqlTree

/-! ## Fixed texts -/

namespace Text

/-- Whether a text is free of parentheses. -/
def isFlat (s : String) : Bool := s.toList.all fun c => c != '(' && c != ')'

/-- Whether something has to stand behind a text: keywords and separators end in a space, and a
parenthesis opens a list. -/
def announces (s : String) : Bool := s.toList.getLast?.any fun c => c == ' ' || c == '('

/-- Whether a text can begin a phrase. -/
def isLead (s : String) : Bool := isFlat s && s.toList.head?.any fun c => c != ' ' && c != ','

/-- Whether a text can end a phrase. -/
def isTail (s : String) : Bool := isFlat s && !announces s

/-- Whether a text is a phrase on its own. -/
def isWord (s : String) : Bool := isLead s && !announces s

theorem isFlat_append {s t : String} (hs : isFlat s = true) (ht : isFlat t = true) :
    isFlat (s ++ t) = true := by
  rw [isFlat, String.toList_append, List.all_append]
  exact Bool.and_eq_true_iff.mpr ⟨hs, ht⟩

theorem isLead_append {s t : String} (hs : isLead s = true) (ht : isFlat t = true) :
    isLead (s ++ t) = true := by
  rw [isLead, Bool.and_eq_true] at hs ⊢
  refine ⟨isFlat_append hs.1 ht, ?_⟩
  have hne : s.toList ≠ [] := fun he => by simp [he] at hs
  rw [String.toList_append, List.head?_append_of_ne_nil _ hne]
  exact hs.2

theorem announces_append (s : String) {t : String} (h : t.toList ≠ []) :
    announces (s ++ t) = announces t := by
  rw [announces, String.toList_append, List.getLast?_append_of_ne_nil _ h]
  rfl

theorem ne_empty_of_isLead {s : String} (h : isLead s = true) : s ≠ "" := by
  rintro rfl
  exact absurd h (by decide)

theorem isFlat_of_isLead {s : String} (h : isLead s = true) : isFlat s = true :=
  (Bool.and_eq_true_iff.mp h).1

theorem isTail_append {s t : String} (hs : isFlat s = true) (ht : isWord t = true) :
    isTail (s ++ t) = true := by
  rw [isWord, Bool.and_eq_true] at ht
  have hne : t.toList ≠ [] := fun he =>
    ne_empty_of_isLead ht.1 (String.toList_eq_nil_iff.mp he)
  rw [isTail, isFlat_append hs (isFlat_of_isLead ht.1), announces_append _ hne, Bool.true_and]
  exact ht.2

end Text

/-- Lists that stand for an item of SQL. -/
inductive Phrase {α : Type} (text : String → α) (atom : α → Prop) (isName : String → Prop) :
    List α → Prop
  | atom {a : α} (h : atom a) : Phrase text atom isName [a]
  | word {s : String} (h : Text.isWord s = true) : Phrase text atom isName [text s]
  | count (n : Nat) : Phrase text atom isName [text ("TOP(" ++ toString n ++ ")")]
  /-- A keyword before its items. -/
  | lead {s : String} {xs : List α} (h : Text.isLead s = true) (hx : Phrase text atom isName xs) :
      Phrase text atom isName (text s :: xs)
  | tail {xs : List α} {s : String} (hx : Phrase text atom isName xs) (h : Text.isTail s = true) :
      Phrase text atom isName (xs ++ [text s])
  /-- A separator between two phrases. -/
  | link {xs ys : List α} {s : String} (hx : Phrase text atom isName xs)
      (h : Text.isFlat s = true) (hy : Phrase text atom isName ys) :
      Phrase text atom isName (xs ++ text s :: ys)
  | append {xs ys : List α} (hx : Phrase text atom isName xs) (hy : Phrase text atom isName ys) :
      Phrase text atom isName (xs ++ ys)
  | enclosed {s : String} {xs : List α} (h : s = "(" ∨ s = "EXPLAIN (")
      (hx : Phrase text atom isName xs) : Phrase text atom isName (text s :: (xs ++ [text ")"]))
  /-- A call of a function, whose name is written as it is. -/
  | call {s : String} {xs : List α} (h : isName s) (hx : Phrase text atom isName xs) :
      Phrase text atom isName (text s :: text "(" :: (xs ++ [text ")"]))

theorem Phrase.ne_nil {α : Type} {text : String → α} {atom : α → Prop} {isName : String → Prop}
    {xs : List α} (h : Phrase text atom isName xs) : xs ≠ [] := by
  induction h with
  | tail | link => simp
  | append _ _ ih => exact List.append_ne_nil_of_left_ne_nil ih _
  | atom | word | count | lead | enclosed | call => exact List.cons_ne_nil _ _

/-! ## Phrases of pieces -/

mutual

/-- Whether a value holds no empty array. -/
def Value.isFilled : Value → Bool
  | .array items => !items.isEmpty && Value.allFilled items
  | _ => true
termination_by structural v => v

def Value.allFilled : List Value → Bool
  | [] => true
  | v :: vs => v.isFilled && Value.allFilled vs
termination_by structural vs => vs

end

namespace Piece

/-- Names, placeholders, and literals without an empty array in them. -/
def IsAtom : Piece → Prop
  | .text _ => False
  | .literal v => v.isFilled = true
  | .name _ | .bound _ => True

/-- Pieces that are a phrase, with functions of the given names. -/
def IsPhrase (isName : String → Prop) : List Piece → Prop := Phrase .text IsAtom isName

/-- Pieces with a phrase behind each text that announces one. -/
def Announced (isName : String → Prop) (ps : List Piece) : Prop :=
  ∀ us k vs, ps = us ++ .text k :: vs → Text.announces k = true →
    ∃ is ws, IsPhrase isName is ∧ vs = is ++ ws

variable {isName : String → Prop} {ps qs : List Piece}

theorem Announced.append (hp : Announced isName ps) (hq : Announced isName qs) :
    Announced isName (ps ++ qs) := by
  intro us k vs hs hk
  obtain ⟨rs, rfl, hr⟩ | ⟨rs, rfl, hr⟩ := List.append_eq_append_iff.mp hs
  · exact hq rs k vs hr hk
  · cases rs with
    | nil => exact hq [] k vs hr.symm hk
    | cons r rs =>
        obtain ⟨rfl, rfl⟩ := List.cons.inj hr
        obtain ⟨is, ws, hi, rfl⟩ := hp us k rs rfl hk
        exact ⟨is, ws ++ qs, hi, List.append_assoc is ws qs⟩

theorem announced_of_not {p : Piece} (h : ∀ k, p = .text k → Text.announces k = false) :
    Announced isName [p] := by
  intro us k vs hs hk
  cases us with
  | nil =>
      rw [List.nil_append, List.cons.injEq] at hs
      rw [h k hs.1] at hk
      cases hk
  | cons u us => simp at hs

theorem announced_text {s : String} (h : Text.announces s = false) :
    Announced isName [.text s] :=
  announced_of_not fun _ hk => Piece.text.inj hk ▸ h

theorem Announced.cons {p : Piece} (hq : Announced isName qs)
    (h : ∃ is ws, IsPhrase isName is ∧ qs = is ++ ws) : Announced isName (p :: qs) := by
  intro us k vs hs hk
  cases us with
  | nil =>
      obtain ⟨-, rfl⟩ := List.cons.inj hs
      exact h
  | cons u us =>
      obtain ⟨rfl, rfl⟩ := List.cons.inj hs
      exact hq us k vs rfl hk

theorem IsPhrase.announced (h : IsPhrase isName ps) : Announced isName ps := by
  have hclose : Announced isName [.text ")"] := announced_text (by decide)
  unfold IsPhrase at h
  induction h with
  | @atom p h =>
      refine announced_of_not fun k hk => ?_
      subst hk
      exact h.elim
  | word h =>
      rw [Text.isWord, Bool.and_eq_true, Bool.not_eq_true'] at h
      exact announced_text h.2
  | count n => exact announced_text (Text.announces_append _ (by decide))
  | lead h hx ih => exact ih.cons ⟨_, [], hx, (List.append_nil _).symm⟩
  | tail _ h ih =>
      rw [Text.isTail, Bool.and_eq_true, Bool.not_eq_true'] at h
      exact ih.append (announced_text h.2)
  | link _ _ hy ihx ihy => exact ihx.append (ihy.cons ⟨_, [], hy, (List.append_nil _).symm⟩)
  | append _ _ ihx ihy => exact ihx.append ihy
  | enclosed _ hx ih => exact (ih.append hclose).cons ⟨_, _, hx, rfl⟩
  | call _ hx ih =>
      exact ((ih.append hclose).cons ⟨_, _, hx, rfl⟩).cons
        ⟨_, [], .enclosed (.inl rfl) hx, (List.append_nil _).symm⟩

end Piece

/-! ## Phrases of items -/

namespace Item

/-- Parts, and pieces that are atoms. -/
def IsAtom : Item → Prop
  | .piece p => p.IsAtom
  | .part _ | .refuse _ => True

/-- Items that are a phrase whatever phrases their parts are. -/
def IsPhrase (isName : String → Prop) : List Item → Prop := Phrase text IsAtom isName

/-- Items that are a phrase, or none at all. -/
def IsClause (isName : String → Prop) (is : List Item) : Prop := is ≠ [] → IsPhrase isName is

variable {isName : String → Prop} {d : Dialect} {b : Bool}

/-- Items that are a phrase are rendered as one if their parts are. -/
theorem IsPhrase.render {is : List Item} {ps : List Piece} (h : IsPhrase isName is)
    (hm : ∀ m ∈ parts is, ∀ qs, m.render d b = .ok qs → Piece.IsPhrase isName qs)
    (hr : renderAll d b is = .ok ps) : Piece.IsPhrase isName ps := by
  unfold IsPhrase at h
  induction h generalizing ps with
  | @atom i h =>
      obtain ⟨qs, _, hi, ⟨⟩, rfl⟩ := renderAll_cons_eq_ok.mp hr
      rw [List.append_nil]
      cases i with
      | piece p =>
          cases hi
          exact .atom h
      | part n => exact hm n (List.mem_singleton_self n) qs hi
      | refuse e => cases hi
  | word h =>
      cases hr
      exact .word h
  | count n =>
      cases hr
      exact .count n
  | lead h _ ih =>
      obtain ⟨_, qs, ⟨⟩, hq, rfl⟩ := renderAll_cons_eq_ok.mp hr
      exact .lead h (ih hm hq)
  | tail _ h ih =>
      rw [renderAll_append, Rendering.append_eq_ok] at hr
      obtain ⟨qs, _, hq, ⟨⟩, rfl⟩ := hr
      rw [parts_append, List.forall_mem_append] at hm
      exact .tail (ih hm.1 hq) h
  | link _ h _ ihx ihy =>
      rw [renderAll_append, Rendering.append_eq_ok] at hr
      obtain ⟨qs, _, hq, hlink, rfl⟩ := hr
      obtain ⟨_, rs, ⟨⟩, hrs, rfl⟩ := renderAll_cons_eq_ok.mp hlink
      rw [parts_append, List.forall_mem_append] at hm
      exact .link (ihx hm.1 hq) h (ihy hm.2 hrs)
  | append _ _ ihx ihy =>
      rw [renderAll_append, Rendering.append_eq_ok] at hr
      obtain ⟨qs, rs, hq, hrs, rfl⟩ := hr
      rw [parts_append, List.forall_mem_append] at hm
      exact .append (ihx hm.1 hq) (ihy hm.2 hrs)
  | enclosed h _ ih =>
      obtain ⟨_, _, ⟨⟩, hbody, rfl⟩ := renderAll_cons_eq_ok.mp hr
      rw [renderAll_append, Rendering.append_eq_ok] at hbody
      obtain ⟨qs, _, hq, ⟨⟩, rfl⟩ := hbody
      rw [parts_text, parts_append, List.forall_mem_append] at hm
      exact .enclosed h (ih hm.1 hq)
  | call h _ ih =>
      obtain ⟨_, _, ⟨⟩, hlist, rfl⟩ := renderAll_cons_eq_ok.mp hr
      obtain ⟨_, _, ⟨⟩, hbody, rfl⟩ := renderAll_cons_eq_ok.mp hlist
      rw [renderAll_append, Rendering.append_eq_ok] at hbody
      obtain ⟨qs, _, hq, ⟨⟩, rfl⟩ := hbody
      rw [parts_text, parts_text, parts_append, List.forall_mem_append] at hm
      exact .call h (ih hm.1 hq)

/-! ### Productions -/

theorem phrase_part (n : Node) : IsPhrase isName [.part n] := .atom trivial

theorem phrase_separated {s : String} (hs : Text.isFlat s = true) {ns : List Node}
    (h : ns ≠ []) : IsPhrase isName (separated s ns) := by
  induction ns with
  | nil => exact absurd rfl h
  | cons n ns ih =>
      cases ns with
      | nil => exact phrase_part n
      | cons m ms => exact .link (phrase_part n) hs (ih (List.cons_ne_nil m ms))

theorem phrase_commas {ns : List Node} (h : ns ≠ []) : IsPhrase isName (separated ", " ns) :=
  phrase_separated (by decide) h

theorem phrase_listed {k : String} (hk : Text.isLead k = true) {ns : List Node} (h : ns ≠ []) :
    IsPhrase isName (listed k ns) :=
  .lead hk (phrase_commas h)

theorem phrase_tuple {ns : List Node} (h : ns ≠ []) : IsPhrase isName (tuple ns) :=
  .enclosed (.inl rfl) (phrase_commas h)

theorem phrase_grouped (w : Bool) (n : Node) : IsPhrase isName (grouped w n) := by
  cases w with
  | false => exact phrase_part n
  | true => exact .enclosed (.inl rfl) (phrase_part n)

/-- Items that make a phrase of any phrase before them. -/
def Continues (isName : String → Prop) (is : List Item) : Prop :=
  ∀ xs, IsPhrase isName xs → IsPhrase isName (xs ++ is)

theorem continues_nil : Continues isName [] := fun xs h => by rwa [List.append_nil]

theorem Continues.append {is js : List Item} (hi : Continues isName is) (hj : Continues isName js) :
    Continues isName (is ++ js) := fun xs h => by
  rw [← List.append_assoc]
  exact hj _ (hi xs h)

theorem IsPhrase.continues {is : List Item} (h : IsPhrase isName is) : Continues isName is :=
  fun _ hx => .append hx h

theorem continues_link {s : String} (hs : Text.isFlat s = true) {is : List Item}
    (h : IsPhrase isName is) : Continues isName (text s :: is) :=
  fun _ hx => .link hx hs h

theorem continues_tail {s : String} (hs : Text.isTail s = true) : Continues isName [text s] :=
  fun _ hx => .tail hx hs

theorem continues_getD_map {α : Type} {f : α → List Item} {x : Option α}
    (h : ∀ a ∈ x, Continues isName (f a)) : Continues isName ((x.map f).getD []) := by
  cases x with
  | none => exact continues_nil
  | some a => exact h a rfl

theorem continues_toList_map {α : Type} {f : α → Item} (h : ∀ a, Continues isName [f a])
    (x : Option α) : Continues isName (x.toList.map f) := by
  cases x with
  | none => exact continues_nil
  | some a => exact h a

theorem clause_nil : IsClause isName [] := fun h => absurd rfl h

theorem clause_part (n : Node) : IsClause isName [.part n] := fun _ => phrase_part n

theorem clause_spaces (ns : List Node) : IsClause isName (separated " " ns) := by
  intro h
  refine phrase_separated (by decide) fun hn => h ?_
  rw [hn]
  rfl

end Item

/-! ## Layouts -/

open Item Layout

section Statements

variable {isName : String → Prop}

theorem Select.clauses_layout (q : Select Node) : Each (IsClause isName) q.layout := by
  obtain ⟨fromItems, selections, distinct, joins, whereClause, groupBy, having, orderBy, limit,
    offset, withClause, explain, top, endModifiers⟩ := q
  have hk : IsClause isName [text (if distinct then "SELECT DISTINCT" else "SELECT")] := by
    cases distinct <;> exact fun _ => .word (by decide)
  have hs : IsClause isName [text "*"] := fun _ => .word (by decide)
  have hc (n : Node) (ns : List Node) : IsClause isName (separated ", " (n :: ns)) :=
    fun _ => phrase_commas (List.cons_ne_nil n ns)
  rcases selections with _ | _ | ⟨n, ns⟩
  all_goals simp [layout, hk, hs, hc, clause_part, clause_spaces]

theorem Insert.clauses_layout (q : Insert Node) {keyword : String}
    (hk : Text.isWord keyword = true) : Each (IsClause isName) (q.layout keyword) := by
  obtain ⟨into, columns, source, defaultValues, ignore, onConflict, returning, output, withClause,
    explain, top, endModifiers⟩ := q
  have hw : IsClause isName [text keyword] := fun _ => .word hk
  have hi : IsClause isName [text "INTO ", .part (.table into)] :=
    fun _ => .lead (by decide) (phrase_part _)
  have hs : IsClause isName [text "DEFAULT VALUES"] := fun _ => .word (by decide)
  have hc (cs : List Column) :
      IsClause isName (if cs = [] then [] else tuple (cs.map .column)) := by
    split
    · exact clause_nil
    · exact fun _ => phrase_tuple (by simpa)
  cases source <;> simp [layout, hw, hi, hs, hc, clause_part, clause_spaces]

theorem Update.clauses_layout (q : Update Node) {as : List (Assignment Node)} (h : as ≠ []) :
    Each (IsClause isName) (q.layout as) := by
  have hk : IsClause isName [text "UPDATE"] := fun _ => .word (by decide)
  have hs : IsClause isName (listed "SET " (as.map .assignment)) :=
    fun _ => phrase_listed (by decide) (by simpa)
  simp [layout, hk, hs, clause_part, clause_spaces]

theorem Delete.clauses_layout (q : Delete Node) : Each (IsClause isName) q.layout := by
  have hk : IsClause isName [text "DELETE"] := fun _ => .word (by decide)
  simp [layout, hk, clause_part, clause_spaces]

end Statements

/-- Options of EXPLAIN in parentheses, or without any. -/
structure ExplainSyntax.IsFlat (x : ExplainSyntax) : Prop where
  wrapping : x.opening = "(" ∧ x.closing = ")" ∨
    Text.isFlat x.opening = true ∧ Text.isTail x.closing = true
  delimiter : Text.isFlat x.delimiter = true
  assignment : Text.isFlat x.assignment = true

/-- A dialect that writes no parentheses of its own but those around the options of EXPLAIN. -/
structure Dialect.IsFlat (d : Dialect) : Prop where
  quotes : Text.isFlat (d.identifier "") = true
  bool : ∀ b, d.boolLiteral b ≠ "" ∧ Text.isFlat (d.boolLiteral b) = true
  placeholder : ∀ sign, d.placeholder = .numbered sign → Text.isFlat sign = true
  explainSyntax : ∀ x ∈ d.explainSyntax, x.IsFlat
  offsetSuffix : Text.isTail d.offsetSuffix = true
  insertIgnore : ∀ s ∈ d.insertIgnore, Text.isWord s = true

theorem Engine.isFlat (e : Engine) : e.dialect.IsFlat where
  quotes := by cases e <;> decide
  bool b := by cases e <;> cases b <;> decide
  placeholder sign hs := by cases e <;> cases hs <;> decide
  explainSyntax x hx := by
    cases e <;> cases hx
    · exact ⟨.inl ⟨rfl, rfl⟩, by decide, by decide⟩
    · exact ⟨.inr ⟨by decide, by decide⟩, by decide, by decide⟩
  offsetSuffix := by cases e <;> decide
  insertIgnore := by cases e <;> decide

theorem Dialect.Provided.isFlat {d : Dialect} (h : d.Provided) : d.IsFlat := by
  cases h with
  | engine e => exact e.isFlat
  | profile p =>
      obtain ⟨name, base, quote, placeholder, unsupported, supported⟩ := p
      obtain ⟨hquotes, hbool, hplaceholder, hexplain, hsuffix, hinsert⟩ := base.isFlat
      refine ⟨?_, hbool, ?_, hexplain, hsuffix, hinsert⟩
      · cases quote with
        | none => exact hquotes
        | some q =>
            show Text.isFlat (Text.quoted q.quotes.opening q.quotes.closing "") = true
            cases q <;> decide
      · cases placeholder with
        | none => exact hplaceholder
        | some s =>
            intro sign hs
            cases s <;> cases hs <;> decide

/-- Whether a node is one that may leave a list without items: verbatim text, a call without
arguments or the literal of an empty array. -/
def Node.isFilled : Node → Bool
  | .raw .. => false
  | .function _ ns => !ns.isEmpty
  | .value v true => v.isFilled
  | _ => true

section Nodes

variable {isName : String → Prop} {d : Dialect}

theorem ExplainFormat.isWord_append {s : String} (hs : Text.isFlat s = true)
    (f : ExplainFormat) : Text.isWord ("FORMAT" ++ s ++ f.sql) = true := by
  have hf : Text.isFlat f.sql = true ∧ f.sql.toList ≠ [] ∧ Text.announces f.sql = false := by
    cases f <;> decide
  rw [Text.isWord, Text.announces_append _ hf.2.1, hf.2.2]
  simpa using Text.isLead_append (Text.isLead_append (by decide) hs) hf.1

/-- EXPLAIN around its options. -/
theorem ExplainSyntax.IsFlat.phrase {x : ExplainSyntax} (hx : x.IsFlat) (is : List Item)
    (h : IsPhrase isName is) :
    IsPhrase isName (text ("EXPLAIN " ++ x.opening) :: (is ++ [text x.closing])) := by
  obtain ⟨ho, hc⟩ | ⟨ho, hc⟩ := hx.wrapping
  · rw [ho, hc]
    exact .enclosed (.inr rfl) h
  · exact .lead (Text.isLead_append (by decide) ho) (.tail h hc)

theorem Explain.phrase_layout (hd : d.IsFlat) (e : Explain Node) :
    IsPhrase isName (e.layout d) := by
  obtain ⟨format, options⟩ := e
  cases hx : d.explainSyntax with
  | none =>
      rw [layout, hx]
      split
      · exact .word (by decide)
      · exact .atom trivial
  | some x =>
      have hflat := hd.explainSyntax x hx
      have hword (f : ExplainFormat) := f.isWord_append hflat.assignment
      rcases format with _ | f <;> rcases options with _ | n <;> simp only [layout, hx]
      · exact .word (by decide)
      · exact hflat.phrase [.part n] (phrase_part n)
      · exact hflat.phrase [text ("" ++ "FORMAT" ++ x.assignment ++ f.sql)] (.word (hword f))
      · have htail := Text.isTail_append hflat.delimiter (hword f)
        rw [← String.append_assoc, ← String.append_assoc] at htail
        exact hflat.phrase [.part n, text (x.delimiter ++ "FORMAT" ++ x.assignment ++ f.sql)]
          (.tail (phrase_part n) htail)

theorem continues_columns {cs : Option (List Column)} (before : List Item)
    (hb : ∀ is, IsPhrase isName is → Continues isName (before ++ is)) (h : cs ≠ some []) :
    Continues isName ((cs.map fun cs => before ++ tuple (cs.map .column)).getD []) := by
  refine continues_getD_map fun ds hd => hb _ (phrase_tuple fun hn => h ?_)
  rw [List.map_eq_nil_iff.mp hn] at hd
  exact hd

theorem OnConflict.phrase_layout {c : OnConflict Node} (h : c.columns ≠ some []) :
    IsPhrase isName c.layout := by
  obtain ⟨columns, constraint, doNothing, updates, updateWhere⟩ := c
  have hcolumns : Continues isName ((columns.map fun cs =>
      [text " "] ++ tuple (cs.map .column)).getD []) :=
    continues_columns [text " "] (fun _ hi => continues_link (by decide) hi) h
  have hconstraint : Continues isName ((constraint.map fun i =>
      [text " ON CONSTRAINT ", .part (.identifier i)]).getD []) :=
    continues_getD_map fun i _ => continues_link (by decide) (phrase_part _)
  have hwhere : Continues isName ((updateWhere.map fun p =>
      [text " ", .part (.where p)]).getD []) :=
    continues_getD_map fun p _ => continues_link (by decide) (phrase_part _)
  rw [layout]
  refine (hcolumns.append hconstraint).append ?_ [text "ON CONFLICT"] (.word (by decide))
  split
  · exact continues_tail (by decide)
  · split
    · exact IsPhrase.continues (.atom trivial)
    · exact IsPhrase.continues (.atom trivial)
    · rename_i us hus _
      have hupdates : IsPhrase isName (separated ", " (us.map .assignment)) :=
        phrase_commas (by simpa using hus)
      exact Continues.append (continues_link (by decide) hupdates) hwhere

theorem Dialect.isWord_operator (d : Dialect) (op : Operator) :
    Text.isWord (d.operator op) = true := by
  cases op
  case iLike | notILike =>
    simp only [operator, iLike]
    cases d.hasILike <;> decide
  all_goals
    simp only [operator, Operator.sql]
    decide

/-- The layout of a node other than a statement is a phrase. -/
theorem Node.phrase_layout (hd : d.IsFlat) {n : Node} {is : List Item}
    (hl : n.layout d = .items is) (hs : n.kind.isStatement = false) (hr : n.Regular)
    (hf : n.isFilled = true) (hc : ∀ c, n = .cteName c → c.columns ≠ some [])
    (hn : ∀ s ns, n = .function s ns → isName s) : IsPhrase isName is := by
  cases n
  case select | insert | update | delete => cases hs
  case raw => cases hf
  all_goals cases hl
  case identifier i => exact .atom trivial
  case table t =>
    cases t.schema with
    | none => exact phrase_part _
    | some s => exact .link (phrase_part _) (by decide) (phrase_part _)
  case column c => exact phrase_part _
  case reference t c =>
    cases t with
    | none => exact phrase_part _
    | some t => exact .link (phrase_part _) (by decide) (phrase_part _)
  case selectAll => exact .word (by decide)
  case «alias» n i => exact .link (phrase_part _) (by decide) (phrase_part _)
  case value v immediate =>
    cases immediate with
    | true => exact .atom hf
    | false => exact .atom trivial
  case valueList ns => exact phrase_tuple hr
  case operator op => exact .word (d.isWord_operator op)
  case binary l op r =>
    refine .link (phrase_grouped _ l) (by decide) ?_
    exact .link (phrase_part _) (by decide) (phrase_grouped _ r)
  case unary op n =>
    split
    · exact .append (phrase_part _) (phrase_grouped _ n)
    · exact .link (phrase_part _) (by decide) (phrase_grouped _ n)
  case and l r => exact .link (phrase_grouped _ l) (by decide) (phrase_grouped _ r)
  case or l r => exact .link (phrase_part l) (by decide) (phrase_part r)
  case parens n => exact phrase_grouped true n
  case function name ns =>
    exact .call (hn name ns rfl) (phrase_commas (by simpa [isFilled] using hf))
  case «from» ns | «using» ns | output ns | groupBy ns => exact phrase_listed (by decide) hr
  case «on» n | «where» n | having n | limit n =>
    exact phrase_listed (by decide) (List.cons_ne_nil n [])
  case returning ns => exact phrase_listed (by decide) (by simpa using hr)
  case orderBy os => exact phrase_listed (by decide) (by simpa using hr)
  case values rows => exact phrase_listed (by decide) (by simpa using hr)
  case «with» w =>
    refine phrase_listed ?_ (by simpa using hr)
    cases w.isRecursive <;> decide
  case join j =>
    have hcondition : Continues isName ((j.condition.map fun n =>
        [text " ", .part (.on n)]).getD []) :=
      continues_getD_map fun n _ => continues_link (by decide) (phrase_part _)
    refine .lead ?_ (hcondition _ (phrase_part j.table))
    cases j.type <;> decide
  case selection n => exact phrase_part n
  case orderByItem i =>
    refine continues_toList_map (fun x => continues_tail ?_) i.direction _ (phrase_part i.expr)
    cases x <;> decide
  case offset n => exact .lead (by decide) (.tail (phrase_part n) hd.offsetSuffix)
  case top t =>
    refine continues_toList_map (fun m => continues_tail ?_) t.modifier _ (.count _)
    cases m <;> decide
  case explain e => exact e.phrase_layout hd
  case cte c =>
    refine .link (phrase_part _) ?_ (phrase_part c.body)
    rcases c.materialized with _ | _ | _ <;> decide
  case cteName c =>
    exact continues_columns [] (fun _ hi => hi.continues) (hc c rfl) _ (phrase_part _)
  case assignment a => exact .link (phrase_part _) (by decide) (phrase_part _)
  case onConflict c => exact OnConflict.phrase_layout hr.2
  case modifier m =>
    refine .word ?_
    cases m <;> decide

/-! ## Statements -/

theorem Clause.parts_items (x : Clause) (keyword : String) (ns : List Node) :
    Item.parts (x.items keyword ns) ⊆ ns := by
  have hparts : Item.parts (ns.map .part) ⊆ ns := by
    intro m hm
    simpa [Item.parts, Item.part?] using hm
  cases x
  case keyword => exact List.nil_subset ns
  case selections | values | columns =>
    rw [items]
    split
    · exact List.nil_subset ns
    · simp [hparts]
  all_goals simp [items, hparts]

theorem Node.parts_clauseItems {n : Node} {k : StatementKind} {ps : List Piece}
    (hk : n.statement? = some k) (h : n.renderOwn d = .ok ps) (x : Clause) :
    Item.parts (n.clauseItems d x) ⊆ n.parts d := by
  rw [clauseItems]
  split
  · rename_i hx
    have hplace := (layout_eq_clauses hk h).1 hx
    have hall {f : Clause → List Node} : f x ⊆ (d.clauseOrder k).flatMap f :=
      fun m hm => List.mem_flatMap.mpr ⟨x, hplace, hm⟩
    refine List.Subset.trans (Clause.parts_items x _ _) ?_
    cases n
    case select | insert | update | delete =>
      cases hk
      exact hall
    all_goals cases hk
  · exact List.nil_subset _

/-- A clause of a statement that renders is a phrase, or there is nothing of it. -/
theorem Node.clause_clauseItems (hd : d.IsFlat) {n : Node} {k : StatementKind}
    {ps : List Piece} (hk : n.statement? = some k) (h : n.renderOwn d = .ok ps) (x : Clause) :
    IsClause isName (n.clauseItems d x) := by
  rw [renderOwn] at h
  cases n
  case select q | delete q =>
    rw [← q.lookup_layout]
    exact each_lookup clause_nil q.clauses_layout x
  case update q =>
    rw [layout] at h
    split at h
    · cases h
    · cases h
    · rename_i as hne ha
      rw [← Update.lookup_layout d ha]
      exact each_lookup clause_nil (q.clauses_layout hne) x
  case insert q =>
    rw [layout] at h
    split at h
    · cases h
    · split at h
      · cases h
      · rename_i keyword hkeyword
        have hword : Text.isWord keyword = true := by
          cases hi : q.ignore with
          | true => exact hd.insertIgnore keyword (by simpa [hi] using hkeyword)
          | false =>
              simp only [hi, Bool.false_eq_true, if_false, Option.some.injEq] at hkeyword
              exact hkeyword ▸ (by decide)
        cases Insert.keyword_eq hkeyword
        rw [← q.lookup_layout]
        exact each_lookup clause_nil (q.clauses_layout hword) x
  all_goals cases hk

/-- What is asked of a node for its layout to be a phrase. -/
structure Node.IsPhrasal (isName : String → Prop) (n : Node) : Prop where
  regular : n.Regular
  filled : n.isFilled = true
  columns : ∀ c, n = .cteName c → c.columns ≠ some []
  name : ∀ s ns, n = .function s ns → isName s

section Clauses

variable {n : Node} {k : StatementKind} {ps qs : List Piece} {x : Clause}

/-- A clause with something to write leaves a phrase. -/
theorem Node.phrase_renderClause (hd : d.IsFlat) (hk : n.statement? = some k)
    (h : n.renderOwn d = .ok ps)
    (hm : ∀ m ∈ n.parts d, ∀ b rs, m.render d b = .ok rs → Piece.IsPhrase isName rs)
    (hx : n.renderClause d x = .ok qs) (hi : n.clauseItems d x ≠ []) :
    Piece.IsPhrase isName qs := by
  refine (clause_clauseItems hd hk h x hi).render (fun m hmem => ?_) hx
  exact hm m (parts_clauseItems hk h x hmem) _

theorem Node.clauseItems_ne_nil (hx : n.renderClause d x = .ok qs) (hne : qs ≠ []) :
    n.clauseItems d x ≠ [] := by
  intro he
  rw [renderClause, he] at hx
  cases hx
  exact hne rfl

/-- A SELECT without selections selects everything. -/
theorem Node.clauseItems_selections_ne_nil (h : n.statement? = some .select) :
    n.clauseItems d .selections ≠ [] := by
  cases n
  case select q =>
    have hc : Clause.selections ∈ (Node.select q).carried := by simp [carried, Select.carried]
    rw [clauseItems, if_pos hc, Clause.items]
    split
    · exact List.cons_ne_nil _ _
    · rename_i hns
      have hp : IsPhrase (fun _ => False)
          (separated ", " ((Node.select q).clauseParts .selections)) :=
        phrase_commas fun he => hns (List.isEmpty_iff.mpr he)
      exact hp.ne_nil
  all_goals cases h

end Clauses

theorem Piece.IsPhrase.wrapped {ps : List Piece} (h : IsPhrase isName ps) (w : Bool) :
    IsPhrase isName (Piece.wrapped w ps) := by
  cases w with
  | false => exact h
  | true => exact .enclosed (.inl rfl) h

theorem Node.exists_items (d : Dialect) {n : Node} (h : n.statement? = none) :
    n.kind.isStatement = false ∧ ∃ is, n.layout d = .items is := by
  cases n
  case select | insert | update | delete => cases h
  all_goals exact ⟨rfl, _, rfl⟩

/-- What a tree renders to is a phrase. -/
theorem Node.phrase_render (hd : d.IsFlat) {n : Node} {nested : Bool} {ps : List Piece}
    (hn : ∀ m ∈ n.walk d, m.IsPhrasal isName) (h : n.render d nested = .ok ps) :
    Piece.IsPhrase isName ps := by
  -- On the tree: the parts of a node render to phrases, and its layout is a phrase of them.
  induction n using Node.induction_parts d generalizing nested ps with
  | step n ih =>
      rw [forall_mem_walk] at hn
      have hm : ∀ m ∈ n.parts d, ∀ b rs, m.render d b = .ok rs → Piece.IsPhrase isName rs :=
        fun m hm b rs hr => ih m hm (hn.2 m hm) hr
      obtain ⟨-, hparts, qs, hq, rfl⟩ := render_eq_ok h
      refine Piece.IsPhrase.wrapped ?_ _
      cases hk : n.statement? with
      | some k =>
          obtain ⟨clauses, hc, -, rfl⟩ := exists_renderClause hk hq
          have hphrase : ∀ rs ∈ (d.clauseOrder k).map clauses, rs.all Piece.isEmpty = false →
              Piece.IsPhrase isName rs := by
            rw [List.forall_mem_map]
            intro x _ hx
            refine phrase_renderClause hd hk hq hm (hc x) (clauseItems_ne_nil (hc x) fun he => ?_)
            rw [he] at hx
            cases hx
          obtain he | hp := Piece.spaced_eq_nil_or (fun hp hq => .link hp (by decide) hq) hphrase
          · -- A statement leaves some text.
            have hs := all_isEmpty_renderOwn (isStatement_of_statement? hk) hq
            rw [he] at hs
            cases hs
          · exact hp
      | none =>
          obtain ⟨hs, is, hl⟩ := exists_items d hk
          rw [hl] at hq hparts
          refine (phrase_layout hd hl hs hn.1.regular hn.1.filled hn.1.columns
            hn.1.name).render (fun m hmem => hm m ?_ _) hq
          rw [← hparts]
          exact hmem

end Nodes

end SqlTree

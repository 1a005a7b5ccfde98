import SqlTree.Proofs.Emission.Alignment
import SqlTree.Proofs.Lexical.Literal

/-! # Layouts whose items do not run into each other

Between two items of a layout stands a separator, so that the tokens of a rendering are those of
its pieces. Whether fixed texts divide the items of a layout, and whether their parentheses close,
can be computed from the layout alone. -/

namespace SqlTree

/-! ## Pieces -/

namespace Piece

/-- The tokens of pieces whose first bound value has the given position. -/
def tokens (d : Dialect) : Nat → List Piece → List Token
  | _, [] => []
  | k, .text s :: ps => Text.tokens s ++ tokens d k ps
  | k, .name s :: ps => .name s :: tokens d k ps
  | k, .literal v :: ps => d.literalTokens v ++ tokens d k ps
  | k, .bound _ :: ps => .placeholder (d.placeholder.text k) :: tokens d (k + 1) ps

variable {d : Dialect}

theorem write_append (k : Nat) (ps qs : List Piece) :
    write d k (ps ++ qs) = write d k ps ++ write d (k + (boundValues ps).length) qs := by
  induction ps generalizing k with
  | nil => simp [write, boundValues]
  | cons p ps ih =>
      cases p with
      | text | name | literal =>
          simp only [List.cons_append, write, ih, String.append_assoc]
          rfl
      | bound v =>
          simp only [List.cons_append, write, ih, String.append_assoc]
          rw [show (boundValues (.bound v :: ps)).length = (boundValues ps).length + 1 from rfl,
            Nat.add_comm (boundValues ps).length, Nat.add_assoc]

theorem tokens_append (k : Nat) (ps qs : List Piece) :
    tokens d k (ps ++ qs) = tokens d k ps ++ tokens d (k + (boundValues ps).length) qs := by
  induction ps generalizing k with
  | nil => simp [tokens, boundValues]
  | cons p ps ih =>
      cases p with
      | text | name | literal =>
          simp only [List.cons_append, tokens, ih, List.append_assoc]
          rfl
      | bound v =>
          simp only [List.cons_append, tokens, ih]
          rw [show (boundValues (.bound v :: ps)).length = (boundValues ps).length + 1 from rfl,
            Nat.add_comm (boundValues ps).length, Nat.add_assoc]

/-- Pieces that are read as their tokens, whatever separator follows. -/
def Read (d : Dialect) (ps : List Piece) : Prop :=
  ∀ k, d.Reads (write d k ps).toList (tokens d k ps)

/-- Pieces that a separator opens, or no text. -/
def Apart (d : Dialect) (ps : List Piece) : Prop := ∀ k, IsApart (write d k ps).toList

/-- Pieces whose parentheses close in order. -/
def Balanced (d : Dialect) (ps : List Piece) : Prop := ∀ k, Token.IsBalanced (tokens d k ps)

theorem read_nil : Read d [] := fun _ => Dialect.reads_nil

theorem Read.append (hd : d.IsLexical) {ps qs : List Piece} (hp : Read d ps) (ha : Apart d qs)
    (hq : Read d qs) : Read d (ps ++ qs) := fun k => by
  rw [write_append, tokens_append, String.toList_append]
  exact (hp k).append hd (ha _) (hq _)

theorem read_text_append (hd : d.IsLexical) {s : String} (hs : Text.isComplete s = true)
    {ps : List Piece} (hp : Read d ps) : Read d (.text s :: ps) := fun k => by
  rw [write, tokens, String.toList_append]
  exact (Dialect.completes_plain hd hs).append_reads (hp k)

theorem read_text_of_apart (hd : d.IsLexical) {s : String} (hs : Text.isPlain s = true)
    {ps : List Piece} (ha : Apart d ps) (hp : Read d ps) : Read d (.text s :: ps) := fun k => by
  rw [write, tokens, String.toList_append]
  exact (Dialect.reads_plain hd hs).append hd (ha k) (hp k)

theorem apart_nil : Apart d [] := fun _ c hc => by simp [write] at hc

theorem apart_text {s : String} (hs : Text.isApart s = true) (ps : List Piece) :
    Apart d (.text s :: ps) := fun k => by
  rw [write, String.toList_append]
  exact Text.isApart_append hs _

theorem Balanced.append {ps qs : List Piece} (hp : Balanced d ps) (hq : Balanced d qs) :
    Balanced d (ps ++ qs) := fun k => by
  rw [tokens_append]
  exact (hp k).append (hq _)

theorem Balanced.wrapped {ps : List Piece} (hp : Balanced d ps) (w : Bool) :
    Balanced d (wrapped w ps) := by
  cases w with
  | false => exact hp
  | true =>
      intro k
      have hw := (hp k).wrap
      rw [Piece.wrapped, if_pos rfl, tokens_append]
      exact hw

theorem Read.wrapped (hd : d.IsLexical) {ps : List Piece} (hp : Read d ps) (w : Bool) :
    Read d (wrapped w ps) := by
  cases w with
  | false => exact hp
  | true =>
      have hc : Read d [.text ")"] := read_text_append hd (by decide) read_nil
      exact read_text_append hd (by decide) (hp.append hd (apart_text (by decide) []) hc)

end Piece

/-! ## Items -/

namespace Item

/-- Whether a separator opens the text of some items, or they have no text. -/
def isApart : List Item → Bool
  | [] => true
  | .piece (.text s) :: is => Text.isApart s || s.isEmpty && isApart is
  | .refuse _ :: _ => true
  | _ => false

/-- Whether the items are fixed texts and parts with separators between them. -/
def fits : List Item → Bool
  | [] => true
  | .piece (.text s) :: is => (Text.isComplete s || Text.isPlain s && isApart is) && fits is
  | .part _ :: is => isApart is && fits is
  | .refuse _ :: _ => true
  | _ => false

/-- The number of open parentheses behind some items, if none closes that is not open. -/
def depth : Nat → List Item → Option Nat
  | k, [] => some k
  | k, .piece (.text s) :: is => (Token.depth k (Text.tokens s)).bind fun j => depth j is
  | k, _ :: is => depth k is

/-- Items whose parentheses close in order. -/
def IsBalanced (is : List Item) : Prop := ∀ k, depth k is = some k

/-- Items that are read one by one. -/
def Fits (is : List Item) : Prop := fits is = true ∧ IsBalanced is

theorem isApart_append {is js : List Item} (hi : isApart is = true) (hj : isApart js = true) :
    isApart (is ++ js) = true := by
  induction is with
  | nil => exact hj
  | cons i is ih =>
      cases i with
      | piece p =>
          cases p with
          | text s =>
              simp only [isApart, List.cons_append, Bool.or_eq_true, Bool.and_eq_true] at hi ⊢
              exact hi.imp_right fun h => ⟨h.1, ih h.2⟩
          | name | literal | bound => cases hi
      | part n => cases hi
      | refuse e => rfl

theorem fits_append {is js : List Item} (hi : fits is = true) (hj : fits js = true)
    (ha : isApart js = true) : fits (is ++ js) = true := by
  induction is with
  | nil => exact hj
  | cons i is ih =>
      cases i with
      | piece p =>
          cases p with
          | text s =>
              simp only [fits, List.cons_append, Bool.or_eq_true, Bool.and_eq_true] at hi ⊢
              exact ⟨hi.1.imp_right fun h => ⟨h.1, isApart_append h.2 ha⟩, ih hi.2⟩
          | name | literal | bound => cases hi
      | part n =>
          simp only [fits, List.cons_append, Bool.and_eq_true] at hi ⊢
          exact ⟨isApart_append hi.1 ha, ih hi.2⟩
      | refuse e => rfl

theorem depth_append (k : Nat) (is js : List Item) :
    depth k (is ++ js) = (depth k is).bind fun j => depth j js := by
  induction is generalizing k with
  | nil => rfl
  | cons i is ih =>
      cases i with
      | piece p =>
          cases p with
          | text s =>
              rw [List.cons_append, depth, depth]
              cases Token.depth k (Text.tokens s) with
              | none => rfl
              | some j => exact ih j
          | name | literal | bound => exact ih k
      | part | refuse => exact ih k

theorem IsBalanced.append {is js : List Item} (hi : IsBalanced is) (hj : IsBalanced js) :
    IsBalanced (is ++ js) := fun k => by
  rw [depth_append, hi k, Option.bind_some, hj k]

theorem Fits.append {is js : List Item} (hi : Fits is) (hj : Fits js) (ha : isApart js = true) :
    Fits (is ++ js) := ⟨fits_append hi.1 hj.1 ha, hi.2.append hj.2⟩

theorem fits_nil : Fits [] := ⟨rfl, fun _ => rfl⟩

theorem fits_part (n : Node) : Fits [.part n] := ⟨rfl, fun _ => rfl⟩

theorem Fits.text {s : String} (hs : Text.isComplete s = true)
    (hb : Token.IsBalanced (Text.tokens s)) {is : List Item} (h : Fits is) :
    Fits (text s :: is) := by
  refine ⟨?_, fun k => ?_⟩
  · rw [Item.text, fits, hs, h.1]
    rfl
  · rw [Item.text, depth, hb k, Option.bind_some, h.2 k]

theorem Fits.part {n : Node} {is : List Item} (h : Fits is) (ha : isApart is = true) :
    Fits (.part n :: is) := by
  refine ⟨?_, h.2⟩
  rw [fits, ha, h.1]
  rfl

theorem fits_separated {s : String} (ha : Text.isApart s = true) (hs : Text.isComplete s = true)
    (hb : Token.IsBalanced (Text.tokens s)) (ns : List Node) : Fits (separated s ns) := by
  induction ns with
  | nil => exact fits_nil
  | cons n ns ih =>
      cases ns with
      | nil => exact fits_part n
      | cons m ms =>
          refine Fits.part (Fits.text hs hb ih) ?_
          show isApart (text s :: _) = true
          rw [Item.text, isApart, ha]
          rfl

theorem fits_commas (ns : List Node) : Fits (separated ", " ns) :=
  fits_separated (by decide) (by decide) (fun _ => rfl) ns

theorem fits_spaces (ns : List Node) : Fits (separated " " ns) :=
  fits_separated (by decide) (by decide) (fun _ => rfl) ns

theorem fits_listed {k : String} (hs : Text.isComplete k = true)
    (hb : Token.IsBalanced (Text.tokens k)) (ns : List Node) : Fits (listed k ns) :=
  (fits_commas ns).text hs hb

theorem fits_enclosed {is : List Item} (h : Fits is) :
    Fits (text "(" :: is ++ [text ")"]) := by
  refine ⟨?_, fun k => ?_⟩
  · exact fits_append (by rw [Item.text, fits, h.1]; rfl) rfl rfl
  · rw [List.cons_append, Item.text, depth]
    show depth (k + 1) (is ++ [text ")"]) = some k
    rw [depth_append, h.2, Option.bind_some]
    rfl

theorem fits_tuple (ns : List Node) : Fits (tuple ns) := fits_enclosed (fits_commas ns)

theorem fits_grouped (w : Bool) (n : Node) : Fits (grouped w n) := by
  cases w with
  | false => exact fits_part n
  | true => exact fits_enclosed (fits_part n)

/-- Items that are read one by one behind any others. -/
def Trails (is : List Item) : Prop := Fits is ∧ isApart is = true

theorem trails_nil : Trails [] := ⟨fits_nil, rfl⟩

theorem Trails.append {is js : List Item} (hi : Trails is) (hj : Trails js) :
    Trails (is ++ js) := ⟨hi.1.append hj.1 hj.2, isApart_append hi.2 hj.2⟩

theorem trails_getD_map {α : Type} {f : α → List Item} (h : ∀ a, Trails (f a)) (x : Option α) :
    Trails ((x.map f).getD []) := by
  cases x with
  | none => exact trails_nil
  | some a => exact h a

theorem Trails.text {s : String} (hs : Text.isPlain s = true)
    (hb : Token.IsBalanced (Text.tokens s)) {is : List Item} (h : Trails is) :
    Fits (text s :: is) := by
  refine ⟨?_, fun k => ?_⟩
  · rw [Item.text, fits, hs, h.2, h.1.1]
    simp
  · rw [Item.text, depth, hb k, Option.bind_some, h.1.2 k]

end Item

/-! ## Renderings of items -/

variable {d : Dialect}

theorem Item.read_renderAll (hd : d.IsLexical) {b : Bool} {is : List Item} {ps : List Piece}
    (h : renderAll d b is = .ok ps) (hf : fits is = true)
    (hm : ∀ m ∈ parts is, ∀ qs, m.render d b = .ok qs → Piece.Read d qs) :
    Piece.Read d ps ∧ (isApart is = true → Piece.Apart d ps) := by
  induction is generalizing ps with
  | nil =>
      cases h
      exact ⟨Piece.read_nil, fun _ => Piece.apart_nil⟩
  | cons i is ih =>
      obtain ⟨qs, rs, hi, his, rfl⟩ := renderAll_cons_eq_ok.mp h
      cases i with
      | piece p =>
          cases hi
          cases p with
          | text s =>
              simp only [fits, Bool.and_eq_true, Bool.or_eq_true] at hf
              obtain ⟨hr, ha⟩ := ih his hf.2 hm
              refine ⟨?_, fun h => ?_⟩
              · rcases hf.1 with hs | ⟨hs, hia⟩
                · exact Piece.read_text_append hd hs hr
                · exact Piece.read_text_of_apart hd hs (ha hia) hr
              · simp only [isApart, Bool.or_eq_true, Bool.and_eq_true] at h
                rcases h with hs | ⟨hs, hia⟩
                · exact Piece.apart_text hs rs
                · intro k
                  rw [List.singleton_append, Piece.write, String.isEmpty_iff.mp hs,
                    String.empty_append]
                  exact ha hia k
          | name | literal | bound => cases hf
      | part n =>
          rw [fits, Bool.and_eq_true] at hf
          rw [parts_part, List.forall_mem_cons] at hm
          obtain ⟨hr, ha⟩ := ih his hf.2 hm.2
          exact ⟨(hm.1 qs hi).append hd (ha hf.1) hr, fun h => absurd h (by simp [isApart])⟩
      | refuse e => cases hi

theorem Item.balanced_renderAll {b : Bool} {is : List Item} {ps : List Piece}
    (h : renderAll d b is = .ok ps) (hf : fits is = true)
    (hm : ∀ m ∈ parts is, ∀ qs, m.render d b = .ok qs → Piece.Balanced d qs) (j k : Nat) :
    Token.depth k (Piece.tokens d j ps) = depth k is := by
  induction is generalizing ps j k with
  | nil =>
      cases h
      rfl
  | cons i is ih =>
      obtain ⟨qs, rs, hi, his, rfl⟩ := renderAll_cons_eq_ok.mp h
      cases i with
      | piece p =>
          cases hi
          cases p with
          | text s =>
              rw [fits, Bool.and_eq_true] at hf
              rw [List.singleton_append, Piece.tokens, Token.depth_append, depth]
              congr 1
              funext i
              exact ih his hf.2 hm j i
          | name | literal | bound => cases hf
      | part n =>
          rw [fits, Bool.and_eq_true] at hf
          rw [parts_part, List.forall_mem_cons] at hm
          rw [Piece.tokens_append, Token.depth_append, hm.1 qs hi j k, Option.bind_some]
          exact ih his hf.2 hm.2 _ k
      | refuse e => cases hi

/-- What joining clauses with spaces keeps, where there are clauses that leave some text. -/
theorem Piece.spaced_eq_nil_or {P : List Piece → Prop}
    (hj : ∀ {ps qs}, P ps → P qs → P (ps ++ .text " " :: qs)) {pss : List (List Piece)}
    (h : ∀ ps ∈ pss, ps.all isEmpty = false → P ps) :
    Dialect.spaced pss = [] ∨ P (Dialect.spaced pss) := by
  have hi (qss : List (List Piece)) (hq : ∀ ps ∈ qss, P ps) (hne : qss ≠ []) :
      P (List.intercalate [.text " "] qss) := by
    induction qss with
    | nil => exact absurd rfl hne
    | cons qs qss ih =>
        rw [List.forall_mem_cons] at hq
        cases qss with
        | nil => rw [List.intercalate_singleton]; exact hq.1
        | cons rs rss =>
            rw [List.intercalate_cons_cons, List.append_assoc]
            exact hj hq.1 (ih hq.2 (List.cons_ne_nil rs rss))
  rw [Dialect.spaced]
  by_cases hne : (pss.filter fun ps => !ps.all Piece.isEmpty) = []
  · rw [hne]
    exact .inl rfl
  · refine .inr (hi _ (fun ps hp => ?_) hne)
    rw [List.mem_filter, Bool.not_eq_true'] at hp
    exact h ps hp.1 hp.2

/-- What joining clauses with spaces keeps. -/
theorem Piece.spaced_induction {P : List Piece → Prop} (hn : P [])
    (hj : ∀ {ps qs}, P ps → P qs → P (ps ++ .text " " :: qs)) {pss : List (List Piece)}
    (h : ∀ ps ∈ pss, P ps) : P (Dialect.spaced pss) := by
  obtain he | hp := spaced_eq_nil_or hj fun ps hp _ => h ps hp
  · rw [he]
    exact hn
  · exact hp

theorem Layout.exists_clause {R : Clause × List Item → List Piece → Prop}
    {cs : List (Clause × List Item)} {pss : List (List Piece)} (h : List.Forall₂ R cs pss)
    {ps : List Piece} (hp : ps ∈ pss) : ∃ c ∈ cs, R c ps := by
  induction h with
  | nil => cases hp
  | cons hc _ ih =>
      cases hp with
      | head => exact ⟨_, List.mem_cons_self, hc⟩
      | tail _ hp =>
          obtain ⟨c, hmem, hr⟩ := ih hp
          exact ⟨c, List.mem_cons_of_mem _ hmem, hr⟩

theorem Layout.read_render (hd : d.IsLexical) {b : Bool} {l : Layout} {ps : List Piece}
    (h : l.render d b = .ok ps) (hf : ∀ is ∈ l.lists, Item.Fits is)
    (hm : ∀ m ∈ Item.parts l.all, ∀ qs, m.render d b = .ok qs →
      Piece.Read d qs ∧ Piece.Balanced d qs) : Piece.Read d ps ∧ Piece.Balanced d ps := by
  have hi {is : List Item} {ps : List Piece} (h : Item.renderAll d b is = .ok ps)
      (hf : Item.Fits is) (hp : ∀ m ∈ Item.parts is, m ∈ Item.parts l.all) :
      Piece.Read d ps ∧ Piece.Balanced d ps := by
    refine ⟨(Item.read_renderAll hd h hf.1 fun m hmem qs hq => (hm m (hp m hmem) qs hq).1).1, ?_⟩
    intro j k
    rw [Item.balanced_renderAll h hf.1 (fun m hmem qs hq => (hm m (hp m hmem) qs hq).2) j k,
      hf.2 k]
  cases l with
  | items is => exact hi h (hf is (List.mem_singleton_self is)) fun m hmem => hmem
  | clauses cs =>
      obtain ⟨pss, hc, rfl⟩ := render_clauses_eq_ok.mp h
      have hps : ∀ ps ∈ pss, Piece.Read d ps ∧ Piece.Balanced d ps := by
        intro ps hmem
        obtain ⟨c, hcm, hr⟩ := exists_clause hc hmem
        exact hi hr (hf c.2 (List.mem_map_of_mem hcm)) fun m hmp => parts_subset_of_mem hcm hmp
      have hspace : Token.IsBalanced (Text.tokens " ") := fun _ => rfl
      refine Piece.spaced_induction ⟨Piece.read_nil, fun _ => Token.isBalanced_nil⟩ ?_ hps
      intro ps qs hp hq
      refine ⟨hp.1.append hd (Piece.apart_text (by decide) qs)
        (Piece.read_text_append hd (by decide) hq.1), hp.2.append fun k => ?_⟩
      exact hspace.append (hq.2 k)

end SqlTree

import Mathlib.Data.List.Chain
import SqlTree.Proofs.Lexical.Digits
import SqlTree.Proofs.Lexical.Integrity

/-! # The grammar of literals

A literal is NULL, a truth value, a number, a quoted string, the digits of bytes, or literals with
commas in parentheses. The values with such a text are those that hold neither an infinity nor a
NaN, which are written by name, nor an empty array, which leaves parentheses with nothing in
them. -/

namespace SqlTree

/-! ## The grammar -/

namespace Text

/-- A text between single quotes: a quote stands doubled, and where backslashes escape, a
backslash stands with the character behind it. -/
inductive IsEscaped (backslash : Bool) : List Char → Prop
  | nil : IsEscaped backslash []
  | char {c : Char} {cs : List Char} (hq : c ≠ '\x27') (hb : backslash = true → c ≠ '\\')
      (h : IsEscaped backslash cs) : IsEscaped backslash (c :: cs)
  | quote {cs : List Char} (h : IsEscaped backslash cs) :
      IsEscaped backslash ('\x27' :: '\x27' :: cs)
  | pair {c : Char} {cs : List Char} (hb : backslash = true) (h : IsEscaped backslash cs) :
      IsEscaped backslash ('\\' :: c :: cs)

/-- An upper-case hexadecimal digit. -/
def isHexDigit (c : Char) : Bool := c.isDigit || ('A' ≤ c && c ≤ 'F')

/-- Two hexadecimal digits for each of a number of bytes. -/
inductive IsHex : Nat → List Char → Prop
  | nil : IsHex 0 []
  | byte {n : Nat} {a b : Char} {cs : List Char} (ha : isHexDigit a = true)
      (hb : isHexDigit b = true) (h : IsHex n cs) : IsHex (n + 1) (a :: b :: cs)

end Text

/-- The texts of literals. -/
inductive Dialect.IsLiteral (d : Dialect) : String → Prop
  | null : IsLiteral d "NULL"
  | bool (b : Bool) : IsLiteral d (d.boolLiteral b)
  | number {cs : List Char} (negative : Bool) (h : Text.IsUnsigned cs) :
      IsLiteral d ((if negative then "-" else "") ++ String.ofList cs)
  | string {cs : List Char} (h : Text.IsEscaped d.backslashEscapes cs) :
      IsLiteral d (String.ofList ('\x27' :: (cs ++ ['\x27'])))
  | bytes {n : Nat} {cs : List Char} (h : Text.IsHex n cs) :
      IsLiteral d ("X'" ++ String.ofList cs ++ "'")
  | list {s : String} {ss : List String} (h : ∀ t ∈ s :: ss, IsLiteral d t) :
      IsLiteral d ("(" ++ ", ".intercalate (s :: ss) ++ ")")

/-! ## Strings, bytes and numbers -/

namespace Text

theorem isEscaped_doubled (cs : List Char) : IsEscaped false (doubled '\x27' cs) := by
  induction cs with
  | nil => exact .nil
  | cons c cs ih =>
      rw [doubled]
      split
      · exact .quote ih
      · rename_i hc
        exact .char hc (fun h => absurd h Bool.false_ne_true) ih

/-- Doubling the backslashes first keeps each of them in a pair. -/
theorem isEscaped_doubled_backslashes (cs : List Char) :
    IsEscaped true (doubled '\x27' (doubled '\\' cs)) := by
  rw [doubled_doubled_eq_flatMap]
  induction cs with
  | nil => exact .nil
  | cons c cs ih =>
      rw [List.flatMap_cons, escaped, twice]
      split
      · exact .pair rfl ih
      · rename_i hc
        split
        · exact .quote ih
        · rename_i hq
          exact .char hq (fun _ => hc) ih

theorem isHexDigit_upperHex (n : Nat) : isHexDigit (upperHex n) = true := by
  have hd : ∀ n < 16, isHexDigit (Nat.digitChar n).toUpper = true := by decide
  exact hd _ (Nat.mod_lt _ (by decide))

theorem isHex_upperBytes (bs : List UInt8) : IsHex bs.length (bs.flatMap upperByte) := by
  induction bs with
  | nil => exact .nil
  | cons b bs ih => exact .byte (isHexDigit_upperHex _) (isHexDigit_upperHex _) ih

end Text

namespace Dialect

theorem isLiteral_stringLiteral (d : Dialect) (s : String) : d.IsLiteral (d.stringLiteral s) := by
  rw [stringLiteral]
  cases h : d.backslashEscapes with
  | false =>
      refine .string ?_
      rw [h, if_neg Bool.false_ne_true]
      exact Text.isEscaped_doubled s.toList
  | true =>
      refine .string ?_
      rw [h, if_pos rfl, String.toList_ofList]
      exact Text.isEscaped_doubled_backslashes s.toList

theorem isLiteral_int (d : Dialect) (n : Int) : d.IsLiteral (toString n) := by
  have hn (k : Nat) : Nat.repr k = String.ofList (Nat.toDigits 10 k) := rfl
  cases n with
  | ofNat k =>
      have h := IsLiteral.number (d := d) false (.whole (Text.isDigits_toDigits k))
      rwa [← hn, if_neg Bool.false_ne_true, String.empty_append] at h
  | negSucc k => exact .number true (.whole (Text.isDigits_toDigits (k + 1)))

theorem isLiteral_float (d : Dialect) {x : Float} (h : Decimal.isFinite x.toBits = true) :
    d.IsLiteral (Decimal.floatText Decimal.sqlStyle x) := by
  obtain ⟨cs, hcs, ht⟩ := Decimal.bitsText_of_isFinite h
  have hl := IsLiteral.number (d := d) (decide (Decimal.signBit ≤ x.toBits.toNat)) hcs
  rw [Decimal.floatText, ht]
  simpa only [decide_eq_true_eq] using hl

end Dialect

/-! ## Values -/

mutual

/-- Whether SQL has a literal for a value: it holds neither an infinity nor a NaN, and no empty
array. -/
def Value.isExpressible : Value → Bool
  | .float x => Decimal.isFinite x.toBits
  | .array items => !items.isEmpty && Value.allExpressible items
  | _ => true
termination_by structural v => v

def Value.allExpressible : List Value → Bool
  | [] => true
  | v :: vs => v.isExpressible && Value.allExpressible vs
termination_by structural vs => vs

end

namespace Dialect

mutual

theorem isLiteral_of_isExpressible (d : Dialect) :
    ∀ v : Value, v.isExpressible = true → d.IsLiteral (d.literal v)
  | .null, _ => .null
  | .bool b, _ => .bool b
  | .int n, _ => d.isLiteral_int n.toInt
  | .float x, h => d.isLiteral_float h
  | .text s, _ => d.isLiteral_stringLiteral s
  | .bytes bs, _ => .bytes (Text.isHex_upperBytes bs)
  | .uuid u, _ => d.isLiteral_stringLiteral u.text
  | .instant t, _ => d.isLiteral_stringLiteral (t.text "+00:00")
  | .json j, _ => d.isLiteral_stringLiteral j.render
  | .array items, h => by
    rw [Value.isExpressible, Bool.and_eq_true, Bool.not_eq_true'] at h
    have hi := isLiteral_literals d items h.2
    rw [literal]
    cases items with
    | nil => cases h.1
    | cons v vs => exact .list hi
termination_by structural v => v

theorem isLiteral_literals (d : Dialect) :
    ∀ vs, Value.allExpressible vs = true → ∀ s ∈ d.literals vs, d.IsLiteral s
  | [], _ => List.forall_mem_nil _
  | v :: vs, h => by
    rw [Value.allExpressible, Bool.and_eq_true] at h
    exact List.forall_mem_cons.mpr ⟨isLiteral_of_isExpressible d v h.1, isLiteral_literals d vs h.2⟩
termination_by structural vs => vs

end

end Dialect

/-! ## Brackets around something -/

/-- Lists that brackets can stand around: they are not empty, no bracket in them closes right behind
the one that opens, and they neither begin with a closing bracket nor end in an opening one. -/
structure Enclosable {α : Type} (opening closing : α) (xs : List α) : Prop where
  chain : xs.IsChain fun a b => ¬ (a = opening ∧ b = closing)
  ne_nil : xs ≠ []
  head : ∀ a ∈ xs.head?, a ≠ closing
  last : ∀ a ∈ xs.getLast?, a ≠ opening

namespace Enclosable

variable {α : Type} {opening closing : α} {xs ys : List α}

theorem of_forall (hne : xs ≠ []) (h : ∀ a ∈ xs, a ≠ opening ∧ a ≠ closing) :
    Enclosable opening closing xs where
  chain := by
    rw [List.isChain_iff_forall_rel_of_append_cons_cons]
    rintro a b us vs rfl hp
    exact (h a (by simp)).1 hp.1
  ne_nil := hne
  head a ha := (h a (List.mem_of_mem_head? ha)).2
  last a ha := (h a (List.mem_of_mem_getLast? ha)).1

theorem append (hx : Enclosable opening closing xs) (hy : Enclosable opening closing ys) :
    Enclosable opening closing (xs ++ ys) where
  chain := List.isChain_append.mpr ⟨hx.chain, hy.chain, fun a ha _ _ hp => hx.last a ha hp.1⟩
  ne_nil := List.append_ne_nil_of_left_ne_nil hx.ne_nil ys
  head a ha := hx.head a (by rwa [List.head?_append_of_ne_nil xs hx.ne_nil] at ha)
  last a ha := hy.last a (by rwa [List.getLast?_append_of_ne_nil xs hy.ne_nil] at ha)

theorem enclosed (h : Enclosable opening closing xs) (hne : opening ≠ closing) :
    Enclosable opening closing (opening :: (xs ++ [closing])) where
  chain := by
    have hclose : (xs ++ [closing]).IsChain fun a b => ¬ (a = opening ∧ b = closing) :=
      List.isChain_append.mpr ⟨h.chain, List.isChain_singleton _,
        fun a ha _ _ hp => h.last a ha hp.1⟩
    have hhead : (xs ++ [closing]).head? = xs.head? := List.head?_append_of_ne_nil xs h.ne_nil
    rw [← List.singleton_append, List.isChain_append, hhead]
    exact ⟨List.isChain_singleton _, hclose, fun _ _ b hb hp => h.head b hb hp.2⟩
  ne_nil := List.cons_ne_nil _ _
  head a ha := by
    cases ha
    exact hne
  last a ha := by
    rw [← List.cons_append, List.getLast?_append_of_ne_nil _ (List.cons_ne_nil _ _)] at ha
    cases ha
    exact hne.symm

/-- No bracket closes right behind the one that opens. -/
theorem not_isInfix_pair (h : Enclosable opening closing xs) : ¬ [opening, closing] <:+: xs := by
  intro hi
  have hp := List.IsChain.infix h.chain hi
  exact (List.isChain_cons_cons.mp hp).1 ⟨rfl, rfl⟩

end Enclosable

/-! ## What the scanner reads -/

/-- A token that is no identifier, neither in quotes nor bare. -/
def Dialect.IsConstant (d : Dialect) : Token → Prop
  | .word w => w = "NULL" ∨ (∃ b, w = d.boolLiteral b) ∨ Text.IsDigits w.toList
  | .name _ | .placeholder _ => False
  | .string _ | .bytes _ | .symbol _ => True

/-- No parenthesis that closes right behind the one that opens. -/
def Token.Filled (ts : List Token) : Prop := ts.IsChain fun t u => ¬ (t = opening ∧ u = closing)

/-- Tokens that stand for a literal. -/
structure Dialect.Constant (d : Dialect) (ts : List Token) : Prop where
  tokens : ∀ t ∈ ts, d.IsConstant t
  enclosable : Enclosable Token.opening Token.closing ts

namespace Dialect

variable {d : Dialect}

theorem constant_singleton {t : Token} (ht : d.IsConstant t)
    (hp : t ≠ Token.opening ∧ t ≠ Token.closing) : d.Constant [t] where
  tokens := List.forall_mem_singleton.mpr ht
  enclosable := .of_forall (List.cons_ne_nil t []) (List.forall_mem_singleton.mpr hp)

theorem constant_word {w : String} (hw : d.IsConstant (.word w)) : d.Constant [.word w] :=
  constant_singleton hw ⟨(nomatch ·), (nomatch ·)⟩

namespace Constant

variable {ts us : List Token}

theorem append (h : d.Constant ts) (h' : d.Constant us) : d.Constant (ts ++ us) where
  tokens := List.forall_mem_append.mpr ⟨h.tokens, h'.tokens⟩
  enclosable := h.enclosable.append h'.enclosable

theorem symbol {s : String} (h : d.Constant ts)
    (hp : Token.symbol s ≠ .opening ∧ Token.symbol s ≠ .closing) : d.Constant (.symbol s :: ts) :=
  append (constant_singleton (t := .symbol s) trivial hp) h

theorem enclosed (h : d.Constant ts) :
    d.Constant (Token.opening :: (ts ++ [Token.closing])) where
  tokens := List.forall_mem_cons.mpr
    ⟨trivial, List.forall_mem_append.mpr ⟨h.tokens, List.forall_mem_singleton.mpr trivial⟩⟩
  enclosable := h.enclosable.enclosed (by decide)

end Constant

/-! ### Productions -/

theorem through_word {cs : List Char} (h : ∀ c ∈ cs, isWordChar c = true) (read : List Char) :
    Scan.through Mode.plainStep (.word read) cs = some ([], .word (cs.reverse ++ read)) := by
  induction cs generalizing read with
  | nil => rfl
  | cons c cs ih =>
      rw [List.forall_mem_cons] at h
      rw [Scan.through_cons, Mode.plainStep, if_pos h.1, Option.bind_some, ih h.2]
      simp

theorem isWordChar_of_isDigit {c : Char} (h : c.isDigit = true) : isWordChar c = true := by
  simp [isWordChar, Char.isAlphanum, h]

theorem reads_digits (hd : d.IsLexical) {cs : List Char} (h : Text.IsDigits cs) :
    d.Reads cs [.word (String.ofList cs)] := by
  obtain ⟨hne, hcs⟩ := h
  cases cs with
  | nil => exact absurd rfl hne
  | cons c cs =>
      rw [List.forall_mem_cons] at hcs
      have hw := through_word (fun x hx => isWordChar_of_isDigit (hcs.2 x hx)) [c]
      refine ⟨[], .word (cs.reverse ++ [c]), _, through_of_plain hd ?_, rfl, by simp⟩
      rw [Scan.through_cons, Mode.plainStep, Mode.begin?, if_pos (isWordChar_of_isDigit hcs.1),
        Option.bind_some, hw]
      rfl

theorem constant_digits {cs : List Char} (h : Text.IsDigits cs) :
    d.Constant [.word (String.ofList cs)] :=
  constant_word (.inr (.inr (by rwa [String.toList_ofList])))

theorem reads_isUnsigned (hd : d.IsLexical) {cs : List Char} (h : Text.IsUnsigned cs) :
    cs.head? ≠ some '-' ∧ ∃ ts, d.Reads cs ts ∧ d.Constant ts := by
  have hhead {cs ds : List Char} (h : Text.IsDigits cs) : (cs ++ ds).head? ≠ some '-' := by
    obtain ⟨hne, hcs⟩ := h
    cases cs with
    | nil => exact absurd rfl hne
    | cons c cs =>
        rintro ⟨⟩
        exact absurd (hcs '-' List.mem_cons_self) (by decide)
  cases h with
  | whole h =>
      refine ⟨?_, _, reads_digits hd h, constant_digits h⟩
      rw [← List.append_nil cs]
      exact hhead h
  | @fraction cs ds h h' =>
      have hpoint : d.Completes ".".toList [.symbol "."] := completes_plain hd (by decide)
      have hds : d.Reads ('.' :: ds) (.symbol "." :: [.word (String.ofList ds)]) :=
        hpoint.append_reads (reads_digits hd h')
      exact ⟨hhead h, _, (reads_digits hd h).append hd (by rintro _ ⟨⟩; decide) hds,
        (constant_digits h).append ((constant_digits h').symbol (by decide))⟩

theorem through_isEscaped {cs : List Char} (h : Text.IsEscaped d.backslashEscapes cs)
    (read : List Char) :
    ∃ out, Scan.through d.scanStep (.quoted .string read) cs = some ([], .quoted .string out) := by
  induction h generalizing read with
  | nil => exact ⟨read, rfl⟩
  | @char c cs hq hb _ ih =>
      obtain ⟨out, ho⟩ := ih (c :: read)
      refine ⟨out, (through_silent (scanStep_quoted hq ?_ read) cs).trans ho⟩
      cases hd : d.backslashEscapes with
      | false => simp
      | true => simp [hb hd]
  | @quote cs _ ih =>
      obtain ⟨out, ho⟩ := ih ('\x27' :: read)
      exact ⟨out, (through_silent (scanStep_closingQuote .string read) _).trans
        ((through_silent (scanStep_doubledQuote .string read) _).trans ho)⟩
  | @pair c cs hb _ ih =>
      obtain ⟨out, ho⟩ := ih (c :: read)
      have hs : d.scanStep (.quoted .string read) '\\' = some ([], .escaped .string read) := by
        simp [scanStep, closingQuote, hb]
      have he : d.scanStep (.escaped .string read) c = some ([], .quoted .string (c :: read)) := rfl
      exact ⟨out, (through_silent hs _).trans ((through_silent he _).trans ho)⟩

theorem reads_isEscaped (hd : d.IsLexical) {cs : List Char}
    (h : Text.IsEscaped d.backslashEscapes cs) :
    ∃ s, d.Reads ('\x27' :: (cs ++ ['\x27'])) [.string s] := by
  obtain ⟨out, ho⟩ := through_isEscaped h []
  have hq : d.beginToken '\x27' = ([], .quoted .string []) := by
    rw [beginToken, if_neg hd.opening_ne.symm, if_pos rfl]
  rw [← out.reverse_reverse] at ho
  exact ⟨_, reads_quoted hq ho⟩

theorem ne_quote_of_isHex {n : Nat} {cs : List Char} (h : Text.IsHex n cs) :
    ∀ c ∈ cs, c ≠ '\x27' := by
  have hq : Text.isHexDigit '\x27' = false := by decide
  induction h with
  | nil => exact List.forall_mem_nil _
  | byte ha hb _ ih =>
      refine List.forall_mem_cons.mpr ⟨fun h => ?_, List.forall_mem_cons.mpr ⟨fun h => ?_, ih⟩⟩
      · rw [h, hq] at ha
        cases ha
      · rw [h, hq] at hb
        cases hb

/-- Literals with commas are read as one after another. -/
theorem reads_commas (hd : d.IsLexical) {s : String} {ss : List String}
    (h : ∀ t ∈ s :: ss, ∃ ts, d.Reads t.toList ts ∧ d.Constant ts) :
    ∃ ts, d.Reads (", ".intercalate (s :: ss)).toList ts ∧ d.Constant ts := by
  induction ss generalizing s with
  | nil => simpa using h
  | cons t ss ih =>
      rw [List.forall_mem_cons] at h
      obtain ⟨ts, hts, hc⟩ := h.1
      obtain ⟨us, hus, hc'⟩ := ih h.2
      have hcomma : d.Completes ", ".toList [.symbol ","] := completes_plain hd (by decide)
      refine ⟨ts ++ .symbol "," :: us, ?_, hc.append (hc'.symbol (by decide))⟩
      rw [String.intercalate_cons_cons, String.toList_append, String.toList_append,
        List.append_assoc]
      exact hts.append hd (Text.isApart_append (by decide) _) (hcomma.append_reads hus)

/-- The tokens of a literal are none of an identifier, and no list in it is empty. -/
theorem IsLiteral.exists_reads (hd : d.IsLexical)
    (hb : ∀ b, d.Reads (d.boolLiteral b).toList [.word (d.boolLiteral b)]) {s : String}
    (h : d.IsLiteral s) : ∃ ts, d.Reads s.toList ts ∧ d.Constant ts := by
  induction h with
  | null => exact ⟨_, reads_plain hd (s := "NULL") (by decide), constant_word (.inl rfl)⟩
  | bool b => exact ⟨_, hb b, constant_word (.inr (.inl ⟨b, rfl⟩))⟩
  | @number cs negative h =>
      obtain ⟨hhead, ts, hr, hc⟩ := reads_isUnsigned hd h
      cases negative with
      | false => exact ⟨ts, by simpa using hr, hc⟩
      | true =>
          have hm := hr.minus hd hhead
          exact ⟨.symbol "-" :: ts, by simpa using hm, hc.symbol (by decide)⟩
  | string h =>
      obtain ⟨s, hr⟩ := reads_isEscaped hd h
      exact ⟨[.string s], by simpa using hr,
        constant_singleton trivial (Token.ne_of_isPlain_eq_false rfl)⟩
  | bytes h =>
      exact ⟨_, reads_bytes hd (ne_quote_of_isHex h),
        constant_singleton trivial (Token.ne_of_isPlain_eq_false rfl)⟩
  | list _ ih =>
      obtain ⟨ts, hr, hc⟩ := reads_commas hd ih
      have ho : d.Completes "(".toList [Token.opening] := completes_plain hd (by decide)
      have hclose : d.Reads ")".toList [Token.closing] := reads_plain hd (by decide)
      refine ⟨_, ?_, hc.enclosed⟩
      rw [String.toList_append, String.toList_append, List.append_assoc]
      have ha : IsApart (")".toList ++ []) := Text.isApart_append (by decide) []
      exact ho.append_reads (hr.append hd ha hclose)

end Dialect

/-! ## Built-in dialects -/

theorem Engine.reads_boolLiteral (e : Engine) (b : Bool) :
    e.dialect.Reads (e.dialect.boolLiteral b).toList [.word (e.dialect.boolLiteral b)] := by
  have ht : Text.isPlain (e.dialect.boolLiteral b) = true ∧
      Text.tokens (e.dialect.boolLiteral b) = [.word (e.dialect.boolLiteral b)] := by
    cases e <;> cases b <;> decide
  rw [← ht.2]
  exact Dialect.reads_plain e.isLexical ht.1

/-- The literal of a value belongs to the grammar, unless it holds a number without digits or an
empty array. Its tokens are those of constants, and no parenthesis in it closes right behind the
one that opens. -/
theorem Engine.isLiteral_literal (e : Engine) {v : Value} (h : v.isExpressible = true) :
    e.dialect.IsLiteral (e.dialect.literal v) ∧
      ∃ ts, e.dialect.scan? (e.dialect.literal v) = some ts ∧
        (∀ t ∈ ts, e.dialect.IsConstant t) ∧ Token.Filled ts := by
  have hl := e.dialect.isLiteral_of_isExpressible v h
  obtain ⟨ts, hr, hc⟩ := hl.exists_reads e.isLexical e.reads_boolLiteral
  exact ⟨hl, ts, hr.scan?_eq, hc.tokens, hc.enclosable.chain⟩

/-- An array with a string, bytes, a negative number and an array. -/
def Value.nestedSample : Value :=
  .array [.text "it\x27s \\", .bytes [0, 255], .int (-12), .array [.null, .bool true]]

theorem Engine.isLiteral_literal_nestedSample :
    Value.nestedSample.isExpressible = true ∧
    Engine.mysql.dialect.literal Value.nestedSample =
      "(\x27it\x27\x27s \\\\\x27, X\x2700FF\x27, -12, (NULL, 1))" ∧
    Engine.mysql.dialect.IsLiteral (Engine.mysql.dialect.literal Value.nestedSample) ∧
    ∃ ts, Engine.mysql.dialect.scan? (Engine.mysql.dialect.literal Value.nestedSample) = some ts ∧
      (∀ t ∈ ts, Engine.mysql.dialect.IsConstant t) ∧ Token.Filled ts := by
  have h : Value.nestedSample.isExpressible = true := rfl
  exact ⟨h, by cbv, Engine.mysql.isLiteral_literal h⟩

theorem Engine.not_isLiteral {e : Engine} {s : String} {ts : List Token}
    (hs : e.dialect.scan? s = some ts) (ht : ¬ e.dialect.Constant ts) :
    ¬ e.dialect.IsLiteral s := by
  intro h
  obtain ⟨us, hr, hc⟩ := h.exists_reads e.isLexical e.reads_boolLiteral
  rw [hr.scan?_eq, Option.some.injEq] at hs
  exact ht (hs ▸ hc)

/-- The literals of an empty array, of a NaN and of an infinity are outside of the grammar. -/
theorem Engine.not_isLiteral_emptyArray :
    Engine.postgres.dialect.literal (.array []) = "()" ∧
    ¬ Engine.postgres.dialect.IsLiteral "()" ∧
    Decimal.bitsText Decimal.sqlStyle 0x7ff8000000000000 = "NaN" ∧
    ¬ Engine.postgres.dialect.IsLiteral "NaN" ∧
    Decimal.bitsText Decimal.sqlStyle 0xfff0000000000000 = "-inf" ∧
    ¬ Engine.postgres.dialect.IsLiteral "-inf" := by
  have bare (w : String) (hw : w ≠ "NULL" ∧ w ≠ "true" ∧ w ≠ "false")
      (hd : (w.toList.all Char.isDigit) = false) :
      ¬ Engine.postgres.dialect.IsConstant (.word w) := by
    rintro (h | ⟨b, h⟩ | ⟨-, h⟩)
    · exact hw.1 h
    · cases b
      · exact hw.2.2 h
      · exact hw.2.1 h
    · exact Bool.false_ne_true (hd.symm.trans (List.all_eq_true.mpr h))
  refine ⟨by cbv, ?_, by cbv, ?_, by cbv, ?_⟩
  · have hs : Engine.postgres.dialect.scan? "()" = some [Token.opening, Token.closing] := by decide
    refine not_isLiteral hs fun h => ?_
    exact (List.isChain_cons_cons.mp h.enclosable.chain).1 ⟨rfl, rfl⟩
  · have hs : Engine.postgres.dialect.scan? "NaN" = some [.word "NaN"] := by decide
    refine not_isLiteral hs fun h => ?_
    exact bare "NaN" (by decide) (by decide) (h.tokens _ (by simp))
  · have hs : Engine.postgres.dialect.scan? "-inf" = some [.symbol "-", .word "inf"] := by decide
    refine not_isLiteral hs fun h => ?_
    exact bare "inf" (by decide) (by decide) (h.tokens _ (by simp))

end SqlTree

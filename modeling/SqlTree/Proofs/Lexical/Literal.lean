import SqlTree.Proofs.Lexical.Delimiting
import SqlTree.Proofs.Lexical.Plain

/-! # How the scanner reads names and literals

Quoted names and strings are read back as they were, whatever characters they hold, and numbers,
truth values and byte strings are read as tokens of their own. -/

namespace SqlTree

/-! ## Quoted text -/

namespace Dialect

variable {d : Dialect}

theorem scanStep_closingQuote (q : Quoted) (read : List Char) :
    d.scanStep (.quoted q read) (d.closingQuote q) = some ([], .closed q read) := by
  rw [scanStep, if_pos rfl]

theorem scanStep_doubledQuote (q : Quoted) (read : List Char) :
    d.scanStep (.closed q read) (d.closingQuote q) =
      some ([], .quoted q (d.closingQuote q :: read)) := by
  rw [scanStep, if_pos rfl]

theorem scanStep_quoted {q : Quoted} {c : Char} (hc : c ≠ d.closingQuote q)
    (hb : (q = .string && d.backslashEscapes && c = '\\') = false) (read : List Char) :
    d.scanStep (.quoted q read) c = some ([], .quoted q (c :: read)) := by
  rw [scanStep, if_neg hc, hb]
  rfl

theorem through_silent {m n : Mode} {c : Char} (h : d.scanStep m c = some ([], n))
    (cs : List Char) :
    Scan.through d.scanStep m (c :: cs) = Scan.through d.scanStep n cs := by
  rw [Scan.through_cons, h, Option.bind_some]
  cases Scan.through d.scanStep n cs <;> rfl

/-- Between quotes the scanner reads back a text each of whose characters it reads back. -/
theorem through_flatMap {q : Quoted} {f : Char → List Char} {cs : List Char}
    (hf : ∀ c ∈ cs, ∀ read,
      Scan.through d.scanStep (.quoted q read) (f c) = some ([], .quoted q (c :: read)))
    (read : List Char) :
    Scan.through d.scanStep (.quoted q read) (cs.flatMap f) =
      some ([], .quoted q (cs.reverse ++ read)) := by
  induction cs generalizing read with
  | nil => rfl
  | cons c cs ih =>
      rw [List.forall_mem_cons] at hf
      rw [List.flatMap_cons, Scan.through_append, hf.1, Option.bind_some, ih hf.2,
        List.reverse_cons, List.append_assoc, List.singleton_append]
      rfl

/-- Between quotes the scanner undoes the doubling of the closing quote. -/
theorem through_doubled {q : Quoted} (hq : (q = .string && d.backslashEscapes) = false)
    (read cs : List Char) :
    Scan.through d.scanStep (.quoted q read) (Text.doubled (d.closingQuote q) cs) =
      some ([], .quoted q (cs.reverse ++ read)) := by
  rw [Text.doubled_eq_flatMap]
  refine through_flatMap (fun c _ read => ?_) read
  rw [Text.twice]
  split
  · rename_i hc
    rw [through_silent (scanStep_closingQuote q read),
      through_silent (scanStep_doubledQuote q read), hc]
    rfl
  · rename_i hc
    exact through_silent (scanStep_quoted hc (by rw [hq]; rfl) read) _

/-- Where a backslash escapes, the scanner undoes the doubling of backslashes too. -/
theorem through_escaped (hb : d.backslashEscapes = true) (read cs : List Char) :
    Scan.through d.scanStep (.quoted .string read)
        (Text.doubled '\x27' (Text.doubled '\\' cs)) =
      some ([], .quoted .string (cs.reverse ++ read)) := by
  rw [Text.doubled_doubled_eq_flatMap]
  refine through_flatMap (fun c _ read => ?_) read
  rw [Text.escaped, Text.twice]
  split
  · rename_i hc
    have hs : d.scanStep (.quoted .string read) '\\' = some ([], .escaped .string read) := by
      simp [scanStep, closingQuote, hb]
    have he : d.scanStep (.escaped .string read) '\\' =
        some ([], .quoted .string ('\\' :: read)) := rfl
    rw [through_silent hs, through_silent he, hc]
    rfl
  · rename_i hc
    split
    · rename_i hq
      rw [hq]
      exact (through_silent (scanStep_closingQuote .string read) _).trans
        (through_silent (scanStep_doubledQuote .string read) _)
    · rename_i hq
      exact through_silent (scanStep_quoted hq (by simp [hc]) read) _

theorem reads_quoted {o : Char} {q : Quoted} {body : List Char} {cs : List Char}
    (ho : d.beginToken o = ([], .quoted q []))
    (hb : Scan.through d.scanStep (.quoted q []) body = some ([], .quoted q cs.reverse)) :
    d.Reads (o :: (body ++ [d.closingQuote q])) [q.token (String.ofList cs)] := by
  refine ⟨[], .closed q cs.reverse, [q.token (String.ofList cs)], ?_, ?_, rfl⟩
  · have hs : d.scanStep .start o = some ([], .quoted q []) := congrArg some ho
    rw [through_silent hs, Scan.through_append, hb, Option.bind_some,
      through_silent (scanStep_closingQuote q _)]
    rfl
  · rw [Mode.pending?, List.reverse_reverse]

theorem reads_identifier (d : Dialect) (s : String) :
    d.Reads (d.identifier s).toList [.name s] := by
  have ho : d.beginToken d.quotes.opening = ([], .quoted .name []) := by
    rw [beginToken, if_pos rfl]
  have hb := through_doubled (d := d) (q := .name) rfl [] s.toList
  rw [List.append_nil] at hb
  simpa [identifier, Text.quoted, closingQuote, Quoted.token] using reads_quoted ho hb

theorem reads_stringLiteral (hd : d.IsLexical) (s : String) :
    d.Reads (d.stringLiteral s).toList [.string s] := by
  have ho : d.beginToken '\x27' = ([], .quoted .string []) := by
    rw [beginToken, if_neg hd.opening_ne.symm, if_pos rfl]
  rw [stringLiteral]
  cases h : d.backslashEscapes with
  | false =>
      have hb := through_doubled (d := d) (q := .string) (by simp [h]) [] s.toList
      rw [List.append_nil] at hb
      simpa [Text.quoted, closingQuote, Quoted.token] using reads_quoted ho hb
  | true =>
      have hb := through_escaped h [] s.toList
      rw [List.append_nil] at hb
      simpa [Text.quoted, closingQuote, Quoted.token] using reads_quoted ho hb

theorem upperByte_ne_quote {b : UInt8} {c : Char} (h : c ∈ Text.upperByte b) : c ≠ '\x27' := by
  have hd : ∀ n < 16, (Nat.digitChar n).toUpper ≠ '\x27' := by decide
  simp only [Text.upperByte, Text.upperHex, Text.lowerHex, List.mem_cons, List.not_mem_nil,
    or_false] at h
  rcases h with rfl | rfl
  all_goals exact hd _ (Nat.mod_lt _ (by decide))

theorem through_bytes {cs : List Char} (h : ∀ c ∈ cs, c ≠ '\x27') (read : List Char) :
    Scan.through d.scanStep (.quoted .bytes read) cs =
      some ([], .quoted .bytes (cs.reverse ++ read)) := by
  have hf := through_flatMap (d := d) (q := .bytes) (f := fun c => [c])
    (fun c hc read => through_silent (scanStep_quoted (h c hc) rfl read) []) read
  rwa [List.flatMap_singleton'] at hf

/-- Between the quotes of a byte string stands anything but a quote. -/
theorem reads_bytes (hd : d.IsLexical) {cs : List Char} (h : ∀ c ∈ cs, c ≠ '\x27') :
    d.Reads ("X'" ++ String.ofList cs ++ "'").toList [.bytes (String.ofList cs)] := by
  have hx : d.scanStep .start 'X' = some ([], .word ['X']) :=
    congrArg some (beginToken_of_plain hd rfl)
  have hq : d.scanStep (.word ['X']) '\x27' = some ([], .quoted .bytes []) := rfl
  have hb := through_bytes (d := d) h []
  refine ⟨[], .closed .bytes cs.reverse, _, ?_, rfl, ?_⟩
  · simp only [String.toList_append, String.toList_ofList]
    show Scan.through d.scanStep .start ('X' :: '\x27' :: cs ++ ['\x27']) = _
    rw [List.cons_append, List.cons_append, through_silent hx, through_silent hq,
      Scan.through_append, hb, List.append_nil, Option.bind_some]
    exact congrArg (Option.map _) (through_silent (scanStep_closingQuote .bytes _) _)
  · rw [List.reverse_reverse]
    rfl

theorem reads_bytesLiteral (hd : d.IsLexical) (bs : List UInt8) :
    d.Reads (bytesLiteral bs).toList [.bytes (String.ofList (bs.flatMap Text.upperByte))] := by
  refine reads_bytes hd fun c hc => ?_
  obtain ⟨b, -, hc⟩ := List.mem_flatMap.mp hc
  exact upperByte_ne_quote hc

/-! ## Literals -/

mutual

/-- The tokens of a value as a literal. -/
def literalTokens (d : Dialect) : Value → List Token
  | .null => Text.tokens "NULL"
  | .bool b => Text.tokens (d.boolLiteral b)
  | .int n => Text.tokens (toString n.toInt)
  | .float x => Text.tokens (Decimal.floatText Decimal.sqlStyle x)
  | .text s => [.string s]
  | .bytes bs => [.bytes (String.ofList (bs.flatMap Text.upperByte))]
  | .uuid u => [.string u.text]
  | .instant t => [.string (t.text "+00:00")]
  | .json j => [.string j.render]
  | .array items => Token.opening :: itemTokens d items ++ [Token.closing]
termination_by structural v => v

/-- The tokens of literals with commas. -/
def itemTokens (d : Dialect) : List Value → List Token
  | [] => []
  | v :: vs => literalTokens d v ++ (if vs.isEmpty then [] else .symbol "," :: itemTokens d vs)
termination_by structural vs => vs

end

theorem reads_isNumeral (hd : d.IsLexical) {s : String} (h : Text.IsNumeral s) :
    d.Reads s.toList (Text.tokens s) :=
  reads_plain hd (Text.isPlain_of_isNumeral h)

mutual

theorem reads_literal (hd : d.IsLexical) (hb : ∀ b, Text.IsNumeral (d.boolLiteral b)) :
    ∀ v, d.Reads (d.literal v).toList (d.literalTokens v)
  | .null => reads_plain hd (s := "NULL") (by decide)
  | .bool b => reads_isNumeral hd (hb b)
  | .int n => reads_isNumeral hd (Text.isNumeral_int n.toInt)
  | .float x => reads_isNumeral hd (Text.isNumeral_float x)
  | .text s => reads_stringLiteral hd s
  | .bytes bs => reads_bytesLiteral hd bs
  | .uuid u => reads_stringLiteral hd u.text
  | .instant t => reads_stringLiteral hd (t.text "+00:00")
  | .json j => reads_stringLiteral hd j.render
  | .array items => by
    have ho : d.Completes "(".toList [Token.opening] := completes_plain hd (by decide)
    have hc : d.Reads ")".toList [Token.closing] := reads_plain hd (by decide)
    have ha : IsApart (")".toList ++ []) := Text.isApart_append (by decide) []
    have hi := reads_literals hd hb items
    rw [literal, String.toList_append, String.toList_append, List.append_assoc]
    exact ho.append_reads (hi.append hd ha hc)
termination_by structural v => v

theorem reads_literals (hd : d.IsLexical) (hb : ∀ b, Text.IsNumeral (d.boolLiteral b)) :
    ∀ vs, d.Reads (", ".intercalate (d.literals vs)).toList (d.itemTokens vs)
  | [] => reads_nil
  | [v] => by
    have hv := reads_literal hd hb v
    simpa [literals, itemTokens] using hv
  | v :: w :: vs => by
    have hv := reads_literal hd hb v
    have hvs := reads_literals hd hb (w :: vs)
    have hc : d.Completes ", ".toList [.symbol ","] := completes_plain hd (by decide)
    rw [literals, literals, String.intercalate_cons_cons, String.toList_append,
      String.toList_append, List.append_assoc]
    exact hv.append hd (Text.isApart_append (by decide) _) (hc.append_reads hvs)
termination_by structural vs => vs

end

end Dialect

/-! ## What the tokens of a literal tell -/

namespace Token

/-- The identifier a token quotes. -/
def name? : Token → Option String
  | .name s => some s
  | _ => none

/-- The string a token quotes. -/
def string? : Token → Option String
  | .string s => some s
  | _ => none

/-- The mark a token is. -/
def placeholder? : Token → Option String
  | .placeholder s => some s
  | _ => none

/-- Tokens whose parentheses close in order, none before it opens. -/
def IsBalanced (ts : List Token) : Prop := ∀ k, depth k ts = some k

theorem depth_append (k : Nat) (ts us : List Token) :
    depth k (ts ++ us) = (depth k ts).bind fun j => depth j us := by
  induction ts generalizing k with
  | nil => rfl
  | cons t ts ih =>
      rw [List.cons_append, depth, depth]
      split
      · exact ih _
      · split
        · split
          · rfl
          · exact ih _
        · exact ih k

theorem isBalanced_nil : IsBalanced [] := fun _ => rfl

theorem IsBalanced.append {ts us : List Token} (ht : IsBalanced ts) (hu : IsBalanced us) :
    IsBalanced (ts ++ us) := fun k => by
  rw [depth_append, ht k, Option.bind_some, hu k]

theorem IsBalanced.cons {t : Token} {ts : List Token} (ho : t ≠ opening) (hc : t ≠ closing)
    (ht : IsBalanced ts) : IsBalanced (t :: ts) := fun k => by
  rw [depth, if_neg ho, if_neg hc, ht k]

/-- A quoted token or a mark is no parenthesis. -/
theorem ne_of_isPlain_eq_false {t : Token} (h : t.isPlain = false) :
    t ≠ opening ∧ t ≠ closing := by
  constructor
  all_goals
    rintro rfl
    cases h

theorem isBalanced_of_isPlain_eq_false {t : Token} (h : t.isPlain = false) : IsBalanced [t] :=
  isBalanced_nil.cons (ne_of_isPlain_eq_false h).1 (ne_of_isPlain_eq_false h).2

theorem IsBalanced.wrap {ts : List Token} (ht : IsBalanced ts) :
    IsBalanced (opening :: ts ++ [closing]) := fun k => by
  rw [List.cons_append, depth, if_pos rfl, depth_append, ht, Option.bind_some]
  rfl

theorem isBalanced_of_isInert {ts : List Token} (h : ∀ t ∈ ts, t.isInert = true) :
    IsBalanced ts := by
  induction ts with
  | nil => exact isBalanced_nil
  | cons t ts ih =>
      rw [List.forall_mem_cons] at h
      refine (ih h.2).cons ?_ ?_
      all_goals
        rintro rfl
        simp [isInert, opening, closing] at h

end Token

mutual

/-- The strings that the literal of a value quotes. -/
def Value.strings : Value → List String
  | .text s => [s]
  | .uuid u => [u.text]
  | .instant t => [t.text "+00:00"]
  | .json j => [j.render]
  | .array items => Value.stringsAll items
  | .null | .bool _ | .int _ | .float _ | .bytes _ => []
termination_by structural v => v

/-- The strings that the literals of some values quote. -/
def Value.stringsAll : List Value → List String
  | [] => []
  | v :: vs => v.strings ++ Value.stringsAll vs
termination_by structural vs => vs

end

namespace Dialect

variable {d : Dialect} {f : Token → Option String}

/-- A reading of tokens that sees neither plain text nor byte strings. -/
def IsQuotedReading (f : Token → Option String) : Prop :=
  (∀ t : Token, t.isPlain = true → f t = none) ∧ ∀ s, f (.bytes s) = none

theorem filterMap_plain (hf : IsQuotedReading f) (s : String) :
    (Text.tokens s).filterMap f = [] :=
  List.filterMap_eq_nil_iff.mpr fun t ht => hf.1 t (Text.isPlain_of_mem_tokens ht)

mutual

theorem filterMap_literalTokens (hf : IsQuotedReading f) :
    ∀ v, (d.literalTokens v).filterMap f = v.strings.filterMap fun s => f (.string s)
  | .null => filterMap_plain hf "NULL"
  | .bool b => filterMap_plain hf (d.boolLiteral b)
  | .int n => filterMap_plain hf (toString n.toInt)
  | .float x => filterMap_plain hf (Decimal.floatText Decimal.sqlStyle x)
  | .text _ | .uuid _ | .instant _ | .json _ => rfl
  | .bytes bs => by
    rw [literalTokens, List.filterMap_cons_none (hf.2 _)]
    rfl
  | .array items => by
    rw [literalTokens, List.filterMap_append, List.filterMap_cons_none (hf.1 _ rfl),
      List.filterMap_cons_none (hf.1 _ rfl), filterMap_itemTokens hf items]
    exact List.append_nil _
termination_by structural v => v

theorem filterMap_itemTokens (hf : IsQuotedReading f) :
    ∀ vs, (d.itemTokens vs).filterMap f =
      (Value.stringsAll vs).filterMap fun s => f (.string s)
  | [] => rfl
  | v :: vs => by
    rw [itemTokens, List.filterMap_append, filterMap_literalTokens hf v, Value.stringsAll,
      List.filterMap_append, ← filterMap_itemTokens hf vs]
    cases vs with
    | nil => rfl
    | cons w ws => rw [List.isEmpty_cons, if_neg (by decide), List.filterMap_cons_none (hf.1 _ rfl)]
termination_by structural vs => vs

end

mutual

theorem isBalanced_literalTokens (hb : ∀ b, Text.IsNumeral (d.boolLiteral b)) :
    ∀ v, Token.IsBalanced (d.literalTokens v)
  | .null => show Token.IsBalanced (Text.tokens "NULL") from
    Token.isBalanced_of_isInert (by decide)
  | .bool b => Token.isBalanced_of_isInert fun _ => Text.isInert_of_mem_tokens (hb b)
  | .int n =>
    Token.isBalanced_of_isInert fun _ => Text.isInert_of_mem_tokens (Text.isNumeral_int n.toInt)
  | .float x =>
    Token.isBalanced_of_isInert fun _ => Text.isInert_of_mem_tokens (Text.isNumeral_float x)
  | .text _ | .bytes _ | .uuid _ | .instant _ | .json _ =>
    Token.isBalanced_of_isPlain_eq_false rfl
  | .array items => (isBalanced_itemTokens hb items).wrap
termination_by structural v => v

theorem isBalanced_itemTokens (hb : ∀ b, Text.IsNumeral (d.boolLiteral b)) :
    ∀ vs, Token.IsBalanced (d.itemTokens vs)
  | [] => Token.isBalanced_nil
  | v :: vs => by
    refine (isBalanced_literalTokens hb v).append ?_
    split
    · exact Token.isBalanced_nil
    · exact (isBalanced_itemTokens hb vs).cons (by decide) (by decide)
termination_by structural vs => vs

end

end Dialect

end SqlTree

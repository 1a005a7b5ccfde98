import SqlTree.Dialect.Engine

/-! # Quoted text delimits itself

A quoted text is read from its opening character to the first closing one that is not part of an
escape sequence. Reading a quoted name or a string literal gives back what was quoted and leaves
what follows, unless that begins with the closing character again. -/

namespace SqlTree.Text

/-! ## Reading -/

/-- The pairs of characters that stand for something else between quotes, and for what. -/
abbrev Escapes := Char → Char → Option (List Char)

/-- The closing character twice stands for one. -/
def doubling (closing : Char) : Escapes := fun a b =>
  if a = closing ∧ b = closing then some [closing] else none

/-- What a backslash and the character behind it stand for: some letters are names of control
characters, the wildcards of LIKE keep the backslash, and any other character loses it. -/
def backslashed : Char → List Char
  | '0' => ['\x00']
  | 'b' => ['\x08']
  | 't' => ['\t']
  | 'n' => ['\n']
  | 'r' => ['\r']
  | 'Z' => ['\x1a']
  | '%' => ['\\', '%']
  | '_' => ['\\', '_']
  | c => [c]

/-- Escape sequences to which those with a backslash are added. -/
def Escapes.withBackslash (e : Escapes) : Escapes := fun a b =>
  if a = '\\' then some (backslashed b) else e a b

/-- Reads behind an opening character to the closing one that ends the text: what the text between
them stands for, and what follows. -/
def body? (e : Escapes) (closing : Char) : List Char → Option (List Char × List Char)
  | [] => none
  | [a] => if a = closing then some ([], []) else none
  | a :: b :: cs =>
    match e a b with
    | some xs => (body? e closing cs).map fun p => (xs ++ p.1, p.2)
    | none =>
      if a = closing then some ([], b :: cs)
      else (body? e closing (b :: cs)).map fun p => (a :: p.1, p.2)

/-- Reads a quoted text from its opening character: what was quoted, and what follows. -/
def unquoted? (opening closing : Char) (e : Escapes) (s : String) : Option (String × String) :=
  match s.toList with
  | [] => none
  | a :: cs =>
    if a = opening then
      (body? e closing cs).map fun p => (String.ofList p.1, String.ofList p.2)
    else none

variable {e : Escapes} {opening closing : Char}

theorem length_lt_of_body? {cs v r : List Char} (h : body? e closing cs = some (v, r)) :
    r.length < cs.length := by
  fun_induction body? e closing cs generalizing v r with
  | case1 => cases h
  | case2 => cases h; simp
  | case3 => cases h
  | case4 a b cs xs hx ih =>
      obtain ⟨p, hp, hr⟩ := Option.map_eq_some_iff.mp h
      cases hr
      have := ih hp
      simp only [List.length_cons]
      omega
  | case5 => cases h; simp
  | case6 a b cs hx ha ih =>
      obtain ⟨p, hp, hr⟩ := Option.map_eq_some_iff.mp h
      cases hr
      have := ih hp
      simp only [List.length_cons] at this ⊢
      omega

/-- A closing character ends the text unless it forms an escape sequence with what follows. -/
theorem body?_closing {r : List Char} :
    body? e closing (closing :: r) = some ([], r) ↔ ∀ b ∈ r.head?, e closing b = none := by
  cases r with
  | nil => simp [body?]
  | cons b cs =>
      rw [body?]
      cases hb : e closing b with
      | none => simp [hb]
      | some xs =>
          simp only [List.head?_cons, Option.mem_some_iff, forall_eq', hb, reduceCtorEq, iff_false]
          -- what is left behind the sequence is too short to be the whole text behind `closing`
          intro h
          obtain ⟨p, hp, hr⟩ := Option.map_eq_some_iff.mp h
          have hl := length_lt_of_body? (v := p.1) (r := p.2) hp
          rw [(Prod.mk.inj hr).2, List.length_cons] at hl
          omega

/-! ## Characters one after another -/

/-- How a character is written between quotes: plainly, if it has no meaning of its own there, or
as an escape sequence. -/
inductive WrittenAs (e : Escapes) (closing x : Char) : List Char → Prop
  | plain (hc : x ≠ closing) (he : ∀ b, e x b = none) : WrittenAs e closing x [x]
  | pair {a b : Char} (h : e a b = some [x]) : WrittenAs e closing x [a, b]

theorem WrittenAs.body?_append {x : Char} {cs : List Char} (h : WrittenAs e closing x cs)
    (rest : List Char) :
    body? e closing (cs ++ rest) = (body? e closing rest).map fun p => (x :: p.1, p.2) := by
  cases h with
  | plain hc he =>
      cases rest with
      | nil => simp [body?, hc]
      | cons b bs => simp [body?, hc, he b]
  | pair h => simp [body?, h]

theorem body?_flatMap {write : Char → List Char} (hw : ∀ x, WrittenAs e closing x (write x))
    (v rest : List Char) :
    body? e closing (v.flatMap write ++ rest) =
      (body? e closing rest).map fun p => (v ++ p.1, p.2) := by
  induction v with
  | nil => simp
  | cons x v ih =>
      rw [List.flatMap_cons, List.append_assoc, (hw x).body?_append, ih, Option.map_map]
      rfl

/-- A text whose characters are written one after another ends at the first closing character. -/
theorem body?_written {write : Char → List Char} (hw : ∀ x, WrittenAs e closing x (write x))
    (v r : List Char) :
    body? e closing (v.flatMap write ++ closing :: r) = some (v, r) ↔
      ∀ b ∈ r.head?, e closing b = none := by
  rw [body?_flatMap hw, ← body?_closing, Option.map_eq_some_iff]
  constructor
  · rintro ⟨⟨w, rest⟩, h, hp⟩
    obtain ⟨rfl, rfl⟩ : w = [] ∧ rest = r := by simpa using hp
    exact h
  · intro h
    exact ⟨_, h, by rw [List.append_nil]⟩

theorem unquoted?_eq_some_iff {s v r : String} :
    unquoted? opening closing e s = some (v, r) ↔
      ∃ cs, s.toList = opening :: cs ∧ body? e closing cs = some (v.toList, r.toList) := by
  rw [unquoted?]
  constructor
  · intro h
    split at h
    · cases h
    · rename_i a cs hs
      split at h
      · rename_i ha
        obtain ⟨⟨w, rest⟩, hb, hp⟩ := Option.map_eq_some_iff.mp h
        obtain ⟨rfl, rfl⟩ := Prod.mk.inj hp
        exact ⟨cs, by rw [hs, ha], by simpa using hb⟩
      · cases h
  · rintro ⟨cs, hs, hb⟩
    rw [hs]
    simp [hb]

/-! ## The two ways of quoting -/

/-- A character, twice if it is `c`. -/
def twice (c x : Char) : List Char := if x = c then [c, c] else [x]

theorem doubled_eq_flatMap (c : Char) (cs : List Char) : doubled c cs = cs.flatMap (twice c) := by
  induction cs with
  | nil => rfl
  | cons x cs ih =>
      rw [doubled, List.flatMap_cons, twice, ← ih]
      split <;> rfl

theorem doubling_closing {r : List Char} :
    (∀ b ∈ r.head?, doubling closing closing b = none) ↔ r.head? ≠ some closing := by
  cases r with
  | nil => simp
  | cons b r => simp [doubling]

theorem writtenAs_twice (x : Char) : WrittenAs (doubling closing) closing x (twice closing x) := by
  rw [twice]
  split
  · rename_i hx
    exact .pair (by simp [doubling, hx])
  · rename_i hx
    exact .plain hx fun b => by simp [doubling, hx]

/-- A character of a string in which backslashes escape: a backslash or a quote twice. -/
def escaped (x : Char) : List Char := if x = '\\' then ['\\', '\\'] else twice '\x27' x

/-- Backslashes are doubled before quotes, and no doubling touches what the other has written. -/
theorem doubled_doubled_eq_flatMap (cs : List Char) :
    doubled '\x27' (doubled '\\' cs) = cs.flatMap escaped := by
  have hx : ∀ x, (twice '\\' x).flatMap (twice '\x27') = escaped x := by
    intro x
    rw [twice, escaped]
    split
    · rfl
    · exact List.flatMap_singleton ..
  rw [doubled_eq_flatMap, doubled_eq_flatMap, List.flatMap_assoc]
  simp only [hx]

theorem writtenAs_escaped (x : Char) :
    WrittenAs (doubling '\x27').withBackslash '\x27' x (escaped x) := by
  rw [escaped, twice]
  split
  · rename_i hb
    exact .pair (by rw [hb]; rfl)
  · rename_i hb
    split
    · rename_i hq
      exact .pair (by rw [hq]; rfl)
    · rename_i hq
      exact .plain hq fun b => by simp [Escapes.withBackslash, doubling, hb, hq]

/-- Where only the closing character is doubled, reading accepts what quoting writes and nothing
else. -/
theorem eq_doubled_of_body? {cs v r : List Char}
    (h : body? (doubling closing) closing cs = some (v, r)) :
    cs = doubled closing v ++ closing :: r := by
  fun_induction body? (doubling closing) closing cs generalizing v r with
  | case1 => cases h
  | case2 => cases h; rfl
  | case3 => cases h
  | case4 a b cs xs hx ih =>
      obtain ⟨p, hp, hr⟩ := Option.map_eq_some_iff.mp h
      cases hr
      rw [doubling] at hx
      split at hx
      · rename_i hab
        cases hx
        rw [hab.1, hab.2, ih hp]
        simp [doubled]
      · cases hx
  | case5 => cases h; rfl
  | case6 a b cs hx ha ih =>
      obtain ⟨p, hp, hr⟩ := Option.map_eq_some_iff.mp h
      cases hr
      rw [ih hp, doubled, if_neg ha, List.cons_append]

theorem body?_doubling_eq_some_iff {cs v r : List Char} :
    body? (doubling closing) closing cs = some (v, r) ↔
      cs = doubled closing v ++ closing :: r ∧ r.head? ≠ some closing := by
  have hw : body? (doubling closing) closing (doubled closing v ++ closing :: r) = some (v, r) ↔
      r.head? ≠ some closing := by
    rw [doubled_eq_flatMap, body?_written writtenAs_twice, doubling_closing]
  constructor
  · intro h
    have hcs := eq_doubled_of_body? h
    exact ⟨hcs, hw.mp (hcs ▸ h)⟩
  · rintro ⟨rfl, hr⟩
    exact hw.mpr hr

theorem body?_escaped (v r : List Char) :
    body? (doubling '\x27').withBackslash '\x27'
        (doubled '\x27' (doubled '\\' v) ++ '\x27' :: r) = some (v, r) ↔
      r.head? ≠ some '\x27' := by
  rw [doubled_doubled_eq_flatMap, body?_written writtenAs_escaped, ← doubling_closing]
  rfl

/-- A text is read as `v` with `r` behind it exactly if it is `v` in quotes followed by `r`, and `r`
does not begin with the closing character. The string literals of MySQL are read back in the same
way where backslashes escape too. -/
theorem quoted_selfDelimiting :
    (∀ (opening closing : Char) (s v r : String),
      unquoted? opening closing (doubling closing) s = some (v, r) ↔
        s = quoted opening closing v ++ r ∧ r.toList.head? ≠ some closing) ∧
    ∀ v r : String,
      unquoted? '\x27' '\x27' (doubling '\x27').withBackslash
          (Engine.mysql.dialect.stringLiteral v ++ r) = some (v, r) ↔
        r.toList.head? ≠ some '\x27' := by
  constructor
  · intro opening closing s v r
    simp only [unquoted?_eq_some_iff, body?_doubling_eq_some_iff]
    constructor
    · rintro ⟨cs, hs, rfl, hr⟩
      refine ⟨String.toList_inj.mp ?_, hr⟩
      simp [hs, quoted]
    · rintro ⟨rfl, hr⟩
      exact ⟨_, by simp [quoted], rfl, hr⟩
  · intro v r
    rw [unquoted?_eq_some_iff, ← body?_escaped v.toList]
    have hl : (Engine.mysql.dialect.stringLiteral v ++ r).toList =
        '\x27' :: (doubled '\x27' (doubled '\\' v.toList) ++ '\x27' :: r.toList) := by
      simp [Dialect.stringLiteral, Engine.dialect, quoted]
    rw [hl]
    simp

/-- A quote behind a backslash and a backslash before the closing quote do not end the text. -/
example : unquoted? '\x27' '\x27' (doubling '\x27').withBackslash
    (Engine.mysql.dialect.stringLiteral "\\\x27 \\" ++ " = 1") = some ("\\\x27 \\", " = 1") := by
  decide

end SqlTree.Text

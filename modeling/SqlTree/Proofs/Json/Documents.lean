import Mathlib.Data.List.Basic
import SqlTree.Proofs.Form.Records
import SqlTree.Proofs.Json.Tokens

/-! # Reading back documents

A document without floating-point numbers is read back from its text, as long as it is not too deep
for the reader. What is read back from a text does not depend on what stands behind it, unless that
goes on with a number. -/

namespace SqlTree.Json

/-! ## Exact documents -/

mutual

/-- Whether a document has no floating-point numbers, no whole numbers beyond 64 bits, and the
fields of its objects in the order of their names, each name once. -/
def isExact : Json → Bool
  | .null | .bool _ | .text _ => true
  | .int n => decide (Int64.minValue.toInt ≤ n ∧ n < UInt64.size)
  | .float _ => false
  | .array items => isExactItems items
  | .object fields => decide (fields.Pairwise fun f g => f.1 < g.1) && isExactFields fields
termination_by structural j => j

/-- Whether the documents of a list are exact. -/
def isExactItems : List Json → Bool
  | [] => true
  | j :: js => j.isExact && isExactItems js
termination_by structural js => js

/-- Whether the documents of a list of fields are exact. -/
def isExactFields : List (String × Json) → Bool
  | [] => true
  | (_, j) :: fs => j.isExact && isExactFields fs
termination_by structural fs => fs

end

theorem isExactItems_eq (js : List Json) : isExactItems js = js.all isExact := by
  induction js with
  | nil => rfl
  | cons j js ih => rw [isExactItems, ih, List.all_cons]

theorem isExactFields_eq (fs : List (String × Json)) :
    isExactFields fs = fs.all fun f => f.2.isExact := by
  induction fs with
  | nil => rfl
  | cons f fs ih => rw [isExactFields, ih, List.all_cons]

/-- A field whose name comes behind all others is put at the end. -/
theorem insertField_of_lt {name : String} {j : Json} {fs : List (String × Json)}
    (h : ∀ f ∈ fs, f.1 < name) : insertField name j fs = fs ++ [(name, j)] := by
  induction fs with
  | nil => rfl
  | cons f fs ih =>
      obtain ⟨hf, hfs⟩ := List.forall_mem_cons.mp h
      rw [insertField, if_neg (String.lt_asymm hf), if_neg (String.ne_of_lt hf).symm, ih hfs]
      rfl

/-- Fields in the order of their names are the fields of the object that is made of them. -/
theorem ofFields_of_pairwise {fs : List (String × Json)}
    (h : fs.Pairwise fun f g => f.1 < g.1) : ofFields fs = .object fs := by
  have hfold (fs acc : List (String × Json)) (h : (acc ++ fs).Pairwise fun f g => f.1 < g.1) :
      fs.foldl (fun acc f => insertField f.1 f.2 acc) acc = acc ++ fs := by
    induction fs generalizing acc with
    | nil => rw [List.append_nil, List.foldl_nil]
    | cons f fs ih =>
        have hf : ∀ g ∈ acc, g.1 < f.1 := fun g hg =>
          (List.pairwise_append.mp h).2.2 g hg f (List.mem_cons_self ..)
        rw [List.append_cons] at h ⊢
        rw [List.foldl_cons, insertField_of_lt hf, ih _ h]
  exact congrArg Json.object (hfold fs [] h)

theorem mem_insertField {name : String} {j : Json} {f : String × Json} {fs : List (String × Json)}
    (h : f ∈ insertField name j fs) : f = (name, j) ∨ f ∈ fs := by
  induction fs with
  | nil => exact .inl (List.mem_singleton.mp h)
  | cons g fs ih =>
      rw [insertField] at h
      split_ifs at h with hlt heq
      · exact List.mem_cons.mp h
      · rcases List.mem_cons.mp h with rfl | h
        · exact .inl rfl
        · exact .inr (List.mem_cons_of_mem _ h)
      · rcases List.mem_cons.mp h with rfl | h
        · exact .inr (List.mem_cons_self ..)
        · exact (ih h).imp_right (List.mem_cons_of_mem _)

/-- A field is put where the order of the names is kept. -/
theorem pairwise_insertField {fs : List (String × Json)} (h : fs.Pairwise fun f g => f.1 < g.1)
    (name : String) (j : Json) : (insertField name j fs).Pairwise fun f g => f.1 < g.1 := by
  induction fs with
  | nil => exact List.pairwise_singleton _ _
  | cons f fs ih =>
      obtain ⟨hf, hfs⟩ := List.pairwise_cons.mp h
      rw [insertField]
      split_ifs with hlt heq
      · refine List.pairwise_cons.mpr ⟨List.forall_mem_cons.mpr ⟨hlt, fun g hg => ?_⟩, h⟩
        exact String.lt_trans hlt (hf g hg)
      · exact List.pairwise_cons.mpr ⟨heq ▸ hf, hfs⟩
      · refine List.pairwise_cons.mpr ⟨fun g hg => ?_, ih hfs⟩
        rcases mem_insertField hg with rfl | hg
        · exact Std.lt_of_le_of_ne (String.not_lt.mp hlt) (Ne.symm heq)
        · exact hf g hg

theorem isExact_ofFields {fs : List (String × Json)} (h : ∀ f ∈ fs, f.2.isExact = true) :
    (ofFields fs).isExact = true := by
  have hfold (acc : List (String × Json)) (ha : acc.Pairwise fun f g => f.1 < g.1)
      (he : ∀ f ∈ acc, f.2.isExact = true) :
      (Json.object (fs.foldl (fun acc f => insertField f.1 f.2 acc) acc)).isExact = true := by
    induction fs generalizing acc with
    | nil =>
        rw [List.foldl_nil, isExact, isExactFields_eq, decide_eq_true ha, Bool.true_and]
        exact List.all_eq_true.mpr he
    | cons f fs ih =>
        obtain ⟨hf, hfs⟩ := List.forall_mem_cons.mp h
        refine ih hfs _ (pairwise_insertField ha _ _) fun g hg => ?_
        rcases mem_insertField hg with rfl | hg
        · exact hf
        · exact he g hg
  exact hfold [] .nil nofun

/-! ## Texts of documents -/

theorem renderItems_eq (js : List Json) : renderItems js = js.map render := by
  induction js with
  | nil => rfl
  | cons j js ih => rw [renderItems, ih, List.map_cons]

/-- The text of a field. -/
def fieldText (f : String × Json) : String := quotedText f.1 ++ ":" ++ f.2.render

theorem renderFields_eq (fs : List (String × Json)) : renderFields fs = fs.map fieldText := by
  induction fs with
  | nil => rfl
  | cons f fs ih =>
      rw [renderFields, ih, List.map_cons]
      rfl

theorem length_le_intercalate {t : List Char} {ts : List (List Char)} (h : t ∈ ts) :
    t.length ≤ (List.intercalate [','] ts).length := by
  induction ts with
  | nil => cases h
  | cons s ts ih =>
      cases ts with
      | nil => rw [List.mem_singleton.mp h, List.intercalate_singleton]
      | cons u ts =>
          rw [List.intercalate_cons_cons]
          simp only [List.length_append]
          rcases List.mem_cons.mp h with rfl | h
          · omega
          · have hle := ih h
            omega

theorem length_le_length_intercalate {ts : List (List Char)} (h : ∀ t ∈ ts, t ≠ []) :
    ts.length ≤ (List.intercalate [','] ts).length := by
  induction ts with
  | nil => exact Nat.le_refl 0
  | cons s ts ih =>
      obtain ⟨hs, hts⟩ := List.forall_mem_cons.mp h
      have hpos := List.length_pos_iff.mpr hs
      cases ts with
      | nil =>
          rw [List.intercalate_singleton]
          exact hpos
      | cons u ts =>
          have hle := ih hts
          rw [List.intercalate_cons_cons]
          simp only [List.length_append, List.length_cons, List.length_nil] at hle ⊢
          omega

theorem toList_render_array (js : List Json) :
    (render (.array js)).toList =
      '[' :: (List.intercalate [','] (js.map fun j => j.render.toList) ++ [']']) := by
  rw [render, renderItems_eq, String.toList_append, String.toList_append,
    String.toList_intercalate, List.map_map]
  rfl

theorem toList_render_object (fs : List (String × Json)) :
    (render (.object fs)).toList =
      '\x7b' :: (List.intercalate [','] (fs.map fun f => (fieldText f).toList) ++ ['\x7d']) := by
  rw [render, renderFields_eq, String.toList_append, String.toList_append,
    String.toList_intercalate, List.map_map]
  rfl

theorem length_render_le_array {j : Json} {js : List Json} (h : j ∈ js) :
    j.render.toList.length ≤ (render (.array js)).toList.length := by
  have hle := length_le_intercalate (List.mem_map_of_mem (f := fun j => j.render.toList) h)
  rw [toList_render_array, List.length_cons, List.length_append]
  omega

theorem length_render_le_object {f : String × Json} {fs : List (String × Json)} (h : f ∈ fs) :
    f.2.render.toList.length ≤ (render (.object fs)).toList.length := by
  have hle := length_le_intercalate (List.mem_map_of_mem (f := fun f => (fieldText f).toList) h)
  have hf : f.2.render.toList.length ≤ (fieldText f).toList.length := by
    rw [fieldText, String.toList_append, List.length_append]
    omega
  rw [toList_render_object, List.length_cons, List.length_append]
  omega

/-! ## Reading -/

namespace Reader

/-- The characters with which a document begins. -/
def isStart (c : Char) : Bool :=
  c.isDigit || ['-', '[', '\x7b', '\x22', 'n', 't', 'f'].contains c

/-- A reader takes a text off the front of what it is given, for a document that begins with the
text. -/
structure Takes {α : Type} (item : Reader α) (a : α) (t : List Char) : Prop where
  start : ∃ c cs, t = c :: cs ∧ isStart c = true
  reads : ∀ rest, EndsNumber rest → item (t ++ rest) = .ok (a, rest)

theorem Takes.ne_nil {α : Type} {item : Reader α} {a : α} {t : List Char} (h : Takes item a t) :
    t ≠ [] := by
  obtain ⟨c, cs, rfl, -⟩ := h.start
  exact List.cons_ne_nil c cs

theorem visible_of_isStart {c : Char} (h : isStart c = true) (cs : List Char) :
    visible (c :: cs) = .ok (c :: cs, c :: cs) := by
  have hc : (c == ' ' || c == '\t' || c == '\n' || c == '\r') = false := by
    by_contra hb
    simp only [Bool.not_eq_false, Bool.or_eq_true, beq_iff_eq] at hb
    obtain ((rfl | rfl) | rfl) | rfl := hb <;> exact absurd h (by decide)
  rw [visible, bind_ok (x := modify _) rfl, List.dropWhile_cons_of_neg (by simp [hc])]
  rfl

theorem visible_comma (cs : List Char) : visible (',' :: cs) = .ok (',' :: cs, ',' :: cs) := rfl

theorem set_ok (cs ds : List Char) : (set cs : Reader Unit) ds = .ok ((), cs) := rfl

theorem endsNumber_cons {c : Char} {rest : List Char}
    (h : c.isDigit = false ∧ c ≠ '.' ∧ c ≠ 'e' ∧ c ≠ 'E') : EndsNumber (c :: rest) := by
  intro x hx
  cases hx
  exact h

/-- Texts with separators between them begin as the first of them does. -/
theorem exists_intercalate {t : List Char} {c : Char} {cs : List Char} (h : t = c :: cs)
    (ts : List (List Char)) (rest : List Char) :
    ∃ ds, List.intercalate [','] (t :: ts) ++ rest = c :: ds := by
  subst h
  cases ts with
  | nil =>
      rw [List.intercalate_singleton, List.cons_append]
      exact ⟨_, rfl⟩
  | cons u us =>
      rw [List.intercalate_cons_cons, List.append_assoc, List.append_assoc, List.cons_append]
      exact ⟨_, rfl⟩

section Lists

variable {item : Reader Json} {t cs rest : List Char} {c : Char} {fuel : Nat}

theorem items_last {j : Json} (h : Takes item j t) :
    items item (fuel + 1) (t ++ ']' :: rest) = .ok ([j], rest) := by
  rw [items, bind_ok (h.reads (']' :: rest) (endsNumber_cons (by decide)))]
  rfl

theorem items_cons {j : Json} {js : List Json} (h : Takes item j t)
    (hc : isStart c = true) (hjs : items item fuel (c :: cs) = .ok (js, rest)) :
    items item (fuel + 1) (t ++ ',' :: c :: cs) = .ok (j :: js, rest) := by
  have hne : c ≠ ']' := by
    rintro rfl
    cases hc
  rw [items, bind_ok (h.reads (',' :: c :: cs) (endsNumber_cons (by decide)))]
  rw [bind_ok (visible_comma (c :: cs))]
  simpa [bind_ok (set_ok (c :: cs) _), bind_ok (visible_of_isStart hc cs), hne]
    using map_ok (List.cons j) hjs

theorem fields_last {f : String × Json} (h : Takes (field item) f t) :
    fields item (fuel + 1) (t ++ '\x7d' :: rest) = .ok ([f], rest) := by
  rw [fields, bind_ok (h.reads ('\x7d' :: rest) (endsNumber_cons (by decide)))]
  rfl

theorem fields_cons {f : String × Json} {fs : List (String × Json)}
    (h : Takes (field item) f t) (hc : isStart c = true)
    (hfs : fields item fuel (c :: cs) = .ok (fs, rest)) :
    fields item (fuel + 1) (t ++ ',' :: c :: cs) = .ok (f :: fs, rest) := by
  have hne : c ≠ '\x7d' := by
    rintro rfl
    cases hc
  rw [fields, bind_ok (h.reads (',' :: c :: cs) (endsNumber_cons (by decide)))]
  rw [bind_ok (visible_comma (c :: cs))]
  simpa [bind_ok (set_ok (c :: cs) _), bind_ok (visible_of_isStart hc cs), hne]
    using map_ok (List.cons f) hfs

/-- Items with separators between them are read back up to what closes their list, if one item is
and so are one item and a list behind it. -/
theorem read_intercalate {α : Type} {item : Reader α} {list : Nat → Reader (List α)}
    {text : α → List Char} {close : Char}
    (last : ∀ {a t fuel rest}, Takes item a t →
      list (fuel + 1) (t ++ close :: rest) = .ok ([a], rest))
    (cons : ∀ {a t as c cs fuel rest}, Takes item a t → isStart c = true →
      list fuel (c :: cs) = .ok (as, rest) →
      list (fuel + 1) (t ++ ',' :: c :: cs) = .ok (a :: as, rest))
    {as : List α} (hne : as ≠ []) (h : ∀ a ∈ as, Takes item a (text a)) (hf : as.length ≤ fuel)
    (rest : List Char) :
    list fuel (List.intercalate [','] (as.map text) ++ close :: rest) = .ok (as, rest) := by
  induction as generalizing fuel with
  | nil => exact absurd rfl hne
  | cons a as ih =>
      obtain ⟨ha, has⟩ := List.forall_mem_cons.mp h
      cases fuel with
      | zero => cases hf
      | succ fuel =>
          cases as with
          | nil =>
              rw [List.map_singleton, List.intercalate_singleton]
              exact last ha
          | cons b as =>
              have hread := ih (List.cons_ne_nil b as) has (Nat.le_of_succ_le_succ hf)
              obtain ⟨c, cs, hb, hc⟩ := (has b (List.mem_cons_self ..)).start
              obtain ⟨ds, hds⟩ := exists_intercalate hb (as.map text) (close :: rest)
              rw [List.map_cons, hds] at hread
              rw [List.map_cons, List.map_cons, List.intercalate_cons_cons, List.append_assoc,
                List.append_assoc, hds]
              exact cons ha hc hread

end Lists

/-- An array is read back behind its opening bracket. -/
theorem array_render {item : Reader Json} {js : List Json}
    (h : ∀ j ∈ js, Takes item j j.render.toList) {fuel : Nat} (hf : js.length ≤ fuel)
    (rest : List Char) :
    array item fuel (List.intercalate [','] (js.map fun j => j.render.toList) ++ ']' :: rest) =
      .ok (.array js, rest) := by
  cases js with
  | nil => rfl
  | cons j js =>
      have hread := read_intercalate items_last items_cons (List.cons_ne_nil j js) h hf rest
      obtain ⟨c, cs, hj, hc⟩ := (h j (List.mem_cons_self ..)).start
      obtain ⟨ds, hds⟩ := exists_intercalate hj (js.map fun j => j.render.toList) (']' :: rest)
      rw [List.map_cons, hds] at hread ⊢
      have hne : c ≠ ']' := by
        rintro rfl
        cases hc
      rw [array, bind_ok (visible_of_isStart hc ds)]
      simpa [hne] using map_ok Json.array hread

theorem field_fieldText {item : Reader Json} {f : String × Json}
    (h : Takes item f.2 f.2.render.toList) : Takes (field item) f (fieldText f).toList := by
  obtain ⟨name, j⟩ := f
  obtain ⟨cs, hcs, hs⟩ := string_quotedText name
  have ht : (fieldText (name, j)).toList = '\x22' :: cs ++ ':' :: j.render.toList := by
    simp [fieldText, hcs]
  rw [ht]
  refine ⟨⟨_, _, rfl, rfl⟩, fun rest hr => ?_⟩
  have hvalue : (item >>= fun j => pure (name, j)) (j.render.toList ++ rest) =
      .ok ((name, j), rest) := bind_ok (h.reads rest hr)
  have hname := hs (':' :: (j.render.toList ++ rest))
  rw [List.append_assoc, List.cons_append, List.cons_append]
  change (string >>= fun name => visible >>= fun _ => expect .endInObject .noColon ':' >>= fun _ =>
    item >>= fun j => return (name, j)) (cs ++ ':' :: (j.render.toList ++ rest)) = _
  rw [bind_ok hname]
  exact hvalue

/-- An object is read back behind its opening brace. -/
theorem object_render {item : Reader Json} {fs : List (String × Json)}
    (hfs : fs.Pairwise fun f g => f.1 < g.1)
    (h : ∀ f ∈ fs, Takes item f.2 f.2.render.toList) {fuel : Nat} (hf : fs.length ≤ fuel)
    (rest : List Char) :
    object item fuel (List.intercalate [','] (fs.map fun f => (fieldText f).toList) ++
      '\x7d' :: rest) = .ok (.object fs, rest) := by
  cases fs with
  | nil => rfl
  | cons f fs =>
      have hfields : ∀ g ∈ f :: fs, Takes (field item) g (fieldText g).toList := fun g hg =>
        field_fieldText (h g hg)
      have hread := read_intercalate fields_last fields_cons (List.cons_ne_nil f fs) hfields hf rest
      obtain ⟨c, cs, hj, hc⟩ := (hfields f (List.mem_cons_self ..)).start
      obtain ⟨ds, hds⟩ := exists_intercalate hj (fs.map fun f => (fieldText f).toList)
        ('\x7d' :: rest)
      rw [List.map_cons, hds] at hread ⊢
      have hne : c ≠ '\x7d' := by
        rintro rfl
        cases hc
      rw [object, bind_ok (visible_of_isStart hc ds), ← ofFields_of_pairwise hfs]
      simpa [hne] using map_ok ofFields hread

/-! ## Documents -/

section Documents

variable {fuel depth : Nat}

theorem takes_null : Takes (value fuel depth) .null (render .null).toList := by
  refine ⟨⟨'n', ['u', 'l', 'l'], rfl, rfl⟩, fun rest _ => ?_⟩
  change value fuel depth ('n' :: 'u' :: 'l' :: 'l' :: rest) = _
  rw [value.eq_def, bind_ok (visible_of_isStart rfl _)]
  rfl

theorem takes_bool (b : Bool) : Takes (value fuel depth) (.bool b) (render (.bool b)).toList := by
  cases b with
  | false =>
      refine ⟨⟨'f', ['a', 'l', 's', 'e'], rfl, rfl⟩, fun rest _ => ?_⟩
      change value fuel depth ('f' :: 'a' :: 'l' :: 's' :: 'e' :: rest) = _
      rw [value.eq_def, bind_ok (visible_of_isStart rfl _)]
      rfl
  | true =>
      refine ⟨⟨'t', ['r', 'u', 'e'], rfl, rfl⟩, fun rest _ => ?_⟩
      change value fuel depth ('t' :: 'r' :: 'u' :: 'e' :: rest) = _
      rw [value.eq_def, bind_ok (visible_of_isStart rfl _)]
      rfl

theorem takes_text (s : String) : Takes (value fuel depth) (.text s) (render (.text s)).toList := by
  obtain ⟨cs, hcs, hs⟩ := string_quotedText s
  rw [render, hcs]
  refine ⟨⟨_, _, rfl, rfl⟩, fun rest _ => ?_⟩
  rw [List.cons_append, value.eq_def, bind_ok (visible_of_isStart rfl _)]
  exact map_ok Json.text (hs rest)

theorem takes_int {n : Int} (h : Int64.minValue.toInt ≤ n ∧ n < UInt64.size) :
    Takes (value fuel depth) (.int n) (render (.int n)).toList := by
  cases n with
  | ofNat n =>
      have ht : (render (.int (.ofNat n))).toList = Nat.toDigits 10 n := String.toList_ofList
      obtain ⟨c, cs, hds⟩ := List.exists_cons_of_ne_nil (Nat.toDigits_ne_nil (b := 10) (n := n))
      have hc : c.isDigit = true :=
        Nat.isDigit_of_mem_toDigits (by decide) (by decide) (hds ▸ List.mem_cons_self ..)
      have hstart : isStart c = true := by rw [isStart, hc, Bool.true_or]
      rw [ht]
      refine ⟨⟨c, cs, hds, hstart⟩, fun rest hr => ?_⟩
      have hpos : false = true → 0 < n ∧ Int64.minValue.toInt ≤ -n := nofun
      have hread := number_toDigits (Int.ofNat_lt.mp h.2) hpos hr
      rw [hds, List.cons_append] at hread ⊢
      rw [value.eq_def, bind_ok (visible_of_isStart hstart _)]
      simp only [if_pos hc]
      exact hread
  | negSucc n =>
      have ht : (render (.int (.negSucc n))).toList = '-' :: Nat.toDigits 10 (n + 1) := by
        change ("-" ++ Nat.repr (n + 1)).toList = _
        rw [String.toList_append, Nat.toList_repr]
        rfl
      have hlow : Int64.minValue.toInt = -9223372036854775808 := rfl
      have hsize : UInt64.size = 18446744073709551616 := rfl
      have hn : n + 1 < UInt64.size := by omega
      rw [ht]
      refine ⟨⟨_, _, rfl, rfl⟩, fun rest hr => ?_⟩
      rw [List.cons_append, value.eq_def, bind_ok (visible_of_isStart rfl _)]
      exact number_toDigits hn (fun _ => ⟨Nat.succ_pos n, h.1⟩) hr

theorem takes_array {js : List Json} (h : ∀ j ∈ js, Takes (value fuel depth) j j.render.toList)
    (hf : (render (.array js)).toList.length ≤ fuel) :
    Takes (value fuel (depth + 1)) (.array js) (render (.array js)).toList := by
  rw [toList_render_array] at hf ⊢
  have hcount : js.length ≤ fuel := by
    have hne : ∀ t ∈ js.map fun j => j.render.toList, t ≠ [] := by
      intro t ht
      obtain ⟨j, hj, rfl⟩ := List.mem_map.mp ht
      exact (h j hj).ne_nil
    have hle := length_le_length_intercalate hne
    rw [List.length_map] at hle
    rw [List.length_cons, List.length_append] at hf
    omega
  refine ⟨⟨_, _, rfl, rfl⟩, fun rest _ => ?_⟩
  rw [List.cons_append, value.eq_def, bind_ok (visible_of_isStart rfl _), List.append_assoc]
  exact array_render h hcount rest

theorem takes_object {fs : List (String × Json)} (hfs : fs.Pairwise fun f g => f.1 < g.1)
    (h : ∀ f ∈ fs, Takes (value fuel depth) f.2 f.2.render.toList)
    (hf : (render (.object fs)).toList.length ≤ fuel) :
    Takes (value fuel (depth + 1)) (.object fs) (render (.object fs)).toList := by
  rw [toList_render_object] at hf ⊢
  have hcount : fs.length ≤ fuel := by
    have hne : ∀ t ∈ fs.map fun f => (fieldText f).toList, t ≠ [] := by
      intro t ht
      obtain ⟨f, hmem, rfl⟩ := List.mem_map.mp ht
      exact (field_fieldText (h f hmem)).ne_nil
    have hle := length_le_length_intercalate hne
    rw [List.length_map] at hle
    rw [List.length_cons, List.length_append] at hf
    omega
  refine ⟨⟨_, _, rfl, rfl⟩, fun rest _ => ?_⟩
  rw [List.cons_append, value.eq_def, bind_ok (visible_of_isStart rfl _), List.append_assoc]
  exact object_render hfs h hcount rest

/-- An exact document is read back by a reader that goes as deep, if the reader has as many steps as
the document has characters. -/
theorem takes_value {j : Json} (hj : j.isExact = true) (hd : j.depth ≤ depth)
    (hf : j.render.toList.length ≤ fuel) : Takes (value fuel depth) j j.render.toList := by
  -- On the depth of the reader: what is in an array or an object is less deep.
  induction depth generalizing j with
  | zero =>
      have h₁ := j.one_le_depth
      omega
  | succ depth ih =>
      cases j with
      | null => exact takes_null
      | bool b => exact takes_bool b
      | float x => cases hj
      | int n => exact takes_int (of_decide_eq_true hj)
      | text s => exact takes_text s
      | array js =>
          rw [isExact, isExactItems_eq, List.all_eq_true] at hj
          refine takes_array (fun j hmem => ih (hj j hmem) ?_ ?_) hf
          · exact Nat.le_of_lt_succ (Nat.lt_of_lt_of_le (depth_lt_of_mem hmem) hd)
          · exact Nat.le_trans (length_render_le_array hmem) hf
      | object fs =>
          rw [isExact, isExactFields_eq, Bool.and_eq_true, decide_eq_true_eq,
            List.all_eq_true] at hj
          refine takes_object hj.1 (fun f hmem => ih (hj.2 f hmem) ?_ ?_) hf
          · exact Nat.le_of_lt_succ (Nat.lt_of_lt_of_le (depth_lt_of_mem_fields hmem) hd)
          · exact Nat.le_trans (length_render_le_object hmem) hf

end Documents

end Reader

/-- An exact document that is not too deep is read back from its text. -/
theorem parse_render {j : Json} (hj : j.isExact = true) (hd : j.depth ≤ Reader.deepest) :
    parse j.render = .ok j := by
  have hvalue : Reader.value (j.render.toList.length + 1) Reader.deepest j.render.toList =
      .ok (j, []) := by
    have h := (Reader.takes_value hj hd (Nat.le_succ _)).reads [] nofun
    rwa [List.append_nil] at h
  have hdocument : Reader.document j.render.toList = .ok (j, []) := by
    rw [Reader.document, Reader.bind_ok (x := get) rfl, Reader.bind_ok hvalue]
    rfl
  rw [parse, hdocument]
  rfl

end SqlTree.Json

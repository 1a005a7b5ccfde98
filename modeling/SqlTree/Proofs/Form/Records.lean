import SqlTree.Form.Record

/-! # Reading back records

A record is written as an object with a field for each of its parts, and a part is looked up by its
name. A reader restores a value from its document when the document is no deeper than the reader
goes; the readers of lists, of optional values and of records restore what their parts restore. -/

namespace SqlTree

/-! ## Fields of an object -/

namespace Json

theorem lookup?_insertField (m n : String) (j : Json) (fs : List (String × Json)) :
    lookup? m (insertField n j fs) = if n = m then some j else lookup? m fs := by
  induction fs with
  | nil => rfl
  | cons f fs ih =>
      obtain ⟨k, i⟩ := f
      by_cases hlt : n < k
      · rw [insertField, if_pos hlt, lookup?]
      · by_cases heq : n = k
        · subst heq
          rw [insertField, if_neg hlt, if_pos rfl, lookup?, lookup?]
          split <;> rfl
        · rw [insertField, if_neg hlt, if_neg heq, lookup?, ih, lookup?]
          by_cases hk : k = m
          · rw [if_pos hk, if_pos hk, if_neg fun hn => heq (hn.trans hk.symm)]
          · rw [if_neg hk, if_neg hk]

theorem lookup?_insertFields {m : String} (fields acc : List (String × Json))
    (h : m ∉ fields.map Prod.fst) :
    lookup? m (fields.foldl (fun acc f => insertField f.1 f.2 acc) acc) = lookup? m acc := by
  induction fields generalizing acc with
  | nil => rfl
  | cons f fields ih =>
      simp only [List.map_cons, List.mem_cons, not_or] at h
      rw [List.foldl_cons, ih _ h.2, lookup?_insertField, if_neg (Ne.symm h.1)]

/-- An object written with fields of different names has each of them. -/
theorem exists_ofFields {fields : List (String × Json)} (h : (fields.map Prod.fst).Nodup) :
    ∃ fs, ofFields fields = .object fs ∧ ∀ f ∈ fields, lookup? f.1 fs = some f.2 := by
  refine ⟨_, rfl, ?_⟩
  generalize ([] : List (String × Json)) = acc
  induction fields generalizing acc with
  | nil => nofun
  | cons f fields ih =>
      obtain ⟨hf, hfields⟩ := List.nodup_cons.mp h
      refine List.forall_mem_cons.mpr ⟨?_, ih hfields _⟩
      rw [List.foldl_cons, lookup?_insertFields fields _ hf, lookup?_insertField, if_pos rfl]

theorem ofFields_ne_null (fields : List (String × Json)) : ofFields fields ≠ .null := nofun

theorem one_le_depth (j : Json) : 1 ≤ j.depth := by
  cases j <;> simp [depth]

theorem depth_lt_of_mem {j : Json} {js : List Json} (h : j ∈ js) :
    j.depth < (Json.array js).depth := by
  rw [depth]
  induction js with
  | nil => cases h
  | cons i js ih =>
      rw [depthItems]
      rcases List.mem_cons.mp h with rfl | h
      · omega
      · have hj := ih h
        omega

theorem depth_lt_of_mem_fields {f : String × Json} {fs : List (String × Json)} (h : f ∈ fs) :
    f.2.depth < (Json.object fs).depth := by
  rw [depth]
  induction fs with
  | nil => cases h
  | cons g fs ih =>
      rw [depthFields]
      rcases List.mem_cons.mp h with rfl | h
      · omega
      · have hf := ih h
        omega

theorem mem_of_lookup? {name : String} {j : Json} {fs : List (String × Json)}
    (h : lookup? name fs = some j) : (name, j) ∈ fs := by
  induction fs with
  | nil => cases h
  | cons f fs ih =>
      rw [lookup?] at h
      split at h
      · next hn =>
          cases h
          exact hn ▸ List.mem_cons_self ..
      · exact List.mem_cons_of_mem _ (ih h)

theorem depth_lt_of_lookup? {name : String} {j : Json} {fs : List (String × Json)}
    (h : lookup? name fs = some j) : j.depth < (Json.object fs).depth :=
  depth_lt_of_mem_fields (mem_of_lookup? h)

end Json

namespace Form

/-! ## Values -/

section Restoring

variable {α : Type} {levels : Nat}

/-- A reader gives a value back from its document, if this has at most the given number of
levels. -/
def Restores (levels : Nat) (read : Json → Option α) (a : α) (j : Json) : Prop :=
  j.depth ≤ levels → read j = some a

theorem Restores.of_eq {read : Json → Option α} {a : α} {j : Json} (h : read j = some a) :
    Restores levels read a j := fun _ => h

theorem list?_list {read : Json → Option α} {write : α → Json} {as : List α}
    (h : ∀ a ∈ as, read (write a) = some a) : list? read (list write as) = some as := by
  rw [list?.eq_def, Form.list]
  simp only
  induction as with
  | nil => rfl
  | cons a as ih =>
      have ha := h a (List.mem_cons_self ..)
      have has := ih fun b hb => h b (List.mem_cons_of_mem a hb)
      simp [ha, has]

theorem orNull?_optional {read : Json → Option α} {write : α → Json} {o : Option α}
    (hn : ∀ a, write a ≠ .null) (h : ∀ a ∈ o, read (write a) = some a) :
    orNull? read (optional write o) = some o := by
  cases o with
  | none => rfl
  | some a =>
      rw [optional, orNull?, h a rfl]
      · rfl
      · exact hn a

theorem Restores.list {read : Json → Option α} {write : α → Json} {as : List α}
    (h : ∀ a ∈ as, Restores levels read a (write a)) :
    Restores levels (list? read) as (Form.list write as) := by
  intro hd
  refine list?_list fun a ha => h a ha ?_
  have hlt := Json.depth_lt_of_mem (List.mem_map_of_mem (f := write) ha)
  rw [Form.list] at hd
  omega

theorem Restores.optional {read : Json → Option α} {write : α → Json} {o : Option α}
    (hn : ∀ a, write a ≠ .null) (h : ∀ a ∈ o, Restores levels read a (write a)) :
    Restores levels (orNull? read) o (Form.optional write o) := by
  intro hd
  refine orNull?_optional hn fun a ha => h a ha ?_
  cases ha
  exact hd

end Restoring

/-! ## Records -/

section Records

variable {α β : Type} {levels : Nat} {fs : Fields}

/-- The fields of an object hold what a part was written as, and it is not too deep. -/
def Holds (levels : Nat) (fs : Fields) (f : String × Json) : Prop :=
  Json.lookup? f.1 fs = some f.2 ∧ f.2.depth ≤ levels

/-- A reader takes a value from the fields of an object. -/
def Yields (read : Record α) (fs : Fields) (a : α) : Prop :=
  read (.fields fs) = some (a, .fields fs)

theorem Yields.pure (a : α) : Yields (Pure.pure a) fs a := rfl

theorem Yields.bind {read : Record α} {next : α → Record β} {a : α} {b : β}
    (h : Yields read fs a) (hn : Yields (next a) fs b) : Yields (read >>= next) fs b := by
  change (read (.fields fs)).bind (fun x => next x.1 x.2) = _
  rw [h]
  exact hn

theorem Yields.map {read : Record α} {a : α} (make : α → β) (h : Yields read fs a) :
    Yields (make <$> read) fs (make a) := by
  change (read (.fields fs)).bind _ = _
  rw [h]
  rfl

theorem Yields.of_map {make : α → β} (inj : Function.Injective make) {read : Record α} {a : α}
    (h : Yields (make <$> read) fs (make a)) : Yields read fs a := by
  change (read (.fields fs)).bind (fun x => some (make x.1, x.2)) = some (make a, .fields fs) at h
  obtain ⟨⟨b, s⟩, hb, hs⟩ := Option.bind_eq_some_iff.mp h
  obtain ⟨hmake, rfl⟩ := Prod.mk.inj (Option.some.inj hs)
  cases inj hmake
  exact hb

theorem Yields.field {read : Json → Option α} {name : String} {a : α} {j : Json}
    (h : Holds levels fs (name, j)) (r : Restores levels read a j) :
    Yields (field? name read) fs a := by
  rw [Yields, field?, h.1, Option.bind_some, r h.2]
  rfl

theorem Yields.optional {read : Json → Option α} {name : String} {o : Option α} {j : Json}
    (h : Holds levels fs (name, j)) (r : Restores levels (orNull? read) o j) :
    Yields (optional? name read) fs o := by
  rw [Yields, optional?, h.1, Option.getD_some, r h.2]
  rfl

theorem Yields.default {read : Json → Option α} {name : String} {a b : α} {j : Json}
    (h : Holds levels fs (name, j)) (r : Restores levels read a j) :
    Yields (default? name b read) fs a := by
  rw [Yields, default?, h.1, Option.map_some, Option.getD_some, r h.2]
  rfl

/-- A record is read back from the object of its parts, if each part is. -/
theorem record?_ofFields {read : Record α} {a : α} {fields : Fields}
    (nodup : (fields.map Prod.fst).Nodup) (hd : (Json.ofFields fields).depth ≤ levels + 1)
    (h : ∀ fs, (∀ f ∈ fields, Holds levels fs f) → Yields read fs a) :
    record? read (.ofFields fields) = some a := by
  obtain ⟨fs, heq, hfs⟩ := Json.exists_ofFields nodup
  have hy : Yields read fs a := by
    refine h fs fun f hf => ⟨hfs f hf, ?_⟩
    have hlt := Json.depth_lt_of_lookup? (hfs f hf)
    rw [heq] at hd
    omega
  rw [heq, record?, hy]
  rfl

end Records

end Form

end SqlTree

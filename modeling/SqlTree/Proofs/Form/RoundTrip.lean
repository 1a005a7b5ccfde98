import Mathlib
import SqlTree.Proofs.Form.Exact
import SqlTree.Proofs.Instant.Reading
import SqlTree.Sql.Compile

/-! # JSON texts of trees

A tree is written to a text and read back from it. Reading and writing texts and instants is taken
for granted; the trees in between are the same. It need not be where the tree holds no
floating-point numbers and only instants of the calendar. -/

namespace SqlTree

/-- The JSON text of a tree. -/
def Node.toJson (n : Node) : String := n.form.render

/-- The tree that a JSON text holds. -/
def Node.ofJson? (s : String) : Option Node := (Json.parse s).toOption.bind Node.ofForm?

/-- What is asked of the codecs below: the document of a tree is read back from its text, and so is
each of its instants. A document has no text if one of its numbers is not finite. -/
structure Node.IsEncodable (n : Node) : Prop where
  document : Json.parse n.toJson = .ok n.form
  instants : ∀ t ∈ n.instants, Instant.ofString? (t.text "Z") = some t

/-- A tree is encodable if its values are exact, the calendar and the clock have its instants, and
the reader goes as deep as its document. -/
theorem Node.isEncodable_of_values {n : Node}
    (hvalues : ∀ v immediate, .value v immediate ∈ n.nodes → v.isExact = true)
    (hdepth : n.form.depth ≤ Json.Reader.deepest)
    (hinstants : ∀ t ∈ n.instants, t.isValid = true) : n.IsEncodable :=
  ⟨Json.parse_render (isExact_form_of_values hvalues) hdepth, fun t ht =>
    Instant.ofString?_text (hinstants t ht)⟩

theorem Node.IsEncodable.ofJson?_toJson {n : Node} (h : n.IsEncodable) :
    ofJson? n.toJson = some n := by
  rw [ofJson?, h.document]
  exact n.ofForm?_form h.instants

/-- A tree is read back from its text, so that it compiles to the same in every dialect. Any other
text that holds a tree, with fields missing, unknown or in another order, gives a tree that is read
back from the text it is then written to. -/
theorem Node.json_roundTrip {n : Node} (h : n.IsEncodable) :
    ofJson? n.toJson = some n ∧
      (∀ d, (ofJson? n.toJson).map (·.compile d) = some (n.compile d)) ∧
      ∀ s, ofJson? s = some n → (ofJson? s).bind (fun m => ofJson? m.toJson) = ofJson? s := by
  have hn : ofJson? n.toJson = some n := h.ofJson?_toJson
  refine ⟨hn, fun d => ?_, fun s hs => ?_⟩
  · rw [hn, Option.map_some]
  · rw [hs, Option.bind_some, hn]

/-- A value of nested values in the slot of a reference, without a table. -/
def Node.nestedSample : Node :=
  .reference none (.value (.array [.instant ⟨0, 0, 0⟩, .array [.json .null, .null]]) false)

example :
    Node.nestedSample.toJson =
      "\x7b\"column\":\x7b\"immediate\":false,\"kind\":\"Value\",\"value\":\x7b\"Array\":[" ++
        "\x7b\"Timestamp\":\"1970-01-01T00:00:00Z\"\x7d," ++
        "\x7b\"Array\":[\x7b\"Json\":null\x7d,\"Null\"]\x7d]\x7d\x7d," ++
        "\"kind\":\"Reference\",\"table\":null\x7d" := by
  decide +kernel

theorem Node.json_roundTrip_nestedSample :
    nestedSample.IsEncodable ∧ ofJson? nestedSample.toJson = some nestedSample := by
  have hvalues : ∀ v immediate, .value v immediate ∈ nestedSample.nodes → v.isExact = true := by
    intro v immediate h
    rw [nestedSample, nodes_eq] at h
    rcases List.mem_cons.mp h with h | h
    · cases h
    · obtain ⟨m, hm, h⟩ := List.mem_flatMap.mp h
      obtain rfl := List.mem_singleton.mp hm
      rw [nodes_eq] at h
      obtain h := List.mem_singleton.mp h
      cases h
      rfl
  have hinstants : ∀ t ∈ nestedSample.instants, t.isValid = true := by
    have heq : nestedSample.instants = [⟨0, 0, 0⟩] := by cbv
    rw [heq]
    decide
  have h : nestedSample.IsEncodable := isEncodable_of_values hvalues (by decide) hinstants
  exact ⟨h, (json_roundTrip h).1⟩

end SqlTree

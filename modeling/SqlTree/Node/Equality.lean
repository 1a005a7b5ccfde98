import SqlTree.Node

/-! Equality of trees: the same kinds, the same texts, and values equal as values. -/

namespace SqlTree

mutual

/-- Equality of nodes. -/
def Node.beq : Node → Node → Bool
  | .identifier a, n => match n with | .identifier b => a == b | _ => false
  | .table a, n => match n with | .table b => a == b | _ => false
  | .column a, n => match n with | .column b => a == b | _ => false
  | .reference t a, n => match n with | .reference u b => t == u && a.beq b | _ => false
  | .selectAll, n => match n with | .selectAll => true | _ => false
  | .alias a i, n => match n with | .alias b j => a.beq b && i == j | _ => false
  | .value v i, n => match n with | .value w j => v == w && i == j | _ => false
  | .valueList a, n => match n with | .valueList b => Node.beqAll a b | _ => false
  | .raw f a, n => match n with | .raw g b => f == g && Node.beqAll a b | _ => false
  | .operator o, n => match n with | .operator p => o == p | _ => false
  | .binary a o b, n => match n with | .binary c p d => a.beq c && o == p && b.beq d | _ => false
  | .unary o a, n => match n with | .unary p b => o == p && a.beq b | _ => false
  | .and a b, n => match n with | .and c d => a.beq c && b.beq d | _ => false
  | .or a b, n => match n with | .or c d => a.beq c && b.beq d | _ => false
  | .parens a, n => match n with | .parens b => a.beq b | _ => false
  | .function f a, n => match n with | .function g b => f == g && Node.beqAll a b | _ => false
  | .from a, n => match n with | .from b => Node.beqAll a b | _ => false
  | .using a, n => match n with | .using b => Node.beqAll a b | _ => false
  | .join a, n => match n with | .join b => a.beq b | _ => false
  | .on a, n => match n with | .on b => a.beq b | _ => false
  | .where a, n => match n with | .where b => a.beq b | _ => false
  | .selection a, n => match n with | .selection b => a.beq b | _ => false
  | .returning a, n => match n with | .returning b => Node.beqAll a b | _ => false
  | .output a, n => match n with | .output b => Node.beqAll a b | _ => false
  | .orderBy a, n => match n with | .orderBy b => SortItem.beqAll a b | _ => false
  | .orderByItem a, n => match n with | .orderByItem b => a.beq b | _ => false
  | .groupBy a, n => match n with | .groupBy b => Node.beqAll a b | _ => false
  | .having a, n => match n with | .having b => a.beq b | _ => false
  | .limit a, n => match n with | .limit b => a.beq b | _ => false
  | .offset a, n => match n with | .offset b => a.beq b | _ => false
  | .top a, n => match n with | .top b => a == b | _ => false
  | .explain a, n => match n with | .explain b => a.beq b | _ => false
  | .with a, n => match n with | .with b => a.beq b | _ => false
  | .cte a, n => match n with | .cte b => a.beq b | _ => false
  | .cteName a, n => match n with | .cteName b => a == b | _ => false
  | .assignment a, n => match n with | .assignment b => a.beq b | _ => false
  | .values a, n => match n with | .values b => Node.beqRows a b | _ => false
  | .onConflict a, n => match n with | .onConflict b => a.beq b | _ => false
  | .modifier a, n => match n with | .modifier b => a == b | _ => false
  | .select a, n => match n with | .select b => a.beq b | _ => false
  | .insert a, n => match n with | .insert b => a.beq b | _ => false
  | .update a, n => match n with | .update b => a.beq b | _ => false
  | .delete a, n => match n with | .delete b => a.beq b | _ => false
termination_by structural x => x

def Node.beqAll : List Node → List Node → Bool
  | [], [] => true
  | a :: as, b :: bs => a.beq b && Node.beqAll as bs
  | _, _ => false
termination_by structural x => x

def Node.beqRows : List (List Node) → List (List Node) → Bool
  | [], [] => true
  | a :: as, b :: bs => Node.beqAll a b && Node.beqRows as bs
  | _, _ => false
termination_by structural x => x

def Node.beqOpt : Option Node → Option Node → Bool
  | none, none => true
  | some a, some b => a.beq b
  | _, _ => false
termination_by structural x => x

def Node.beqOptAll : Option (List Node) → Option (List Node) → Bool
  | none, none => true
  | some a, some b => Node.beqAll a b
  | _, _ => false
termination_by structural x => x

def SortItem.beq : SortItem Node → SortItem Node → Bool
  | ⟨a, d⟩, ⟨b, e⟩ => a.beq b && d == e
termination_by structural x => x

def SortItem.beqAll : List (SortItem Node) → List (SortItem Node) → Bool
  | [], [] => true
  | a :: as, b :: bs => a.beq b && SortItem.beqAll as bs
  | _, _ => false
termination_by structural x => x

def SortItem.beqOptAll : Option (List (SortItem Node)) → Option (List (SortItem Node)) → Bool
  | none, none => true
  | some a, some b => SortItem.beqAll a b
  | _, _ => false
termination_by structural x => x

def Join.beq : Join Node → Join Node → Bool
  | ⟨t, a, c⟩, ⟨u, b, d⟩ => t == u && a.beq b && Node.beqOpt c d
termination_by structural x => x

def Join.beqAll : List (Join Node) → List (Join Node) → Bool
  | [], [] => true
  | a :: as, b :: bs => a.beq b && Join.beqAll as bs
  | _, _ => false
termination_by structural x => x

def Join.beqOptAll : Option (List (Join Node)) → Option (List (Join Node)) → Bool
  | none, none => true
  | some a, some b => Join.beqAll a b
  | _, _ => false
termination_by structural x => x

def Explain.beq : Explain Node → Explain Node → Bool
  | ⟨f, a⟩, ⟨g, b⟩ => f == g && Node.beqOpt a b
termination_by structural x => x

def Explain.beqOpt : Option (Explain Node) → Option (Explain Node) → Bool
  | none, none => true
  | some a, some b => a.beq b
  | _, _ => false
termination_by structural x => x

def Cte.beq : Cte Node → Cte Node → Bool
  | ⟨n, f, a⟩, ⟨m, g, b⟩ => n == m && f == g && a.beq b
termination_by structural x => x

def Cte.beqAll : List (Cte Node) → List (Cte Node) → Bool
  | [], [] => true
  | a :: as, b :: bs => a.beq b && Cte.beqAll as bs
  | _, _ => false
termination_by structural x => x

def With.beq : With Node → With Node → Bool
  | ⟨f, a⟩, ⟨g, b⟩ => f == g && Cte.beqAll a b
termination_by structural x => x

def With.beqOpt : Option (With Node) → Option (With Node) → Bool
  | none, none => true
  | some a, some b => a.beq b
  | _, _ => false
termination_by structural x => x

def Assignment.beq : Assignment Node → Assignment Node → Bool
  | ⟨c, a⟩, ⟨d, b⟩ => c == d && a.beq b
termination_by structural x => x

def Assignment.beqAll : List (Assignment Node) → List (Assignment Node) → Bool
  | [], [] => true
  | a :: as, b :: bs => a.beq b && Assignment.beqAll as bs
  | _, _ => false
termination_by structural x => x

def Assignment.beqOptAll : Option (List (Assignment Node)) → Option (List (Assignment Node)) → Bool
  | none, none => true
  | some a, some b => Assignment.beqAll a b
  | _, _ => false
termination_by structural x => x

def OnConflict.beq : OnConflict Node → OnConflict Node → Bool
  | ⟨c, i, f, a, p⟩, ⟨d, j, g, b, q⟩ =>
    c == d && i == j && f == g && Assignment.beqOptAll a b && Node.beqOpt p q
termination_by structural x => x

def OnConflict.beqOpt : Option (OnConflict Node) → Option (OnConflict Node) → Bool
  | none, none => true
  | some a, some b => a.beq b
  | _, _ => false
termination_by structural x => x

def Select.beq : Select Node → Select Node → Bool
  | ⟨fr₁, se₁, di₁, jo₁, wh₁, gr₁, ha₁, ob₁, li₁, of₁, wi₁, ex₁, to₁, em₁⟩,
    ⟨fr₂, se₂, di₂, jo₂, wh₂, gr₂, ha₂, ob₂, li₂, of₂, wi₂, ex₂, to₂, em₂⟩ =>
    Node.beqOptAll fr₁ fr₂ && Node.beqOptAll se₁ se₂ && di₁ == di₂ && Join.beqOptAll jo₁ jo₂ &&
    Node.beqOpt wh₁ wh₂ && Node.beqOptAll gr₁ gr₂ && Node.beqOpt ha₁ ha₂ &&
    SortItem.beqOptAll ob₁ ob₂ && Node.beqOpt li₁ li₂ && Node.beqOpt of₁ of₂ &&
    With.beqOpt wi₁ wi₂ && Explain.beqOpt ex₁ ex₂ && to₁ == to₂ && Node.beqOptAll em₁ em₂
termination_by structural x => x

def Insert.beq : Insert Node → Insert Node → Bool
  | ⟨io₁, co₁, so₁, dv₁, ig₁, oc₁, re₁, ou₁, wi₁, ex₁, to₁, em₁⟩,
    ⟨io₂, co₂, so₂, dv₂, ig₂, oc₂, re₂, ou₂, wi₂, ex₂, to₂, em₂⟩ =>
    io₁ == io₂ && co₁ == co₂ && Node.beqOpt so₁ so₂ && dv₁ == dv₂ && ig₁ == ig₂ &&
    OnConflict.beqOpt oc₁ oc₂ && Node.beqOptAll re₁ re₂ && Node.beqOptAll ou₁ ou₂ &&
    With.beqOpt wi₁ wi₂ && Explain.beqOpt ex₁ ex₂ && to₁ == to₂ && Node.beqOptAll em₁ em₂
termination_by structural x => x

def Update.beq : Update Node → Update Node → Bool
  | ⟨ta₁, as₁, fr₁, jo₁, wh₁, re₁, ou₁, wi₁, ob₁, li₁, to₁, ex₁, em₁⟩,
    ⟨ta₂, as₂, fr₂, jo₂, wh₂, re₂, ou₂, wi₂, ob₂, li₂, to₂, ex₂, em₂⟩ =>
    ta₁.beq ta₂ && Assignment.beqOptAll as₁ as₂ && Node.beqOptAll fr₁ fr₂ &&
    Join.beqOptAll jo₁ jo₂ && Node.beqOpt wh₁ wh₂ && Node.beqOptAll re₁ re₂ &&
    Node.beqOptAll ou₁ ou₂ && With.beqOpt wi₁ wi₂ && SortItem.beqOptAll ob₁ ob₂ &&
    Node.beqOpt li₁ li₂ && to₁ == to₂ && Explain.beqOpt ex₁ ex₂ && Node.beqOptAll em₁ em₂
termination_by structural x => x

def Delete.beq : Delete Node → Delete Node → Bool
  | ⟨fr₁, us₁, jo₁, wh₁, re₁, wi₁, ob₁, li₁, ex₁, em₁, to₁, ou₁⟩,
    ⟨fr₂, us₂, jo₂, wh₂, re₂, wi₂, ob₂, li₂, ex₂, em₂, to₂, ou₂⟩ =>
    Node.beqAll fr₁ fr₂ && Node.beqOptAll us₁ us₂ && Join.beqOptAll jo₁ jo₂ &&
    Node.beqOpt wh₁ wh₂ && Node.beqOptAll re₁ re₂ && With.beqOpt wi₁ wi₂ &&
    SortItem.beqOptAll ob₁ ob₂ && Node.beqOpt li₁ li₂ && Explain.beqOpt ex₁ ex₂ &&
    Node.beqOptAll em₁ em₂ && to₁ == to₂ && Node.beqOptAll ou₁ ou₂
termination_by structural x => x

end

instance : BEq Node := ⟨Node.beq⟩

end SqlTree

import TypeResolution.Proofs.Results

namespace TypeResolution

namespace Scope

theorem find?_functionFrame (s : Scope) (name : String) : s.functionFrame.find? name = s.find? name := by
  simp [functionFrame, openFrame, find?, NameMap.find?, NameMap.empty]

theorem find?_eq (s : Scope) (name : String) :
    s.find? name = (s.bindings.find? name).or (s.outer.bind fun outer => outer.find? name) := by
  obtain ⟨own, outer, hidden, ofClass, functionIds, classIds⟩ := s
  simp only [bindings, Scope.outer]
  cases outer <;> cases found : own.find? name <;> simp [find?, found]

/-- The frame after a variable is bound in it. -/
def insert (s : Scope) (name : String) (binding : TypeVarBinding) (functionIds classIds : Int) : Scope :=
  .frame (s.bindings.insert name binding) s.outer s.hidden s.isClass functionIds classIds

theorem find?_insert (s : Scope) (name : String) (binding : TypeVarBinding) (functionIds classIds : Int) (other : String) :
    (s.insert name binding functionIds classIds).find? other = if other = name then some binding else s.find? other := by
  rw [find?_eq]
  change ((s.bindings.insert name binding).find? other).or (s.outer.bind _) = _
  split
  · rename_i same
    rw [same, NameMap.find?_insert_self]
    rfl
  · rename_i apart
    rw [NameMap.find?_insert_other _ _ apart, find?_eq]

theorem allows_insert (s : Scope) (name : String) (binding : TypeVarBinding) (functionIds classIds : Int)
    (other : String) :
    (s.insert name binding functionIds classIds).allows other = (decide (other ≠ name) && s.allows other) := by
  obtain ⟨own, outer, hidden, ofClass, ids, ids'⟩ := s
  by_cases same : other = name
  · cases outer <;> cases hidden <;>
      simp [insert, bindings, Scope.outer, Scope.hidden, allows, NameMap.contains, same, NameMap.find?_insert_self]
  · cases outer <;> cases hidden <;>
      simp [insert, bindings, Scope.outer, Scope.hidden, allows, NameMap.contains, same, NameMap.find?_insert_other]

/-- What is found after a variable is bound is its binding, or was found before. -/
theorem find?_bindNew {s : Scope} {used name : String} {decl : TypeVarDecl} {found : TypeVarBinding}
    (atName : (s.bindNew used decl).find? name = some found) :
    found = s.freshBinding used decl ∨ s.find? name = some found := by
  have inserted : (s.bindNew used decl).bindings = s.bindings.insert decl.fullname (s.freshBinding used decl) := rfl
  have around : (s.bindNew used decl).outer = s.outer := rfl
  rw [find?_eq, inserted, around] at atName
  by_cases same : name = decl.fullname
  · left
    rw [same, NameMap.find?_insert_self] at atName
    exact (Option.some.inj atName).symm
  · right
    rw [NameMap.find?_insert_other _ _ same] at atName
    rw [find?_eq, atName]

theorem find?_bindUses {table : SymbolTable} {pos : Position} {s : Scope} {uses : List VariableUse} {name : String}
    {found : TypeVarBinding} (atName : (s.bindUses table pos uses).scope.find? name = some found) :
    s.find? name = some found ∨ found ∈ (s.bindUses table pos uses).bindings := by
  induction uses generalizing s with
  | nil => exact .inl atName
  | cons use uses ih =>
    obtain ⟨used, decl⟩ := use
    by_cases bound : s.bindsName table used = true
    · simp only [bindUses, bound, if_true] at atName ⊢
      exact ih atName
    · simp only [bindUses, bound, Bool.false_eq_true, if_false, List.mem_cons] at atName ⊢
      rcases ih atName with before | later
      · rcases find?_bindNew before with fresh | before
        · exact .inr (.inl fresh)
        · exact .inl before
      · exact .inr (.inr later)

/-- Whatever `s` binds, this scope binds, too. -/
def BindsAllOf (scope s : Scope) : Prop := ∀ name, (s.find? name).isSome → (scope.find? name).isSome

variable {s scope : Scope} {table : SymbolTable}

theorem BindsAllOf.refl (s : Scope) : s.BindsAllOf s := fun _ bound => bound

theorem BindsAllOf.trans {inner : Scope} (outside : scope.BindsAllOf s) (inside : inner.BindsAllOf scope) :
    inner.BindsAllOf s := fun name bound => inside name (outside name bound)

theorem bindsAllOf_insert {name : String} {binding : TypeVarBinding}
    (inserted : scope.bindings = s.bindings.insert name binding) (around : scope.outer = s.outer) :
    scope.BindsAllOf s := by
  intro other bound
  rw [find?_eq, inserted, around]
  by_cases same : other = name
  · rw [same, NameMap.find?_insert_self]
    rfl
  · rw [NameMap.find?_insert_other _ _ same, ← find?_eq]
    exact bound

theorem bindNew_bindsAllOf (s : Scope) (used : String) (decl : TypeVarDecl) : (s.bindNew used decl).BindsAllOf s :=
  bindsAllOf_insert rfl rfl

theorem bindDeclared_bindsAllOf (s : Scope) (binding : TypeVarBinding) :
    (s.bindDeclared table binding).BindsAllOf s := by
  unfold bindDeclared
  split
  · exact bindNew_bindsAllOf s _ _
  · exact bindsAllOf_insert rfl rfl

theorem foldl_bindDeclared_bindsAllOf (bindings : List TypeVarBinding) (s : Scope) :
    (bindings.foldl (bindDeclared table) s).BindsAllOf s := by
  induction bindings generalizing s with
  | nil => exact .refl s
  | cons binding bindings ih => exact (bindDeclared_bindsAllOf s binding).trans (ih _)

theorem bindUses_bindsAllOf (pos : Position) (uses : List VariableUse) (s : Scope) :
    (s.bindUses table pos uses).scope.BindsAllOf s := by
  induction uses generalizing s with
  | nil => exact .refl s
  | cons use uses ih =>
    obtain ⟨used, decl⟩ := use
    by_cases bound : s.bindsName table used = true
    · simp only [bindUses, bound, if_true]
      exact ih s
    · simp only [bindUses, bound, Bool.false_eq_true, if_false]
      exact (bindNew_bindsAllOf s used decl).trans (ih _)

theorem functionFrame_bindsAllOf (s : Scope) : s.functionFrame.BindsAllOf s := by
  intro name bound
  rw [find?_functionFrame]
  exact bound

theorem bindSignature_bindsAllOf (s : Scope) (signature : Signature) :
    (s.bindSignature table signature).scope.BindsAllOf s := by
  unfold bindSignature
  split
  · exact bindUses_bindsAllOf _ _ s
  · exact foldl_bindDeclared_bindsAllOf _ s

end Scope

/-- A signature binds what is bound around it. -/
theorem Resolver.innerScope_bindsAllOf (r : Resolver) (s : Scope) (signature : Signature) :
    (r.innerScope s signature).BindsAllOf s := by
  have opened := s.functionFrame_bindsAllOf
  unfold innerScope
  split
  · exact opened
  · exact opened.trans (Scope.bindSignature_bindsAllOf _ _)

end TypeResolution

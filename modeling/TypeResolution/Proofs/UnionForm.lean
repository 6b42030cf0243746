import TypeResolution.Proofs.Parts
import TypeResolution.Proofs.Prelude

namespace TypeResolution

/-- A union is in the form in which unions are made. -/
def Ty.FlatUnion : Ty → Prop
  | .union ms _ => UnionForm ms
  | _ => True

instance (t : Ty) : Decidable t.FlatUnion :=
  match t with
  | .union ms _ => inferInstanceAs (Decidable (UnionForm ms))
  | .inst _ | .tuple _ | .record _ | .callable _ | .classObject .. | .star .. | .argument .. | .forward .. | .named _
  | .bracketed .. | .any .. | .noneType _ | .never .. | .deleted .. | .typeVar .. | .literal _ | .ellipsis _ | .scalar .. =>
    .isTrue trivial

theorem Ty.flatUnion_ofNodes : Ty.OfNodes Ty.FlatUnion where
  inst _ _ _ := trivial
  union _ form := form
  move _ form := form
  other {t} _ notUnion := by
    cases t <;> trivial

/-- The unions in the targets of aliases and in the bases of classes are in the form in which unions are made. -/
structure SymbolTable.FlatUnions (table : SymbolTable) : Prop where
  target {decl : AliasDecl} : table.Holds (.aliasDef decl) → decl.target.Everywhere Ty.FlatUnion
  tupleBase {decl : ClassDecl} {base : TupleShape} : table.Holds (.classDef decl) →
    decl.tupleBase = some base → ∀ t ∈ base.items, t.Everywhere Ty.FlatUnion
  recordBase {decl : ClassDecl} {base : RecordShape} : table.Holds (.classDef decl) →
    decl.recordBase = some base → ∀ field ∈ base.fields, field.2.Everywhere Ty.FlatUnion

theorem SymbolTable.flatUnions_withPrelude (module : String) : (withPrelude module).FlatUnions where
  target holds := by
    obtain ⟨_, _, _, rfl⟩ := Prelude.aliasDef_mem (holds_withPrelude holds)
    exact Ty.everywhere_of_leaf rfl trivial
  tupleBase holds atBase := by
    rw [(Prelude.noBases (holds_withPrelude holds)).1] at atBase
    cases atBase
  recordBase holds atBase := by
    rw [(Prelude.noBases (holds_withPrelude holds)).2] at atBase
    cases atBase

namespace Resolver

variable {r : Resolver}

/-- The expressions that may be kept as they are, with their arguments. -/
def MayKeep (r : Resolver) (s : Scope) : Ty → Prop
  | .inst _ | .forward .. => True
  | .named ref => r.IsFreeVariable ref s
  | _ => False

/-- Unions in any other than the form in which unions are made stand only where they are made anew: not in the
arguments of instances, of forward references and of references to type variables that are free where they stand. -/
inductive RawUnionsRead (r : Resolver) : Scope → Ty → Prop
  | of {s : Scope} {t : Ty} : (r.MayKeep s t → ∀ c ∈ t.children, c.Everywhere Ty.FlatUnion) →
      (∀ c ∈ t.children, r.RawUnionsRead (r.partScope s t) c) → r.RawUnionsRead s t

theorem RawUnionsRead.kept {s : Scope} {t : Ty} (read : r.RawUnionsRead s t) (may : r.MayKeep s t) :
    ∀ c ∈ t.children, c.Everywhere Ty.FlatUnion := by
  cases read with
  | of kept _ => exact kept may

theorem RawUnionsRead.part {s : Scope} {t : Ty} (read : r.RawUnionsRead s t) :
    ∀ c ∈ t.children, r.RawUnionsRead (r.partScope s t) c := by
  cases read with
  | of _ parts => exact parts

/-- An expression without other unions has none anywhere. -/
theorem rawUnionsRead_of_flat {t : Ty} (flat : t.Everywhere Ty.FlatUnion) (s : Scope) : r.RawUnionsRead s t := by
  induction t using Ty.inductionOn generalizing s with
  | step t ih => exact .of (fun _ c member => flat.child member) fun c member => ih c member (flat.child member) _

theorem reads_rawUnions (flat : r.table.FlatUnions) : r.ReadsBases r.RawUnionsRead where
  children {s t} opens given c member := by
    have part := given.part c member
    cases t <;> first | exact part | cases opens
  signature given := given.part
  form {s ref symbol signature} given found isForm read := by
    have parts := given.part
    rw [partScope_of_form s found isForm read] at parts
    refine .of (fun may => may.elim) ?_
    exact formSignature?_parts (Q := r.RawUnionsRead (r.innerScope s signature)) read
      (fun _ isAny => rawUnionsRead_of_flat (Ty.flatUnion_ofNodes.everywhere_of_isAny isAny) _)
      (fun _ _ atList => atList.part)
      (fun _ _ _ _ atArgument => atArgument.part _ (List.mem_singleton_self _)) parts
  args {s ref symbol} given found plain := by
    have parts := given.part
    rwa [partScope_of_plain s found plain] at parts
  forward given _ t member := rawUnionsRead_of_flat (given.kept trivial t member) _
  tupleBase holds _ atBase t member := rawUnionsRead_of_flat (flat.tupleBase holds atBase t member) _
  recordBase holds _ atBase field member := rawUnionsRead_of_flat (flat.recordBase holds atBase field member) _

/-- What is made is in the form in which unions are made, whatever the flags are. -/
theorem rule_flatUnion (flat : r.table.FlatUnions) :
    r.Rule r.RawUnionsRead fun _ _ t => t.Everywhere Ty.FlatUnion := by
  refine .ofNodes Ty.flatUnion_ofNodes (reads_rawUnions flat) ?_ ?_ ?_ ?_ ?_ ?_
  · intro s t settled given
    cases t with
    | inst => exact Ty.everywhere_iff.2 ⟨trivial, given.kept trivial⟩
    | any | noneType | never | deleted | typeVar | literal => exact Ty.everywhere_of_leaf rfl trivial
    | _ => cases settled
  · exact fun given _ => given.kept trivial
  · exact fun given found defined free => given.kept ⟨_, _, found, defined, free⟩
  · intro s ref decl item _ _ made
    exact Ty.everywhere_iff.2 ⟨trivial, by simpa [Ty.children, Instance.of] using made⟩
  · intro s decl written args pos _ _ _ made
    exact Ty.everywhere_iff.2 ⟨trivial, repaired_args_everywhere Ty.flatUnion_ofNodes made⟩
  · intro s decl ref args t uses _ _ made expanded
    have all := expanded.everywhere Ty.flatUnion_ofNodes (fun _ _ _ _ => trivial) (flat.target uses.holds) made
    cases t with
    | inst i => exact Ty.everywhere_iff.2 ⟨trivial, repaired_args_everywhere Ty.flatUnion_ofNodes fun c member => all.child member⟩
    | _ => exact all

end Resolver

/-- Whatever is written, and under whatever flags, a union that comes out of resolution has two members at least,
none of them a union and no two of them equal. -/
theorem Resolver.resolution_flatUnion {r : Resolver} (noHooks : r.hooks = .empty) (flat : r.table.FlatUnions)
    {p q : Progress} {result : Resolution} :
    (∀ t : Ty, r.RawUnionsRead p.scope t → r.resolve t p = some (result, q) →
      result.type.Everywhere Ty.FlatUnion) ∧
    (∀ s : Signature, r.RawUnionsRead p.scope (.callable s) → r.resolveSignature s p = some (result, q) →
      result.type.Everywhere Ty.FlatUnion) := by
  have rule := rule_flatUnion flat
  constructor
  · intro t given ran
    obtain ⟨_, _, _, _, _, made⟩ := resolve_made rule noHooks ran given
    exact made
  · intro s given ran
    obtain ⟨_, _, _, _, _, made⟩ := resolveSignature_made rule noHooks ran given
    exact made

/-- A union with another one inside, and with a member of both. -/
def nestedUnion : Ty :=
  .union [.named (.of "int" []), .union [.named (.of "int" []), .named (.of "str" [])] .unknown] .unknown

theorem Resolver.resolution_flatUnion_nested :
    ∃ result q, (ofPrelude "m").resolve nestedUnion (.start .root) = some (result, q) ∧
      result.type.Everywhere Ty.FlatUnion := by
  have ends : ((ofPrelude "m").resolve nestedUnion (.start .root)).isSome := rfl
  obtain ⟨⟨result, q⟩, ran⟩ := Option.isSome_iff_exists.1 ends
  have leaf (name : String) : (ofPrelude "m").RawUnionsRead .root (.named (.of name [])) := by
    refine rawUnionsRead_of_flat ?_ .root
    exact Ty.everywhere_of_leaf rfl trivial
  have given : (ofPrelude "m").RawUnionsRead .root nestedUnion := by
    refine .of (fun may => may.elim) fun c member => ?_
    rcases List.mem_cons.1 member with rfl | member
    · exact leaf "int"
    · rw [List.mem_singleton.1 member]
      refine .of (fun may => may.elim) fun c member => ?_
      rcases List.mem_cons.1 member with rfl | member
      · exact leaf "int"
      · rw [List.mem_singleton.1 member]
        exact leaf "str"
  exact ⟨result, q, ran, (resolution_flatUnion rfl (SymbolTable.flatUnions_withPrelude "m")).1 _ given ran⟩

end TypeResolution

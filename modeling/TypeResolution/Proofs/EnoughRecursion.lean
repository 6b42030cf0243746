import Mathlib.Tactic.Linarith
import TypeResolution.Proofs.Termination

namespace TypeResolution

open Resolve

namespace Resolver

variable {r : Resolver}

/-- A type is no name, with arguments, of something that is no type. -/
def Bare (r : Resolver) : Ty → Prop
  | .named ref => r.NamesNoType ref → ref.args = []
  | _ => True

/-- If a type is a literal form, then nothing inside it has the suffix `?`, or names what is no type and has arguments. -/
def LiteralTame (r : Resolver) : Ty → Prop
  | .named ref => r.isLiteralForm ref → ∀ c ∈ ref.args, c.Everywhere fun x => x.NotOptional ∧ r.Bare x
  | _ => True

/-- What is asked of a table, as for resolution to end, where the literal forms are to be tame. -/
abbrev TameTable (r : Resolver) : Prop := r.TableThroughout (fun t => ∀ ref, t ≠ .named ref) r.LiteralTame

theorem literalTame_iff {heaviest : ℕ∞} (limited : heaviest ≠ ⊤) {t : Ty} : r.LiteralTame t ↔ r.LiteralFits heaviest t := by
  have bare {x : Ty} : r.Bare x ↔ r.BareName heaviest x := by
    cases x with
    | named => exact ⟨fun bare _ => bare, fun bare => bare limited⟩
    | _ => exact Iff.rfl
  cases t with
  | named ref =>
    refine forall₃_congr fun _ _ _ => ⟨fun inside => inside.imp fun _ here => ⟨here.1, bare.1 here.2⟩,
      fun inside => inside.imp fun _ here => ⟨here.notOptional, bare.2 here.bare⟩⟩
  | _ => exact Iff.rfl

theorem TameTable.light {heaviest : Nat} (table : r.TameTable) (light : r.table.weight ≤ heaviest) : r.LightTable heaviest :=
  ⟨table.imp fun _ => (literalTame_iff (ENat.natCast_ne_top heaviest)).1, Nat.cast_le.2 light⟩

end Resolver

end TypeResolution

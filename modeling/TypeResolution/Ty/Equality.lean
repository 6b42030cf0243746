import TypeResolution.Ty.Basic

namespace TypeResolution

/-
Equality of types. Positions never count, and neither does what a type merely carries along: the
origin of an `Any`, the fallback of a callable, the way a tuple was written. Classes are compared by
full name, type variables by binding, the members of a union and the fields of a record as sets.
-/
mutual
def Ty.beq : Ty → Ty → Bool
  | .any .., .any .. => true
  | .noneType _, .noneType _ => true
  | .never .., .never .. => true
  | .deleted a _, .deleted b _ => a == b
  | .typeVar a _, .typeVar b _ => a.id == b.id && a.fullname == b.fullname
  | .inst a, .inst b => a.beq b
  | .tuple ⟨xs, f, _, _⟩, .tuple ⟨ys, g, _, _⟩ => Ty.beqList xs ys && f.beq g
  | .record ⟨xs, p, f, _⟩, .record ⟨ys, q, g, _⟩ =>
    xs.length == ys.length && Ty.fieldsWithin xs ys && ys.all (Ty.fieldAmong xs) && p == q && f.beq g
  | .callable ⟨xs, ks, ns, r, _, _, e, _⟩, .callable ⟨ys, ls, ms, s, _, _, d, _⟩ =>
    Ty.beqList xs ys && ks == ls && ns == ms && r.beq s && e == d
  | .union xs _, .union ys _ => xs.length == ys.length && Ty.within xs ys && ys.all (Ty.among xs)
  | .literal a, .literal b => a.beq b
  | .classObject a _, .classObject b _ => a.beq b
  | .star a _, .star b _ => a.beq b
  | .forward m xs _, .forward n ys _ => m == n && Ty.beqList xs ys
  | .named ⟨m, xs, o, e, q, c, _⟩, .named ⟨n, ys, p, d, r, s, _⟩ =>
    m == n && Ty.beqList xs ys && o == p && e == d && q == r && c == s
  | .bracketed xs _, .bracketed ys _ => Ty.beqList xs ys
  | .argument a m f _, .argument b n g _ => a.beq b && m == n && f == g
  | .ellipsis _, .ellipsis _ => true
  | .scalar v c m _, .scalar w d n _ => v == w && c == d && m == n
  | _, _ => false
termination_by structural t => t

def Instance.beq : Instance → Instance → Bool
  | ⟨c, xs, _, k, _⟩, ⟨d, ys, _, l, _⟩ => c.fullname == d.fullname && Ty.beqList xs ys && Literal.beqOption k l
termination_by structural i => i

def Literal.beq : Literal → Literal → Bool
  | ⟨v, f, _⟩, ⟨w, g, _⟩ => v == w && f.beq g
termination_by structural l => l

def Literal.beqOption : Option Literal → Option Literal → Bool
  | none, none => true
  | some a, some b => a.beq b
  | _, _ => false
termination_by structural l => l

/-- Item by item. -/
def Ty.beqList : List Ty → List Ty → Bool
  | [], [] => true
  | x :: xs, y :: ys => x.beq y && Ty.beqList xs ys
  | _, _ => false
termination_by structural xs => xs

/-- Each of the first types has an equal among the second. -/
def Ty.within : List Ty → List Ty → Bool
  | [], _ => true
  | x :: xs, ys => ys.any x.beq && Ty.within xs ys
termination_by structural xs => xs

/-- Some of the types is equal to `y`. -/
def Ty.among : List Ty → Ty → Bool
  | [], _ => false
  | x :: xs, y => x.beq y || Ty.among xs y
termination_by structural xs => xs

def Ty.fieldsWithin : List (String × Ty) → List (String × Ty) → Bool
  | [], _ => true
  | (key, x) :: xs, ys => ys.any (fun field => key == field.1 && x.beq field.2) && Ty.fieldsWithin xs ys
termination_by structural xs => xs

def Ty.fieldAmong : List (String × Ty) → String × Ty → Bool
  | [], _ => false
  | (key, x) :: xs, field => key == field.1 && x.beq field.2 || Ty.fieldAmong xs field
termination_by structural xs => xs
end

instance : BEq Ty := ⟨Ty.beq⟩

namespace Ty

theorem beqList_eq : ∀ xs ys : List Ty,
    beqList xs ys = (xs.length == ys.length && (xs.zip ys).all fun (x, y) => x == y)
  | [], [] => rfl
  | [], _ :: _ => rfl
  | _ :: _, [] => rfl
  | x :: xs, y :: ys => by
    have rest := beqList_eq xs ys
    simp only [beqList, rest, List.length_cons, List.zip_cons_cons, List.all_cons]
    have same : (x == y) = x.beq y := rfl
    rw [same]
    cases x.beq y <;> simp

theorem within_eq (xs ys : List Ty) : within xs ys = xs.all fun x => ys.any fun y => x == y := by
  induction xs with
  | nil => rfl
  | cons x xs ih => simp only [within, ih, List.all_cons]; rfl

theorem among_eq (xs : List Ty) (y : Ty) : among xs y = xs.any fun x => x == y := by
  induction xs with
  | nil => rfl
  | cons x xs ih => simp only [among, ih, List.any_cons]; rfl

end Ty

end TypeResolution

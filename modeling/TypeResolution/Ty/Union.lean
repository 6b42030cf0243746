import TypeResolution.Distinct
import TypeResolution.Ty.Equality

namespace TypeResolution

namespace Ty

mutual
/-- The members of a union with the unions among them opened; any other type is its only member. -/
def members : Ty → List Ty
  | .union ms _ => membersOfAll ms
  | t => [t]
termination_by structural t => t

def membersOfAll : List Ty → List Ty
  | [] => []
  | t :: ts => members t ++ membersOfAll ts
termination_by structural ts => ts
end

theorem membersOfAll_eq (ts : List Ty) : membersOfAll ts = ts.flatMap members := by
  induction ts with
  | nil => rfl
  | cons t ts ih => simp [membersOfAll, ih]

/-- The union of the items: flat, without repeated members, and no union at all of fewer than two. -/
def makeUnion (items : List Ty) (pos : Position) : Ty :=
  match firstOccurrences (items.flatMap members) with
  | [] => .never false pos
  | [t] => t
  | ts => .union ts pos

/-- The type `Optional[t]`. The `None` of a union moves to its end. -/
def makeOptional : Ty → Ty
  | .noneType pos => .noneType pos
  | .union ms pos => makeUnion (ms.filter (!·.isNone) ++ [.noneType .unknown]) pos
  | t => makeUnion [t, .noneType .unknown] t.pos

mutual
/-- The type `Type[t]`; of a union it is the union of the class objects of the members. -/
def makeClassObject : Ty → Position → Ty
  | .union ms _, pos => makeUnion (classObjectsOf ms) pos
  | t, pos => .classObject t pos
termination_by structural t => t

def classObjectsOf : List Ty → List Ty
  | [] => []
  | t :: ts => makeClassObject t .unknown :: classObjectsOf ts
termination_by structural ts => ts
end

theorem classObjectsOf_eq (ts : List Ty) : classObjectsOf ts = ts.map (makeClassObject · .unknown) := by
  induction ts with
  | nil => rfl
  | cons t ts ih => simp [classObjectsOf, ih]

end Ty

end TypeResolution

import TypeResolution.Ty.Children
import TypeResolution.Ty.Union

namespace TypeResolution

namespace Ty

universe u

/-- The same form around other children, except that a union of them is made anew. -/
def rebuild (t : Ty) (cs : List Ty) : Ty :=
  match t with
  | .union _ pos => makeUnion cs pos
  | _ => t.withChildren cs

section

variable {m : Type → Type u} [Monad m] {α : Type}

/-- Puts `f c` in the place of each child `c`, from left to right. Unions stay as flat and free of repetitions as they were
made. -/
def mapChildrenM (f : Ty → m Ty) (t : Ty) : m Ty :=
  match t with
  | inst i => return .inst { i with args := ← i.args.mapM f }
  | tuple shape => return .tuple { shape with items := ← shape.items.mapM f }
  | record shape => return .record { shape with fields := ← shape.fields.mapM fun field => return (field.1, ← f field.2) }
  | callable s => return .callable { s with args := ← s.args.mapM f, ret := ← f s.ret }
  | union members pos => return makeUnion (← members.mapM f) pos
  | classObject item pos => return .classObject (← f item) pos
  | star item pos => return .star (← f item) pos
  | forward fullname args pos => return .forward fullname (← args.mapM f) pos
  | named r => return .named (r.withArgs (← r.args.mapM f))
  | bracketed items pos => return .bracketed (← items.mapM f) pos
  | argument item name form pos => return .argument (← f item) name form pos
  | any .. | noneType _ | never .. | deleted .. | typeVar .. | literal _ | ellipsis _ | scalar .. => return t

/-- Puts `f c` in the place of each child `c`, from left to right, and leaves everything else alone. -/
def updateChildrenM (f : Ty → m Ty) (t : Ty) : m Ty :=
  match t with
  | inst i => return .inst { i with args := ← i.args.mapM f }
  | tuple shape => return .tuple { shape with items := ← shape.items.mapM f }
  | record shape => return .record { shape with fields := ← shape.fields.mapM fun field => return (field.1, ← f field.2) }
  | callable s => return .callable { s with args := ← s.args.mapM f, ret := ← f s.ret }
  | union members pos => return .union (← members.mapM f) pos
  | classObject item pos => return .classObject (← f item) pos
  | star item pos => return .star (← f item) pos
  | forward fullname args pos => return .forward fullname (← args.mapM f) pos
  | named r => return .named { r with args := ← r.args.mapM f }
  | bracketed items pos => return .bracketed (← items.mapM f) pos
  | argument item name form pos => return .argument (← f item) name form pos
  | any .. | noneType _ | never .. | deleted .. | typeVar .. | literal _ | ellipsis _ | scalar .. => return t

/-- Replaces every type inside `t`, and `t` last. A type is shown to `f` with its children replaced. -/
def walkM (f : Ty → m Ty) : Ty → m Ty :=
  fold fun t parts => do
    let cs ← parts.mapM id
    f (t.withChildren cs)

/-- Asks about one type after the other and combines the answers. -/
def askAll (query : Ty → m α) (combine : List α → m α) (ts : List Ty) : m α := do
  combine (← ts.mapM query)

/-- How a query goes on from a form that it has no rule of its own for. The forms that queries have rules for name the types
to ask about themselves. -/
def walkQuery (query : Ty → m α) (combine : List α → m α) : Ty → m α
  | any .. | typeVar .. => combine []
  | inst i => askAll query combine i.args
  | record shape => askAll query combine (shape.fields.map Prod.snd)
  | callable s => askAll query combine (s.args ++ [s.ret])
  | named r => askAll query combine r.args
  | t => askAll query combine t.children

end

/-- Puts `f c` in the place of each child `c`; unions stay as flat and free of repetitions as they were made. -/
def mapChildren (f : Ty → Ty) (t : Ty) : Ty := Id.run (t.mapChildrenM fun c => pure (f c))

/-- Puts `f c` in the place of each child `c` and leaves everything else alone. -/
def updateChildren (f : Ty → Ty) (t : Ty) : Ty := Id.run (t.updateChildrenM fun c => pure (f c))

end Ty

end TypeResolution

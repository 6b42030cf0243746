import TypeResolution.PassStatus
import TypeResolution.SymbolTable

namespace TypeResolution

/-- A loop of passes over one unit of a program. -/
structure SemanticPass where
  maxPasses : Nat
  positive : 0 < maxPasses

/-- How many passes were made, and the status of the last one. -/
structure PassReport where
  passes : Nat
  status : PassStatus
deriving DecidableEq

namespace SemanticPass

def defaultPasses : Nat := 20

def default : SemanticPass := ⟨defaultPasses, by decide⟩

/-- A loop of at most `requested` passes, and of one at least. -/
def ofMax (requested : Nat) : SemanticPass := ⟨max requested 1, by omega⟩

/-- What a pass over a unit does: it is given the number of the pass, and tells its status. The state is
all that it keeps for itself besides the table. -/
abbrev Pass (σ : Type) := Nat → SymbolTable → σ → PassStatus × SymbolTable × σ

/-- Makes pass number `pass` and at most `left` passes more, the last of them as the final one. -/
def runFrom {σ : Type} (unit : Pass σ) :
    Nat → Nat → SymbolTable → σ → PassReport × SymbolTable × σ
  | left, pass, table, state =>
    let (status, table, state) := unit pass (table.withFinalPass (left == 0)) state
    match left, status with
    | _, .complete => (⟨pass, .complete⟩, table.withFinalPass false, state)
    | 0, status => (⟨pass, status⟩, table.withFinalPass false, state)
    | left + 1, _ => runFrom unit left (pass + 1) table state

/-- Makes passes until one is complete, or until there may be no more. -/
def run {σ : Type} (loop : SemanticPass) (unit : Pass σ) (table : SymbolTable) (state : σ) :
    PassReport × SymbolTable × σ :=
  runFrom unit (loop.maxPasses - 1) 1 table state

end SemanticPass

end TypeResolution

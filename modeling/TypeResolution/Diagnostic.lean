import TypeResolution.Position
import TypeResolution.Problem

namespace TypeResolution

/-- A problem and the place it was found at. -/
structure Diagnostic where
  pos : Position
  problem : Problem
deriving DecidableEq

namespace Diagnostic

def severity (d : Diagnostic) : Severity := d.problem.severity

def text (d : Diagnostic) : String := d.problem.text

def code (d : Diagnostic) : Option ErrorCode := d.problem.code

def isError (d : Diagnostic) : Bool := d.severity == .error

end Diagnostic

/-- The diagnostics reported so far, oldest first. -/
structure DiagnosticLog where
  entries : List Diagnostic
deriving DecidableEq

namespace DiagnosticLog

def empty : DiagnosticLog := ⟨[]⟩

def report (log : DiagnosticLog) (d : Diagnostic) : DiagnosticLog := ⟨log.entries ++ [d]⟩

/-- Reports an error in the words of the caller. -/
def fail (log : DiagnosticLog) (pos : Position) (message : String) : DiagnosticLog :=
  log.report ⟨pos, .stated message⟩

/-- Reports a note in the words of the caller. -/
def note (log : DiagnosticLog) (pos : Position) (message : String) : DiagnosticLog :=
  log.report ⟨pos, .remarked message⟩

def errors (log : DiagnosticLog) : List Diagnostic := log.entries.filter (·.isError)

def errorCount (log : DiagnosticLog) : Nat := log.errors.length

def hasErrors (log : DiagnosticLog) : Bool := !log.errors.isEmpty

/-- Whether the text of some error contains `needle`. -/
def hasErrorContaining (log : DiagnosticLog) (needle : String) : Bool :=
  log.errors.any fun d => occursIn needle.toList d.text.toList

def messages (log : DiagnosticLog) : List String := log.entries.map (·.text)

end DiagnosticLog

end TypeResolution

import TypeResolution.ExplicitAny
import TypeResolution.LogFormat
import TypeResolution.Proofs.AliasUse
import TypeResolution.Proofs.UnionForm
import TypeResolution.Resolver
import TypeResolution.SemanticPass
import TypeResolution.SymbolTable.Prelude
import TypeResolution.Proofs.Inherited
import TypeResolution.Proofs.WellScoped
import TypeResolution.Proofs.PassSignal
import TypeResolution.Proofs.InferredVariables
import TypeResolution.Proofs.LiteralForms
import TypeResolution.Proofs.Ends
import TypeResolution.Proofs.LiteralNames
import TypeResolution.Proofs.EnoughRecursion
import TypeResolution.Proofs.FulfilledAlias
import TypeResolution.Proofs.LaterTable
import TypeResolution.Proofs.Calls
import TypeResolution.Proofs.Canonical
import TypeResolution.Proofs.Reports
import TypeResolution.Proofs.MetVariables
import TypeResolution.Proofs.BoundRun
import TypeResolution.Proofs.Collected
import TypeResolution.Proofs.PassThrough
import TypeResolution.Proofs.LaterForms
import TypeResolution.Proofs.LaterRun
import TypeResolution.Proofs.LexicalFrames
import TypeResolution.Proofs.VariableIds
import TypeResolution.Proofs.EqualTypes
import TypeResolution.Proofs.NestedSubstitution
import TypeResolution.Proofs.Unexplained
import TypeResolution.Proofs.AlikeTypes
import TypeResolution.Proofs.TwoRuns
import TypeResolution.Proofs.Pact
import TypeResolution.Proofs.PolicyForms
import TypeResolution.Proofs.PolicyRun
import TypeResolution.Proofs.Policies
import TypeResolution.Proofs.AliasDepth
import TypeResolution.Proofs.ChangedParts
import TypeResolution.Proofs.NestingLimit
import TypeResolution.Proofs.Warrants
import TypeResolution.Proofs.ProperTypes
import TypeResolution.Proofs.ProperRun
import TypeResolution.Proofs.ErrorsReported
import TypeResolution.Proofs.CanonicalUnions
import TypeResolution.Proofs.NodesAt
import TypeResolution.Proofs.ExactSubstitution
import TypeResolution.Proofs.InstanceRepair
import TypeResolution.Proofs.Avoidance
import TypeResolution.Proofs.AvoidanceForms
import TypeResolution.Proofs.AliasDependencies
import TypeResolution.Proofs.RepairedUnions
import TypeResolution.Proofs.DistributedTypes
import TypeResolution.Proofs.OmittedArguments
import TypeResolution.Proofs.SettledVariables
import TypeResolution.Proofs.DeclaredVariables
import TypeResolution.Proofs.ShiftedLevels
import TypeResolution.Proofs.OptionalSpellings
import TypeResolution.Proofs.BuiltinSpellings
import TypeResolution.Proofs.DistributedLiterals
import TypeResolution.Proofs.PassLoop
import TypeResolution.Proofs.ParallelParameters
import TypeResolution.Proofs.QuantifiedVariables
import TypeResolution.Proofs.OptionalTypes
import TypeResolution.Proofs.ClassObjects
import TypeResolution.Proofs.TemplateHoles
import TypeResolution.Proofs.Traversals
import TypeResolution.Proofs.TypeQueries
import TypeResolution.Proofs.QuietRuns
import TypeResolution.Proofs.ScopesAlike
import TypeResolution.Proofs.FilledTypes
import TypeResolution.Proofs.AliasBody
import TypeResolution.Proofs.AliasBodyRun
import TypeResolution.Proofs.AliasBodyForms
import TypeResolution.Proofs.AliasTransparency

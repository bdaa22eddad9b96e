import AsyncLift.CommandLine.Arguments
import AsyncLift.CommandLine.Run
import AsyncLift.Conversion.Action
import AsyncLift.Conversion.Pass
import AsyncLift.Conversion.Report
import AsyncLift.Conversion.Retarget
import AsyncLift.Conversion.Run
import AsyncLift.Counterpart
import AsyncLift.Document.Decode
import AsyncLift.Document.Token
import AsyncLift.Document.Tree
import AsyncLift.Error
import AsyncLift.Ids
import AsyncLift.Json
import AsyncLift.Main
import AsyncLift.Modifiers
import AsyncLift.Node.Basic
import AsyncLift.Node.Register
import AsyncLift.Node.Store
import AsyncLift.Options
import AsyncLift.Override.Implementers
import AsyncLift.Override.Targets
import AsyncLift.Plan
import AsyncLift.Program.Basic
import AsyncLift.Program.Builder
import AsyncLift.Program.Construction
import AsyncLift.Program.Printer
import AsyncLift.Program.Supertypes
import AsyncLift.Program.Validation
import AsyncLift.Project.Document
import AsyncLift.Project.Loading
import AsyncLift.Proofs.ActionGuard
import AsyncLift.Proofs.AncestorOrder
import AsyncLift.Proofs.AwaitPlacement
import AsyncLift.Proofs.BuildSteps
import AsyncLift.Proofs.BuiltPrograms
import AsyncLift.Proofs.BuiltTables
import AsyncLift.Proofs.CallNames
import AsyncLift.Proofs.CallRetargeting
import AsyncLift.Proofs.CommandAgreement
import AsyncLift.Proofs.Continuation
import AsyncLift.Proofs.CounterpartTypes
import AsyncLift.Proofs.Counterparts
import AsyncLift.Proofs.CycleDetection
import AsyncLift.Proofs.Descendants
import AsyncLift.Proofs.DocumentLevels
import AsyncLift.Proofs.EnclosingModules
import AsyncLift.Proofs.Forest
import AsyncLift.Proofs.ImplementingMembers
import AsyncLift.Proofs.Integrity
import AsyncLift.Proofs.LoadedProjects
import AsyncLift.Proofs.LoadedTables
import AsyncLift.Proofs.LoweredTrees
import AsyncLift.Proofs.MemberTables
import AsyncLift.Proofs.MethodTable
import AsyncLift.Proofs.NodeStore
import AsyncLift.Proofs.OverrideAcyclic
import AsyncLift.Proofs.OverridePreservation
import AsyncLift.Proofs.OverrideRules
import AsyncLift.Proofs.OverrideTargets
import AsyncLift.Proofs.PassRun
import AsyncLift.Proofs.PassSteps
import AsyncLift.Proofs.PlanClosure
import AsyncLift.Proofs.PlanOrder
import AsyncLift.Proofs.PlantedProjects
import AsyncLift.Proofs.PlantedTrees
import AsyncLift.Proofs.PrintedNodes
import AsyncLift.Proofs.PrintedPrograms
import AsyncLift.Proofs.ReferenceRewriting
import AsyncLift.Proofs.RegisteredRoots
import AsyncLift.Proofs.SearchScopes
import AsyncLift.Proofs.SettledReferences
import AsyncLift.Proofs.StoreEdits
import AsyncLift.Proofs.StoredIds
import AsyncLift.Proofs.SupertypeCycles
import AsyncLift.Proofs.TypeGrammar
import AsyncLift.Proofs.TypeRoundTrip
import AsyncLift.Proofs.Validation
import AsyncLift.Proofs.WalkLimits
import AsyncLift.Proofs.Walks
import AsyncLift.Reference
import AsyncLift.Signature
import AsyncLift.Text.Alphanumeric
import AsyncLift.Text.Blank
import AsyncLift.TypeExpr.Basic
import AsyncLift.TypeExpr.Parser

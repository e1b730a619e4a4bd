import MiniJava.Assembly.Emitter
import MiniJava.Assembly.Generation
import MiniJava.Assembly.Line
import MiniJava.Code.Basic
import MiniJava.Code.Flow
import MiniJava.Code.Listing
import MiniJava.Code.Method
import MiniJava.CommandLine
import MiniJava.Compile
import MiniJava.CompileError
import MiniJava.Constant.Folding
import MiniJava.Constant.Propagation
import MiniJava.Constant.Rounds
import MiniJava.Decimal
import MiniJava.Journal
import MiniJava.Json.Node
import MiniJava.Json.Number
import MiniJava.Json.Reader
import MiniJava.Json.Shape
import MiniJava.Json.Value
import MiniJava.Json.Writer
import MiniJava.Jvm.Descriptor
import MiniJava.Jvm.Instr
import MiniJava.Jvm.Limits
import MiniJava.Lowering.Expression
import MiniJava.Lowering.State
import MiniJava.Lowering.Statement
import MiniJava.Main
import MiniJava.Proofs.CodeAgreement
import MiniJava.Proofs.Collections
import MiniJava.Proofs.Coloring
import MiniJava.Proofs.Configurations
import MiniJava.Proofs.ConstantPasses
import MiniJava.Proofs.EmissionClasses
import MiniJava.Proofs.EmissionCode
import MiniJava.Proofs.EmissionSegments
import MiniJava.Proofs.EmissionSimulation
import MiniJava.Proofs.EmissionVariables
import MiniJava.Proofs.InterferenceGraph
import MiniJava.Proofs.LiveVariables
import MiniJava.Proofs.LoweredExpressions
import MiniJava.Proofs.LoweredMethods
import MiniJava.Proofs.LoweredTables
import MiniJava.Proofs.LoweringFrame
import MiniJava.Proofs.LoweringSimulation
import MiniJava.Proofs.MachineRuns
import MiniJava.Proofs.PlacedVariables
import MiniJava.Proofs.ReadVariables
import MiniJava.Proofs.RunRelation
import MiniJava.Proofs.Semantics.Code
import MiniJava.Proofs.Semantics.Machine
import MiniJava.Proofs.Semantics.Names
import MiniJava.Proofs.Semantics.Reads
import MiniJava.Proofs.Semantics.Run
import MiniJava.Proofs.Semantics.Tree
import MiniJava.Proofs.Semantics.Typing
import MiniJava.Proofs.Simplification
import MiniJava.Proofs.SlotAllocation
import MiniJava.Proofs.Steps
import MiniJava.Proofs.Temporaries
import MiniJava.Register.Allocation
import MiniJava.Register.Coloring
import MiniJava.Register.Interference
import MiniJava.Register.Liveness
import MiniJava.Tree.Basic
import MiniJava.Tree.Format
import MiniJava.Tree.Symbols
import MiniJava.Tree.Unit
import MiniJava.Proofs.LivePaths
import MiniJava.Proofs.OptimizedPrograms
import MiniJava.Proofs.Semantics.Paths
import MiniJava.Proofs.StackLevels
import MiniJava.Proofs.EmissionLevels
import MiniJava.Proofs.MethodLimits
import MiniJava.Proofs.KeptVariables
import MiniJava.Proofs.ConstantRounds
import MiniJava.Proofs.CallSites
import MiniJava.Proofs.EmittedCalls
import MiniJava.Proofs.ObjectCreation
import MiniJava.Proofs.OwnCalls
import MiniJava.Proofs.Semantics.Support
import MiniJava.Proofs.SupportedLowering
import MiniJava.Proofs.SupportedPrograms
import MiniJava.Proofs.ConstantOrder
import MiniJava.Proofs.EmittedCode
import MiniJava.Proofs.RegisterBudget
import MiniJava.Proofs.TwinLowering
import MiniJava.Proofs.IndependentMethods
import MiniJava.Proofs.JsonText
import MiniJava.Proofs.WrittenJson
import MiniJava.Proofs.JsonRecords
import MiniJava.Proofs.UnitFormat
import MiniJava.Proofs.UnitRoundTrip
import MiniJava.Proofs.GreedyColors
import MiniJava.Proofs.SparseGraphs
import MiniJava.Proofs.RegisterPressure
import MiniJava.Proofs.SweepCount
import MiniJava.Proofs.InterferenceRelation
import MiniJava.Proofs.RepeatedAllocation
import MiniJava.Proofs.LiveOnEntry
import MiniJava.Proofs.PassReports
import MiniJava.Proofs.SlotNumbering
import MiniJava.Proofs.DrawnTemporaries
import MiniJava.Proofs.SingleAssignment
import MiniJava.Proofs.InstructionReader
import MiniJava.Proofs.ReadableAssembly

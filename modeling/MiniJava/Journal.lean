import MiniJava.Compile

namespace MiniJava

open Code (Method ClassCode Instr)
open Register (Graph)

/-!
# The journal of a compilation

What the stages of a compilation have to say about their work, message by
message. A compilation that fails has a journal up to its failure. The journal
looks at what the stages do and has no part in it.
-/

/-- How important a message is. -/
inductive Level where
  | error
  | warn
  | info
  | debug
  | trace
  deriving DecidableEq

namespace Level

/-- The rank of a level; more important levels come first. -/
def rank : Level → Nat
  | .error => 0
  | .warn => 1
  | .info => 2
  | .debug => 3
  | .trace => 4

/-- The word for a level. -/
def word : Level → String
  | .error => "ERROR"
  | .warn => "WARN"
  | .info => "INFO"
  | .debug => "DEBUG"
  | .trace => "TRACE"

end Level

/-- A message of the journal. -/
inductive Entry where
  | folded (folding : Folding)
  | learned (method name : String) (value : Literal)
  | replaced (name : String) (value : Literal)
  | passChanged (pass : Pass)
  | converged (rounds : Nat)
  | notConverged (rounds : Nat)
  | fieldWritten (field method : String)
  | methodLowered (method : String) (instrs declared : Nat)
  | classLowered (name : String) (methods : Nat)
  | livenessFound (method : String) (passes : Nat)
  | graphBuilt (method : String) (graph : Graph)
  | spillCandidate (method : String) (budget : Nat) (name : String)
  | colored (method name : String) (color : Nat)
  | slotGiven (name : String) (slot : Nat)
  | temporaryDropped (name : String)
  | methodAllocated (method : String) (locals registers budget : Nat)
  | leftOnStack (method : String) (depth : Int)
  | methodEmitted (method : String) (stack : Int) (locals : Nat)

/-- How a literal is shown in a message. -/
def Literal.shown : Literal → String
  | .int value => "IntLit \x7b value: " ++ Decimal.ofInt value.toInt ++ " \x7d"
  | .bool value =>
      "BoolLit \x7b value: " ++ (if value then "true" else "false") ++ " \x7d"

namespace Entry

/-- The level of a message. -/
def level : Entry → Level
  | .notConverged _ => .warn
  | .spillCandidate .. => .warn
  | .methodLowered .. => .info
  | .classLowered .. => .info
  | .methodAllocated .. => .info
  | .methodEmitted .. => .info
  | .livenessFound .. => .trace
  | .folded _ => .debug
  | .learned .. => .debug
  | .replaced .. => .debug
  | .passChanged _ => .debug
  | .converged _ => .debug
  | .fieldWritten .. => .debug
  | .graphBuilt .. => .debug
  | .colored .. => .debug
  | .slotGiven .. => .debug
  | .temporaryDropped _ => .debug
  | .leftOnStack .. => .debug

/-- The text of a message. -/
def text : Entry → String
  | .folded folding =>
      "folded " ++ folding.left.shown ++ " " ++ folding.operator.sign ++ " " ++
        folding.right.shown ++ " -> " ++ folding.result.shown
  | .learned method name value =>
      "'" ++ method ++ "': " ++ name ++ " is constant " ++ value.shown
  | .replaced name value => "propagated " ++ name ++ " -> " ++ value.shown
  | .passChanged pass => "pass '" ++ pass.name ++ "' changed the tree"
  | .converged rounds =>
      "optimizer converged after " ++ Decimal.ofNat rounds ++ " round(s)"
  | .notConverged rounds =>
      "optimizer stopped after " ++ Decimal.ofNat rounds ++
        " rounds without converging"
  | .fieldWritten field method =>
      "field write '" ++ field ++ "' in '" ++ method ++ "'"
  | .methodLowered method instrs declared =>
      "lowered method '" ++ method ++ "': " ++ Decimal.ofNat instrs ++
        " instructions, " ++
        Decimal.ofNat declared ++ " variables"
  | .classLowered name methods =>
      "lowered class '" ++ name ++ "' (" ++ Decimal.ofNat methods ++ " method(s))"
  | .livenessFound method passes =>
      "liveness for '" ++ method ++ "' converged after " ++ Decimal.ofNat passes ++
        " pass(es)"
  | .graphBuilt method graph =>
      "interference graph for '" ++ method ++ "':\n" ++ graph.text
  | .spillCandidate method budget name =>
      "'" ++ method ++ "': no node below degree " ++ Decimal.ofNat budget ++
        ", pushing spill candidate '" ++ name ++ "'"
  | .colored method name color =>
      "'" ++ method ++ "': " ++ name ++ " gets color " ++ Decimal.ofNat color
  | .slotGiven name slot =>
      "[RegisterAllocator] " ++ name ++ " => r" ++ Decimal.ofNat slot
  | .temporaryDropped name => "removed dead temporary '" ++ name ++ "'"
  | .methodAllocated method locals registers budget =>
      "allocated '" ++ method ++ "': " ++ Decimal.ofNat locals ++
        " variable(s) in " ++
        Decimal.ofNat registers ++ " register(s), budget " ++ Decimal.ofNat budget
  | .leftOnStack method depth =>
      "'" ++ method ++ "' ends with " ++ Decimal.ofInt depth ++
        " value(s) left on the stack"
  | .methodEmitted method stack locals =>
      "emitted method '" ++ method ++ "': stack " ++ Decimal.ofInt stack ++
        ", locals " ++
        Decimal.ofNat locals

/-- The line of a message: its level and its text. -/
def line (entry : Entry) : String :=
  entry.level.word ++ " " ++ entry.text

end Entry

/-- The messages of a level and of more important ones. -/
def journalUpTo (level : Level) (entries : List Entry) : List Entry :=
  entries.filter fun entry => entry.level.rank ≤ level.rank

/-! ## Constants -/

/-- The message about a step of propagation. -/
def PropagationStep.entry (method : String) : PropagationStep → Entry
  | .replaced name value => .replaced name value
  | .learned name value => .learned method name value

/-- The messages of a pass. -/
def Pass.journal (symbols : Symbols) (program : Program) : Pass → List Entry
  | .propagation =>
      program.mainClass.methods.flatMap fun method =>
        (method.propagationSteps symbols).map (PropagationStep.entry method.name)
  | .folding => program.foldings.map .folded

/-- The messages of passes that run one after the other. -/
def passesJournal (symbols : Symbols) : List Pass → Program → List Entry
  | [], _ => []
  | pass :: rest, program =>
      pass.journal symbols program ++
        (if pass.changes symbols program then [.passChanged pass] else []) ++
        passesJournal symbols rest (pass.apply symbols program)

/-- The messages of rounds, of which `done` have been run already. -/
def roundsJournal (symbols : Symbols) : (bound done : Nat) → Program → List Entry
  | 0, done, _ => [.notConverged done]
  | bound + 1, done, program =>
      passesJournal symbols Pass.round program ++
        match program.runPasses symbols Pass.round with
        | (result, true) => roundsJournal symbols bound (done + 1) result
        | (_, false) => [.converged (done + 1)]

/-! ## Lowering -/

/-- The messages about the fields that a method writes. -/
def fieldWrites (method : Method) : List Entry :=
  method.instrs.filterMap fun instr =>
    match instr with
    | .putField _ field _ => some (.fieldWritten field.name method.name)
    | _ => none

/-- The messages of lowering methods in order. -/
def lowerJournal (symbols : Symbols) : Lowering → List MethodDef → List Entry
  | _, [] => []
  | state, method :: rest =>
      match Lower.body symbols method state with
      | .ok _ after =>
          match after.current? with
          | some lowered =>
              let lowered := lowered.finish
              fieldWrites lowered ++
                [.methodLowered lowered.name lowered.instrs.length
                  lowered.table.size] ++
                lowerJournal symbols { after with current? := none } rest
          | none => []
      | .error _ after => (after.current?.map fieldWrites).getD []

/-! ## Allocation -/

/-- The messages of allocating the slots of a method. -/
def allocationJournal (budget : Nat) (method : Method) : List Entry :=
  let liveness := Register.analyze method
  let graph := Graph.ofLiveness liveness
  let selection := Register.selection budget method graph
  [.livenessFound method.name liveness.passes, .graphBuilt method.name graph] ++
    ((Register.simplify budget method graph).filter (·.isSpillCandidate)).map
      (fun pick => .spillCandidate method.name budget pick.name) ++
    selection.steps.map (fun (name, color) => .colored method.name name color) ++
    match selection.stuck? with
    | some _ => []
    | none =>
        selection.colors.toList.map
            (fun (name, color) => .slotGiven name (color + method.baseSlot)) ++
          (method.table.keys.filter fun name =>
            !Register.keeps selection.colors name).map .temporaryDropped ++
          [.methodAllocated method.name selection.colors.size
            (Register.registersUsed selection.colors) budget]

/-- The messages of allocating methods in order, up to the first that fails. -/
def allocationsJournal (budget : Nat) : List Method → List Entry
  | [] => []
  | method :: rest =>
      allocationJournal budget method ++
        match Register.allocate budget method with
        | .ok _ => allocationsJournal budget rest
        | .error _ => []

/-! ## Emission -/

/-- The messages of emitting methods in order. -/
def emissionJournal (unit : ClassCode) : Assembly.Emitter → List Method → List Entry
  | _, [] => []
  | state, method :: rest =>
      match Assembly.Emit.method unit method state with
      | .ok _ after =>
          let limits := after.limits
          (if limits.depth = 0 then []
            else [.leftOnStack method.name limits.depth.toInt]) ++
            [.methodEmitted method.name limits.maxDepth.toInt
              (limits.maxLocals method.baseSlot)] ++
            emissionJournal unit after rest
      | .error _ _ => []

/-! ## The whole compilation -/

/-- The messages of assembling a class. -/
def assemblyJournal (budget : Nat) (unit : ClassCode) : List Entry :=
  (if budget = 0 then [] else allocationsJournal budget unit.methods) ++
    match Register.allocateClass budget unit with
    | (allocated, none) => emissionJournal allocated {} allocated.methods
    | (_, some _) => []

/-- The messages of compiling a unit. -/
def TypedUnit.journal (unit : TypedUnit) (options : Options) : List Entry :=
  match checkReports unit.reports with
  | .error _ => []
  | .ok _ =>
      let symbols := unit.symbols
      (if options.optimize then
        roundsJournal symbols Program.maxRounds 0 unit.program else []) ++
        lowerJournal symbols (.start symbols)
          (unit.prepared options).mainClass.methods ++
        match unit.lower options with
        | .ok code =>
            [.classLowered code.name code.methods.length] ++
              assemblyJournal options.budget code
        | .error _ => []

end MiniJava

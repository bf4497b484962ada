import JBLang.Base.Text
import JBLang.Base.Quoting
import JBLang.Base.Brackets
import JBLang.Base.Marking
import JBLang.Base.DList
import JBLang.Base.Runs
import JBLang.Base.RefCounting
import JBLang.Base.Chain
import JBLang.Base.Postcondition
import JBLang.Base.TwoRuns
import JBLang.Base.Lexing
import JBLang.Base.Scoping
import JBLang.Runtime.Memory
import JBLang.Runtime.MarkSweep
import JBLang.Runtime.BlockList
import JBLang.Runtime.MarkPhase
import JBLang.Runtime.Collection
import JBLang.Runtime.MarkTrace
import JBLang.Runtime.MarkSweepRuns
import JBLang.Runtime.RefCount
import JBLang.Runtime.Allocation
import JBLang.Runtime.Dispatch
import JBLang.Runtime.RefCountRuns
import JBLang.Runtime.HeldReferences
import JBLang.Runtime.Ownership
import JBLang.Types.Basic
import JBLang.Types.TypeSystem
import JBLang.Types.SymbolTable
import JBLang.Types.Hierarchy
import JBLang.Types.Shapes
import JBLang.Codegen.CCodeGenerator
import JBLang.Ast.Grammar
import JBLang.Ast.VisitState
import JBLang.Ast.Visitor
import JBLang.Ast.VisitRules
import JBLang.Ast.ExprFrame
import JBLang.Ast.Steps
import JBLang.Ast.Contributions
import JBLang.Ast.Quiet
import JBLang.Ast.Scopes
import JBLang.Ast.OptionalParts
import JBLang.Ast.Tables
import JBLang.Ast.Names
import JBLang.Ast.Specifiers
import JBLang.Ast.PointerDepth
import JBLang.Ast.Parsing
import JBLang.Ast.Reading
import JBLang.Ast.Operands
import JBLang.Ast.Lexing
import JBLang.Ast.Directives
import JBLang.Ast.PlainTexts
import JBLang.Ast.Declarators
import JBLang.Ast.CallTexts
import JBLang.Ast.GlobalRoots
import JBLang.Ast.Lookup
import JBLang.Ast.Counting
import JBLang.Classes.VTableLayout
import JBLang.Classes.VTableStores
import JBLang.Classes.Registration
import JBLang.Classes.VTables
import JBLang.Classes.Dispatch
import JBLang.Classes.SlotTypes
import JBLang.Classes.MethodSites
import JBLang.Classes.Passes
import JBLang.Classes.Mangling
import JBLang.Classes.Inheritance
import JBLang.Classes.FieldPaths
import JBLang.Classes.Upcasts
import JBLang.Classes.VirtualFlags
import JBLang.Classes.Subtyping
import JBLang.Classes.Acyclicity
import JBLang.Emitted.Code
import JBLang.Emitted.Executions
import JBLang.Emitted.Functions
import JBLang.Emitted.Programs
import JBLang.Emitted.RunRules
import JBLang.Emitted.Tracking
import JBLang.Emitted.Exactness
import JBLang.Emitted.CountedPointers
import JBLang.Emitted.Returns
import JBLang.Emitted.Assignments
import JBLang.Emitted.Pieces
import JBLang.Emitted.Hoisting
import JBLang.Emitted.Creations
import JBLang.Emitted.Initializers
import JBLang.Emitted.Temporaries
import JBLang.Emitted.PointerLoads
import JBLang.Emitted.TakenReferences
import JBLang.Emitted.FieldStores
import JBLang.Emitted.Calls

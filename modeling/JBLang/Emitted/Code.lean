import JBLang.Codegen.CCodeGenerator
import JBLang.Runtime.HeldReferences

/-!
# Emitted pointer code and its executions

The C that the visitor writes for functions over pointer variables. An execution calls the
reference-count allocator and keeps a log of these calls. `malloc` answers with memory that is not
in use or fails, conditions have any outcome, and a name that has no value is read as any address.
-/

namespace JBLang.Emitted

open JBLang.Base JBLang.Types JBLang.Codegen JBLang.Runtime

/-! ### Code and its text -/

/-- The macro for the null pointer. -/
def nilName : Str := "NIL"

/-- A step from an address to a part of what stands there. -/
inductive Part where
  | arrow (field : Str)
  | dot (field : Str)
  | index (text : Str)
  | star
deriving DecidableEq

/-- An expression that reads memory, as C groups it. A variable that is a struct or an array
stands for its address. -/
inductive Path where
  | var (name : Str)
  | select (base : Path) (part : Part)
deriving DecidableEq

/-- Right sides of pointer type. -/
inductive CValue where
  | alloc (type : Ty)
  | var (name : Str)
  /-- An object as one of its parent class. -/
  | parent (name : Str)
  /-- The address of a string literal or a variable. -/
  | address (text : Str)
  | load (text : Str) (path : Path)
  | call (name : Str) (args : List Str)

/-- The text of a value; a call stands behind blanks. -/
def CValue.text (indent : Str) : CValue → Str
  | .alloc type => generateAlloc type
  | .var name => name
  | .parent name => "&((" ++ name ++ ")->parent)"
  | .address text | .load text _ => text
  | .call name args => indent ++ generateFunctionCall name args

/-- A line of code. -/
inductive Line where
  | declare (type : Ty) (name : Str) (value : Option CValue)
  | assign (name : Str) (value : CValue)
  | inc (name : Str)
  /-- An increment that is recorded in the block of another variable. -/
  | incFor (name owner : Str)
  | dec (name : Str)
  | expr (value : CValue)
  | store (text : Str) (base : Path) (part : Part) (value : Str)
  /-- Another expression statement. -/
  | effect (text : Str)
  | empty

/-- The text of a line. -/
def Line.text (indent : Str) : Line → Str
  | .declare type name none => indent ++ generateVarDecl name type ""
  | .declare type name (some value) =>
    indent ++ generateVarDecl name type (" = " ++ value.text indent)
  | .assign name value => indent ++ (name ++ " = " ++ value.text indent) ++ ";\n"
  | .inc name => indent ++ ("runtime_inc_ref_count(" ++ name ++ ", " ++ "NULL" ++ ");\n")
  | .incFor name owner => indent ++ ("runtime_inc_ref_count(" ++ name ++ ", " ++ owner ++ ");\n")
  | .dec name => indent ++ ("runtime_dec_ref_count(" ++ name ++ ", " ++ "0" ++ ");\n")
  | .expr value => indent ++ value.text indent ++ ";\n"
  | .store text _ _ value => indent ++ (text ++ " = " ++ value) ++ ";\n"
  | .effect text => indent ++ text ++ ";\n"
  | .empty => ";\n"

/-- What the visitor writes for a statement of the source, or the releases at the end of a
block. -/
inductive CStmt where
  | lines (ls : List Line)
  | ret (ls : List Line) (value : CValue)
  | block (body : List CStmt)
  | branch (cond : Str) (body : List CStmt)
  | branchElse (cond : Str) (body otherwise : List CStmt)
  | loop (cond : Str) (body : List CStmt)

/-- A function: its parameters and the statements of its body. -/
structure CFunction where
  params : List Str
  body : List CStmt

/-- The indentation at a depth of scopes. -/
def indentation (level : Nat) : Str := blanks (level * 4)

/-- The text of some lines. -/
def linesText (level : Nat) (ls : List Line) : Str :=
  (ls.map (Line.text (indentation level))).flatten

/-- The statements of a block between its braces. -/
def inBraces (level : Nat) (body : Str) : Str :=
  generateScopeEntry ++ body ++ (indentation level ++ generateScopeExit)

mutual

/-- The text of a statement at a depth of scopes. -/
def CStmt.render (level : Nat) : CStmt → Str
  | .lines ls => linesText level ls
  | .ret ls value =>
    linesText level ls ++ (indentation level ++ generateReturn (value.text (indentation level)))
  | .block body => inBraces (level + 1) (renderAll (level + 1) body)
  | .branch cond body =>
    (indentation level ++ "if (") ++ (cond ++ ") \x7b\n") ++
      inBraces (level + 1) (renderAll (level + 1) body) ++ "\x7d\n"
  | .branchElse cond body otherwise =>
    (indentation level ++ "if (") ++ (cond ++ ") \x7b\n") ++
      inBraces (level + 1) (renderAll (level + 1) body) ++ "\x7d\n" ++
      (indentation level ++ "else \x7b\n") ++
      inBraces (level + 1) (renderAll (level + 1) otherwise) ++ "\x7d\n"
  | .loop cond body =>
    (indentation level ++ "while (") ++ (cond ++ ") \x7b\n") ++
      inBraces (level + 1) (renderAll (level + 1) body) ++ "\x7d\n"

/-- The text of a list of statements. -/
def renderAll (level : Nat) : List CStmt → Str
  | [] => ""
  | c :: cs => c.render level ++ renderAll level cs

end

/-! ### States -/

/-- The variables of a scope with their values, the latest first. A variable may have none. -/
abbrev Frame := List (Str × Option Nat)

/-- The innermost variable of a name. -/
def lookupVar (env : List Frame) (name : Str) : Option (Option Nat) := env.flatten.lookup name

/-- The first variable of a name gets a value. -/
def Frame.set (name : Str) (v : Nat) : Frame → Frame
  | [] => []
  | p :: frame => if p.1 = name then (name, some v) :: frame else p :: Frame.set name v frame

/-- The innermost variable of a name gets a value. -/
def setVar (name : Str) (v : Nat) : List Frame → List Frame
  | [] => []
  | frame :: env =>
    if name ∈ frame.map Prod.fst then frame.set name v :: env else frame :: setVar name v env

/-- A new variable, without a value. -/
def addVar (name : Str) : List Frame → List Frame
  | [] => [[(name, none)]]
  | frame :: env => ((name, none) :: frame) :: env

/-- What an address is combined with to name a place in memory. -/
inductive Selector where
  | field (name : Str)
  | element (index : Nat)
  | pointee
deriving DecidableEq

/-- The allocator, the calls of it so far, the latest first, and the memory. -/
structure World where
  heap : RCState
  log : List RCOp
  memory : Nat → Selector → Nat

/-- The beginning of a program, after `rc_init`. -/
def World.start (memory : Nat → Selector → Nat) : World := ⟨rcInit .boot, [], memory⟩

/-- Nothing can be read at the address: it is `NULL` or that of a block that was freed. -/
def World.Dangling (w : World) (v : Nat) : Prop :=
  v = 0 ∨ ∃ bytes a, .alloc bytes (some a) ∈ w.log ∧ a ∉ w.heap.live ∧ v = rcPayload a

/-- A part of an object gets a value. -/
def World.store (w : World) (v : Nat) (sel : Selector) (value : Nat) : World :=
  { w with memory := fun v' sel' ↦ if v' = v ∧ sel' = sel then value else w.memory v' sel' }

/-- The state of a function's execution. -/
structure CState where
  env : List Frame
  world : World

namespace CState

/-- An opening brace. -/
def openScope (σ : CState) : CState := { σ with env := [] :: σ.env }

/-- A closing brace. -/
def closeScope (σ : CState) : CState := { σ with env := σ.env.tail }

/-- A variable is declared. -/
def declare (σ : CState) (name : Str) : CState := { σ with env := addVar name σ.env }

/-- A variable gets a value. -/
def set (σ : CState) (name : Str) (v : Nat) : CState := { σ with env := setVar name v σ.env }

/-- A call of the allocator that leaves a heap. -/
def called (σ : CState) (op : RCOp) (heap : RCState) : CState :=
  { σ with world := { σ.world with heap, log := op :: σ.world.log } }

end CState

/-- How an execution ends: with a result, or in a fault or where it is looked at. -/
inductive Ending (S α : Type) where
  | done (s : S) (a : α)
  | stopped (s : S) (fault : Option Fault)

namespace Ending

variable {S α β : Type}

/-- The last state. -/
def state : Ending S α → S
  | .done s _ | .stopped s _ => s

/-- The execution goes on. -/
def andThen (e : Ending S α) (f : S → α → Ending S β) : Ending S β :=
  match e with
  | .done s a => f s a
  | .stopped s fault => .stopped s fault

end Ending

/-- A call of the allocator without result. -/
def CState.calling (σ : CState) (op : RCOp) : Except Fault RCState → Ending CState Unit
  | .ok heap => .done (σ.called op heap) ()
  | .error f => .stopped (σ.called op σ.world.heap) (some f)

/-! ### Executions -/

/-- The value that is read from a name. -/
inductive Reads (env : List Frame) (name : Str) : Nat → Prop
  | null (h : name = nilName) : Reads env name 0
  | value {v : Nat} (hname : name ≠ nilName) (h : lookupVar env name = some (some v)) :
    Reads env name v
  | indeterminate {v : Nat} (hname : name ≠ nilName) (h : ∀ w, lookupVar env name ≠ some (some w)) :
    Reads env name v

/-- What the code does not decide: the sizes of types, and the values of indices. -/
structure Platform where
  sizeof : Ty → Nat
  indexValue : CState → Str → Nat

/-- The part that a step leads to. -/
def Part.selector (platform : Platform) (σ : CState) : Part → Selector
  | .arrow field | .dot field => .field field
  | .index text => .element (platform.indexValue σ text)
  | .star => .pointee

/-- The value of a path, and the addresses that are read on the way. -/
inductive Loads (platform : Platform) (σ : CState) : Path → Nat → List Nat → Prop
  | var {name : Str} {v : Nat} (h : Reads σ.env name v) : Loads platform σ (.var name) v []
  | select {base : Path} {part : Part} {v v' : Nat} {addresses : List Nat}
    (hbase : Loads platform σ base v addresses)
    (h : σ.world.Dangling v ∨ v' = σ.world.memory v (part.selector platform σ)) :
    Loads platform σ (.select base part) v' (v :: addresses)

/-- What a call of a function with some arguments does. -/
abbrev Callee := Str → List Nat → World → Ending World Nat → Prop

variable (platform : Platform) (callee : Callee)

/-- `malloc` gives memory that is not in use. -/
def Grants (heap : RCState) (granted : Option Nat) : Prop :=
  ∀ a, granted = some a → a ∉ heap.live ∧ a + rcHeaderSize < sizeModulus

/-- The evaluation of a right side. -/
inductive Evaluates : CValue → CState → Ending CState Nat → Prop
  | alloc {type : Ty} {σ : CState} {granted : Option Nat} {heap : RCState} {v : Nat}
    (hgranted : Grants σ.world.heap granted)
    (h : rcAlloc σ.world.heap (platform.sizeof type) granted = .ok (heap, v)) :
    Evaluates (.alloc type) σ (.done (σ.called (.alloc (platform.sizeof type) granted) heap) v)
  | allocFault {type : Ty} {σ : CState} {granted : Option Nat} {f : Fault}
    (hgranted : Grants σ.world.heap granted)
    (h : rcAlloc σ.world.heap (platform.sizeof type) granted = .error f) :
    Evaluates (.alloc type) σ
      (.stopped (σ.called (.alloc (platform.sizeof type) granted) σ.world.heap) (some f))
  | var {name : Str} {σ : CState} {v : Nat} (h : Reads σ.env name v) :
    Evaluates (.var name) σ (.done σ v)
  -- The parent is the first member of an object.
  | parent {name : Str} {σ : CState} {v : Nat} (h : Reads σ.env name v) :
    Evaluates (.parent name) σ (.done σ v)
  | address {text : Str} {σ : CState} {v : Nat} (hne : v ≠ 0)
    (hout : ∀ bytes a, .alloc bytes (some a) ∈ σ.world.log → v ≠ rcPayload a) :
    Evaluates (.address text) σ (.done σ v)
  | load {text : Str} {path : Path} {σ : CState} {v : Nat} {addresses : List Nat}
    (h : Loads platform σ path v addresses) : Evaluates (.load text path) σ (.done σ v)
  | call {name : Str} {args : List Str} {σ : CState} {values : List Nat} {w : World} {v : Nat}
    (hargs : List.Forall₂ (Reads σ.env) args values) (h : callee name values σ.world (.done w v)) :
    Evaluates (.call name args) σ (.done { σ with world := w } v)
  | callStopped {name : Str} {args : List Str} {σ : CState} {values : List Nat} {w : World}
    {f : Option Fault} (hargs : List.Forall₂ (Reads σ.env) args values)
    (h : callee name values σ.world (.stopped w f)) :
    Evaluates (.call name args) σ (.stopped { σ with world := w } f)

/-- The execution of a line. A variable is in scope in its own initialiser. -/
def LineStep : Line → CState → Ending CState Unit → Prop
  | .declare _ name none, σ, e => e = .done (σ.declare name) ()
  | .declare _ name (some value), σ, e => ∃ e', Evaluates platform callee value (σ.declare name) e' ∧
    e = e'.andThen fun σ v ↦ .done (σ.set name v) ()
  | .assign name value, σ, e => ∃ e', Evaluates platform callee value σ e' ∧
    e = e'.andThen fun σ v ↦ .done (σ.set name v) ()
  | .inc name, σ, e =>
    ∃ v, Reads σ.env name v ∧ e = σ.calling (.inc v 0) (incRefCount σ.world.heap v 0)
  | .incFor name owner, σ, e => ∃ v o, Reads σ.env name v ∧ Reads σ.env owner o ∧
    e = σ.calling (.inc v o) (incRefCount σ.world.heap v o)
  | .dec name, σ, e =>
    ∃ v, Reads σ.env name v ∧ e = σ.calling (.dec v) (decRefCount σ.world.heap v 0)
  | .expr value, σ, e => ∃ e', Evaluates platform callee value σ e' ∧
    e = e'.andThen fun σ _ ↦ .done σ ()
  | .store _ base part name, σ, e => ∃ v value addresses, Loads platform σ base v addresses ∧
    Reads σ.env name value ∧
    e = .done { σ with world := σ.world.store v (part.selector platform σ) value } ()
  -- What is assigned, and where, is not looked at.
  | .effect _, σ, e => ∃ env memory, e = .done ⟨env, { σ.world with memory }⟩ ()
  | .empty, σ, e => e = .done σ ()

/-- The execution of some lines, or of the first of them. -/
def LinesStep : List Line → CState → Ending CState Unit → Prop
  | [], σ, e => e = .done σ () ∨ e = .stopped σ none
  | l :: ls, σ, e => e = .stopped σ none ∨
    (∃ σ', LineStep platform callee l σ (.done σ' ()) ∧ LinesStep ls σ' e) ∨
    ∃ σ' f, LineStep platform callee l σ (.stopped σ' f) ∧ e = .stopped σ' f

/-- An execution of code: the states at the beginnings of the statements it comes to, and its end,
with the value of a `return`. -/
inductive Runs : List CStmt → CState → List CState → Ending CState (Option Nat) → Prop
  | nil {σ : CState} : Runs [] σ [] (.done σ none)
  | cut {code : List CStmt} {σ : CState} : Runs code σ [] (.stopped σ none)
  | lines {ls : List Line} {rest : List CStmt} {σ σ' : CState} {trace : List CState}
    {e : Ending CState (Option Nat)} (h : LinesStep platform callee ls σ (.done σ' ()))
    (hrest : Runs rest σ' trace e) : Runs (.lines ls :: rest) σ (σ :: trace) e
  | linesStopped {ls : List Line} {rest : List CStmt} {σ σ' : CState} {f : Option Fault}
    (h : LinesStep platform callee ls σ (.stopped σ' f)) :
    Runs (.lines ls :: rest) σ [σ] (.stopped σ' f)
  | ret {ls : List Line} {value : CValue} {rest : List CStmt} {σ σ' σ'' : CState} {v : Nat}
    (h : LinesStep platform callee ls σ (.done σ' ()))
    (hvalue : Evaluates platform callee value σ' (.done σ'' v)) :
    Runs (.ret ls value :: rest) σ [σ] (.done σ'' (some v))
  | retStopped {ls : List Line} {value : CValue} {rest : List CStmt} {σ σ' : CState}
    {f : Option Fault} (h : LinesStep platform callee ls σ (.stopped σ' f)) :
    Runs (.ret ls value :: rest) σ [σ] (.stopped σ' f)
  | valueStopped {ls : List Line} {value : CValue} {rest : List CStmt} {σ σ' σ'' : CState}
    {f : Option Fault} (h : LinesStep platform callee ls σ (.done σ' ()))
    (hvalue : Evaluates platform callee value σ' (.stopped σ'' f)) :
    Runs (.ret ls value :: rest) σ [σ] (.stopped σ'' f)
  | block {body rest : List CStmt} {σ σ' : CState} {trace trace' : List CState}
    {e : Ending CState (Option Nat)} (hbody : Runs body σ.openScope trace (.done σ' none))
    (hrest : Runs rest σ'.closeScope trace' e) :
    Runs (.block body :: rest) σ (σ :: (trace ++ trace')) e
  | blockReturned {body rest : List CStmt} {σ σ' : CState} {trace : List CState} {v : Nat}
    (hbody : Runs body σ.openScope trace (.done σ' (some v))) :
    Runs (.block body :: rest) σ (σ :: trace) (.done σ' (some v))
  | blockStopped {body rest : List CStmt} {σ σ' : CState} {trace : List CState} {f : Option Fault}
    (hbody : Runs body σ.openScope trace (.stopped σ' f)) :
    Runs (.block body :: rest) σ (σ :: trace) (.stopped σ' f)
  | branch {cond : Str} {body rest : List CStmt} {σ : CState} {trace : List CState}
    {e : Ending CState (Option Nat)} (h : Runs (.block body :: rest) σ trace e) :
    Runs (.branch cond body :: rest) σ trace e
  | skip {cond : Str} {body rest : List CStmt} {σ : CState} {trace : List CState}
    {e : Ending CState (Option Nat)} (h : Runs rest σ trace e) :
    Runs (.branch cond body :: rest) σ (σ :: trace) e
  | branchThen {cond : Str} {body otherwise rest : List CStmt} {σ : CState} {trace : List CState}
    {e : Ending CState (Option Nat)} (h : Runs (.block body :: rest) σ trace e) :
    Runs (.branchElse cond body otherwise :: rest) σ trace e
  | branchElse {cond : Str} {body otherwise rest : List CStmt} {σ : CState} {trace : List CState}
    {e : Ending CState (Option Nat)} (h : Runs (.block otherwise :: rest) σ trace e) :
    Runs (.branchElse cond body otherwise :: rest) σ trace e
  | loop {cond : Str} {body rest : List CStmt} {σ : CState} {trace : List CState}
    {e : Ending CState (Option Nat)}
    (h : Runs (.block body :: .loop cond body :: rest) σ trace e) :
    Runs (.loop cond body :: rest) σ trace e
  | loopEnd {cond : Str} {body rest : List CStmt} {σ : CState} {trace : List CState}
    {e : Ending CState (Option Nat)} (h : Runs rest σ trace e) :
    Runs (.loop cond body :: rest) σ (σ :: trace) e

/-- What is left of a function's execution for its caller. Without `return` the result is any
value. -/
inductive Returns : Ending CState (Option Nat) → Ending World Nat → Prop
  | value {σ : CState} {v : Nat} : Returns (.done σ (some v)) (.done σ.world v)
  | none {σ : CState} {v : Nat} : Returns (.done σ none) (.done σ.world v)
  | stopped {σ : CState} {f : Option Fault} : Returns (.stopped σ f) (.stopped σ.world f)

/-- The beginning of a function's execution. -/
def CFunction.enter (f : CFunction) (args : List Nat) (w : World) : CState :=
  ⟨[f.params.zip (args.map some)], w⟩

/-- The calls of a program's functions, nested up to a depth. A function from elsewhere leaves the
allocator as it is and returns any value. -/
def calls (program : Str → Option CFunction) : Nat → Callee
  | 0, _, _, w, e => e = .stopped w none
  | depth + 1, name, args, w, e => match program name with
    | none => ∃ v, e = .done w v
    | some f => ∃ trace e', Runs platform (calls program depth) [.block f.body] (f.enter args w)
        trace e' ∧ Returns e' e

end JBLang.Emitted

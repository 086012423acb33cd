/-
Evaluating scripts. What an expression gives and how a statement ends is said in terms of how their
parts are evaluated, and the evaluator is that for a limited number of steps.
-/
import Scripting.Js.Builtin
import Scripting.Js.Crossing
import Scripting.Js.Parser

namespace Scripting.Js.Run

/-! ## Variables -/

/-- What a name stands for in code. -/
def readName (ev : Evaluator) (frame : Frame) (name : String) : Run Value := do
  let h ← heap
  match h.findVariable? name frame.scope with
  | some (_, { value := some v, .. }) => return v
  | some (_, _) => fail .referenceError s!"{name} is not initialized"
  | none =>
    match h.find? h.realm.globals name with
    | some c => contentValue ev (.object h.realm.globals) (some c)
    | none => fail .referenceError s!"'{name}' is not defined"

def assignName (frame : Frame) (name : String) (v : Value) : Run Unit := do
  let h ← heap
  match h.findVariable? name frame.scope with
  | some (id, found) =>
    if found.value.isNone then fail .referenceError s!"{name} is not initialized"
    else if !found.isMutable then fail .typeError s!"'{name}' is read-only"
    else changeHeap fun h => h.updateScope id fun s => s.assign name v
  | none =>
    if (h.find? h.realm.globals name).isSome then storeNamed h.realm.globals name v
    else fail .referenceError s!"'{name}' is not defined"

/-- Gives a declared variable its first value. -/
def define (frame : Frame) (name : String) (v : Value) : Run Unit :=
  changeHeap fun h => h.updateScope frame.scope fun s => s.assign name v

/-! ## Functions -/

/-- A new function of some code. One that can make objects has a parent for them. -/
def newClosure (frame : Frame) (code : FunctionCode) : Run Value := do
  if code.isArrow then newFunction (.closure code frame.scope frame.this)
  else do
    let f ← newFunction (.closure code frame.scope .undefined)
    let parent ← newPlain
    changeHeap fun h => h.putHidden parent "constructor" f
    match f with
    | .object id => changeHeap fun h => h.putHidden id "prototype" (.object parent)
    | _ => pure ()
    return f

/-- The function of an expression; one with a name sees itself under it. -/
def closureOf (frame : Frame) (code : FunctionCode) : Run Value := do
  if code.name.isEmpty then newClosure frame code
  else do
    let own : Scope := { bindings := [⟨code.name, none, false⟩], outer := some frame.scope }
    let frame := { frame with scope := ← allocate fun h => h.openScope own }
    let f ← newClosure frame code
    define frame code.name f
    return f

/-- Gives the functions that a list of statements declares their values. -/
def hoist (frame : Frame) (body : List Statement) : Run Unit :=
  (Statement.functions body).forM fun (name, code) => do
    define frame name (← newClosure frame code)

/-- A scope with the names that a list of statements declares for its block. -/
def blockScope (s : Scope) (body : List Statement) : Scope :=
  let s := (Statement.functions body).foldl (fun s f => s.declare ⟨f.1, some .undefined, true⟩) s
  (Statement.lexicalNames body).foldl (fun s (name, isMutable) => s.declare ⟨name, none, isMutable⟩) s

/-- The scope of a call: its parameters, and all that the body declares. -/
def callScope (code : FunctionCode) (outer : ScopeId) (args : List Value) : Scope :=
  let params := code.params.zipIdx.map fun (name, i) =>
    (⟨name, some (args.getD i .undefined), true⟩ : Variable)
  let s := (Statement.varNamesOf code.body).foldl (fun s name =>
    s.declare ⟨name, some .undefined, true⟩) { bindings := params, outer := some outer }
  blockScope s code.body

/-- Runs statements one after the other. -/
def runAll (ev : Evaluator) (frame : Frame) : List Statement → Run Completion
  | [] => return .normal
  | s :: rest => do
    match ← ev.statement frame s with
    | .normal => runAll ev frame rest
    | c => return c

/-- Runs the code of a function. -/
def callClosure (ev : Evaluator) (code : FunctionCode) (outer : ScopeId) (this : Value)
    (args : List Value) : Run Value := do
  let scope ← allocate fun h => h.openScope (callScope code outer args)
  let frame : Frame := { scope, this }
  hoist frame code.body
  match ← runAll ev frame code.body with
  | .returned v => return v
  | _ => return .undefined

/-- Calls a value. -/
def callValue (ev : Evaluator) (f this : Value) (args : List Value) : Run Value := do
  poll
  match ← object? f with
  | some (_, { sort := .function c, .. }) =>
    match c with
    | .closure code scope own =>
      called (callClosure ev code scope (if code.isArrow then own else this) args)
    | .builtin b => callBuiltin ev b this args
    | .native name => callNative ev name args
    | .method name => callMethod ev name this args
  | _ => fail .typeError "not a function"

/-- Makes an object by a function. -/
def construct (ev : Evaluator) (f : Value) (args : List Value) : Run Value := do
  poll
  match ← object? f with
  | some (_, { sort := .function (.builtin b), .. }) =>
    match b with
    | .makeError sort => makeError ev sort (args.getD 0 .undefined)
    | .makeObject => return .object (← newPlain)
    | _ => fail .typeError "not a constructor"
  | some (_, { sort := .function (.closure code ..), .. }) =>
    if code.isArrow then fail .typeError "not a constructor"
    else do
      let parent ← match ← getNamed ev f "prototype" with
        | .object id => pure id
        | _ => do pure (← heap).realm.object
      let this := Value.object (← allocate fun h => h.allocate { parent := some parent })
      let r ← ev.call f this args
      return if r.isObject then r else this
  | _ => fail .typeError "not a constructor"

/-! ## Expressions -/

/-- The value of a function to call, and what `this` is in the call. -/
def callee (ev : Evaluator) (frame : Frame) : Expr → Run (Value × Value)
  | .member e name => do
    let this ← ev.expr frame e
    return (← getNamed ev this name, this)
  | .index e i => do
    let this ← ev.expr frame e
    return (← getAt ev this (← ev.expr frame i), this)
  | e => do return (← ev.expr frame e, .undefined)

/-- A place that can be assigned to, with its parts evaluated. -/
inductive Place where
  | name (s : String)
  | member (v : Value) (name : String)
  | index (v i : Value)

def placeOf (ev : Evaluator) (frame : Frame) : Expr → Run Place
  | .name s => return .name s
  | .member e name => do return .member (← ev.expr frame e) name
  | .index e i => do
    let v ← ev.expr frame e
    return .index v (← ev.expr frame i)
  | _ => fail .syntaxError "invalid assignment left-hand side"

def readPlace (ev : Evaluator) (frame : Frame) : Place → Run Value
  | .name s => readName ev frame s
  | .member v name => getNamed ev v name
  | .index v i => getAt ev v i

def writePlace (ev : Evaluator) (frame : Frame) (p : Place) (v : Value) : Run Unit :=
  match p with
  | .name s => assignName frame s v
  | .member o name => setNamed o name v
  | .index o i => setAt ev o i v

def assign (ev : Evaluator) (frame : Frame) (target : Expr) (op : Option BinaryOp) (e : Expr) :
    Run Value := do
  let place ← placeOf ev frame target
  let v ← match op with
    | none => ev.expr frame e
    | some op => do
      let old ← readPlace ev frame place
      binary ev op old (← ev.expr frame e)
  writePlace ev frame place v
  return v

/-- Counts a place up or down. -/
def count (ev : Evaluator) (frame : Frame) (target : Expr) (up giveNew : Bool) : Run Value := do
  let place ← placeOf ev frame target
  let old ← numberOf ev (← readPlace ev frame place)
  let new := if up then old.add (.int 1) else old.sub (.int 1)
  writePlace ev frame place (.number new)
  return .number (if giveNew then new else old)

def defineMember (ev : Evaluator) (frame : Frame) (id : ObjectId) (m : Member) : Run Unit := do
  match m with
  | .value name e =>
    let name ← propertyName ev (← ev.expr frame name)
    let v ← ev.expr frame e
    changeHeap fun h => h.putData id name v
  | .getter name code =>
    let name ← propertyName ev (← ev.expr frame name)
    match ← newClosure frame code with
    | .object f => changeHeap fun h => h.update id fun o => o.put { name, content := .getter f }
    | _ => return ()

/-- Whether the first value of a pair of conditions decides. -/
def decides (op : LogicalOp) (v : Value) : Bool :=
  match op with
  | .and => !v.isTrue
  | .or => v.isTrue

/-- The type of what a name stands for; one that is not declared has none. -/
def typeOfName (ev : Evaluator) (frame : Frame) (name : String) : Run Value := do
  let h ← heap
  if (h.findVariable? name frame.scope).isNone && (h.find? h.realm.globals name).isNone then
    return .string (Value.undefined.typeName h)
  else unary ev .typeOf (← readName ev frame name)

def evalExpr (ev : Evaluator) (frame : Frame) (e : Expr) : Run Value := do
  match e with
  | .number n => return .number n
  | .string s => return .string s
  | .broken t => return .broken t
  | .bool b => return .bool b
  | .null => return .null
  | .this => return frame.this
  | .name s => readName ev frame s
  | .array items =>
    newArray (← items.mapM fun item => item.mapM (ev.expr frame)).toArray
  | .object members =>
    let id ← newPlain
    members.forM (defineMember ev frame id)
    return .object id
  | .function code => closureOf frame code
  | .unary .typeOf (.name s) => typeOfName ev frame s
  | .unary op e => unary ev op (← ev.expr frame e)
  | .binary op a b =>
    let x ← ev.expr frame a
    binary ev op x (← ev.expr frame b)
  | .logical op a b =>
    let x ← ev.expr frame a
    poll
    if decides op x then return x else ev.expr frame b
  | .conditional test a b =>
    let v ← ev.expr frame test
    poll
    if v.isTrue then ev.expr frame a else ev.expr frame b
  | .assign target op e => assign ev frame target op e
  | .step target up giveNew => count ev frame target up giveNew
  | .member e name => getNamed ev (← ev.expr frame e) name
  | .index e i =>
    let v ← ev.expr frame e
    getAt ev v (← ev.expr frame i)
  | .call f args =>
    let (f, this) ← callee ev frame f
    ev.call f this (← args.mapM (ev.expr frame))
  | .new f args =>
    let f ← ev.expr frame f
    construct ev f (← args.mapM (ev.expr frame))
  | .delete (.member e name) => deleteNamed (← ev.expr frame e) name
  | .delete (.index e i) =>
    let v ← ev.expr frame e
    deleteNamed v (← propertyName ev (← ev.expr frame i))
  | .delete e =>
    let _ ← ev.expr frame e
    return .bool true
  | .sequence a b =>
    let _ ← ev.expr frame a
    ev.expr frame b

/-! ## Statements -/

/-- Stores the value of a statement, where the script as a whole has one. -/
def setLast (frame : Frame) (v : Value) : Run Unit := do
  if frame.isScript then modify fun m => { m with last := v }

def declare (ev : Evaluator) (frame : Frame) (d : Declaration) (name : String) (e : Option Expr) :
    Run Unit := do
  match d, e with
  | .var, none => return ()
  | .var, some e => assignName frame name (← ev.expr frame e)
  | .lexical _, none => define frame name .undefined
  | .lexical _, some e => define frame name (← ev.expr frame e)

/-- Runs a block in a scope of its own, if it declares anything. -/
def runBlock (ev : Evaluator) (frame : Frame) (bindings : List Variable) (body : List Statement) :
    Run Completion := do
  let s := blockScope { bindings, outer := some frame.scope } body
  if s.bindings.isEmpty then runAll ev frame body
  else do
    let frame := { frame with scope := ← allocate fun h => h.openScope s }
    hoist frame body
    runAll ev frame body

/-- The scope for the next turn of a loop: its own names stay what they are, but are new. -/
def renewed (frame : Frame) (names : List String) : Run Frame := do
  if names.isEmpty then return frame
  else do
    let s := (← heap).scope frame.scope
    return { frame with scope := ← allocate fun h => h.openScope s }

/-- Whether a loop takes another turn. -/
def goesOn (ev : Evaluator) (frame : Frame) (test : Option Expr) : Run Bool := do
  match test with
  | none => return true
  | some (.bool true) => return true
  | some e => do
    let v ← ev.expr frame e
    poll
    return v.isTrue

def evalLoop (ev : Evaluator) (frame : Frame) (test update : Option Expr) (body : Statement)
    (names : List String) : Run Completion := do
  if ← goesOn ev frame test then
    match ← ev.statement frame body with
    | .returned v => return .returned v
    | .left => return .normal
    | _ => do
      let frame ← renewed frame names
      match update with
      | some e => discard (ev.expr frame e)
      | none => pure ()
      poll
      ev.loop frame test update body names
  else return .normal

/-- Runs a loop that counts; the names that it declares are for the loop alone. -/
def evalFor (ev : Evaluator) (frame : Frame) (start : Option Statement) (test update : Option Expr)
    (body : Statement) : Run Completion := do
  match start with
  | none => evalLoop ev frame test update body []
  | some s => do
    let own := blockScope { outer := some frame.scope } [s]
    let frame ← if own.bindings.isEmpty then pure frame
      else do
        let scope ← allocate fun h => h.openScope own
        pure { frame with scope }
    let _ ← ev.statement { frame with isScript := false } s
    evalLoop ev frame test update body (own.bindings.map (·.name))

/-- Runs a block; what it throws is caught, unless it is no matter of the script. -/
def attempt (body : Run Completion) (handler : Value → Run Completion) : Run Completion :=
  tryCatch body fun e =>
    match e with
    | .thrown v => handler v
    | e => throw e

/-- Runs a block and another behind it in any case. The end of the other counts if it is no normal
one. -/
def ensuring (body last : Run Completion) : Run Completion := do
  match ← ExceptT.lift body.run with
  | .ok c =>
    match ← last with
    | .normal => return c
    | c' => return c'
  | .error (.thrown v) =>
    match ← last with
    | .normal => throwValue v
    | c' => return c'
  | .error e => throw e

def evalAttempt (ev : Evaluator) (frame : Frame) (body : List Statement)
    (handler : Option (Option String × List Statement)) (last : Option (List Statement)) :
    Run Completion := do
  let tried := match handler with
    | some (name, caught) => attempt (runBlock ev frame [] body) fun v =>
        runBlock ev frame (name.toList.map fun n => ⟨n, some v, true⟩) caught
    | none => runBlock ev frame [] body
  match last with
  | some last => ensuring tried (runBlock ev { frame with isScript := false } [] last)
  | none => tried

def evalStatement (ev : Evaluator) (frame : Frame) (s : Statement) : Run Completion := do
  match s with
  | .expr e =>
    setLast frame (← ev.expr frame e)
    return .normal
  | .declare d items =>
    items.forM fun (name, e) => declare ev frame d name e
    return .normal
  | .function .. => return .normal
  | .block body => runBlock ev frame [] body
  | .choose test yes no =>
    setLast frame .undefined
    let v ← ev.expr frame test
    poll
    if v.isTrue then ev.statement frame yes
    else match no with
      | some s => ev.statement frame s
      | none => return .normal
  | .loopWhile test body =>
    setLast frame .undefined
    ev.loop frame (some test) none body []
  | .loopUntil body test =>
    setLast frame .undefined
    match ← ev.statement frame body with
    | .returned v => return .returned v
    | .left => return .normal
    | _ => ev.loop frame (some test) none body []
  | .loopFor start test update body =>
    setLast frame .undefined
    evalFor ev frame start test update body
  | .result none => return .returned .undefined
  | .result (some e) => return .returned (← ev.expr frame e)
  | .throw e => throwValue (← ev.expr frame e)
  | .attempt body handler last =>
    setLast frame .undefined
    evalAttempt ev frame body handler last
  | .leave => return .left
  | .next => return .next
  | .empty => return .normal

/-! ## The evaluator -/

/-- Evaluates with limited fuel. -/
def evaluator : Nat → Evaluator
  | 0 => {
      expr := fun _ _ => throw .exhausted
      statement := fun _ _ => throw .exhausted
      loop := fun _ _ _ _ _ => throw .exhausted
      call := fun _ _ _ => throw .exhausted }
  | n + 1 => {
      expr := fun frame e => evalExpr (evaluator n) frame e
      statement := fun frame s => evalStatement (evaluator n) frame s
      loop := fun frame test update body names => evalLoop (evaluator n) frame test update body names
      call := fun f this args => callValue (evaluator n) f this args }

/-- More fuel than any script uses up. -/
def fuel : Nat := 1000000000000000000

/-! ## Scripts -/

/-- The name of a script that another script has declared in a way that does not go together. -/
def redeclared? (h : Heap) (body : List Statement) : Option String :=
  let top := h.scope Heap.topScope
  let globals := h.object h.realm.globals
  let through := Statement.varNamesOf body ++ (Statement.functions body).map Prod.fst
  let own := (Statement.lexicalNames body).map Prod.fst
  (own.find? fun n => (top.find? n).isSome || (globals.property? n).any (·.isFixed)).or
    (through.find? fun n => (top.find? n).isSome)

/-- Declares the names of a script: those of blocks in the scope of all scripts, the others as
properties of the global object. -/
def declareScript (body : List Statement) : Run Unit := do
  changeHeap fun h =>
    let h := h.updateScope Heap.topScope fun s =>
      (Statement.lexicalNames body).foldl (fun s (name, isMutable) =>
        s.declare ⟨name, none, isMutable⟩) s
    (Statement.varNamesOf body).foldl (fun h name =>
      h.update h.realm.globals fun o =>
        if (o.property? name).isSome then o
        else o.put { name, content := .data .undefined, isFixed := true }) h
  (Statement.functions body).forM fun (name, code) => do
    let f ← newClosure { scope := Heap.topScope } code
    changeHeap fun h => h.update h.realm.globals fun o =>
      o.put { name, content := .data f, isFixed := true }

/-- Runs a script and gives the value of its last statement that has one. -/
def runScript (text : String) : Run Value := do
  match parse? text with
  | none => fail .syntaxError "invalid script"
  | some body => do
    poll
    match redeclared? (← heap) body with
    | some name => fail .syntaxError s!"redeclaration of '{name}'"
    | none => do
      declareScript body
      modify fun m => { m with last := .undefined }
      let this := Value.object (← heap).realm.globals
      let frame : Frame := { scope := Heap.topScope, this, isScript := true }
      let _ ← runAll (evaluator fuel) frame body
      return (← get).last

end Scripting.Js.Run

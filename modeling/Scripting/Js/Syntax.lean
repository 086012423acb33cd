/-
The syntax of scripts.
-/
import Scripting.Js.Number
import Scripting.Text.Units

namespace Scripting.Js

inductive UnaryOp where
  | minus | plus | not | typeOf | void
  deriving DecidableEq

inductive BinaryOp where
  | add | sub | mul | div | rem
  | less | lessEqual | greater | greaterEqual
  | equal | unequal | strictEqual | strictUnequal
  | instanceOf | inside
  deriving DecidableEq

inductive LogicalOp where
  | and | or
  deriving DecidableEq

/-- How a name is declared. -/
inductive Declaration where
  /-- For the whole function. -/
  | var
  /-- For a block. -/
  | lexical (mutable : Bool)
  deriving DecidableEq

mutual

inductive Expr where
  | number (n : Number)
  | string (s : String)
  /-- A text in which half of a character stands alone. -/
  | broken (t : Text.Broken)
  | bool (b : Bool)
  | null
  | this
  | name (s : String)
  /-- Items, some of them left out. -/
  | array (items : List (Option Expr))
  | object (members : List Member)
  | function (code : FunctionCode)
  | unary (op : UnaryOp) (e : Expr)
  | binary (op : BinaryOp) (a b : Expr)
  | logical (op : LogicalOp) (a b : Expr)
  | conditional (test a b : Expr)
  /-- Assigns, through an operation with the old value perhaps. -/
  | assign (target : Expr) (op : Option BinaryOp) (e : Expr)
  /-- Adds one or takes one away; gives the new value or the old one. -/
  | step (target : Expr) (up giveNew : Bool)
  | member (e : Expr) (name : String)
  | index (e i : Expr)
  | call (f : Expr) (args : List Expr)
  | new (f : Expr) (args : List Expr)
  | delete (e : Expr)
  | sequence (a b : Expr)

inductive Member where
  | value (name : Expr) (e : Expr)
  | getter (name : Expr) (code : FunctionCode)

inductive FunctionCode where
  | mk (name : String) (params : List String) (body : List Statement) (isArrow : Bool)

inductive Statement where
  | expr (e : Expr)
  | declare (d : Declaration) (items : List (String × Option Expr))
  | function (name : String) (code : FunctionCode)
  | block (body : List Statement)
  | choose (test : Expr) (yes : Statement) (no : Option Statement)
  | loopWhile (test : Expr) (body : Statement)
  | loopUntil (body : Statement) (test : Expr)
  | loopFor (start : Option Statement) (test update : Option Expr) (body : Statement)
  | result (e : Option Expr)
  | throw (e : Expr)
  | attempt (body : List Statement) (handler : Option (Option String × List Statement))
      (last : Option (List Statement))
  | leave
  | next
  | empty

end

instance : Inhabited Expr := ⟨.null⟩
instance : Inhabited Statement := ⟨.empty⟩

namespace FunctionCode

def name : FunctionCode → String
  | .mk n _ _ _ => n

def params : FunctionCode → List String
  | .mk _ ps _ _ => ps

def body : FunctionCode → List Statement
  | .mk _ _ b _ => b

def isArrow : FunctionCode → Bool
  | .mk _ _ _ a => a

end FunctionCode

/-! ## Declared names -/

namespace Statement

/-- The names that a list of statements declares for its own block. -/
def lexicalNames (body : List Statement) : List (String × Bool) :=
  body.flatMap fun
    | .declare (.lexical mutable) items => items.map fun i => (i.1, mutable)
    | _ => []

/-- The functions that a list of statements declares. -/
def functions (body : List Statement) : List (String × FunctionCode) :=
  body.filterMap fun
    | .function name code => some (name, code)
    | _ => none

mutual

/-- The names that a statement declares for the whole function. -/
def varNames : Statement → List String
  | .declare .var items => items.map Prod.fst
  | .block body => varNamesOf body
  | .choose _ yes no => yes.varNames ++ varNamesOfOption no
  | .loopWhile _ body => body.varNames
  | .loopUntil body _ => body.varNames
  | .loopFor start _ _ body => varNamesOfOption start ++ body.varNames
  | .attempt body handler last =>
    varNamesOf body ++ varNamesOfHandler handler ++ varNamesOfLast last
  | _ => []

def varNamesOf : List Statement → List String
  | [] => []
  | s :: rest => s.varNames ++ varNamesOf rest

def varNamesOfOption : Option Statement → List String
  | some s => s.varNames
  | none => []

def varNamesOfHandler : Option (Option String × List Statement) → List String
  | some (_, body) => varNamesOf body
  | none => []

def varNamesOfLast : Option (List Statement) → List String
  | some body => varNamesOf body
  | none => []

end

/-- Whether no name is declared twice where that is not allowed: the names of a block differ from each
other, from its functions if it is no whole body, and from the names declared through it. -/
def isConsistent (isBody : Bool) (body : List Statement) : Bool :=
  let own := (lexicalNames body).map Prod.fst ++
    if isBody then [] else (functions body).map Prod.fst
  let through := varNamesOf body ++ if isBody then (functions body).map Prod.fst else []
  own.Nodup && own.all fun n => !through.contains n

end Statement

end Scripting.Js

import Skein.JsData

/-!
# Filters on the items of the long-term store

`storeItemFilterProblem`, which says why a value is no filter, and `matchesItemFilter`, the
reference of what a filter selects.
-/
namespace Skein

/-- A text of the program. -/
def JsString.ofText (text : String) : JsString := text.toList.map fun c => unitOf c.toNat

/-- `STORE_FILTER_OPERATORS` -/
inductive StoreFilterOperator
  | eq | ne | gt | gte | lt | lte | isIn | notIn
  deriving DecidableEq, Repr

namespace StoreFilterOperator

def all : List StoreFilterOperator := [eq, ne, gt, gte, lt, lte, isIn, notIn]

def name : StoreFilterOperator → JsString
  | eq => .ofText "$eq"
  | ne => .ofText "$ne"
  | gt => .ofText "$gt"
  | gte => .ofText "$gte"
  | lt => .ofText "$lt"
  | lte => .ofText "$lte"
  | isIn => .ofText "$in"
  | notIn => .ofText "$nin"

def ofName? (name : JsString) : Option StoreFilterOperator := all.find? fun op => op.name = name

theorem ofName?_name (op : StoreFilterOperator) : ofName? op.name = some op := by
  cases op <;> decide

/-- `$gt`, `$gte`, `$lt` or `$lte`. -/
def orders : StoreFilterOperator → Bool
  | gt | gte | lt | lte => true
  | eq | ne | isIn | notIn => false

/-- `$in` or `$nin`. -/
def lists : StoreFilterOperator → Bool
  | isIn | notIn => true
  | eq | ne | gt | gte | lt | lte => false

end StoreFilterOperator

open JsData (Fields)

/-- `Object.keys` of a condition; a scalar has none that are asked for. -/
def conditionKeys : JsData → List JsString
  | .object operands => operands.map Prod.fst
  | .array items => (List.range items.length).map fun i => .ofText (Nat.repr i)
  | _ => []

def isStoreFilterOperators (condition : JsData) : Bool :=
  match condition with
  | .object _ | .array _ => (conditionKeys condition).all fun key =>
      (StoreFilterOperator.ofName? key).isSome
  | _ => false

def isStoreFilterScalar : JsData → Bool
  | .null | .bool _ | .number _ | .string _ => true
  | .array _ | .object _ => false

/-- `filter."${key}"` -/
def filterPath (key : JsString) : JsString := .ofText "filter.\"" ++ key ++ .ofText "\""

def supportedOperators : JsString :=
  .ofText "$eq, $ne, $gt, $gte, $lt, $lte, $in, $nin"

def operandProblem (key : JsString) (entry : JsString × JsData) : Option JsString :=
  match StoreFilterOperator.ofName? entry.1 with
  | none => some (filterPath key ++ .ofText " has unknown operator \"" ++ entry.1 ++
      .ofText "\". Supported: " ++ supportedOperators ++ .ofText ".")
  | some op =>
    if op.lists then
      match entry.2 with
      | .array items =>
        if items.all isStoreFilterScalar then none
        else some (filterPath key ++ .ofText "." ++ entry.1 ++ .ofText " must be an array of scalars.")
      | _ => some (filterPath key ++ .ofText "." ++ entry.1 ++ .ofText " must be an array of scalars.")
    else if op.orders then
      match entry.2 with
      | .number .nan => some (filterPath key ++ .ofText "." ++ entry.1 ++ .ofText " must be a number.")
      | .number _ => none
      | _ => some (filterPath key ++ .ofText "." ++ entry.1 ++ .ofText " must be a number.")
    else if isStoreFilterScalar entry.2 then none
    else some (filterPath key ++ .ofText "." ++ entry.1 ++ .ofText " must be a scalar.")

def conditionProblem (entry : JsString × JsData) : Option JsString :=
  if isStoreFilterScalar entry.2 then none
  else
    let problem := filterPath entry.1 ++
      .ofText " must be a scalar or an operator object; use $in for membership."
    match entry.2 with
    | .object operands =>
      if operands ≠ [] ∧ operands.all (fun operand => operand.1.head? ≠ some 36) then some problem
      else operands.findSome? (operandProblem entry.1)
    | _ => some problem

/-- Why a value is not a usable store filter. -/
def storeItemFilterProblem : JsData → Option JsString
  | .object entries => entries.findSome? conditionProblem
  | _ => some (.ofText "filter must be an object keyed by the item value's top-level fields.")

def compareNumbers (actual : Option JsData) (operand : JsData) (holds : JsNumber → JsNumber → Bool) :
    Bool :=
  match actual, operand with
  | some (.number left), .number right => left ≠ .nan && right ≠ .nan && holds left right
  | _, _ => false

def matchesOperator (actual : Option JsData) (operand : JsData) : StoreFilterOperator → Bool
  | .eq => JsData.strictEquals actual operand
  | .ne => !JsData.strictEquals actual operand
  | .gt => compareNumbers actual operand fun left right => right.lt left
  | .gte => compareNumbers actual operand fun left right => right.le left
  | .lt => compareNumbers actual operand fun left right => left.lt right
  | .lte => compareNumbers actual operand fun left right => left.le right
  | .isIn =>
    match operand with
    | .array items => JsData.includes items actual
    | _ => false
  | .notIn =>
    match operand with
    | .array items => !JsData.includes items actual
    | _ => false

def matchesCondition (actual : Option JsData) (condition : JsData) : Bool :=
  if isStoreFilterOperators condition then
    match condition with
    | .object operands => operands.all fun entry =>
        (StoreFilterOperator.ofName? entry.1).any (matchesOperator actual entry.2)
    | _ => true
  else JsData.strictEquals actual condition

/-- Does a value satisfy a filter? An absent one is satisfied. -/
def matchesItemFilter (value : Fields) (filter : Option Fields) : Bool :=
  filter.all fun entries => entries.all fun entry =>
    matchesCondition (JsData.get? value entry.1) entry.2

end Skein

import Skein.ItemFilter
import Skein.Jsonb
import Skein.NamespaceMatch

/-!
# Store filters as SQL

`itemFilterSql` turns a filter into predicates over numbered parameters. Evaluated on the row
that holds an item's value, they come to what `matchesItemFilter` answers on the value itself.
-/
namespace Skein
open JsData (Fields)

/-- A bound parameter: a text, an array of texts, or `JSON.stringify` of a value. -/
inductive SqlParam
  | text (s : JsString)
  | texts (path : Namespace)
  | json (v : JsData)

inductive NumericOperator
  | gt | gte | lt | lte

/-- The fragments of the WHERE clause; `key` and `bound` are the `n` of a `$n`. -/
inductive SqlPredicate
  | never
  | notDistinct (key bound : ℕ)
  | distinct (key bound : ℕ)
  | numericCompare (key : ℕ) (op : NumericOperator) (bound : ℕ)
  | jsonbMember (key bound : ℕ)
  | notJsonbMember (key bound : ℕ)

def operatorSql (at_ bound : ℕ) : StoreFilterOperator → SqlPredicate
  | .eq => .notDistinct at_ bound
  | .ne => .distinct at_ bound
  | .gt => .numericCompare at_ .gt bound
  | .gte => .numericCompare at_ .gte bound
  | .lt => .numericCompare at_ .lt bound
  | .lte => .numericCompare at_ .lte bound
  | .isIn => .jsonbMember at_ bound
  | .notIn => .notJsonbMember at_ bound

/-- `condition[operator]` -/
def operandOf : JsData → StoreFilterOperator → JsData
  | .object operands, operator => (JsData.get? operands operator.name).getD .null
  | _, _ => .null

/-- The loop over the operators that a condition has. -/
def operatorsSql (at_ : ℕ) (condition : JsData) :
    List StoreFilterOperator → List SqlParam → List SqlPredicate × List SqlParam
  | [], params => ([], params)
  | operator :: rest, params =>
    let bound := params ++ [.json (operandOf condition operator)]
    let later := operatorsSql at_ condition rest bound
    (operatorSql at_ bound.length operator :: later.1, later.2)

/-- `operator in condition` -/
def hasOperator (condition : JsData) (operator : StoreFilterOperator) : Bool :=
  (conditionKeys condition).contains operator.name

/-- The body of the loop: one key and its condition. -/
def conditionSql (key : JsString) (condition : JsData) (params : List SqlParam) :
    List SqlPredicate × List SqlParam :=
  if !isStoreFilterOperators condition then
    match condition with
    | .array _ | .object _ => ([.never], params)
    | _ =>
      let bound := params ++ [.text key, .json condition]
      ([.notDistinct (bound.length - 1) bound.length], bound)
  else
    let operators := StoreFilterOperator.all.filter (hasOperator condition)
    -- The key is bound only once something refers to it.
    if operators = [] then ([], params)
    else
      let keyed := params ++ [.text key]
      operatorsSql keyed.length condition operators keyed

def itemFilterSql : Fields → List SqlParam → List SqlPredicate × List SqlParam
  | [], params => ([], params)
  | (key, condition) :: rest, params =>
    let own := conditionSql key condition params
    let later := itemFilterSql rest own.2
    (own.1 ++ later.1, later.2)

namespace SqlParam

/-- `$n::text`, for the parameters that are bound as texts. -/
def toText : SqlParam → Option JsString
  | text s => if s.isStorable then some s else none
  | _ => none

/-- `$n::text[]`, for the parameters that are bound as arrays. -/
def toTexts : SqlParam → Option Namespace
  | texts path => if path.all JsString.isStorable then some path else none
  | _ => none

/-- `$n::jsonb`, for the parameters that are bound as JSON. -/
def toJsonb : SqlParam → Option Jsonb
  | json v => v.toJsonb
  | _ => none

/-- `$n::numeric` -/
def toNumeric : SqlParam → Option ℚ
  | json (.number (.finite x)) => numericValue? (numberText x)
  | _ => none

end SqlParam

def NumericOperator.holds : NumericOperator → ℚ → ℚ → Bool
  | gt, a, b => b < a
  | gte, a, b => b ≤ a
  | lt, a, b => a < b
  | lte, a, b => a ≤ b

/-- `$n` -/
def param? (params : List SqlParam) (n : ℕ) : Option SqlParam := params[n - 1]?

/-- A predicate on the row whose `value` is the `jsonb`; `none` is an error. None of them is ever
NULL: a comparison with NULL is made by `IS [NOT] DISTINCT FROM`, and `CASE` asks for a number. -/
def SqlPredicate.eval (params : List SqlParam) (value : Jsonb) : SqlPredicate → Option Bool
  | never => some false
  | notDistinct key bound => do
    let key ← (param? params key).bind SqlParam.toText
    let operand ← (param? params bound).bind SqlParam.toJsonb
    return Jsonb.notDistinct (value.get? key) (some operand)
  | distinct key bound => do
    let key ← (param? params key).bind SqlParam.toText
    let operand ← (param? params bound).bind SqlParam.toJsonb
    return !Jsonb.notDistinct (value.get? key) (some operand)
  | numericCompare key op bound => do
    let key ← (param? params key).bind SqlParam.toText
    let operand ← (param? params bound).bind SqlParam.toNumeric
    return (Jsonb.number? (value.get? key)).any fun actual => op.holds actual operand
  | jsonbMember key bound => do
    let key ← (param? params key).bind SqlParam.toText
    let operand ← (param? params bound).bind SqlParam.toJsonb
    let candidates ← operand.elements?
    return candidates.any fun candidate => Jsonb.notDistinct (some candidate) (value.get? key)
  | notJsonbMember key bound => do
    let key ← (param? params key).bind SqlParam.toText
    let operand ← (param? params bound).bind SqlParam.toJsonb
    let candidates ← operand.elements?
    return !candidates.any fun candidate => Jsonb.notDistinct (some candidate) (value.get? key)

/-- The conjunction of the predicates; an error in any of them is one of the statement. -/
def evalAll (params : List SqlParam) (value : Jsonb) (predicates : List SqlPredicate) : Option Bool :=
  (predicates.mapM (SqlPredicate.eval params value)).map fun results => results.all id

/-- A scalar whose JSON the database reads back as it is: a text that it can store, a number
that JSON has. -/
def isBindableScalar : JsData → Bool
  | .null | .bool _ => true
  | .number n => n.isFinite
  | .string s => s.isStorable
  | .array _ | .object _ => false

def isBindableOperand : JsData → Bool
  | .array items => items.all isBindableScalar
  | v => isBindableScalar v

/-- An object of JavaScript has each key once. -/
def isBindableCondition : JsData → Bool
  | .object operands => decide (operands.map Prod.fst).Nodup &&
      operands.all fun operand => isBindableOperand operand.2
  | v => isBindableScalar v

def isBindable (filter : Fields) : Bool :=
  filter.all fun entry => entry.1.isStorable && isBindableCondition entry.2

theorem isFiniteScalar_of_isBindableScalar {v : JsData} (h : isBindableScalar v = true) :
    v.isFiniteScalar = true := by
  cases v <;> simp_all [isBindableScalar, JsData.isFiniteScalar]

theorem exists_toJsonb_of_isBindableScalar {v : JsData} (h : isBindableScalar v = true) :
    ∃ b, v.toJsonb = some b := by
  cases v <;> simp_all [isBindableScalar, JsData.toJsonb]

theorem exists_itemsToJsonb {items : List JsData} (h : items.all isBindableScalar = true) :
    ∃ candidates, JsData.itemsToJsonb items = some candidates := by
  induction items with
  | nil => exact ⟨[], rfl⟩
  | cons item items ih =>
    simp only [List.all_cons, Bool.and_eq_true] at h
    obtain ⟨b, hb⟩ := exists_toJsonb_of_isBindableScalar h.1
    obtain ⟨candidates, hrest⟩ := ih h.2
    exact ⟨b :: candidates, by simp [JsData.itemsToJsonb, hb, hrest]⟩

theorem le_finite (x y : Binary64) :
    (JsNumber.finite x).le (.finite y) = decide (x.value ≤ y.value) := by
  simp [JsNumber.le, JsNumber.lt, JsNumber.same, le_iff_lt_or_eq]

theorem toNumeric_finite (x : Binary64) :
    SqlParam.toNumeric (.json (.number (.finite x))) = some x.decimal := by
  obtain ⟨q, hq, -⟩ := numericValue?_numberText x
  simp [SqlParam.toNumeric, Binary64.decimal, hq]

theorem param?_append {params : List SqlParam} (more : List SqlParam) {n : ℕ} {p : SqlParam}
    (h : param? params n = some p) : param? (params ++ more) n = some p := by
  obtain ⟨hlt, -⟩ := List.getElem?_eq_some_iff.mp h
  rw [param?, List.getElem?_append_left hlt]
  exact h

theorem param?_last (params : List SqlParam) (p : SqlParam) :
    param? (params ++ [p]) (params ++ [p]).length = some p := by
  simp [param?]

theorem evalAll_nil (params : List SqlParam) (row : Jsonb) : evalAll params row [] = some true := by
  simp [evalAll]

theorem evalAll_cons (params : List SqlParam) (row : Jsonb) (p : SqlPredicate)
    (rest : List SqlPredicate) :
    evalAll params row (p :: rest) =
      (p.eval params row).bind fun x => (evalAll params row rest).map (x && ·) := by
  simp only [evalAll, List.mapM_cons]
  cases p.eval params row <;> cases rest.mapM (SqlPredicate.eval params row) <;> simp

theorem evalAll_append (params : List SqlParam) (row : Jsonb) (a b : List SqlPredicate) :
    evalAll params row (a ++ b) =
      (evalAll params row a).bind fun x => (evalAll params row b).map (x && ·) := by
  simp only [evalAll, List.mapM_append]
  cases a.mapM (SqlPredicate.eval params row) <;> cases b.mapM (SqlPredicate.eval params row) <;>
    simp

/-- A row of the table and the value that it holds. -/
structure RowOf (value : Fields) (row : Jsonb) : Prop where
  stored : (JsData.object value).toJsonb = some row
  keys : (value.map Prod.fst).Nodup
  finite : ∀ entry ∈ value, entry.2.isFiniteEntry = true

section row
variable {value : Fields} {row : Jsonb} (hrow : RowOf value row)
include hrow

theorem RowOf.exists_fields :
    ∃ fields, JsData.fieldsToJsonb value = some fields ∧ row = .object fields := by
  have hstored := hrow.stored
  simp only [JsData.toJsonb, Option.map_eq_some_iff] at hstored
  obtain ⟨fields, hfields, hrow⟩ := hstored
  exact ⟨fields, hfields, hrow.symm⟩

/-- `value -> key` is what the object has under the key. -/
theorem RowOf.get?_eq (key : JsString) :
    row.get? key = (JsData.get? value key).bind JsData.toJsonb := by
  obtain ⟨fields, hfields, rfl⟩ := hrow.exists_fields
  exact JsData.lookup_fieldsToJsonb hrow.keys hfields key

theorem RowOf.finite_get? {key : JsString} {v : JsData} (h : JsData.get? value key = some v) :
    v.isFiniteEntry = true := by
  obtain ⟨before, after, hvalue, -⟩ := List.lookup_eq_some_iff.mp h
  exact hrow.finite (key, v) (by simp [hvalue])

theorem RowOf.notDistinct_eq (key : JsString) {operand : JsData} {b : Jsonb}
    (hb : operand.toJsonb = some b) (hoperand : operand.isFiniteScalar = true) :
    Jsonb.notDistinct (row.get? key) (some b) =
      JsData.strictEquals (JsData.get? value key) operand := by
  rw [hrow.get?_eq]
  cases hget : JsData.get? value key with
  | none => simp [Jsonb.notDistinct, JsData.strictEquals]
  | some v =>
    obtain ⟨fields, hfields, -⟩ := hrow.exists_fields
    obtain ⟨a, ha⟩ := JsData.isSome_toJsonb_get? hfields hget
    simp only [Option.bind_some, ha, Jsonb.notDistinct, JsData.strictEquals, Option.any_some]
    exact JsData.same_toJsonb ha hb (hrow.finite_get? hget) hoperand

variable {params : List SqlParam} {at_ bound : ℕ} {key : JsString} {operand : JsData}

theorem RowOf.any_eq (key : JsString) {items : List JsData} {candidates : List Jsonb}
    (hcandidates : JsData.itemsToJsonb items = some candidates)
    (hitems : items.all isBindableScalar = true) :
    candidates.any (fun candidate => Jsonb.notDistinct (some candidate) (row.get? key)) =
      JsData.includes items (JsData.get? value key) := by
  induction items generalizing candidates with
  | nil =>
    obtain rfl := Option.some.inj hcandidates
    simp [JsData.includes]
  | cons item items ih =>
    simp only [JsData.itemsToJsonb, Option.bind_eq_some_iff, Option.map_eq_some_iff] at hcandidates
    obtain ⟨b, hb, rest, hrest, rfl⟩ := hcandidates
    simp only [List.all_cons, Bool.and_eq_true] at hitems
    have hfinite := isFiniteScalar_of_isBindableScalar hitems.1
    have hhead := hrow.notDistinct_eq key hb hfinite
    have htail := ih hrest hitems.2
    have hcomm : Jsonb.notDistinct (some b) (row.get? key) =
        Jsonb.notDistinct (row.get? key) (some b) := by
      cases row.get? key with
      | none => simp [Jsonb.notDistinct]
      | some a => exact JsData.same_comm hb hfinite a
    have hnan : ∀ n, item = .number n → n ≠ .nan := by
      intro n hn hnan
      simp [hn, hnan, JsData.isFiniteScalar, JsNumber.isFinite] at hfinite
    simp only [List.any_cons, htail, hcomm, hhead, JsData.includes]
    congr 1
    split
    · exact absurd rfl (hnan _ rfl)
    · simp

/-- A comparison of the decimals is the comparison of the numbers. -/
theorem RowOf.compare_eq (key : JsString) {x : Binary64} {holds : ℚ → ℚ → Bool}
    {asked : JsNumber → JsNumber → Bool}
    (h : ∀ y : Binary64, holds y.decimal x.decimal = asked (.finite y) (.finite x)) :
    (Jsonb.number? (row.get? key)).any (fun actual => holds actual x.decimal) =
      compareNumbers (JsData.get? value key) (.number (.finite x)) asked := by
  rw [hrow.get?_eq]
  cases hget : JsData.get? value key with
  | none => simp [Jsonb.number?, compareNumbers]
  | some v =>
    have hfinite := hrow.finite_get? hget
    cases v with
    | number n =>
      cases n <;> simp only [JsData.isFiniteEntry, JsNumber.isFinite, Bool.false_eq_true] at hfinite
      simp [JsData.toJsonb, JsNumber.toJsonb, Jsonb.number?, compareNumbers, h]
    | string s =>
      simp only [Option.bind_some, JsData.toJsonb]
      split <;> simp [Jsonb.number?, compareNumbers]
    | array items =>
      simp only [Option.bind_some, JsData.toJsonb]
      cases JsData.itemsToJsonb items <;> simp [Jsonb.number?, compareNumbers]
    | object fields =>
      simp only [Option.bind_some, JsData.toJsonb]
      cases JsData.fieldsToJsonb fields <;> simp [Jsonb.number?, compareNumbers]
    | _ => simp [JsData.toJsonb, Jsonb.number?, compareNumbers]

/-- The predicate of one operator is what the operator asks. -/
theorem RowOf.eval_operator (hkey : param? params at_ = some (.text key))
    (hstorable : key.isStorable = true) (hbound : param? params bound = some (.json operand))
    (hoperand : isBindableOperand operand = true) {op : StoreFilterOperator}
    (haccepted : operandProblem key (op.name, operand) = none) :
    (operatorSql at_ bound op).eval params row =
      some (matchesOperator (JsData.get? value key) operand op) := by
  have htext : (param? params at_).bind SqlParam.toText = some key := by
    simp [hkey, SqlParam.toText, hstorable]
  have hjson : (param? params bound).bind SqlParam.toJsonb = operand.toJsonb := by
    simp [hbound, SqlParam.toJsonb]
  have hnumeric : (param? params bound).bind SqlParam.toNumeric =
      SqlParam.toNumeric (.json operand) := by simp [hbound]
  simp only [operandProblem, StoreFilterOperator.ofName?_name] at haccepted
  cases op <;> simp only [StoreFilterOperator.lists, StoreFilterOperator.orders, Bool.false_eq_true,
    ↓reduceIte, operatorSql, SqlPredicate.eval, htext, hjson, hnumeric, Option.bind_eq_bind,
    Option.bind_some, matchesOperator] at haccepted ⊢
  case eq | ne =>
    have hscalar : isBindableScalar operand = true := by
      cases operand <;> simp_all [isStoreFilterScalar, isBindableOperand]
    obtain ⟨b, hb⟩ := exists_toJsonb_of_isBindableScalar hscalar
    simp [hb, hrow.notDistinct_eq key hb (isFiniteScalar_of_isBindableScalar hscalar)]
  case gt | gte | lt | lte =>
    obtain ⟨x, rfl⟩ : ∃ x, operand = .number (.finite x) := by
      cases operand with
      | number n => cases n <;> simp_all [isBindableOperand, isBindableScalar, JsNumber.isFinite]
      | _ => simp at haccepted
    rw [toNumeric_finite]
    refine congrArg some (hrow.compare_eq key fun y => ?_)
    simp [NumericOperator.holds, JsNumber.lt, le_finite, Binary64.decimal_lt_iff,
      Binary64.decimal_le_iff]
  case isIn | notIn =>
    obtain ⟨items, rfl⟩ : ∃ items, operand = .array items := by
      cases operand <;> simp_all
    have hitems : items.all isBindableScalar = true := hoperand
    obtain ⟨candidates, hcandidates⟩ := exists_itemsToJsonb hitems
    simp [JsData.toJsonb, hcandidates, Jsonb.elements?, hrow.any_eq key hcandidates hitems]

/-- The operators of one condition, whatever is bound after them. -/
theorem RowOf.eval_operatorsSql {condition : JsData} (hstorable : key.isStorable = true)
    (operators : List StoreFilterOperator)
    (hoperators : ∀ op ∈ operators, isBindableOperand (operandOf condition op) = true ∧
      operandProblem key (op.name, operandOf condition op) = none)
    (hkey : param? params at_ = some (.text key)) :
    ∃ extra, (operatorsSql at_ condition operators params).2 = params ++ extra ∧ ∀ more,
      evalAll (params ++ extra ++ more) row (operatorsSql at_ condition operators params).1 =
        some (operators.all fun op =>
          matchesOperator (JsData.get? value key) (operandOf condition op) op) := by
  induction operators generalizing params with
  | nil => exact ⟨[], by simp [operatorsSql], by simp [operatorsSql, evalAll]⟩
  | cons op rest ih =>
    set bound := params ++ [SqlParam.json (operandOf condition op)]
    have hbound : param? bound bound.length = some (.json (operandOf condition op)) :=
      param?_last params _
    obtain ⟨extra, hextra, hrest⟩ := ih (fun op hop => hoperators op (by simp [hop]))
      (param?_append _ hkey : param? bound at_ = some (.text key))
    obtain ⟨hbindable, haccepted⟩ := hoperators op (by simp)
    refine ⟨.json (operandOf condition op) :: extra, by simp [operatorsSql, hextra],
      fun more => ?_⟩
    have hparams : params ++ SqlParam.json (operandOf condition op) :: extra ++ more =
        bound ++ extra ++ more := by simp [bound]
    have hkey' : param? (bound ++ extra ++ more) at_ = some (.text key) :=
      param?_append more (param?_append extra (param?_append _ hkey))
    have hbound' := param?_append more (param?_append extra hbound)
    have hfirst := hrow.eval_operator hkey' hstorable hbound' hbindable haccepted
    simp only [operatorsSql, evalAll_cons, hparams, List.all_cons]
    rw [hfirst, hrest more]
    simp

end row

theorem isSome_ofName? {key : JsString} {entry : JsString × JsData}
    (h : operandProblem key entry = none) : (StoreFilterOperator.ofName? entry.1).isSome = true := by
  cases hname : StoreFilterOperator.ofName? entry.1 with
  | none => simp [operandProblem, hname] at h
  | some op => simp

/-- An object that is accepted holds operators with operands that fit them. -/
theorem operandProblem_of_accepted {key : JsString} {operands : Fields}
    (h : conditionProblem (key, .object operands) = none) :
    ∀ entry ∈ operands, operandProblem key entry = none := by
  simp only [conditionProblem, isStoreFilterScalar, Bool.false_eq_true, ↓reduceIte] at h
  split at h
  · simp at h
  · exact fun entry hentry => List.findSome?_eq_none_iff.mp h entry hentry

theorem isStoreFilterOperators_of_accepted {key : JsString} {operands : Fields}
    (h : conditionProblem (key, .object operands) = none) :
    isStoreFilterOperators (.object operands) = true := by
  simp only [isStoreFilterOperators, conditionKeys, List.all_map, List.all_eq_true]
  exact fun entry hentry => isSome_ofName? (operandProblem_of_accepted h entry hentry)

theorem get?_of_mem {fields : Fields} (hkeys : (fields.map Prod.fst).Nodup) {key : JsString}
    {v : JsData} (h : (key, v) ∈ fields) : JsData.get? fields key = some v := by
  induction fields with
  | nil => simp at h
  | cons entry rest ih =>
    obtain ⟨k, u⟩ := entry
    simp only [List.map_cons, List.nodup_cons] at hkeys
    obtain heq | hrest := List.mem_cons.mp h
    · obtain ⟨rfl, rfl⟩ := Prod.mk.inj heq
      simp [JsData.get?]
    · have hmem := List.mem_map_of_mem (f := Prod.fst) hrest
      have hne : (key == k) = false := by
        simp only [beq_eq_false_iff_ne]
        rintro rfl
        exact hkeys.1 hmem
      simpa [JsData.get?, List.lookup_cons, hne] using ih hkeys.2 hrest

theorem operandOf_of_mem {operands : Fields} (hkeys : (operands.map Prod.fst).Nodup)
    {op : StoreFilterOperator} {v : JsData} (h : (op.name, v) ∈ operands) :
    operandOf (.object operands) op = v := by
  simp [operandOf, get?_of_mem hkeys h]

/-- An operator that is asked for has an entry, whose value is its operand. -/
theorem exists_mem_of_hasOperator {operands : Fields} (hkeys : (operands.map Prod.fst).Nodup)
    {op : StoreFilterOperator}
    (h : op ∈ StoreFilterOperator.all.filter (hasOperator (.object operands))) :
    ∃ v, (op.name, v) ∈ operands ∧ operandOf (.object operands) op = v := by
  have hhas := (List.mem_filter.mp h).2
  simp only [hasOperator, conditionKeys, List.contains_iff_mem, List.mem_map, Prod.exists,
    exists_and_right, exists_eq_right] at hhas
  obtain ⟨v, hv⟩ := hhas
  exact ⟨v, hv, operandOf_of_mem hkeys hv⟩

/-- The operators asked for are the entries of the condition. -/
theorem all_operators_eq {operands : Fields} (actual : Option JsData)
    (hkeys : (operands.map Prod.fst).Nodup)
    (hnames : ∀ entry ∈ operands, (StoreFilterOperator.ofName? entry.1).isSome = true) :
    (StoreFilterOperator.all.filter (hasOperator (.object operands))).all (fun op =>
        matchesOperator actual (operandOf (.object operands) op) op) =
      operands.all fun entry =>
        (StoreFilterOperator.ofName? entry.1).any (matchesOperator actual entry.2) := by
  rw [Bool.eq_iff_iff, List.all_eq_true, List.all_eq_true]
  constructor
  · intro h entry hentry
    obtain ⟨op, hop⟩ := Option.isSome_iff_exists.mp (hnames entry hentry)
    have hname : op.name = entry.1 := by
      simpa using List.find?_some (show StoreFilterOperator.all.find? _ = some op from hop)
    have hmem : (op.name, entry.2) ∈ operands := by rwa [hname]
    have hall : op ∈ StoreFilterOperator.all := by cases op <;> simp [StoreFilterOperator.all]
    have hasked := h op (List.mem_filter.mpr ⟨hall, by
      simpa [hasOperator, conditionKeys] using ⟨entry.2, hmem⟩⟩)
    rw [operandOf_of_mem hkeys hmem] at hasked
    simpa [hop] using hasked
  · intro h op hop
    obtain ⟨v, hv, hoperand⟩ := exists_mem_of_hasOperator hkeys hop
    have hasked := h (op.name, v) hv
    rw [hoperand]
    simpa [StoreFilterOperator.ofName?_name] using hasked

section statement
variable {value : Fields} {row : Jsonb} (hrow : RowOf value row)
include hrow

theorem RowOf.eval_scalar {key : JsString} {condition : JsData} (hstorable : key.isStorable = true)
    (hscalar : isBindableScalar condition = true) (params more : List SqlParam) :
    evalAll (params ++ [.text key, .json condition] ++ more) row
      [.notDistinct (params.length + 1) (params.length + 2)] =
        some (JsData.strictEquals (JsData.get? value key) condition) := by
  obtain ⟨b, hb⟩ := exists_toJsonb_of_isBindableScalar hscalar
  have hkey : param? (params ++ [.text key, .json condition] ++ more) (params.length + 1) =
      some (.text key) := by simp [param?]
  have hbound : param? (params ++ [.text key, .json condition] ++ more) (params.length + 2) =
      some (.json condition) := by simp [param?]
  have hequal := hrow.notDistinct_eq key hb (isFiniteScalar_of_isBindableScalar hscalar)
  simp only [evalAll_cons, evalAll_nil, SqlPredicate.eval, hkey, hbound]
  simp [SqlParam.toText, SqlParam.toJsonb, hstorable, hb, hequal]

/-- The predicates of one condition, whatever is bound after them. -/
theorem RowOf.eval_conditionSql {key : JsString} {condition : JsData}
    (hstorable : key.isStorable = true) (hbindable : isBindableCondition condition = true)
    (haccepted : conditionProblem (key, condition) = none) (params : List SqlParam) :
    ∃ extra, (conditionSql key condition params).2 = params ++ extra ∧ ∀ more,
      evalAll (params ++ extra ++ more) row (conditionSql key condition params).1 =
        some (matchesCondition (JsData.get? value key) condition) := by
  have hbare : isStoreFilterScalar condition = true → isBindableScalar condition = true := by
    cases condition <;> simp_all [isStoreFilterScalar, isBindableCondition]
  cases condition with
  | array items => simp [conditionProblem, isStoreFilterScalar] at haccepted
  | object operands =>
    simp only [isBindableCondition, Bool.and_eq_true, decide_eq_true_eq, List.all_eq_true]
      at hbindable
    obtain ⟨hkeys, hoperands⟩ := hbindable
    have hproblems := operandProblem_of_accepted haccepted
    have hall := all_operators_eq (JsData.get? value key) hkeys
      fun entry hentry => isSome_ofName? (hproblems entry hentry)
    have hoperators : ∀ op ∈ StoreFilterOperator.all.filter (hasOperator (.object operands)),
        isBindableOperand (operandOf (.object operands) op) = true ∧
          operandProblem key (op.name, operandOf (.object operands) op) = none := by
      intro op hop
      obtain ⟨v, hv, hoperand⟩ := exists_mem_of_hasOperator hkeys hop
      exact hoperand ▸ ⟨hoperands _ hv, hproblems _ hv⟩
    simp only [conditionSql, matchesCondition, isStoreFilterOperators_of_accepted haccepted,
      Bool.not_true, Bool.false_eq_true, ↓reduceIte, ← hall]
    split_ifs with hnone
    · exact ⟨[], by simp, by simp [evalAll, hnone]⟩
    · obtain ⟨extra, hextra, heval⟩ := hrow.eval_operatorsSql hstorable _ hoperators
        (param?_last params (.text key))
      exact ⟨.text key :: extra, hextra.trans (by simp), fun more => by simpa using heval more⟩
  | null | bool b | number n | string s =>
    refine ⟨_, rfl, fun more => ?_⟩
    have hscalar := hrow.eval_scalar hstorable (hbare rfl) params more
    simpa [conditionSql, isStoreFilterOperators, matchesCondition] using hscalar

theorem RowOf.eval_itemFilterSql (entries : Fields)
    (haccepted : ∀ entry ∈ entries, conditionProblem entry = none)
    (hbindable : isBindable entries = true) (params : List SqlParam) :
    ∃ extra, (itemFilterSql entries params).2 = params ++ extra ∧ ∀ more,
      evalAll (params ++ extra ++ more) row (itemFilterSql entries params).1 =
        some (matchesItemFilter value (some entries)) := by
  induction entries generalizing params with
  | nil => exact ⟨[], by simp [itemFilterSql], by simp [itemFilterSql, evalAll, matchesItemFilter]⟩
  | cons entry rest ih =>
    obtain ⟨key, condition⟩ := entry
    simp only [isBindable, List.all_cons, Bool.and_eq_true] at hbindable
    obtain ⟨⟨hstorable, hcondition⟩, hrest⟩ := hbindable
    obtain ⟨own, hown, hfirst⟩ := hrow.eval_conditionSql hstorable hcondition
      (haccepted (key, condition) (by simp)) params
    obtain ⟨extra, hextra, hlater⟩ := ih (fun entry hentry => haccepted entry (by simp [hentry]))
      hrest (conditionSql key condition params).2
    rw [hown] at hextra hlater
    refine ⟨own ++ extra, by simp [itemFilterSql, hown, hextra], fun more => ?_⟩
    have hsplit := hfirst (extra ++ more)
    have hthen := hlater more
    simp only [List.append_assoc] at hsplit hthen ⊢
    simp only [itemFilterSql, hown, evalAll_append, hsplit, hthen]
    simp [matchesItemFilter]

end statement

/-- The pushdown is exact: for every filter that is accepted, the predicates that `itemFilterSql`
emits evaluate without an error, over its own parameters, to what the reference answers. -/
theorem itemFilterSql_exact {value filter : Fields} {row : Jsonb} (hrow : RowOf value row)
    (haccepted : storeItemFilterProblem (.object filter) = none)
    (hbindable : isBindable filter = true) (params : List SqlParam) :
    evalAll (itemFilterSql filter params).2 row (itemFilterSql filter params).1 =
      some (matchesItemFilter value (some filter)) := by
  have hproblems : ∀ entry ∈ filter, conditionProblem entry = none := fun entry hentry =>
    List.findSome?_eq_none_iff.mp haccepted entry hentry
  obtain ⟨extra, hextra, heval⟩ := hrow.eval_itemFilterSql filter hproblems hbindable params
  rw [hextra]
  simpa using heval []

theorem abs_one_le_two_pow : |(1 : ℤ)| ≤ 2 ^ 53 := by decide

/-- `{ "n": 1, "s": "a" }` -/
def sampleValue : Fields :=
  [([110], .number (.finite (.ofInt 1 abs_one_le_two_pow))), ([115], .string [97])]

/-- `{ "n": { "$gt": 0, "$in": [null, 1] }, "s": "a" }` -/
def sampleFilter : Fields :=
  [([110], .object [(StoreFilterOperator.gt.name, .number (.finite .zero)),
    (StoreFilterOperator.isIn.name,
      .array [.null, .number (.finite (.ofInt 1 abs_one_le_two_pow))])]), ([115], .string [97])]

theorem rowOf_sampleValue : ∃ row, RowOf sampleValue row :=
  ⟨_, rfl, by decide, by decide⟩

theorem sampleFilter_pushed : ∃ row, RowOf sampleValue row ∧
    evalAll (itemFilterSql sampleFilter []).2 row (itemFilterSql sampleFilter []).1 = some true := by
  obtain ⟨row, hrow⟩ := rowOf_sampleValue
  have hmatches : matchesItemFilter sampleValue (some sampleFilter) = true := by decide +kernel
  exact ⟨row, hrow, hmatches ▸ itemFilterSql_exact hrow (by decide +kernel) (by decide +kernel) []⟩

end Skein

import Skein.Binary64
import Skein.JsStrings

/-!
# Data as JavaScript holds it

What `JSON.parse` returns, a number that has become an infinity included, and `===` on it.
-/
namespace Skein

/-- A number; the two zeros are one. -/
inductive JsNumber
  | finite (x : Binary64)
  | infinity (negative : Bool)
  | nan
  deriving DecidableEq

namespace JsNumber

def isFinite : JsNumber → Bool
  | finite _ => true
  | infinity _ | nan => false

/-- `a === b` -/
def same : JsNumber → JsNumber → Bool
  | finite x, finite y => x.value = y.value
  | infinity a, infinity b => a = b
  | _, _ => false

/-- `a < b` -/
def lt : JsNumber → JsNumber → Bool
  | finite x, finite y => x.value < y.value
  | finite _, infinity negative => !negative
  | infinity negative, finite _ => negative
  | infinity a, infinity b => a && !b
  | _, _ => false

/-- `a <= b` -/
def le (a b : JsNumber) : Bool := a.lt b || a.same b

end JsNumber

inductive JsData
  | null
  | bool (b : Bool)
  | number (n : JsNumber)
  | string (s : JsString)
  | array (items : List JsData)
  | object (fields : List (JsString × JsData))

namespace JsData

/-- The fields of an object, in their order. -/
abbrev Fields := List (JsString × JsData)

/-- `a === b` of two values that are no one object. -/
def same : JsData → JsData → Bool
  | null, null => true
  | bool a, bool b => a = b
  | number a, number b => a.same b
  | string a, string b => a = b
  | _, _ => false

/-- `actual === operand`, where `actual` may be absent. -/
def strictEquals (actual : Option JsData) (operand : JsData) : Bool :=
  actual.any fun actual => actual.same operand

/-- `items.includes(actual)`, to which a `NaN` is itself. -/
def includes (items : List JsData) (actual : Option JsData) : Bool :=
  items.any fun item => strictEquals actual item ||
    (match actual, item with
      | some (number .nan), number .nan => true
      | _, _ => false)

/-- `object[key]` -/
def get? (fields : Fields) (key : JsString) : Option JsData := fields.lookup key

end JsData
end Skein

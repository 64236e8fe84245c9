import Skein.Json
import Skein.OrderedMap

/-!
# Members of JSON values

Reading and spreading a value the way JavaScript does, whatever the value is.
-/
namespace Skein

namespace Json

/-- `value[k]` of an object. -/
def member? : Json → String → Option Json
  | obj fields, k => fields.lookup k
  | _, _ => none

/-- What `{ ...value }` holds. -/
def spreadFields : Json → List (String × Json)
  | obj fields => fields
  | arr items => items.zipIdx.map fun item => (toString item.2, item.1)
  | str s => s.toList.zipIdx.map fun item => (toString item.2, str (String.singleton item.1))
  | _ => []

/-- `{ ...value, [k]: v }`. -/
def withMember (value : Json) (k : String) (v : Json) : Json :=
  obj (OrderedMap.setEntry k v value.spreadFields)

def withoutMember (value : Json) (k : String) : Json :=
  obj (value.spreadFields.filter fun field => field.1 ≠ k)

/-- Truthiness; zero is written `0`. -/
def isTruthy : Json → Bool
  | null => false
  | bool b => b
  | num n => n.literal ≠ ['0']
  | str s => s ≠ ""
  | arr _ => true
  | obj _ => true

end Json
end Skein

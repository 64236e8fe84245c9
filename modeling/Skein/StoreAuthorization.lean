import Skein.Fingerprints
import Skein.JsonValues
import Skein.MetadataMatch
import Skein.WireTypes

/-!
# Authorizing store requests

What an `@auth.on.store` callback is shown of a request, what its rewrite makes of the request,
and what the handler then reads. A callback scopes its caller by assigning another namespace or
key to the value it was handed, or by changing the namespace in place: the value is a shallow
copy, so that its arrays and objects are those of the request.
-/
namespace Skein

inductive StoreRoute
  | putStoreItem | getStoreItem | deleteStoreItem | searchStoreItems | listStoreNamespaces
  deriving DecidableEq

/-- A request as its handler meets it; a query parameter that is undefined is left out. -/
structure StoreRequest where
  query : List (String × QueryValue)
  body : Option Json
  params : List (String × String)
  nodup : (params.map Prod.fst).Nodup

/-- What a member of the value can hold once the callback has had it; `typeOf` says what is
neither JSON nor undefined. -/
inductive AuthField
  | undefined
  | json (v : Json)
  | other (typeOf : String)

/-- The item or the namespaces a handler acts on. -/
structure StoreTarget where
  path : Option (List String)
  key : Option String

def textOf? : Json → Option String
  | .str s => some s
  | _ => none

/-- `value` if it is an array of strings. -/
def stringArray : Option Json → Option (List String)
  | some (.arr items) => items.mapM textOf?
  | _ => none

def namespaceFromQuery : Option QueryValue → List String
  | some (.many values) => values
  | some (.one value) => if value ≠ "" then value.splitOn "." else []
  | none => []

def queryValue : Option QueryValue → Option String
  | some (.many values) => values.head?
  | some (.one value) => some value
  | none => none

/-- A body `namespace` as segments; a malformed array reads as absent. -/
def namespacePath : Option Json → Option (List String)
  | some (.str text) => some (namespaceFromQuery (some (.one text)))
  | value => stringArray value

namespace StoreRequest
variable (req : StoreRequest)

/-- `typeof body === "object" && body !== null ? body : {}`, spread. -/
def bodyFields : List (String × Json) :=
  match req.body with
  | some (.obj fields) => fields
  | some (.arr items) => (Json.arr items).spreadFields
  | _ => []

/-- The body of an item request, where an array is none. -/
def itemFields : List (String × Json) :=
  match req.body with
  | some (.obj fields) => fields
  | _ => []

def storeItemNamespace : List String :=
  (namespacePath (req.itemFields.lookup "namespace")).getD
    (namespaceFromQuery (req.query.lookup "namespace"))

def storeItemKey : String :=
  ((req.itemFields.lookup "key").bind textOf?).getD
    ((queryValue (req.query.lookup "key")).getD "")

end StoreRequest

def QueryValue.field : QueryValue → AuthField
  | one value => .json (.str value)
  | many values => .json (.arr (values.map .str))

namespace StoreRequest
variable (req : StoreRequest)

/-- `{ ...req.query, ...body, ...req.params }` -/
def authValue : OrderedMap String AuthField :=
  req.params.foldl (fun value param => value.set param.1 (.json (.str param.2)))
    (req.bodyFields.foldl (fun value field => value.set field.1 (.json field.2))
      (req.query.foldl (fun value param => value.set param.1 param.2.field) ∅))

/-- The namespace the server reads off the request; `none` is `undefined`. -/
def shownPath : StoreRoute → Option (List String)
  | .putStoreItem => stringArray (req.bodyFields.lookup "namespace")
  | .getStoreItem | .deleteStoreItem => some req.storeItemNamespace
  | .searchStoreItems => stringArray (req.bodyFields.lookup "namespace_prefix")
  | .listStoreNamespaces => stringArray (req.bodyFields.lookup "prefix")

def pathField : Option (List String) → AuthField
  | some path => .json (.arr (path.map .str))
  | none => .undefined

def textField : Option String → AuthField
  | some text => .json (.str text)
  | none => .undefined

/-- The key, on a route that addresses an item; elsewhere what the caller sent stays. -/
def shownKey : StoreRoute → AuthField
  | .putStoreItem => textField ((req.bodyFields.lookup "key").bind textOf?)
  | .getStoreItem | .deleteStoreItem => textField (some req.storeItemKey)
  | .searchStoreItems | .listStoreNamespaces => (req.authValue.get? "key").getD .undefined

/-- The value of a store route: the server's own reading comes last. -/
def storeAuthValue (route : StoreRoute) : OrderedMap String AuthField :=
  let value := req.authValue.set "namespace" (pathField (req.shownPath route))
  match route with
  | .putStoreItem | .getStoreItem | .deleteStoreItem => value.set "key" (req.shownKey route)
  | .searchStoreItems | .listStoreNamespaces => value

end StoreRequest

namespace AuthField

/-- `typeof` -/
def typeOf : AuthField → String
  | undefined => "undefined"
  | json (.bool _) => "boolean"
  | json (.num _) => "number"
  | json (.str _) => "string"
  | json _ => "object"
  | other typeOf => typeOf

def path? : AuthField → Option (List String)
  | json v => stringArray (some v)
  | _ => none

def text? : AuthField → Option String
  | json v => textOf? v
  | _ => none

/-- `===`, where neither side is the very object that was handed. -/
def strictEquals : AuthField → AuthField → Bool
  | undefined, undefined => true
  | json a, json b => a.sameScalar b
  | _, _ => false

end AuthField

inductive KeyAfter
  | untouched
  | assigned (v : AuthField)

def KeyAfter.reading (before : AuthField) : KeyAfter → AuthField
  | untouched => before
  | assigned v => v

/-- What a callback makes of the arrays and objects it meets in the value, under the names the
request has them by: an array stays an array and an object an object. A repeated query parameter
is left holding texts. -/
structure InPlace where
  items : String → List Json → List Json
  members : String → List (String × Json) → List (String × Json)
  texts : List String → List String

def InPlace.none : InPlace := ⟨fun _ items => items, fun _ fields => fields, id⟩

def InPlace.leaves (change : InPlace) (name : String) : Json → Json
  | .arr items => .arr (change.items name items)
  | .obj fields => .obj (change.members name fields)
  | v => v

def InPlace.leavesQuery (change : InPlace) : QueryValue → QueryValue
  | .many values => .many (change.texts values)
  | .one value => .one value

/-- What `value.namespace` holds in the end: the array it was handed with, as changed in place,
or what the callback assigned. An array that was made for the value counts as assigned once it
is changed. -/
inductive NamespaceAfter
  | untouched
  | assigned (v : AuthField)

/-- What the callback leaves of the value, and whether the engine returns that value. -/
structure CallbackOutcome where
  returnsHanded : Bool
  inPlace : InPlace
  namespaceAfter : NamespaceAfter
  keyAfter : KeyAfter

/-- `STORE_TARGET_FIELDS` -/
def StoreRoute.namespaceField : StoreRoute → String
  | putStoreItem | getStoreItem | deleteStoreItem => "namespace"
  | searchStoreItems => "namespace_prefix"
  | listStoreNamespaces => "prefix"

def StoreRoute.addressesItem : StoreRoute → Bool
  | putStoreItem | getStoreItem | deleteStoreItem => true
  | searchStoreItems | listStoreNamespaces => false

namespace StoreRequest
variable (req : StoreRequest)

/-- Whether the value has the body's own member under some name. The namespace that an item
request without `PUT` carries in its body is parsed into a new array. -/
def sharesBody (route : StoreRoute) (name : String) : Bool :=
  match route with
  | .putStoreItem =>
    name == "namespace" && (req.shownPath .putStoreItem).isSome ||
      name != "namespace" && name != "key" && !(req.params.map Prod.fst).contains name
  | .getStoreItem | .deleteStoreItem =>
    name != "namespace" && name != "key" && !(req.params.map Prod.fst).contains name
  | .searchStoreItems | .listStoreNamespaces =>
    name == route.namespaceField && (req.shownPath route).isSome ||
      name != "namespace" && !(req.params.map Prod.fst).contains name

/-- Whether `value.namespace` may be an array of the query. -/
def sharesQuery : StoreRoute → Bool
  | .getStoreItem | .deleteStoreItem => (namespacePath (req.itemFields.lookup "namespace")).isNone
  | .putStoreItem | .searchStoreItems | .listStoreNamespaces => false

def memberLeft (route : StoreRoute) (change : InPlace) (name : String) (v : Json) : Json :=
  if req.sharesBody route name then change.leaves name v else v

/-- The request after the callback, before any rewrite. -/
def changedInPlace (route : StoreRoute) (change : InPlace) : StoreRequest where
  query :=
    if req.sharesQuery route then req.query.map fun param =>
      (param.1, if param.1 = "namespace" then change.leavesQuery param.2 else param.2)
    else req.query
  body := match req.body with
    | some (.obj fields) =>
      some (.obj (fields.map fun field => (field.1, req.memberLeft route change field.1 field.2)))
    | some (.arr items) =>
      some (.arr (items.zipIdx.map fun item => req.memberLeft route change (toString item.2) item.1))
    | body => body
  params := req.params
  nodup := req.nodup

/-- What `value.namespace` holds once the callback is done. -/
def namespaceLeft (route : StoreRoute) (outcome : CallbackOutcome) : AuthField :=
  match outcome.namespaceAfter with
  | .assigned v => v
  | .untouched =>
    let after := req.changedInPlace route outcome.inPlace
    match route with
    | .getStoreItem | .deleteStoreItem => .json (.arr (after.storeItemNamespace.map .str))
    | .putStoreItem | .searchStoreItems | .listStoreNamespaces =>
      if (req.shownPath route).isSome then
        ((after.bodyFields.lookup route.namespaceField).map .json).getD .undefined
      else .undefined

end StoreRequest

def rewrittenNamespaceField (after : AuthField) (before : Option (List String)) :
    Except SkeinHttpError (Option (List String)) :=
  match after.path?, after, before with
  | some path, _, before => .ok (if before = some path then none else some path)
  | none, .undefined, none => .ok none
  | none, after, _ => .error ⟨500,
      "An `@auth.on.store` handler rewrote `value.namespace` to something that is not an array of " ++
      "strings (got " ++ after.typeOf ++ "). Assign a `string[]` to scope " ++
      "the caller — e.g. `value.namespace = [user.identity, ...value.namespace.slice(1)]`.",
      some "store_namespace_rewrite_invalid"⟩

def rewrittenKeyField (after : KeyAfter) (before : AuthField) (addressable : Bool) :
    Except SkeinHttpError (Option String) :=
  match after with
  | .untouched => .ok none
  | .assigned v =>
    if v.strictEquals before then .ok none
    else if !addressable then .error ⟨500,
      "An `@auth.on.store` handler rewrote `value.key` on a route that addresses no single item " ++
      "(`store:search` / `store:list_namespaces`), so there is nothing to redirect. Scope those " ++
      "actions with `value.namespace` instead.", some "store_key_rewrite_invalid"⟩
    else match v with
    | .json (.str key) => .ok (some key)
    | v => .error ⟨500,
      "An `@auth.on.store` handler rewrote `value.key` to something that is not a string (got " ++
      v.typeOf ++ "). Assign a `string` to redirect which item " ++
      "the caller addresses, or leave `value.key` alone.", some "store_key_rewrite_invalid"⟩

namespace StoreRequest
variable (req : StoreRequest)

/-- Written into the body fields the endpoint reads, whatever the caller used. -/
def withStoreTarget (route : StoreRoute) (path : Option (List String)) (key : Option String) :
    StoreRequest :=
  let named := path.elim req.bodyFields fun path =>
    OrderedMap.setEntry route.namespaceField (.arr (path.map .str)) req.bodyFields
  { req with body := some (.obj (key.elim named fun key =>
    if route.addressesItem then OrderedMap.setEntry "key" (.str key) named else named)) }

/-- The request once the callback has had its value: `rewrittenStoreTarget` and what
`createAuthorizingHandlers` does with it. -/
def scopedRequest (route : StoreRoute) (outcome : CallbackOutcome) :
    Except SkeinHttpError StoreRequest :=
  let after := req.changedInPlace route outcome.inPlace
  if !outcome.returnsHanded then .ok after
  else match rewrittenNamespaceField (req.namespaceLeft route outcome) (req.shownPath route) with
  | .error e => .error e
  | .ok path =>
    match rewrittenKeyField outcome.keyAfter (req.shownKey route) route.addressesItem with
    | .error e => .error e
    | .ok key =>
      .ok (if path.isNone && key.isNone then after else after.withStoreTarget route path key)

end StoreRequest

def badRequest (message : String) : SkeinHttpError := ⟨400, message, none⟩

/-- `requireStoreItemTarget` -/
def StoreRequest.requireStoreItemTarget (req : StoreRequest) : Except SkeinHttpError StoreTarget :=
  if req.storeItemNamespace = [] then
    .error (badRequest ("A store item request must name a namespace: an array of strings in the " ++
      "body, or a dot-separated `namespace` query parameter."))
  else if req.storeItemKey = "" then
    .error (badRequest "A store item request must name a `key`.")
  else .ok ⟨some req.storeItemNamespace, some req.storeItemKey⟩

/-- An optional array of strings of a body that is an object. -/
def optionalPath (fields : List (String × Json)) (field : String) :
    Except SkeinHttpError StoreTarget :=
  match fields.lookup field with
  | none => .ok ⟨none, none⟩
  | some value =>
    match stringArray (some value) with
    | some path => .ok ⟨some path, none⟩
    | none => .error (badRequest "Invalid request body.")

/-- The target the handler hands to the store. `valid` is what the contracts say of the other
fields. -/
def StoreRequest.handlerTarget (valid : StoreRoute → StoreRequest → Bool) (route : StoreRoute)
    (req : StoreRequest) : Except SkeinHttpError StoreTarget :=
  if !valid route req then .error (badRequest "Invalid request body.")
  else match route with
  | .getStoreItem | .deleteStoreItem => req.requireStoreItemTarget
  | .putStoreItem =>
    match stringArray (req.itemFields.lookup "namespace"),
      (req.itemFields.lookup "key").bind textOf? with
    | some (segment :: path), some key =>
      if key = "" then .error (badRequest "Invalid request body.")
      else .ok ⟨some (segment :: path), some key⟩
    | _, _ => .error (badRequest "Invalid request body.")
  | .searchStoreItems | .listStoreNamespaces =>
    match req.body with
    | none | some .null => .ok ⟨none, none⟩
    | some (.obj fields) => optionalPath fields route.namespaceField
    | _ => .error (badRequest "Invalid request body.")

/-- A store request through the authorizing handler. -/
def StoreRequest.authorized (valid : StoreRoute → StoreRequest → Bool) (route : StoreRoute)
    (req : StoreRequest) (outcome : CallbackOutcome) : Except SkeinHttpError StoreTarget :=
  match req.scopedRequest route outcome with
  | .error e => .error e
  | .ok req => req.handlerTarget valid route

@[simp] theorem stringArray_strs (path : List String) :
    stringArray (some (.arr (path.map .str))) = some path := by
  unfold stringArray
  induction path with
  | nil => rfl
  | cons segment rest ih => simp [textOf?, ih]

/-- The indices of an array are no field of a store request. -/
theorem lookup_indices {field : String} (h : ∃ c ∈ field.toList, c.isDigit = false)
    (items : List Json) : (Json.arr items).spreadFields.lookup field = none := by
  obtain ⟨c, hc, hdigit⟩ := h
  rw [List.lookup_eq_none_iff]
  intro entry hentry
  obtain ⟨item, -, rfl⟩ := List.mem_map.mp hentry
  have hne : field ≠ toString item.2 := by
    intro heq
    have hmem : c ∈ Nat.toDigits 10 item.2 := by
      have hrepr : toString item.2 = String.ofList (Nat.toDigits 10 item.2) :=
        Nat.repr_eq_ofList_toDigits
      simpa [heq, hrepr] using hc
    rw [Nat.isDigit_of_mem_toDigits (by decide) (by decide) hmem] at hdigit
    cases hdigit
  simpa using hne

namespace StoreRequest
variable (req : StoreRequest)

theorem bodyFields_lookup (field : String) (h : ∃ c ∈ field.toList, c.isDigit = false) :
    req.bodyFields.lookup field = req.itemFields.lookup field := by
  cases hbody : req.body with
  | none => simp only [bodyFields, itemFields, hbody]
  | some v =>
    cases v with
    | arr items =>
      simp only [bodyFields, itemFields, hbody, lookup_indices h items, List.lookup_nil]
    | _ => simp only [bodyFields, itemFields, hbody]

theorem itemFields_withStoreTarget (route : StoreRoute) (path : Option (List String))
    (key : Option String) (field : String) :
    (req.withStoreTarget route path key).itemFields.lookup field =
      if field = "key" ∧ route.addressesItem = true ∧ key.isSome then key.map .str
      else if field = route.namespaceField ∧ path.isSome then
        path.map fun path => .arr (path.map .str)
      else req.bodyFields.lookup field := by
  cases path <;> cases key <;> cases hroute : route.addressesItem <;>
    simp [withStoreTarget, itemFields, hroute, OrderedMap.lookup_setEntry, eq_comm]

theorem itemNamespace_withStoreTarget {route : StoreRoute} (hitem : route.addressesItem = true)
    (path : Option (List String)) (key : Option String) :
    (req.withStoreTarget route path key).storeItemNamespace = path.getD req.storeItemNamespace := by
  have hfield : route.namespaceField = "namespace" := by cases route <;> simp_all [
    StoreRoute.namespaceField, StoreRoute.addressesItem]
  have hbody := req.bodyFields_lookup "namespace" ⟨'n', by decide, by decide⟩
  unfold storeItemNamespace
  rw [itemFields_withStoreTarget, hfield, hbody]
  cases path with
  | none => simp [withStoreTarget]
  | some path => simp [namespacePath]

theorem itemKey_withStoreTarget {route : StoreRoute} (hitem : route.addressesItem = true)
    (path : Option (List String)) (key : Option String) :
    (req.withStoreTarget route path key).storeItemKey = key.getD req.storeItemKey := by
  have hfield : route.namespaceField = "namespace" := by cases route <;> simp_all [
    StoreRoute.namespaceField, StoreRoute.addressesItem]
  have hbody := req.bodyFields_lookup "key" ⟨'k', by decide, by decide⟩
  unfold storeItemKey
  rw [itemFields_withStoreTarget, hfield, hbody]
  cases key with
  | none => simp [withStoreTarget]
  | some key => simp [hitem, textOf?]

end StoreRequest

/-- The key shown, as text. -/
def StoreRequest.shownKeyText (req : StoreRequest) : StoreRoute → Option String
  | .putStoreItem => (req.bodyFields.lookup "key").bind textOf?
  | .getStoreItem | .deleteStoreItem => some req.storeItemKey
  | .searchStoreItems | .listStoreNamespaces => none

section Handlers
variable {valid : StoreRoute → StoreRequest → Bool} {route : StoreRoute} {req : StoreRequest}
  {target : StoreTarget}

theorem requireStoreItemTarget_ok (h : req.requireStoreItemTarget = .ok target) :
    target = ⟨some req.storeItemNamespace, some req.storeItemKey⟩ := by
  unfold StoreRequest.requireStoreItemTarget at h
  split_ifs at h
  exact (Except.ok.inj h).symm

theorem optionalPath_ok {fields : List (String × Json)} {field : String}
    (h : optionalPath fields field = .ok target) :
    target = ⟨stringArray (fields.lookup field), none⟩ := by
  unfold optionalPath at h
  split at h
  next hfield => simp [← Except.ok.inj h, hfield, stringArray]
  next value hfield =>
    split at h
    next path hpath => simp [← Except.ok.inj h, hfield, hpath]
    · cases h

/-- The fields of a body the handler of a search reads. -/
theorem handlerTarget_search (hitem : route.addressesItem = false)
    (h : req.handlerTarget valid route = .ok target) :
    target = ⟨stringArray (req.itemFields.lookup route.namespaceField), none⟩ := by
  unfold StoreRequest.handlerTarget at h
  split_ifs at h
  cases route with
  | putStoreItem | getStoreItem | deleteStoreItem => cases hitem
  | searchStoreItems | listStoreNamespaces =>
    dsimp only at h
    unfold StoreRequest.itemFields
    split at h
    next hbody => simp [← Except.ok.inj h, hbody, stringArray]
    next hbody => simp [← Except.ok.inj h, hbody, stringArray]
    next fields hbody => rw [hbody, optionalPath_ok h]
    · cases h

theorem handlerTarget_put (h : req.handlerTarget valid .putStoreItem = .ok target) :
    target = ⟨stringArray (req.itemFields.lookup "namespace"),
      (req.itemFields.lookup "key").bind textOf?⟩ ∧ target.key ≠ none := by
  unfold StoreRequest.handlerTarget at h
  split_ifs at h
  dsimp only at h
  split at h
  next segment path key hpath hkey =>
    split_ifs at h
    rw [hpath, hkey, ← Except.ok.inj h]
    exact ⟨rfl, by simp⟩
  · cases h

theorem StoreRoute.shownPath_search {route : StoreRoute} (hitem : route.addressesItem = false)
    (req : StoreRequest) :
    req.shownPath route = stringArray (req.bodyFields.lookup route.namespaceField) := by
  cases route with
  | putStoreItem | getStoreItem | deleteStoreItem => cases hitem
  | searchStoreItems | listStoreNamespaces => rfl

/-- A handler left alone acts on what was shown. -/
theorem handlerTarget_shown (h : req.handlerTarget valid route = .ok target) :
    target.path = req.shownPath route ∧ target.key = req.shownKeyText route := by
  have hnamespace := req.bodyFields_lookup "namespace" ⟨'n', by decide, by decide⟩
  have hkey := req.bodyFields_lookup "key" ⟨'k', by decide, by decide⟩
  cases route with
  | putStoreItem =>
    rw [(handlerTarget_put h).1, ← hnamespace, ← hkey]
    exact ⟨rfl, rfl⟩
  | getStoreItem | deleteStoreItem =>
    simp only [StoreRequest.handlerTarget] at h
    split_ifs at h
    rw [requireStoreItemTarget_ok h]
    exact ⟨rfl, rfl⟩
  | searchStoreItems =>
    rw [handlerTarget_search rfl h, StoreRoute.shownPath_search rfl,
      req.bodyFields_lookup _ ⟨'n', by decide, by decide⟩]
    exact ⟨rfl, rfl⟩
  | listStoreNamespaces =>
    rw [handlerTarget_search rfl h, StoreRoute.shownPath_search rfl,
      req.bodyFields_lookup _ ⟨'p', by decide, by decide⟩]
    exact ⟨rfl, rfl⟩

/-- A handler of a rewritten request acts on the rewrite, and where that says nothing on what
was shown. -/
theorem handlerTarget_rewritten {path : Option (List String)} {key : Option String}
    (hkey : route.addressesItem = false → key = none)
    (h : (req.withStoreTarget route path key).handlerTarget valid route = .ok target) :
    target.path = path.or (req.shownPath route) ∧
      target.key = key.or (req.shownKeyText route) := by
  cases hroute : route.addressesItem with
  | false =>
    rw [handlerTarget_search hroute h, req.itemFields_withStoreTarget,
      StoreRoute.shownPath_search hroute, hkey hroute]
    constructor
    · cases path <;> simp
    · cases route <;> simp_all [StoreRoute.addressesItem, StoreRequest.shownKeyText]
  | true =>
    cases route with
    | putStoreItem =>
      rw [(handlerTarget_put h).1, req.itemFields_withStoreTarget, req.itemFields_withStoreTarget]
      constructor
      · cases path <;> simp [StoreRoute.namespaceField, StoreRequest.shownPath]
      · cases key <;> simp [hroute, textOf?, StoreRoute.namespaceField,
          StoreRequest.shownKeyText]
    | getStoreItem | deleteStoreItem =>
      simp only [StoreRequest.handlerTarget] at h
      split_ifs at h
      rw [requireStoreItemTarget_ok h, req.itemNamespace_withStoreTarget hroute,
        req.itemKey_withStoreTarget hroute]
      constructor
      · cases path <;> simp [StoreRequest.shownPath]
      · cases key <;> simp [StoreRequest.shownKeyText]
    | searchStoreItems | listStoreNamespaces => cases hroute

end Handlers

/-- A namespace is written into the request if it is spelled differently from the one shown. -/
theorem rewrittenNamespaceField_ok {after : AuthField} {before path : Option (List String)}
    (h : rewrittenNamespaceField after before = .ok path) (left : Option (List String)) :
    path.or left = if after.path? = before then left else after.path? := by
  unfold rewrittenNamespaceField at h
  split at h
  next shown hshown =>
    rw [hshown, ← Except.ok.inj h]
    split_ifs with hsame hback hback
    · rfl
    · exact absurd hsame.symm hback
    · exact absurd hback.symm hsame
    · rfl
  next hnone => simp [hnone, ← Except.ok.inj h]
  · cases h

theorem lookup_map_keyed {α β : Type*} (f : String → α → β) (entries : List (String × α))
    (k : String) : (entries.map fun entry => (entry.1, f entry.1 entry.2)).lookup k =
      (entries.lookup k).map (f k) := by
  induction entries with
  | nil => rfl
  | cons entry rest ih =>
    rw [List.map_cons, List.lookup_cons, List.lookup_cons, ih]
    by_cases hkey : k = entry.1
    · simp [hkey]
    · simp [beq_eq_false_iff_ne.mpr hkey]

namespace StoreRequest
variable (req : StoreRequest) (route : StoreRoute) (change : InPlace)

theorem itemFields_changedInPlace (name : String) :
    (req.changedInPlace route change).itemFields.lookup name =
      (req.itemFields.lookup name).map (req.memberLeft route change name) := by
  cases hbody : req.body with
  | none => simp [changedInPlace, itemFields, hbody]
  | some v =>
    cases v with
    | obj fields => simp only [changedInPlace, itemFields, hbody, lookup_map_keyed]
    | _ => simp [changedInPlace, itemFields, hbody]

theorem itemFields_changedInPlace_of_not_shared {name : String}
    (h : req.sharesBody route name = false) :
    (req.changedInPlace route change).itemFields.lookup name = req.itemFields.lookup name := by
  have hleft : req.memberLeft route change name = id := funext fun v => by simp [memberLeft, h]
  rw [itemFields_changedInPlace, hleft, Option.map_id_fun, id]

theorem query_changedInPlace {name : String} (h : name ≠ "namespace") :
    (req.changedInPlace route change).query.lookup name = req.query.lookup name := by
  simp only [changedInPlace]
  split_ifs
  · rw [lookup_map_keyed fun name v => if name = "namespace" then change.leavesQuery v else v]
    simp [h]
  · rfl

/-- The value never has the request's own key on a route that addresses an item. -/
theorem shownKeyText_changedInPlace :
    (req.changedInPlace route change).shownKeyText route = req.shownKeyText route := by
  have hkey := fun req : StoreRequest => req.bodyFields_lookup "key" ⟨'k', by decide, by decide⟩
  have hown : route.addressesItem = true → req.sharesBody route "key" = false := by
    cases route <;> simp [sharesBody, StoreRoute.addressesItem]
  cases route with
  | putStoreItem =>
    simp only [shownKeyText, hkey, itemFields_changedInPlace_of_not_shared _ _ _ (hown rfl)]
  | getStoreItem | deleteStoreItem =>
    simp only [shownKeyText, storeItemKey, itemFields_changedInPlace_of_not_shared _ _ _ (hown rfl),
      req.query_changedInPlace _ change (show "key" ≠ "namespace" by decide)]
  | searchStoreItems | listStoreNamespaces => rfl

/-- Where nothing was assigned, the value's namespace is the one the request has by then. -/
theorem namespaceLeft_untouched {outcome : CallbackOutcome}
    (huntouched : outcome.namespaceAfter = .untouched) (hshown : (req.shownPath route).isSome) :
    (req.namespaceLeft route outcome).path? =
      (req.changedInPlace route outcome.inPlace).shownPath route := by
  have hpath : ∀ v : Option Json, ((v.map AuthField.json).getD .undefined).path? = stringArray v :=
    fun v => by cases v <;> rfl
  cases route with
  | getStoreItem | deleteStoreItem =>
    simp only [namespaceLeft, huntouched, AuthField.path?, stringArray_strs, shownPath]
  | putStoreItem | searchStoreItems | listStoreNamespaces =>
    simp only [namespaceLeft, huntouched, hshown, if_true, hpath]
    rfl

theorem changedInPlace_none : req.changedInPlace route .none = req := by
  have hmember : ∀ name v, req.memberLeft route .none name v = v := fun name v => by
    cases v <;> simp [memberLeft, InPlace.leaves, InPlace.none]
  have hquery : ∀ v, InPlace.none.leavesQuery v = v := fun v => by cases v <;> rfl
  obtain ⟨query, body, params, nodup⟩ := req
  cases body with
  | none => simp [changedInPlace, hquery]
  | some v => cases v <;> simp [changedInPlace, hquery, hmember, List.zipIdx_map_fst]

end StoreRequest

@[simp] theorem text?_textField (text : Option String) :
    (StoreRequest.textField text).text? = text := by
  cases text <;> rfl

/-- Texts are equal as they are spelled. -/
theorem text?_of_strictEquals {v : AuthField} {text : Option String}
    (h : v.strictEquals (StoreRequest.textField text) = true) : v.text? = text := by
  cases text with
  | none => cases v <;> simp_all [AuthField.strictEquals, StoreRequest.textField, AuthField.text?]
  | some text =>
    cases v with
    | json v => cases v <;> simp_all [AuthField.strictEquals, StoreRequest.textField,
        AuthField.text?, textOf?, Json.sameScalar]
    | _ => simp [AuthField.strictEquals, StoreRequest.textField] at h

theorem rewrittenKeyField_ok {after : KeyAfter} {text key : Option String} {addressable : Bool}
    (h : rewrittenKeyField after (StoreRequest.textField text) addressable = .ok key) :
    key.or text = (after.reading (StoreRequest.textField text)).text? := by
  cases after with
  | untouched => simp [← Except.ok.inj h, KeyAfter.reading]
  | assigned v =>
    simp only [rewrittenKeyField] at h
    split_ifs at h with hsame
    · simp [← Except.ok.inj h, KeyAfter.reading, text?_of_strictEquals hsame]
    · split at h
      · simp [← Except.ok.inj h, KeyAfter.reading, AuthField.text?, textOf?]
      · cases h

theorem rewrittenKeyField_search {after : KeyAfter} {before : AuthField} {key : Option String}
    (h : rewrittenKeyField after before false = .ok key) : key = none := by
  cases after with
  | untouched => exact (Except.ok.inj h).symm
  | assigned v =>
    simp only [rewrittenKeyField, Bool.not_false, if_true] at h
    split_ifs at h
    exact (Except.ok.inj h).symm

theorem StoreRequest.shownKey_item {route : StoreRoute} (hitem : route.addressesItem = true)
    (req : StoreRequest) : req.shownKey route = textField (req.shownKeyText route) := by
  cases route with
  | putStoreItem | getStoreItem | deleteStoreItem => rfl
  | searchStoreItems | listStoreNamespaces => cases hitem

/-- The callback has changed the request's own array while `value.namespace` spells what it was
shown: by another name of that array, or having put another array in its place. -/
def ChangedBehind (route : StoreRoute) (req : StoreRequest) (outcome : CallbackOutcome) : Prop :=
  (req.namespaceLeft route outcome).path? = req.shownPath route ∧
    (req.changedInPlace route outcome.inPlace).shownPath route ≠ req.shownPath route

/-- What the server cannot follow: no array of strings where it read one, a key where no item is
addressed, or a key that is no text. -/
def Misshapen (route : StoreRoute) (req : StoreRequest) (outcome : CallbackOutcome) : Prop :=
  ((req.namespaceLeft route outcome).path? = none ∧
    ¬(req.namespaceLeft route outcome = .undefined ∧ req.shownPath route = none)) ∨
  ∃ v, outcome.keyAfter = .assigned v ∧ v.strictEquals (req.shownKey route) = false ∧
    (route.addressesItem = false ∨ v.text? = none)

theorem rewrittenNamespaceField_error {after : AuthField} {before : Option (List String)}
    (hpath : after.path? = none) (hshape : ¬(after = .undefined ∧ before = none)) :
    ∃ e, rewrittenNamespaceField after before = .error e ∧ e.status = 500 := by
  unfold rewrittenNamespaceField
  split
  next shown hshown => rw [hshown] at hpath; cases hpath
  next => exact absurd ⟨rfl, rfl⟩ hshape
  next => exact ⟨_, rfl, rfl⟩

theorem rewrittenKeyField_error {v before : AuthField} {addressable : Bool}
    (hchanged : v.strictEquals before = false) (hshape : addressable = false ∨ v.text? = none) :
    ∃ e, rewrittenKeyField (.assigned v) before addressable = .error e ∧ e.status = 500 := by
  simp only [rewrittenKeyField, hchanged, Bool.false_eq_true, if_false]
  split_ifs with haddressable
  · exact ⟨_, rfl, rfl⟩
  · split
    next key => simp_all [AuthField.text?, textOf?]
    next => exact ⟨_, rfl, rfl⟩

section Callback
variable {valid : StoreRoute → StoreRequest → Bool} {route : StoreRoute} {req : StoreRequest}
  {outcome : CallbackOutcome}

theorem authorized_ok (hhanded : outcome.returnsHanded = true) {target : StoreTarget}
    (h : req.authorized valid route outcome = .ok target) :
    target.path = (if (req.namespaceLeft route outcome).path? = req.shownPath route then
        (req.changedInPlace route outcome.inPlace).shownPath route
      else (req.namespaceLeft route outcome).path?) ∧
      (route.addressesItem = true →
        target.key = (outcome.keyAfter.reading (req.shownKey route)).text?) := by
  unfold StoreRequest.authorized StoreRequest.scopedRequest at h
  simp only [hhanded, Bool.not_true, Bool.false_eq_true, if_false] at h
  split at h
  · cases h
  next request hrequest =>
    split at hrequest
    · cases hrequest
    next path hpath =>
      split at hrequest
      · cases hrequest
      next key hkey =>
        have htarget : target.path = path.or
              ((req.changedInPlace route outcome.inPlace).shownPath route) ∧
            target.key = key.or (req.shownKeyText route) := by
          rw [← Except.ok.inj hrequest] at h
          rw [← req.shownKeyText_changedInPlace route outcome.inPlace]
          split_ifs at h with hsame
          · simp only [Bool.and_eq_true, Option.isNone_iff_eq_none] at hsame
            simpa [hsame] using handlerTarget_shown h
          · exact handlerTarget_rewritten
              (fun hitem => rewrittenKeyField_search (hitem ▸ hkey)) h
        refine ⟨htarget.1.trans (rewrittenNamespaceField_ok hpath _), fun hitem => ?_⟩
        rw [req.shownKey_item hitem] at hkey ⊢
        exact htarget.2.trans (rewrittenKeyField_ok hkey)

theorem not_changedBehind_of_untouched (huntouched : outcome.namespaceAfter = .untouched)
    (hshown : (req.shownPath route).isSome) : ¬ChangedBehind route req outcome := by
  rintro ⟨hspelled, hchanged⟩
  rw [req.namespaceLeft_untouched route huntouched hshown] at hspelled
  exact hchanged hspelled

theorem authorized_misshapen (hhanded : outcome.returnsHanded = true)
    (h : Misshapen route req outcome) :
    ∃ e, req.authorized valid route outcome = .error e ∧ e.status = 500 := by
  unfold StoreRequest.authorized StoreRequest.scopedRequest
  simp only [hhanded, Bool.not_true, Bool.false_eq_true, if_false]
  cases hpath : rewrittenNamespaceField (req.namespaceLeft route outcome) (req.shownPath route) with
  | error e =>
    refine ⟨e, rfl, ?_⟩
    obtain ⟨hnone, hshape⟩ | ⟨v, hassigned, hchanged, hshape⟩ := h
    · obtain ⟨e', herror, hstatus⟩ := rewrittenNamespaceField_error hnone hshape
      rw [hpath] at herror
      rwa [Except.error.inj herror]
    · unfold rewrittenNamespaceField at hpath
      split at hpath
      · cases hpath
      · cases hpath
      · rw [← Except.error.inj hpath]
  | ok path =>
    obtain ⟨hnone, hshape⟩ | ⟨v, hassigned, hchanged, hshape⟩ := h
    · obtain ⟨e', herror, hstatus⟩ := rewrittenNamespaceField_error hnone hshape
      rw [hpath] at herror
      cases herror
    · obtain ⟨e', herror, hstatus⟩ := rewrittenKeyField_error hchanged hshape
      rw [hassigned]
      simp only [herror]
      exact ⟨e', rfl, hstatus⟩

theorem storeAuthValue_shown {target : StoreTarget}
    (h : req.handlerTarget valid route = .ok target) :
    (req.storeAuthValue route).get? "namespace" = some (StoreRequest.pathField target.path) ∧
      (route.addressesItem = true →
        (req.storeAuthValue route).get? "key" = some (StoreRequest.textField target.key)) := by
  rw [(handlerTarget_shown h).1, (handlerTarget_shown h).2]
  refine ⟨?_, fun hitem => ?_⟩
  · cases route <;> simp [StoreRequest.storeAuthValue, OrderedMap.get?_set]
  · rw [← req.shownKey_item hitem]
    cases route <;> simp_all [StoreRequest.storeAuthValue, StoreRoute.addressesItem]

end Callback

theorem get?_foldl_params (params : List (String × String)) (hnodup : (params.map Prod.fst).Nodup)
    (value : OrderedMap String AuthField) :
    (∀ k, k ∉ params.map Prod.fst → (params.foldl (fun value param =>
      value.set param.1 (.json (.str param.2))) value).get? k = value.get? k) ∧
    ∀ param ∈ params, (params.foldl (fun value param =>
      value.set param.1 (.json (.str param.2))) value).get? param.1 =
        some (.json (.str param.2)) := by
  induction params generalizing value with
  | nil => simp
  | cons first rest ih =>
    rw [List.map_cons, List.nodup_cons] at hnodup
    have hrest := ih hnodup.2 (value.set first.1 (.json (.str first.2)))
    constructor
    · intro k hk
      simp only [List.map_cons, List.mem_cons, not_or] at hk
      rw [List.foldl_cons, hrest.1 k hk.2, OrderedMap.get?_set_of_ne _ _ (Ne.symm hk.1)]
    · intro param hparam
      rw [List.foldl_cons]
      obtain rfl | hmem := List.mem_cons.mp hparam
      · rw [hrest.1 _ hnodup.1, OrderedMap.get?_set_self]
      · exact hrest.2 param hmem

/-- A search with a decoy beside its prefix, which the callback roots at its caller. -/
def decoyRequest : StoreRequest where
  query := []
  body := some (.obj [("namespace", .arr [.str "ann"]), ("namespace_prefix", .arr [.str "bob"])])
  params := []
  nodup := List.nodup_nil

/-- `value.namespace.unshift("ann")`, whatever the engine returns. -/
def rootedOutcome (returnsHanded : Bool) : CallbackOutcome where
  returnsHanded
  inPlace := { InPlace.none with items := fun _ items => .str "ann" :: items }
  namespaceAfter := .untouched
  keyAfter := .untouched

/-- The same change, and another array put in its place that spells what was shown. -/
def maskedOutcome : CallbackOutcome :=
  { rootedOutcome true with namespaceAfter := .assigned (.json (.arr [.str "bob"])) }

end Skein

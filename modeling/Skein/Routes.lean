import Skein.PathPatterns

/-!
# Routes

The route table, the tables that `filterSkeinRoutes` and `graphInvokeRoutes` make, and the
matcher over a table. The paths are turned into regular expressions as they stand: a dot in a
path is the dot of a pattern.
-/
namespace Skein

inductive HttpMethod
  | get | post | put | patch | delete
  deriving DecidableEq, Repr

def HttpMethod.name : HttpMethod → JsString
  | get => .ofAscii "get"
  | post => .ofAscii "post"
  | put => .ofAscii "put"
  | patch => .ofAscii "patch"
  | delete => .ofAscii "delete"

inductive RouteGroup
  | assistants | threads | runs | crons | store | metaGroup | docs | mcp | a2a
  deriving DecidableEq, Repr

structure RouteBinding (HandlerName : Type*) where
  method : HttpMethod
  path : JsString
  handler : HandlerName
  group : Option RouteGroup := none
  foldThreadIdIntoBody : Bool := false
  deriving DecidableEq

/-- The members of `ProtocolHandlers` that the table names. -/
inductive ProtocolHandler
  | getOpenApi | getThreadStorage | handleA2a | handleMcp | searchAssistants | countAssistants
  | createAssistant | getAssistantSchemas | getAssistantGraph | getAssistantSubgraphs
  | listAssistantVersions | setAssistantLatestVersion | getAssistant | updateAssistant
  | deleteAssistant | listThreads | countThreads | pruneThreads | createThread | copyThread
  | getThread | patchThread | deleteThread | getThreadState | updateThreadState
  | getThreadStateAtCheckpoint | getThreadStateAtCheckpointFromBody | getThreadHistory
  | searchCrons | countCrons | createCron | getCron | updateCron | deleteCron | searchRuns
  | createWaitRun | createStreamRun | createRunBatch | cancelManyRuns | createStatelessRun
  | createBackgroundRun | listThreadRuns | cancelRun | joinRunStream | joinRun
  | listRunDeliveries | replayRunDelivery | getRun | deleteRun | postThreadEvents
  | postThreadStream | getThreadStream | postThreadCommands | getServerInfo | putStoreItem
  | getStoreItem | deleteStoreItem | searchStoreItems | listStoreNamespaces
  deriving DecidableEq, Repr

/-- A row of the table. -/
def route (method : HttpMethod) (path : String) (handler : ProtocolHandler) (group : RouteGroup)
    (foldThreadIdIntoBody : Bool := false) : RouteBinding ProtocolHandler where
  method
  path := .ofAscii path
  handler
  group := some group
  foldThreadIdIntoBody

def skeinRoutes : List (RouteBinding ProtocolHandler) := [
  route .get "/openapi.json" .getOpenApi .docs,
  route .get "/threads/:thread_id/storage" .getThreadStorage .threads,
  route .post "/a2a/:assistant_id" .handleA2a .a2a,
  route .get "/.well-known/agent-card.json" .handleA2a .a2a,
  route .post "/mcp" .handleMcp .mcp,
  route .get "/mcp" .handleMcp .mcp,
  route .delete "/mcp" .handleMcp .mcp,
  route .post "/assistants/search" .searchAssistants .assistants,
  route .post "/assistants/count" .countAssistants .assistants,
  route .post "/assistants" .createAssistant .assistants,
  route .get "/assistants/:assistant_id/schemas" .getAssistantSchemas .assistants,
  route .get "/assistants/:assistant_id/graph" .getAssistantGraph .assistants,
  route .get "/assistants/:assistant_id/subgraphs/:namespace" .getAssistantSubgraphs .assistants,
  route .get "/assistants/:assistant_id/subgraphs" .getAssistantSubgraphs .assistants,
  route .post "/assistants/:assistant_id/versions" .listAssistantVersions .assistants,
  route .post "/assistants/:assistant_id/latest" .setAssistantLatestVersion .assistants,
  route .get "/assistants/:assistant_id" .getAssistant .assistants,
  route .patch "/assistants/:assistant_id" .updateAssistant .assistants,
  route .delete "/assistants/:assistant_id" .deleteAssistant .assistants,
  route .post "/threads/search" .listThreads .threads,
  route .post "/threads/count" .countThreads .threads,
  route .post "/threads/prune" .pruneThreads .threads,
  route .post "/threads" .createThread .threads,
  route .post "/threads/:thread_id/copy" .copyThread .threads,
  route .get "/threads/:thread_id" .getThread .threads,
  route .patch "/threads/:thread_id" .patchThread .threads,
  route .delete "/threads/:thread_id" .deleteThread .threads,
  route .get "/threads/:thread_id/state" .getThreadState .threads,
  route .post "/threads/:thread_id/state" .updateThreadState .threads,
  route .get "/threads/:thread_id/state/:checkpoint_id" .getThreadStateAtCheckpoint .threads,
  route .post "/threads/:thread_id/state/checkpoint" .getThreadStateAtCheckpointFromBody .threads,
  route .post "/threads/:thread_id/history" .getThreadHistory .threads,
  route .get "/threads/:thread_id/history" .getThreadHistory .threads,
  route .post "/runs/crons/search" .searchCrons .crons,
  route .post "/runs/crons/count" .countCrons .crons,
  route .post "/runs/crons" .createCron .crons,
  route .get "/runs/crons/:cron_id" .getCron .crons,
  route .patch "/runs/crons/:cron_id" .updateCron .crons,
  route .delete "/runs/crons/:cron_id" .deleteCron .crons,
  route .post "/threads/:thread_id/runs/crons" .createCron .crons true,
  route .post "/runs/search" .searchRuns .runs,
  route .post "/runs/wait" .createWaitRun .runs,
  route .post "/runs/stream" .createStreamRun .runs,
  route .post "/runs/batch" .createRunBatch .runs,
  route .post "/runs/cancel" .cancelManyRuns .runs,
  route .post "/runs" .createStatelessRun .runs,
  route .post "/threads/:thread_id/runs/wait" .createWaitRun .runs true,
  route .post "/threads/:thread_id/runs/stream" .createStreamRun .runs true,
  route .post "/threads/:thread_id/runs" .createBackgroundRun .runs,
  route .get "/threads/:thread_id/runs" .listThreadRuns .runs,
  route .post "/threads/:thread_id/runs/:run_id/cancel" .cancelRun .runs,
  route .get "/threads/:thread_id/runs/:run_id/stream" .joinRunStream .runs,
  route .get "/threads/:thread_id/runs/:run_id/join" .joinRun .runs,
  route .get "/threads/:thread_id/runs/:run_id/deliveries" .listRunDeliveries .runs,
  route .post "/threads/:thread_id/runs/:run_id/deliveries/:delivery_id/replay"
    .replayRunDelivery .runs,
  route .get "/threads/:thread_id/runs/:run_id" .getRun .runs,
  route .delete "/threads/:thread_id/runs/:run_id" .deleteRun .runs,
  route .get "/runs/:run_id/stream" .joinRunStream .runs,
  route .post "/threads/:thread_id/stream/events" .postThreadEvents .runs,
  route .post "/threads/:thread_id/stream" .postThreadStream .runs,
  route .get "/threads/:thread_id/stream" .getThreadStream .runs,
  route .get "/threads/:thread_id/stream/events" .getThreadStream .runs,
  route .post "/threads/:thread_id/commands" .postThreadCommands .runs,
  route .get "/info" .getServerInfo .metaGroup,
  route .put "/store/items" .putStoreItem .store,
  route .get "/store/items" .getStoreItem .store,
  route .delete "/store/items" .deleteStoreItem .store,
  route .post "/store/items/search" .searchStoreItems .store,
  route .post "/store/namespaces" .listStoreNamespaces .store]

/-- `filterSkeinRoutes`; a group that is absent from `disabled` is `false`. -/
def filterSkeinRoutes (bindings : List (RouteBinding ProtocolHandler))
    (disabled : RouteGroup → Bool) : List (RouteBinding ProtocolHandler) :=
  bindings.filter fun binding =>
    match binding.group with
    | none => true
    | some group => !disabled group && !(group = .docs && disabled .metaGroup)

inductive GraphInvokeHandlerName
  | invokeGraph
  deriving DecidableEq, Repr

/-- `normalizePrefix` -/
def normalizePrefix (path : JsString) : JsString :=
  let trimmed := if path.getLast? = some slash then path.dropLast else path
  if trimmed = [slash] then [] else trimmed

def graphInvokeRoutes (path : JsString) : List (RouteBinding GraphInvokeHandlerName) :=
  [{ method := .post
     path := normalizePrefix path ++ .ofAscii "/:graph_id"
     handler := .invokeGraph }]

/-- What an escaped text is made of. -/
inductive UriUnit
  | unit (u : CodeUnit)
  | octet (b : ℕ)

def uriUnits : JsString → Option (List UriUnit)
  | [] => some []
  | 37 :: a :: b :: rest =>
    match JsString.hexValue a, JsString.hexValue b with
    | some high, some low => (uriUnits rest).map (.octet (16 * high + low) :: ·)
    | _, _ => none
  | u :: rest => if u.val = 37 then none else (uriUnits rest).map (.unit u :: ·)

/-- The code units of a code point. -/
def codePointUnits (point : ℕ) : JsString :=
  if point < 0x10000 then [unitOf point]
  else [unitOf (0xD800 + (point - 0x10000) / 0x400), unitOf (0xDC00 + (point - 0x10000) % 0x400)]

/-- The text of the octets in UTF-8. Inside a sequence: how many octets are missing, the code
point so far, and the least that is not overlong. -/
def uriText : Option (ℕ × ℕ × ℕ) → List UriUnit → Option JsString
  | none, [] => some []
  | some _, [] => none
  | none, .unit u :: rest => (uriText none rest).map (u :: ·)
  | some _, .unit _ :: _ => none
  | none, .octet b :: rest =>
    if b < 0x80 then (uriText none rest).map (unitOf b :: ·)
    else if 0xC0 ≤ b ∧ b < 0xE0 then uriText (some (1, b - 0xC0, 0x80)) rest
    else if 0xE0 ≤ b ∧ b < 0xF0 then uriText (some (2, b - 0xE0, 0x800)) rest
    else if 0xF0 ≤ b ∧ b < 0xF8 then uriText (some (3, b - 0xF0, 0x10000)) rest
    else none
  | some (missing, read, least), .octet b :: rest =>
    let point := read * 64 + (b - 0x80)
    if b < 0x80 ∨ 0xC0 ≤ b then none
    else if 1 < missing then uriText (some (missing - 1, point, least)) rest
    else if point < least ∨ 0x110000 ≤ point ∨ (0xD800 ≤ point ∧ point < 0xE000) then none
    else (uriText none rest).map (codePointUnits point ++ ·)

/-- `decodeURIComponent(text)`, which throws where an escape is malformed. -/
def decodeURIComponent (text : JsString) : Option JsString := (uriUnits text).bind (uriText none)

/-- `path.replace(/:(\w+)/g, "(?<$1>[^/]+)")`; after a colon, with the name as far as it is
read. -/
def replaceParams : Option JsString → JsString → JsString
  | none, [] => []
  | some name, [] => if name = [] then [colon] else groupOpen ++ name ++ groupClose
  | none, u :: rest =>
    if u = colon then replaceParams (some []) rest else u :: replaceParams none rest
  | some name, u :: rest =>
    if isWordUnit u then replaceParams (some (name ++ [u])) rest
    else
      (if name = [] then [colon] else groupOpen ++ name ++ groupClose) ++
        (if u = colon then replaceParams (some []) rest else u :: replaceParams none rest)

/-- The pattern of a path, between its anchors. -/
def compilePath (path : JsString) : Option (List PatternTerm) :=
  PatternTerm.compile (94 :: replaceParams none path ++ [36])

/-- `decodeParams`; setting `__proto__` of a plain object to a string does nothing. -/
def decodeParams (groups : PatternTerm.Captures) : List (JsString × JsString) :=
  (groups.filter fun group => group.1 ≠ .ofAscii "__proto__").map fun group =>
    (group.1, (decodeURIComponent group.2).getD group.2)

structure RouteMatch (HandlerName : Type*) where
  binding : RouteBinding HandlerName
  params : List (JsString × JsString)
  deriving DecidableEq

/-- `toLowerCase`, of the letters that a method can have. -/
def toLowerCase (text : JsString) : JsString :=
  text.map fun u => if 65 ≤ u.val ∧ u.val ≤ 90 then unitOf (u.val + 32) else u

abbrev RouteMatcher (HandlerName : Type*) :=
  JsString → JsString → Option (RouteMatch HandlerName)

section
variable {HandlerName : Type*}

def matchRoute (compiled : List (RouteBinding HandlerName × List PatternTerm)) :
    RouteMatcher HandlerName :=
  fun method pathname =>
    compiled.findSome? fun (binding, regex) =>
      if binding.method.name ≠ toLowerCase method then none
      else (PatternTerm.exec regex pathname).map fun groups => ⟨binding, decodeParams groups⟩

/-- `createRouteMatcher`; none where a path makes no pattern. -/
def createRouteMatcher (bindings : List (RouteBinding HandlerName)) :
    Option (RouteMatcher HandlerName) :=
  (bindings.mapM fun binding =>
    (compilePath binding.path).map (Prod.mk binding)).map matchRoute

end
end Skein

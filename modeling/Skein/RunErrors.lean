import Mathlib.Data.List.Basic

/-!
# Describing what was thrown

`toRunError` over a heap of thrown values: any graph of errors linked by `cause` and
`errors`, where reading a property may throw. The walk is cut off past five links, and a
value is expanded once. It guards the reads of `stack`, `cause` and `errors`, but not those
of `name` and `message`, nor the conversion of a value to a string.
-/
namespace Skein

/-- `MAX_CAUSE_DEPTH`. -/
def maxCauseDepth : ℕ := 5

/-- `MAX_AGGREGATED_ERRORS`. -/
def maxAggregatedErrors : ℕ := 10

/-- What can be thrown, and what reading it yields. The outer `none` of a property is a
getter that throws. -/
structure ThrownValues (V : Type*) where
  /-- `thrown instanceof Error`. -/
  isError : V → Bool
  /-- `typeof thrown === "object" && thrown !== null`. -/
  isObject : V → Bool
  /-- `JSON.stringify(thrown)`; `none` where it throws or answers `undefined`. -/
  json : V → Option String
  /-- `String(thrown)`; `none` where it throws. -/
  string : V → Option String
  /-- A value that is no string reads as `some none`; so for the next two. -/
  name : V → Option (Option String)
  message : V → Option (Option String)
  stack : V → Option (Option String)
  /-- `undefined` reads as `some none`. -/
  cause : V → Option (Option V)
  /-- What is no array reads as `some []`. An element is `none` where reading it throws. -/
  errors : V → Option (List (Option V))

/-- A description. An absent list of errors is empty. -/
structure RunError where
  error : String
  name : String
  message : String
  cause : Option RunError := none
  errors : List RunError := []
  stack : Option String := none

namespace RunError

/-- The description of a value that is no error. -/
def plain (message : String) : RunError where
  error := "Error"
  name := "Error"
  message := message

/-- At most `depth` further levels, each with at most ten members, `error` and `name` the
same at every one, and a stack only where it was asked for. -/
def Within (includeStack : Bool) : ℕ → RunError → Prop
  | 0, e => e.error = e.name ∧ (includeStack = false → e.stack = none) ∧ e.cause = none ∧
      e.errors = []
  | depth + 1, e => e.error = e.name ∧ (includeStack = false → e.stack = none) ∧
      (∀ cause ∈ e.cause, Within includeStack depth cause) ∧
      e.errors.length ≤ maxAggregatedErrors ∧
      ∀ member ∈ e.errors, Within includeStack depth member

/-- A level without a cause and without members is within any depth. -/
theorem within_of_bare {includeStack : Bool} {e : RunError} (hname : e.error = e.name)
    (hstack : includeStack = false → e.stack = none) (hcause : e.cause = none)
    (herrors : e.errors = []) (depth : ℕ) : e.Within includeStack depth := by
  cases depth with
  | zero => exact ⟨hname, hstack, hcause, herrors⟩
  | succ depth => exact ⟨hname, hstack, by simp [hcause], by simp [herrors], by simp [herrors]⟩

end RunError

namespace ThrownValues
variable {V : Type*} [DecidableEq V] (values : ThrownValues V)

/-- The message of a value that is no error; `none` where it cannot be stringified. -/
def describeOther (thrown : V) : Option String :=
  let message := if values.isObject thrown then (values.json thrown).getD "" else ""
  if message ≠ "" then some message else values.string thrown

/-- The members `aggregated.slice(0, MAX_AGGREGATED_ERRORS)` reads. -/
def sliced (thrown : V) : List (Option V) :=
  ((values.errors thrown).getD []).take maxAggregatedErrors

/-- `map` over the members, with the values seen so far. -/
def mapSeen {α : Type*} (f : V → List V → Option (α × List V)) :
    List V → List V → Option (List α × List V)
  | [], seen => some ([], seen)
  | v :: rest, seen =>
    (f v seen).bind fun first =>
      (mapSeen f rest first.2).map fun more => (first.1 :: more.1, more.2)

/-- The level of an error itself. -/
def level (includeStack : Bool) (thrown : V) : Option RunError :=
  (values.name thrown).bind fun name => (values.message thrown).map fun message =>
    { error := name.getD "Error"
      name := name.getD "Error"
      message := message.getD ""
      stack := if includeStack then (values.stack thrown).join else none }

/-- `convert`, with the links that may still be followed; `none` where it throws. -/
def convert (includeStack : Bool) : ℕ → V → List V → Option (RunError × List V)
  | 0, thrown, seen =>
    if values.isError thrown then (values.level includeStack thrown).map (·, seen)
    else (values.describeOther thrown).map fun message => (.plain message, seen)
  | depth + 1, thrown, seen =>
    if values.isError thrown then
      (values.level includeStack thrown).bind fun result =>
        if thrown ∈ seen then some (result, seen)
        else
          (mapSeen (convert includeStack depth) (values.cause thrown).join.toList
              (thrown :: seen)).bind fun causes =>
            -- the slice reads its elements before the first is converted
            ((values.sliced thrown).mapM id).bind fun members =>
              (mapSeen (convert includeStack depth) members causes.2).map fun errors =>
                ({ result with cause := causes.1.head?, errors := errors.1 }, errors.2)
    else (values.describeOther thrown).map fun message => (.plain message, seen)

/-- `toRunError`; `none` where it throws. -/
def toRunError (thrown : V) (includeStack : Bool) : Option RunError :=
  (values.convert includeStack maxCauseDepth thrown []).map Prod.fst

/-- A read or a conversion that nothing guards. -/
inductive Touch (V : Type*)
  /-- The name and message of an error, or the text of another value. -/
  | describe (v : V)
  /-- The first elements of its `errors`. -/
  | slice (v : V)
  deriving DecidableEq, Repr

/-- The touch does not throw. -/
def harmless : Touch V → Bool
  | .describe v =>
    if values.isError v then (values.name v).isSome && (values.message v).isSome
    else (values.describeOther v).isSome
  | .slice v => (values.sliced v).all Option.isSome

/-- What the walk touches below several values, one after the other. -/
def touchAll (f : V → List V → List (Touch V) × List V) : List V → List V → List (Touch V) × List V
  | [], seen => ([], seen)
  | v :: rest, seen =>
    let first := f v seen
    let more := touchAll f rest first.2
    (first.1 ++ more.1, more.2)

/-- What the walk touches from `thrown`, and the values seen after it. -/
def touches : ℕ → V → List V → List (Touch V) × List V
  | 0, thrown, seen => ([.describe thrown], seen)
  | depth + 1, thrown, seen =>
    if values.isError thrown = true ∧ thrown ∉ seen then
      let causes := touchAll (touches depth) (values.cause thrown).join.toList (thrown :: seen)
      let members := touchAll (touches depth) ((values.sliced thrown).filterMap id) causes.2
      (.describe thrown :: (causes.1 ++ .slice thrown :: members.1), members.2)
    else ([.describe thrown], seen)

/-- The touches of a conversion decide whether it throws, and the values seen after it. -/
structure Follows (includeStack : Bool) (depth : ℕ) (converted : Option (RunError × List V))
    (touched : List (Touch V) × List V) : Prop where
  isSome_iff : converted.isSome = true ↔ ∀ touch ∈ touched.1, values.harmless touch = true
  seen : ∀ result ∈ converted, result.2 = touched.2
  within : ∀ result ∈ converted, result.1.Within includeStack depth

/-- The same for a list of values. -/
structure FollowsAll (includeStack : Bool) (depth : ℕ) (count : ℕ)
    (converted : Option (List RunError × List V)) (touched : List (Touch V) × List V) : Prop where
  isSome_iff : converted.isSome = true ↔ ∀ touch ∈ touched.1, values.harmless touch = true
  seen : ∀ result ∈ converted, result.2 = touched.2
  within : ∀ result ∈ converted, ∀ e ∈ result.1, e.Within includeStack depth
  length : ∀ result ∈ converted, result.1.length = count

variable {values}

omit [DecidableEq V] in
theorem mapSeen_follows {includeStack : Bool} {depth : ℕ}
    {f : V → List V → Option (RunError × List V)} {g : V → List V → List (Touch V) × List V}
    (hf : ∀ v seen, values.Follows includeStack depth (f v seen) (g v seen)) (vs seen : List V) :
    values.FollowsAll includeStack depth vs.length (mapSeen f vs seen) (touchAll g vs seen) := by
  induction vs generalizing seen with
  | nil => exact ⟨by simp [mapSeen, touchAll], by simp [mapSeen, touchAll], by simp [mapSeen],
      by simp [mapSeen]⟩
  | cons v rest ih =>
    have hfirst := hf v seen
    have hrest := ih (g v seen).2
    simp only [mapSeen, touchAll]
    cases hv : f v seen with
    | none =>
      have hthrows : ¬∀ touch ∈ (g v seen).1, values.harmless touch = true := by
        rw [← hfirst.isSome_iff, hv]
        simp
      refine ⟨?_, by simp, by simp, by simp⟩
      simp only [Option.bind_none, Option.isSome_none, Bool.false_eq_true, false_iff]
      exact fun hall => hthrows fun touch htouch => hall touch (List.mem_append_left _ htouch)
    | some first =>
      have hseen : first.2 = (g v seen).2 := hfirst.seen first hv
      have hharmless := hfirst.isSome_iff.mp (by rw [hv]; rfl)
      simp only [Option.bind_some, hseen]
      refine ⟨?_, ?_, ?_, ?_⟩
      · rw [Option.isSome_map, hrest.isSome_iff]
        constructor
        · intro hall touch htouch
          exact (List.mem_append.mp htouch).elim (hharmless touch) (hall touch)
        · exact fun hall touch htouch => hall touch (List.mem_append_right _ htouch)
      · intro result hresult
        obtain ⟨more, hmore, rfl⟩ := Option.map_eq_some_iff.mp hresult
        exact hrest.seen more hmore
      · intro result hresult e he
        obtain ⟨more, hmore, rfl⟩ := Option.map_eq_some_iff.mp hresult
        rcases List.mem_cons.mp he with rfl | he
        · exact hfirst.within first hv
        · exact hrest.within more hmore e he
      · intro result hresult
        obtain ⟨more, hmore, rfl⟩ := Option.map_eq_some_iff.mp hresult
        simp [hrest.length more hmore]

omit [DecidableEq V] in
/-- The slice is read where every element can be. -/
theorem mapM_id_sliced (elements : List (Option V)) :
    elements.mapM id =
      if elements.all Option.isSome then some (elements.filterMap id) else none := by
  induction elements with
  | nil => rfl
  | cons element rest ih =>
    rw [List.mapM_cons, ih]
    cases element with
    | none => simp
    | some v => by_cases hall : rest.all Option.isSome = true <;> simp [hall]

omit [DecidableEq V] in
theorem level_isSome (includeStack : Bool) (thrown : V) :
    (values.level includeStack thrown).isSome =
      ((values.name thrown).isSome && (values.message thrown).isSome) := by
  unfold level
  cases values.name thrown <;> simp

omit [DecidableEq V] in
theorem level_bare {includeStack : Bool} {thrown : V} {e : RunError}
    (h : values.level includeStack thrown = some e) :
    e.error = e.name ∧ (includeStack = false → e.stack = none) ∧ e.cause = none ∧
      e.errors = [] := by
  obtain ⟨name, -, h⟩ := Option.bind_eq_some_iff.mp h
  obtain ⟨message, -, rfl⟩ := Option.map_eq_some_iff.mp h
  refine ⟨rfl, ?_, rfl, rfl⟩
  rintro rfl
  rfl

omit [DecidableEq V] in
/-- A value that is no error, at any depth. -/
theorem describeOther_follows (includeStack : Bool) (depth : ℕ) {thrown : V}
    (herror : values.isError thrown = false) (seen : List V) :
    values.Follows includeStack depth
      ((values.describeOther thrown).map fun message => (.plain message, seen))
      ([.describe thrown], seen) where
  isSome_iff := by simp [harmless, herror]
  seen := by simp
  within := by
    intro result hresult
    obtain ⟨message, -, rfl⟩ := Option.map_eq_some_iff.mp hresult
    exact RunError.within_of_bare rfl (fun _ => rfl) rfl rfl depth

omit [DecidableEq V] in
/-- An error that is not expanded. -/
theorem level_follows (includeStack : Bool) (depth : ℕ) {thrown : V}
    (herror : values.isError thrown = true) (seen : List V) :
    values.Follows includeStack depth ((values.level includeStack thrown).map (·, seen))
      ([.describe thrown], seen) where
  isSome_iff := by simp [harmless, herror, level_isSome]
  seen := by simp
  within := by
    intro result hresult
    obtain ⟨e, he, rfl⟩ := Option.map_eq_some_iff.mp hresult
    obtain ⟨hname, hstack, hcause, herrors⟩ := level_bare he
    exact RunError.within_of_bare hname hstack hcause herrors depth

/-- An error that is expanded: its own level, its cause, the slice and its members. -/
theorem expanded_follows {includeStack : Bool} {depth : ℕ} {thrown : V}
    (herror : values.isError thrown = true)
    (ih : ∀ v seen, values.Follows includeStack depth (values.convert includeStack depth v seen)
      (values.touches depth v seen)) (seen : List V) :
    let causes := touchAll (values.touches depth) (values.cause thrown).join.toList (thrown :: seen)
    let members := touchAll (values.touches depth) ((values.sliced thrown).filterMap id) causes.2
    values.Follows includeStack (depth + 1)
      ((values.level includeStack thrown).bind fun result =>
        (mapSeen (values.convert includeStack depth) (values.cause thrown).join.toList
            (thrown :: seen)).bind fun causes =>
          ((values.sliced thrown).mapM id).bind fun members =>
            (mapSeen (values.convert includeStack depth) members causes.2).map fun errors =>
              ({ result with cause := causes.1.head?, errors := errors.1 }, errors.2))
      (.describe thrown :: (causes.1 ++ .slice thrown :: members.1), members.2) := by
  intro causes members
  have hcauses := mapSeen_follows ih (values.cause thrown).join.toList (thrown :: seen)
  have hmembers := mapSeen_follows ih ((values.sliced thrown).filterMap id) causes.2
  have hslice : values.harmless (.slice thrown) = ((values.sliced thrown).mapM id).isSome := by
    rw [mapM_id_sliced]
    split_ifs with hall <;> simp [harmless, hall]
  have hdescribe : values.harmless (.describe thrown) =
      (values.level includeStack thrown).isSome := by
    simp [harmless, herror, level_isSome]
  have hstages : ∀ causes', mapSeen (values.convert includeStack depth)
      (values.cause thrown).join.toList (thrown :: seen) = some causes' → causes'.2 = causes.2 :=
    fun causes' h => hcauses.seen causes' h
  have hread : ∀ read, (values.sliced thrown).mapM id = some read →
      read = (values.sliced thrown).filterMap id := by
    intro read hread
    rw [mapM_id_sliced] at hread
    split_ifs at hread
    exact (Option.some.inj hread).symm
  constructor
  · have htouches : (∀ touch ∈ Touch.describe thrown :: (causes.1 ++ .slice thrown :: members.1),
        values.harmless touch = true) ↔ (values.level includeStack thrown).isSome = true ∧
          (∀ touch ∈ causes.1, values.harmless touch = true) ∧
          ((values.sliced thrown).mapM id).isSome = true ∧
          ∀ touch ∈ members.1, values.harmless touch = true := by
      rw [List.forall_mem_cons, List.forall_mem_append, List.forall_mem_cons, hdescribe, hslice]
    rw [htouches, ← hcauses.isSome_iff, ← hmembers.isSome_iff]
    constructor
    · intro hsome
      obtain ⟨result, hresult⟩ := Option.isSome_iff_exists.mp hsome
      obtain ⟨e, he, hresult⟩ := Option.bind_eq_some_iff.mp hresult
      obtain ⟨causes', hcauses', hresult⟩ := Option.bind_eq_some_iff.mp hresult
      obtain ⟨read, hslice', hresult⟩ := Option.bind_eq_some_iff.mp hresult
      obtain ⟨errors, herrors, -⟩ := Option.map_eq_some_iff.mp hresult
      rw [hread read hslice', hstages causes' hcauses'] at herrors
      exact ⟨Option.isSome_iff_exists.mpr ⟨e, he⟩, Option.isSome_iff_exists.mpr ⟨_, hcauses'⟩,
        Option.isSome_iff_exists.mpr ⟨read, hslice'⟩, Option.isSome_iff_exists.mpr ⟨_, herrors⟩⟩
    · rintro ⟨hlevel, hcaused, hsliced, hlisted⟩
      obtain ⟨e, he⟩ := Option.isSome_iff_exists.mp hlevel
      obtain ⟨causes', hcauses'⟩ := Option.isSome_iff_exists.mp hcaused
      obtain ⟨read, hslice'⟩ := Option.isSome_iff_exists.mp hsliced
      obtain ⟨errors, herrors⟩ := Option.isSome_iff_exists.mp hlisted
      have hlist := hread read hslice'
      subst hlist
      rw [← hstages causes' hcauses'] at herrors
      rw [he, Option.bind_some, hcauses', Option.bind_some, hslice', Option.bind_some, herrors]
      rfl
  · intro result hresult
    obtain ⟨e, he, hresult⟩ := Option.bind_eq_some_iff.mp hresult
    obtain ⟨causes', hcauses', hresult⟩ := Option.bind_eq_some_iff.mp hresult
    obtain ⟨read, hslice', hresult⟩ := Option.bind_eq_some_iff.mp hresult
    obtain ⟨errors, herrors, rfl⟩ := Option.map_eq_some_iff.mp hresult
    rw [hread read hslice', hstages causes' hcauses'] at herrors
    exact hmembers.seen errors herrors
  · intro result hresult
    obtain ⟨e, he, hresult⟩ := Option.bind_eq_some_iff.mp hresult
    obtain ⟨causes', hcauses', hresult⟩ := Option.bind_eq_some_iff.mp hresult
    obtain ⟨read, hslice', hresult⟩ := Option.bind_eq_some_iff.mp hresult
    obtain ⟨errors, herrors, rfl⟩ := Option.map_eq_some_iff.mp hresult
    rw [hread read hslice', hstages causes' hcauses'] at herrors
    obtain ⟨hname, hstack, -, -⟩ := level_bare he
    refine ⟨hname, hstack, fun cause hcause => ?_, ?_, hmembers.within errors herrors⟩
    · exact hcauses.within causes' hcauses' cause (List.mem_of_mem_head? hcause)
    · rw [hmembers.length errors herrors]
      calc ((values.sliced thrown).filterMap id).length
          ≤ (values.sliced thrown).length := List.length_filterMap_le _ _
        _ ≤ maxAggregatedErrors := List.length_take_le _ _

theorem convert_follows (includeStack : Bool) (depth : ℕ) (thrown : V) (seen : List V) :
    values.Follows includeStack depth (values.convert includeStack depth thrown seen)
      (values.touches depth thrown seen) := by
  induction depth generalizing thrown seen with
  | zero =>
    rw [convert, touches]
    split_ifs with herror
    · exact level_follows includeStack 0 herror seen
    · exact describeOther_follows includeStack 0 (by simpa using herror) seen
  | succ depth ih =>
    rw [convert, touches]
    by_cases herror : values.isError thrown = true
    · by_cases hseen : thrown ∈ seen
      · have hlevel : values.Follows includeStack (depth + 1)
            ((values.level includeStack thrown).map (·, seen)) ([.describe thrown], seen) :=
          level_follows includeStack (depth + 1) herror seen
        simpa [herror, hseen, Option.map_eq_bind, Function.comp_def] using hlevel
      · rw [if_pos herror, if_pos ⟨herror, hseen⟩]
        simp only [hseen, if_false]
        exact expanded_follows herror ih seen
    · rw [if_neg herror, if_neg (fun h => herror h.1)]
      exact describeOther_follows includeStack (depth + 1) (by simpa using herror) seen

variable (values) in
/-- **When describing a failure fails.** `toRunError` answers, and with a description within
its bounds, exactly when none of the unguarded reads of its walk throws. -/
theorem toRunError_answers_iff (thrown : V) (includeStack : Bool) :
    (∃ e, values.toRunError thrown includeStack = some e ∧
        e.Within includeStack maxCauseDepth) ↔
      ∀ touch ∈ (values.touches maxCauseDepth thrown []).1, values.harmless touch = true := by
  have hfollows : values.Follows includeStack maxCauseDepth
      (values.convert includeStack maxCauseDepth thrown [])
      (values.touches maxCauseDepth thrown []) := convert_follows includeStack maxCauseDepth thrown []
  rw [← hfollows.isSome_iff, Option.isSome_iff_exists]
  constructor
  · rintro ⟨e, he, -⟩
    obtain ⟨result, hresult, -⟩ := Option.map_eq_some_iff.mp he
    exact ⟨result, hresult⟩
  · rintro ⟨result, hresult⟩
    exact ⟨result.1, by rw [toRunError, hresult]; rfl, hfollows.within result hresult⟩

/-- `true` is an error whose `name` getter throws, `false` an object without prototype that
holds itself: neither JSON nor `String` has a text for it. -/
def hostile : ThrownValues Bool where
  isError := fun v => v
  isObject := fun _ => true
  json := fun _ => none
  string := fun _ => none
  name := fun _ => none
  message := fun _ => some (some "boom")
  stack := fun _ => some none
  cause := fun _ => some none
  errors := fun _ => some []

/-- Describing either of them throws. -/
theorem hostile_toRunError :
    hostile.toRunError true false = none ∧ hostile.toRunError false false = none := by
  constructor <;> rfl

end ThrownValues
end Skein

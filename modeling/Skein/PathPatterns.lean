import Mathlib.Data.List.TakeWhile
import Skein.JsStrings

/-!
# Path patterns

The regular expressions that paths with `:name` placeholders are turned into: literal text, the
dot, the two anchors and groups `(?<name>[^/]+)`. A pattern that uses other syntax, or that the
constructor would refuse, is read as none. Matching takes the longest segment first and falls
back to shorter ones.
-/
namespace Skein

/-- The text of a source literal. -/
def JsString.ofAscii (s : String) : JsString := s.toList.map fun c => unitOf c.toNat

/-- `/` -/
def slash : CodeUnit := 47

/-- `:` -/
def colon : CodeUnit := 58

def isDigitUnit (u : CodeUnit) : Bool := 48 ≤ u.val && u.val ≤ 57

/-- `\w` -/
def isWordUnit (u : CodeUnit) : Bool :=
  isDigitUnit u || (65 ≤ u.val && u.val ≤ 90) || (97 ≤ u.val && u.val ≤ 122) || u.val = 95

/-- What `.` does not match. -/
def isLineTerminator (u : CodeUnit) : Bool :=
  u.val = 10 || u.val = 13 || u.val = 0x2028 || u.val = 0x2029

inductive PatternTerm
  | start
  | stop
  | unit (u : CodeUnit)
  | dot
  /-- `(?<name>[^/]+)` -/
  | segment (name : JsString)
  deriving DecidableEq

namespace PatternTerm

def groupName? : PatternTerm → Option JsString
  | segment name => some name
  | start | stop | unit _ | dot => none

/-- The term with its dot escaped. -/
def escaped : PatternTerm → PatternTerm
  | dot => unit 46
  | term => term

/-- `\ * + ? ( ) [ ] { } |`, whose syntax is not read here. -/
def isSyntaxUnit (u : CodeUnit) : Bool :=
  u.val ∈ [92, 42, 43, 63, 40, 41, 91, 93, 123, 125, 124]

/-- A code unit outside of a group. -/
def ofUnit (u : CodeUnit) : PatternTerm :=
  if u.val = 94 then start else if u.val = 36 then stop else if u.val = 46 then dot else unit u

/-- A name of word characters that a group may have. -/
def isGroupName (name : JsString) : Bool := name.head?.any fun u => !isDigitUnit u

/-- The terms of a pattern; inside a group, with the name as far as it is read. -/
def read : Option JsString → JsString → Option (List PatternTerm)
  | none, [] => some []
  | none, 40 :: 63 :: 60 :: rest => read (some []) rest
  | none, u :: rest => if isSyntaxUnit u then none else (read none rest).map (ofUnit u :: ·)
  | some _, [] => none
  | some name, 62 :: 91 :: 94 :: 47 :: 93 :: 43 :: 41 :: rest =>
    if isGroupName name then (read none rest).map (segment name :: ·) else none
  | some name, u :: rest => if isWordUnit u then read (some (name ++ [u])) rest else none

/-- `new RegExp(source)`; two groups of one name are refused. -/
def compile (source : JsString) : Option (List PatternTerm) :=
  (read none source).filter fun terms => (terms.filterMap groupName?).Nodup

/-- What the groups of a match have captured, in their order. -/
abbrev Captures := List (JsString × JsString)

/-- A match that begins where the input does. -/
def execAt : List PatternTerm → Bool → JsString → Option Captures
  | [], _, _ => some []
  | start :: terms, atStart, input => if atStart then execAt terms atStart input else none
  | stop :: terms, atStart, input => if input = [] then execAt terms atStart input else none
  | unit _ :: _, _, [] => none
  | unit u :: terms, _, c :: input => if c = u then execAt terms false input else none
  | dot :: _, _, [] => none
  | dot :: terms, _, c :: input => if isLineTerminator c then none else execAt terms false input
  | segment name :: terms, _, input =>
    (List.range (input.takeWhile (· ≠ slash)).length).reverse.findSome? fun k =>
      (execAt terms false (input.drop (k + 1))).map ((name, input.take (k + 1)) :: ·)

/-- `regex.exec(input)` -/
def exec (terms : List PatternTerm) (input : JsString) : Option Captures :=
  (List.range (input.length + 1)).findSome? fun i => execAt terms (i = 0) (input.drop i)

theorem exec_start (terms : List PatternTerm) (input : JsString) :
    exec (start :: terms) input = execAt terms true input := by
  have hlater : ∀ i ∈ (List.range input.length).map Nat.succ,
      execAt (start :: terms) (decide (i = 0)) (input.drop i) = none := by
    intro i hi
    obtain ⟨j, -, rfl⟩ := List.mem_map.mp hi
    simp [execAt]
  rw [exec, List.range_succ_eq_map, List.findSome?_cons,
    List.findSome?_eq_none_iff.mpr hlater]
  simp only [decide_true, List.drop_zero, execAt, if_true]
  cases execAt terms true input <;> rfl

end PatternTerm

/-- A part of a path between slashes. -/
inductive PathSegment
  | literal (text : JsString)
  | param (name : JsString)
  deriving DecidableEq

namespace PathSegment

def isParam : PathSegment → Bool
  | param _ => true
  | literal _ => false

def terms : PathSegment → List PatternTerm
  | literal text => text.map PatternTerm.ofUnit
  | param name => [.segment name]

/-- Whether the segment takes a part of a pathname. -/
def Takes : PathSegment → JsString → Prop
  | literal text, part => part = text
  | param _, part => part ≠ []

instance : DecidableRel Takes
  | literal text, part => inferInstanceAs (Decidable (part = text))
  | param _, part => inferInstanceAs (Decidable (part ≠ []))

/-- What the segment captures. -/
def capture : PathSegment → JsString → Option (JsString × JsString)
  | literal _, _ => none
  | param name, part => some (name, part)

/-- A literal without slashes and without syntax but the dot. -/
structure PlainText (text : JsString) : Prop where
  unslashed : slash ∉ text
  unsyntactic : ∀ u ∈ text, PatternTerm.isSyntaxUnit u = false ∧ u.val ≠ 94 ∧ u.val ≠ 36

def Plain : PathSegment → Prop
  | literal text => PlainText text
  | param name => name.all isWordUnit = true ∧ PatternTerm.isGroupName name = true

end PathSegment

/-- The terms of a path up to its end. -/
def pathTerms : List PathSegment → List PatternTerm
  | [] => [.stop]
  | [segment] => segment.terms ++ [.stop]
  | segment :: segments => segment.terms ++ .unit slash :: pathTerms segments

/-- A pathname whose parts the segments take one by one. -/
def PathTakes (segments : List PathSegment) (pathname : JsString) : Prop :=
  List.Forall₂ PathSegment.Takes segments (pathname.splitOn slash)

def pathCaptures (segments : List PathSegment) (parts : List JsString) :
    PatternTerm.Captures :=
  ((segments.zip parts).filterMap fun taken => taken.1.capture taken.2)

namespace PatternTerm
variable {terms : List PatternTerm} {input text part : JsString} {captures : Captures}

/-- A literal passes over itself; a dot of it takes the dot. -/
theorem execAt_literal (hplain : ∀ u ∈ text, u.val ≠ 94 ∧ u.val ≠ 36)
    (h : ∀ atStart, execAt terms atStart input = some captures) (atStart : Bool) :
    execAt (text.map ofUnit ++ terms) atStart (text ++ input) = some captures := by
  induction text generalizing atStart with
  | nil => exact h atStart
  | cons u text ih =>
    obtain ⟨hu, hplain⟩ := List.forall_mem_cons.mp hplain
    have hrest := ih hplain false
    rw [List.map_cons, List.cons_append, List.cons_append, ofUnit, if_neg hu.1, if_neg hu.2]
    split_ifs with hdot
    · have hline : isLineTerminator u = false := by simp [isLineTerminator, hdot]
      simpa [execAt, hline] using hrest
    · simpa [execAt] using hrest

/-- A group captures the whole part that the input begins with. -/
theorem execAt_segment {name rest : JsString} (hpart : slash ∉ part) (hnonempty : part ≠ [])
    (hrest : rest = [] ∨ rest.head? = some slash)
    (h : ∀ atStart, execAt terms atStart rest = some captures) (atStart : Bool) :
    execAt (segment name :: terms) atStart (part ++ rest) = some ((name, part) :: captures) := by
  have hrun : (part ++ rest).takeWhile (· ≠ slash) = part := by
    have hall : ∀ u ∈ part, decide (u ≠ slash) = true := by
      intro u hu
      simp only [ne_eq, decide_eq_true_eq]
      rintro rfl
      exact hpart hu
    rw [List.takeWhile_append_of_pos hall]
    obtain rfl | hhead := hrest
    · simp
    · obtain ⟨rest, rfl⟩ := List.head?_eq_some_iff.mp hhead
      simp
  obtain ⟨n, hn⟩ : ∃ n, part.length = n + 1 :=
    Nat.exists_eq_succ_of_ne_zero (by simpa using hnonempty)
  simp only [execAt]
  rw [hrun, hn, List.range_succ, List.reverse_append, List.reverse_singleton,
    List.singleton_append, List.findSome?_cons, ← hn]
  simp [h false]

end PatternTerm

/-- A segment passes over the part it takes. -/
theorem PathSegment.execAt_terms {segment : PathSegment} {part rest : JsString}
    {terms : List PatternTerm} {captures : PatternTerm.Captures} (hplain : segment.Plain)
    (hpart : slash ∉ part) (htakes : segment.Takes part)
    (hrest : rest = [] ∨ rest.head? = some slash)
    (h : ∀ atStart, PatternTerm.execAt terms atStart rest = some captures) (atStart : Bool) :
    PatternTerm.execAt (segment.terms ++ terms) atStart (part ++ rest) =
      some ((segment.capture part).toList ++ captures) := by
  cases segment with
  | literal text =>
    obtain rfl : part = text := htakes
    exact PatternTerm.execAt_literal (fun u hu => (hplain.unsyntactic u hu).2) h atStart
  | param name => exact PatternTerm.execAt_segment hpart htakes hrest h atStart

/-- A path is matched by every pathname whose parts its segments take. -/
theorem execAt_pathTerms {segments : List PathSegment} {parts : List JsString}
    (hplain : ∀ segment ∈ segments, segment.Plain) (hparts : ∀ part ∈ parts, slash ∉ part)
    (htakes : List.Forall₂ PathSegment.Takes segments parts) (atStart : Bool) :
    PatternTerm.execAt (pathTerms segments) atStart ([slash].intercalate parts) =
      some (pathCaptures segments parts) := by
  induction htakes generalizing atStart with
  | nil => simp [pathTerms, PatternTerm.execAt, pathCaptures]
  | @cons segment part segments parts htakes hrest ih =>
    obtain ⟨hsegment, hplain⟩ := List.forall_mem_cons.mp hplain
    obtain ⟨hpart, hparts⟩ := List.forall_mem_cons.mp hparts
    have hcaptures : pathCaptures (segment :: segments) (part :: parts) =
        (segment.capture part).toList ++ pathCaptures segments parts := by
      unfold pathCaptures
      rw [List.zip_cons_cons, List.filterMap_cons]
      cases segment.capture part <;> rfl
    rw [hcaptures]
    cases hrest with
    | nil =>
      have hstop : ∀ b, PatternTerm.execAt [.stop] b [] = some [] := fun _ => by
        simp [PatternTerm.execAt]
      simpa [pathTerms, pathCaptures] using
        segment.execAt_terms hsegment hpart htakes (.inl rfl) hstop atStart
    | @cons next nextPart more moreParts hnext hmore =>
      have hslash : ∀ b, PatternTerm.execAt (.unit slash :: pathTerms (next :: more)) b
          (slash :: [slash].intercalate (nextPart :: moreParts)) =
            some (pathCaptures (next :: more) (nextPart :: moreParts)) := fun b => by
        simpa [PatternTerm.execAt] using ih hplain hparts false
      rw [pathTerms, List.intercalate_cons_cons, List.append_assoc, List.singleton_append]
      · exact segment.execAt_terms hsegment hpart htakes (.inr rfl) hslash atStart
      · simp

namespace PatternTerm

/-- A literal with its dots escaped passes over nothing but itself. -/
theorem execAt_escaped_literal {terms : List PatternTerm} {text : JsString}
    (hplain : ∀ u ∈ text, u.val ≠ 94 ∧ u.val ≠ 36) {input : JsString} {atStart : Bool}
    (h : (execAt ((text.map ofUnit).map escaped ++ terms) atStart input).isSome = true) :
    ∃ rest b, input = text ++ rest ∧ (execAt terms b rest).isSome = true := by
  induction text generalizing input atStart with
  | nil => exact ⟨input, atStart, rfl, h⟩
  | cons u text ih =>
    obtain ⟨hu, hplain⟩ := List.forall_mem_cons.mp hplain
    have hterm : (ofUnit u).escaped = unit u := by
      rw [ofUnit, if_neg hu.1, if_neg hu.2]
      split_ifs with hdot
      · exact congrArg unit (Fin.ext hdot).symm
      · rfl
    rw [List.map_cons, List.map_cons, List.cons_append, hterm] at h
    cases input with
    | nil => simp [execAt] at h
    | cons c input =>
      rw [execAt] at h
      split_ifs at h with hc
      · obtain ⟨rest, b, rfl, hrest⟩ := ih hplain h
        exact ⟨rest, b, by rw [hc, List.cons_append], hrest⟩
      · simp at h

/-- A group takes a nonempty run without slashes. -/
theorem execAt_segment_isSome {name : JsString} {terms : List PatternTerm} {input : JsString}
    {atStart : Bool} (h : (execAt (segment name :: terms) atStart input).isSome = true) :
    ∃ part rest b, input = part ++ rest ∧ part ≠ [] ∧ slash ∉ part ∧
      (execAt terms b rest).isSome = true := by
  obtain ⟨captures, hcaptures⟩ := Option.isSome_iff_exists.mp h
  rw [execAt, List.findSome?_eq_some_iff] at hcaptures
  obtain ⟨before, k, after, hrange, hfound, -⟩ := hcaptures
  have hk : k < (input.takeWhile (· ≠ slash)).length := by
    have hmem : k ∈ (List.range (input.takeWhile (· ≠ slash)).length).reverse := by
      rw [hrange]
      simp
    simpa using hmem
  obtain ⟨found, hfound, -⟩ := Option.map_eq_some_iff.mp hfound
  refine ⟨input.take (k + 1), input.drop (k + 1), false, (List.take_append_drop _ _).symm, ?_, ?_,
    by simp [hfound]⟩
  · intro hnil
    have hlength := congrArg List.length hnil
    have hle := (List.takeWhile_prefix (l := input) (· ≠ slash)).length_le
    simp at hlength
    rcases hlength with rfl
    simp at hk
  · intro hmem
    have hprefix : input.take (k + 1) <+: input.takeWhile (· ≠ slash) :=
      List.prefix_of_prefix_length_le (List.take_prefix _ _) (List.takeWhile_prefix _)
        (by rw [List.length_take]; omega)
    simpa using List.mem_takeWhile_imp (List.IsPrefix.subset hprefix hmem)

end PatternTerm

/-- What a segment with its dots escaped passes over, it takes. -/
theorem PathSegment.execAt_escaped_terms {segment : PathSegment} {terms : List PatternTerm}
    (hplain : segment.Plain) {input : JsString} {atStart : Bool}
    (h : (PatternTerm.execAt (segment.terms.map PatternTerm.escaped ++ terms) atStart
      input).isSome = true) :
    ∃ part rest b, input = part ++ rest ∧ slash ∉ part ∧ segment.Takes part ∧
      (PatternTerm.execAt terms b rest).isSome = true := by
  cases segment with
  | literal text =>
    obtain ⟨rest, b, hinput, hrest⟩ :=
      PatternTerm.execAt_escaped_literal (fun u hu => (hplain.unsyntactic u hu).2) h
    exact ⟨text, rest, b, hinput, hplain.unslashed, rfl, hrest⟩
  | param name =>
    obtain ⟨part, rest, b, hinput, hnonempty, hpart, hrest⟩ :=
      PatternTerm.execAt_segment_isSome h
    exact ⟨part, rest, b, hinput, hpart, hnonempty, hrest⟩

/-- With its dots escaped, a path matches only the pathnames whose parts its segments take. -/
theorem execAt_escaped_pathTerms {segments : List PathSegment} (hnonempty : segments ≠ [])
    (hplain : ∀ segment ∈ segments, segment.Plain) {pathname : JsString} {atStart : Bool}
    (h : (PatternTerm.execAt ((pathTerms segments).map PatternTerm.escaped) atStart
      pathname).isSome = true) : PathTakes segments pathname := by
  induction segments generalizing pathname atStart with
  | nil => exact absurd rfl hnonempty
  | cons segment segments ih =>
    obtain ⟨hsegment, hplain⟩ := List.forall_mem_cons.mp hplain
    cases segments with
    | nil =>
      rw [pathTerms, List.map_append] at h
      obtain ⟨part, rest, b, rfl, hpart, htakes, hrest⟩ :=
        PathSegment.execAt_escaped_terms hsegment h
      have hend : rest = [] := by
        by_contra hne
        simp [PatternTerm.escaped, PatternTerm.execAt, hne] at hrest
      rw [PathTakes, hend, List.append_nil, List.splitOn_eq_singleton hpart]
      exact .cons htakes .nil
    | cons next more =>
      rw [pathTerms, List.map_append, List.map_cons] at h
      · obtain ⟨part, rest, b, rfl, hpart, htakes, hrest⟩ :=
          PathSegment.execAt_escaped_terms hsegment h
        cases rest with
        | nil => simp [PatternTerm.escaped, PatternTerm.execAt] at hrest
        | cons c rest =>
          simp only [PatternTerm.escaped, PatternTerm.execAt] at hrest
          split_ifs at hrest with hc
          · rw [PathTakes, hc, List.splitOn_append_cons_self_of_not_mem hpart]
            exact .cons htakes (ih (by simp) hplain hrest)
          · simp at hrest
      · simp

/-- `(?<` -/
def groupOpen : JsString := [40, 63, 60]

/-- `>[^/]+)` -/
def groupClose : JsString := [62, 91, 94, 47, 93, 43, 41]

/-- The text of a segment in a pattern. -/
def PathSegment.source : PathSegment → JsString
  | literal text => text
  | param name => groupOpen ++ name ++ groupClose

namespace PatternTerm

theorem read_unit {u : CodeUnit} (hu : isSyntaxUnit u = false) (rest : JsString) :
    read none (u :: rest) = (read none rest).map (ofUnit u :: ·) := by
  have hne : u ≠ 40 := by
    rintro rfl
    exact absurd hu (by decide)
  rw [read]
  · simp [hu]
  · rintro others rfl
    exact absurd rfl hne

theorem read_literal {text : JsString} (htext : ∀ u ∈ text, isSyntaxUnit u = false)
    (rest : JsString) :
    read none (text ++ rest) = (read none rest).map (text.map ofUnit ++ ·) := by
  induction text with
  | nil => simp
  | cons u text ih =>
    obtain ⟨hu, htext⟩ := List.forall_mem_cons.mp htext
    rw [List.cons_append, read_unit hu, ih htext, Option.map_map]
    rfl

/-- A group's name is read up to its end. -/
theorem read_name {name : JsString} (hname : name.all isWordUnit = true) (before rest : JsString) :
    read (some before) (name ++ groupClose ++ rest) =
      if isGroupName (before ++ name) then
        (read none rest).map (segment (before ++ name) :: ·)
      else none := by
  induction name generalizing before with
  | nil => simp [groupClose, read]
  | cons u name ih =>
    obtain ⟨hu, hname⟩ := List.forall_mem_cons.mp (List.all_eq_true.mp hname)
    have hne : u ≠ 62 := by
      rintro rfl
      exact absurd hu (by decide)
    rw [List.cons_append, List.cons_append, read]
    · rw [if_pos hu, ih (List.all_eq_true.mpr hname), List.append_assoc, List.singleton_append]
    · rintro others rfl
      exact absurd rfl hne

end PatternTerm

theorem PathSegment.read_source {segment : PathSegment} (hplain : segment.Plain)
    (rest : JsString) :
    PatternTerm.read none (segment.source ++ rest) =
      (PatternTerm.read none rest).map (segment.terms ++ ·) := by
  cases segment with
  | literal text =>
    exact PatternTerm.read_literal (fun u hu => (hplain.unsyntactic u hu).1) rest
  | param name =>
    have hread := PatternTerm.read_name hplain.1 [] rest
    rw [List.nil_append, if_pos hplain.2] at hread
    rw [source, groupOpen]
    simp only [List.cons_append, List.nil_append, List.append_assoc] at hread ⊢
    rw [PatternTerm.read]
    exact hread

/-- The text of a whole path with its end. -/
def pathSource (segments : List PathSegment) : JsString :=
  [slash].intercalate (segments.map PathSegment.source)

theorem read_pathSource {segments : List PathSegment}
    (hplain : ∀ segment ∈ segments, segment.Plain) :
    PatternTerm.read none (pathSource segments ++ [36]) = some (pathTerms segments) := by
  have hstop : PatternTerm.read none [36] = some [.stop] := rfl
  have hslash : PatternTerm.isSyntaxUnit slash = false := rfl
  induction segments with
  | nil => exact hstop
  | cons segment segments ih =>
    obtain ⟨hsegment, hplain⟩ := List.forall_mem_cons.mp hplain
    cases segments with
    | nil =>
      rw [pathSource, List.map_singleton, List.intercalate_singleton,
        PathSegment.read_source hsegment, hstop]
      rfl
    | cons next more =>
      have hrest := ih hplain
      rw [pathSource] at hrest ⊢
      rw [List.map_cons, List.map_cons, List.intercalate_cons_cons, ← List.map_cons,
        List.append_assoc, List.append_assoc, PathSegment.read_source hsegment,
        List.singleton_append, PatternTerm.read_unit hslash, hrest]
      rfl

end Skein

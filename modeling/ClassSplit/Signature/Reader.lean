import ClassSplit.Signature.Basic
import ClassSplit.Text.Letter

/-!
Reading a signature from its text. The text may carry modifiers and a qualifier in front of the
name, and annotations, `final` and names with the parameters; all of these are dropped. Reading
never fails: whatever the text, some signature is read from it.
-/

namespace ClassSplit.Signature

open Text

/-- What follows the last character of a kind, or the whole text if there is none. -/
def afterLast (p : Char → Bool) (cs : List Char) : List Char :=
  (cs.reverse.takeWhile (!p ·)).reverse

/-- What precedes the last character of a kind, if there is one. -/
def beforeLast? (p : Char → Bool) (cs : List Char) : Option (List Char) :=
  match cs.reverse.dropWhile (!p ·) with
  | [] => none
  | _ :: before => some before.reverse

/-- The last identifier of a name that may be qualified and may have modifiers in front. -/
def simpleName (head : List Char) : List Char :=
  afterLast (· == '.') (afterLast isBlank (trim head))

/-- Cuts a text at the commas that stand outside all brackets. -/
def splitTopLevel (depth : Int) : List Char → List (List Char)
  | [] => [[]]
  | c :: cs =>
    let onward (d : Int) : List (List Char) :=
      match splitTopLevel d cs with
      | [] => [[c]]
      | part :: parts => (c :: part) :: parts
    if c = '<' ∨ c = '(' ∨ c = '[' then onward (depth + 1)
    else if c = '>' ∨ c = ')' ∨ c = ']' then onward (depth - 1)
    else if c = ',' ∧ depth ≤ 0 then [] :: splitTopLevel depth cs
    else onward depth

/-- What follows a parenthesised group, given how many of its parentheses are open. -/
def afterGroup (depth : Nat) : List Char → List Char
  | [] => []
  | c :: cs =>
    if c = '(' then afterGroup (depth + 1) cs
    else if c = ')' then if depth ≤ 1 then cs else afterGroup (depth - 1) cs
    else afterGroup depth cs

theorem length_afterGroup_le (depth : Nat) (cs : List Char) :
    (afterGroup depth cs).length ≤ cs.length := by
  fun_induction afterGroup depth cs <;> simp_all <;> omega

theorem length_trimStart_le (cs : List Char) : (trimStart cs).length ≤ cs.length :=
  (List.dropWhile_suffix _).length_le

/-- What follows an annotation whose `@` has just been read: its name, then its arguments. -/
def annotationRest (cs : List Char) : List Char :=
  let rest := trimStart (cs.dropWhile fun c => isWordChar c || c == '.')
  match rest with
  | '(' :: _ => afterGroup 0 rest
  | _ => rest

theorem length_annotationRest_le (cs : List Char) : (annotationRest cs).length ≤ cs.length := by
  have hname := (List.dropWhile_suffix (fun c => isWordChar c || c == '.') (l := cs)).length_le
  have htrim := length_trimStart_le (cs.dropWhile fun c => isWordChar c || c == '.')
  simp only [annotationRest]
  split
  · exact Nat.le_trans (length_afterGroup_le _ _) (by omega)
  · omega

/-- What follows the word `final`, if the text begins with it and a blank comes next. -/
def afterFinal? : List Char → Option (List Char)
  | 'f' :: 'i' :: 'n' :: 'a' :: 'l' :: c :: cs => if isBlank c then some (c :: cs) else none
  | _ => none

theorem length_afterFinal?_lt {cs rest : List Char} (h : afterFinal? cs = some rest) :
    rest.length < cs.length := by
  unfold afterFinal? at h
  split at h
  · split at h
    · simp only [Option.some.injEq] at h
      subst h
      simp only [List.length_cons]; omega
    · cases h
  · cases h

/-- Drops the annotations and the word `final` that stand in front of a parameter. -/
def dropParamModifiers (cs : List Char) : List Char :=
  match h : trimStart cs with
  | [] => []
  | c :: rest =>
    if c = '@' then dropParamModifiers (annotationRest rest)
    else
      match hf : afterFinal? (c :: rest) with
      | some rest' => dropParamModifiers rest'
      | none => c :: rest
termination_by cs.length
decreasing_by
  · have hle := length_trimStart_le cs
    have ha := length_annotationRest_le rest
    simp only [h, List.length_cons] at hle
    omega
  · have hle := length_trimStart_le cs
    have hlt := length_afterFinal?_lt hf
    simp only [h] at hle
    omega

/-- Takes the blanks out of a type, except for one space between two words. -/
def collapseBlanks (last : Option Char) (pending : Bool) : List Char → List Char
  | [] => []
  | c :: cs =>
    if isBlank c then collapseBlanks last true cs
    else
      let word (c : Char) : Bool := isWordChar c || c == '?'
      let spaced := pending && (last.map word).getD false && word c
      (if spaced then [' ', c] else [c]) ++ collapseBlanks (some c) false cs

def collapseType (cs : List Char) : List Char := collapseBlanks none false (trim cs)

def dots : List Char := ['.', '.', '.']

/-- Whether a bracket or `...` continues the type after a blank. -/
def continuesType (cs : List Char) : Bool :=
  match cs with
  | '[' :: _ => true
  | '<' :: _ => true
  | _ => dots.isPrefixOf cs

/-- Divides a parameter into its type with any type arguments, and the rest. -/
def spanType (depth : Int) : List Char → List Char × List Char
  | [] => ([], [])
  | c :: cs =>
    let taking (d : Int) : List Char × List Char :=
      let found := spanType d cs
      (c :: found.1, found.2)
    if depth ≤ 0 ∧ dots.isPrefixOf (c :: cs) then ([], c :: cs)
    else if c = '<' then taking (depth + 1)
    else if c = '>' then taking (depth - 1)
    else if 0 < depth || isWordChar c || c == '.' || c == '?' then taking depth
    else if isBlank c && continuesType (trimStart (c :: cs)) then taking depth
    else ([], c :: cs)

/-- Takes pairs of brackets off the end of a type that is given back to front. -/
def takeDimsBack : List Char → List Char × Nat
  | [] => ([], 0)
  | c :: cs =>
    if isBlank c then takeDimsBack cs
    else if c = ']' then
      match h : trimStart cs with
      | '[' :: rest =>
        let found := takeDimsBack rest
        (found.1, found.2 + 1)
      | _ => (c :: cs, 0)
    else (c :: cs, 0)
termination_by cs => cs.length
decreasing_by
  · simp
  · have hle := length_trimStart_le cs
    simp only [h, List.length_cons] at hle
    simp only [List.length_cons]; omega

/-- A type without the pairs of brackets at its end, and their number. -/
def splitDims (cs : List Char) : List Char × Nat :=
  let found := takeDimsBack cs.reverse
  (found.1.reverse, found.2)

/-- What follows a pair of brackets, if the text begins with one. -/
def afterBrackets? (cs : List Char) : Option (List Char) :=
  match trimStart cs with
  | '[' :: rest =>
    match trimStart rest with
    | ']' :: rest' => some rest'
    | _ => none
  | _ => none

theorem length_afterBrackets?_lt {cs rest : List Char} (h : afterBrackets? cs = some rest) :
    rest.length < cs.length := by
  unfold afterBrackets? at h
  split at h
  · rename_i tail htail
    split at h
    · rename_i rest' hrest
      simp only [Option.some.injEq] at h
      have h1 := length_trimStart_le cs
      have h2 := length_trimStart_le tail
      simp only [htail, hrest, h, List.length_cons] at h1 h2
      omega
    · cases h
  · cases h

/-- What follows `...`, if the text begins with it. -/
def afterDots? (cs : List Char) : Option (List Char) :=
  match trimStart cs with
  | '.' :: '.' :: '.' :: rest => some rest
  | _ => none

theorem length_afterDots?_lt {cs rest : List Char} (h : afterDots? cs = some rest) :
    rest.length < cs.length := by
  unfold afterDots? at h
  split at h
  · rename_i rest' htrim
    simp only [Option.some.injEq] at h
    have h1 := length_trimStart_le cs
    simp only [htrim, h, List.length_cons] at h1
    omega
  · cases h

/-- Reads brackets and `...` after a type: how many pairs, whether there were dots, and what is
left. -/
def takeDims (cs : List Char) : Nat × Bool × List Char :=
  match hb : afterBrackets? cs with
  | some rest =>
    let found := takeDims rest
    (found.1 + 1, found.2)
  | none =>
    match hd : afterDots? cs with
    | some rest =>
      let found := takeDims rest
      (found.1, true, found.2.2)
    | none => (0, false, trimStart cs)
termination_by cs.length
decreasing_by
  · exact length_afterBrackets?_lt hb
  · exact length_afterDots?_lt hd

/-- The number of pairs of brackets that a text begins with. -/
def countDims (cs : List Char) : Nat :=
  match h : afterBrackets? cs with
  | some rest => countDims rest + 1
  | none => 0
termination_by cs.length
decreasing_by exact length_afterBrackets?_lt h

/-- Reads one parameter. Brackets count wherever they stand: after the type or after the name. -/
def paramOfText (cs : List Char) : ParamType :=
  let (typeText, rest) := spanType 0 (trim (dropParamModifiers cs))
  let (base, inner) := splitDims typeText
  let (outer, variadic, rest) := takeDims rest
  { base := String.ofList (collapseType base)
    dims := inner + outer + countDims (rest.dropWhile isWordChar)
    variadic }

/-- The text between the opening parenthesis, which has been read, and the last closing one. -/
def paramsText (cs : List Char) : List Char := (beforeLast? (· == ')') cs).getD cs

def ofText (cs : List Char) : Signature :=
  let text := trim cs
  match text.dropWhile (· != '(') with
  | [] => { name := String.ofList (simpleName text), params := [] }
  | _ :: rest =>
    { name := String.ofList (simpleName (text.takeWhile (· != '(')))
      params := ((splitTopLevel 0 (paramsText rest)).filter (!allBlank ·)).map paramOfText }

def ofString (text : String) : Signature := ofText text.toList

end ClassSplit.Signature

namespace ClassSplit

open Signature

/-- The canonical spelling of a signature: `name(T1,T2[],T3...)`. -/
def canonicalSignature (text : String) : String := (ofString text).canonicalForm

/-- Whether two texts denote the same method. -/
def signaturesMatch (a b : String) : Bool := (ofString a).agrees (ofString b)

end ClassSplit

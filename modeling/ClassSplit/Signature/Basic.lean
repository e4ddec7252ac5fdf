import ClassSplit.NameSet

/-!
Method signatures. A method's parameters are known by their types alone, and the same type has
several spellings: brackets, a trailing `...`, or neither. Two signatures match when they have a
spelling in common.
-/

namespace ClassSplit

/-- The type of a parameter: `dims` pairs of brackets after `base`, then `...` if `variadic`. -/
structure ParamType where
  base : String
  dims : Nat
  variadic : Bool
  deriving DecidableEq

structure Signature where
  name : String
  params : List ParamType
  deriving DecidableEq

def brackets (n : Nat) : String := String.join (List.replicate n "[]")

namespace ParamType

/-- The array dimensions of the parameter, the one that `...` stands for included. -/
def totalDims (p : ParamType) : Nat := p.dims + p.variadic.toNat

def canonical (p : ParamType) : String :=
  p.base ++ brackets p.dims ++ (if p.variadic then "..." else "")

/-- The spellings of a parameter: with brackets, with `...` (the last parameter only), bare. -/
def spellings (p : ParamType) (isLast : Bool) : List String :=
  if p.totalDims = 0 then [p.base]
  else
    (p.base ++ brackets p.totalDims)
      :: (if isLast then [p.base ++ brackets (p.totalDims - 1) ++ "..."] else []) ++ [p.base]

end ParamType

namespace Signature

def render (s : Signature) (params : List String) : String :=
  s.name ++ "(" ++ ",".intercalate params ++ ")"

def canonicalForm (s : Signature) : String := s.render (s.params.map ParamType.canonical)

/-- The spellings of each parameter in turn. -/
def paramSpellings (s : Signature) : List (List String) :=
  s.params.mapIdx fun i p => p.spellings (i + 1 == s.params.length)

/-- With more array parameters than this, only uniform spellings are formed. -/
def maxExpandedArrays : Nat := 8

def arrayParams (s : Signature) : Nat := s.params.countP (0 < ·.totalDims)

/-- Every way to take one element from each list, earlier lists varying slowest. -/
def selections : List (List String) → List (List String)
  | [] => [[]]
  | choices :: rest => choices.flatMap fun choice => (selections rest).map (choice :: ·)

/-- All parameters with brackets. -/
def bracketed (choices : List String) : String := choices.headD ""

/-- The last parameter with `...` if it has that spelling, the others with brackets. -/
def dotted (choices : List String) : String :=
  if choices.length = 3 then (choices[1]?).getD "" else choices.headD ""

/-- All parameters bare. -/
def bare (choices : List String) : String := choices.getLastD ""

/-- The spellings of a whole signature. -/
def forms (s : Signature) : NameSet :=
  if maxExpandedArrays < s.arrayParams then
    NameSet.ofList
      [s.render (s.paramSpellings.map bracketed), s.render (s.paramSpellings.map dotted),
        s.render (s.paramSpellings.map bare), s.canonicalForm]
  else NameSet.ofList ((selections s.paramSpellings).map s.render)

/-- Whether two signatures have the same canonical form or some spelling in common. -/
def agrees (s t : Signature) : Bool :=
  s.canonicalForm == t.canonicalForm || t.forms.toList.any (s.forms.contains ·)

end Signature

end ClassSplit

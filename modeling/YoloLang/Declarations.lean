import YoloLang.Source.Span

/-!
The names of a program: variables and labels in the order they are first given, and for each label
that is sought the place of its first GOTO.
-/

namespace YoloLang

structure Declarations where
  vars : List String
  labels : List String
  gotos : List (String × Span)
deriving DecidableEq, Repr

namespace Declarations

def empty : Declarations := ⟨[], [], []⟩

def addVar (d : Declarations) (name : String) : Declarations :=
  if name ∈ d.vars then d else { d with vars := d.vars ++ [name] }

def addLabel (d : Declarations) (name : String) : Declarations :=
  if name ∈ d.labels then d else { d with labels := d.labels ++ [name] }

def addGoto (d : Declarations) (name : String) (span : Span) : Declarations :=
  if name ∈ d.gotos.map Prod.fst then d else { d with gotos := d.gotos ++ [(name, span)] }

/-- The first label that is sought and never given. -/
def missingLabel? (d : Declarations) : Option (String × Span) :=
  d.gotos.find? fun (name, _) => name ∉ d.labels

theorem missingLabel?_eq_none_iff {d : Declarations} :
    d.missingLabel? = none ↔ ∀ g ∈ d.gotos, g.1 ∈ d.labels := by
  simp [missingLabel?]

end Declarations
end YoloLang

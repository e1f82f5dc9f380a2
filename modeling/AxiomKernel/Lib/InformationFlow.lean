import Mathlib

/-!
# Flows along reads and writes

Subjects read and write objects in the order of a trace.  Data of an object can
reach another through a chain of subjects, each of which read an object that the
data had reached and later wrote the next.  When every access respects a
transitive relation on labels, so does every chain.
-/

set_option autoImplicit false

namespace InformationFlow

variable {S O : Type}

inductive Access (S O : Type) where
  | read (subject : S) (object : O)
  | write (subject : S) (object : O)

def Access.subject : Access S O → S
  | .read s _ | .write s _ => s

def Access.object : Access S O → O
  | .read _ o | .write _ o => o

/-- Data of `source` can have reached an object with the access at a position of the
trace, a write. -/
inductive ReachedAt (accesses : List (Access S O)) (source : O) : Nat → O → Prop
  | direct {s : S} {target : O} {i j : Nat} (before : i < j)
      (reads : accesses[i]? = some (.read s source)) (writes : accesses[j]? = some (.write s target)) :
      ReachedAt accesses source j target
  | onward {s : S} {middle target : O} {n i j : Nat} (earlier : ReachedAt accesses source n middle)
      (after : n < i) (before : i < j) (reads : accesses[i]? = some (.read s middle))
      (writes : accesses[j]? = some (.write s target)) : ReachedAt accesses source j target

def Reaches (accesses : List (Access S O)) (source target : O) : Prop :=
  ∃ position, ReachedAt accesses source position target

/-- The access goes up in `above`: readers are above what they read, and what is
written is above the writer. -/
def Access.GoesUp {L : Type} (above : L → L → Prop) (subjectLabel : S → L) (objectLabel : O → L) :
    Access S O → Prop
  | .read s o => above (subjectLabel s) (objectLabel o)
  | .write s o => above (objectLabel o) (subjectLabel s)

/-- When every access goes up, data goes up. -/
theorem ReachedAt.above {L : Type} (above : L → L → Prop)
    (transitive : ∀ {a b c}, above a b → above b c → above a c)
    {subjectLabel : S → L} {objectLabel : O → L} {accesses : List (Access S O)}
    (goesUp : ∀ access ∈ accesses, access.GoesUp above subjectLabel objectLabel)
    {source target : O} {position : Nat} (reached : ReachedAt accesses source position target) :
    above (objectLabel target) (objectLabel source) := by
  induction reached with
  | direct before reads writes =>
      exact transitive (goesUp _ (List.mem_of_getElem? writes))
        (goesUp _ (List.mem_of_getElem? reads))
  | onward earlier after before reads writes inductionHypothesis =>
      have up := transitive (goesUp _ (List.mem_of_getElem? writes))
        (goesUp _ (List.mem_of_getElem? reads))
      exact transitive up inductionHypothesis

end InformationFlow

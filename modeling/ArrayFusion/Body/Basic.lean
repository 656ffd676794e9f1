/-
ArrayFusion/Body/Basic.lean

The statement language that fused functions are written in.

A body is a list of statements over named variables.  It never mentions how
values are represented: it is run against some `ArrayOps`.  A call of
another function carries the body of the callee, so bodies are finite trees
and every run ends.
-/
import ArrayFusion.Operand
import ArrayFusion.Shape.Region

namespace ArrayFusion

/-- What becomes of the values a statement produces. -/
inductive Binder
  | drop
  /-- Names the first value. -/
  | one (name : String)
  /-- Names the values pairwise. -/
  | many (names : List String)

/-- A condition of a branch.  Only `truth` looks at the contents of an
array. -/
inductive Test
  | present (index : Nat)
  | backend (tag : String)
  | kind (of : String) (is : ArgKind)
  | dtype (of : String) (is : DType)
  | ndim (of : String) (is : Nat)
  | truth (of : String)

/-- A statement. -/
inductive Stmt
  /-- Ends the body. -/
  | ret (value : Returned String)
  | branch (test : Test) (yes no : List Stmt)
  /-- A positional argument, which must be present. -/
  | arg (dest : Binder) (index : Nat)
  | const (dest : Binder) (value : Scalar)
  /-- A second name of a value. -/
  | synonym (dest : Binder) (of : String)
  /-- An elementwise function, into new values or into existing arrays. -/
  | ufunc (dest : Binder) (f : Ufunc) (inputs : List String) (outs : Option (List String))
  /-- Augmented assignment. -/
  | inplace (dest : Binder) (f : Ufunc) (target other : String)
  | reduce (dest : Binder) (op : Reduction) (of : String) (axis : Option Nat)
  | astype (dest : Binder) (dtype : DType) (of : String)
  /-- Slice assignment. -/
  | assign (target source : String) (region : Region)
  /-- The only element of an array, as a constant. -/
  | item (dest : Binder) (of : String)
  /-- Runs another body on values of this one. -/
  | call (dest : Binder) (callee : List Stmt) (args : List (Option String))
  /-- Declares the body not fusable. -/
  | raise (reason : String)

/-- A named body. -/
structure Function where
  name : String
  doc : Option String
  body : List Stmt

end ArrayFusion

set_option autoImplicit false

/-! # Places in a document

A place is the way from the root of a document to one of its parts. It is used in messages only;
what a place leads to is never looked up.
-/

namespace SchemaLoom

/-- One step of the way: into an object by a key, into an array by an index, or to a key that
could not be read. -/
inductive Step where
  | key (name : String)
  | index (i : Nat)
  | unreadKey
  deriving DecidableEq, Repr

/-- The way from the root, outermost step first. -/
abbrev Place := List Step

/-- The text of a step. -/
def Step.text : Step → String
  | key name => name
  | index i => s!"[{i}]"
  | unreadKey => "?"

/-- Whether a point sets the step off from the one before it. -/
def Step.takesPoint : Step → Bool
  | index _ => false
  | key _ | unreadKey => true

/-- The text of the steps after the first one. -/
def Place.tailText : Place → String
  | [] => ""
  | step :: rest => (if step.takesPoint then "." else "") ++ step.text ++ tailText rest

/-- The text of a place; the root is a point. -/
def Place.text : Place → String
  | [] => "."
  | step :: rest => step.text ++ tailText rest

/-- A fault and the place where it is. -/
structure Located (ε : Type) where
  place : Place
  cause : ε
  deriving DecidableEq, Repr

end SchemaLoom

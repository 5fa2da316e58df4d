import DomQuery.Entries

/-!
What markup consists of.
-/
namespace DomQuery.Markup

structure Tag where
  name : String
  attributes : Entries String := []
  selfClosing : Bool := false
  deriving DecidableEq, Repr

structure Doctype where
  name : Option String := none
  publicId : Option String := none
  systemId : Option String := none
  /-- The declaration is broken off or ill formed. -/
  broken : Bool := false
  deriving DecidableEq, Repr

inductive Token where
  | doctype (doctype : Doctype)
  | startTag (tag : Tag)
  | endTag (name : String)
  | comment (text : String)
  /-- Text without null characters, unless these have been replaced. -/
  | text (text : List Char)
  | null
  /-- Markup that is wrong and stands for nothing. -/
  | fault
  | endOfFile
  deriving DecidableEq, Repr

end DomQuery.Markup

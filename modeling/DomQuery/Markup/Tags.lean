import DomQuery.Text.Lowercase

/-!
Classes of tag names that decide how an element is written.
-/
namespace DomQuery.Markup
open Text

def isOneOf (names : List String) (tag : String) : Bool := names.contains (asciiLowercase tag)

def isVoid : String → Bool :=
  isOneOf ["area", "base", "br", "col", "embed", "hr", "img", "input", "link", "meta", "param",
    "source", "track", "wbr"]

def isRawText : String → Bool := isOneOf ["script", "style"]

def isEscapableRawText : String → Bool := isOneOf ["title", "textarea"]

def isScript : String → Bool := isOneOf ["script"]

end DomQuery.Markup

/-!
Finding one text inside another.
-/
namespace DomQuery.Text

def occursIn (wanted : List Char) : List Char → Bool
  | [] => wanted.isEmpty
  | c :: rest => wanted.isPrefixOf (c :: rest) || occursIn wanted rest

def containsText (text wanted : String) : Bool := occursIn wanted.toList text.toList

def startsWith (text wanted : String) : Bool := wanted.toList.isPrefixOf text.toList

def endsWith (text wanted : String) : Bool := wanted.toList.isSuffixOf text.toList

theorem occursIn_iff {wanted text : List Char} :
    occursIn wanted text = true ↔ wanted <:+: text := by
  induction text with
  | nil => simp [occursIn, List.isEmpty_iff]
  | cons c rest ih => simp [occursIn, ih, List.infix_cons_iff]

end DomQuery.Text

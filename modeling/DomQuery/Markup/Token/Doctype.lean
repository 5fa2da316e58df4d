import DomQuery.Markup.Token

/-!
Document type declarations, and which of them call for the layout of old pages.
-/
namespace DomQuery.Markup

def isTagBlank (c : Char) : Bool := c == ' ' || c == '\t' || c == '\n' || c == '\x0c'

def startsWithWord (word : String) (cs : List Char) : Bool :=
  (cs.take word.length).map Char.toLower == word.toList

namespace Doctype

def skipped (d : Doctype) (cs : List Char) : Doctype × List Char :=
  (d, (cs.dropWhile (· != '>')).tail)

def isQuote (c : Char) : Bool := c == '"' || c == '\''

def identifier (cs : List Char) : Option (String × Option (List Char)) × List Char :=
  match cs.dropWhile isTagBlank with
  | q :: rest =>
    if isQuote q then
      let id := String.ofList (rest.takeWhile fun c => c != q && c != '>')
      match rest.dropWhile fun c => c != q && c != '>' with
      | [] => (some (id, none), [])
      | c :: more => if c == q then (some (id, some more), []) else (some (id, none), more)
    else (none, q :: rest)
  | [] => (none, [])

def afterSystemId (d : Doctype) (cs : List Char) : Doctype × List Char :=
  match cs.dropWhile isTagBlank with
  | [] => ({ d with broken := true }, [])
  | '>' :: rest => (d, rest)
  | rest => d.skipped rest

def atSystemId (d : Doctype) (cs : List Char) : Doctype × List Char :=
  match identifier cs with
  | (some (id, some rest), _) => afterSystemId { d with systemId := some id } rest
  | (some (id, none), rest) => ({ d with systemId := some id, broken := true }, rest)
  | (none, rest) => { d with broken := true }.skipped rest

def afterPublicId (d : Doctype) (cs : List Char) : Doctype × List Char :=
  match cs.dropWhile isTagBlank with
  | '>' :: rest => (d, rest)
  | rest => d.atSystemId rest

def atPublicId (d : Doctype) (cs : List Char) : Doctype × List Char :=
  match identifier cs with
  | (some (id, some rest), _) => afterPublicId { d with publicId := some id } rest
  | (some (id, none), rest) => ({ d with publicId := some id, broken := true }, rest)
  | (none, rest) => { d with broken := true }.skipped rest

def afterName (d : Doctype) (cs : List Char) : Doctype × List Char :=
  match cs.dropWhile isTagBlank with
  | [] => ({ d with broken := true }, [])
  | '>' :: rest => (d, rest)
  | rest =>
    if startsWithWord "public" rest then d.atPublicId (rest.drop 6)
    else if startsWithWord "system" rest then d.atSystemId (rest.drop 6)
    else { d with broken := true }.skipped rest

def endsName (c : Char) : Bool := isTagBlank c || c == '>'

def read (cs : List Char) : Doctype × List Char :=
  match cs.dropWhile isTagBlank with
  | [] => ({ broken := true }, [])
  | '>' :: rest => ({ broken := true }, rest)
  | rest =>
    let name := (rest.takeWhile (!endsName ·)).map Char.toLower
    afterName { name := some (String.ofList name) } (rest.dropWhile (!endsName ·))

def oldPublicIds : List String := [
  "-//advasoft ltd//dtd html 3.0 aswedit + extensions//",
  "-//as//dtd html 3.0 aswedit + extensions//",
  "-//ietf//dtd html 2.0 level 1//",
  "-//ietf//dtd html 2.0 level 2//",
  "-//ietf//dtd html 2.0 strict level 1//",
  "-//ietf//dtd html 2.0 strict level 2//",
  "-//ietf//dtd html 2.0 strict//",
  "-//ietf//dtd html 2.0//",
  "-//ietf//dtd html 2.1e//",
  "-//ietf//dtd html 3.0//",
  "-//ietf//dtd html 3.2 final//",
  "-//ietf//dtd html 3.2//",
  "-//ietf//dtd html 3//",
  "-//ietf//dtd html level 0//",
  "-//ietf//dtd html level 1//",
  "-//ietf//dtd html level 2//",
  "-//ietf//dtd html level 3//",
  "-//ietf//dtd html strict level 0//",
  "-//ietf//dtd html strict level 1//",
  "-//ietf//dtd html strict level 2//",
  "-//ietf//dtd html strict level 3//",
  "-//ietf//dtd html strict//",
  "-//ietf//dtd html//",
  "-//metrius//dtd metrius presentational//",
  "-//microsoft//dtd internet explorer 2.0 html strict//",
  "-//microsoft//dtd internet explorer 2.0 html//",
  "-//microsoft//dtd internet explorer 2.0 tables//",
  "-//microsoft//dtd internet explorer 3.0 html strict//",
  "-//microsoft//dtd internet explorer 3.0 html//",
  "-//microsoft//dtd internet explorer 3.0 tables//",
  "-//netscape comm. corp.//dtd html//",
  "-//netscape comm. corp.//dtd strict html//",
  "-//o'reilly and associates//dtd html 2.0//",
  "-//o'reilly and associates//dtd html extended 1.0//",
  "-//o'reilly and associates//dtd html extended relaxed 1.0//",
  "-//softquad software//dtd hotmetal pro 6.0::19990601::extensions to html 4.0//",
  "-//softquad//dtd hotmetal pro 4.0::19971010::extensions to html 4.0//",
  "-//spyglass//dtd html 2.0 extended//",
  "-//sq//dtd html 2.0 hotmetal + extensions//",
  "-//sun microsystems corp.//dtd hotjava html//",
  "-//sun microsystems corp.//dtd hotjava strict html//",
  "-//w3c//dtd html 3 1995-03-24//",
  "-//w3c//dtd html 3.2 draft//",
  "-//w3c//dtd html 3.2 final//",
  "-//w3c//dtd html 3.2//",
  "-//w3c//dtd html 3.2s draft//",
  "-//w3c//dtd html 4.0 frameset//",
  "-//w3c//dtd html 4.0 transitional//",
  "-//w3c//dtd html experimental 19960712//",
  "-//w3c//dtd html experimental 970421//",
  "-//w3c//dtd w3 html//",
  "-//w3o//dtd w3 html 3.0//",
  "-//webtechs//dtd mozilla html 2.0//",
  "-//webtechs//dtd mozilla html//"]

def oldWholePublicIds : List String := [
  "-//w3o//dtd w3 html strict 3.0//en//",
  "-/w3c/dtd html 4.0 transitional/en",
  "html"]

/-- Old only where no system identifier is given. -/
def oldAlonePublicIds : List String := [
  "-//w3c//dtd html 4.01 frameset//",
  "-//w3c//dtd html 4.01 transitional//"]

def oldSystemPath : List String :=
  ["www.ibm.com", "data", "dtd", "v11", "ibmxhtml1-transitional.dtd"]

def oldSystemId : String := "/".intercalate ("http:" :: "" :: oldSystemPath)

def isOld (d : Doctype) : Bool :=
  let publicId := (d.publicId.getD "").toList.map Char.toLower
  let systemId := (d.systemId.getD "").toList.map Char.toLower
  let begins (ids : List String) := ids.any fun id => id.toList.isPrefixOf publicId
  d.broken || d.name != some "html" ||
    (d.publicId.isSome && oldWholePublicIds.contains (String.ofList publicId)) ||
    (d.systemId.isSome && systemId == oldSystemId.toList) ||
    begins oldPublicIds || (d.systemId.isNone && begins oldAlonePublicIds)

end Doctype
end DomQuery.Markup

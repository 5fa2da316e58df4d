import DomQuery.Markup.Token.Doctype
import DomQuery.Text.Blank
import DomQuery.Text.Lowercase

/-!
Tags that name the character encoding of a page: by a `charset` attribute, or by the content of one
that stands for the header `Content-Type`.
-/
namespace DomQuery.Markup.Encoding

def value? : List Char → Option (List Char)
  | [] => none
  | c :: rest =>
    if Doctype.isQuote c then
      if rest.contains c then some (rest.takeWhile (· != c)) else none
    else some ((c :: rest).takeWhile fun c => !Text.isAsciiBlank c && c != ';')

def inContent? : List Char → Option (List Char)
  | [] => none
  | c :: rest =>
    if startsWithWord "charset" (c :: rest) then
      match (rest.drop 6).dropWhile Text.isAsciiBlank with
      | '=' :: more => value? (more.dropWhile Text.isAsciiBlank)
      | _ => inContent? rest
    else inContent? rest

def isContentType (tag : Tag) : Bool :=
  (tag.attributes.get? "http-equiv").any fun value => Text.asciiLowercase value == "content-type"

end Encoding

def Tag.namesEncoding (tag : Tag) : Bool :=
  (tag.attributes.get? "charset").isSome ||
    (Encoding.isContentType tag &&
      (tag.attributes.get? "content").any fun content =>
        (Encoding.inContent? content.toList).isSome)

end DomQuery.Markup

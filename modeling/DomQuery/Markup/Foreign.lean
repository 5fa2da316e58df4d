import DomQuery.Markup.Token
import DomQuery.Document.Basic
import DomQuery.Text.Lowercase

/-!
Elements and attributes of SVG and MathML. Markup is read in lower case, and these languages have
names with capitals; attributes with one of the known name spaces are known by their local names.
-/
namespace DomQuery.Markup.Foreign

def svgNames : List String := [
  "altGlyph", "altGlyphDef", "altGlyphItem", "animateColor", "animateMotion", "animateTransform",
  "clipPath", "feBlend", "feColorMatrix", "feComponentTransfer", "feComposite",
  "feConvolveMatrix", "feDiffuseLighting", "feDisplacementMap", "feDistantLight", "feDropShadow",
  "feFlood", "feFuncA", "feFuncB", "feFuncG", "feFuncR", "feGaussianBlur", "feImage", "feMerge",
  "feMergeNode", "feMorphology", "feOffset", "fePointLight", "feSpecularLighting", "feSpotLight",
  "feTile", "feTurbulence", "foreignObject", "glyphRef", "linearGradient", "radialGradient",
  "textPath"]

def svgAttributes : List String := [
  "attributeName", "attributeType", "baseFrequency", "baseProfile", "calcMode", "clipPathUnits",
  "diffuseConstant", "edgeMode", "filterUnits", "glyphRef", "gradientTransform", "gradientUnits",
  "kernelMatrix", "kernelUnitLength", "keyPoints", "keySplines", "keyTimes", "lengthAdjust",
  "limitingConeAngle", "markerHeight", "markerUnits", "markerWidth", "maskContentUnits",
  "maskUnits", "numOctaves", "pathLength", "patternContentUnits", "patternTransform",
  "patternUnits", "pointsAtX", "pointsAtY", "pointsAtZ", "preserveAlpha", "preserveAspectRatio",
  "primitiveUnits", "refX", "refY", "repeatCount", "repeatDur", "requiredExtensions",
  "requiredFeatures", "specularConstant", "specularExponent", "spreadMethod", "startOffset",
  "stdDeviation", "stitchTiles", "surfaceScale", "systemLanguage", "tableValues", "targetX",
  "targetY", "textLength", "viewBox", "viewTarget", "xChannelSelector", "yChannelSelector",
  "zoomAndPan"]

def withCapitals (names : List String) (name : String) : String :=
  (names.find? fun known => Text.asciiLowercase known == name).getD name

def prefixedNames : List (String × String) := [
  ("xlink:actuate", "actuate"), ("xlink:arcrole", "arcrole"), ("xlink:href", "href"),
  ("xlink:role", "role"), ("xlink:show", "show"), ("xlink:title", "title"),
  ("xlink:type", "type"), ("xml:lang", "lang"), ("xml:space", "space"), ("xmlns:xlink", "xlink")]

def localName (name : String) : String := ((prefixedNames.lookup name)).getD name

def attributeName (ns : Namespace) (name : String) : String :=
  match ns with
  | .html => name
  | .svg => localName (withCapitals svgAttributes name)
  | .mathMl => if name == "definitionurl" then "definitionURL" else localName name

/-- Attributes whose names have become equal are one: it stands first and has the last value. -/
def attributes (ns : Namespace) (given : Entries String) : Entries String :=
  Entries.ofPairs (given.map fun (name, value) => (attributeName ns name, value))

def tagName (ns : Namespace) (name : String) : String :=
  match ns with
  | .svg => withCapitals svgNames name
  | _ => name

def breakouts : List String := [
  "b", "big", "blockquote", "body", "br", "center", "code", "dd", "div", "dl", "dt", "em", "embed",
  "h1", "h2", "h3", "h4", "h5", "h6", "head", "hr", "i", "img", "li", "listing", "menu", "meta",
  "nobr", "ol", "p", "pre", "ruby", "s", "small", "span", "strong", "strike", "sub", "sup",
  "table", "tt", "u", "ul", "var"]

def breaksOut (tag : Tag) : Bool :=
  breakouts.contains tag.name ||
    (tag.name == "font" && tag.attributes.any fun (name, _) =>
      name == "color" || name == "face" || name == "size")

def holdsText (ns : Namespace) (name : String) : Bool :=
  ns == .mathMl && ["mi", "mo", "mn", "ms", "mtext"].contains name

def holdsHtml (ns : Namespace) (name : String) : Bool :=
  ns == .svg && ["foreignObject", "desc", "title"].contains name

end DomQuery.Markup.Foreign

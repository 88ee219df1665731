import Installer.Text.Indent

/-!
# Elements of XML and their text

An element has nothing in it, a text, or elements. Every element starts on a line of its own, two
spaces further in than the element around it; the tag that closes an element with elements in it
stands on a line of its own as well. The five characters with a meaning of their own are written as
entities, in attributes and in texts alike.
-/

set_option autoImplicit false

namespace Installer.Xml

/-- A name and a value. -/
abbrev Attribute := String × String

/-- An element. -/
inductive Element
  /-- An element with nothing in it. -/
  | leaf (name : String) (attributes : List Attribute)
  /-- An element with a text in it. -/
  | text (name : String) (attributes : List Attribute) (content : String)
  /-- An element with elements in it. -/
  | node (name : String) (attributes : List Attribute) (children : List Element)
  deriving Repr

/-- A character in a text or in the value of an attribute. -/
def escapeChar (c : Char) : List Char :=
  if c = '<' then ['&', 'l', 't', ';']
  else if c = '>' then ['&', 'g', 't', ';']
  else if c = '&' then ['&', 'a', 'm', 'p', ';']
  else if c = '\'' then ['&', 'a', 'p', 'o', 's', ';']
  else if c = '"' then ['&', 'q', 'u', 'o', 't', ';']
  else [c]

def escape (s : String) : List Char := s.toList.flatMap escapeChar

/-- An attribute, after the space that parts it from what stands before. -/
def writeAttribute (a : Attribute) : List Char :=
  ' ' :: a.1.toList ++ '=' :: '"' :: escape a.2 ++ ['"']

/-- The name and the attributes of a tag. -/
def writeTag (name : String) (attributes : List Attribute) : List Char :=
  name.toList ++ attributes.flatMap writeAttribute

/-- The tag that closes an element. -/
def writeClosing (name : String) : List Char := '<' :: '/' :: name.toList ++ ['>']

namespace Element

mutual
/-- The characters of an element that stands `level` levels deep, with the new line before it. -/
def write (level : Nat) : Element → List Char
  | .leaf name attributes =>
    Text.newLine level ++ '<' :: writeTag name attributes ++ ['/', '>']
  | .text name attributes content =>
    Text.newLine level ++ '<' :: writeTag name attributes ++ '>' :: escape content ++
      writeClosing name
  | .node name attributes children =>
    Text.newLine level ++ '<' :: writeTag name attributes ++ '>' ::
      writeAll (level + 1) children ++ Text.newLine level ++ writeClosing name
/-- The characters of elements in their order. -/
def writeAll (level : Nat) : List Element → List Char
  | [] => []
  | e :: rest => write level e ++ writeAll level rest
end

/-- What a document starts with. -/
def declaration : String := "<?xml version=\"1.0\" encoding=\"utf-8\"?>"

/-- The text of the document whose root is an element. -/
def document (root : Element) : String :=
  String.ofList (declaration.toList ++ write 0 root ++ ['\n'])

end Element
end Installer.Xml

import Growth.Document.Scalar
import Growth.Document.Tag

/-! The tokens of documents. -/

namespace Growth.Document

/-- A piece of a name or a value. -/
inductive Piece where
  /-- A scalar, whose tag is a piece of its own. -/
  | scalar (text : List Char) (style : Style)
  /-- The name by which what follows can be meant again. -/
  | anchor (name : List Char)
  | tag (t : Tag)
  /-- What has the anchor with this name. -/
  | reference (name : List Char)
deriving DecidableEq, Repr

/-- A token. -/
inductive Token where
  | piece (p : Piece)
  | directive (d : Directive)
  | documentStart
  | documentEnd
  /-- A mapping in lines begins. -/
  | mappingStart
  /-- A mapping in lines ends. -/
  | mappingEnd
  | openBrace
  | closeBrace
  | comma
  /-- A name begins. -/
  | key
  /-- A value begins. -/
  | value
deriving DecidableEq, Repr

end Growth.Document

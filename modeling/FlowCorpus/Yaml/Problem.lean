import FlowCorpus.Fault
import FlowCorpus.Yaml.Source

/-!
# Problems

What is wrong with a source. A problem is a cause with its place, and often what was being read when
it came up; its wording shows the lines around the places.
-/

set_option autoImplicit false

namespace FlowCorpus.Yaml

open FlowCorpus.Text

/-- What is being read when a problem comes up. -/
inductive Activity where
  | nextToken
  | simpleKey
  | directive
  | directiveUri
  | aliasName
  | anchorName
  | tag
  | tagUri
  | blockScalar
  | quotedScalar
  | escapedScalar
  | node
  | blockNode
  | flowNode
  | blockItems
  | blockFields
  | flowItems
  | flowFields
  | singleDocument
  | repeatedAnchor (name : String)
  | mapping
  | orderedMap
  | pairs
deriving DecidableEq, Repr

def Activity.text : Activity → String
  | .nextToken => "while scanning for the next token"
  | .simpleKey => "while scanning a simple key"
  | .directive => "while scanning a directive"
  | .directiveUri => "while parsing a directive"
  | .aliasName => "while scanning an alias"
  | .anchorName => "while scanning an anchor"
  | .tag => "while scanning a tag"
  | .tagUri => "while parsing a tag"
  | .blockScalar => "while scanning a block scalar"
  | .quotedScalar => "while scanning a quoted scalar"
  | .escapedScalar => "while scanning a double-quoted scalar"
  | .node => "while parsing a node"
  | .blockNode => "while parsing a block node"
  | .flowNode => "while parsing a flow node"
  | .blockItems => "while parsing a block collection"
  | .blockFields => "while parsing a block mapping"
  | .flowItems => "while parsing a flow sequence"
  | .flowFields => "while parsing a flow mapping"
  | .singleDocument => "expected a single document in the stream"
  | .repeatedAnchor name => "found duplicate anchor " ++ quoted name ++ "; first occurrence"
  | .mapping => "while constructing a mapping"
  | .orderedMap => "while constructing an ordered map"
  | .pairs => "while constructing pairs"

/-- What is wrong. -/
inductive Cause where
  /-- Something else than what is there. -/
  | expected (what found : String)
  /-- A separator or the end of a flow collection, instead of a token. -/
  | expectedInFlow (closing : Char) (found : String)
  | strayCharacter (c : Char)
  | missingColon
  | notAllowedHere (what : String)
  | zeroIndentation
  | unknownEscape (found : String)
  | endOfSource
  | documentMark
  | notUnicode
  | repeatedVersion
  | unknownVersion
  | repeatedHandle (handle : String)
  | unknownHandle (handle : String)
  | unknownAlias (name : String)
  | secondAnchor
  | anotherDocument
  | unknownTag (tag : String)
  | unhashableKey
  | notAscii
  | notBase64
deriving DecidableEq, Repr

def Cause.text : Cause → String
  | .expected what found => "expected " ++ what ++ ", but found " ++ found
  | .expectedInFlow closing found =>
    "expected ',' or '" ++ String.singleton closing ++ "', but got " ++ found
  | .strayCharacter c =>
    "found character " ++ quoted (String.singleton c) ++ " that cannot start any token"
  | .missingColon => "could not find expected ':'"
  | .notAllowedHere what => what ++ " are not allowed here"
  | .zeroIndentation => "expected indentation indicator in the range 1-9, but found 0"
  | .unknownEscape found => "found unknown escape character " ++ found
  | .endOfSource => "found unexpected end of stream"
  | .documentMark => "found unexpected document separator"
  | .notUnicode => "'utf-8' codec can't decode bytes"
  | .repeatedVersion => "found duplicate YAML directive"
  | .unknownVersion => "found incompatible YAML document (version 1.* is required)"
  | .repeatedHandle handle => "duplicate tag handle " ++ quoted handle
  | .unknownHandle handle => "found undefined tag handle " ++ quoted handle
  | .unknownAlias name => "found undefined alias " ++ quoted name
  | .secondAnchor => "second occurrence"
  | .anotherDocument => "but found another document"
  | .unknownTag tag => "could not determine a constructor for the tag " ++ quoted tag
  | .unhashableKey => "found unhashable key"
  | .notAscii => "failed to convert base64 data into ascii"
  | .notBase64 => "failed to decode base64 data"

/-- A problem of a source. -/
inductive Problem where
  /-- A character that no source may hold. -/
  | unacceptable (c : Char) (index : Nat)
  /-- A cause at a place, with the activity that was going on and where that began. -/
  | located (activity : Option (Activity × Option Place)) (cause : Cause) (place : Place)
deriving DecidableEq, Repr

def Problem.text (source : List Char) : Problem → String
  | .unacceptable c index =>
    "unacceptable character #x" ++ String.ofList (hex 4 c.toNat) ++
      ": special characters are not allowed\n  in \"<unicode string>\", position " ++
      toString index
  | .located activity cause place =>
    let start := activity.bind Prod.snd
    let shown := start.filter fun p => p.line != place.line || p.column != place.column
    "\n".intercalate
      ((activity.map fun a => a.1.text).toList ++ (shown.map (Place.text source)).toList ++
        [cause.text, place.text source])

/-- Why a source has no value: it has a problem, or a value in it is faulty. -/
inductive Failure where
  | problem (p : Problem)
  | fault (f : Fault)
deriving DecidableEq, Repr

end FlowCorpus.Yaml

import CurveCalc.Deriving.Token

/-!
# What can be wrong with a declaration

The reasons why no method can be derived for a declaration, and their wording.
-/

namespace CurveCalc

namespace Deriving

/-- What may be due at some point of a declaration. -/
inductive Expected where
  /-- A certain keyword or mark. -/
  | token (text : String)
  | identifier
  | underscore
  | integer
  | integerLiteral
  | stringLiteral
  | unsuffixedInteger
  | literal
  | lifetime
  | expression
  /-- A group in certain brackets. -/
  | group (delimiter : Delimiter)
  /-- A group in any brackets. -/
  | anyGroup
  /-- A name after the `::` of a path. -/
  | segment
  /-- What a label can stand before. -/
  | loopOrBlock
  /-- The end of a range that includes its end. -/
  | upperBound
deriving DecidableEq, Repr

def Delimiter.wording : Delimiter → String
  | .parenthesis => "parentheses"
  | .bracket => "square brackets"
  | .brace => "curly braces"

def backquoted (text : String) : String := "`" ++ text ++ "`"

def Expected.wording : Expected → String
  | .token text => backquoted text
  | .identifier => "identifier"
  | .underscore => "underscore"
  | .integer => "integer"
  | .integerLiteral => "integer literal"
  | .stringLiteral => "string literal"
  | .unsuffixedInteger => "unsuffixed integer"
  | .literal => "literal"
  | .lifetime => "lifetime"
  | .expression => "an expression"
  | .group d => d.wording
  | .anyGroup => "delimiter"
  | .segment => "path segment after `::`"
  | .loopOrBlock => "loop or block expression"
  | .upperBound => "range upper bound"

/-- The wording of several things of which one is due. -/
def Expected.oneOf : List Expected → String
  | [] => "unexpected token"
  | [a] => "expected " ++ a.wording
  | [a, b] => "expected " ++ a.wording ++ " or " ++ b.wording
  | choices => "expected one of: " ++ ", ".intercalate (choices.map Expected.wording)

/-- Why no method can be derived. -/
inductive Fault where
  /-- The text is no sequence of tokens. -/
  | notTokens
  /-- Something else stands where one of these is due. -/
  | expected (choices : List Expected)
  /-- The text ends where one of these is due. -/
  | expectedAtEnd (choices : List Expected)
  /-- A keyword stands where an identifier is due. -/
  | keyword (word : List Char)
  /-- A token after the end of what was read, where nothing or this mark is due. -/
  | unexpected (due : Option String)
  /-- A comparison of a comparison. -/
  | chainedComparison
  /-- A conversion with something behind it that needs parentheses. -/
  | castFollowedBy (what : String)
  /-- A labelled loop where only one in parentheses can stand. -/
  | bareLoop
  /-- The value that a method is called on does not come first; `again` if it came before. -/
  | misplacedReceiver (again : Bool)
  /-- The place of a member does not fit in 32 bits. -/
  | indexTooLarge
  /-- The place of a member has a sign. -/
  | signedIndex
  /-- The attribute has no arguments. -/
  | noArguments
  /-- The attribute is given a value and not arguments. -/
  | valueForArguments
  /-- A tag that means nothing. -/
  | unknownTag (tag : List Char)
  /-- A tag that has to be there is not. -/
  | missingTags
deriving DecidableEq, Repr

def Fault.message : Fault → String
  | .notTokens => "cannot parse string into token stream"
  | .expected choices => Expected.oneOf choices
  | .expectedAtEnd choices => "unexpected end of input, " ++ Expected.oneOf choices
  | .keyword word =>
    "expected identifier, found keyword " ++ backquoted (String.ofList word)
  | .unexpected none => "unexpected token"
  | .unexpected (some due) => "unexpected token, expected " ++ backquoted due
  | .chainedComparison => "comparison operators cannot be chained"
  | .castFollowedBy what => "casts cannot be followed by " ++ what
  | .bareLoop => "parentheses required"
  | .misplacedReceiver again =>
    "unexpected " ++ (if again then "second " else "") ++ "method receiver"
  | .indexTooLarge => "number too large to fit in target type"
  | .signedIndex => "invalid digit found in string"
  | .noArguments => "expected attribute arguments in parentheses: #[error(...)]"
  | .valueForArguments => "expected parentheses: #[error(...)]"
  | .unknownTag tag => "unknown tag " ++ backquoted (String.ofList tag)
  | .missingTags =>
    "`ErrorKind` requires the `message` and `labels` tags in an `error` attribute"

end Deriving

end CurveCalc

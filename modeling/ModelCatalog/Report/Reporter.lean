import ModelCatalog.Report.Descriptions
import ModelCatalog.Validation

/-!
# Reports

Violations and failures as a person reads them: the lines, the code, what it means, and the detail.
-/

namespace ModelCatalog

/-- Writes reports with the descriptions of the codes. -/
structure Reporter where
  matchFailures : Descriptions := .matchFailures
  validUsage : Descriptions := .validUsage

namespace Reporter

def violation (reporter : Reporter) (violation : Violation) : String :=
  let code := violation.rule.name
  "line " ++ toString violation.line ++ ": " ++ code ++ ": " ++ reporter.validUsage.describe code ++
    parenthesized violation.detail.text?

/-- The tags under resolution stand on a line of their own. -/
def tagStack (stack : List String) : String :=
  if stack.isEmpty then "" else "\n  tag stack: " ++ " -> ".intercalate stack

def matchFailure (reporter : Reporter) (failure : MatchFailure) : String :=
  let code := failure.kind.name
  "filter line " ++ toString failure.filterLine ++ ", manifest line " ++
    toString failure.manifestLine ++ ": " ++ code ++ ": " ++ reporter.matchFailures.describe code ++
    parenthesized failure.mismatch.detail ++ tagStack failure.tagStack

def unknownTags (descriptions : Descriptions) (tags : NameSet) : String :=
  unknownTagsCode ++ ": " ++ descriptions.describe unknownTagsCode ++
    parenthesized (tags.join ", ")

def filterInvalidity (reporter : Reporter) : FilterInvalidity → String
  | .broken violation => reporter.violation violation
  | .unknownTags tags => unknownTags reporter.validUsage tags

def manifestInvalidity (reporter : Reporter) : ManifestInvalidity → String
  | .broken violation => reporter.violation violation
  | .unfilled line =>
    "line " ++ toString line ++ ": " ++ unfilledValueCode ++ ": " ++
      reporter.matchFailures.describe unfilledValueCode
  | .baseModel failure => "base model filter: " ++ reporter.matchFailure failure
  | .unknownTags tags => unknownTags reporter.matchFailures tags
  | .tagMismatch tag failure => "tag " ++ tag ++ ": " ++ reporter.matchFailure failure

end Reporter

end ModelCatalog

import ModelCatalog.Number.Integer
import ModelCatalog.Number.Shortest
import ModelCatalog.Text.Blank

/-!
# Literals

The texts of terminal elements and the values they write. Blanks around a text do not count.
-/

namespace ModelCatalog

open Number (Binary64)

/-- A text without the blanks at either end. -/
def trimmed (text : String) : String := String.ofList (Text.trim text.toList)

namespace Literal

/-- The spellings of true. -/
def trueWords : List String := ["true", "1", "True", "TRUE"]

/-- The spellings of false. -/
def falseWords : List String := ["false", "0", "False", "FALSE"]

def bool? (text : String) : Option Bool :=
  let word := trimmed text
  if word ∈ trueWords then some true else if word ∈ falseWords then some false else none

def int? (text : String) : Option Int := Number.readInteger (Text.trim text.toList)

def float? (text : String) : Option Binary64 := Binary64.read? (Text.trim text.toList)

end Literal

/-- A float that is seen to be one, by its point or its exponent. -/
def showFloat (value : Binary64) : String := value.render .marked

/-- A float as the bound of a comparison shows it. -/
def showBound (value : Binary64) : String := value.render .plain

end ModelCatalog

import ModelCatalog.Tag.Identifier
import ModelCatalog.NameSet
import ModelCatalog.Text.Blank
import ModelCatalog.Text.Quoted

/-!
# Condensed tag expressions

An expression writes a set of tag identifiers in short form. Its components stand between commas. A
component is a chain of names, a group in braces, or a chain, a separator and a group:

* `a::b` stands for `a::b`, the separator `::` naming the nested tag only;
* `a.b` stands for `a` and `a::b`, the separator `.` naming the outer tag as well;
* `a::{b,c}` and `a.{b,c}` continue the chain with every component of the group.

Blanks count nowhere. An expression is cut into tokens, its braces are checked, and then it is
expanded component by component; the first component with a mistake decides the error.
-/

namespace ModelCatalog

namespace Condensed

/-- What is wrong with an expression. -/
inductive Error where
  | unbalancedBraces
  | emptyComponent
  | leadingSeparator
  | trailingSeparator
  | adjacentSeparators
  | nestingAfterGroup
  | missingSeparatorBeforeGroup
  | invalidSegment (segment : String)
deriving DecidableEq, Repr

def Error.message : Error → String
  | .unbalancedBraces => "unbalanced braces"
  | .emptyComponent => "empty component between commas"
  | .leadingSeparator => "expression starts with a separator"
  | .trailingSeparator => "expression ends with a separator"
  | .adjacentSeparators => "two separators in a row"
  | .nestingAfterGroup => "a brace group must be the last atom of its component"
  | .missingSeparatorBeforeGroup => "missing `::` or `.` before `\x7b`"
  | .invalidSegment segment => "invalid tag segment " ++ Text.quoted segment

/-! ## Tokens -/

/-- A delimiter, or a run of characters between two delimiters. -/
inductive Token where
  | opening
  | closing
  | comma
  | text (word : List Char)
deriving DecidableEq, Repr

/-- The token of a delimiter. -/
def delimiter? : Char → Option Token
  | '\x7b' => some .opening
  | '\x7d' => some .closing
  | ',' => some .comma
  | _ => none

/-- Cut a word at its delimiters, which are tokens themselves. -/
def tokens : List Char → List Token
  | [] => []
  | c :: rest =>
    match delimiter? c with
    | some token => token :: tokens rest
    | none =>
      match tokens rest with
      | .text word :: after => .text (c :: word) :: after
      | after => .text [c] :: after

/-- With `depth` groups open, every closing brace closes a group and none stays open. -/
def balanced (depth : Nat) : List Token → Bool
  | [] => depth == 0
  | .opening :: rest => balanced (depth + 1) rest
  | .closing :: rest =>
    match depth with
    | 0 => false
    | depth + 1 => balanced depth rest
  | .comma :: rest => balanced depth rest
  | .text _ :: rest => balanced depth rest

/-- The number of open groups after a token. -/
def Token.depthAfter (depth : Nat) : Token → Nat
  | .opening => depth + 1
  | .closing => depth - 1
  | _ => depth

/-- The components of an expression, the first apart: it is cut at the commas outside all groups. -/
def components (depth : Nat) : List Token → List Token × List (List Token)
  | [] => ([], [])
  | token :: rest =>
    if token = .comma ∧ depth = 0 then
      let (first, others) := components 0 rest
      ([], first :: others)
    else
      let (first, others) := components (token.depthAfter depth) rest
      (token :: first, others)

/-- The tokens up to the brace that closes the group under way, with `depth` groups open inside it,
    and the tokens behind that brace. -/
def closeGroup (depth : Nat) : List Token → Option (List Token × List Token)
  | [] => none
  | .closing :: rest =>
    match depth with
    | 0 => some ([], rest)
    | depth + 1 => (closeGroup depth rest).map fun (body, after) => (.closing :: body, after)
  | .opening :: rest =>
    (closeGroup (depth + 1) rest).map fun (body, after) => (.opening :: body, after)
  | token :: rest => (closeGroup depth rest).map fun (body, after) => (token :: body, after)

/-! ## Chains -/

/-- How a name is nested in the chain before it: alone, or with the outer tag named as well. -/
inductive Separator where
  | strict
  | accumulating
deriving DecidableEq, Repr

/-- The first piece of a word and the pieces after it, each with the separator before it. A single
    colon separates nothing: it and all that follows stay in the piece. -/
def pieces : List Char → List Char × List (Separator × List Char)
  | [] => ([], [])
  | ':' :: ':' :: rest =>
    let (piece, others) := pieces rest
    ([], (.strict, piece) :: others)
  | '.' :: rest =>
    let (piece, others) := pieces rest
    ([], (.accumulating, piece) :: others)
  | ':' :: rest => (':' :: rest, [])
  | c :: rest =>
    let (piece, others) := pieces rest
    (c :: piece, others)

/-- The chains that a component names, and the deepest of them, which a group continues. -/
structure Expansion where
  chains : List Chain
  deepest : Chain
deriving DecidableEq, Repr

/-- The error of a missing name: `inner` says whether a separator stands before it, `last` whether
    none follows. -/
def missingName (inner last : Bool) : Error :=
  if inner then if last then .trailingSeparator else .adjacentSeparators else .leadingSeparator

/-- A piece of a chain has to be a name. -/
def checkPiece (inner last : Bool) (piece : List Char) : Except Error Unit :=
  if piece = [] then .error (missingName inner last)
  else if piece.all isNameChar then .ok ()
  else .error (.invalidSegment (String.ofList piece))

/-- Expand the chain that `outer` begins and the given piece and its successors continue. -/
def expandPieces (outer : Chain) (inner : Bool) (piece : List Char) :
    List (Separator × List Char) → Except Error Expansion
  | [] => do
    checkPiece inner true piece
    return { chains := [outer ++ [piece]], deepest := outer ++ [piece] }
  | (separator, next) :: others => do
    checkPiece inner false piece
    let expansion ← expandPieces (outer ++ [piece]) true next others
    match separator with
    | .strict => return expansion
    | .accumulating => return { expansion with chains := (outer ++ [piece]) :: expansion.chains }

/-- Expand a chain without groups. -/
def expandChain (word : List Char) : Except Error Expansion :=
  let (piece, others) := pieces word
  expandPieces [] false piece others

/-- The chain before a group and the separator between the two. -/
def splitGroupPrefix (word : List Char) : Except Error (List Char × Separator) :=
  match word.reverse with
  | ':' :: ':' :: chain => .ok (chain.reverse, .strict)
  | '.' :: chain => .ok (chain.reverse, .accumulating)
  | _ => .error .missingSeparatorBeforeGroup

/-- Continue the deepest chain of an expansion with every chain of a group. -/
def Expansion.continue (expansion : Expansion) (separator : Separator) (inner : List Chain) :
    List Chain :=
  let named :=
    match separator with
    | .strict => expansion.chains.filter (· ≠ expansion.deepest)
    | .accumulating => expansion.chains
  named ++ inner.map (expansion.deepest ++ ·)

/-- Expand what stands before a group, continued with the chains of the group. -/
def expandBefore (before : List Token) (inner : List Chain) : Except Error (List Chain) :=
  match before with
  | [] => .ok inner
  | [.text word] => do
    let (chain, separator) ← splitGroupPrefix word
    if chain = [] then throw .leadingSeparator
    let expansion ← expandChain chain
    return expansion.continue separator inner
  | _ => .error .nestingAfterGroup

/-! ## Expressions -/

theorem closeGroup_length {depth : Nat} {tokens body after : List Token}
    (h : closeGroup depth tokens = some (body, after)) : body.length < tokens.length := by
  induction tokens generalizing depth body after with
  | nil => simp [closeGroup] at h
  | cons token rest ih =>
    cases token with
    | closing =>
      cases depth with
      | zero => simp only [closeGroup, Option.some.injEq, Prod.mk.injEq] at h; simp [← h.1]
      | succ depth =>
        simp only [closeGroup, Option.map_eq_some_iff, Prod.mk.injEq] at h
        obtain ⟨⟨body, after⟩, closed, rfl, rfl⟩ := h
        simpa using ih closed
    | opening | comma | text =>
      simp only [closeGroup, Option.map_eq_some_iff, Prod.mk.injEq] at h
      obtain ⟨⟨body, after⟩, closed, rfl, rfl⟩ := h
      simpa using ih closed

/-- Expand a component. `expand` expands the body of its group, which is shorter. -/
def expandComponent (component : List Token)
    (expand : (body : List Token) → body.length < component.length → Except Error (List Chain)) :
    Except Error (List Chain) :=
  if component = [] then .error .emptyComponent
  else
    match split : component.dropWhile (· ≠ .opening) with
    | [] =>
      match component with
      | [.text word] => return (← expandChain word).chains
      | _ => .error .emptyComponent
    | _ :: group =>
      match closed : closeGroup 0 group with
      | none => .error .unbalancedBraces
      | some (body, after) =>
        if after ≠ [] then .error .nestingAfterGroup
        else do
          let inner ← expand body (by
            have whole := congrArg List.length
              (List.takeWhile_append_dropWhile (p := (· ≠ Token.opening)) (l := component))
            rw [split, List.length_append, List.length_cons] at whole
            have := closeGroup_length closed
            omega)
          expandBefore (component.takeWhile (· ≠ .opening)) inner

theorem length_le_of_mem_components {depth : Nat} {tokens component : List Token}
    (h : component ∈ (components depth tokens).1 :: (components depth tokens).2) :
    component.length ≤ tokens.length := by
  induction tokens generalizing depth component with
  | nil => simp_all [components]
  | cons token rest ih =>
    simp only [components] at h
    split at h
    · rcases List.mem_cons.1 h with rfl | mem
      · simp
      · exact Nat.le_succ_of_le (ih mem)
    · rcases List.mem_cons.1 h with rfl | mem
      · simpa using ih List.mem_cons_self
      · exact Nat.le_succ_of_le (ih (List.mem_cons_of_mem _ mem))

/-- The components of an expression that is not empty. -/
def allComponents (tokens : List Token) : List (List Token) :=
  let (first, others) := components 0 tokens
  first :: others

/-- The chains of an expression. The empty one names none. -/
def expandExpression (tokens : List Token) : Except Error (List Chain) :=
  if tokens = [] then .ok []
  else do
    let expanded ← (allComponents tokens).attach.mapM fun component =>
      expandComponent component.1 fun body _ => expandExpression body
    return expanded.flatten
termination_by tokens.length
decreasing_by
  have := length_le_of_mem_components component.2
  omega

/-- The tags that an expression stands for. -/
def parse (text : String) : Except Error NameSet :=
  let tokens := tokens (Text.strip text.toList)
  if balanced 0 tokens then
    return NameSet.ofList ((← expandExpression tokens).map Chain.identifier)
  else .error .unbalancedBraces

end Condensed

end ModelCatalog

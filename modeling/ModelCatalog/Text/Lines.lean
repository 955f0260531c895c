/-!
# Lines

Positions in a text are counted in bytes of its UTF-8 form, lines from 1. A line counter walks
through a text once: each question for the line of a position has to be about the same position as the
last one or a later one.
-/

namespace ModelCatalog.Text

/-- The length of a word in bytes. -/
def byteLength (word : List Char) : Nat := word.foldr (fun c length => c.utf8Size + length) 0

/-- The number of line ends in a word. -/
def newlines (word : List Char) : Nat := word.count '\n'

/-- The number of line ends among the first `position` bytes of a word. -/
def newlinesBefore (position : Nat) : List Char → Nat
  | [] => 0
  | c :: rest =>
    if position = 0 then 0
    else (if c = '\n' then 1 else 0) + newlinesBefore (position - c.utf8Size) rest

/-- A walk through a text: what is left of it, and the position and the line it has reached. -/
structure LineCounter where
  rest : List Char
  position : Nat := 0
  line : Nat := 1

/-- The start of a walk. -/
def LineCounter.start (text : List Char) : LineCounter := { rest := text }

/-- Walk on to a position. -/
def LineCounter.advance (position : Nat) (counter : LineCounter) : LineCounter :=
  walk counter.rest counter.position counter.line
where
  walk (rest : List Char) (reached line : Nat) : LineCounter :=
    match rest with
    | [] => { rest := [], position := reached, line }
    | c :: after =>
      if reached < position then
        walk after (reached + c.utf8Size) (if c = '\n' then line + 1 else line)
      else { rest := c :: after, position := reached, line }

end ModelCatalog.Text

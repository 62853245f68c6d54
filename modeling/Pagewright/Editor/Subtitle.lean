/-!
# Subtitles

A text that stands beside a tag in the outline is shortened to 24 characters. A longer one keeps
its first 21 characters and an omission mark; where these end within a word, it is cut before the
last separator in them instead. A separator is a run of blanks, with the comma before it.

Separators are looked for from the left. Each takes up as many blanks as there are, and the next
one is looked for behind it (`Subtitle.separators`).
-/

namespace Pagewright

namespace Subtitle

/-- The greatest length of a subtitle. -/
def greatestLength : Nat := 24

/-- What stands for the part left out. -/
def omission : List Char := ['.', '.', '.']

/-- How many characters stay, at most, where something is left out. -/
def keptLength : Nat := greatestLength - omission.length

/-- How many blanks stand at the start. -/
def blankRun (cs : List Char) : Nat := (cs.takeWhile (· = ' ')).length

/-- How many characters the separator at the start takes up: a comma or none, then one blank or
    more. Nought where no separator stands there. -/
def separatorLength : List Char → Nat
  | [] => 0
  | c :: cs =>
      if c = ',' then
        if blankRun cs = 0 then 0 else blankRun cs + 1
      else blankRun (c :: cs)

/-- Where separators begin; the first character has this number, and so many characters at the
    start belong to a separator that has begun before. -/
def separatorsFrom (place : Nat) : Nat → List Char → List Nat
  | _, [] => []
  | within + 1, _ :: cs => separatorsFrom (place + 1) within cs
  | 0, c :: cs =>
      match separatorLength (c :: cs) with
      | 0 => separatorsFrom (place + 1) 0 cs
      | within + 1 => place :: separatorsFrom (place + 1) within cs

/-- Where the separators of a text begin, from left to right. -/
def separators (cs : List Char) : List Nat := separatorsFrom 0 0 cs

/-- How many characters of a long text stay. -/
def cut (cs : List Char) : Nat :=
  if (separators (cs.drop keptLength)).head? = some 0 then keptLength
  else (separators (cs.take keptLength)).getLast?.getD keptLength

/-- The characters of a text, shortened. -/
def shorten (cs : List Char) : List Char :=
  if cs.length ≤ greatestLength then cs else cs.take (cut cs) ++ omission

/-- A text as a subtitle. -/
def ofText (s : String) : String := String.ofList (shorten s.toList)

end Subtitle

end Pagewright

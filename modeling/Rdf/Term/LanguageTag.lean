/-!
Language tags: subtags of one to eight characters with hyphens between, the first of letters, the
others of letters and digits. They are kept in lower case.
-/

namespace Rdf.LanguageTag

/-- The parts between hyphens, at least one. -/
def subtags : List Char → List (List Char)
  | [] => [[]]
  | c :: cs =>
    if c = '-' then [] :: subtags cs
    else
      match subtags cs with
      | first :: others => (c :: first) :: others
      | [] => [[c]]

/-- Whether a subtag has one to eight characters, all of the given class. -/
def isSubtag (allowed : Char → Bool) (cs : List Char) : Bool :=
  1 ≤ cs.length && cs.length ≤ 8 && cs.all allowed

/-- Whether a text is a language tag. -/
def isValid (cs : List Char) : Bool :=
  match subtags cs with
  | [] => false
  | first :: others => isSubtag Char.isAlpha first && others.all (isSubtag Char.isAlphanum)

/-- The tag in lower case, if the text is one. -/
def read? (tag : String) : Option String :=
  let cs := tag.toList
  if isValid cs then some (String.ofList (cs.map Char.toLower)) else none

end Rdf.LanguageTag

/-
**Parts of a text.**

A text is cut into parts at the characters of a kind: into lines at line feeds, into words at
blanks.

Main definitions:

* `Tessera.cutAt` — the parts of a text between the characters that satisfy a predicate;
* `Tessera.words` — the words of a text.
-/

set_option autoImplicit false

namespace Tessera

/-- Cuts a text at every character that satisfies `p`; these characters belong to no part. -/
def cutAt (p : Char → Bool) : List Char → List (List Char)
  | [] => [[]]
  | c :: cs =>
      match cutAt p cs with
      | [] => [[c]]
      | part :: parts => if p c then [] :: part :: parts else (c :: part) :: parts

/-- The words of a text, separated by blanks and line feeds. -/
def words (cs : List Char) : List (List Char) :=
  (cutAt (fun c => c == ' ' || c == '\n') cs).filter fun word => !word.isEmpty

end Tessera

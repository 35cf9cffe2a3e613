namespace MiningClient.Text

structure Spacing where
  isSpace : Char → Bool
  /-- Ends a comment behind `//`; it is a blank itself. -/
  endsLine : Char → Bool
  /-- Comments between `/*` and `*/` may contain each other. -/
  nested : Bool

namespace Spacing

inductive Place
  | outside
  | lineComment
  /-- In a comment that is in so many others, behind a character. -/
  | comment (outer : Nat) (last : Option Char)

/-- What follows the blanks and comments. Of a comment that does not end a slash is left, at which
nothing else begins. -/
def skipFrom (s : Spacing) : Place → List Char → List Char
  | .outside, '/' :: '/' :: cs => skipFrom s .lineComment cs
  | .outside, '/' :: '*' :: cs => skipFrom s (.comment 0 none) cs
  | .outside, c :: cs => if s.isSpace c then skipFrom s .outside cs else c :: cs
  | .lineComment, c :: cs => skipFrom s (if s.endsLine c then .outside else .lineComment) cs
  | .comment outer last, c :: cs =>
    if last = some '*' ∧ c = '/' then
      skipFrom s (match outer with | 0 => .outside | outer + 1 => .comment outer none) cs
    else if s.nested ∧ last = some '/' ∧ c = '*' then skipFrom s (.comment (outer + 1) none) cs
    else skipFrom s (.comment outer (some c)) cs
  | .comment _ _, [] => ['/']
  | _, [] => []

def skip (s : Spacing) (cs : List Char) : List Char := s.skipFrom .outside cs

end Spacing
end MiningClient.Text

import EventSchema.Text.Blank
import EventSchema.Text.Words

namespace EventSchema.Format

def isMailChar (char : Char) : Bool :=
  char.isAlphanum || char ∈ ['.', '_', '%', '+', '-']

def isHostChar (char : Char) : Bool := char.isAlphanum || char = '.' || char = '-'

/-- A host ends in a point and two or more letters, with something before them. -/
def isHost (text : List Char) : Bool :=
  let last := text.reverse.takeWhile Char.isAlpha
  let before := text.reverse.dropWhile Char.isAlpha
  2 ≤ last.length &&
    match before with
    | '.' :: rest => !rest.isEmpty && rest.all isHostChar
    | _ => false

def isEmail (text : List Char) : Bool :=
  match Text.splitOn '@' text with
  | [mailbox, host] => !mailbox.isEmpty && mailbox.all isMailChar && isHost host
  | _ => false

def schemes : List String := ["http", "https", "ftp", "file", "s3", "gs"]

/-- What follows the scheme: a character that no punctuation mark of addresses nor blank is, one on
the same line, and then no blanks. -/
def isAddress : List Char → Bool
  | first :: second :: rest =>
    !(first ∈ ['/', '$', '.', '?', '#']) && !Text.isBlank first && second ≠ '\n' &&
      rest.all (!Text.isBlank ·)
  | _ => false

def isUri (text : List Char) : Bool :=
  schemes.any fun scheme => (Text.dropStart? (scheme ++ "://").toList text).any isAddress

end EventSchema.Format

/-!
# Inline html

The pieces of html that the inline rules put around what they match.
-/
namespace Reveal.Prose.Tag

def delStart : List Char := ['<', 'd', 'e', 'l', '>']

def delStop : List Char := ['<', '/', 'd', 'e', 'l', '>']

def strongStart : List Char := ['<', 's', 't', 'r', 'o', 'n', 'g', '>']

def strongStop : List Char := ['<', '/', 's', 't', 'r', 'o', 'n', 'g', '>']

def emStart : List Char := ['<', 'e', 'm', '>']

def emStop : List Char := ['<', '/', 'e', 'm', '>']

def linkStart : List Char := ['<', 'a', ' ', 'h', 'r', 'e', 'f', '=', '"']

def linkMiddle : List Char :=
  ['"', ' ', 't', 'a', 'r', 'g', 'e', 't', '=', '"', '_', 'b', 'l', 'a', 'n', 'k', '"', '>']

def linkStop : List Char := ['<', '/', 'a', '>']

def imageStart : List Char := ['<', 'i', 'm', 'g', ' ', 's', 'r', 'c', '=', '"']

def imageStop : List Char := ['"', ' ', '/', '>']

/-- All of them. -/
def all : List (List Char) :=
  [delStart, delStop, strongStart, strongStop, emStart, emStop, linkStart, linkMiddle,
   linkStop, imageStart, imageStop]

end Reveal.Prose.Tag

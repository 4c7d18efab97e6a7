namespace ContactForm

/-- One step into a document. -/
inductive Segment where
  | key (name : String)
  | index (i : Nat)
deriving DecidableEq, Repr

/-- The steps from the root of a document to a place in it. -/
abbrev Locator := List Segment

def Segment.text : Segment → String
  | .key name => "." ++ name
  | .index i => "[" ++ i.repr ++ "]"

namespace Locator

def root : Locator := []

def key (path : Locator) (name : String) : Locator := path ++ [.key name]

def index (path : Locator) (i : Nat) : Locator := path ++ [.index i]

/-- A key has a point before it, except at the start; the root has a text of its own. -/
def render : Locator → String
  | [] => "$"
  | .key name :: rest => name ++ String.join (rest.map Segment.text)
  | path => String.join (path.map Segment.text)

end Locator

end ContactForm

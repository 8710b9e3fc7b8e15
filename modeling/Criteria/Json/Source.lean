import Criteria.Json.Token

/-!
A JSON text as a tree in which every fault stands at its place. Reading walks such a tree from left
to right, so that of several problems the first in the text decides, whether the text is broken
there or merely of another shape than expected.
-/

namespace Criteria.Json

/-- A value as written. A container that ends where it should not is not closed; what was read of it
stays. Strings and numbers that stand for no value carry none. `tooDeep` marks a container nested
beyond the limit, and `fault` a place where no value starts. -/
inductive Source where
  | null
  | bool (b : Bool)
  | num (value : Option Number)
  | str (value : Option String)
  | arr (items : List Source) (closed : Bool)
  | obj (entries : List (Option String × Source)) (closed : Bool)
  | tooDeep (container : Source)
  | fault
deriving Repr, Inhabited

namespace Source

mutual

/-- A value that is already there, as a tree without faults. -/
def ofJson : Json → Source
  | .null => .null
  | .bool b => .bool b
  | .num n => .num (some n)
  | .str s => .str (some s)
  | .arr items => .arr (ofItems items) true
  | .obj entries => .obj (ofEntries entries) true

def ofItems : List Json → List Source
  | [] => []
  | item :: rest => ofJson item :: ofItems rest

def ofEntries : List (String × Json) → List (Option String × Source)
  | [] => []
  | (key, value) :: rest => (some key, ofJson value) :: ofEntries rest

end

/-- The greatest number of containers that may enclose one another. -/
def nestingLimit : Nat := 127

/-- A container whose end has not been reached. What it holds stands last first; an object also
has the key of the entry at hand. -/
inductive Frame where
  | arr (items : List Source)
  | obj (entries : List (Option String × Source)) (key : Option String)

/-- The frame with one more value. -/
def Frame.add (value : Source) : Frame → Frame
  | .arr items => .arr (value :: items)
  | .obj entries key => .obj ((key, value) :: entries) key

/-- The container that a frame holds, inside `outer` other ones. -/
def Frame.toSource (closed : Bool) (outer : Nat) (frame : Frame) : Source :=
  let container := match frame with
    | .arr items => Source.arr items.reverse closed
    | .obj entries _ => Source.obj entries.reverse closed
  if nestingLimit ≤ outer then .tooDeep container else container

/-- What has to come next. -/
inductive Expected where
  | value
  | firstItem
  | firstKey
  | key
  | colon
  | separator

/-- A text read in part: inside open containers, the innermost first, or past its value, with a note
whether nothing came after it. -/
inductive Progress where
  | reading (frames : List Frame) (next : Expected)
  | finished (value : Source) (clean : Bool)

/-- Ends every open container without its bracket. -/
def abandon : Source → List Frame → Source
  | value, [] => value
  | value, frame :: outer =>
    abandon ((frame.add value).toSource false outer.length) outer

/-- Ends the innermost container without its bracket, and so all others. -/
def breakOff : List Frame → Source
  | [] => .fault
  | frame :: outer => abandon (frame.toSource false outer.length) outer

/-- The tree of a text that stops making sense where `next` was expected. -/
def stop (frames : List Frame) : Expected → Source
  | .value | .firstItem | .colon => abandon .fault frames
  | .firstKey | .key | .separator => breakOff frames

/-- Puts a complete value into the innermost container. -/
def complete (value : Source) : List Frame → Progress
  | [] => .finished value true
  | frame :: outer => .reading (frame.add value :: outer) .separator

/-- Ends the innermost container. -/
def close (frame : Frame) (outer : List Frame) : Progress :=
  complete (frame.toSource true outer.length) outer

/-- Takes a token where a value has to start. -/
def stepValue (frames : List Frame) : Token → Progress
  | .null => complete .null frames
  | .bool b => complete (.bool b) frames
  | .num n => complete (.num n) frames
  | .str s => complete (.str s) frames
  | .openBracket => .reading (.arr [] :: frames) .firstItem
  | .openBrace => .reading (.obj [] none :: frames) .firstKey
  | _ => .finished (stop frames .value) true

def step : Progress → Token → Progress
  | .finished value _, _ => .finished value false
  | .reading frames .value, token => stepValue frames token
  | .reading (frame :: outer) .firstItem, .closeBracket => close frame outer
  | .reading frames .firstItem, token => stepValue frames token
  | .reading (frame :: outer) .firstKey, .closeBrace => close frame outer
  | .reading (.obj entries _ :: outer) .firstKey, .str key
  | .reading (.obj entries _ :: outer) .key, .str key => .reading (.obj entries key :: outer) .colon
  | .reading frames .colon, .colon => .reading frames .value
  | .reading (.arr items :: outer) .separator, .comma => .reading (.arr items :: outer) .value
  | .reading (.obj entries key :: outer) .separator, .comma =>
    .reading (.obj entries key :: outer) .key
  | .reading (.arr items :: outer) .separator, .closeBracket => close (.arr items) outer
  | .reading (.obj entries key :: outer) .separator, .closeBrace => close (.obj entries key) outer
  | .reading frames next, _ => .finished (stop frames next) true

/-- The tree of a text, and whether nothing but blanks comes after its value. -/
def ofText (text : String) : Source × Bool :=
  match (Token.ofText text).foldl step (.reading [] .value) with
  | .finished value clean => (value, clean)
  | .reading frames next => (stop frames next, true)

end Source

end Criteria.Json

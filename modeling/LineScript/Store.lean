/-
The variable store.  Every block that runs has a frame of its own; names are
unique over all frames, so a name declared in an outer frame cannot be declared
again inside, and leaving a block evicts exactly the names declared in it.
Frames are kept in the order of the names.
-/
import LineScript.Value

namespace LineScript

/-- What the store holds under a name. -/
structure Variable where
  value : Value
  constant : Bool

/-- Variables in the order of their names. -/
abbrev Frame := List (String × Variable)

namespace Frame

def get? (frame : Frame) (name : String) : Option Variable :=
  frame.lookup name

/-- Puts a variable behind those with smaller names. -/
def insert (name : String) (fresh : Variable) : Frame → Frame
  | [] => [(name, fresh)]
  | (other, held) :: later =>
    if name < other then (name, fresh) :: (other, held) :: later
    else (other, held) :: insert name fresh later

/-- Changes the variable with the given name. -/
def modify (name : String) (change : Variable → Variable) (frame : Frame) :
    Frame :=
  frame.map fun (other, held) =>
    if other = name then (other, change held) else (other, held)

def names (frame : Frame) : List String :=
  frame.map Prod.fst

end Frame

/-- What happens to scopes: a block is entered at a depth, or a name is evicted
from the block at that depth. -/
inductive ScopeEvent
  | entering (depth : Nat)
  | evicting (name : String) (depth : Nat)
  deriving DecidableEq, Repr

def ScopeEvent.message : ScopeEvent → String
  | entering depth => s!"Entering block level {depth}"
  | evicting name depth => s!"Evicting {name} at block level {depth}"

/-- The frames of the running blocks, innermost first, above the global frame,
and the scope events so far.  There is always at least one frame. -/
structure Store where
  innermost : Frame := []
  outer : List Frame := []
  log : Array ScopeEvent := #[]

namespace Store

/-- All frames, from the innermost one to the global one. -/
def frames (store : Store) : List Frame :=
  store.innermost :: store.outer

/-- The number of frames above the global one. -/
def depth (store : Store) : Nat :=
  store.outer.length

def get? (store : Store) (name : String) : Option Variable :=
  store.frames.findSome? fun frame => frame.get? name

def value? (store : Store) (name : String) : Option Value :=
  (store.get? name).map Variable.value

def contains (store : Store) (name : String) : Bool :=
  (store.get? name).isSome

/-- Declares a name in the innermost frame, unless some frame has it. -/
def declare? (store : Store) (name : String) (fresh : Variable) :
    Option Store :=
  if store.contains name then none
  else some { store with innermost := store.innermost.insert name fresh }

/-- Declares a name; a name that some frame has stays as it is. -/
def declare (store : Store) (name : String) (fresh : Variable) : Store :=
  (store.declare? name fresh).getD store

/-- Changes the variable with the given name, wherever it is. -/
def modify (store : Store) (name : String) (change : Variable → Variable) :
    Store :=
  { store with
    innermost := store.innermost.modify name change
    outer := store.outer.map fun frame => frame.modify name change }

/-- Writes a value under a name that the store has, constant or not. -/
def setValue (store : Store) (name : String) (value : Value) : Store :=
  store.modify name fun held => { held with value }

/-- Opens a frame for a block.  The event is always recorded, as in a build with
the feature `debug-logging`; a build without it records no events. -/
def enter (store : Store) : Store where
  innermost := []
  outer := store.innermost :: store.outer
  log := store.log.push (.entering (store.depth + 1))

/-- Closes the innermost frame and evicts its names, in their order.  The
global frame is never closed.  Every eviction is recorded, again as in a build
with the feature `debug-logging`. -/
def exit (store : Store) : List String × Store :=
  match store.outer with
  | [] => ([], store)
  | below :: outer =>
    let names := store.innermost.names
    let events := names.map fun name =>
      ScopeEvent.evicting name store.depth
    (names, ⟨below, outer, store.log ++ events⟩)

/-- All variables in the order of their names. -/
def snapshot (store : Store) : List (String × Variable) :=
  store.frames.flatten.foldr (fun (name, held) => Frame.insert name held) []

/-- The number of variables. -/
def size (store : Store) : Nat :=
  store.frames.flatten.length

def isEmpty (store : Store) : Bool :=
  store.size = 0

end Store

end LineScript

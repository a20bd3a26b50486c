import ScriptLens.Domain.State

/-!
# The objects that exist before a program

Each of them has a fixed number, beginning with 1; the number 0 is that of the global scope.
-/

namespace ScriptLens.Builtin

/-- The objects that exist before a program, the one with the number 1 first. -/
def objects : List Obj :=
  [.builtin .toText true,
   .builtin .fromCharCode true,
   { Obj.builtin .string true with props := [("fromCharCode", .ref ⟨2, .unbound⟩)] },
   .builtin .display false,
   .builtin .showState false,
   .builtin .parseInt true,
   .builtin .assert false,
   .builtin .isKnown true,
   .builtin .pop false,
   .builtin .push false,
   .builtin .shift false,
   .builtin .indexOf true,
   .builtin .reverse false,
   .builtin .join false,
   .builtin .split true,
   .builtin .charCodeAt true,
   .builtin .charAt true,
   .builtin .slice true,
   .builtin .substr true,
   .builtin .substring true,
   .builtin .replace true,
   .builtin .fromBase64 true,
   .builtin .toBase64 true,
   .builtin .unquote true,
   .builtin .decodeUri true,
   ({} : Obj),
   .builtin .makeFunction true,
   { Obj.builtin .parseInt true with props := [("constructor", .ref ⟨27, .unbound⟩)] },
   .builtin .round true,
   { props := [("round", .ref ⟨29, .unbound⟩)] },
   .builtin .regexp true,
   .builtin .eval false]

/-- The name of the object that holds the functions to be called after the program. -/
def deferredName : String := "___deferred"

/-- The names under which a program finds the objects that exist before it. -/
def symbols : List (String × Nat) :=
  [("String", 3), ("___display", 4), ("___state", 5), ("parseInt", 6), ("___assert", 7),
   ("___is_concretizable", 8), ("atob", 22), ("btoa", 23), ("decodeURIComponent", 24),
   ("decodeURI", 25), ("unescape", 24), ("Function", 26), ("Number", 28), ("Math", 30),
   ("RegExp", 31), ("eval", 32)]

/-- The methods of arrays, of texts and of functions, which every object and value has. -/
def methods : List (String × Nat) :=
  [("pop", 9), ("shift", 11), ("push", 10), ("indexOf", 12), ("reverse", 13), ("join", 14),
   ("split", 15), ("charCodeAt", 16), ("charAt", 17), ("slice", 18), ("substr", 19),
   ("substring", 20), ("replace", 21), ("toString", 1)]

def methodKeys : List (Key × Nat) := methods.map fun m => (m.1, m.2)

def method? (k : Key) : Option Nat := methodKeys.lookup k

def fill (heap : Heap) : Nat → List Obj → Heap
  | _, [] => heap
  | i, o :: l => fill (heap.insert i o) (i + 1) l

/-- A state in the global scope with the given objects under the numbers from 1 on, and the given
names for them. -/
def populate (s : State) (objs : List Obj) (names : List (String × Nat)) : State :=
  let scope (o : Obj) : Obj := names.foldl (fun o p => o.put p.1 (.ref ⟨p.2, .unbound⟩)) o
  { s with objs := (fill s.objs 1 objs).update 0 scope }

def plainState : State :=
  let global : State :=
    { objs := ({} : Heap).insert 0 State.unknownObj, gref := some 0, lref := some 0,
      isBottom := false, value := .top }
  populate global objects symbols

/-- The number of the object that holds the functions to be called after the program. -/
def deferredId : Nat := objects.length + 1

def startState : State := populate plainState (objects ++ [({} : Obj)]) [(deferredName, deferredId)]

/-- The numbers of the objects that exist when the analysis of a program begins. -/
def startRoots : List Nat := (List.range deferredId).map (· + 1)

end ScriptLens.Builtin

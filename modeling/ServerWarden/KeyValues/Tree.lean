/-
# Key-value trees

A tree is an ordered list of entries, each a key with a text or with a tree of its own.  A key may
occur more than once; a look-up takes the first entry and does not tell ASCII capitals from small
letters.  `parse` reads a text into its tree.
-/
import ServerWarden.KeyValues.Token

namespace ServerWarden

/-- What a key leads to. -/
inductive KeyValue where
  | text (t : String)
  | block (entries : List (String × KeyValue))
  deriving Repr, Inhabited

/-- An ordered list of entries. -/
abbrev KeyValues := List (String × KeyValue)

namespace KeyValues

/-- A block that is still open: the entries before it in the block around it, in reverse, and its
key. -/
structure Frame where
  before : KeyValues
  key : String

/-- Builds the tree of the tokens.  `seen` holds the entries of the innermost block in reverse,
`frames` the blocks around it, and `last` the line of the token before. -/
def build : List Frame → KeyValues → Nat → List Token → Except Error KeyValues
  | [], seen, _, [] => .ok seen.reverse
  | _ :: _, _, last, [] => .error ⟨last, .missingClose⟩
  | frames, seen, _, .closeBlock line :: rest =>
    match frames with
    | [] => .error ⟨line, .strayClose⟩
    | f :: frames => build frames ((f.key, .block seen.reverse) :: f.before) line rest
  | _, _, _, .openBlock line :: _ => .error ⟨line, .keyIsOpen⟩
  | frames, seen, _, .word key line :: rest =>
    let key := String.ofList key
    match rest with
    | .word text next :: rest =>
      build frames ((key, .text (String.ofList text)) :: seen) next rest
    | .openBlock next :: rest => build (⟨seen, key⟩ :: frames) [] next rest
    | .closeBlock next :: _ => .error ⟨next, .noValue key⟩
    | [] => .error ⟨line, .noValue key⟩

/-- The tree of a text. -/
def parse (text : String) : Except Error KeyValues := do
  build [] [] 1 (← tokens text.toList)

/-- Whether two keys are one, ASCII capitals and small letters taken as equal. -/
def sameKey (a b : String) : Bool :=
  a.toList.map Char.toLower == b.toList.map Char.toLower

/-- What the first entry of a key holds. -/
def get? (tree : KeyValues) (key : String) : Option KeyValue :=
  (tree.find? fun e => sameKey e.1 key).map (·.2)

/-- The text that a path of keys leads to. -/
def textAt? : KeyValues → List String → Option String
  | _, [] => none
  | tree, [key] =>
    match get? tree key with
    | some (.text t) => some t
    | _ => none
  | tree, key :: path =>
    match get? tree key with
    | some (.block below) => textAt? below path
    | _ => none

/-- The text that a path with points between its keys leads to. -/
def getPath? (tree : KeyValues) (path : String) : Option String :=
  textAt? tree ((path.toList.splitOn '.').map String.ofList)

end KeyValues

/-- Whether two values are equal, entry by entry. -/
def KeyValue.same : KeyValue → KeyValue → Bool
  | .text a, .text b => a == b
  | .block a, .block b => sameEntries a b
  | _, _ => false
where
  /-- Whether two lists of entries are equal. -/
  sameEntries : List (String × KeyValue) → List (String × KeyValue) → Bool
    | [], [] => true
    | (k, v) :: a, (l, w) :: b => k == l && KeyValue.same v w && sameEntries a b
    | _, _ => false

end ServerWarden

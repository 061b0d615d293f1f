/-
# Formatted printing

A format is used again as long as arguments are left; one that is missing is empty, and zero as a
number.
-/

namespace ServerWarden.Shell

/-- The number that digits of a base spell. -/
def baseNumber (base : Nat) (cs : List Char) : Nat :=
  cs.foldl (fun n c => n * base + (c.toNat - '0'.toNat)) 0

/-- Resolves the escape after a backslash. -/
def escape (c : Char) (rest : List Char) : List Char × List Char :=
  let octal := (c :: rest).takeWhile (fun d => '0' ≤ d && d ≤ '7')
  if !octal.isEmpty then
    let digits := octal.take (if c = '0' then 4 else 3)
    ([Char.ofNat (baseNumber 8 digits % 256)], (c :: rest).drop digits.length)
  else
    match c with
    | 'n' => (['\n'], rest)
    | 't' => (['\t'], rest)
    | 'r' => (['\r'], rest)
    | 'a' => (['\x07'], rest)
    | 'b' => (['\x08'], rest)
    | 'f' => (['\x0C'], rest)
    | 'v' => (['\x0B'], rest)
    | '\\' => (['\\'], rest)
    | '"' => (['"'], rest)
    | c => (['\\', c], rest)

/-- A text with its escapes resolved.  `fuel` bounds the number of characters. -/
def unescape : Nat → List Char → List Char
  | fuel + 1, '\\' :: c :: rest =>
    let (cs, rest) := escape c rest
    cs ++ unescape fuel rest
  | fuel + 1, c :: rest => c :: unescape fuel rest
  | _, cs => cs

/-- A number as an argument spells it. -/
def numberArg (s : String) : Int :=
  match s.toList with
  | '\'' :: c :: _ => c.toNat
  | '"' :: c :: _ => c.toNat
  | '-' :: cs => -((String.ofList cs).toNat?.getD 0 : Nat)
  | '+' :: cs => (String.ofList cs).toNat?.getD 0
  | cs => (String.ofList cs).toNat?.getD 0

/-- Prints a format once.  Answers the text, the arguments that are left, and whether any was asked
for.  `fuel` bounds the number of characters. -/
def printOnce : Nat → List Char → List String → List Char × List String × Bool
  | fuel + 1, '\\' :: c :: rest, args =>
    let (cs, rest) := escape c rest
    let (out, left, used) := printOnce fuel rest args
    (cs ++ out, left, used)
  | fuel + 1, '%' :: '%' :: rest, args =>
    let (out, left, used) := printOnce fuel rest args
    ('%' :: out, left, used)
  | fuel + 1, '%' :: rest, args =>
    let flags := rest.takeWhile fun c => c.isDigit || c = '-' || c = '.'
    match rest.drop flags.length with
    | [] => ('%' :: rest, args, false)
    | kind :: rest =>
      let arg := args.headD ""
      let shown : List Char :=
        match kind with
        | 'd' | 'i' | 'u' => (toString (numberArg arg)).toList
        | 'x' => Nat.toDigits 16 (numberArg arg).toNat
        | 'o' => Nat.toDigits 8 (numberArg arg).toNat
        | 'c' => arg.toList.take 1
        | 'b' => unescape arg.length arg.toList
        | _ => arg.toList
      let (out, left, _) := printOnce fuel rest args.tail
      (shown ++ out, left, true)
  | fuel + 1, c :: rest, args =>
    let (out, left, used) := printOnce fuel rest args
    (c :: out, left, used)
  | _, _, args => ([], args, false)

/-- Prints a format for all arguments.  `fuel` bounds the number of rounds. -/
def printAll : Nat → List Char → List String → List Char
  | 0, _, _ => []
  | fuel + 1, format, args =>
    let (out, left, used) := printOnce format.length format args
    if used && !left.isEmpty then out ++ printAll fuel format left else out

def printf (format : String) (args : List String) : String :=
  String.ofList (printAll (args.length + 1) format.toList args)

end ServerWarden.Shell

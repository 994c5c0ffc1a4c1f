import StubWriter.Text.Quoted
import StubWriter.Text.Digit

/-!
# Arguments of the command line

Options are told from plain words by their spelling; a long option may be cut short as long as it
stays unambiguous, and may carry its argument behind `=`. Everything behind `--` is a plain word.
The first plain word that belongs to no option names the type, all further ones are refused.

* `Item.ofWords`: the words of a command line, told apart.
* `Request.ofWords`: what a command line asks for.
-/

namespace StubWriter.CommandLine

inductive Flag where
  | help
  | jar
  | sourcePath
  | verbose
  deriving DecidableEq, Repr

namespace Flag

/-- All spellings, in the order in which they are offered. -/
def spellings : List (String × Flag) :=
  [("-h", .help), ("--help", .help), ("-jar", .jar), ("-sp", .sourcePath),
    ("--source-path", .sourcePath), ("-v", .verbose), ("--verbose", .verbose)]

/-- The name of a flag in complaints: all its spellings. -/
def name (f : Flag) : String :=
  "/".intercalate ((spellings.filter fun s => s.2 == f).map Prod.fst)

/-- How many arguments a flag takes. -/
def arity : Flag → Nat
  | .jar => 2
  | .sourcePath => 1
  | _ => 0

end Flag

inductive ArgumentError where
  | ambiguous (word : String) (candidates : List String)
  | expectedArguments (flag : Flag)
  | ignoredArgument (flag : Flag) (argument : String)
  | unrecognized (words : List String)
  deriving DecidableEq, Repr

def ArgumentError.message : ArgumentError → String
  | .ambiguous word candidates =>
    s!"ambiguous option: {word} could match " ++ ", ".intercalate candidates
  | .expectedArguments flag =>
    let count := if flag.arity == 1 then "one argument" else s!"{flag.arity} arguments"
    s!"argument {flag.name}: expected {count}"
  | .ignoredArgument flag argument =>
    s!"argument {flag.name}: ignored explicit argument {Text.quoted argument}"
  | .unrecognized words => "unrecognized arguments: " ++ " ".intercalate words

/-- A word of a command line. An option knows its full spelling and the argument that its own word
carries, behind `=` or right behind the letter of the option. -/
inductive Item where
  | plain (word : String)
  | separator
  | option (flag : Flag) (spelling : String) (argument : Option String)
  | unknown (word : String)
  deriving DecidableEq, Repr

/-! ## Telling words apart -/

/-- The parts of a word before and behind its first `=`. -/
def splitAssignment (word : String) : String × Option String :=
  let cs := word.toList
  let name := cs.takeWhile (· != '=')
  if name.length == cs.length then (word, none)
  else (String.ofList name, some (String.ofList (cs.drop (name.length + 1))))

/-- Whether a word is a negative number, whole or with decimal places. -/
def isNegativeNumber (word : String) : Bool :=
  let areDigits (cs : List Char) : Bool := cs.all fun c => (Text.decimalValue? c).isSome
  match word.toList with
  | '-' :: digits =>
    let digits := if digits.getLast? == some '\n' then digits.dropLast else digits
    let fraction := (digits.dropWhile (· != '.')).drop 1
    (!digits.isEmpty && areDigits digits) ||
      (!fraction.isEmpty && areDigits (digits.takeWhile (· != '.')) && areDigits fraction)
  | _ => false

/-- The options that a word may stand for: with two dashes those that it starts, with one dash also
the one-letter option that it starts with, the rest being its argument. -/
def readings (word : String) : List Item :=
  if word.startsWith "--" then
    let (name, argument) := splitAssignment word
    (Flag.spellings.filter fun s => s.1.startsWith name).map fun s => .option s.2 s.1 argument
  else
    Flag.spellings.filterMap fun s =>
      if s.1 == String.ofList (word.toList.take 2) then
        some (.option s.2 s.1 (some (String.ofList (word.toList.drop 2))))
      else if s.1.startsWith word then some (.option s.2 s.1 none)
      else none

def Item.spelling : Item → String
  | .plain word => word
  | .separator => "--"
  | .option _ spelling _ => spelling
  | .unknown word => word

/-- What a word is that is neither an option as it stands nor one up to its `=`. -/
def abbreviated (word : String) : Except ArgumentError Item :=
  match readings word with
  | [item] => .ok item
  | a :: b :: more => .error (.ambiguous word ((a :: b :: more).map Item.spelling))
  | [] =>
    if isNegativeNumber word || word.contains ' ' then .ok (.plain word) else .ok (.unknown word)

/-- What a word is that stands before `--`. -/
def Item.ofWord (word : String) : Except ArgumentError Item :=
  if !word.startsWith "-" || word.length == 1 then .ok (.plain word)
  else
    match Flag.spellings.lookup word with
    | some flag => .ok (.option flag word none)
    | none =>
      match splitAssignment word with
      | (_, none) => abbreviated word
      | (name, some argument) =>
        match Flag.spellings.lookup name with
        | some flag => .ok (.option flag name (some argument))
        | none => abbreviated word

/-- The words told apart; the first `--` makes all words behind it plain. -/
def Item.ofWords : List String → Except ArgumentError (List Item)
  | [] => .ok []
  | word :: words =>
    if word == "--" then .ok (.separator :: words.map .plain)
    else do return (← Item.ofWord word) :: (← Item.ofWords words)

/-! ## Requests -/

/-- What a command line asks for, as far as it has been read. -/
structure Request where
  help : Bool
  typeName : Option String
  jar : Option (String × String)
  sourcePath : Option String
  verbose : Bool
  deriving DecidableEq, Repr

def Request.empty : Request :=
  { help := false, typeName := none, jar := none, sourcePath := none, verbose := false }

/-- Notes a flag with its arguments. -/
def Request.set (r : Request) : Flag → List String → Request
  | .help, _ => { r with help := true }
  | .verbose, _ => { r with verbose := true }
  | .sourcePath, words => { r with sourcePath := words.head? }
  | .jar, type :: path :: _ => { r with jar := some (type, path) }
  | _, _ => r

/-- The first `n` items, if they are plain words. -/
def takePlain : Nat → List Item → Option (List String × List Item)
  | 0, items => some ([], items)
  | n + 1, .plain word :: items =>
    (takePlain n items).map fun (words, rest) => (word :: words, rest)
  | _ + 1, _ => none

/-- Reads a flag without an argument of its own: it takes the words behind it. -/
def Request.takeFlag (r : Request) (flag : Flag) (items : List Item) :
    Except ArgumentError (Request × List Item) :=
  match takePlain flag.arity items with
  | some (words, rest) => .ok (r.set flag words, rest)
  | none => .error (.expectedArguments flag)

/-- Why a flag cannot have the argument in its own word. -/
def Flag.refusal (flag : Flag) (own : List Char) : ArgumentError :=
  if flag.arity == 0 then .ignoredArgument flag (String.ofList own) else .expectedArguments flag

/-- The words that an argument in the word of its flag gives: two dashes give none, and so undo what
was given before. -/
def ownWords (own : String) : List String :=
  if own == "--" then [] else [own]

/-- Reads a flag with an argument in its own word. Behind a flag of one letter that takes no
argument the letters are further flags of this kind, and each of them has to be one. -/
def Request.takeOwn (r : Request) (flag : Flag) (long : Bool) (items : List Item) :
    List Char → Except ArgumentError (Request × List Item)
  | [] => if flag.arity == 1 then .ok (r.set flag [""], items) else .error (flag.refusal [])
  | c :: rest =>
    if flag.arity == 1 then .ok (r.set flag (ownWords (String.ofList (c :: rest))), items)
    else if long || flag.arity != 0 then .error (flag.refusal (c :: rest))
    else
      match Flag.spellings.lookup (String.ofList ['-', c]) with
      | none => .error (flag.refusal (c :: rest))
      | some next =>
        if rest.isEmpty then (r.set flag []).takeFlag next items
        else Request.takeOwn (r.set flag []) next false items rest

/-- The words that are left over once the type is named. -/
structure Reading where
  request : Request
  typeOpen : Bool
  extras : List String
  deriving DecidableEq, Repr

/-- Reads the items from left to right; every step takes one at least. A `--` next to the word that
names the type is dropped. -/
def Reading.run (s : Reading) : Nat → List Item → Except ArgumentError Reading
  | 0, _ => .ok s
  | _ + 1, [] => .ok s
  | n + 1, .plain word :: items =>
    if s.typeOpen then
      let named : Reading :=
        { s with request := { s.request with typeName := some word }, typeOpen := false }
      match items with
      | .separator :: rest => named.run n rest
      | rest => named.run n rest
    else Reading.run { s with extras := s.extras ++ [word] } n items
  | n + 1, .separator :: items =>
    if s.typeOpen then
      match items with
      | .plain word :: rest =>
        Reading.run
          { s with request := { s.request with typeName := some word }, typeOpen := false } n rest
      | rest => Reading.run { s with typeOpen := false } n rest
    else Reading.run { s with extras := s.extras ++ ["--"] } n items
  | n + 1, .unknown word :: items =>
    Reading.run { s with extras := s.extras ++ [word] } n items
  | n + 1, .option flag spelling argument :: items => do
    let (request, rest) ←
      match argument with
      | none => s.request.takeFlag flag items
      | some own => s.request.takeOwn flag (spelling.startsWith "--") items own.toList
    if request.help then return { s with request, extras := [] }
    else Reading.run { s with request } n rest

/-- What a command line asks for. A request for help stands alone. -/
def Request.ofWords (words : List String) : Except ArgumentError Request := do
  let items ← Item.ofWords words
  let s ← Reading.run ⟨.empty, true, []⟩ (items.length + 1) items
  if s.extras.isEmpty then return s.request else throw (.unrecognized s.extras)

end StubWriter.CommandLine

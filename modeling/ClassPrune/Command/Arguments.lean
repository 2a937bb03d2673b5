import ClassPrune.Text.Quoted

/-!
# Command line arguments

How the words of a command line are told apart: the verb, the flags with their values, and the
plain words. Flags are written `--name`, `--name=value`, `--name value`, or with their letter
`-l`, `-lvalue`, `-l=value`, `-l value`; letters that take no value may be run together. All
words behind `--` are plain.

- `splitVerb`: the verb of a command line and the words around it.
- `Arguments.parse`: the flags and the plain words that follow a verb.
- `readLine`: both.
-/

namespace ClassPrune.Command

/-- What a flag takes. -/
inductive FlagKind where
  /-- A value, which must be given. -/
  | text
  /-- Nothing, or a number; every mention without one counts. -/
  | counter
  /-- Nothing, or whether it is on. -/
  | toggle
  deriving DecidableEq, Repr

/-- A flag. -/
structure Flag where
  name : String
  letter : Option Char
  kind : FlagKind
  deriving DecidableEq, Repr

/-- What the program can do. -/
inductive Verb where
  | dump
  | strip
  | check
  /-- Explains the program. -/
  | help
  /-- Helps a shell to complete command lines. -/
  | completion
  deriving DecidableEq, Repr

/-- Why a command line is refused. -/
inductive ArgumentError where
  | badFlag (word : String)
  | unknownFlag (name : String)
  | unknownLetter (letters : List Char)
  | missingValue (name : String)
  | missingLetterValue (letters : List Char)
  | badCount (value : String) (outOfRange : Bool)
  | badToggle (value : String)
  | unknownVerb (name : String)
  | notOneWord (received : Nat)
  | noWords
  deriving DecidableEq, Repr

namespace Flag

/-- Asks for more messages. -/
def verbose : Flag := ⟨"verbose", some 'v', .counter⟩

/-- Asks for an explanation. -/
def help : Flag := ⟨"help", some 'h', .toggle⟩

/-- The form of a dump. -/
def format : Flag := ⟨"format", some 'f', .text⟩

/-- Where the stripped class goes. -/
def output : Flag := ⟨"output", some 'o', .text⟩

/-- The machine profile. -/
def vm : Flag := ⟨"vm", none, .text⟩

end Flag

namespace Verb

/-- Every verb. -/
def all : List Verb := [.dump, .strip, .check, .help, .completion]

def name : Verb → String
  | .dump => "dump"
  | .strip => "strip"
  | .check => "check"
  | .help => "help"
  | .completion => "completion"

/-- The verb of a name. -/
def ofName? (name : String) : Option Verb := all.find? fun v => v.name = name

/-- The flags that a verb takes. -/
def flags : Option Verb → List Flag
  | some .dump => [.format, .verbose, .help]
  | some .strip => [.output, .vm, .verbose, .help]
  | _ => [.verbose, .help]

end Verb

/-! ## Messages -/

/-- The first byte of a character's encoding. -/
def leadByte (c : Char) : UInt8 := ((String.singleton c).toUTF8.toList).headD 0

/-- The byte under which a letter is shown: the first byte of the letter is read as a character,
and the first byte of that is shown. A letter of ASCII is shown as it is. -/
def letterByte (letters : List Char) : UInt8 :=
  leadByte (Char.ofNat (leadByte (letters.headD '-')).toNat)

def ArgumentError.message : ArgumentError → String
  | .badFlag word => s!"bad flag syntax: {word}"
  | .unknownFlag name => s!"unknown flag: --{name}"
  | .unknownLetter letters =>
    s!"unknown shorthand flag: {Text.quoteByte (letterByte letters)} in -{String.ofList letters}"
  | .missingValue name => s!"flag needs an argument: --{name}"
  | .missingLetterValue letters =>
    s!"flag needs an argument: {Text.quoteByte (letterByte letters)} in -{String.ofList letters}"
  | .badCount value outOfRange =>
    let why := if outOfRange then "value out of range" else "invalid syntax"
    s!"invalid argument {Text.quote value} for \"-v, --verbose\" flag: strconv.ParseInt: parsing "
      ++ s!"{Text.quote value}: {why}"
  | .badToggle value =>
    s!"invalid argument {Text.quote value} for \"-h, --help\" flag: strconv.ParseBool: parsing "
      ++ s!"{Text.quote value}: invalid syntax"
  | .unknownVerb name => s!"unknown command {Text.quote name} for \"classguard\""
  | .notOneWord received => s!"accepts 1 arg(s), received {received}"
  | .noWords => "requires at least 1 arg(s), only received 0"

/-! ## Values -/

/-- The value of a digit in any base up to thirty-six. -/
def digitValue? (c : Char) : Option Nat :=
  if c.isDigit then some (c.toNat - '0'.toNat)
  else if c.isAlpha then some (c.toLower.toNat - 'a'.toNat + 10)
  else none

/-- Reads digits up to the first that does not belong to the base or makes the number too large;
says which. -/
def readDigits (base bound : Nat) : (value : Nat) → List Char → Except Bool Nat
  | value, [] => .ok value
  | value, '_' :: rest => readDigits base bound value rest
  | value, c :: rest =>
    match digitValue? c with
    | some d =>
      if d ≥ base then .error false
      else if value * base + d > bound then .error true
      else readDigits base bound (value * base + d) rest
    | none => .error false

/-- Whether every underscore stands between two digits; a base in front counts as a digit. -/
def isSpaced (afterDigit : Bool) : List Char → Bool
  | [] => true
  | '_' :: c :: rest => afterDigit && c != '_' && isSpaced true rest
  | ['_'] => false
  | _ :: rest => isSpaced true rest

/-- The base and the digits of a number without its sign. -/
def splitBase (digits : List Char) : Nat × List Char :=
  match digits with
  | '0' :: 'x' :: rest | '0' :: 'X' :: rest => (16, rest)
  | '0' :: 'b' :: rest | '0' :: 'B' :: rest => (2, rest)
  | '0' :: 'o' :: rest | '0' :: 'O' :: rest => (8, rest)
  | '0' :: c :: rest => (8, c :: rest)
  | _ => (10, digits)

/-- Whether a value is a whole number of sixty-four bits; if not, whether it is too large. -/
def checkCount (value : String) : Except Bool Unit := do
  let chars := value.toList
  let negative := chars.head? = some '-'
  let digits := if negative ∨ chars.head? = some '+' then chars.drop 1 else chars
  let (base, rest) := splitBase digits
  if rest.isEmpty then throw false
  let n ← readDigits base 0xFFFFFFFFFFFFFFFF 0 rest
  unless isSpaced (base != 10) rest do throw false
  if n > (if negative then 0x8000000000000000 else 0x7FFFFFFFFFFFFFFF) then throw true

/-- The words for on and off. -/
def toggle? (value : String) : Option Bool :=
  if ["1", "t", "T", "TRUE", "true", "True"].contains value then some true
  else if ["0", "f", "F", "FALSE", "false", "False"].contains value then some false
  else none

namespace Flag

/-- The value of a flag that is mentioned without one, if it may be. -/
def implicitValue? (f : Flag) : Option String :=
  match f.kind with
  | .text => none
  | .counter => some "+1"
  | .toggle => some "true"

/-- Whether a flag accepts a value. -/
def accept (f : Flag) (value : String) : Except ArgumentError (Flag × String) :=
  match f.kind with
  | .text => .ok (f, value)
  | .counter =>
    match checkCount value with
    | .ok _ => .ok (f, value)
    | .error outOfRange => .error (.badCount value outOfRange)
  | .toggle => if (toggle? value).isSome then .ok (f, value) else .error (.badToggle value)

end Flag

/-! ## Flags and words -/

/-- The flags with their values, in the order of their mention, and the plain words. -/
structure Arguments where
  flags : List (Flag × String) := []
  words : List String := []
  deriving DecidableEq, Repr

/-- A run of letters; `next` is the word behind it. Says also whether that word was taken as a
value. Runs that start with `test.` are ignored. -/
def readLetters (flags : List Flag) (next : Option String) :
    List Char → Except ArgumentError (List (Flag × String) × Bool)
  | [] => .ok ([], false)
  | c :: more =>
    if "test.".toList.isPrefixOf (c :: more) then .ok ([], false)
    else match flags.find? fun f => f.letter = some c with
      | none => .error (.unknownLetter (c :: more))
      | some f =>
        match more, f.implicitValue? with
        | '=' :: v :: vs, _ => (f.accept (String.ofList (v :: vs))).map fun a => ([a], false)
        | _, some value => do
          let first ← f.accept value
          let (others, taken) ← readLetters flags next more
          return (first :: others, taken)
        | v :: vs, none => (f.accept (String.ofList (v :: vs))).map fun a => ([a], false)
        | [], none =>
          match next with
          | some value => (f.accept value).map fun a => ([a], true)
          | none => .error (.missingLetterValue (c :: more))

/-- A flag by its name, the two dashes taken off; `next` is the word behind it. -/
def readLong (flags : List Flag) (next : Option String) (word : List Char) :
    Except ArgumentError ((Flag × String) × Bool) := do
  if word.head? = some '-' ∨ word.head? = some '=' then
    throw (.badFlag (String.ofList ('-' :: '-' :: word)))
  let name := String.ofList (word.takeWhile (· != '='))
  match flags.find? fun f => f.name = name with
  | none => throw (.unknownFlag name)
  | some f =>
    match word.dropWhile (· != '='), f.implicitValue?, next with
    | _ :: value, _, _ => (f.accept (String.ofList value)).map fun a => (a, false)
    | [], some value, _ => (f.accept value).map fun a => (a, false)
    | [], none, some value => (f.accept value).map fun a => (a, true)
    | [], none, none => throw (.missingValue name)

/-- Tells flags and plain words apart. When `skip` is set the first word has been taken as a
value. -/
def readWords (flags : List Flag) : (skip : Bool) → List String → Except ArgumentError Arguments
  | _, [] => .ok {}
  | true, _ :: rest => readWords flags false rest
  | false, word :: rest =>
    match word.toList with
    | ['-', '-'] => .ok { words := rest }
    | '-' :: '-' :: name => do
      let (first, taken) ← readLong flags rest.head? name
      let more ← readWords flags taken rest
      return { more with flags := first :: more.flags }
    | '-' :: c :: letters => do
      let (first, taken) ← readLetters flags rest.head? (c :: letters)
      let more ← readWords flags taken rest
      return { more with flags := first ++ more.flags }
    | _ => do
      let more ← readWords flags false rest
      return { more with words := word :: more.words }

namespace Arguments

/-- The flags and words that follow a verb, or stand without one. -/
def parse (verb : Option Verb) (words : List String) : Except ArgumentError Arguments :=
  readWords (Verb.flags verb) false words

/-- The last value of a flag. -/
def value? (a : Arguments) (f : Flag) : Option String :=
  (a.flags.reverse.find? fun (g, _) => g = f).map Prod.snd

/-- Whether an explanation is asked for. -/
def wantsHelp (a : Arguments) : Bool := ((a.value? .help).bind toggle?).getD false

end Arguments

/-! ## Verbs -/

/-- Whether a word, in front of the verb, is a flag that takes the word behind it as its value.
A flag that is not known is taken for one that does. -/
def takesNext (word : String) : Bool :=
  match word.toList with
  | '-' :: '-' :: name => !name.contains '=' && String.ofList name != Flag.verbose.name
  | ['-', letter] =>
    letter != '=' && letter.toNat < 0x80 && some letter != Flag.verbose.letter
  | _ => false

/-- Whether a word looks like a flag. -/
def isFlagLike (word : String) : Bool := word.startsWith "-"

/-- The words that are neither flags nor their values. -/
def plainWords : List String → List String
  | [] => []
  | word :: rest =>
    if word = "--" then []
    else if takesNext word then
      match rest with
      | _ :: next :: more => plainWords (next :: more)
      | _ => []
    else if word = "" ∨ isFlagLike word then plainWords rest
    else word :: plainWords rest

/-- The words without the first plain word that is `verb`. -/
def removeVerb (verb : String) : List String → List String
  | [] => []
  | word :: rest =>
    if word = "--" then word :: rest
    else if takesNext word then
      match rest with
      | value :: more => word :: value :: removeVerb verb more
      | [] => [word]
    else if word = verb ∧ !isFlagLike word then rest
    else word :: removeVerb verb rest

/-- The verb of a command line, if it has one, and the other words. -/
def splitVerb (words : List String) : Except ArgumentError (Option Verb × List String) :=
  match plainWords words with
  | [] => .ok (none, words)
  | first :: _ =>
    match Verb.ofName? first with
    | some verb => .ok (some verb, removeVerb first words)
    | none => .error (.unknownVerb first)

/-- The verb of a command line, with the flags and the plain words around it. -/
def readLine (words : List String) : Except ArgumentError (Option Verb × Arguments) := do
  let (verb, rest) ← splitVerb words
  return (verb, ← Arguments.parse verb rest)

end ClassPrune.Command

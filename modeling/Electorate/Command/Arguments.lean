import Electorate.Command

/-!
The words of a command line. Options may stand before, between and after the other words, with
their value in the next word, after an equals sign, or, in the short form, right behind the letter.
Two dashes end the options.
-/

namespace Electorate

/-- Why the words of a command line are not read to their end: they cannot be understood, or they
ask for something that is answered at once, whatever follows. -/
inductive Stop where
  | fault
  | help
  | version
  deriving DecidableEq, Repr

/-- How an option is used. Values come as text, which the option accepts or not. -/
inductive OptionKind where
  | final (stop : Stop)
  | flag
  | once (accepts : String → Bool)
  | often (accepts : String → Bool)

structure OptionForm where
  name : String
  letter : Option Char
  kind : OptionKind

def OptionForm.takesValue (f : OptionForm) : Bool :=
  match f.kind with
  | .final _ | .flag => false
  | .once _ | .often _ => true

/-- What the words that belong to no option are. -/
inductive PlainKind where
  | unused
  /-- One path at most. -/
  | file
  /-- A command, which ends the options and takes all words after it. -/
  | command
  deriving DecidableEq, Repr

structure LineForm where
  options : List OptionForm
  plain : PlainKind

/-- The options so far in the order given, each with its value, and the other words. -/
structure Words where
  options : List (String × String)
  plain : List String
  deriving DecidableEq, Repr

def readPath (s : String) : Option String := if s.isEmpty then none else some s

def readNumber (s : String) : Option UInt64 := readWord64 s.toList

def dropHexMarks : List Char → List Char
  | '0' :: 'x' :: rest => dropHexMarks rest
  | s => s

def readVersion (s : String) : Option UInt64 := readHex64 (dropHexMarks s.toList)

def readIds (s : String) : Option (List UInt64) := (s.toList.splitOn ',').mapM readWord64

namespace Words

def empty : Words := ⟨[], []⟩

/-- Whether a word is read as options. A single dash is a value. -/
def isOption (word : String) : Bool :=
  match word.toList with
  | '-' :: _ :: _ => true
  | _ => false

def values (w : Words) (name : String) : List String :=
  (w.options.filter (fun o => o.1 == name)).map Prod.snd

def has (w : Words) (name : String) : Bool := !(w.values name).isEmpty

def value? (w : Words) (name : String) : Option String := (w.values name).head?

/-- Takes up an option with its value, which is empty for a flag. -/
def give (w : Words) (f : OptionForm) (value : String) : Except Stop Words :=
  let given := { w with options := w.options ++ [(f.name, value)] }
  match f.kind with
  | .final stop => .error stop
  | .flag => if w.has f.name then .error .fault else .ok given
  | .once accepts => if w.has f.name || !accepts value then .error .fault else .ok given
  | .often accepts => if accepts value then .ok given else .error .fault

def givePlain (w : Words) (kind : PlainKind) (word : String) : Except Stop Words :=
  if kind = .file ∧ w.plain = [] ∧ (readPath word).isSome then .ok { w with plain := [word] }
  else .error .fault

/-- Takes up the letters of a word one by one. -/
def giveLetters (forms : List OptionForm) (w : Words) :
    List Char → Except Stop (Words × Option OptionForm)
  | [] => .ok (w, none)
  | c :: rest =>
    match forms.find? (fun f => f.letter == some c) with
    | none => .error .fault
    | some f =>
      if f.takesValue then
        match rest with
        -- the option still waits for its value
        | [] => .ok (w, some f)
        | '=' :: v => (w.give f (String.ofList v)).map (·, none)
        | v => (w.give f (String.ofList v)).map (·, none)
      else do giveLetters forms (← w.give f "") rest

def giveLong (forms : List OptionForm) (w : Words) (s : List Char) :
    Except Stop (Words × Option OptionForm) :=
  let (name, value) := match splitFirst? '=' s with
    | some (n, v) => (n, some (String.ofList v))
    | none => (s, none)
  match forms.find? (fun f => f.name == String.ofList name), value with
  | none, _ => .error .fault
  | some f, some v => if f.takesValue then (w.give f v).map (·, none) else .error .fault
  | some f, none => if f.takesValue then .ok (w, some f) else (w.give f "").map (·, none)

def giveOption (forms : List OptionForm) (w : Words) (word : String) :
    Except Stop (Words × Option OptionForm) :=
  match word.toList with
  | '-' :: '-' :: s => giveLong forms w s
  | s => giveLetters forms w (s.drop 1)

/-- Takes up words from left to right. Each is checked before the next is looked at. -/
def scan (form : LineForm) (w : Words) : List String → Except Stop Words
  | [] => .ok w
  | word :: rest =>
    if !isOption word then
      if form.plain = .command then .ok { w with plain := word :: rest }
      else do scan form (← w.givePlain form.plain word) rest
    else if word = "--" then
      if form.plain = .command then .error .fault
      else rest.foldlM (fun w word => w.givePlain form.plain word) w
    else do
      match ← giveOption form.options w word, rest with
      | (w, none), rest => scan form w rest
      | (w, some f), value :: rest =>
        if isOption value then .error .fault else do scan form (← w.give f value) rest
      | (_, some _), [] => .error .fault

end Words

namespace Command

def names : List String := ["validate", "show", "check", "reconfig", "init", "info"]

def helpForm : OptionForm := ⟨"help", some 'h', .final .help⟩

def pathForm (name : String) (letter : Option Char) : OptionForm :=
  ⟨name, letter, .once fun s => (readPath s).isSome⟩

def numberForm (name : String) : OptionForm := ⟨name, none, .once fun s => (readNumber s).isSome⟩

def versionForm (name : String) : OptionForm := ⟨name, none, .once fun s => (readVersion s).isSome⟩

def nextForm : OptionForm := ⟨"next", none, .often fun s => (readPath s).isSome⟩

def ackForm : OptionForm := ⟨"ack", some 'a', .often fun s => (readIds s).isSome⟩

def form : String → LineForm
  | "validate" => ⟨[helpForm], .file⟩
  | "show" => ⟨[helpForm, ⟨"json", none, .flag⟩], .file⟩
  | "check" => ⟨[helpForm, nextForm, ackForm], .file⟩
  | "reconfig" =>
    ⟨[helpForm, pathForm "committed" none, versionForm "from-version",
      versionForm "proposal-version", ackForm], .file⟩
  | "init" =>
    ⟨[helpForm, pathForm "output" (some 'o'), numberForm "servers", numberForm "observers"],
     .unused⟩
  | _ => ⟨[helpForm], .unused⟩

def acks (w : Words) : List UInt64 := ((w.values "ack").filterMap readIds).flatten

/-- The command that a name and the words after it make, unless a word is missing. -/
def ofWords (name : String) (w : Words) : Option Command :=
  match name with
  | "validate" => some (validate w.plain.head?)
  | "show" => some (display w.plain.head? (w.has "json"))
  | "check" => some (check w.plain.head? (w.values "next") (acks w))
  | "reconfig" => do
    let proposed ← w.plain.head?
    let version ← (w.value? "proposal-version").bind readVersion
    some (reconfig proposed (w.value? "committed") ((w.value? "from-version").bind readVersion)
      version (acks w))
  | "init" =>
    some (init ((w.value? "output").getD "dynamic.cfg")
      (((w.value? "servers").bind readNumber).getD 3)
      (((w.value? "observers").bind readNumber).getD 0))
  | "info" => some info
  | _ => none

end Command

structure Invocation where
  config : Option String
  command : Command
  deriving DecidableEq, Repr

namespace Invocation

def form : LineForm :=
  ⟨[Command.helpForm, ⟨"version", some 'V', .final .version⟩,
    Command.pathForm "config" (some 'c'), ⟨"log-level", some 'l', .once fun _ => true⟩], .command⟩

/-- Help is given on the whole, on one command, and on help itself. -/
def isTopic : List String → Bool
  | [] => true
  | [name] => name == "help" || Command.names.contains name
  | _ => false

/-- Reads the words of a command line. The settings file and the log level come before the name
of the command. -/
def parse (args : List String) : Except Stop Invocation := do
  let outer ← Words.scan form .empty args
  match outer.plain with
  | [] => .error .fault
  | "help" :: topic => .error (if isTopic topic then .help else .fault)
  | name :: rest =>
    if !Command.names.contains name then .error .fault
    else
      let inner ← Words.scan (Command.form name) .empty rest
      match Command.ofWords name inner with
      | some command => .ok (Invocation.mk (outer.value? "config") command)
      | none => .error .fault

end Invocation

/-- How a run of the tool ends: the status, and the line for the error stream. -/
structure Exit where
  status : UInt32
  complaint : Option String
  deriving DecidableEq, Repr

namespace Exit

/-- The line shown for an error, with its code where it has one. -/
def failureLine (e : Error) : String :=
  match e.code? with
  | some c => "✗ " ++ e.message ++ s!" (code {c.number})"
  | none => "✗ " ++ e.message

def usage : String :=
  "Usage: wolfquorum [-c FILE] [-l LEVEL] <validate|show|check|reconfig|init|info> ..."

end Exit

def Invocation.run (i : Invocation) : Action Unit := do
  let node ← match i.config with
    | some path => some <$> Node.load path
    | none => pure none
  i.command.run node

def respond (args : List String) : Script Exit :=
  match Invocation.parse args with
  | .error .fault => .done ⟨2, some Exit.usage⟩
  | .error .help => .print Exit.usage (.done ⟨0, none⟩)
  | .error .version => .print "wolfquorum 0.3.1" (.done ⟨0, none⟩)
  | .ok i => do
    match ← ExceptT.run i.run with
    | .ok () => pure ⟨0, none⟩
    | .error e => pure ⟨1, some (Exit.failureLine e)⟩

end Electorate

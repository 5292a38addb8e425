import Curly.Rendering.Engine
import Curly.Files.Directory
import Curly.Value.Order
import Curly.Yaml.Document

/-!
# Configurations

A configuration says where the templates are, how they are compiled and what is reported. It is
read from a mapping with known keys (`Config.ofEntries`), which a file may hold (`Config.ofFile`).
Each key is a `Config.Setting`, with a default and with the fault of a value that it cannot have.
Paths in a file are seen from the file's directory. How the text of a file is read as a value is a
parameter, which is `Yaml.read` unless it is given.

A value can be written as a text to see what it names, which fails for whole numbers with more
digits than the limit.

Unknown keys are named in their order; if they are in none, or are no texts, that is the fault.
-/

namespace Curly

/-- Where templates are, how they are compiled, and from which level on notices are shown. -/
structure Config where
  directory : FilePath
  suffix : String
  settings : Settings
  logLevel : Level
deriving Repr

/-- Why there is no configuration, or no data. -/
inductive ConfigFault where
  /-- Keys that no configuration has. -/
  | unknownKeys (names : List String)
  /-- A key that is no text, by its type. -/
  | keyNotText (typeName : String)
  /-- Keys that no configuration has, and that are in no order. -/
  | unordered (fault : OrderFault)
  /-- The value to read it from holds no mapping. -/
  | noMapping (fault : MappingFault)
  /-- The value of a key is no text. -/
  | notText (name : String)
  /-- The depth is not a positive whole number. -/
  | badDepth
  /-- The switch for blank runs is no truth value. -/
  | notBool
  /-- The level is none of those there are. -/
  | badLevel
  /-- A value cannot be written as a text, to see what it names. -/
  | noText (fault : NumeralFault)
  /-- It cannot be told whether there is a file at a path. -/
  | noAccess (path : String) (fault : AccessFault)
  /-- The file cannot be read. -/
  | unreadable (path reason : String)
  /-- The text of the file is not one value. -/
  | notData (path : String)
  /-- The text of the file is written like a value that there is not. -/
  | badData (fault : Yaml.Fault)
  /-- The value of the file is no mapping. -/
  | notMapping (path : String)
deriving DecidableEq, Repr

namespace ConfigFault

/-- The wording of a fault. -/
def message : ConfigFault → String
  | unknownKeys names => "Unknown config keys: " ++ ", ".intercalate names
  | keyNotText typeName =>
    "sequence item 0: expected str instance, " ++ typeName ++ " found"
  | unordered fault => fault.message
  | noMapping fault => fault.message
  | notText name => name ++ ": expected string"
  | badDepth => "max_include_depth: expected positive integer"
  | notBool => "trim_blank_runs: expected boolean"
  | badLevel => "log_level: expected one of " ++ ", ".intercalate (Level.all.map Level.name)
  | noText fault => fault.message
  | noAccess path fault => fault.message path
  | unreadable path reason => "Cannot read " ++ path ++ ": " ++ reason
  | notData path => "Invalid YAML in " ++ path ++ ": " ++ Yaml.Fault.malformed.message
  | badData fault => fault.message
  | notMapping path => "YAML must be a mapping: " ++ path

/-- Whether the author of a configuration is told of the fault in terms of the configuration. -/
def isExpected : ConfigFault → Bool
  | keyNotText _ | unordered _ | noMapping _ | noText _ | noAccess .. | badData _ => false
  | _ => true

end ConfigFault

/-! ## Settings -/

namespace Config

/-- The text that a value is. -/
def textOf? : Value → Except NumeralFault (Option String)
  | .str s => .ok (some s)
  | _ => .ok none

/-- The depth that a value is: a positive whole number. -/
def depthOf? : Value → Except NumeralFault (Option Int)
  | .int n => .ok (if 1 ≤ n then some n else none)
  | _ => .ok none

/-- The truth value that a value is. -/
def switchOf? : Value → Except NumeralFault (Option Bool)
  | .bool b => .ok (some b)
  | _ => .ok none

/-- The capital of a letter that has one among the ASCII letters. -/
def capital (c : Char) : Char :=
  if c = 'ı' then 'I' else if c = 'ſ' then 'S' else c.toUpper

/-- The level that the text of a value names, in letters of either case. -/
def levelOf? (v : Value) : Except NumeralFault (Option Level) := do
  let text ← v.plain
  return Level.ofName? (String.ofList (text.toList.map capital))

/-- A key that a configuration may have: the value it has if it is not given, how a value is read,
and the fault of one that is read as nothing. The default can be read, and the author of a
configuration is told of the fault under the name of the key. -/
structure Setting (α : Type) where
  name : String
  default : Value
  read? : Value → Except NumeralFault (Option α)
  fault : ConfigFault
  reads : ∃ a, read? default = .ok (some a)
  told : fault.isExpected ∧ ∃ wanted, fault.message = name ++ ": expected " ++ wanted

namespace Setting

/-- Where the templates are. -/
def directory : Setting String where
  name := "templates_dir"
  default := .str "."
  read? := textOf?
  fault := .notText "templates_dir"
  reads := ⟨_, rfl⟩
  told := ⟨rfl, "string", rfl⟩

/-- The suffix that is tried after a name. -/
def suffix : Setting String where
  name := "default_suffix"
  default := .str ""
  read? := textOf?
  fault := .notText "default_suffix"
  reads := ⟨_, rfl⟩
  told := ⟨rfl, "string", rfl⟩

/-- How many templates may be embedded in one another. -/
def maxDepth : Setting Int where
  name := "max_include_depth"
  default := .int 16
  read? := depthOf?
  fault := .badDepth
  reads := ⟨_, rfl⟩
  told := ⟨rfl, "positive integer", rfl⟩

/-- Whether the gaps between boundaries are dropped. -/
def dropGaps : Setting Bool where
  name := "trim_blank_runs"
  default := .bool true
  read? := switchOf?
  fault := .notBool
  reads := ⟨_, rfl⟩
  told := ⟨rfl, "boolean", rfl⟩

/-- From which level on notices are shown. -/
def logLevel : Setting Level where
  name := "log_level"
  default := .str "WARNING"
  read? := levelOf?
  fault := .badLevel
  reads := ⟨_, rfl⟩
  told := ⟨rfl, "one of CRITICAL, DEBUG, ERROR, INFO, WARNING", rfl⟩

variable {α : Type}

/-- What a mapping gives for a key, or the default if it has no such key. -/
def of (s : Setting α) (entries : Entries) : Except ConfigFault α :=
  match s.read? ((entries.get? s.name).getD s.default) with
  | .ok (some a) => .ok a
  | .ok none => .error s.fault
  | .error fault => .error (.noText fault)

end Setting

/-- The keys that a configuration may have. -/
def knownKeys : List String :=
  [Setting.directory.name, Setting.suffix.name, Setting.maxDepth.name, Setting.dropGaps.name,
    Setting.logLevel.name]

/-! ## Unknown keys -/

/-- Whether a configuration may have a key. -/
def isKnown : Key → Bool
  | .str name => knownKeys.contains name
  | _ => false

/-- The text that a key is. -/
def text? : Key → Option String
  | .str name => some name
  | _ => none

/-- The fault of keys that no configuration has; none if there are no such keys. -/
def unknownFault? (unknown : List Key) : Option ConfigFault :=
  match sortByKey (unknown.map (·, ())) with
  | .error fault => some (.unordered fault)
  | .ok sorted =>
    let keys := sorted.map Prod.fst
    match keys.find? fun k => (text? k).isNone with
    | some k => some (.keyNotText k.typeName)
    | none => if keys.isEmpty then none else some (.unknownKeys (keys.filterMap text?))

/-- Keys without those that are equal to an earlier one. -/
def distinctKeys (keys : List Key) : List Key :=
  (keys.foldl (fun seen k => if seen.any k.equal then seen else k :: seen) []).reverse

/-- Refuses keys that no configuration has. -/
def checkKeys (keys : List Key) : Except ConfigFault Unit :=
  match unknownFault? (distinctKeys (keys.filter fun k => !isKnown k)) with
  | some fault => .error fault
  | none => .ok ()

/-! ## Configurations -/

/-- The configuration of a mapping, whose paths are seen from `base` if there is one. The keys are
looked at in a fixed order, whatever the order of the mapping. -/
def ofEntries (entries : Entries) (base : Option FilePath) : Except ConfigFault Config := do
  checkKeys (entries.map Prod.fst)
  let path := FilePath.ofText (← Setting.directory.of entries)
  let suffix ← Setting.suffix.of entries
  let maxDepth ← Setting.maxDepth.of entries
  let dropGaps ← Setting.dropGaps.of entries
  let logLevel ← Setting.logLevel.of entries
  return {
    directory := (base.map (·.join path)).getD path
    suffix, settings := { dropGaps, maxDepth }, logLevel }

/-- The configuration that a value holds, a mapping as a rule. Its keys are looked at before it is
asked for entries. -/
def ofValue (v : Value) (base : Option FilePath) : Except ConfigFault Config := do
  match v.elements? with
  | none => throw (.noMapping (.noItems v.typeName))
  | some items =>
    checkKeys (← (Value.toKeys items).mapError fun typeName => .noMapping (.badKey typeName))
    ofEntries (← v.asEntries.mapError .noMapping) base

/-- The text that the contents of a file are. What cannot be read has a reason for its contents. -/
def textIn (path : FilePath) (contents : Except String ByteArray) : Except ConfigFault String :=
  match contents with
  | .error reason => .error (.unreadable path.toText reason)
  | .ok bytes => match Text.read? .utf8 bytes with
    | none => .error (.unreadable path.toText (Text.undecodable .utf8))
    | some text => .ok text

/-- The mapping that the text of a file is read as; a value that counts as false is an empty one. -/
def mappingOf (path : FilePath) : Except Yaml.Fault Value → Except ConfigFault Entries
  | .error .malformed => .error (.notData path.toText)
  | .error fault => .error (.badData fault)
  | .ok (.dict entries) => .ok entries
  | .ok v => if v.asBool then .error (.notMapping path.toText) else .ok []

/-- The mapping that a file holds by its contents. -/
def mappingIn (path : FilePath) (contents : Except String ByteArray)
    (parse : Yaml.Reader := Yaml.read) : Except ConfigFault Entries := do
  mappingOf path (parse (← textIn path contents))

/-- The mapping that a file of the disk holds. -/
def readMapping (d : Disk) (path : FilePath) (parse : Yaml.Reader := Yaml.read) :
    Except ConfigFault Entries :=
  if path.hasNul then .error (.noAccess path.toText .nulInside)
  else mappingIn path (d.contents path) parse

/-- The configuration that a file holds by its contents. -/
def ofContents (path : FilePath) (contents : Except String ByteArray)
    (parse : Yaml.Reader := Yaml.read) : Except ConfigFault Config := do
  ofEntries (← mappingIn path contents parse) (some path.parent)

/-- The configuration in a file, or the default one if there is no such file. -/
def ofFile (d : Disk) (path : FilePath) (parse : Yaml.Reader := Yaml.read) :
    Except ConfigFault Config :=
  match d.leads path with
  | .ok true => ofContents path (d.contents path) parse
  | .ok false => ofEntries [] (some path.parent)
  | .error fault => .error (.noAccess path.toText fault)

/-- The engine of a configuration, with the files of the disk as its source. There is none if the
character NUL is in the path of the templates. -/
def engine (c : Config) (d : Disk) : Except Failure Engine :=
  if c.directory.hasNul then .error (.noAccess c.directory.toText .nulInside)
  else .ok {
    source := some (Directory.source ⟨d.place c.directory, c.suffix, .utf8⟩ d .immediate)
    settings := c.settings }

end Config

end Curly

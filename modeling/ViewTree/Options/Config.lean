import ViewTree.Json.Typed
import ViewTree.Options

/-!
# Configuration texts

The text of a configuration file holds one set of options. The first problem is the
one that comes first in the text, and its message says where that is. Fields that
are no options are passed over.
-/

namespace ViewTree.Options

open Json (Fault)

/-- Reads a platform, or `null` for none. -/
def readPlatform (cs : List Char) : Except Fault (Option Platform × List Char) :=
  match Json.skipSpace cs with
  | 'n' :: rest => (Json.readWord ['u', 'l', 'l'] rest).map fun (_, r) => (none, r)
  | start => (Json.readChoice Platform.names start).map fun (p, r) => (some p, r)

/-- Reads the value of one option. -/
def readOption (options : Options) (name : String) (cs : List Char) :
    Except Fault (Options × List Char) :=
  match name with
  | "platform" => (readPlatform cs).map fun (p, r) => ({ options with platform := p }, r)
  | "runtimeModule" =>
    (Json.readText cs).map fun (s, r) => ({ options with runtimeModule := s }, r)
  | "componentDir" =>
    (Json.readText cs).map fun (s, r) => ({ options with componentDir := s }, r)
  | "styleDir" => (Json.readText cs).map fun (s, r) => ({ options with styleDir := s }, r)
  | "parallel" => (Json.readBool cs).map fun (b, r) => ({ options with parallel := b }, r)
  | _ => (Json.skip cs).map fun r => (options, r)

/-- A set of options as a record. -/
def shape : Json.RecordShape Options :=
  { title := "struct CompileOptions", names := fieldNames, read := readOption }

/-- The options of a configuration text; a fault is given as its description. -/
def parse (source : String) : Except String Options :=
  match Json.readWhole (shape.readRecord {}) source.toList with
  | .ok options => .ok options
  | .error fault => .error (fault.describe source.toList)

end ViewTree.Options

import Querier.Address.Text
import Querier.Config.Basic
import Querier.Json

/-!
# Configuration as JSON

A configuration is written as an object with a field per setting. Reading starts from the
default and takes the fields that are there; other fields are ignored, but a setting with
two fields is refused. The settings may also stand in a list, in order, from the first on.

Each kind of configuration is a table of its settings, with a reader and a writer per
setting, and both directions run over the table.
-/

namespace Querier

/-- A setting of a configuration `α`: its key, how its value is read into a
configuration, and how it is written. -/
structure SettingField (α : Type) where
  key : String
  read : Json → α → Option α
  write : α → Json

namespace SettingField

/-- Reads the values that belong to the settings, in order, and leaves the settings
without a value alone. There may not be more values than settings. -/
def readList {α : Type} : List (SettingField α) → List Json → α → Option α
  | _, [], a => some a
  | [], _ :: _, _ => none
  | f :: fs, v :: vs, a => (f.read v a).bind (readList fs vs)

/-- Reads the settings that have a field. No setting may have two. -/
def readObject {α : Type} (fields : List (String × Json)) :
    List (SettingField α) → α → Option α
  | [], a => some a
  | f :: fs, a =>
    match Json.values fields f.key with
    | [] => readObject fields fs a
    | [v] => (f.read v a).bind (readObject fields fs)
    | _ :: _ :: _ => none

/-- Reads a configuration. -/
def readTable {α : Type} (table : List (SettingField α)) (standard : α) : Json → Option α
  | .object fields => readObject fields table standard
  | .list items => readList table items standard
  | _ => none

/-- Writes a configuration. -/
def writeTable {α : Type} (table : List (SettingField α)) (a : α) : Json :=
  .object (table.map fun f => (f.key, f.write a))

end SettingField

/-! ## Values of settings -/

namespace Json

/-- The number of 64 bits that a value is. -/
def uInt64? (j : Json) : Option UInt64 := (j.below? (UInt64.size)).map UInt64.ofNat

/-- The number of 16 bits that a value is. -/
def uInt16? (j : Json) : Option UInt16 := (j.below? (UInt16.size)).map UInt16.ofNat

/-- The span of milliseconds that a value is. -/
def millis? (j : Json) : Option Duration := (j.below? (UInt64.size)).map Duration.ofMillis

/-- A span of time in milliseconds, of which 64 bits are kept. -/
def ofMillis (d : Duration) : Json := .int (d.toMillis % UInt64.size : Nat)

/-- The address of a family that a value is. -/
def address? (f : Family) (j : Json) : Option { a : IpAddress // a.family = f } :=
  match j.text? with
  | none => none
  | some s =>
    match IpAddress.ofTextIn? f (Octets.ofText s) with
    | none => none
    | some a => if h : a.family = f then some ⟨a, h⟩ else none

end Json

namespace DnssecMode

/-- The modes with their names. -/
def names : List (DnssecMode × String) :=
  [(.off, "off"), (.processNoValidate, "process-no-validate"), (.process, "process"),
    (.logFail, "log-fail"), (.validate, "validate")]

/-- The name of a mode. -/
def name : DnssecMode → String
  | .off => "off"
  | .processNoValidate => "process-no-validate"
  | .process => "process"
  | .logFail => "log-fail"
  | .validate => "validate"

/-- The mode with a name. -/
def ofName? (s : String) : Option DnssecMode :=
  (names.find? fun entry => entry.2 == s).map (·.1)

/-- The mode that a value is: a name, or an object with the name as its only key and no
value. -/
def ofJson? : Json → Option DnssecMode
  | .text s => ofName? s
  | .object [(s, .null)] => ofName? s
  | _ => none

end DnssecMode

/-! ## The two kinds of configuration -/

namespace PoolConfig

/-- The settings of a pool. -/
def table : List (SettingField PoolConfig) := [
  { key := "max-idle-per-host"
    read := fun j c => j.uInt64?.map fun v => { c with maxIdlePerHost := v }
    write := fun c => .int c.maxIdlePerHost.toNat },
  { key := "max-idle-total"
    read := fun j c => j.uInt64?.map fun v => { c with maxIdleTotal := v }
    write := fun c => .int c.maxIdleTotal.toNat },
  { key := "max-idle-time"
    read := fun j c => j.millis?.map fun d => { c with maxIdleTime := d }
    write := fun c => .ofMillis c.maxIdleTime },
  { key := "max-queries"
    read := fun j c => j.uInt64?.map fun v => { c with maxQueries := v }
    write := fun c => .int c.maxQueries.toNat }]

/-- Reads the configuration of a pool. -/
def ofJson? : Json → Option PoolConfig := SettingField.readTable table {}

/-- Writes the configuration of a pool. -/
def toJson : PoolConfig → Json := SettingField.writeTable table

end PoolConfig

namespace Config

/-- The settings of the query engine. -/
def table : List (SettingField Config) := [
  { key := "network-timeout"
    read := fun j c => j.millis?.map fun d => c.set (.networkTimeout d)
    write := fun c => .ofMillis c.networkTimeout },
  { key := "edns-bufsize"
    read := fun j c => j.uInt16?.map fun v => c.set (.bufferSize v)
    write := fun c => .int c.bufferSize.toNat },
  { key := "dnssec"
    read := fun j c => (DnssecMode.ofJson? j).map fun m => c.set (.dnssec m)
    write := fun c => .text c.dnssec.name },
  { key := "dot-to-port-853"
    read := fun j c => j.bool?.map fun on => c.set (.dotToPort853 on)
    write := fun c => .bool c.dotToPort853 },
  { key := "padding-outgoing"
    read := fun j c => j.bool?.map fun on => c.set (.padding on)
    write := fun c => .bool c.padding },
  { key := "ecs-hardening"
    read := fun j c => j.bool?.map fun on => c.set (.subnetHardening on)
    write := fun c => .bool c.subnetHardening },
  { key := "log-common-errors"
    read := fun j c => j.bool?.map fun on => c.set (.logCommonErrors on)
    write := fun c => .bool c.logCommonErrors },
  { key := "local-v4"
    read := fun j c => (j.address? .v4).map fun a => c.set (.localV4 a.1 a.2)
    write := fun c => .text c.localV4.toText },
  { key := "local-v6"
    read := fun j c => (j.address? .v6).map fun a => c.set (.localV6 a.1 a.2)
    write := fun c => .text c.localV6.toText },
  { key := "pool"
    read := fun j c => (PoolConfig.ofJson? j).map fun p => { c with pool := p }
    write := fun c => c.pool.toJson }]

/-- Reads a configuration. -/
def ofJson? : Json → Option Config := SettingField.readTable table {}

/-- Writes a configuration. -/
def toJson : Config → Json := SettingField.writeTable table

end Config

end Querier
